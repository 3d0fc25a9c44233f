import MiniLang.Session

/-!
# Sessions that can be cancelled together

Whoever may cancel compilations holds a token. Tokens and sessions refer to flags; a copy of a
token refers to the same flag as the token, and to cancel by a token is to cancel every session
that refers to its flag.
-/

set_option autoImplicit false

namespace MiniLang

/-- Flags, and the tokens and sessions that refer to them. -/
structure SharedSessions where
  /-- Whether each flag is set. -/
  flags : List Bool := []
  /-- The flag of each token. -/
  tokens : List Nat := []
  /-- The sessions, each with its flag. -/
  sessions : List (Nat × Session) := []
  deriving Repr

namespace SharedSessions

/-- Adds a flag that is not set, and gives its number. -/
def addFlag (g : SharedSessions) : Nat × SharedSessions :=
  (g.flags.length, { g with flags := g.flags ++ [false] })

/-- Adds a token with a flag of its own. -/
def addToken (g : SharedSessions) : SharedSessions :=
  let (flag, g) := g.addFlag
  { g with tokens := g.tokens ++ [flag] }

/-- Adds a copy of a token. -/
def copyToken (g : SharedSessions) (token : Nat) : SharedSessions :=
  { g with tokens := g.tokens ++ g.tokens[token]?.toList }

/-- Whether a flag is set. -/
def isSet (g : SharedSessions) (flag : Nat) : Bool := g.flags[flag]?.getD false

/-- Adds a session that a token can cancel, or, without a token, that nobody can. -/
def addSession (g : SharedSessions) (token : Option Nat) : SharedSessions :=
  match token.bind (g.tokens[·]?) with
  | some flag =>
    let session := if g.isSet flag then Session.fresh.cancel else .fresh
    { g with sessions := g.sessions ++ [(flag, session)] }
  | none =>
    let (flag, g) := g.addFlag
    { g with sessions := g.sessions ++ [(flag, .fresh)] }

/-- Cancels by a token. -/
def cancel (g : SharedSessions) (token : Nat) : SharedSessions :=
  match g.tokens[token]? with
  | none => g
  | some flag =>
    { g with
      flags := g.flags.set flag true
      sessions := g.sessions.map fun (f, s) => (f, if f = flag then s.cancel else s) }

/-- Whether each token was cancelled. -/
def cancelled (g : SharedSessions) : List Bool := g.tokens.map g.isSet

/-- A session. -/
def session? (g : SharedSessions) (index : Nat) : Option Session :=
  (g.sessions[index]?).map Prod.snd

/-- Puts a later state of a session in its place. -/
def setSession (g : SharedSessions) (index : Nat) (s : Session) : SharedSessions :=
  { g with sessions := g.sessions.modify index fun (flag, _) => (flag, s) }

end SharedSessions

end MiniLang
