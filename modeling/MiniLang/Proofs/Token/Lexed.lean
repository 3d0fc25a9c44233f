import MiniLang.Proofs.Token.Scanning

/-!
# Tokens of source texts

What a consumer of the tokens of a text can count on besides that they are fit: only what is unknown
brings a problem along, which is about the lexeme alone, every number has a value, and nothing comes
after the token that ends the input (`lexed_deliveries`, `isChain_deliveries`).
-/

set_option autoImplicit false

namespace MiniLang

open LexemeClass

/-- If a token is a number, it has a value. -/
def Token.HasValue (t : Token) : Prop :=
  t.kind = .integer → (Integer.parse? t.text.toList).isSome = true

theorem Token.hasValue_endAt (span : Span) : (Token.endAt span).HasValue := fun is => by cases is

/-- A delivery is one that a text can give. -/
structure Delivery.Lexed (d : Delivery) : Prop where
  uncancelled : d.cancels = false
  unknown : ∀ p ∈ d.problem, d.token.kind = .unknown
  lexical : ∀ p ∈ d.problem, p.category = .lexical
  hasValue : d.token.HasValue

namespace Delivery.Lexed

variable {d : Delivery}

/-- The token that ends the input. -/
theorem ending (span : Span) : Delivery.Lexed { token := .endAt span } where
  uncancelled := rfl
  unknown := fun _ mem => by cases mem
  lexical := fun _ mem => by cases mem
  hasValue := Token.hasValue_endAt span

theorem diagnostics_lexical (h : d.Lexed) {x : Diagnostic} (mem : x ∈ d.diagnostics) :
    x.problem.category = .lexical ∧ x.isError = true := by
  obtain ⟨p, there, rfl⟩ := List.mem_map.1 mem
  have lexical := h.lexical p (Option.mem_toList.1 there)
  refine ⟨lexical, ?_⟩
  rw [Diagnostic.isError_of, Problem.isWarning, lexical]
  rfl

/-- Taking the delivery cancels nothing. -/
theorem notify (h : d.Lexed) (s : Session) : d.notify s = s.recordAll d.diagnostics := by
  rw [Delivery.notify, h.uncancelled]
  rfl

/-- What is known brings no problem along. -/
theorem problem_eq_none (h : d.Lexed) (known : d.token.kind ≠ .unknown) : d.problem = none := by
  cases found : d.problem with
  | none => rfl
  | some p => exact absurd (h.unknown p found) known

end Delivery.Lexed

/-- No sign is a number. -/
theorem LexemeClass.sign_ne_integer {text : List Char} {kind : TokenKind}
    (h : sign text kind ∈ table) : kind ≠ .integer := by
  rintro rfl
  simp [table] at h

/-- No reserved word is a number. -/
theorem keyword?_ne_integer {word : String} {kind : TokenKind} (h : keyword? word = some kind) :
    kind ≠ .integer := by
  rintro rfl
  have mem := mem_of_lookup h
  simp [keywords] at mem

/-- What a lexeme becomes: only what is unknown brings a problem along, and a number has a value. -/
theorem LexemeClass.meaning_lexed {lexeme : List Char} {cls : LexemeClass} {kind : TokenKind}
    {problem : Option Problem} (mem : cls ∈ table)
    (means : cls.meaning lexeme = some (kind, problem)) :
    (∀ p ∈ problem, kind = .unknown) ∧ (∀ p ∈ problem, p.category = .lexical) ∧
      (kind = .integer → (Integer.parse? lexeme).isSome = true) := by
  have silent : ∀ {kind : TokenKind}, kind ≠ .integer →
      (∀ p ∈ (none : Option Problem), kind = .unknown) ∧
        (∀ p ∈ (none : Option Problem), p.category = .lexical) ∧
        (kind = .integer → (Integer.parse? lexeme).isSome = true) :=
    fun ne => ⟨(fun _ mem => by cases mem), (fun _ mem => by cases mem), fun is => absurd is ne⟩
  cases cls with
  | name =>
    cases means
    refine silent ?_
    cases reserved : keyword? (String.ofList lexeme) with
    | none => exact fun same => by cases same
    | some kind => exact keyword?_ne_integer reserved
  | number =>
    simp only [meaning] at means
    split at means
    next value =>
      cases means
      exact ⟨(fun _ mem => by cases mem), (fun _ mem => by cases mem), fun _ => value⟩
    next =>
      cases means
      exact ⟨fun _ _ => rfl, (fun p mem => by cases mem; rfl), fun is => by cases is⟩
  | blank => cases means
  | comment => cases means
  | sign text kind =>
    cases means
    exact silent (sign_ne_integer mem)

namespace Lexer

theorem lexed_read : ∀ (fuel : Nat) (c : Cursor), (read fuel c).1.Lexed
  | 0, c => .ending _
  | fuel + 1, c => by
    unfold read
    split
    · exact .ending _
    · split
      · exact ⟨rfl, fun _ _ => rfl, (fun p mem => by cases mem; rfl), fun is => by cases is⟩
      next found =>
        obtain ⟨mem, -⟩ := firstMatch?_eq_some found
        split
        · exact lexed_read fuel _
        next means =>
          obtain ⟨unknown, lexical, integer⟩ := meaning_lexed mem means
          refine ⟨rfl, unknown, lexical, ?_⟩
          simpa [Token.HasValue, Cursor.token] using integer

theorem lexed_readAll : ∀ (fuel : Nat) (c : Cursor), ∀ d ∈ readAll fuel c, d.Lexed
  | 0, _, _, mem => by cases mem
  | fuel + 1, c, d, mem => by
    simp only [readAll] at mem
    split at mem
    · rw [List.mem_singleton.1 mem]
      exact lexed_read (fuel + 1) c
    · rcases List.mem_cons.1 mem with rfl | mem
      · exact lexed_read (fuel + 1) c
      · exact lexed_readAll fuel _ d mem

theorem isChain_readAll : ∀ (fuel : Nat) (c : Cursor),
    (readAll fuel c).IsChain fun d _ => d.token.kind ≠ .endOfInput
  | 0, _ => .nil
  | fuel + 1, c => by
    simp only [readAll]
    split
    · exact .singleton _
    next more => exact List.isChain_cons.2 ⟨fun _ _ => more, isChain_readAll fuel _⟩

end Lexer

/-- All tokens of a text. -/
theorem lexed_deliveries (source : List Char) : ∀ d ∈ deliveries source, d.Lexed :=
  Lexer.lexed_readAll _ _

/-- Nothing comes after the token that ends the input. -/
theorem isChain_deliveries (source : List Char) :
    (deliveries source).IsChain fun d _ => d.token.kind ≠ .endOfInput :=
  Lexer.isChain_readAll _ _

/-- Taking deliveries records what comes with them in their order. -/
theorem Delivery.foldl_notify {ds : List Delivery} (lexed : ∀ d ∈ ds, d.Lexed) (s : Session) :
    ds.foldl (fun s d => d.notify s) s = s.recordAll (ds.flatMap Delivery.diagnostics) := by
  induction ds generalizing s with
  | nil => exact (Session.recordAll_nil s).symm
  | cons d ds ih =>
    rw [List.foldl_cons, (lexed d List.mem_cons_self).notify,
      ih fun d mem => lexed d (List.mem_cons_of_mem _ mem)]
    simp [Session.recordAll]

/-- The diagnostics that are recorded when all tokens of a text are taken. -/
def tokenReports (source : List Char) : List Diagnostic :=
  ((deliveries source).foldl (fun s d => d.notify s) Session.fresh).diagnostics

theorem tokenReports_eq (source : List Char) :
    tokenReports source = (deliveries source).flatMap Delivery.diagnostics := by
  rw [tokenReports, Delivery.foldl_notify (lexed_deliveries source)]
  rfl

end MiniLang
