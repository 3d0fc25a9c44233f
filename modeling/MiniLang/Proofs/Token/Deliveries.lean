import MiniLang.Proofs.Session.Progress
import MiniLang.Proofs.Token.Names
import MiniLang.Token.Lexer

/-!
# What is delivered

Every delivery of a source text is one that a parser can rely on (`deliveries_fit`): its token has a
place in the text, an identifier is a name, and with a token that is unknown comes an error.
-/

set_option autoImplicit false

namespace MiniLang

/-- A token can stand in a source text, and an identifier is a name. -/
structure Token.Fit (t : Token) : Prop where
  valid : t.span.Valid
  isName : t.kind = .identifier → IsName t.text

theorem Token.fit_endAt {span : Span} (h : span.Valid) : (Token.endAt span).Fit :=
  ⟨h, fun same => by cases same⟩

/-- The token of a delivery is fit, and with an unknown one comes an error. -/
structure Delivery.Fit (d : Delivery) : Prop where
  token : d.token.Fit
  unknown : d.token.kind = .unknown → Diagnostics.hasErrors d.diagnostics = true

/-- Taking a delivery takes no error back. -/
theorem Delivery.leads_notify (d : Delivery) (s : Session) : s.Leads (d.notify s) := by
  unfold notify
  split
  · exact (Session.Leads.cancel s).trans (.recordAll ..)
  · exact .recordAll ..

theorem Delivery.Fit.errors {d : Delivery} (h : d.Fit) (unknown : d.token.kind = .unknown)
    (s : Session) : (d.notify s).hasErrors = true := by
  rw [notify, Session.hasErrors_recordAll, h.unknown unknown, Bool.or_true]

namespace LexemeClass

/-- The first class that fits is one of those tried, and does fit. -/
theorem firstMatch?_eq_some {cs lexeme : List Char} {cls : LexemeClass} :
    ∀ {classes : List LexemeClass}, firstMatch? cs classes = some (cls, lexeme) →
      cls ∈ classes ∧ cls.take? cs = some lexeme
  | [], h => by cases h
  | first :: rest, h => by
    unfold firstMatch? at h
    split at h
    next found =>
      cases h
      exact ⟨List.mem_cons_self, found⟩
    next =>
      obtain ⟨mem, found⟩ := firstMatch?_eq_some h
      exact ⟨List.mem_cons_of_mem _ mem, found⟩

/-- No sign is an identifier or unknown. -/
theorem sign_kind {text : List Char} {kind : TokenKind} (h : sign text kind ∈ table) :
    kind ≠ .identifier ∧ kind ≠ .unknown := by
  have all : table.all (fun cls => match cls with
      | sign _ kind => kind ≠ .identifier ∧ kind ≠ .unknown
      | _ => true) = true := by decide
  simpa using List.all_eq_true.1 all _ h

end LexemeClass

/-- Reserved words are no identifiers. -/
theorem keyword?_ne {word : String} {kind : TokenKind} (h : keyword? word = some kind) :
    kind ≠ .identifier ∧ kind ≠ .unknown := by
  have all : keywords.all (fun entry => entry.2 ≠ .identifier ∧ entry.2 ≠ .unknown) = true := by
    decide
  obtain ⟨before, after, split, -⟩ := List.lookup_eq_some_iff.1 h
  have mem : (word, kind) ∈ keywords := by
    rw [split]
    exact List.mem_append_right _ List.mem_cons_self
  simpa using List.all_eq_true.1 all _ mem

/-- What a lexeme becomes: an identifier is a name, and about what is unknown there is a
complaint. -/
theorem LexemeClass.meaning_fit {cs lexeme : List Char} {cls : LexemeClass} {kind : TokenKind}
    {problem : Option Problem} (mem : cls ∈ table) (found : cls.take? cs = some lexeme)
    (means : cls.meaning lexeme = some (kind, problem)) :
    (kind = .identifier → IsName (String.ofList lexeme)) ∧
      (kind = .unknown → ∃ p, problem = some p ∧ p.isWarning = false) := by
  cases cls with
  | name =>
    cases means
    cases reserved : keyword? (String.ofList lexeme) with
    | some kind =>
      obtain ⟨notName, notUnknown⟩ := keyword?_ne reserved
      exact ⟨fun same => absurd same notName, fun same => absurd same notUnknown⟩
    | none =>
      refine ⟨fun _ => ?_, fun same => by cases same⟩
      cases cs with
      | nil => cases found
      | cons c rest =>
        simp only [take?] at found
        split at found
        next start =>
          cases found
          refine ⟨c, rest.takeWhile isNamePart, String.toList_ofList, start, fun d mem => ?_,
            reserved⟩
          exact List.all_eq_true.1 List.all_takeWhile d mem
        next => cases found
  | number =>
    simp only [meaning] at means
    split at means
    · cases means
      exact ⟨(fun same => by cases same), fun same => by cases same⟩
    · cases means
      exact ⟨(fun same => by cases same), fun _ => ⟨_, rfl, rfl⟩⟩
  | blank => cases means
  | comment => cases means
  | sign text kind =>
    cases means
    obtain ⟨notName, notUnknown⟩ := sign_kind mem
    exact ⟨fun same => absurd same notName, fun same => absurd same notUnknown⟩

namespace Cursor

/-- Lines and columns are counted from one. -/
def Counts (c : Cursor) : Prop := 1 ≤ c.line ∧ 1 ≤ c.column

theorem Counts.advance {c : Cursor} (h : c.Counts) (text : List Char) :
    (c.advance text).Counts := by
  have counts : ∀ (text : List Char) (position : Nat × Nat), 1 ≤ position.1 ∧ 1 ≤ position.2 →
      1 ≤ (text.foldl positionAfter position).1 ∧ 1 ≤ (text.foldl positionAfter position).2 := by
    intro text
    induction text with
    | nil => exact fun _ h => h
    | cons first rest ih =>
      intro position h
      refine ih _ ?_
      unfold positionAfter
      split
      · exact ⟨Nat.le_add_left 1 _, Nat.le_refl 1⟩
      · exact ⟨h.1, Nat.le_add_left 1 _⟩
  exact counts text (c.line, c.column) h

theorem Counts.valid {c : Cursor} (h : c.Counts) (text : List Char) : (c.spanOf text).Valid :=
  ⟨h.1, h.2, Nat.le_add_right ..⟩

end Cursor

/-- The token that is read next is fit. -/
theorem Lexer.read_fit :
    ∀ (fuel : Nat) {c : Cursor}, c.Counts → (read fuel c).1.Fit ∧ (read fuel c).2.Counts
  | 0, c, h => ⟨⟨Token.fit_endAt (h.valid []), (fun same => by cases same)⟩, h⟩
  | fuel + 1, c, h => by
    unfold read
    split
    · exact ⟨⟨Token.fit_endAt (h.valid []), (fun same => by cases same)⟩, h⟩
    · split
      · exact ⟨⟨⟨h.valid _, (fun same => by cases same)⟩, fun _ => rfl⟩, h.advance _⟩
      next found =>
        obtain ⟨mem, fits⟩ := LexemeClass.firstMatch?_eq_some found
        split
        · exact read_fit fuel (h.advance _)
        next means =>
          obtain ⟨isName, complaint⟩ := LexemeClass.meaning_fit mem fits means
          refine ⟨⟨⟨h.valid _, isName⟩, fun unknown => ?_⟩, h.advance _⟩
          obtain ⟨p, rfl, isError⟩ := complaint unknown
          change Diagnostics.hasErrors [.of p _] = true
          rw [Diagnostics.hasErrors_of, isError]
          rfl

/-- All tokens that are read are fit. -/
theorem Lexer.readAll_fit :
    ∀ (fuel : Nat) {c : Cursor}, c.Counts → ∀ d ∈ readAll fuel c, d.Fit
  | 0, c, h, d, mem => by cases mem
  | fuel + 1, c, h, d, mem => by
    obtain ⟨fit, counts⟩ := read_fit (fuel + 1) h
    simp only [readAll] at mem
    split at mem
    · rw [List.mem_singleton.1 mem]
      exact fit
    · rcases List.mem_cons.1 mem with rfl | mem
      · exact fit
      · exact readAll_fit fuel counts d mem

/-- All deliveries of a source text are fit. -/
theorem deliveries_fit (source : List Char) : ∀ d ∈ deliveries source, d.Fit :=
  Lexer.readAll_fit _ ⟨Nat.le_refl 1, Nat.le_refl 1⟩

end MiniLang
