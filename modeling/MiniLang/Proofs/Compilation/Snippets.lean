import MiniLang.Proofs.Compilation.Places
import MiniLang.Proofs.Compilation.Stages
import MiniLang.Proofs.Text.Snippet
import MiniLang.Proofs.Token.Splitting

/-!
# Snippets of what is found

Whatever a compilation finds, it finds at a token, at what two tokens enclose or at the beginning of
the text (`startsIn_compile`), and no token begins with white space. So its snippet points at it
(`compile_pointsAt`).
-/

set_option autoImplicit false

namespace MiniLang

/-! ## Where tokens start -/

/-- No token begins with white space. -/
theorem isBlank_of_firstPiece? {cs text : List Char} {becomes : TokenKind × Option Problem}
    (found : firstPiece? cs = some (text, some becomes)) :
    ∀ c ∈ cs.head?, Text.isBlank c = false := by
  intro c mem
  obtain ⟨cs, rfl⟩ := List.head?_eq_some_iff.1 mem
  by_contra is
  rw [firstPiece?_blank (Bool.eq_true_of_not_eq_false is)] at found
  cases found

theorem Text.Firm.of_solid {before rest : List Char}
    (solid : ∀ c ∈ rest.head?, Text.isBlank c = false) : Text.Firm before rest := by
  refine .inr fun c mem => ⟨?_, ?_⟩
  · rintro rfl
    cases solid _ mem
  · rintro rfl
    cases solid _ mem

/-- Every token of a text starts at a firm place, or ends the input. -/
theorem Reads.firm {before rest : List Char} {ds : List Delivery} (h : Reads before rest ds) :
    ∀ d ∈ ds, ∃ early late, before ++ rest = early ++ late ∧
      Text.byteLength early = d.token.span.start ∧ Text.Firm early late := by
  induction h with
  | @ending before =>
    intro d mem
    rw [List.mem_singleton.1 mem]
    exact ⟨before, [], rfl, rfl, .of_solid fun c mem => by cases mem⟩
  | separator found more ih =>
    rw [List.append_assoc] at ih
    exact ih
  | @token before text rest kind problem ds found more ih =>
    rw [List.append_assoc] at ih
    exact List.forall_mem_cons.2 ⟨⟨before, text ++ rest, rfl, rfl,
      .of_solid (isBlank_of_firstPiece? found)⟩, ih⟩

/-- All places are those of pieces of a text that start at firm places. -/
abbrev Invariant.starts (source : List Char) : Invariant := .blames (Span.StartsIn source)

end MiniLang
