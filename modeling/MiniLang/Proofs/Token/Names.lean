import MiniLang.Token.Lexeme

/-!
# Names

Which texts are names. Names that are generated start with a character that no name has
(`IsName.ne_of_dollar`).
-/

set_option autoImplicit false

namespace MiniLang

/-- A letter or underscore, then letters, digits and underscores, and no reserved word. -/
def IsName (text : String) : Prop :=
  ∃ c cs, text.toList = c :: cs ∧ LexemeClass.isNameStart c = true ∧
    (∀ d ∈ cs, LexemeClass.isNamePart d = true) ∧ keyword? text = none

/-- What starts with a dollar sign is no name. -/
theorem IsName.ne_of_dollar {name : String} (h : IsName name) (text : String) :
    name ≠ "$" ++ text := by
  rintro rfl
  obtain ⟨c, cs, chars, start, -⟩ := h
  rw [String.toList_append] at chars
  obtain ⟨rfl, -⟩ := List.cons.inj chars
  exact absurd start (by decide)

end MiniLang
