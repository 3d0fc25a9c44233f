/-!
# Joining texts

Lists of texts are written one after the other with a separator between neighbours.
-/

set_option autoImplicit false

namespace MiniLang.Text

/-- The given texts in order, with `separator` between each two neighbours. -/
def joinWith (separator : String) : List String → String
  | [] => ""
  | [text] => text
  | text :: rest => text ++ separator ++ joinWith separator rest

/-- Two or more texts: the first one, the separator, and the others joined. -/
theorem joinWith_cons_cons (separator first second : String) (rest : List String) :
    joinWith separator (first :: second :: rest) =
      first ++ separator ++ joinWith separator (second :: rest) := rfl

end MiniLang.Text
