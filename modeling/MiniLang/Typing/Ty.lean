import MiniLang.Syntax.Stmt
import MiniLang.Text.Join

/-!
# Types

Expressions have numbers, truth values or nothing as values; functions have types of their own.
Two more types stand for what is not known yet, and for what somebody has complained about already;
both keep further complaints from being made.
-/

set_option autoImplicit false

namespace MiniLang

/-- The types of expressions and of names. -/
inductive Ty where
  | int
  | bool
  /-- What a function without a return type gives. -/
  | unit
  | function (params : List Ty) (result : Ty)
  /-- Not known yet. -/
  | unknown
  /-- Complained about already. -/
  | error
  deriving Repr, Inhabited

namespace Ty

mutual

/-- Whether two types are the same. -/
def same : Ty → Ty → Bool
  | int, int => true
  | bool, bool => true
  | unit, unit => true
  | function params result, function params' result' =>
    sameAll params params' && same result result'
  | unknown, unknown => true
  | error, error => true
  | _, _ => false

/-- Whether two lists of types are the same. -/
def sameAll : List Ty → List Ty → Bool
  | [], [] => true
  | a :: as, b :: bs => same a b && sameAll as bs
  | _, _ => false

end

mutual

theorem eq_of_same : ∀ {a b : Ty}, same a b = true → a = b
  | int, b, h => by cases b <;> simp_all [same]
  | bool, b, h => by cases b <;> simp_all [same]
  | unit, b, h => by cases b <;> simp_all [same]
  | unknown, b, h => by cases b <;> simp_all [same]
  | error, b, h => by cases b <;> simp_all [same]
  | function params result, b, h => by
    cases b with
    | function params' result' =>
      simp only [same, Bool.and_eq_true] at h
      rw [eq_of_sameAll h.1, eq_of_same h.2]
    | _ => simp [same] at h

theorem eq_of_sameAll : ∀ {as bs : List Ty}, sameAll as bs = true → as = bs
  | [], bs, h => by cases bs <;> simp_all [sameAll]
  | a :: as, bs, h => by
    cases bs with
    | nil => simp [sameAll] at h
    | cons b bs =>
      simp only [sameAll, Bool.and_eq_true] at h
      rw [eq_of_same h.1, eq_of_sameAll h.2]

end

mutual

theorem same_self : ∀ a : Ty, same a a = true
  | int | bool | unit | unknown | error => rfl
  | function params result => by simp [same, sameAll_self params, same_self result]

theorem sameAll_self : ∀ as : List Ty, sameAll as as = true
  | [] => rfl
  | a :: as => by simp [sameAll, same_self a, sameAll_self as]

end

instance : DecidableEq Ty := fun a b =>
  if h : same a b = true then isTrue (eq_of_same h)
  else isFalse fun equal => h (equal ▸ same_self a)

/-- The type that is written with a name. -/
def ofName : TypeName → Ty
  | .int => int
  | .bool => bool

/-- The type that a function gives back, as it is written or left out. -/
def ofReturn : Option WrittenType → Ty
  | some type => ofName type.name
  | none => unit

/-- Whether a type keeps further complaints from being made. -/
def isError : Ty → Bool
  | error | unknown => true
  | _ => false

/-- Whether a variable can hold values of a type. -/
def isValue : Ty → Bool
  | int | bool => true
  | _ => false

mutual

/-- A type as messages show it. -/
def text : Ty → String
  | int => "int"
  | bool => "bool"
  | unit => "unit"
  | function params result => "fn(" ++ Text.joinWith ", " (texts params) ++ ") -> " ++ text result
  | unknown => "unknown"
  | error => "<error>"

/-- The texts of types. -/
def texts : List Ty → List String
  | [] => []
  | a :: as => text a :: texts as

end

/-- The type of a function, from the types that are written for it. -/
def ofHeader (f : FunctionHeader) : Ty :=
  function (f.params.map fun p => ofName p.type.name) (ofReturn f.returnType)

end Ty

end MiniLang
