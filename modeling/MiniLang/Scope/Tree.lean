import MiniLang.Typing.Ty

/-!
# Scopes

Scopes form a tree whose root, with number zero, is the global scope; every other scope has a
smaller number as its parent. A scope declares symbols, no two with one name. Looking up a name
starts in a scope and goes on to the scopes around it until one declares the name.
-/

set_option autoImplicit false

namespace MiniLang

/-- The number of a scope. -/
abbrev ScopeId := Nat

/-- The number of the global scope. -/
def globalScope : ScopeId := 0

/-- Refers to a symbol: the scope that declares it, and its place there. -/
structure SymbolRef where
  scope : ScopeId
  index : Nat
  deriving DecidableEq, Repr

/-- What a symbol stands for. -/
inductive SymbolKind where
  | variable
  | parameter
  | function
  deriving DecidableEq, Repr

/-- A declared name. -/
structure Symbol where
  name : String
  kind : SymbolKind
  /-- The type that the source text states; a variable may leave it to be inferred. -/
  type : Option Ty
  scope : ScopeId
  span : Span
  /-- The node that declares the name; names that no program declares have none. -/
  node : Option NodeId
  deriving DecidableEq, Repr

/-- What opens a scope. -/
inductive ScopeKind where
  | global
  | function
  | block
  deriving DecidableEq, Repr

/-- A scope and the symbols it declares, in order. -/
structure Scope where
  id : ScopeId
  parent : Option ScopeId
  kind : ScopeKind
  symbols : List Symbol := []
  deriving DecidableEq, Repr

namespace Scope

/-- The place of the symbol with a given name. -/
def get? (s : Scope) (name : String) : Option Nat := s.symbols.findIdx? (·.name == name)

end Scope

/-- Scopes by number. -/
structure ScopeTree where
  scopes : List Scope
  deriving DecidableEq, Repr

namespace ScopeTree

/-- The tree that holds the global scope alone. -/
def new : ScopeTree := ⟨[{ id := globalScope, parent := none, kind := .global }]⟩

/-- How many scopes there are. -/
def size (t : ScopeTree) : Nat := t.scopes.length

/-- The scope with a number. -/
def scope? (t : ScopeTree) (id : ScopeId) : Option Scope := t.scopes[id]?

/-- The symbol that a reference refers to. -/
def symbol? (t : ScopeTree) (ref : SymbolRef) : Option Symbol := do
  let scope ← t.scope? ref.scope
  scope.symbols[ref.index]?

/-- Adds an empty scope inside `parent`, and gives its number. -/
def push (t : ScopeTree) (kind : ScopeKind) (parent : ScopeId) : ScopeId × ScopeTree :=
  (t.size, ⟨t.scopes ++ [{ id := t.size, parent := some parent, kind := kind }]⟩)

/-- Adds a symbol to the scope it names and gives a reference to it, or the reference to the symbol
that has its name there already. There has to be such a scope. -/
def declare (t : ScopeTree) (symbol : Symbol) : Except SymbolRef (SymbolRef × ScopeTree) :=
  match t.scope? symbol.scope with
  | none => .error ⟨symbol.scope, 0⟩
  | some scope =>
    match scope.get? symbol.name with
    | some index => .error ⟨symbol.scope, index⟩
    | none =>
      let grown := { scope with symbols := scope.symbols ++ [symbol] }
      .ok (⟨symbol.scope, scope.symbols.length⟩, ⟨t.scopes.set symbol.scope grown⟩)

/-- Looks a name up in a scope and in those around it, in at most as many scopes as the number
says. -/
def lookupFrom (t : ScopeTree) (name : String) : Nat → ScopeId → Option SymbolRef
  | 0, _ => none
  | fuel + 1, id =>
    match t.scope? id with
    | none => none
    | some scope =>
      match scope.get? name with
      | some index => some ⟨id, index⟩
      | none =>
        match scope.parent with
        | some parent => lookupFrom t name fuel parent
        | none => none

/-- The symbol that a name means in a scope: that of the nearest scope around it that declares the
name. -/
def lookup (t : ScopeTree) (scope : ScopeId) (name : String) : Option SymbolRef :=
  t.lookupFrom name t.size scope

end ScopeTree

end MiniLang
