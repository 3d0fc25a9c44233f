import MiniLang.Scope.Tree
import MiniLang.Session
import MiniLang.Table

/-!
# Resolving names

Resolution finds out which declaration every name of a program means. Each block opens a scope;
the body of a function shares the scope of its parameters. The functions of a list of statements
are known in the whole list, a variable only after its declaration, so that its first value is
resolved without it. Names that mean nothing, and names declared twice in one scope, are errors.
-/

set_option autoImplicit false

namespace MiniLang

/-- What the names of a program mean. -/
structure Resolution where
  tree : ScopeTree := .new
  /-- What the names in expressions refer to, by the node that holds the name. -/
  references : Table NodeId SymbolRef := .empty
  /-- The symbols of variables, parameters and functions, by the node that declares them. -/
  declarations : Table NodeId SymbolRef := .empty
  /-- The scopes that blocks open, by the node of the block. -/
  blockScopes : Table NodeId ScopeId := .empty

/-- Names that every program can use without declaring them, and their types: one function, which
prints a number. -/
def builtins : List (String × Ty) := [("print", .function [.int] .unit)]

/-- Resolution in progress. -/
structure Resolver where
  resolution : Resolution
  session : Session

namespace Resolver

/-- Declares a name that no program declares. -/
def declareBuiltin (tree : ScopeTree) (builtin : String × Ty) : ScopeTree :=
  match tree.declare ⟨builtin.1, .function, some builtin.2, globalScope, .nowhere, none⟩ with
  | .ok (_, grown) => grown
  | .error _ => tree

/-- Before anything of a program is resolved: the global scope knows the names that need no
declaration. -/
def start (s : Session) : Resolver := ⟨{ tree := builtins.foldl declareBuiltin .new }, s⟩

/-- Declares a name in a scope; a name that the scope has already is an error. -/
def declare (r : Resolver) (scope : ScopeId) (node : NodeId) (name : String) (kind : SymbolKind)
    (type : Option Ty) (span : Span) : Resolver :=
  match r.resolution.tree.declare ⟨name, kind, type, scope, span, some node⟩ with
  | .ok (ref, grown) =>
    { r with
      resolution :=
        { r.resolution with
          tree := grown
          declarations := r.resolution.declarations.insert node ref } }
  | .error _ => { r with session := r.session.report (.redeclaration name) span }

/-- Declares the function that a statement declares, if it does. -/
def hoistFunction (scope : ScopeId) (r : Resolver) (s : Stmt) : Resolver :=
  match s.function? with
  | some (f, _) => r.declare scope f.id f.name .function (some (.ofHeader f)) f.nameSpan
  | none => r

/-- Declares the functions of a list of statements. -/
def hoist (r : Resolver) (scope : ScopeId) (body : List Stmt) : Resolver :=
  body.foldl (hoistFunction scope) r

/-- Finds out what a name in an expression means; a name that means nothing is an error. -/
def resolveUse (scope : ScopeId) (r : Resolver) (use : NameUse) : Resolver :=
  match r.resolution.tree.lookup scope use.name with
  | some ref =>
    { r with
      resolution :=
        { r.resolution with references := r.resolution.references.insert use.id ref } }
  | none => { r with session := r.session.report (.undeclaredIdentifier use.name) use.span }

/-- Finds out what the names in an expression mean. -/
def resolveExpr (r : Resolver) (scope : ScopeId) (e : Expr) : Resolver :=
  e.nameUses.foldl (resolveUse scope) r

/-- Opens a scope for the block with the given number. -/
def enter (r : Resolver) (kind : ScopeKind) (parent : ScopeId) (block : NodeId) :
    ScopeId × Resolver :=
  let (scope, grown) := r.resolution.tree.push kind parent
  (scope,
    { r with
      resolution :=
        { r.resolution with
          tree := grown
          blockScopes := r.resolution.blockScopes.insert block scope } })

/-- Declares a parameter. -/
def declareParam (scope : ScopeId) (r : Resolver) (p : Param) : Resolver :=
  r.declare scope p.id p.name .parameter (some (.ofName p.type.name)) p.span

/-- Asks the session whether to go on. -/
def checkpoint (r : Resolver) (span : Span) : Bool × Resolver :=
  let (passed, session) := r.session.checkpoint span
  (passed, { r with session := session })

mutual

/-- Resolves a statement in a scope. -/
def resolveStmt (scope : ScopeId) (inFunction : Bool) : Stmt → Resolver → Resolver
  | .letVar id _ name nameSpan declared value, r =>
    (r.resolveExpr scope value).declare scope id name .variable
      (declared.map fun type => .ofName type.name) nameSpan
  | .ifThen _ condition thenBlock, r =>
    resolveBlock scope inFunction thenBlock (r.resolveExpr scope condition)
  | .ifThenElse _ condition thenBlock elseBranch, r =>
    resolveStmt scope inFunction elseBranch
      (resolveBlock scope inFunction thenBlock (r.resolveExpr scope condition))
  | .whileLoop _ condition body, r =>
    let (passed, r) := (r.resolveExpr scope condition).checkpoint body.span
    if passed then resolveBlock scope inFunction body r else r
  | .block b, r => resolveBlock scope inFunction b r
  | .expression _ value, r => r.resolveExpr scope value
  | .function _ header body, r => resolveFunction scope header body r
  | .ret span value, r =>
    let r :=
      if inFunction then r else { r with session := r.session.report .returnOutsideFunction span }
    match value with
    | some e => r.resolveExpr scope e
    | none => r
  | .error _, r => r

/-- Resolves a block inside a scope. -/
def resolveBlock (parent : ScopeId) (inFunction : Bool) : Block → Resolver → Resolver
  | .mk id _ body, r =>
    let (scope, r) := r.enter .block parent id
    resolveAll scope inFunction body (r.hoist scope body)

/-- Resolves a function inside a scope: its parameters and then its body, in one scope. -/
def resolveFunction (parent : ScopeId) (header : FunctionHeader) : Block → Resolver → Resolver
  | .mk id _ body, r =>
    let (scope, r) := r.enter .function parent id
    let r := header.params.foldl (declareParam scope) r
    resolveAll scope true body (r.hoist scope body)

/-- Resolves statements of one scope in order. -/
def resolveAll (scope : ScopeId) (inFunction : Bool) : List Stmt → Resolver → Resolver
  | [], r => r
  | s :: ss, r => resolveAll scope inFunction ss (resolveStmt scope inFunction s r)

end

/-- Resolves the statements of a program, with a checkpoint before each. -/
def resolveTopLevel : List Stmt → Resolver → Resolver
  | [], r => r
  | s :: ss, r =>
    let (passed, r) := r.checkpoint s.span
    if passed then resolveTopLevel ss (resolveStmt globalScope false s r) else r

end Resolver

/-- Finds out what the names of a program mean. -/
def resolve (p : Program) (s : Session) : Resolution × Session :=
  let r := Resolver.resolveTopLevel p.body ((Resolver.start s).hoist globalScope p.body)
  (r.resolution, r.session)

end MiniLang
