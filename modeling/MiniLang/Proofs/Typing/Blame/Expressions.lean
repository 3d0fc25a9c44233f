import MiniLang.Proofs.Diagnostic.Blame
import MiniLang.Proofs.Syntax.Spans
import MiniLang.Typing.Expression

/-!
# What the checker finds in expressions is found once

Two rules may complain at the place of one expression: its own, and that of what it stands in. They
do not say the same of it. A rule that finds fault with an expression as such gives it an error as
its type, about which nothing more is said. The one exception is an assignment of a wrong value: it
keeps the type of its target, and if something else is needed around it, there is another complaint
about a type, but then one that expects another type (`Own`, `findings_typeExpr`).
-/

set_option autoImplicit false

namespace MiniLang

/-- No other type is shown in the same way. -/
def Ty.Plain (type : Ty) : Prop := ∀ other : Ty, other.text = type.text → other = type

namespace Ty

theorem text_function (params : List Ty) (result : Ty) :
    ∃ rest, (text (function params result)).toList = 'f' :: rest :=
  ⟨_, by rw [text]; simp only [String.toList_append]; rfl⟩

/-- All types but those of functions have texts of their own. -/
theorem plain_of_text {type : Ty} (distinct : ∀ other ∈ [int, bool, unit, unknown, error],
      other.text = type.text → other = type)
    (short : type.text.toList.head? ≠ some 'f') : type.Plain := by
  intro other same
  cases other with
  | function params result =>
    obtain ⟨rest, form⟩ := text_function params result
    rw [← same, form] at short
    exact absurd rfl short
  | _ => exact distinct _ (by decide) same

theorem plain_int : int.Plain := plain_of_text (by decide) (by decide)

theorem plain_bool : bool.Plain := plain_of_text (by decide) (by decide)

theorem plain_unit : unit.Plain := plain_of_text (by decide) (by decide)

theorem plain_ofName (name : TypeName) : (ofName name).Plain := by
  cases name with
  | int => exact plain_int
  | bool => exact plain_bool

theorem plain_ofReturn (type : Option WrittenType) : (ofReturn type).Plain := by
  cases type with
  | none => exact plain_unit
  | some type => exact plain_ofName type.name

end Ty

namespace Typing

/-! ## Problems at one place -/

/-- The problems that a rule finds at one place: they differ, and are of a certain kind. -/
structure Finds (kind : Problem → Prop) (problems : List Problem) : Prop where
  nodup : problems.Nodup
  all : ∀ p ∈ problems, kind p

namespace Finds

variable {kind kind' : Problem → Prop} {problems : List Problem} {p : Problem}

theorem nil : Finds kind [] := ⟨List.nodup_nil, List.forall_mem_nil _⟩

theorem single (h : kind p) : Finds kind [p] :=
  ⟨List.nodup_singleton _, List.forall_mem_singleton.2 h⟩

theorem mono (h : Finds kind problems) (imp : ∀ p, kind p → kind' p) : Finds kind' problems :=
  ⟨h.nodup, fun p mem => imp p (h.all p mem)⟩

end Finds

/-- A problem that no resolver finds. -/
def Unresolving (p : Problem) : Prop := p.category ≠ .resolution

theorem Unresolving.of_typing {p : Problem} (h : p.category = .typing) : Unresolving p := by
  intro resolution
  rw [h] at resolution
  cases resolution

theorem Unresolving.of_lint {p : Problem} (h : p.category = .lint) : Unresolving p := by
  intro resolution
  rw [h] at resolution
  cases resolution

/-- What the rule for an expression may say about it, given the type that it settles on. -/
def Own (type : Ty) : Problem → Prop
  | .typeMismatch expected _ => expected = type.text
  | .functionAsValue _ | .invalidOperands _ _ | .arityMismatch _ _ _ => True
  | _ => False

/-- What may be said about an expression of a type from outside. -/
def Foreign (type : Ty) (p : Problem) : Prop := Unresolving p ∧ ¬Own type p

theorem unresolving_of_own {type : Ty} {p : Problem} (h : Own type p) : Unresolving p := by
  unfold Own at h
  split at h
  all_goals first | exact h.elim | exact .of_typing rfl

/-! ## Complaints about a part of a program -/

/-- What is found in a part of a program: different complaints, all within the part. -/
structure Findings (span : Span) (ds : List Diagnostic) : Prop where
  nonempty : span.start < span.stop
  spread : Spread span.start span.stop (ds.map Diagnostic.blame)
  unresolving : ∀ d ∈ ds, Unresolving d.problem

theorem blame_reported (problems : List Problem) (span : Span) :
    (reported problems span).map Diagnostic.blame = problems.map fun p => (p, span) := by
  simp [reported, Function.comp_def]

namespace Findings

variable {span : Span} {ds ds' : List Diagnostic} {problems : List Problem}

theorem nil (nonempty : span.start < span.stop) : Findings span [] :=
  ⟨nonempty, .nil .., List.forall_mem_nil _⟩

theorem perm (h : Findings span ds) (turned : ds.Perm ds') : Findings span ds' :=
  ⟨h.nonempty, h.spread.perm (turned.map _), fun d mem => h.unresolving d (turned.symm.subset mem)⟩

/-- What a rule finds. -/
theorem reported (nonempty : span.start < span.stop) (finds : Finds Unresolving problems) :
    Findings span (reported problems span) := by
  refine ⟨nonempty, ⟨?_, ?_⟩, ?_⟩
  · rw [blame_reported]
    exact finds.nodup.map fun p p' same => congrArg Prod.fst same
  · rw [blame_reported, List.forall_mem_map]
    exact fun p _ => ⟨Nat.le_refl _, nonempty, Nat.le_refl _⟩
  · rw [Typing.reported, List.forall_mem_map]
    exact finds.all

/-- What a rule finds about the part as a whole, if nothing of it was found before. -/
theorem add (h : Findings span ds) (finds : Finds Unresolving problems)
    (new : ∀ d ∈ ds, d.span = span → d.problem ∉ problems) :
    Findings span (ds ++ Typing.reported problems span) := by
  have whole := Findings.reported h.nonempty finds
  refine ⟨h.nonempty, ?_, List.forall_mem_append.2 ⟨h.unresolving, whole.unresolving⟩⟩
  rw [List.map_append]
  refine h.spread.union whole.spread fun b mem mem' => ?_
  obtain ⟨d, before, rfl⟩ := List.mem_map.1 mem
  rw [blame_reported] at mem'
  obtain ⟨p, found, same⟩ := List.mem_map.1 mem'
  obtain ⟨rfl, place⟩ := Prod.mk.inj same
  exact new d before place.symm found

theorem spreads {spans : List Span} {parts : List (List Diagnostic)}
    (each : List.Forall₂ Findings spans parts) :
    List.Forall₂ (fun s bs => Spread s.start s.stop bs) spans
      (parts.map (List.map Diagnostic.blame)) :=
  List.forall₂_map_right_iff.2 (each.imp fun _ _ h => h.spread)

/-- What is found in parts that stand in order. -/
theorem flatten {spans : List Span} {parts : List (List Diagnostic)} {lo hi : Nat}
    (each : List.Forall₂ Findings spans parts) (inOrder : Span.InOrder lo hi spans) :
    Spread lo hi (parts.flatten.map Diagnostic.blame) ∧
      ∀ d ∈ parts.flatten, Unresolving d.problem := by
  refine ⟨?_, ?_⟩
  · rw [List.map_flatten]
    exact .flatten (spreads each) inOrder
  · clear inOrder
    induction each with
    | nil => exact List.forall_mem_nil _
    | cons first _ ih => exact List.forall_mem_append.2 ⟨first.unresolving, ih⟩

/-- What is found in the parts of a span is not about all of it. -/
theorem below {spans : List Span} {parts : List (List Diagnostic)} (holds : span.Holds spans)
    (each : List.Forall₂ Findings spans parts) :
    Findings span parts.flatten ∧ ∀ d ∈ parts.flatten, d.span ≠ span := by
  obtain ⟨spread, unresolving⟩ := flatten each holds.inOrder
  refine ⟨⟨holds.nonempty, spread, unresolving⟩, fun d mem => ?_⟩
  refine Spread.proper (spreads each) holds.proper d.blame ?_
  rw [← List.map_flatten]
  exact List.mem_map_of_mem mem

end Findings

/-- What is found in an expression of a type: at the expression itself only what its own rule may
say. -/
structure ExprFindings (span : Span) (type : Ty) (ds : List Diagnostic) : Prop
    extends Findings span ds where
  own : ∀ d ∈ ds, d.span = span → Own type d.problem

namespace ExprFindings

variable {span : Span} {type : Ty} {ds ds' : List Diagnostic} {problems : List Problem}

theorem perm (h : ExprFindings span type ds) (turned : ds.Perm ds') : ExprFindings span type ds' :=
  ⟨h.toFindings.perm turned, fun d mem => h.own d (turned.symm.subset mem)⟩

/-- What is found in the parts of an expression, and what its own rule finds. -/
theorem of_parts {spans : List Span} {parts : List (List Diagnostic)} (holds : span.Holds spans)
    (each : List.Forall₂ Findings spans parts) (finds : Finds (Own type) problems) :
    ExprFindings span type (parts.flatten ++ reported problems span) := by
  obtain ⟨inside, apart⟩ := Findings.below holds each
  refine ⟨inside.add (finds.mono fun _ => unresolving_of_own) fun d mem same =>
    absurd same (apart d mem), fun d mem same => ?_⟩
  rcases List.mem_append.1 mem with mem | mem
  · exact absurd same (apart d mem)
  · obtain ⟨p, found, rfl⟩ := List.mem_map.1 mem
    exact finds.all p found

/-- What is found in an expression, and what is said about it from outside. -/
theorem outside (h : ExprFindings span type ds) (finds : Finds (Foreign type) problems) :
    Findings span (ds ++ reported problems span) :=
  h.toFindings.add (finds.mono fun _ => And.left) fun d mem same foreign =>
    (finds.all _ foreign).2 (h.own d mem same)

end ExprFindings

/-! ## Rules -/

theorem finds_nameRule (c : Context) (name : String) (symbol : Option SymbolRef) :
    Finds (Own (nameRule c name symbol).1) (nameRule c name symbol).2 := by
  unfold nameRule
  split
  · exact .nil
  · split
    · exact .single trivial
    · exact .nil

theorem finds_binaryRule (op : BinaryOp) (left right : Ty) :
    Finds (Own (binaryRule op left right).1) (binaryRule op left right).2 := by
  unfold binaryRule
  split
  · exact .nil
  · split
    · exact .nil
    · exact .single trivial

theorem finds_unaryRule (op : UnaryOp) (operand : Ty) :
    Finds (Own (unaryRule op operand).1) (unaryRule op operand).2 := by
  unfold unaryRule
  split
  · exact .nil
  · split
    · exact .nil
    · exact .nil
    · exact .single trivial

/-- An assignment whose value does not fit keeps the type of its target. -/
theorem own_mismatch (type value : Ty) : Finds (Own type) (mismatch type value) := by
  unfold mismatch
  split
  · exact .nil
  · exact .single rfl

/-- From outside it is said of an expression that it has a type which is not the expected one. -/
theorem foreign_mismatch {expected : Ty} (plain : expected.Plain) (type : Ty) :
    Finds (Foreign type) (mismatch expected type) := by
  unfold mismatch
  split
  · exact .nil
  next fault =>
    refine .single ⟨.of_typing rfl, fun same => fault ?_⟩
    rw [plain type same.symm, decide_eq_true rfl, Bool.or_true]

theorem foreign_divisorRule (op : BinaryOp) (right : Typed.Expr) :
    Finds (Foreign right.type) (divisorRule op right) := by
  unfold divisorRule
  split
  · exact .single ⟨.of_lint rfl, id⟩
  · exact .nil

theorem foreign_argument (callee : String) (position : Nat) (param type : Ty) :
    Finds (Foreign type) (if type.isError || type = param then []
      else [.argumentTypeMismatch callee position param.text type.text]) := by
  split
  · exact .nil
  · exact .single ⟨.of_typing rfl, id⟩

/-- A call is complained about at the callee, at its arguments, or as a whole. -/
theorem callRule_parts (c : Context) (callee : String) (calleeSpan span : Span)
    (arguments : List Typed.Expr) (symbol : Option SymbolRef) :
    ∃ atCallee params problems,
      (callRule c callee calleeSpan span arguments symbol).2 =
        reported atCallee calleeSpan ++ argumentRule callee 1 params arguments ++
          reported problems span ∧
      Finds Unresolving atCallee ∧
      Finds (Own (callRule c callee calleeSpan span arguments symbol).1) problems := by
  have silent : argumentRule callee 1 [] arguments = [] := by simp [argumentRule]
  unfold callRule
  split
  · exact ⟨[], [], [], by simp [silent, reported], .nil, .nil⟩
  · dsimp only
    split
    · exact ⟨[], [], [], by simp [silent, reported], .nil, .nil⟩
    · split
      · split
        next params _ _ _ => exact ⟨[], params, [], by simp [reported], .nil, .nil⟩
        next params _ _ _ =>
          exact ⟨[], [], [.arityMismatch callee params.length arguments.length],
            by simp [silent, reported], .nil, .single trivial⟩
      · exact ⟨[.notCallable callee], [], [], by simp [silent, reported],
          .single (.of_typing rfl), .nil⟩

/-- An assignment is complained about at its target or as a whole. -/
theorem assignmentRule_parts (c : Context) (target : String) (targetSpan span : Span) (value : Ty)
    (symbol : Option SymbolRef) :
    ∃ atTarget problems,
      (assignmentRule c target targetSpan span value symbol).2 =
        reported atTarget targetSpan ++ reported problems span ∧
      Finds Unresolving atTarget ∧
      Finds (Own (assignmentRule c target targetSpan span value symbol).1) problems := by
  unfold assignmentRule
  split
  · exact ⟨[], [], rfl, .nil, .nil⟩
  · split
    · exact ⟨_, [], (List.append_nil _).symm, .single (.of_typing rfl), .nil⟩
    · dsimp only
      split
      · exact ⟨[], [], rfl, .nil, .nil⟩
      · exact ⟨[], _, rfl, .nil, own_mismatch ..⟩

/-! ## Expressions -/

theorem span_typeExpr (c : Context) (e : Expr) : (typeExpr c e).1.span = e.span := by
  cases e <;> rfl

mutual

theorem findings_typeExpr (c : Context) : ∀ {e : Expr}, e.LaidOut →
    ExprFindings e.span (typeExpr c e).1.type (typeExpr c e).2
  | .literal .., h => .of_parts h .nil .nil
  | .var .., h => .of_parts h .nil (finds_nameRule ..)
  | .binary _ span op left right, ⟨holds, inLeft, inRight⟩ => by
    have atLeft := findings_typeExpr c inLeft
    have atRight := (findings_typeExpr c inRight).outside (foreign_divisorRule op _)
    have whole := ExprFindings.of_parts holds (.cons atLeft.toFindings (.cons atRight .nil))
      (finds_binaryRule op (typeExpr c left).1.type (typeExpr c right).1.type)
    refine whole.perm ?_
    simp only [typeExpr, span_typeExpr, List.flatten_cons, List.flatten_nil, List.append_nil,
      List.append_assoc]
    exact ((List.perm_append_comm ..).append_left _).append_left _
  | .unary _ span op operand, ⟨holds, inside⟩ => by
    have whole := ExprFindings.of_parts holds (.cons (findings_typeExpr c inside).toFindings .nil)
      (finds_unaryRule op (typeExpr c operand).1.type)
    exact whole.perm (.of_eq (by simp [typeExpr]))
  | .call id span callee calleeSpan arguments, ⟨holds, inside⟩ => by
    obtain ⟨atCallee, params, problems, form, callees, own⟩ := callRule_parts c callee calleeSpan
      span (typeExprs c arguments).1 (c.resolution.references.get? id)
    obtain ⟨parts, each, turned⟩ := findings_arguments c callee 1 params inside
    have name := Findings.reported holds.inOrder.2.1 callees
    refine (ExprFindings.of_parts holds (.cons name each) own).perm ?_
    simp only [typeExpr, form, List.flatten_cons, List.append_assoc]
    refine ((turned.append_right _).append_left _).trans ?_
    simpa using List.perm_append_comm_assoc _ _ _
  | .assignment id span target targetSpan value, ⟨holds, inside⟩ => by
    obtain ⟨atTarget, problems, form, targets, own⟩ := assignmentRule_parts c target targetSpan span
      (typeExpr c value).1.type (c.resolution.references.get? id)
    have name := Findings.reported holds.inOrder.2.1 targets
    have atValue := findings_typeExpr c inside
    refine (ExprFindings.of_parts holds (.cons name (.cons atValue.toFindings .nil)) own).perm ?_
    simp only [typeExpr, form]
    simpa using List.perm_append_comm_assoc _ _ _

/-- What is found in the arguments of a call, and about them. -/
theorem findings_arguments (c : Context) (callee : String) : ∀ (position : Nat) (params : List Ty)
    {es : List Expr}, Expr.AllLaidOut es →
    ∃ parts, List.Forall₂ Findings (es.map Expr.span) parts ∧
      parts.flatten.Perm
        ((typeExprs c es).2 ++ argumentRule callee position params (typeExprs c es).1)
  | _, params, [], _ => ⟨[], .nil, .of_eq (by cases params <;> rfl)⟩
  | position, params, e :: es, ⟨first, others⟩ => by
    have here := findings_typeExpr c first
    cases params with
    | nil =>
      obtain ⟨parts, each, turned⟩ := findings_arguments c callee position [] others
      refine ⟨_, .cons here.toFindings each, (turned.append_left _).trans (.of_eq ?_)⟩
      simp [typeExprs, argumentRule]
    | cons param params =>
      obtain ⟨parts, each, turned⟩ := findings_arguments c callee (position + 1) params others
      refine ⟨_, .cons (here.outside (foreign_argument callee position param _)) each,
        (turned.append_left _).trans ?_⟩
      simp only [typeExprs, argumentRule, span_typeExpr, List.append_assoc]
      exact (List.perm_append_comm_assoc _ _ _).append_left _

end

end Typing

end MiniLang
