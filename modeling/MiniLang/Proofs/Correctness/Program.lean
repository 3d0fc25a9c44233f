import MiniLang.Proofs.Correctness.Calls

/-!
# Programs are compiled correctly

The runs of the code of a typed program follow its execution from the beginning to the end
(`run_follows`): with enough steps they come to its result, and folding takes no more steps to get
there. Which result that is does not depend on the rounds that loops were given (`gives_unique`),
and a program that diverges runs into every limit.
-/

set_option autoImplicit false

namespace MiniLang.Semantics

open Ir (State Faces Stops Survives)
open Lowering (lowerAll lowerEntry closed)

variable {p : Program} {t : Typed.Program} {G : List (String × Ty)} {P : Bool → Ir.Program}

/-- The code that a program starts with is that of its statements. -/
theorem Compiled.entryCode (h : Compiled p t G P) (b : Bool) :
    ∃ F code fresh, (P b).callable? Ir.Program.entryName = some F ∧
      lowerAll b t.body {} = .ok (code, fresh) ∧ F.params = [] ∧ F.code = closed code := by
  obtain ⟨F, generated, callable⟩ := h.entry b
  obtain ⟨code, fresh, lowered, rfl⟩ := Lowering.function_ok_iff.1 generated
  have valid : ∀ span header body, Typed.Stmt.function span header body ∈ t.body → span.Valid :=
    fun span header body mem => h.typed.body.function_valid p.body mem
  exact ⟨_, code, fresh, callable, Lowering.lowerAll_filter valid lowered, rfl, rfl⟩

/-- The runs of both programs follow the execution of the statements of the source program, up to
the end of the run. -/
theorem simulates_program (h : Compiled p t G P) (rounds : Nat) :
    ∃ S : Bool → State, (∀ b, Ir.start (P b) = .ok (S b)) ∧
      Simulates P rounds (Permitted G) S
        (fun b r s' => Stops (P b) 1 s' (.ok r.2.printed))
        (execAll .store (invoke .store p rounds (maxActive - 1)) rounds p.body {}) := by
  choose F code fresh callable lowered params isClosed using h.entryCode
  refine ⟨fun b => { frame := .enter (F b) [] }, fun b => ?_, ?_⟩
  · rw [Ir.start, callable b]
    simp [params b]
  have regular : ({ functions := signatures p } : Context).Regular (signatures p) G :=
    ⟨rfl, (fun _ _ declared => by cases declared), List.nodup_nil, List.not_mem_nil,
      (fun _ mem => by cases mem)⟩
  have faces := fun b => faces_closed (s := { frame := .enter (F b) [] }) (isClosed b) (isClosed b)
    (Lowering.lowerAll_emits t.body (lowered b)).labels
  have ready : ∀ b, Ready G (maxActive - 1) [] {} { frame := .enter (F b) [] } := fun b =>
    ⟨rfl, .nil, (fun _ _ found => by cases found), (fun _ => rfl), rfl⟩
  refine (simulates_all (calls_follow h rounds _) p.body h.typed.body regular
    (fun _ _ declared => declared) lowered faces ready).imp fun b ⟨flow, m⟩ s' ended => ?_
  cases ended with
  | next keeps here passed ready =>
    have notThere : Lowering.endsInReturn (code b) ≠ true := by
      intro there
      rw [Lowering.lowerAll_returns t.body (lowered b) there] at passed
      cases passed
    rw [closing, if_neg notThere] at here
    have stops := Ir.stops_ret (p := P b) here keeps.waiting
    rw [ready.world.printed, List.reverse_reverse] at stops
    exact stops
  | returned _ _ expects => cases expects

/-- What the runs of both programs give, by what the execution of the source program comes to in
the given rounds: as long as it is unfinished the limit is too small, and from some number of steps
on, which is no larger with folding, they give its result. -/
theorem run_follows (h : Compiled p t G P) (rounds : Nat) :
    (run .store p rounds = .unfinished ∧
      ∀ b, ∀ limit < rounds, Ir.run (P b) limit = .error (.stepLimit limit)) ∨
    ∃ (r : Result) (n : Bool → Nat), run .store p rounds = .ofResult r ∧
      (∀ f, r = .error f → Permitted G f) ∧ n true ≤ n false ∧
      ∀ b limit, Ir.run (P b) limit =
        if n b ≤ limit then r.ofRun else .error (.stepLimit limit) := by
  obtain ⟨S, starts, follows⟩ := simulates_program h rounds
  have runs : ∀ b limit, Ir.run (P b) limit = Ir.runFor (P b) limit limit (S b) := by
    intro b limit
    rw [Ir.run, starts b]
  rw [run]
  cases outcome : execAll .store (invoke .store p rounds (maxActive - 1)) rounds p.body {} with
  | done r =>
    rw [outcome] at follows
    obtain ⟨n, S', fewer, chain⟩ := follows
    refine .inr ⟨.ok r.2.printed, fun b => n b + 1, rfl, fun f same => (by cases same),
      Nat.succ_le_succ fewer, fun b limit => ?_⟩
    rw [runs]
    exact ((chain b).1.stops (chain b).2).runFor_eq limit limit
  | failed f =>
    rw [outcome] at follows
    obtain ⟨allowed, n, fewer, chain⟩ := follows
    refine .inr ⟨.error f, n, rfl, fun f' same => (by cases same; exact allowed), fewer,
      fun b limit => ?_⟩
    rw [runs]
    exact (chain b).runFor_eq limit limit
  | stuck =>
    rw [outcome] at follows
    exact follows.elim
  | unfinished =>
    rw [outcome] at follows
    refine .inl ⟨rfl, fun b limit less => ?_⟩
    rw [runs]
    exact (follows b).runFor_eq limit limit less

theorem ofResult_ne_unfinished (r : Result) : Outcome.ofResult r ≠ .unfinished := by
  cases r <;> exact fun same => by cases same

theorem ofResult_injective {r r' : Result} (h : Outcome.ofResult r = .ofResult r') : r = r' := by
  cases r <;> cases r' <;> cases h <;> rfl

/-- What a program comes to is what its runs give from some number of steps on. -/
theorem Gives.runs (h : Compiled p t G P) {r : Result} (gives : Gives .store p r) :
    (∀ f, r = .error f → Permitted G f) ∧ ∃ n : Bool → Nat, n true ≤ n false ∧
      ∀ b limit, Ir.run (P b) limit =
        if n b ≤ limit then r.ofRun else .error (.stepLimit limit) := by
  obtain ⟨rounds, outcome⟩ := gives
  rcases run_follows h rounds with ⟨unfinished, -⟩ | ⟨r', n, outcome', allowed, fewer, runs⟩
  · rw [unfinished] at outcome
    exact absurd outcome.symm (ofResult_ne_unfinished r)
  · rw [outcome'] at outcome
    obtain rfl := ofResult_injective outcome
    exact ⟨allowed, n, fewer, runs⟩

/-- A run that keeps to its limit shows what the program comes to. -/
theorem gives_of_run (h : Compiled p t G P) {b : Bool} {limit : Nat}
    (within : Ir.run (P b) limit ≠ .error (.stepLimit limit)) :
    ∃ r, Gives .store p r ∧ Ir.run (P b) limit = r.ofRun := by
  rcases run_follows h (limit + 1) with ⟨-, runs⟩ | ⟨r, n, outcome, -, -, runs⟩
  · exact absurd (runs b limit (Nat.lt_succ_self limit)) within
  · refine ⟨r, ⟨limit + 1, outcome⟩, ?_⟩
    rw [runs b limit] at within ⊢
    by_cases enough : n b ≤ limit
    · rw [if_pos enough]
    · rw [if_neg enough] at within
      exact absurd rfl within

/-- The only ways in which a run ends. -/
theorem run_cases (h : Compiled p t G P) (b : Bool) (limit : Nat) :
    Ir.run (P b) limit = .error (.stepLimit limit) ∨
      ∃ r : Result, Ir.run (P b) limit = r.ofRun ∧ ∀ f, r = .error f → Permitted G f := by
  by_cases within : Ir.run (P b) limit = .error (.stepLimit limit)
  · exact .inl within
  · obtain ⟨r, gives, same⟩ := gives_of_run h within
    exact .inr ⟨r, same, (gives.runs h).1⟩

/-- What a run without folding gives within its limit, the run with folding gives too. -/
theorem run_folded (h : Compiled p t G P) {limit : Nat}
    (within : Ir.run (P false) limit ≠ .error (.stepLimit limit)) :
    Ir.run (P true) limit = Ir.run (P false) limit := by
  obtain ⟨r, gives, same⟩ := gives_of_run h within
  obtain ⟨-, n, fewer, runs⟩ := gives.runs h
  rw [runs false limit] at within
  by_cases enough : n false ≤ limit
  · rw [runs true limit, runs false limit, if_pos enough, if_pos (fewer.trans enough)]
  · rw [if_neg enough] at within
    exact absurd rfl within

end MiniLang.Semantics
