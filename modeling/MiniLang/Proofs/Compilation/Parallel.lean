import Mathlib.Tactic
import MiniLang.Compilation

/-!
# Compiling side by side

Units are compiled side by side in chunks, and the workers of a chunk get done in any order. The
chunks put together again are the units (`flatten_chunks`), and a table of results holds the right
result at every place that a worker has got done with, whatever else it holds
(`Results.Right.finishUnit`). So every place of a chunk has its result as soon as all workers are
done (`compileChunk_eq_map`), and the units give what they give when they are compiled one by one
(`compileUnitsIn_eq_map`).
-/

set_option autoImplicit false

namespace MiniLang

/-- The pieces of a list make up the list. -/
theorem flatten_chunks {α : Type} (size : Nat) (as : List α) : (chunks size as).flatten = as := by
  fun_induction chunks size as with
  | case1 => rfl
  | case2 a as ih => rw [List.flatten_cons, ih, List.cons_append, List.take_append_drop]

variable {units : List SourceUnit} {options : CompileOptions} {cancelled : Bool}
  {results : Results}

/-- The results at the given places are those of the units at these places. -/
def Results.Right (results : Results) (units : List SourceUnit) (options : CompileOptions)
    (cancelled : Bool) (places : List Nat) : Prop :=
  ∀ place ∈ places, ∀ unit, units[place]? = some unit →
    results.get? place = some (compile unit options cancelled)

namespace Results.Right

variable {places : List Nat}

/-- A worker that gets done adds its result and leaves the others alone. -/
theorem finishUnit (h : results.Right units options cancelled places) (place : Nat) :
    Right (MiniLang.finishUnit units options cancelled results place) units options cancelled
      (places ++ [place]) := by
  intro other mem unit found
  rw [MiniLang.finishUnit]
  rcases eq_or_ne place other with rfl | differ
  · rw [found]
    exact Table.get?_insert_self _ _ _
  · have before : other ∈ places := by
      rcases List.mem_append.1 mem with before | here
      · exact before
      · exact absurd (List.mem_singleton.1 here).symm differ
    split
    · rw [Table.get?_insert_of_ne _ _ differ]
      exact h other before unit found
    · exact h other before unit found

/-- After workers got done, in whatever order, their results are there. -/
theorem finish (order : List Nat) (h : results.Right units options cancelled places) :
    Right (order.foldl (MiniLang.finishUnit units options cancelled) results) units options
      cancelled (places ++ order) := by
  induction order generalizing results places with
  | nil => rwa [List.append_nil]
  | cons place order ih =>
    have rest := ih (h.finishUnit place)
    rwa [List.append_assoc] at rest

end Results.Right

/-- Results are collected in the order of the units. -/
theorem collect_eq_map (start : Nat)
    (h : ∀ i unit, units[i]? = some unit →
      results.get? (start + i) = some (compile unit options cancelled)) :
    collect results start units = units.map fun unit => compile unit options cancelled := by
  induction units generalizing start with
  | nil => rfl
  | cons unit units ih =>
    have first : results.get? start = some (compile unit options cancelled) := h 0 unit rfl
    have rest := ih (start + 1) fun i unit found => by
      rw [Nat.add_right_comm]
      exact h (i + 1) unit found
    rw [collect, first, rest]
    rfl

/-- A chunk gives what its units give by themselves if all of its workers get done. -/
theorem compileChunk_eq_map {order : List Nat} (all : ∀ place < units.length, place ∈ order) :
    compileChunk order options cancelled units =
      units.map fun unit => compile unit options cancelled := by
  have none : Results.Right .empty units options cancelled [] := by
    intro place mem
    exact absurd mem List.not_mem_nil
  have right := none.finish order
  refine collect_eq_map 0 fun i unit found => ?_
  rw [Nat.zero_add]
  have within : i < units.length := (List.getElem?_eq_some_iff.1 found).1
  exact right i (all i within) unit found

/-- Units compiled in chunks give what they give by themselves if in each chunk all workers get
done. -/
theorem compileUnitsIn_of_all {order : Nat → List SourceUnit → List Nat}
    (all : ∀ number chunk, ∀ place < chunk.length, place ∈ order number chunk) :
    compileUnitsIn order units options cancelled =
      units.map fun unit => compile unit options cancelled := by
  calc compileUnitsIn order units options cancelled
      = (chunks (max options.jobs 1 - 1) units).zipIdx.flatMap fun piece =>
          piece.1.map fun unit => compile unit options cancelled :=
        List.flatMap_congr fun piece _ => compileChunk_eq_map (all piece.2 piece.1)
    _ = ((chunks (max options.jobs 1 - 1) units).zipIdx.map Prod.fst).flatMap
          (List.map fun unit => compile unit options cancelled) := (List.flatMap_map ..).symm
    _ = (chunks (max options.jobs 1 - 1) units).flatten.map
          fun unit => compile unit options cancelled := by
        rw [List.zipIdx_map_fst, List.map_flatten, List.flatMap_def]
    _ = units.map fun unit => compile unit options cancelled := by rw [flatten_chunks]

/-- Workers that get done one after the other are one of the orders that there are. -/
theorem compileUnits_eq_map (units : List SourceUnit) (options : CompileOptions)
    (cancelled : Bool) :
    compileUnits units options cancelled =
      units.map fun unit => compile unit options cancelled :=
  compileUnitsIn_of_all fun _ _ _ within => List.mem_range.2 within

/-- Units compiled side by side give, each at its own place, what they give when they are compiled
one by one, for every number of workers and in whatever order the workers of a chunk get done. -/
theorem compileUnitsIn_eq_map (order : Nat → List SourceUnit → List Nat)
    (complete : ∀ number chunk, (order number chunk).Perm (List.range chunk.length))
    (units : List SourceUnit) (options : CompileOptions) (cancelled : Bool) :
    compileUnitsIn order units options cancelled =
      units.map fun unit => compile unit options cancelled :=
  compileUnitsIn_of_all fun number chunk _ within =>
    (complete number chunk).mem_iff.2 (List.mem_range.2 within)

/-- Three units, two of which have one name, with two workers that get done in reverse. -/
theorem compileUnitsIn_eq_map_reversed :
    (∀ chunk : List SourceUnit,
      (List.range chunk.length).reverse.Perm (List.range chunk.length)) ∧
    compileUnitsIn (fun _ chunk => (List.range chunk.length).reverse)
        [⟨"twice", "print(1);"⟩, ⟨"once", "x = true;"⟩, ⟨"twice", "print(2);"⟩] ⟨true, 2⟩ false =
      [compile ⟨"twice", "print(1);"⟩ ⟨true, 2⟩ false,
        compile ⟨"once", "x = true;"⟩ ⟨true, 2⟩ false,
        compile ⟨"twice", "print(2);"⟩ ⟨true, 2⟩ false] := by
  have complete (chunk : List SourceUnit) :
      (List.range chunk.length).reverse.Perm (List.range chunk.length) := List.reverse_perm _
  exact ⟨complete, compileUnitsIn_eq_map _ (fun _ => complete) _ _ _⟩

end MiniLang
