import Mathlib.Data.List.Basic
import TreeCode.Tree.Draft

/-! # Drafting

A draft holds the nodes that were added to it, numbered in the order of their addition, each with
the sample count that was set for it last (`run_eq`). A count that is set for a node before
that node is added is lost. -/

namespace TreeCode.Draft

/-! ### What steps come to -/

namespace Step

/-- The sample count that a step sets for a node. -/
def count? (id : NodeId) : Step → Option UInt64
  | add _ => none
  | setSamples id' samples => if id' = id then some samples else none

/-- The sample count that some steps set last for a node. -/
def lastCount? (id : NodeId) (steps : List Step) : Option UInt64 :=
  (steps.filterMap (count? id)).getLast?

/-- The nodes that some steps add, numbered from `id` on, each with the sample count that is set
last for it afterwards. -/
def sketches (id : NodeId) : List Step → List Sketch
  | [] => []
  | add rule :: steps => ⟨rule, lastCount? id steps⟩ :: sketches (id + 1) steps
  | setSamples .. :: steps => sketches id steps

theorem lastCount?_cons (id : NodeId) (step : Step) (steps : List Step) :
    lastCount? id (step :: steps) = (lastCount? id steps).or (step.count? id) := by
  unfold lastCount?
  cases h : step.count? id with
  | none => rw [List.filterMap_cons_none h, Option.or_none]
  | some samples =>
      rw [List.filterMap_cons_some h, List.getLast?_cons]
      cases (steps.filterMap (count? id)).getLast? <;> rfl

end Step

open Step (lastCount?)

/-- A node with the number `id` after some steps. -/
def recount (steps : List Step) (id : NodeId) (s : Sketch) : Sketch :=
  { s with samples := (lastCount? id steps).or s.samples }

/-! ### Runs -/

variable (d : Draft) (steps : List Step)

theorem mapIdx_sketches_add (rule : Rule) :
    (d.add rule).1.sketches.toList.mapIdx (recount steps) =
      d.sketches.toList.mapIdx (recount (.add rule :: steps)) ++
        [⟨rule, lastCount? d.sketches.size steps⟩] := by
  have hrest : recount (.add rule :: steps) = recount steps := by
    funext id s
    simp [recount, Step.lastCount?_cons, Step.count?]
  rw [add, Array.toList_push, List.mapIdx_concat, hrest]
  simp [recount]

theorem mapIdx_sketches_setSamples (id : NodeId) (samples : UInt64) :
    (d.setSamples id samples).sketches.toList.mapIdx (recount steps) =
      d.sketches.toList.mapIdx (recount (.setSamples id samples :: steps)) := by
  refine List.ext_getElem (by simp [setSamples]) fun i hi hi' => ?_
  by_cases h : id = i <;>
    simp [setSamples, recount, Step.lastCount?_cons, Step.count?, h]

theorem size_after_add (rule : Rule) :
    (d.after (.add rule)).sketches.size = d.sketches.size + 1 :=
  Array.size_push _

theorem size_after_setSamples (id : NodeId) (samples : UInt64) :
    (d.after (.setSamples id samples)).sketches.size = d.sketches.size :=
  Array.size_modify

/-- **A run of steps** keeps the nodes that are there, up to their sample counts, and adds its own
behind them. -/
theorem run_eq : d.run steps =
    { d with sketches := (d.sketches.toList.mapIdx (recount steps) ++
      Step.sketches d.sketches.size steps).toArray } := by
  induction steps generalizing d with
  | nil =>
      have hsame : d.sketches.toList.mapIdx (recount []) = d.sketches.toList :=
        List.ext_getElem List.length_mapIdx fun _ _ _ => List.getElem_mapIdx
      rw [hsame, Step.sketches, List.append_nil]
      rfl
  | cons step steps ih =>
      refine (ih (d.after step)).trans ?_
      cases step with
      | add rule =>
          rw [size_after_add, Step.sketches, after, mapIdx_sketches_add, List.append_assoc]
          rfl
      | setSamples id samples =>
          rw [size_after_setSamples, Step.sketches, after, mapIdx_sketches_setSamples]
          rfl

/-- Numbers come one after the other. -/
theorem numbers_eq :
    d.numbers steps = List.range' d.sketches.size (Step.sketches d.sketches.size steps).length := by
  induction steps generalizing d with
  | nil => rfl
  | cons step steps ih =>
      rw [numbers, ih]
      cases step with
      | add rule =>
          rw [size_after_add, Step.sketches, List.length_cons, List.range'_succ]
          rfl
      | setSamples id samples =>
          rw [size_after_setSamples, Step.sketches]
          rfl

/-- What a run makes of an empty draft. -/
theorem run_empty (name : String) (dim : UInt32) (featureType : FeatureType) :
    (empty name dim featureType).run steps =
        ⟨name, dim, featureType, (Step.sketches 0 steps).toArray⟩ ∧
      (empty name dim featureType).numbers steps =
        List.range (Step.sketches 0 steps).length := by
  rw [run_eq, numbers_eq, List.range_eq_range']
  exact ⟨rfl, rfl⟩

end TreeCode.Draft
