import TreeCode.Proofs.Number.Comparison
import TreeCode.Proofs.Tree.Evaluation

/-! # Where evaluations part

Two evaluations that differ in the nodes at which values that are not numbers go left keep
together until they come to a node where exactly one of them goes left with such a value. From
there they never meet again, so they give the same prediction only if the two sides of that node
happen to do so (`evaluateWith_eq_iff`). -/

namespace TreeCode
namespace Node

/-- The nodes that an evaluation comes by. -/
def way (lefts : List NodeId) (x : FeatureVector) : Node → List Node
  | leaf m p => [leaf m p]
  | split m f t l r => split m f t l r ::
      match x.read f with
      | .error _ => []
      | .ok v => if GoesLeft lefts m.id v t then l.way lefts x else r.way lefts x

/-- If exactly one of two evaluations goes left at a node with a value that is not a number, both
come to the same prediction all the same. -/
def Rejoins (lefts lefts' : List NodeId) (x : FeatureVector) : Node → Prop
  | leaf .. => True
  | split m f _ l r => ∀ v, x.read f = .ok v → v.isNaN = true →
      (m.id ∈ lefts → m.id ∉ lefts' → l.evaluateWith lefts x = r.evaluateWith lefts' x) ∧
        (m.id ∉ lefts → m.id ∈ lefts' → r.evaluateWith lefts x = l.evaluateWith lefts' x)

variable {lefts lefts' : List NodeId} {x : FeatureVector} {m : Mark} {f : UInt32} {t v : Float}
  {l r : Node}

/-! ### One split -/

theorem goesLeft_iff_mem {id : NodeId} (hv : v.isNaN = true) :
    GoesLeft lefts id v t ↔ id ∈ lefts := by
  unfold GoesLeft
  rw [hv, or_iff_right (not_le_of_isNaN hv), eq_self, true_and]

theorem way_of_read (hv : x.read f = .ok v) :
    (split m f t l r).way lefts x = split m f t l r ::
      if GoesLeft lefts m.id v t then l.way lefts x else r.way lefts x := by
  rw [way, hv]

theorem mem_subtrees_of_mem_way {n a : Node} (h : a ∈ n.way lefts x) : a ∈ n.subtrees := by
  induction n with
  | leaf m p => exact h
  | split m f t l r ihl ihr =>
      rcases x.read_cases f with ⟨v, -, hv⟩ | ⟨-, hf⟩
      · rw [way_of_read hv, List.mem_cons] at h
        simp only [subtrees, List.mem_cons, List.mem_append]
        split_ifs at h
        · exact h.imp_right fun h => .inl (ihl h)
        · exact h.imp_right fun h => .inr (ihr h)
      · rw [way, hf, List.mem_singleton] at h
        rw [h]
        exact mem_subtrees_self _

theorem rejoins_comm {n : Node} : n.Rejoins lefts lefts' x ↔ n.Rejoins lefts' lefts x := by
  cases n with
  | leaf m p => exact Iff.rfl
  | split m f t l r =>
      constructor <;> intro h v hv hn <;> obtain ⟨h₁, h₂⟩ := h v hv hn <;>
        exact ⟨fun ha hb => (h₂ hb ha).symm, fun ha hb => (h₁ hb ha).symm⟩

theorem rejoins_of_goesLeft_iff (hv : x.read f = .ok v)
    (h : GoesLeft lefts m.id v t ↔ GoesLeft lefts' m.id v t) :
    (split m f t l r).Rejoins lefts lefts' x := by
  intro w hw hnan
  obtain rfl : v = w := Except.ok.inj (hv.symm.trans hw)
  rw [goesLeft_iff_mem hnan, goesLeft_iff_mem hnan] at h
  exact ⟨fun h₁ h₂ => absurd (h.1 h₁) h₂, fun h₁ h₂ => absurd (h.2 h₂) h₁⟩

/-- Two evaluations part at a split. -/
theorem evaluateWith_eq_iff_of_parting (hd : (split m f t l r).Distinct) (hv : x.read f = .ok v)
    (hl : GoesLeft lefts m.id v t) (hr : ¬GoesLeft lefts' m.id v t) :
    (split m f t l r).evaluateWith lefts x = (split m f t l r).evaluateWith lefts' x ↔
      ∀ a ∈ (split m f t l r).way lefts x, a ∈ (split m f t l r).way lefts' x →
        a.Rejoins lefts lefts' x := by
  have hnan : v.isNaN = true := by
    rcases hl with hle | ⟨hnan, -⟩
    · exact absurd (.inl hle) hr
    · exact hnan
  rw [evaluateWith_of_read hv, evaluateWith_of_read hv, way_of_read hv, way_of_read hv]
  rw [if_pos hl, if_neg hr, if_pos hl, if_neg hr]
  rw [goesLeft_iff_mem hnan] at hl hr
  constructor
  · intro heq a ha ha'
    -- the two sides have no node in common, so the ways meet at the split only
    obtain rfl : a = split m f t l r := by
      rcases List.mem_cons.1 ha with rfl | ha
      · rfl
      · rcases List.mem_cons.1 ha' with rfl | ha'
        · rfl
        · exact absurd rfl (hd.split.2.2 a (mem_subtrees_of_mem_way ha) a
            (mem_subtrees_of_mem_way ha'))
    intro w hw hwn
    exact ⟨fun _ _ => heq, fun h _ => absurd hl h⟩
  · intro h
    exact (h _ List.mem_cons_self List.mem_cons_self v hv hnan).1 hl hr

/-! ### Whole ways -/

theorem forall_mem_cons_iff {P : Node → Prop} {n : Node} {ns ns' : List Node} (hn : P n) :
    (∀ a ∈ n :: ns, a ∈ n :: ns' → P a) ↔ ∀ a ∈ ns, a ∈ ns' → P a := by
  constructor
  · exact fun h a ha ha' => h a (List.mem_cons_of_mem _ ha) (List.mem_cons_of_mem _ ha')
  · intro h a ha ha'
    rcases List.mem_cons.1 ha with rfl | ha
    · exact hn
    · rcases List.mem_cons.1 ha' with rfl | ha'
      · exact hn
      · exact h a ha ha'

/-- **Two evaluations** give the same exactly if they rejoin at the node where they part, if there
is one. -/
theorem evaluateWith_eq_iff {n : Node} (hd : n.Distinct) :
    n.evaluateWith lefts x = n.evaluateWith lefts' x ↔
      ∀ a ∈ n.way lefts x, a ∈ n.way lefts' x → a.Rejoins lefts lefts' x := by
  induction n with
  | leaf m p => simp [evaluateWith, way, Rejoins]
  | split m f t l r ihl ihr =>
      have ihl := ihl (hd.of_mem_subtrees left_mem_subtrees)
      have ihr := ihr (hd.of_mem_subtrees right_mem_subtrees)
      rcases x.read_cases f with ⟨v, -, hv⟩ | ⟨hf, he⟩
      · by_cases h : GoesLeft lefts m.id v t <;> by_cases h' : GoesLeft lefts' m.id v t
        · have hself : (split m f t l r).Rejoins lefts lefts' x :=
            rejoins_of_goesLeft_iff hv (iff_of_true h h')
          rw [evaluateWith_of_read hv, evaluateWith_of_read hv, way_of_read hv, way_of_read hv,
            if_pos h, if_pos h', if_pos h, if_pos h', forall_mem_cons_iff hself, ihl]
        · exact evaluateWith_eq_iff_of_parting hd hv h h'
        · rw [eq_comm, evaluateWith_eq_iff_of_parting hd hv h' h]
          constructor <;> exact fun hall a ha ha' => rejoins_comm.1 (hall a ha' ha)
        · have hself : (split m f t l r).Rejoins lefts lefts' x :=
            rejoins_of_goesLeft_iff hv (iff_of_false h h')
          rw [evaluateWith_of_read hv, evaluateWith_of_read hv, way_of_read hv, way_of_read hv,
            if_neg h, if_neg h', if_neg h, if_neg h', forall_mem_cons_iff hself, ihr]
      · have hself : (split m f t l r).Rejoins lefts lefts' x := by
          intro w hw
          cases he.symm.trans hw
        simp only [evaluateWith_of_le hf, way, he, forall_mem_cons_iff hself, List.not_mem_nil,
          false_imp_iff, implies_true]

end Node
end TreeCode
