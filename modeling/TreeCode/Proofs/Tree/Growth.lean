import Mathlib.Data.List.Perm.Subperm
import Mathlib.Logic.Relation
import TreeCode.Proofs.Tree.Built

/-! # Ways down a draft

In a draft whose nodes have one parent each, and whose head has none, no way down from the head
comes by a node twice (`Way.nodup`). So a way is not longer than the number of nodes, and the tree
below the head grows with as much fuel (`exists_grow`). It holds the nodes that a way leads to
(`mem_ids_iff_leadsTo`). -/

namespace TreeCode
namespace Draft

/-- All places in which a node is named as a child. -/
def slots (d : Draft) : List NodeId := d.sketches.toList.flatMap (·.rule.children)

/-- There is a step from one drafted node down to the other. -/
def HasChild (d : Draft) (id child : NodeId) : Prop := child ∈ d.childIds id

/-- There is a way from one drafted node down to the other. -/
def LeadsTo (d : Draft) : NodeId → NodeId → Prop := Relation.ReflTransGen d.HasChild

/-- A way from the head down to a node, with its last node first. -/
inductive Way (d : Draft) (head : NodeId) : NodeId → List NodeId → Prop
  | head : Way d head head [head]
  | step {id child : NodeId} {path : List NodeId} (h : Way d head id path)
      (hc : d.HasChild id child) : Way d head child (child :: path)

variable {d : Draft} {head id id' child : NodeId} {path : List NodeId} {fuel : Nat} {n root : Node}

/-! ### Steps -/

theorem hasChild_iff :
    d.HasChild id child ↔ ∃ s, d.sketches[id]? = some s ∧ child ∈ s.rule.children := by
  unfold HasChild childIds
  cases d.sketches[id]? with
  | none => simp
  | some s => simp

theorem mem_slots_iff : child ∈ d.slots ↔ ∃ id, d.HasChild id child := by
  simp only [slots, hasChild_iff, List.mem_flatMap, Array.mem_toList_iff, Array.mem_iff_getElem?]
  constructor
  · rintro ⟨s, ⟨id, hs⟩, hc⟩
    exact ⟨id, s, hs, hc⟩
  · rintro ⟨id, s, hs, hc⟩
    exact ⟨s, ⟨id, hs⟩, hc⟩

theorem lt_of_hasChild (h : d.HasChild id child) : id < d.sketches.size := by
  obtain ⟨s, hs, -⟩ := hasChild_iff.1 h
  exact (Array.getElem?_eq_some_iff.1 hs).1

section nodup

variable (hslots : d.slots.Nodup)
include hslots

theorem parent_unique (h : d.HasChild id child) (h' : d.HasChild id' child) : id = id' := by
  obtain ⟨s, hs, hc⟩ := hasChild_iff.1 h
  obtain ⟨s', hs', hc'⟩ := hasChild_iff.1 h'
  rw [← Array.getElem?_toList] at hs hs'
  exact index_unique_of_nodup_flatMap hslots hs hs' hc hc'

/-! ### Ways -/

omit hslots in
/-- A way starts at the head, and each later node on it is the child of the one before. -/
theorem Way.eq_head_or_hasChild (h : d.Way head id path) {a : NodeId} (ha : a ∈ path) :
    a = head ∨ ∃ b ∈ path.tail, d.HasChild b a := by
  induction h with
  | head => exact .inl (List.mem_singleton.1 ha)
  | @step id child path h hc ih =>
      rcases List.mem_cons.1 ha with rfl | ha
      · right
        refine ⟨id, ?_, hc⟩
        cases h <;> exact List.mem_cons_self
      · rcases ih ha with hhead | ⟨b, hb, hba⟩
        · exact .inl hhead
        · exact .inr ⟨b, List.mem_of_mem_tail hb, hba⟩

variable (hhead : head ∉ d.slots)
include hhead

/-- No way comes by a node twice: the second time it would come from the same parent. -/
theorem Way.nodup (h : d.Way head id path) : path.Nodup := by
  induction h with
  | head => exact List.nodup_singleton head
  | @step id child path h hc ih =>
      refine List.nodup_cons.2 ⟨fun hmem => ?_, ih⟩
      rcases h.eq_head_or_hasChild hmem with rfl | ⟨b, hb, hbc⟩
      · exact hhead (mem_slots_iff.2 ⟨id, hc⟩)
      · obtain rfl := parent_unique hslots hbc hc
        cases h with
        | head => cases hb
        | step h hc' => exact (List.nodup_cons.1 ih).1 hb

variable (hlt : head < d.sketches.size) (hchildren : ∀ c ∈ d.slots, c < d.sketches.size)
include hlt hchildren

omit hslots hhead in
theorem Way.lt_size (h : d.Way head id path) : ∀ a ∈ path, a < d.sketches.size := by
  induction h with
  | head => exact fun a ha => List.mem_singleton.1 ha ▸ hlt
  | @step id child path h hc ih =>
      intro a ha
      rcases List.mem_cons.1 ha with rfl | ha
      · exact hchildren _ (mem_slots_iff.2 ⟨id, hc⟩)
      · exact ih a ha

theorem Way.length_le (h : d.Way head id path) : path.length ≤ d.sketches.size := by
  have hsub : path ⊆ List.range d.sketches.size := fun a ha =>
    List.mem_range.2 (h.lt_size hlt hchildren a ha)
  have := ((h.nodup hslots hhead).subperm hsub).length_le
  rwa [List.length_range] at this

/-! ### Growing -/

/-- The fuel that is left at the end of a way is enough to grow what is below. -/
theorem Way.exists_grow (h : d.Way head id path) (hfuel : d.sketches.size < path.length + fuel) :
    ∃ n, d.grow fuel id = some n := by
  induction fuel generalizing id path with
  | zero =>
      -- a way has no more nodes than there are
      have := h.length_le hslots hhead hlt hchildren
      omega
  | succ fuel ih =>
      have hid : id < d.sketches.size := h.lt_size hlt hchildren id (by cases h <;> simp)
      have below {child : NodeId} (hc : d.HasChild id child) : ∃ n, d.grow fuel child = some n := by
        refine ih (.step h hc) ?_
        rw [List.length_cons]
        omega
      have hs := Array.getElem?_eq_getElem hid
      unfold grow
      generalize d.sketches[id] = s at hs
      obtain ⟨rule, samples⟩ := s
      rw [hs]
      cases rule with
      | leaf p => exact ⟨_, rfl⟩
      | split f t left right =>
          have hleft : d.HasChild id left := hasChild_iff.2 ⟨_, hs, by simp [Rule.children]⟩
          have hright : d.HasChild id right := hasChild_iff.2 ⟨_, hs, by simp [Rule.children]⟩
          obtain ⟨l, hl⟩ := below hleft
          obtain ⟨r, hr⟩ := below hright
          dsimp only
          rw [hl, hr]
          exact ⟨_, rfl⟩

/-- The tree below the head grows with as much fuel as there are nodes. -/
theorem exists_grow : ∃ root, d.grow d.sketches.size head = some root :=
  Way.exists_grow hslots hhead hlt hchildren .head (by simp)

end nodup

theorem leadsTo_of_mem_subtrees (h : d.grow fuel n.id = some n) {a : Node} (ha : a ∈ n.subtrees) :
    d.LeadsTo n.id a.id := by
  induction n generalizing fuel with
  | leaf m p =>
      obtain rfl := List.mem_singleton.1 ha
      exact .refl
  | split m f t l r ihl ihr =>
      obtain ⟨s, hs, -, hr, fuel', hgl, hgr⟩ := grow_eq_some h
      have hchild {c : NodeId} (hc : c ∈ [l.id, r.id]) : d.HasChild m.id c :=
        hasChild_iff.2 ⟨s, hs, by rwa [hr]⟩
      simp only [Node.subtrees, List.mem_cons, List.mem_append] at ha
      rcases ha with rfl | ha | ha
      · exact .refl
      · exact .head (hchild (by simp)) (ihl hgl ha)
      · exact .head (hchild (by simp)) (ihr hgr ha)

/-- The tree below the head holds the nodes that a way leads to. -/
theorem mem_ids_iff_leadsTo (h : d.grow fuel head = some root) :
    id ∈ root.subtrees.map Node.id ↔ d.LeadsTo head id := by
  obtain rfl := id_of_grow h
  constructor
  · intro hid
    obtain ⟨a, ha, rfl⟩ := List.mem_map.1 hid
    exact leadsTo_of_mem_subtrees h ha
  · intro hway
    induction hway with
    | refl => exact List.mem_map_of_mem (Node.mem_subtrees_self root)
    | @tail b c _ hc ih =>
        obtain ⟨a, ha, rfl⟩ := List.mem_map.1 ih
        obtain ⟨fuel', hg⟩ := grow_of_mem_subtrees h ha
        obtain ⟨s, hs, hchildren⟩ := children_of_grow hg
        obtain ⟨s', hs', hmem⟩ := hasChild_iff.1 hc
        obtain rfl := Option.some.inj (hs.symm.trans hs')
        rw [hchildren] at hmem
        obtain ⟨e, he, rfl⟩ := List.mem_map.1 hmem
        refine List.mem_map_of_mem (Node.mem_subtrees_trans ?_ ha)
        exact Node.mem_subtrees_of_mem_children he

end Draft
end TreeCode
