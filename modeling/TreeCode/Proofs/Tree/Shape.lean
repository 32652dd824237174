import Mathlib.Data.List.Nodup
import Mathlib.Data.List.Pairwise
import TreeCode.Tree.Basic

/-! # Nodes and their children

Every node at or below another one is that node itself or the child of exactly one split
(`perm_children`). So in a tree whose nodes have numbers of their own, a node has one parent
(`parent_unique`); and conversely, nodes that are told apart by their parents are different
(`nodup_subtrees`). -/

namespace TreeCode
namespace Node

/-- The children of a split. -/
def children : Node → List Node
  | leaf .. => []
  | split _ _ _ l r => [l, r]

/-- Every node at or below this one has a number of its own. -/
def Distinct (n : Node) : Prop := (n.subtrees.map id).Nodup

/-! ### Nodes below a node -/

@[simp] theorem mem_subtrees_self (n : Node) : n ∈ n.subtrees := by cases n <;> simp [subtrees]

theorem mem_subtrees_of_mem_children {n c : Node} (h : c ∈ n.children) : c ∈ n.subtrees := by
  cases n with
  | leaf m p => simp [children] at h
  | split m f t l r =>
      simp only [children, List.mem_cons, List.not_mem_nil, or_false] at h
      rcases h with rfl | rfl <;> simp [subtrees]

theorem left_mem_subtrees {m : Mark} {f : UInt32} {t : Float} {l r : Node} :
    l ∈ (split m f t l r).subtrees :=
  mem_subtrees_of_mem_children (by simp [children])

theorem right_mem_subtrees {m : Mark} {f : UInt32} {t : Float} {l r : Node} :
    r ∈ (split m f t l r).subtrees :=
  mem_subtrees_of_mem_children (by simp [children])

/-- A node and those below it stand in the same order as part of a larger tree. -/
theorem sublist_subtrees {a n : Node} (h : a ∈ n.subtrees) : a.subtrees.Sublist n.subtrees := by
  induction n with
  | leaf m p =>
      simp only [subtrees, List.mem_singleton] at h
      subst h
      exact .refl _
  | split m f t l r ihl ihr =>
      simp only [subtrees, List.mem_cons, List.mem_append] at h
      rcases h with rfl | h | h
      · exact .refl _
      · exact ((ihl h).trans (List.sublist_append_left _ _)).cons _
      · exact ((ihr h).trans (List.sublist_append_right _ _)).cons _

theorem mem_subtrees_trans {a b n : Node} (hab : a ∈ b.subtrees) (hbn : b ∈ n.subtrees) :
    a ∈ n.subtrees :=
  (sublist_subtrees hbn).subset hab

theorem size_le_of_mem_subtrees {a n : Node} (h : a ∈ n.subtrees) : a.size ≤ n.size := by
  rw [← length_subtrees, ← length_subtrees]
  exact (sublist_subtrees h).length_le

theorem height_le_of_mem_subtrees {a n : Node} (h : a ∈ n.subtrees) : a.height ≤ n.height := by
  induction n with
  | leaf m p =>
      obtain rfl := List.mem_singleton.1 h
      exact Nat.le_refl _
  | split m f t l r ihl ihr =>
      simp only [subtrees, List.mem_cons, List.mem_append] at h
      rcases h with rfl | h | h
      · exact Nat.le_refl _
      · have := ihl h
        rw [height]
        omega
      · have := ihr h
        rw [height]
        omega

theorem size_lt_of_mem_children {n c : Node} (h : c ∈ n.children) : c.size < n.size := by
  cases n with
  | leaf m p => simp [children] at h
  | split m f t l r =>
      simp only [children, List.mem_cons, List.not_mem_nil, or_false] at h
      rcases h with rfl | rfl <;> simp only [size] <;> omega

/-- A node below another one is that one or the child of a larger node. -/
theorem eq_or_exists_parent {a n : Node} (h : a ∈ n.subtrees) :
    a = n ∨ ∃ b ∈ n.subtrees, a ∈ b.children := by
  induction n with
  | leaf m p =>
      simp only [subtrees, List.mem_singleton] at h
      exact .inl h
  | split m f t l r ihl ihr =>
      simp only [subtrees, List.mem_cons, List.mem_append] at h
      rcases h with rfl | h | h
      · exact .inl rfl
      · right
        rcases ihl h with rfl | ⟨b, hb, hab⟩
        · exact ⟨_, mem_subtrees_self _, by simp [children]⟩
        · exact ⟨b, by simp [subtrees, hb], hab⟩
      · right
        rcases ihr h with rfl | ⟨b, hb, hab⟩
        · exact ⟨_, mem_subtrees_self _, by simp [children]⟩
        · exact ⟨b, by simp [subtrees, hb], hab⟩

/-- There is one leaf more than there are splits. -/
theorem countP_isLeaf (n : Node) :
    n.subtrees.countP isLeaf = n.subtrees.countP (!·.isLeaf) + 1 := by
  induction n with
  | leaf m p => rfl
  | split m f t l r ihl ihr =>
      simp only [subtrees, List.countP_cons, List.countP_append, ihl, ihr, isLeaf]
      simp
      omega

/-! ### Parents -/

open List in
/-- The nodes are the topmost one and each child of each split, once. -/
theorem perm_children (n : Node) : n.subtrees.Perm (n :: n.subtrees.flatMap children) := by
  induction n with
  | leaf m p => simp [subtrees, children]
  | split m f t l r ihl ihr =>
      have hl : (l :: l.subtrees.flatMap children).Perm l.subtrees := ihl.symm
      have hr : (r :: r.subtrees.flatMap children).Perm r.subtrees := ihr.symm
      simp only [subtrees, List.flatMap_cons, List.flatMap_append, children, List.cons_append,
        List.nil_append]
      refine List.Perm.cons _ (List.Perm.symm ?_)
      calc l :: r :: (l.subtrees.flatMap children ++ r.subtrees.flatMap children)
          _ ~ l :: (l.subtrees.flatMap children ++ r :: r.subtrees.flatMap children) :=
            List.Perm.cons _ List.perm_middle.symm
          _ ~ l.subtrees ++ r.subtrees := hl.append hr

/-- A split and the nodes on its two sides have different numbers. -/
theorem Distinct.split {m : Mark} {f : UInt32} {t : Float} {l r : Node}
    (h : (split m f t l r).Distinct) :
    (∀ a ∈ l.subtrees, a.id ≠ m.id) ∧ (∀ b ∈ r.subtrees, b.id ≠ m.id) ∧
      ∀ a ∈ l.subtrees, ∀ b ∈ r.subtrees, a.id ≠ b.id := by
  simp only [Distinct, subtrees, List.map_cons, List.map_append, List.nodup_cons,
    List.nodup_append, List.mem_append, List.mem_map, not_or] at h
  obtain ⟨⟨hl, hr⟩, -, -, hlr⟩ := h
  refine ⟨fun a ha he => hl ⟨a, ha, he⟩, fun b hb he => hr ⟨b, hb, he⟩, ?_⟩
  exact fun a ha b hb => hlr _ ⟨a, ha, rfl⟩ _ ⟨b, hb, rfl⟩

section distinct

variable {n : Node} (hn : n.Distinct)
include hn

theorem Distinct.eq_of_id_eq {a b : Node} (ha : a ∈ n.subtrees) (hb : b ∈ n.subtrees)
    (h : a.id = b.id) : a = b :=
  List.inj_on_of_nodup_map hn ha hb h

theorem Distinct.of_mem_subtrees {a : Node} (ha : a ∈ n.subtrees) : a.Distinct :=
  hn.sublist ((sublist_subtrees ha).map id)

theorem Distinct.nodup : n.subtrees.Nodup := List.Nodup.of_map _ hn

theorem Distinct.nodup_children :
    (n.id :: n.subtrees.flatMap fun a => a.children.map id).Nodup := by
  have h := ((perm_children n).map id).nodup_iff.1 hn
  rwa [List.map_cons, List.map_flatMap] at h

/-- A node is the child of one split only. -/
theorem Distinct.parent_unique {a b c : Node} (ha : a ∈ n.subtrees) (hb : b ∈ n.subtrees)
    (hca : c ∈ a.children) (hcb : c ∈ b.children) : a = b := by
  have h := (List.nodup_flatMap.1 (List.nodup_cons.1 hn.nodup_children).2).2
  have : Std.Symm (Function.onFun List.Disjoint fun a : Node => a.children.map id) :=
    ⟨fun _ _ h => List.disjoint_symm h⟩
  by_contra hab
  exact h.forall ha hb hab (List.mem_map_of_mem hca) (List.mem_map_of_mem hcb)

theorem Distinct.children_nodup {a : Node} (ha : a ∈ n.subtrees) : (a.children.map id).Nodup :=
  (List.nodup_flatMap.1 (List.nodup_cons.1 hn.nodup_children).2).1 a ha

/-- The topmost node is nobody's child. -/
theorem Distinct.not_mem_children {a : Node} (ha : a ∈ n.subtrees) : n ∉ a.children := by
  intro h
  refine (List.nodup_cons.1 hn.nodup_children).1 (List.mem_flatMap.2 ⟨a, ha, ?_⟩)
  exact List.mem_map_of_mem h

end distinct

/-! ### Telling nodes apart -/

section siblings

variable {m : Mark} {f : UInt32} {t : Float} {l r : Node}

/-- Two siblings have no node in common, if nodes with a common child are the same. The way up
from a common node would meet in the split itself, which is not below its children. -/
theorem not_mem_siblings (hlr : l ≠ r)
    (hpar : ∀ a ∈ (split m f t l r).subtrees, ∀ b ∈ (split m f t l r).subtrees,
      ∀ c ∈ a.children, c ∈ b.children → a = b)
    {a : Node} (hl : a ∈ l.subtrees) : a ∉ r.subtrees := by
  intro hr
  have hself := mem_subtrees_self (split m f t l r)
  have below {b : Node} (h : b ∈ l.subtrees ∨ b ∈ r.subtrees) :
      b ∈ (split m f t l r).subtrees ∧ b ≠ split m f t l r := by
    constructor
    · simpa [subtrees] using .inr h
    · rintro rfl
      rcases h with h | h <;> have := size_le_of_mem_subtrees h <;> simp only [size] at this <;>
        omega
  induction h : (split m f t l r).size - a.size using Nat.strongRecOn generalizing a with
  | _ k ih =>
      rcases eq_or_exists_parent hl with rfl | ⟨b, hb, hab⟩
      · rcases eq_or_exists_parent hr with rfl | ⟨c, hc, hac⟩
        · exact hlr rfl
        · have hc' := below (.inr hc)
          exact hc'.2 (hpar _ hc'.1 _ hself _ hac (by simp [children]))
      · have hb' := below (.inl hb)
        rcases eq_or_exists_parent hr with rfl | ⟨c, hc, hac⟩
        · exact hb'.2 (hpar _ hb'.1 _ hself _ hab (by simp [children]))
        · have hc' := below (.inr hc)
          obtain rfl := hpar _ hb'.1 _ hc'.1 _ hab hac
          have hlt := size_lt_of_mem_children hab
          have hle := size_le_of_mem_subtrees hb'.1
          exact ih _ (by omega) hb hc rfl

end siblings

/-- Nodes are all different if no split has the same child twice and nodes with a common child
are the same. -/
theorem nodup_subtrees {n : Node} (htwin : ∀ a ∈ n.subtrees, a.children.Nodup)
    (hpar : ∀ a ∈ n.subtrees, ∀ b ∈ n.subtrees, ∀ c ∈ a.children, c ∈ b.children → a = b) :
    n.subtrees.Nodup := by
  induction n with
  | leaf m p => simp [subtrees]
  | split m f t l r ihl ihr =>
      have hl : ∀ {a}, a ∈ l.subtrees → a ∈ (split m f t l r).subtrees := fun h => by
        simp [subtrees, h]
      have hr : ∀ {a}, a ∈ r.subtrees → a ∈ (split m f t l r).subtrees := fun h => by
        simp [subtrees, h]
      have hlr : l ≠ r := by simpa [children] using htwin _ (mem_subtrees_self _)
      rw [subtrees, List.nodup_cons, List.nodup_append, List.mem_append]
      refine ⟨?_, ihl (fun a ha => htwin a (hl ha)) fun a ha b hb => hpar a (hl ha) b (hl hb),
        ihr (fun a ha => htwin a (hr ha)) fun a ha b hb => hpar a (hr ha) b (hr hb), ?_⟩
      · rintro (h | h) <;> have := size_le_of_mem_subtrees h <;> simp only [size] at this <;> omega
      · rintro a ha b hb rfl
        exact not_mem_siblings hlr hpar ha hb

end Node
end TreeCode
