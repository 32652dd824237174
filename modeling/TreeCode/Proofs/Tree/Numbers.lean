import Mathlib.Logic.Relation
import TreeCode.Proofs.Tree.Built

/-! # Nodes by their numbers

In a tree whose nodes have numbers of their own, a number leads to one node, and the steps from it
lead to the nodes below it, each by a path of its own (`exists_follow`, `follow_injective`). No way
down comes back to where it started (`not_hasChild_cycle`). -/

namespace TreeCode
namespace Tree

/-- There is a step from one node down to the other. -/
def HasChild (t : Tree) (id child : NodeId) : Prop :=
  ∃ l r, t.childIds id = some (l, r) ∧ (child = l ∨ child = r)

variable {t : Tree} {n : Node} {m : Mark} {f p : UInt32} {th : Float} {l r : Node} {id : NodeId}

/-! ### Looking nodes up -/

theorem mem_of_node? (h : t.node? id = some n) : n ∈ t.root.subtrees ∧ n.id = id := by
  refine ⟨List.mem_of_find?_eq_some h, ?_⟩
  have := List.find?_some h
  exact beq_iff_eq.1 this

section distinct

variable (hroot : t.root.Distinct)
include hroot

theorem node?_eq (hn : n ∈ t.root.subtrees) : t.node? n.id = some n := by
  cases h : t.node? n.id with
  | none =>
      have := List.find?_eq_none.1 h n hn
      simp at this
  | some a =>
      obtain ⟨ha, hid⟩ := mem_of_node? h
      rw [hroot.eq_of_id_eq ha hn hid]

theorem childIds_leaf (hn : .leaf m p ∈ t.root.subtrees) : t.childIds m.id = none := by
  have h : t.node? m.id = _ := node?_eq hroot hn
  rw [childIds, h]

theorem childIds_split (hn : .split m f th l r ∈ t.root.subtrees) :
    t.childIds m.id = some (l.id, r.id) := by
  have h : t.node? m.id = _ := node?_eq hroot hn
  rw [childIds, h]

theorem samples?_eq (hn : n ∈ t.root.subtrees) : t.samples? n.id = n.samples := by
  rw [samples?, node?_eq hroot hn]
  rfl

section numbered

variable (hids : (t.root.subtrees.map Node.id).Perm (List.range t.nodeCount))
include hids

/-- The nodes in the order of their numbers are the nodes of the tree. -/
theorem nodes_perm : t.nodes.Perm t.root.subtrees := by
  have hself : (t.root.subtrees.map Node.id).filterMap t.node? = t.root.subtrees := by
    rw [List.filterMap_map]
    refine (List.filterMap_congr fun n hn => ?_).trans List.filterMap_some
    exact node?_eq hroot hn
  have hperm := hids.symm.filterMap t.node?
  rwa [hself] at hperm

/-- Each number below the number of nodes is that of a node. -/
theorem map_id_nodes : t.nodes.map Node.id = List.range t.nodeCount := by
  show ((List.range t.nodeCount).filterMap t.node?).map Node.id = _
  rw [List.map_filterMap]
  refine (List.filterMap_congr fun id hid => ?_).trans List.filterMap_some
  obtain ⟨n, hn, rfl⟩ := List.mem_map.1 (hids.mem_iff.2 hid)
  rw [node?_eq hroot hn, Option.map_some]

end numbered

/-! ### Paths -/

theorem follow_leaf (hn : .leaf m p ∈ t.root.subtrees) (side : Side) (path : List Side) :
    t.follow m.id (side :: path) = none := by
  cases side <;> simp [follow, childIds_leaf hroot hn]

theorem follow_left (hn : .split m f th l r ∈ t.root.subtrees) (path : List Side) :
    t.follow m.id (.left :: path) = t.follow l.id path := by
  simp [follow, childIds_split hroot hn]

theorem follow_right (hn : .split m f th l r ∈ t.root.subtrees) (path : List Side) :
    t.follow m.id (.right :: path) = t.follow r.id path := by
  simp [follow, childIds_split hroot hn]

/-- A path from a node leads to the node itself or down from it. -/
theorem mem_of_follow (hn : n ∈ t.root.subtrees) {path : List Side}
    (h : t.follow n.id path = some id) : ∃ a ∈ n.subtrees, a.id = id := by
  induction n generalizing path with
  | leaf m p =>
      cases path with
      | nil => exact ⟨_, Node.mem_subtrees_self _, Option.some.inj h⟩
      | cons side path =>
          have h : t.follow m.id (side :: path) = some id := h
          rw [follow_leaf hroot hn] at h
          cases h
  | split m f th l r ihl ihr =>
      match path with
      | [] => exact ⟨_, Node.mem_subtrees_self _, Option.some.inj h⟩
      | .left :: path =>
          have h : t.follow m.id (.left :: path) = some id := h
          rw [follow_left hroot hn] at h
          obtain ⟨a, ha, hid⟩ := ihl (Node.mem_subtrees_trans Node.left_mem_subtrees hn) h
          exact ⟨a, Node.mem_subtrees_trans ha Node.left_mem_subtrees, hid⟩
      | .right :: path =>
          have h : t.follow m.id (.right :: path) = some id := h
          rw [follow_right hroot hn] at h
          obtain ⟨a, ha, hid⟩ := ihr (Node.mem_subtrees_trans Node.right_mem_subtrees hn) h
          exact ⟨a, Node.mem_subtrees_trans ha Node.right_mem_subtrees, hid⟩

theorem exists_follow (hn : n ∈ t.root.subtrees) {a : Node} (ha : a ∈ n.subtrees) :
    ∃ path, t.follow n.id path = some a.id := by
  induction n with
  | leaf m p =>
      obtain rfl := List.mem_singleton.1 ha
      exact ⟨[], rfl⟩
  | split m f th l r ihl ihr =>
      simp only [Node.subtrees, List.mem_cons, List.mem_append] at ha
      rcases ha with rfl | ha | ha
      · exact ⟨[], rfl⟩
      · obtain ⟨path, hpath⟩ := ihl (Node.mem_subtrees_trans Node.left_mem_subtrees hn) ha
        exact ⟨.left :: path, (follow_left hroot hn path).trans hpath⟩
      · obtain ⟨path, hpath⟩ := ihr (Node.mem_subtrees_trans Node.right_mem_subtrees hn) ha
        exact ⟨.right :: path, (follow_right hroot hn path).trans hpath⟩

/-- Different paths from a node lead to different nodes. -/
theorem follow_injective (hn : n ∈ t.root.subtrees) {path path' : List Side}
    (h : t.follow n.id path = some id) (h' : t.follow n.id path' = some id) : path = path' := by
  induction n generalizing path path' with
  | leaf m p =>
      have stuck (side : Side) (rest : List Side) : t.follow m.id (side :: rest) ≠ some id := by
        rw [follow_leaf hroot hn]
        exact Option.some_ne_none id ∘ Eq.symm
      cases path with
      | nil =>
          cases path' with
          | nil => rfl
          | cons side rest => exact absurd h' (stuck side rest)
      | cons side rest => exact absurd h (stuck side rest)
  | split m f th l r ihl ihr =>
      have hl := Node.mem_subtrees_trans Node.left_mem_subtrees hn
      have hr := Node.mem_subtrees_trans Node.right_mem_subtrees hn
      obtain ⟨hself, hself', hsides⟩ := (hroot.of_mem_subtrees hn).split
      -- a path to the left, one to the right and the empty one lead to different nodes
      have left {rest : List Side} (h : t.follow m.id (.left :: rest) = some id) :
          t.follow l.id rest = some id ∧ ∃ a ∈ l.subtrees, a.id = id := by
        rw [follow_left hroot hn] at h
        exact ⟨h, mem_of_follow hroot hl h⟩
      have right {rest : List Side} (h : t.follow m.id (.right :: rest) = some id) :
          t.follow r.id rest = some id ∧ ∃ a ∈ r.subtrees, a.id = id := by
        rw [follow_right hroot hn] at h
        exact ⟨h, mem_of_follow hroot hr h⟩
      match path, path' with
      | [], [] => rfl
      | [], .left :: rest =>
          obtain ⟨-, a, ha, hid⟩ := left h'
          exact absurd (hid.trans (Option.some.inj h).symm) (hself a ha)
      | [], .right :: rest =>
          obtain ⟨-, a, ha, hid⟩ := right h'
          exact absurd (hid.trans (Option.some.inj h).symm) (hself' a ha)
      | .left :: rest, [] =>
          obtain ⟨-, a, ha, hid⟩ := left h
          exact absurd (hid.trans (Option.some.inj h').symm) (hself a ha)
      | .right :: rest, [] =>
          obtain ⟨-, a, ha, hid⟩ := right h
          exact absurd (hid.trans (Option.some.inj h').symm) (hself' a ha)
      | .left :: rest, .left :: rest' => rw [ihl hl (left h).1 (left h').1]
      | .right :: rest, .right :: rest' => rw [ihr hr (right h).1 (right h').1]
      | .left :: rest, .right :: rest' =>
          obtain ⟨-, a, ha, hid⟩ := left h
          obtain ⟨-, b, hb, hid'⟩ := right h'
          exact absurd (hid.trans hid'.symm) (hsides a ha b hb)
      | .right :: rest, .left :: rest' =>
          obtain ⟨-, b, hb, hid⟩ := right h
          obtain ⟨-, a, ha, hid'⟩ := left h'
          exact absurd (hid'.trans hid.symm) (hsides a ha b hb)

/-- A step down leads to a node with fewer nodes below it. -/
theorem size_lt_of_hasChild {child : NodeId} (h : t.HasChild id child) :
    ((t.node? child).elim 0 Node.size) < (t.node? id).elim 0 Node.size := by
  obtain ⟨i, j, hij, hchild⟩ := h
  unfold childIds at hij
  split at hij
  · rename_i m f th l r hnode
    obtain ⟨hn, -⟩ := mem_of_node? hnode
    have hl := node?_eq hroot (Node.mem_subtrees_trans Node.left_mem_subtrees hn)
    have hr := node?_eq hroot (Node.mem_subtrees_trans Node.right_mem_subtrees hn)
    cases hij
    rcases hchild with rfl | rfl
    · rw [hl, hnode]
      show l.size < l.size + r.size + 1
      omega
    · rw [hr, hnode]
      show r.size < l.size + r.size + 1
      omega
  · cases hij

/-- No way down comes back to where it started. -/
theorem not_hasChild_cycle (id : NodeId) : ¬Relation.TransGen t.HasChild id id := by
  have shrinks {i j : NodeId} (h : Relation.TransGen t.HasChild i j) :
      ((t.node? j).elim 0 Node.size) < (t.node? i).elim 0 Node.size := by
    induction h with
    | single h => exact size_lt_of_hasChild hroot h
    | tail _ h ih => exact Nat.lt_trans (size_lt_of_hasChild hroot h) ih
  intro h
  exact Nat.lt_irrefl _ (shrinks h)

end distinct

end Tree

/-! ### Trees that were built -/

/-- The nodes of a tree that was built, in the order of their numbers. -/
theorem Draft.nodes_perm {d : Draft} {head : NodeId} {t : Tree} (hb : d.build head = .ok t) :
    t.nodes.Perm t.root.subtrees :=
  Tree.nodes_perm (build_wellFormed hb).distinct (ids_perm_range_nodeCount hb)

end TreeCode
