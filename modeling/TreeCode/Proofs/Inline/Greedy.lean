import TreeCode.Proofs.Inline.Emission
import TreeCode.Proofs.Tree.Built

/-! # Greedy emission

The nodes below a node are visited in an order of their own, each split before its hotter and then
its colder side. What is emitted stands for some of them in that order: a split becomes a branch
exactly if its cost fits into the budget on top of the costs of all branches before it. A split
that does not fit becomes a jump to the table, and none of the nodes below it are emitted. So every
node is emitted once or lies below one jump, and the final size is the first one with the costs of
all branches (`Draft.emit_greedy`). -/

namespace TreeCode

namespace Node

/-- The nodes from this one down, a split before its hotter and then its colder side. -/
def hotFirst : Node → List Node
  | leaf m p => [leaf m p]
  | split m f t l r =>
      split m f t l r ::
        if l.LeftHot r then l.hotFirst ++ r.hotFirst else r.hotFirst ++ l.hotFirst

/-- The nodes from the children of this one down. -/
def descendants : Node → List Node
  | leaf .. => []
  | split _ _ _ l r => l.subtrees ++ r.subtrees

/-- Every split from this node down has a position. -/
def Indexed (index : NodeId → Option Nat) (n : Node) : Prop :=
  ∀ a ∈ n.subtrees, a.isLeaf = false → ∃ entry, index a.id = some entry

variable {m : Mark} {f : UInt32} {t : Float} {l r : Node}

theorem hotFirst_split : (split m f t l r).hotFirst =
    split m f t l r :: ((hotter l r).hotFirst ++ (colder l r).hotFirst) := by
  rw [hotFirst, hotter, colder]
  split_ifs <;> rfl

theorem hotter_mem_subtrees : hotter l r ∈ (split m f t l r).subtrees := by
  rcases hotter_colder_cases l r with ⟨h, -⟩ | ⟨h, -⟩ <;> rw [h]
  · exact left_mem_subtrees
  · exact right_mem_subtrees

theorem colder_mem_subtrees : colder l r ∈ (split m f t l r).subtrees := by
  rcases hotter_colder_cases l r with ⟨-, h⟩ | ⟨-, h⟩ <;> rw [h]
  · exact right_mem_subtrees
  · exact left_mem_subtrees

theorem Indexed.of_mem_subtrees {index : NodeId → Option Nat} {n a : Node} (h : n.Indexed index)
    (ha : a ∈ n.subtrees) : a.Indexed index :=
  fun b hb => h b (mem_subtrees_trans hb ha)

end Node

/-! ### The code for a split -/

section split

variable {m : Mark} {f : UInt32} {t : Float} {l r : Node}

theorem Statement.CodeFor.branch {index : NodeId → Option Nat} {a b : Statement}
    (ha : a.CodeFor index (l.hotter r)) (hb : b.CodeFor index (l.colder r)) :
    (Statement.branch m.id (l.hotTest f t r) a b).CodeFor index (.split m f t l r) := by
  by_cases hhot : l.LeftHot r
  · rw [Node.hotter, if_pos hhot] at ha
    rw [Node.colder, if_pos hhot] at hb
    rw [Node.hotTest, if_pos hhot]
    exact .leftFirst hhot ha hb
  · rw [Node.hotter, if_neg hhot] at ha
    rw [Node.colder, if_neg hhot] at hb
    rw [Node.hotTest, if_neg hhot]
    exact .rightFirst hhot ha hb

end split

/-! ### Statements with their nodes -/

namespace Statement

def isBranch : Statement → Bool
  | branch .. => true
  | _ => false

def isFallback : Statement → Bool
  | fallback .. => true
  | _ => false

/-- The costs of all branches among some statements with their nodes. -/
def branchCost (row : CostRow) (emitted : List (Statement × Node)) : Nat :=
  (emitted.map fun e => if e.1.isBranch then row.own e.2 else 0).sum

/-- The nodes of the statements that jump to the table. -/
def jumpNodes (emitted : List (Statement × Node)) : List Node :=
  (emitted.filter fun e => e.1.isFallback).map Prod.snd

/-- A split has a branch exactly if its cost fits into the budget, after `spent` and the costs of
all branches before it. -/
def Greedily (row : CostRow) (budget spent : Nat) (emitted : List (Statement × Node)) : Prop :=
  ∀ before s a after, emitted = before ++ (s, a) :: after → a.isLeaf = false →
    (s.isBranch = true ↔ spent + branchCost row before + row.own a ≤ budget)

/-- A statement for a node consists of statements for nodes in the hot order, with the branches
that fit into the budget; what is not emitted lies below the jumps. -/
structure GreedyFor (row : CostRow) (index : NodeId → Option Nat) (budget spent : Nat) (n : Node)
    (s : Statement) (emitted : List (Statement × Node)) : Prop where
  preorder : emitted.map Prod.fst = s.preorder
  order : (emitted.map Prod.snd).Sublist n.hotFirst
  code : ∀ e ∈ emitted, e.1.CodeFor index e.2
  greedily : Greedily row budget spent emitted
  partition : (emitted.map Prod.snd ++ (jumpNodes emitted).flatMap Node.descendants).Perm n.subtrees

variable {row : CostRow} {index : NodeId → Option Nat} {budget spent : Nat}
  {xs ys : List (Statement × Node)} {s : Statement} {n : Node}

@[simp] theorem branchCost_append :
    branchCost row (xs ++ ys) = branchCost row xs + branchCost row ys := by
  simp [branchCost]

@[simp] theorem jumpNodes_append : jumpNodes (xs ++ ys) = jumpNodes xs ++ jumpNodes ys := by
  simp [jumpNodes]

/-- The nodes of the second part pass the ones below the jumps of the first. -/
theorem nodes_append_perm :
    ((xs ++ ys).map Prod.snd ++ (jumpNodes (xs ++ ys)).flatMap Node.descendants).Perm
      ((xs.map Prod.snd ++ (jumpNodes xs).flatMap Node.descendants) ++
        (ys.map Prod.snd ++ (jumpNodes ys).flatMap Node.descendants)) := by
  rw [jumpNodes_append, List.map_append, List.flatMap_append, List.append_assoc, List.append_assoc]
  apply List.Perm.append_left
  rw [← List.append_assoc, ← List.append_assoc]
  exact .append_right _ List.perm_append_comm

theorem greedily_singleton
    (h : n.isLeaf = false → (s.isBranch = true ↔ spent + row.own n ≤ budget)) :
    Greedily row budget spent [(s, n)] := by
  intro before s' a after heq ha
  cases before with
  | nil =>
      cases heq
      exact h ha
  | cons e before => simp at heq

/-- What has been spent on the first statements is missing for the others. -/
theorem Greedily.append (hx : Greedily row budget spent xs)
    (hy : Greedily row budget (spent + branchCost row xs) ys) :
    Greedily row budget spent (xs ++ ys) := by
  intro before s a after heq ha
  rcases List.append_eq_append_iff.1 heq with ⟨middle, rfl, hys⟩ | ⟨middle, hxs, hrest⟩
  · rw [hy middle s a after hys ha, branchCost_append]
    omega
  · cases middle with
    | nil =>
        rw [List.append_nil] at hxs
        subst hxs
        exact hy [] s a after hrest.symm ha
    | cons e middle =>
        obtain ⟨rfl, -⟩ := List.cons.inj hrest
        exact hx before s a middle hxs ha

namespace GreedyFor

theorem ret {m : Mark} {p : UInt32} :
    (Statement.ret p).GreedyFor row index budget spent (.leaf m p) [(.ret p, .leaf m p)] where
  preorder := rfl
  order := .refl _
  code e he := by
    obtain rfl := List.mem_singleton.1 he
    exact .ret
  greedily := greedily_singleton fun h => by cases h
  partition := .refl _

variable {m : Mark} {f : UInt32} {t : Float} {l r : Node}

theorem fallback {entry : Nat} (hi : index m.id = some entry)
    (hlt : budget < spent + row.split l r) :
    (Statement.fallback m.id entry).GreedyFor row index budget spent (.split m f t l r)
      [(.fallback m.id entry, .split m f t l r)] where
  preorder := rfl
  order := by
    rw [Node.hotFirst]
    exact List.singleton_sublist.2 List.mem_cons_self
  code e he := by
    obtain rfl := List.mem_singleton.1 he
    exact .fallback hi
  greedily := by
    apply greedily_singleton
    intro _
    simpa [isBranch, CostRow.own] using hlt
  partition := by simp [jumpNodes, isFallback, Node.descendants, Node.subtrees]

/-- A branch comes before its arms, and its cost is spent before them. -/
theorem branch {a b : Statement} (hle : spent + row.split l r ≤ budget)
    (hcode : (Statement.branch m.id (l.hotTest f t r) a b).CodeFor index (.split m f t l r))
    (ha : a.GreedyFor row index budget (spent + row.split l r) (l.hotter r) xs)
    (hb : b.GreedyFor row index budget (spent + row.split l r + branchCost row xs) (l.colder r)
      ys) :
    (Statement.branch m.id (l.hotTest f t r) a b).GreedyFor row index budget spent
      (.split m f t l r)
      ([(.branch m.id (l.hotTest f t r) a b, .split m f t l r)] ++ (xs ++ ys)) where
  preorder := by simp [Statement.preorder, ha.preorder, hb.preorder]
  order := by
    rw [Node.hotFirst_split, List.map_append, List.map_append]
    exact (ha.order.append hb.order).cons_cons _
  code e he := by
    rw [List.mem_append, List.mem_append, List.mem_singleton] at he
    rcases he with rfl | he | he
    · exact hcode
    · exact ha.code e he
    · exact hb.code e he
  greedily := by
    apply Greedily.append
    · apply greedily_singleton
      intro _
      simpa [isBranch, CostRow.own] using hle
    · have hhead : branchCost row
          [(Statement.branch m.id (l.hotTest f t r) a b, .split m f t l r)] = row.split l r := by
        simp [branchCost, isBranch, CostRow.own]
      rw [hhead]
      exact ha.greedily.append hb.greedily
  partition := by
    have hsides : ((xs ++ ys).map Prod.snd ++
        (jumpNodes (xs ++ ys)).flatMap Node.descendants).Perm (l.subtrees ++ r.subtrees) :=
      nodes_append_perm.trans
        ((ha.partition.append hb.partition).trans (Node.hotter_subtrees_perm l r))
    exact hsides.cons _

end GreedyFor
end Statement

/-! ### Plans and emission -/

open Statement (branchCost)

/-- Linking a plan gives greedy code, for the cost of the plan. -/
theorem Plan.exists_greedy (row : CostRow) (budget : Nat) {index : NodeId → Option Nat} {n : Node}
    (hindex : n.Indexed index) (spent : Nat) :
    ∃ s emitted, (ofNode row budget n spent).link index = .ok s ∧ s.CodeFor index n ∧
      s.GreedyFor row index budget spent n emitted ∧
      (ofNode row budget n spent).cost = branchCost row emitted := by
  induction n using Node.hotterRec generalizing spent with
  | leaf m p => exact ⟨_, _, rfl, .ret, .ret, rfl⟩
  | split m f t l r ihhot ihcold =>
      by_cases hle : spent + row.split l r ≤ budget
      · obtain ⟨a, xs, ha, hacode, hagreedy, hacost⟩ :=
          ihhot (hindex.of_mem_subtrees Node.hotter_mem_subtrees) (spent + row.split l r)
        obtain ⟨b, ys, hb, hbcode, hbgreedy, hbcost⟩ :=
          ihcold (hindex.of_mem_subtrees Node.colder_mem_subtrees)
            (spent + row.split l r + branchCost row xs)
        rw [ofNode_of_le hle, hacost]
        refine ⟨_, _, link_inline_eq_ok_iff.2 ⟨a, b, ha, hb, rfl⟩, .branch hacode hbcode,
          .branch hle (.branch hacode hbcode) hagreedy hbgreedy, ?_⟩
        rw [cost, hacost, hbcost]
        simp [branchCost, Statement.isBranch, CostRow.own]
        omega
      · obtain ⟨entry, hi⟩ := hindex _ (Node.mem_subtrees_self _) rfl
        rw [ofNode_of_lt (Nat.lt_of_not_le hle)]
        exact ⟨_, _, link_defer_eq_ok_iff.2 ⟨entry, hi, rfl⟩, .fallback hi,
          .fallback hi (Nat.lt_of_not_le hle), rfl⟩

namespace Draft

open Statement (emit)

variable {d : Draft} {head : NodeId} {tree : Tree}

/-- **Emission is greedy.** At any node of a tree that was built, and after anything that has been
spent before, it gives code for the node. Of the nodes in the hot order, the splits that are
reached and fit into the budget are branches, and every node is emitted once or lies below one
jump. No sum of sizes is too large. -/
theorem emit_greedy (hb : d.build head = .ok tree) (a : Architecture) (o : Operand)
    {index : NodeId → Option Nat} (hindex : tree.annotate.root.Indexed index) {budget : UInt32}
    (hbudget : budget.toNat < UInt32.size - 1) {n : Node} (hn : n ∈ tree.annotate.root.subtrees)
    (spent : UInt32) :
    n.subtrees.Nodup ∧ ∃ s size emitted,
      emit (.ofTarget a o) budget index n spent = .ok (s, size) ∧ s.CodeFor index n ∧
      s.GreedyFor (.ofTarget a o) index budget.toNat spent.toNat n emitted ∧
      size.toNat = spent.toNat + branchCost (.ofTarget a o) emitted ∧
      size.toNat ≤ max spent.toNat budget.toNat := by
  have hroot := (build_wellFormed hb).annotate 1
  obtain ⟨s, emitted, hs, hcode, hgreedy, hcost⟩ := Plan.exists_greedy (.ofTarget a o) budget.toNat
    (hindex.of_mem_subtrees hn) spent.toNat
  have hmax := Plan.add_cost_le_max (.ofTarget a o) budget.toNat spent.toNat n
  rw [hcost] at hmax
  have hsize : (UInt32.ofNat (spent.toNat + branchCost (.ofTarget a o) emitted)).toNat =
      spent.toNat + branchCost (.ofTarget a o) emitted := by
    have := spent.toNat_lt_size
    exact UInt32.toNat_ofNat_of_lt' (by omega)
  refine ⟨(hroot.of_mem_subtrees hn).distinct.nodup, s, _, emitted, ?_, hcode, hgreedy, hsize, ?_⟩
  · rw [Statement.emit_eq (CostRow.fits_ofTarget a o) hbudget, Plan.emitted, hs, hcost]
  · rw [hsize]
    exact hmax

/-- Every node has its own number for a position here. -/
theorem emit_greedy_lopsided : ∃ t, lopsided.build 0 = .ok t ∧ t.annotate.root.Indexed some ∧
    UInt32.toNat 40 < UInt32.size - 1 ∧ t.annotate.root ∈ t.annotate.root.subtrees ∧
    t.annotate.root.subtrees.Nodup ∧ ∃ s size emitted,
      emit (.ofTarget .intel .float) 40 some t.annotate.root 5 = .ok (s, size) ∧
      s.CodeFor some t.annotate.root ∧
      s.GreedyFor (.ofTarget .intel .float) some 40 5 t.annotate.root emitted ∧
      size.toNat = 5 + branchCost (.ofTarget .intel .float) emitted ∧ size.toNat ≤ max 5 40 := by
  obtain ⟨t, ht⟩ := exists_build_lopsided
  have hindex : t.annotate.root.Indexed some := fun a _ _ => ⟨a.id, rfl⟩
  have hself : t.annotate.root ∈ t.annotate.root.subtrees := Node.mem_subtrees_self _
  exact ⟨t, ht, hindex, by decide, hself,
    emit_greedy ht .intel .float hindex (by decide) hself 5⟩

end Draft

end TreeCode
