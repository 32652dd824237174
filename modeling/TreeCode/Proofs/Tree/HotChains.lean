import Mathlib.Algebra.Order.Floor.Div
import TreeCode.Proofs.Tree.Shape

/-! # Hot chains

A hot chain goes down from the root or from a colder child by the hotter child of each split until
it comes to a leaf. Every node is on one hot chain (`flatten_hotChains_perm`), and there are as many
chains as leaves (`length_hotChains`). Cut into kernels, the chains at and below a node are the
first kernel of its own chain and those at and below the nodes that this kernel leaves waiting
(`kernels_perm`). -/

namespace TreeCode

/-! ### Pieces of a list -/

section

variable {α : Type} {k : Nat} {l : List α}

/-- The list in pieces of length `k`, of which the last one may be shorter. -/
def pieces (k : Nat) (l : List α) : List (List α) :=
  (List.range (l.length ⌈/⌉ k)).map fun q => (l.drop (k * q)).take k

theorem length_pieces : (pieces k l).length = l.length ⌈/⌉ k := by simp [pieces]

theorem pieces_nil : pieces k ([] : List α) = [] := by simp [pieces]

theorem ceilDiv_eq_succ (hk : 0 < k) (hl : l ≠ []) :
    l.length ⌈/⌉ k = (l.drop k).length ⌈/⌉ k + 1 := by
  have hpos : 0 < l.length := List.length_pos_iff.2 hl
  have hsum : l.length + k - 1 = l.length - 1 + k := by omega
  rw [List.length_drop, Nat.ceilDiv_eq_add_pred_div, Nat.ceilDiv_eq_add_pred_div, hsum,
    Nat.add_div_right _ hk]
  rcases Nat.lt_or_ge l.length k with hlt | hge
  · rw [Nat.div_eq_of_lt (by omega), Nat.div_eq_of_lt (by omega)]
  · rw [Nat.sub_add_cancel hge]

theorem pieces_of_ne_nil (hk : 0 < k) (hl : l ≠ []) :
    pieces k l = l.take k :: pieces k (l.drop k) := by
  rw [pieces, ceilDiv_eq_succ hk hl, List.range_succ_eq_map, List.map_cons, List.map_map, pieces]
  congr 1
  refine List.map_congr_left fun q _ => ?_
  rw [Function.comp_apply, List.drop_drop, Nat.mul_succ, Nat.add_comm]

/-- Neighbours in a list are neighbours in a piece of it, unless the second one starts a piece. -/
theorem exists_piece (hk : 0 < k) {i : Nat} {a b : α} (ha : l[i]? = some a)
    (hb : l[i + 1]? = some b) (hi : ¬k ∣ i + 1) :
    ∃ piece ∈ pieces k l, ∃ j, piece[j]? = some a ∧ piece[j + 1]? = some b := by
  have hmod : i % k < k := Nat.mod_lt i hk
  have hne : i % k + 1 ≠ k := by
    intro h
    refine hi ⟨i / k + 1, ?_⟩
    rw [Nat.mul_succ]
    have := Nat.div_add_mod i k
    omega
  have hdiv : k * (i / k) + i % k = i := Nat.div_add_mod i k
  have hlt : i / k < l.length ⌈/⌉ k := by
    have hlen := (List.getElem?_eq_some_iff.1 ha).1
    rw [← Nat.not_le, ceilDiv_le_iff_le_mul hk]
    omega
  refine ⟨_, List.mem_map_of_mem (List.mem_range.2 hlt), i % k, ?_, ?_⟩
  · rw [List.getElem?_take_of_lt hmod, List.getElem?_drop, hdiv, ha]
  · rw [List.getElem?_take_of_lt (by omega), List.getElem?_drop, ← Nat.add_assoc, hdiv, hb]

end

/-! ### The hotter side -/

namespace Node

variable {l r : Node}

/-- The child that comes first in the inline code of a split. -/
def hotter (l r : Node) : Node := if l.LeftHot r then l else r

/-- The child that comes second. -/
def colder (l r : Node) : Node := if l.LeftHot r then r else l

theorem hotter_colder_cases (l r : Node) :
    hotter l r = l ∧ colder l r = r ∨ hotter l r = r ∧ colder l r = l := by
  unfold hotter colder
  split_ifs
  · exact .inl ⟨rfl, rfl⟩
  · exact .inr ⟨rfl, rfl⟩

/-- Induction along inline code: a split after its hotter and its colder child. -/
@[elab_as_elim]
theorem hotterRec {motive : Node → Prop} (leaf : ∀ m p, motive (.leaf m p))
    (split : ∀ m f t l r, motive (hotter l r) → motive (colder l r) → motive (.split m f t l r))
    (n : Node) : motive n := by
  induction n with
  | leaf m p => exact leaf m p
  | split m f t l r ihl ihr =>
      refine split m f t l r ?_ ?_
      · rcases hotter_colder_cases l r with ⟨h, -⟩ | ⟨h, -⟩ <;> rw [h] <;> assumption
      · rcases hotter_colder_cases l r with ⟨-, h⟩ | ⟨-, h⟩ <;> rw [h] <;> assumption

/-! ### Chains -/

/-- The nodes on the way down by the hotter children. -/
def hotChain : Node → List Node
  | leaf m p => [leaf m p]
  | split m f t l r => split m f t l r :: if l.LeftHot r then l.hotChain else r.hotChain

/-- The child of a split that is not on its chain. -/
def coldChildren : Node → List Node
  | leaf .. => []
  | split _ _ _ l r => [colder l r]

/-- The nodes with which the hot chains start. -/
def chainStarts (n : Node) : List Node := n :: n.subtrees.flatMap coldChildren

/-- The hot chains at and below a node. -/
def hotChains (n : Node) : List (List Node) := n.chainStarts.map hotChain

/-- The hot chains below a node, without its own. -/
def coldChains (n : Node) : List (List Node) := (n.subtrees.flatMap coldChildren).map hotChain

/-- The nodes that wait when at most the first `room` nodes of the chain have been laid out. -/
def released (room : Nat) (n : Node) : List Node :=
  (n.hotChain.take room).flatMap coldChildren ++ (n.hotChain.drop room).head?.toList

/-- The hot chains at and below a node, cut into kernels. -/
def kernels (k : Nat) (n : Node) : List (List Node) := n.hotChains.flatMap (pieces k)

variable {n c : Node} {m : Mark} {f p : UInt32} {t : Float} {k : Nat}

theorem hotChain_split :
    (split m f t l r).hotChain = split m f t l r :: (hotter l r).hotChain := by
  rw [hotChain, hotter]
  split_ifs <;> rfl

theorem exists_hotChain (n : Node) : ∃ rest, n.hotChain = n :: rest := by
  cases n with
  | leaf m p => exact ⟨[], rfl⟩
  | split m f t l r => exact ⟨_, hotChain_split⟩

theorem hotChains_eq (n : Node) : n.hotChains = n.hotChain :: n.coldChains := rfl

/-- What follows a node on a chain is the chain of that node. -/
theorem hotChain_eq_of_drop {j : Nat} {rest : List Node} (h : n.hotChain.drop j = c :: rest) :
    c.hotChain = c :: rest := by
  induction n using hotterRec generalizing j with
  | leaf m p =>
      cases j with
      | zero =>
          cases h
          rfl
      | succ j => simp [hotChain] at h
  | split m f t l r ihhot ihcold =>
      rw [hotChain_split] at h
      cases j with
      | zero =>
          cases h
          exact hotChain_split
      | succ j => exact ihhot h

theorem length_hotChain_le (n : Node) : n.hotChain.length ≤ n.height + 1 := by
  induction n using hotterRec with
  | leaf m p => exact Nat.le_refl 1
  | split m f t l r ihhot ihcold =>
      rw [hotChain_split, List.length_cons, height]
      rcases hotter_colder_cases l r with ⟨h, -⟩ | ⟨h, -⟩ <;> rw [h] at ihhot ⊢ <;> omega

theorem mem_subtrees_of_mem_chainStarts (h : c ∈ n.chainStarts) : c ∈ n.subtrees := by
  rcases List.mem_cons.1 h with rfl | h
  · exact mem_subtrees_self _
  · obtain ⟨a, ha, hc⟩ := List.mem_flatMap.1 h
    refine mem_subtrees_trans (mem_subtrees_of_mem_children ?_) ha
    cases a with
    | leaf m p => cases hc
    | split m f t l r =>
        obtain rfl := List.mem_singleton.1 hc
        rcases hotter_colder_cases l r with ⟨-, h⟩ | ⟨-, h⟩ <;> simp [children, h]

theorem hotter_subtrees_perm (l r : Node) :
    ((hotter l r).subtrees ++ (colder l r).subtrees).Perm (l.subtrees ++ r.subtrees) := by
  rcases hotter_colder_cases l r with ⟨hh, hc⟩ | ⟨hh, hc⟩
  · rw [hh, hc]
  · rw [hh, hc]
    exact List.perm_append_comm

open List in
/-- The chains below a split are those below its hotter child and those at and below the colder
one. -/
theorem coldChains_split :
    (split m f t l r).coldChains.Perm ((hotter l r).coldChains ++ (colder l r).hotChains) := by
  have hsides : (((l.subtrees ++ r.subtrees).flatMap coldChildren).map hotChain).Perm
      ((hotter l r).coldChains ++ (colder l r).coldChains) := by
    rw [coldChains, coldChains, ← List.map_append, ← List.flatMap_append]
    exact (((hotter_subtrees_perm l r).flatMap_right coldChildren).map hotChain).symm
  calc (split m f t l r).coldChains
      _ = (colder l r).hotChain ::
          ((l.subtrees ++ r.subtrees).flatMap coldChildren).map hotChain := rfl
      _ ~ (colder l r).hotChain :: ((hotter l r).coldChains ++ (colder l r).coldChains) :=
        hsides.cons _
      _ ~ (hotter l r).coldChains ++ (colder l r).hotChain :: (colder l r).coldChains :=
        List.perm_middle.symm

open List in
/-- **Every node** is on one hot chain. -/
theorem flatten_hotChains_perm (n : Node) : n.hotChains.flatten.Perm n.subtrees := by
  induction n using hotterRec with
  | leaf m p => exact .refl _
  | split m f t l r ihhot ihcold =>
      calc (split m f t l r).hotChains.flatten
          _ = split m f t l r ::
              ((hotter l r).hotChain ++ (split m f t l r).coldChains.flatten) := by
            rw [hotChains_eq, List.flatten_cons, hotChain_split, List.cons_append]
          _ ~ split m f t l r :: ((hotter l r).hotChain ++
              ((hotter l r).coldChains ++ (colder l r).hotChains).flatten) :=
            (coldChains_split.flatten.append_left _).cons _
          _ = split m f t l r :: ((hotter l r).hotChains.flatten ++
              (colder l r).hotChains.flatten) := by
            rw [List.flatten_append, ← List.append_assoc, hotChains_eq (hotter l r),
              List.flatten_cons]
          _ ~ split m f t l r :: ((hotter l r).subtrees ++ (colder l r).subtrees) :=
            (ihhot.append ihcold).cons _
          _ ~ (split m f t l r).subtrees := (hotter_subtrees_perm l r).cons _

theorem length_flatMap_coldChildren (ns : List Node) :
    (ns.flatMap coldChildren).length = ns.countP (!·.isLeaf) := by
  induction ns with
  | nil => rfl
  | cons n ns ih =>
      rw [List.flatMap_cons, List.length_append, ih, List.countP_cons]
      cases n <;> simp [coldChildren, isLeaf, Nat.add_comm]

/-- There are as many hot chains as leaves. -/
theorem length_hotChains (n : Node) : n.hotChains.length = n.subtrees.countP isLeaf := by
  rw [hotChains, chainStarts, List.length_map, List.length_cons, length_flatMap_coldChildren,
    countP_isLeaf]

/-- The chains below a node are those at and below the colder children along its own. -/
theorem coldChains_perm (n : Node) :
    n.coldChains.Perm ((n.hotChain.flatMap coldChildren).flatMap hotChains) := by
  induction n using hotterRec with
  | leaf m p => exact .refl _
  | split m f t l r ihhot ihcold =>
      rw [hotChain_split, List.flatMap_cons, List.flatMap_append, coldChildren,
        List.flatMap_singleton]
      exact coldChains_split.trans ((ihhot.append_right _).trans List.perm_append_comm)

/-! ### Kernels -/

theorem released_zero (n : Node) : n.released 0 = [n] := by
  obtain ⟨rest, hchain⟩ := exists_hotChain n
  rw [released, hchain]
  rfl

theorem released_leaf (room : Nat) : (leaf m p).released (room + 1) = [] := by
  simp [released, hotChain, coldChildren]

theorem released_split (room : Nat) : (split m f t l r).released (room + 1) =
    colder l r :: (hotter l r).released room := by
  rw [released, hotChain_split, List.take_succ_cons, List.drop_succ_cons, List.flatMap_cons]
  rfl

/-- The kernels at and below a node are the pieces of its chain and the kernels at and below the
colder children along it. -/
theorem kernels_perm_pieces (n : Node) : (n.kernels k).Perm
    (pieces k n.hotChain ++ (n.hotChain.flatMap coldChildren).flatMap (kernels k)) := by
  have h := ((coldChains_perm n).flatMap_right (pieces k)).append_left (pieces k n.hotChain)
  rwa [List.flatMap_assoc] at h

open List in
/-- **The kernels** at and below a node are the first one of its chain and those of the nodes that
wait after it. -/
theorem kernels_perm (hk : 0 < k) (n : Node) :
    (n.kernels k).Perm (n.hotChain.take k :: (n.released k).flatMap (kernels k)) := by
  obtain ⟨rest, hchain⟩ := exists_hotChain n
  have hne : n.hotChain ≠ [] := hchain ▸ List.cons_ne_nil n rest
  -- a node on the chain that waits brings the rest of the chain
  have hrest : ((n.hotChain.drop k).head?.toList.flatMap (kernels k)).Perm
      (pieces k (n.hotChain.drop k) ++
        ((n.hotChain.drop k).flatMap coldChildren).flatMap (kernels k)) := by
    cases hdrop : n.hotChain.drop k with
    | nil => simp [pieces_nil]
    | cons c rest =>
        have := kernels_perm_pieces (k := k) c
        rw [hotChain_eq_of_drop hdrop] at this
        simpa using this
  generalize htake : n.hotChain.take k = first at *
  generalize hdrop : n.hotChain.drop k = others at *
  have hall : n.hotChain = first ++ others := by rw [← htake, ← hdrop, List.take_append_drop]
  calc n.kernels k
      _ ~ pieces k n.hotChain ++ (n.hotChain.flatMap coldChildren).flatMap (kernels k) :=
        kernels_perm_pieces n
      _ = first :: (pieces k others ++ ((first.flatMap coldChildren).flatMap (kernels k) ++
          (others.flatMap coldChildren).flatMap (kernels k))) := by
        rw [pieces_of_ne_nil hk hne, htake, hdrop, hall, List.flatMap_append, List.flatMap_append,
          List.cons_append]
      _ ~ first :: ((first.flatMap coldChildren).flatMap (kernels k) ++ (pieces k others ++
          (others.flatMap coldChildren).flatMap (kernels k))) :=
        (List.perm_append_comm_assoc _ _ _).cons _
      _ ~ first :: ((first.flatMap coldChildren).flatMap (kernels k) ++
          others.head?.toList.flatMap (kernels k)) :=
        (hrest.symm.append_left _).cons _
      _ = first :: (n.released k).flatMap (kernels k) := by
        rw [released, htake, hdrop, List.flatMap_append]

end Node
end TreeCode
