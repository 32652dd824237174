import TreeCode.Inline.Plan
import TreeCode.Proofs.Tree.Shape

/-! # Inline code and the nodes it stands for

The code for a leaf returns its prediction. The code for a split is a branch with the hotter
child first, or a jump to the entry of the split. Every plan is linked to such code if all nodes
have positions (`exists_link`). -/

namespace TreeCode

variable {index : NodeId → Option Nat}

namespace Statement

/-- A statement is code for a node, with jumps to the given positions. -/
inductive CodeFor (index : NodeId → Option Nat) : Statement → Node → Prop
  | ret {m p} : CodeFor index (.ret p) (.leaf m p)
  | fallback {m f t l r i} (hi : index m.id = some i) :
      CodeFor index (.fallback m.id i) (.split m f t l r)
  | leftFirst {m f t l r a b} (hhot : l.LeftHot r) (ha : CodeFor index a l)
      (hb : CodeFor index b r) :
      CodeFor index (.branch m.id ⟨f, .lessEqual, t⟩ a b) (.split m f t l r)
  | rightFirst {m f t l r a b} (hhot : ¬l.LeftHot r) (ha : CodeFor index a r)
      (hb : CodeFor index b l) :
      CodeFor index (.branch m.id ⟨f, .greater, t⟩ a b) (.split m f t l r)

/-- The nodes whose branches ask whether a value is greater than the threshold. -/
def greaterNodes : Statement → List NodeId
  | branch node test a b =>
      (if test.comparison = .greater then [node] else []) ++ (a.greaterNodes ++ b.greaterNodes)
  | _ => []

@[simp] theorem mem_greaterNodes_branch {id node : NodeId} {test : Test} {a b : Statement} :
    id ∈ (branch node test a b).greaterNodes ↔
      (test.comparison = .greater ∧ id = node) ∨ id ∈ a.greaterNodes ∨ id ∈ b.greaterNodes := by
  rw [greaterNodes]
  split_ifs with h <;> simp [h]

/-- The branches in the code for a node belong to that node and those below it. -/
theorem CodeFor.exists_node {s : Statement} {n : Node} (h : s.CodeFor index n) {id : NodeId}
    (hid : id ∈ s.greaterNodes) : ∃ a ∈ n.subtrees, a.id = id := by
  induction h with
  | ret => simp [greaterNodes] at hid
  | fallback hi => simp [greaterNodes] at hid
  | leftFirst hhot ha hb iha ihb =>
      rcases mem_greaterNodes_branch.1 hid with ⟨hg, -⟩ | hid | hid
      · cases hg
      · obtain ⟨a, ha, hid⟩ := iha hid
        exact ⟨a, by simp [Node.subtrees, ha], hid⟩
      · obtain ⟨a, ha, hid⟩ := ihb hid
        exact ⟨a, by simp [Node.subtrees, ha], hid⟩
  | rightFirst hhot ha hb iha ihb =>
      rcases mem_greaterNodes_branch.1 hid with ⟨-, rfl⟩ | hid | hid
      · exact ⟨_, Node.mem_subtrees_self _, rfl⟩
      · obtain ⟨a, ha, hid⟩ := iha hid
        exact ⟨a, by simp [Node.subtrees, ha], hid⟩
      · obtain ⟨a, ha, hid⟩ := ihb hid
        exact ⟨a, by simp [Node.subtrees, ha], hid⟩

theorem CodeFor.not_mem_greaterNodes {s : Statement} {n : Node} (h : s.CodeFor index n)
    {id : NodeId} (hid : ∀ a ∈ n.subtrees, a.id ≠ id) : id ∉ s.greaterNodes := by
  intro hmem
  obtain ⟨a, ha, rfl⟩ := h.exists_node hmem
  exact hid a ha rfl

/-- Of a node and those below it, `lefts` has those whose branches ask for a greater value. -/
def Agrees (lefts : List NodeId) (s : Statement) (n : Node) : Prop :=
  ∀ a ∈ n.subtrees, a.id ∈ lefts ↔ a.id ∈ s.greaterNodes

/-- On either side of a split, only the code for that side matters. -/
theorem Agrees.arms {lefts : List NodeId} {a b : Statement} {test : Test} {m : Mark} {f : UInt32}
    {t : Float} {l r c c' : Node} (h : Agrees lefts (branch m.id test a b) (.split m f t l r))
    (hd : (Node.split m f t l r).Distinct) (ha : a.CodeFor index c) (hb : b.CodeFor index c')
    (hcc : c = l ∧ c' = r ∨ c = r ∧ c' = l) :
    Agrees lefts a c ∧ Agrees lefts b c' ∧ (m.id ∈ lefts ↔ test.comparison = .greater) := by
  obtain ⟨hl, hr, hlr⟩ := hd.split
  have hmem {n : Node} (hn : n ∈ c.subtrees ∨ n ∈ c'.subtrees) :
      n ∈ (Node.split m f t l r).subtrees := by
    rcases hcc with ⟨rfl, rfl⟩ | ⟨rfl, rfl⟩ <;> rcases hn with hn | hn <;>
      simp [Node.subtrees, hn]
  have hc : ∀ n ∈ c.subtrees, n.id ≠ m.id := by
    rcases hcc with ⟨rfl, -⟩ | ⟨rfl, -⟩ <;> assumption
  have hc' : ∀ n ∈ c'.subtrees, n.id ≠ m.id := by
    rcases hcc with ⟨-, rfl⟩ | ⟨-, rfl⟩ <;> assumption
  have hne : ∀ n ∈ c.subtrees, ∀ n' ∈ c'.subtrees, n.id ≠ n'.id := by
    rcases hcc with ⟨rfl, rfl⟩ | ⟨rfl, rfl⟩
    · exact hlr
    · exact fun n hn n' hn' => (hlr n' hn' n hn).symm
  refine ⟨fun n hn => ?_, fun n hn => ?_, ?_⟩
  · have hnot := hb.not_mem_greaterNodes fun n' hn' => (hne n hn n' hn').symm
    rw [h n (hmem (.inl hn)), mem_greaterNodes_branch]
    simp [hc n hn, hnot]
  · have hnot := ha.not_mem_greaterNodes fun n' hn' => hne n' hn' n hn
    rw [h n (hmem (.inr hn)), mem_greaterNodes_branch]
    simp [hc' n hn, hnot]
  · rw [show m.id ∈ lefts ↔ _ from h _ (Node.mem_subtrees_self _), mem_greaterNodes_branch]
    simp [Node.id, Node.mark, ha.not_mem_greaterNodes hc, hb.not_mem_greaterNodes hc']

/-! ### Running -/

variable {x : FeatureVector} {node : NodeId} {test : Test} {a b : Statement}

theorem execute_of_read {v : Float} (hv : x.read test.feature = .ok v) :
    (branch node test a b).execute x =
      if test.comparison.holds v test.threshold then a.execute x else b.execute x := by
  rw [execute, hv]
  rfl

theorem execute_of_le (hf : x.size ≤ test.feature.toNat) :
    (branch node test a b).execute x = .error (.missingFeature test.feature) := by
  rw [execute, FeatureVector.read_of_le hf]
  rfl

end Statement

/-! ### Linking -/

namespace Plan

/-- **Linking** a plan gives code for its node if all nodes have positions. -/
theorem exists_link (row : CostRow) (budget : Nat) {n : Node}
    (hindex : ∀ a ∈ n.subtrees, ∃ i, index a.id = some i) (spent : Nat) :
    ∃ s, (Plan.ofNode row budget n spent).link index = .ok s ∧ s.CodeFor index n := by
  induction n generalizing spent with
  | leaf m p => exact ⟨_, rfl, .ret⟩
  | split m f t l r ihl ihr =>
      have ihl := ihl fun a ha => hindex a (by simp [Node.subtrees, ha])
      have ihr := ihr fun a ha => hindex a (by simp [Node.subtrees, ha])
      unfold ofNode
      dsimp only
      split_ifs with hbudget hhot
      · obtain ⟨i, hi⟩ := hindex _ (Node.mem_subtrees_self _)
        refine ⟨_, ?_, .fallback hi⟩
        rw [link]
        rw [show index m.id = some i from hi]
      · obtain ⟨a, ha, ha'⟩ := ihl (spent + row.split l r)
        obtain ⟨b, hb, hb'⟩ := ihr (spent + row.split l r +
          (ofNode row budget l (spent + row.split l r)).cost)
        refine ⟨_, ?_, .leftFirst hhot ha' hb'⟩
        rw [link, ha, hb]
        rfl
      · obtain ⟨a, ha, ha'⟩ := ihr (spent + row.split l r)
        obtain ⟨b, hb, hb'⟩ := ihl (spent + row.split l r +
          (ofNode row budget r (spent + row.split l r)).cost)
        refine ⟨_, ?_, .rightFirst hhot ha' hb'⟩
        rw [link, ha, hb]
        rfl

theorem link_inline_eq_ok_iff {node : NodeId} {test : Test} {c size : Nat} {hot cold : Plan}
    {s : Statement} : (inline node test c size hot cold).link index = .ok s ↔
      ∃ a b, hot.link index = .ok a ∧ cold.link index = .ok b ∧ s = .branch node test a b := by
  rw [link, bind_eq_ok_iff]
  constructor
  · rintro ⟨a, ha, h⟩
    obtain ⟨b, hb, h⟩ := bind_eq_ok_iff.1 h
    cases h
    exact ⟨a, b, ha, hb, rfl⟩
  · rintro ⟨a, b, ha, hb, rfl⟩
    exact ⟨a, ha, bind_eq_ok_iff.2 ⟨b, hb, rfl⟩⟩

theorem link_defer_eq_ok_iff {node : NodeId} {size : Nat} {s : Statement} :
    (defer node size).link index = .ok s ↔
      ∃ entry, index node = some entry ∧ s = .fallback node entry := by
  rw [link]
  cases index node with
  | none => simp
  | some entry => simp [eq_comm]

/-- The plan has the nodes whose branches ask for a greater value. -/
def greaterNodes : Plan → List NodeId
  | inline node test _ _ hot cold =>
      (if test.comparison = .greater then [node] else []) ++
        (hot.greaterNodes ++ cold.greaterNodes)
  | _ => []

theorem greaterNodes_link {plan : Plan} {s : Statement} (h : plan.link index = .ok s) :
    s.greaterNodes = plan.greaterNodes := by
  induction plan generalizing s with
  | ret p =>
      cases h
      rfl
  | inline node test cost size hot cold ihhot ihcold =>
      obtain ⟨a, b, ha, hb, rfl⟩ := link_inline_eq_ok_iff.1 h
      rw [Statement.greaterNodes, greaterNodes, ihhot ha, ihcold hb]
  | defer node size =>
      obtain ⟨entry, -, rfl⟩ := link_defer_eq_ok_iff.1 h
      rfl

end Plan
end TreeCode
