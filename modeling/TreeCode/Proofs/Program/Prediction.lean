import TreeCode.Program.Basic
import TreeCode.Proofs.Inline.Correspondence
import TreeCode.Proofs.Number.Comparison
import TreeCode.Proofs.Table.Walk

/-! # Predictions of a program

A tree that was built is always lowered to a program: a table that represents the tree and code
for its root (`exists_lower`). The program predicts what an evaluation gives that sends values
which are not numbers to the left at the branches that ask for a greater value (`predict_eq`), so
on vectors of numbers the program, the table alone and the tree all give the same
(`lower_predicts_evaluate`). -/

namespace TreeCode

/-! ### Branches -/

namespace Node

variable {lefts : List NodeId} {id : NodeId} {v t : Float}

theorem holds_lessEqual_iff (hid : id ∉ lefts) :
    Comparison.lessEqual.holds v t = true ↔ GoesLeft lefts id v t := by
  rw [Comparison.holds, decide_eq_true_iff, GoesLeft, or_iff_left fun h => hid h.2]

theorem holds_greater_iff (ht : t.isFinite = true) (hid : id ∈ lefts) :
    Comparison.greater.holds v t = true ↔ ¬GoesLeft lefts id v t := by
  rw [Comparison.holds, decide_eq_true_iff, threshold_lt_iff ht, GoesLeft, and_iff_left hid]

end Node

namespace Statement.CodeFor

variable {table : Table} {root n : Node} {dim : UInt32} {s : Statement} {lefts : List NodeId}

/-- **Running the code** for a node, and walking the table from where it ends, is an evaluation
of the node. -/
theorem execute_resume (h : s.CodeFor table.index? n) (htable : table.Represents root)
    (hn : n ∈ root.subtrees) (hwf : n.WellFormed dim) (x : FeatureVector)
    (hlefts : s.Agrees lefts n) :
    (s.execute x >>= table.resume x) = n.evaluateWith lefts x := by
  induction h with
  | ret => rfl
  | fallback hi =>
      -- no branch of this code asks for a greater value, and neither does the table
      have hnil : ∀ a ∈ (Node.split _ _ _ _ _).subtrees, a.id ∈ lefts ↔ a.id ∈ [] := hlefts
      rw [Node.evaluateWith_congr hnil, Node.evaluateWith_nil]
      exact htable.walk_eq x hn hi
  | @leftFirst m f t l r a b hhot ha hb iha ihb =>
      have hl : l ∈ (Node.split m f t l r).subtrees := Node.left_mem_subtrees
      have hr : r ∈ (Node.split m f t l r).subtrees := Node.right_mem_subtrees
      obtain ⟨hla, hrb, hm⟩ := hlefts.arms hwf.distinct ha hb (.inl ⟨rfl, rfl⟩)
      have iha := iha (Node.mem_subtrees_trans hl hn) (hwf.of_mem_subtrees hl) hla
      have ihb := ihb (Node.mem_subtrees_trans hr hn) (hwf.of_mem_subtrees hr) hrb
      rcases x.read_cases f with ⟨v, -, hv⟩ | ⟨hf, -⟩
      · have hnot : m.id ∉ lefts := by
          intro hmem
          cases hm.1 hmem
        have hholds := Node.holds_lessEqual_iff (v := v) (t := t) hnot
        rw [execute_of_read hv, Node.evaluateWith_of_read hv]
        simp only [hholds]
        split_ifs
        · exact iha
        · exact ihb
      · rw [execute_of_le hf, Node.evaluateWith_of_le hf]
        rfl
  | @rightFirst m f t l r a b hhot ha hb iha ihb =>
      have hl : l ∈ (Node.split m f t l r).subtrees := Node.left_mem_subtrees
      have hr : r ∈ (Node.split m f t l r).subtrees := Node.right_mem_subtrees
      obtain ⟨hra, hlb, hm⟩ := hlefts.arms hwf.distinct ha hb (.inr ⟨rfl, rfl⟩)
      have iha := iha (Node.mem_subtrees_trans hr hn) (hwf.of_mem_subtrees hr) hra
      have ihb := ihb (Node.mem_subtrees_trans hl hn) (hwf.of_mem_subtrees hl) hlb
      rcases x.read_cases f with ⟨v, -, hv⟩ | ⟨hf, -⟩
      · -- the arms are swapped, and so are the two outcomes of the comparison
        have ht := (hwf.split (Node.mem_subtrees_self _)).2
        have hholds := Node.holds_greater_iff (v := v) ht (hm.2 rfl)
        rw [execute_of_read hv, Node.evaluateWith_of_read hv]
        simp only [hholds]
        split_ifs
        · exact ihb
        · exact iha
      · rw [execute_of_le hf, Node.evaluateWith_of_le hf]
        rfl

end Statement.CodeFor

/-! ### Programs -/

namespace Program

/-- The parts of a program stand for a tree with this root. -/
structure Realizes (p : Program) (root : Node) : Prop where
  table : p.table.Represents root
  body : p.body.CodeFor p.table.index? root

variable {p : Program} {root : Node} {dim : UInt32}

/-- The parts of the program that a tree is lowered to. -/
theorem lower_eq_ok {c : Config} {t : Tree} {treeId : UInt32} (h : lower c t treeId = .ok p) :
    Table.pack t c.kernelSize = .ok p.table ∧
      p.plan = Plan.ofNode (t.costRow c.architecture) c.budget t.root 0 ∧
      p.plan.link p.table.index? = .ok p.body ∧
      p = ⟨t, treeId, c, p.table, p.plan, p.body⟩ := by
  obtain ⟨table, hpack, h⟩ := bind_eq_ok_iff.1 h
  obtain ⟨plan, hplan, h⟩ := bind_eq_ok_iff.1 h
  obtain ⟨body, hlink, h⟩ := bind_eq_ok_iff.1 h
  rw [Plan.make_eq_ok] at hplan
  cases hplan
  cases h
  exact ⟨hpack, rfl, hlink, rfl⟩

/-- **Lowering** an annotated tree always succeeds. -/
theorem exists_lower {t : Tree} (hroot : t.root.Distinct) (ha : t.annotated = true) (c : Config)
    (treeId : UInt32) : ∃ p, lower c t treeId = .ok p ∧ p.Realizes t.root := by
  obtain ⟨table, hpack, htable⟩ := Table.exists_pack hroot ha c.kernelSize_pos
  have hindex : ∀ a ∈ t.root.subtrees, ∃ i, table.index? a.id = some i := by
    intro a hmem
    obtain ⟨i, -, hi⟩ := htable.exists_index a hmem
    exact ⟨i, hi⟩
  obtain ⟨body, hlink, hbody⟩ := Plan.exists_link (t.costRow c.architecture) c.budget hindex 0
  let plan := Plan.ofNode (t.costRow c.architecture) c.budget t.root 0
  refine ⟨⟨t, treeId, c, table, plan, body⟩, ?_, htable, hbody⟩
  rw [lower, hpack]
  simp only [bind, Except.bind, Plan.make_eq_ok, hlink]
  rfl

theorem Realizes.predict_eq (h : p.Realizes root) (hwf : root.WellFormed dim)
    (x : FeatureVector) : p.predict x = root.evaluateWith p.body.greaterNodes x :=
  h.body.execute_resume h.table (Node.mem_subtrees_self root) hwf x fun _ _ => Iff.rfl

theorem Realizes.walk_zero (h : p.Realizes root) (x : FeatureVector) :
    p.table.walk 0 x = root.evaluate x :=
  h.table.walk_eq x (Node.mem_subtrees_self root) h.table.index_root

end Program

/-! ### Trees that were built -/

namespace Draft

variable {d : Draft} {head : NodeId} {t : Tree} {x : FeatureVector}

/-- The evaluation of a tree comes to a leaf unless a feature is missing. -/
theorem evaluate_annotate_cases (hb : d.build head = .ok t) (x : FeatureVector) :
    (∃ v, t.annotate.evaluate x = .ok v) ∨ ∃ f, f < t.dim ∧ x.size ≤ f.toNat ∧
      t.annotate.evaluate x = .error (.missingFeature f) := by
  rw [Tree.evaluate, ← Node.evaluateWith_nil]
  rcases Node.evaluateWith_cases [] x t.annotate.root with
    ⟨m, p, -, hp⟩ | ⟨m, f, th, l, r, hs, hf, he⟩
  · exact .inl ⟨p, hp⟩
  · exact .inr ⟨f, ((root_wellFormed_annotate hb).split hs).1, hf, he⟩

/-- **The program of a tree means the tree.** Lowering succeeds under every configuration; on
every vector of numbers, long enough or not, the program and a walk of its whole table come out as
the evaluation of the tree does. The only fault is a feature that the vector does not have. -/
theorem lower_predicts_evaluate (hb : d.build head = .ok t) (c : Config) (treeId : UInt32)
    (hx : ∀ v ∈ x, v.isNaN = false) :
    ∃ p, Program.lower c t.annotate treeId = .ok p ∧ p.predict x = t.annotate.evaluate x ∧
      p.table.walk 0 x = t.annotate.evaluate x ∧
      ((∃ v, t.annotate.evaluate x = .ok v) ∨ ∃ f, f < t.dim ∧ x.size ≤ f.toNat ∧
        t.annotate.evaluate x = .error (.missingFeature f)) ∧
      (t.dim.toNat ≤ x.size → ∃ v, t.annotate.evaluate x = .ok v) := by
  have hroot := root_wellFormed_annotate hb
  obtain ⟨p, hp, h⟩ := Program.exists_lower (t := t.annotate) hroot.distinct rfl c treeId
  have hcases := evaluate_annotate_cases hb x
  refine ⟨p, hp, ?_, h.walk_zero x, hcases, ?_⟩
  · rw [h.predict_eq hroot, Node.evaluateWith_eq_evaluate hx, Tree.evaluate]
  · intro hdim
    rcases hcases with hv | ⟨f, hf, hle, -⟩
    · exact hv
    · have := UInt32.lt_iff_toNat_lt.1 hf
      omega

theorem lower_predicts_evaluate_lopsided : lopsided.build 0 = .ok lopsidedTree ∧
    (∀ v ∈ (#[7, 7] : FeatureVector), v.isNaN = false) ∧
    lopsidedTree.annotate.evaluate #[7, 7] = .ok 12 ∧
    ∃ p, Program.lower (.ofArchitecture .arm) lopsidedTree.annotate 0 = .ok p ∧
      p.predict #[7, 7] = .ok 12 ∧ p.table.walk 0 #[7, 7] = .ok 12 := by
  have hx : ∀ v ∈ (#[7, 7] : FeatureVector), v.isNaN = false := by
    intro v hv
    obtain rfl : v = 7 := by simpa using hv
    decide
  have hvalue : lopsidedTree.annotate.evaluate #[7, 7] = .ok 12 := by decide
  obtain ⟨p, hp, hpredict, hwalk, -⟩ :=
    lower_predicts_evaluate build_lopsided (.ofArchitecture .arm) 0 hx
  exact ⟨build_lopsided, hx, hvalue, p, hp, hpredict.trans hvalue, hwalk.trans hvalue⟩

end Draft
end TreeCode
