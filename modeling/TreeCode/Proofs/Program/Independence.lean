import TreeCode.Proofs.Program.Prediction
import TreeCode.Proofs.Tree.Parting

/-! # Predictions and configurations

Under two configurations different splits of a tree are inlined. A value that is not a number goes
left at an inline branch that asks for a greater value, but right at the same split in the table,
so the two programs may part there. They agree exactly if that does not change the prediction
(`predictions_agree_iff`), and it can (`predictions_of_lopsided`). -/

namespace TreeCode

/-- The splits of a tree that are inlined as branches that ask for a greater value. -/
def Config.greaterNodes (c : Config) (t : Tree) : List NodeId :=
  (Plan.ofNode (t.costRow c.architecture) c.budget t.root 0).greaterNodes

theorem Program.greaterNodes_body {c : Config} {t : Tree} {treeId : UInt32} {p : Program}
    (h : Program.lower c t treeId = .ok p) : p.body.greaterNodes = c.greaterNodes t := by
  obtain ⟨-, hplan, hlink, -⟩ := Program.lower_eq_ok h
  rw [hplan] at hlink
  exact Plan.greaterNodes_link hlink

namespace Draft

variable {d : Draft} {head : NodeId} {t : Tree} {x : FeatureVector}

/-- The program of a tree predicts what an evaluation gives that sends values which are not
numbers to the left at these splits. -/
theorem exists_lower_predict (hb : d.build head = .ok t) (c : Config) (treeId : UInt32)
    (x : FeatureVector) : ∃ p, Program.lower c t.annotate treeId = .ok p ∧
      p.predict x = t.annotate.root.evaluateWith (c.greaterNodes t.annotate) x := by
  have hroot := root_wellFormed_annotate hb
  obtain ⟨p, hp, h⟩ := Program.exists_lower (t := t.annotate) hroot.distinct rfl c treeId
  exact ⟨p, hp, by rw [h.predict_eq hroot, Program.greaterNodes_body hp]⟩

/-- **Two programs of one tree** always predict, and they agree exactly if their ways rejoin where
they part: at a split whose feature is not a number, and which just one of them has inlined as a
branch that asks for a greater value. -/
theorem predictions_agree_iff (hb : d.build head = .ok t) (c c' : Config) (treeId treeId' : UInt32)
    (hx : t.dim.toNat ≤ x.size) :
    ∃ p p' v v', Program.lower c t.annotate treeId = .ok p ∧
      Program.lower c' t.annotate treeId' = .ok p' ∧ p.predict x = .ok v ∧ p'.predict x = .ok v' ∧
      (v = v' ↔ ∀ n ∈ t.annotate.root.way (c.greaterNodes t.annotate) x,
        n ∈ t.annotate.root.way (c'.greaterNodes t.annotate) x →
          n.Rejoins (c.greaterNodes t.annotate) (c'.greaterNodes t.annotate) x) := by
  have hroot := root_wellFormed_annotate hb
  obtain ⟨p, hp, h⟩ := exists_lower_predict hb c treeId x
  obtain ⟨p', hp', h'⟩ := exists_lower_predict hb c' treeId' x
  obtain ⟨-, v, -, hv⟩ := hroot.exists_leaf hx (c.greaterNodes t.annotate)
  obtain ⟨-, v', -, hv'⟩ := hroot.exists_leaf hx (c'.greaterNodes t.annotate)
  refine ⟨p, p', v, v', hp, hp', h.trans hv, h'.trans hv', ?_⟩
  rw [← Node.evaluateWith_eq_iff hroot.distinct, hv, hv', Except.ok.injEq]

theorem predictions_agree_iff_lopsided : ∃ t p p' v v', lopsided.build 0 = .ok t ∧
    t.dim.toNat ≤ (#[0 / 0, 0] : FeatureVector).size ∧
    Program.lower (.ofArchitecture .arm) t.annotate 0 = .ok p ∧
    Program.lower (.ofArchitecture .intel) t.annotate 1 = .ok p' ∧
    p.predict #[0 / 0, 0] = .ok v ∧ p'.predict #[0 / 0, 0] = .ok v' ∧
    (v = v' ↔
      ∀ n ∈ t.annotate.root.way ((Config.ofArchitecture .arm).greaterNodes t.annotate) #[0 / 0, 0],
        n ∈ t.annotate.root.way ((Config.ofArchitecture .intel).greaterNodes t.annotate)
          #[0 / 0, 0] →
        n.Rejoins ((Config.ofArchitecture .arm).greaterNodes t.annotate)
          ((Config.ofArchitecture .intel).greaterNodes t.annotate) #[0 / 0, 0]) := by
  obtain ⟨t, ht⟩ := exists_build_lopsided
  have hx : t.dim.toNat ≤ (#[0 / 0, 0] : FeatureVector).size := by
    rw [(build_eq_ok ht).1]
    decide
  obtain ⟨p, p', v, v', hall⟩ :=
    predictions_agree_iff ht (.ofArchitecture .arm) (.ofArchitecture .intel) 0 1 hx
  exact ⟨t, p, p', v, v', ht, hx, hall⟩

/-- One budget inlines both splits, the other none: a root feature that is not a number goes left
under the one and right under the other. -/
theorem predictions_of_lopsided : ∃ t p p', lopsided.build 0 = .ok t ∧
    t.dim.toNat ≤ (#[0 / 0, 0] : FeatureVector).size ∧
    Program.lower ((Config.ofArchitecture .arm).withBudget 16000) t.annotate 0 = .ok p ∧
    Program.lower ((Config.ofArchitecture .arm).withBudget 0) t.annotate 0 = .ok p' ∧
    t.annotate.evaluate #[0 / 0, 0] = .ok 11 ∧ p.predict #[0 / 0, 0] = .ok 10 ∧
    p'.predict #[0 / 0, 0] = .ok 11 := by
  have hfacts : (lopsided.build 0).map (fun t => (t.dim, t.annotate.evaluate #[0 / 0, 0],
      t.annotate.root.evaluateWith [0, 2] #[0 / 0, 0],
      ((Config.ofArchitecture .arm).withBudget 16000).greaterNodes t.annotate,
      ((Config.ofArchitecture .arm).withBudget 0).greaterNodes t.annotate)) =
        .ok (2, .ok 11, .ok 10, [0, 2], []) := by
    rw [build_lopsided]
    decide
  obtain ⟨t, ht⟩ := exists_build_lopsided
  rw [ht] at hfacts
  simp only [Except.map, Except.ok.injEq, Prod.mk.injEq] at hfacts
  obtain ⟨hdim, hright, hleft, hgreater, hgreater'⟩ := hfacts
  obtain ⟨p, hp, h⟩ := exists_lower_predict ht ((Config.ofArchitecture .arm).withBudget 16000) 0
    #[0 / 0, 0]
  obtain ⟨p', hp', h'⟩ := exists_lower_predict ht ((Config.ofArchitecture .arm).withBudget 0) 0
    #[0 / 0, 0]
  refine ⟨t, p, p', ht, by rw [hdim]; decide, hp, hp', hright, ?_, ?_⟩
  · rw [h, hgreater, hleft]
  · rw [h', hgreater', Node.evaluateWith_nil]
    exact hright

end Draft
end TreeCode
