import TreeCode.Proofs.CType.Range
import TreeCode.Proofs.Program.Prediction

/-! # Fields of table entries

The positions in a table and the indices of its features are kept in fields of the narrowest
unsigned types that hold the size of the table and the dimension of the vectors. All positions that
the program has anything to do with are below the size, and all features below the dimension. So
the fields keep what is stored in them (`Program.Realizes.keep_table`), and so does the cursor of
the loop, which is of the type of the positions (`Program.Realizes.walkIn_eq`). -/

namespace TreeCode

/-! ### What fields and cursors keep -/

/-- What a variable of an integer type keeps of a natural number. -/
def CType.keep (type : CType) (n : Nat) : Nat := (type.store n).toNat

theorem CType.holds_unsigned {w : Width} {n : Nat} (h : n < 2 ^ w.bits) : (unsigned w).Holds n :=
  ⟨Int.natCast_nonneg n, by exact_mod_cast h⟩

theorem CType.keep_eq_self {type : CType} {n : Nat} (h : type.Holds n)
    (htype : type.isInteger = true) : type.keep n = n := by
  rw [keep, (store_eq_self_iff htype).2 h, Int.toNat_natCast]

/-- What the fields for the feature and the children keep of an entry. -/
def Entry.keep (layout : RecordLayout) (e : Entry) : Entry :=
  { e with
    feature := .ofNat (layout.feature.keep e.feature.toNat)
    left := layout.index.keep e.left
    right := layout.index.keep e.right }

namespace Table

def keep (layout : RecordLayout) (t : Table) : Table :=
  { t with entries := t.entries.map (Entry.keep layout) }

/-- One round of the loop with a cursor of the given type. -/
def visitIn (type : CType) (t : Table) (x : FeatureVector) (i : Nat) :
    Except Fault (Nat ⊕ UInt32) := do
  match ← t.visit x i with
  | .inl j => pure (.inl (type.keep j))
  | .inr p => pure (.inr p)

/-- The walk of a loop whose cursor is of the given type. -/
def walkIn (type : CType) (t : Table) (start : Nat) (x : FeatureVector) : Except Fault UInt32 :=
  repeatM (t.visitIn type x) (type.keep start)

end Table

/-! ### Positions -/

section positions

variable {table : Table} {root n : Node} {s : Statement}

theorem Statement.CodeFor.exists_index (h : s.CodeFor table.index? n) {node : NodeId}
    {entry : Nat} (hs : .fallback node entry ∈ s.preorder) : table.index? node = some entry := by
  induction h with
  | ret => simp [preorder] at hs
  | fallback hi =>
      obtain ⟨rfl, rfl⟩ := Statement.fallback.inj (List.mem_singleton.1 hs)
      exact hi
  | leftFirst hhot ha hb iha ihb =>
      simp only [preorder, List.mem_cons, List.mem_append, reduceCtorEq, false_or] at hs
      exact hs.elim iha ihb
  | rightFirst hhot ha hb iha ihb =>
      simp only [preorder, List.mem_cons, List.mem_append, reduceCtorEq, false_or] at hs
      exact hs.elim iha ihb

namespace Table.Represents

variable (h : table.Represents root)
include h

/-- Every entry is that of a leaf or of a split. -/
theorem entry_cases {e : Entry} (he : e ∈ table.entries) :
    (∃ p, e = ⟨true, p, 0, 0, 0, 0⟩) ∨
      ∃ m f th l r j k, .split m f th l r ∈ root.subtrees ∧ j < table.size ∧ k < table.size ∧
        e = ⟨false, 0, f, th, j, k⟩ := by
  obtain ⟨i, hi, rfl⟩ := Array.mem_iff_getElem.1 he
  have hget := Array.getElem?_eq_getElem hi
  obtain ⟨n, hn, hindex⟩ := h.exists_node i hi
  cases n with
  | leaf m p => exact .inl ⟨p, Option.some.inj (hget.symm.trans (h.leaf hn hindex))⟩
  | split m f th l r =>
      obtain ⟨j, k, hj, hk, -, -, hentry⟩ := h.split hn hindex
      exact .inr ⟨m, f, th, l, r, j, k, hn, h.lt_size hj, h.lt_size hk,
        Option.some.inj (hget.symm.trans hentry)⟩

/-- The children are positions of the table, and the feature is one of the vector. -/
theorem entry_bounds {dim : UInt32} (hwf : root.WellFormed dim) (hdim : 0 < dim) {e : Entry}
    (he : e ∈ table.entries) : e.left < table.size ∧ e.right < table.size ∧ e.feature < dim := by
  rcases h.entry_cases he with ⟨p, rfl⟩ | ⟨m, f, th, l, r, j, k, hn, hj, hk, rfl⟩
  · have hpos : 0 < table.size := Array.size_pos_of_mem he
    exact ⟨hpos, hpos, hdim⟩
  · exact ⟨hj, hk, (hwf.split hn).1⟩

/-- **The loop** never comes to a position that its cursor does not keep. -/
theorem walkIn_eq {type : CType} (htype : ∀ i < table.size, type.keep i = i) (x : FeatureVector)
    {start : Nat} (hstart : start < table.size) :
    table.walkIn type start x = table.walk start x := by
  rw [walkIn, htype start hstart]
  -- every step goes on to a later position, so the induction is on the positions that are left
  induction hleft : table.size - start using Nat.strong_induction_on generalizing start with
  | _ left ih =>
      cases hvisit : table.visit x start with
      | error fault =>
          rw [walk_of_visit_error hvisit, repeatM_eq_of_monadTail, repeatM.body, visitIn, hvisit]
          rfl
      | ok next =>
          cases next with
          | inr p =>
              rw [walk_of_visit_inr hvisit, repeatM_eq_of_monadTail, repeatM.body, visitIn, hvisit]
              rfl
          | inl j =>
              obtain ⟨hlt, hj⟩ := h.lt_of_step (x := x) hvisit
              have hround : table.visitIn type x start = .ok (.inl j) := by
                rw [visitIn, hvisit]
                exact congrArg (fun i => Except.ok (Sum.inl i)) (htype j hj)
              rw [walk_of_step hvisit, ← ih (table.size - j) (by omega) hj rfl,
                repeatM_eq_of_monadTail, repeatM.body, hround]
              rfl

end Table.Represents
end positions

/-! ### Programs -/

namespace Program

/-- The fields of the entries are wide enough for the program, and the loop can do with a cursor of
the type of the positions. -/
structure Fits (p : Program) : Prop where
  children : ∀ e ∈ p.table.entries, p.layout.index.Holds e.left ∧ p.layout.index.Holds e.right
  jumps : ∀ (node : NodeId) (entry : Nat), .fallback node entry ∈ p.body.preorder →
    p.layout.index.Holds entry
  feature : ∀ e ∈ p.table.entries, p.layout.feature.Holds e.feature.toNat
  keep_table : p.table.keep p.layout = p.table
  cursor : ∀ x start, start < p.table.size →
    (p.table.keep p.layout).walkIn p.layout.index start x = p.table.walk start x

variable {p : Program} {root : Node} {dim : UInt32}

theorem Realizes.fits (h : p.Realizes root) (hwf : root.WellFormed dim) (hdim : 0 < dim)
    {w w' : Width} (hindex : p.layout.index = .unsigned w) (hw : w.Narrowest p.table.size)
    (hfeature : p.layout.feature = .unsigned w') (hw' : w'.Narrowest dim.toNat) : p.Fits := by
  have hposition {i : Nat} (hi : i < p.table.size) : p.layout.index.Holds i := by
    rw [hindex]
    exact CType.holds_unsigned (hi.trans hw.1)
  have hkeep {i : Nat} (hi : i < p.table.size) : p.layout.index.keep i = i :=
    CType.keep_eq_self (hposition hi) (by rw [hindex]; rfl)
  have hbounds {e : Entry} (he : e ∈ p.table.entries) := h.table.entry_bounds hwf hdim he
  have hsmall {e : Entry} (he : e ∈ p.table.entries) : p.layout.feature.Holds e.feature.toNat := by
    rw [hfeature]
    exact CType.holds_unsigned ((UInt32.lt_iff_toNat_lt.1 (hbounds he).2.2).trans hw'.1)
  have htable : p.table.keep p.layout = p.table := by
    have hentries : p.table.entries.map (Entry.keep p.layout) = p.table.entries := by
      refine Array.ext (Array.size_map ..) fun i hi hi' => ?_
      have he := Array.getElem_mem hi'
      rw [Array.getElem_map, Entry.keep, hkeep (hbounds he).1, hkeep (hbounds he).2.1,
        CType.keep_eq_self (hsmall he) (by rw [hfeature]; rfl), UInt32.ofNat_toNat]
    rw [Table.keep, hentries]
  refine ⟨?_, ?_, fun e he => hsmall he, htable, ?_⟩
  · exact fun e he => ⟨hposition (hbounds he).1, hposition (hbounds he).2.1⟩
  · exact fun node entry hs => hposition (h.table.lt_size (h.body.exists_index hs))
  · intro x start hstart
    rw [htable]
    exact h.table.walkIn_eq (fun i hi => hkeep hi) x hstart

end Program

/-! ### Trees that were built -/

namespace Draft

variable {d : Draft} {head : NodeId} {t : Tree}

/-- **The fields of the table** are of the narrowest unsigned types that hold the number of entries
and the dimension. So they keep all positions and features that the program has, and the loop walks
the table as if its cursor had no bounds. -/
theorem fields_fit (hb : d.build head = .ok t) (hsize : t.nodeCount < 2 ^ 32) (c : Config)
    (treeId : UInt32) : ∃ p w w', Program.lower c t.annotate treeId = .ok p ∧
      p.table.size = t.nodeCount ∧
      p.layout.index = .unsigned w ∧ w.Narrowest p.table.size ∧
      p.layout.feature = .unsigned w' ∧ w'.Narrowest t.dim.toNat ∧ p.Fits := by
  have hroot := root_wellFormed_annotate hb
  obtain ⟨p, hp, h⟩ := Program.exists_lower (t := t.annotate) hroot.distinct rfl c treeId
  have htree : p.tree = t.annotate := congrArg Program.tree (Program.lower_eq_ok hp).2.2.2
  have hcount : p.table.size = t.nodeCount := h.table.size.trans (Node.size_annotate 1 t.root)
  have hdim : 0 < t.dim := by
    obtain ⟨heq, hpos, -⟩ := build_eq_ok hb
    rwa [heq]
  have hlayout : p.layout.feature = .forIndex t.dim.toNat := by
    rw [Program.layout, htree]
    rfl
  have hw := Width.narrowest_forUnsigned (hcount ▸ hsize)
  have hw' := Width.narrowest_forUnsigned t.dim.toNat_lt
  exact ⟨p, _, _, hp, hcount, rfl, hw, hlayout, hw', h.fits hroot hdim rfl hw hlayout hw'⟩

theorem fields_fit_lopsided : lopsided.build 0 = .ok lopsidedTree ∧
    lopsidedTree.nodeCount < 2 ^ 32 ∧
    ∃ p, Program.lower (.ofArchitecture .arm) lopsidedTree.annotate 0 = .ok p ∧
      p.table.size = 5 ∧ p.layout.index = .unsigned .w8 ∧ Width.w8.Narrowest 5 ∧
      p.layout.feature = .unsigned .w8 ∧ Width.w8.Narrowest 2 ∧ p.Fits := by
  have hsmall : lopsidedTree.nodeCount < 2 ^ 32 := by decide
  obtain ⟨p, w, w', hp, hcount, hindex, hw, hfeature, hw', hfits⟩ :=
    fields_fit build_lopsided hsmall (.ofArchitecture .arm) 0
  have hfive : p.table.size = 5 := hcount.trans (by decide)
  rw [hfive] at hw
  -- both widths are at most that of eight bits
  obtain rfl : w = .w8 := by
    cases w <;> first | rfl | exact absurd (hw.2 .w8 (by decide)) (by decide)
  obtain rfl : w' = .w8 := by
    cases w' <;> first | rfl | exact absurd (hw'.2 .w8 (by decide)) (by decide)
  exact ⟨build_lopsided, hsmall, p, hp, hfive, hindex, hw, hfeature, hw', hfits⟩

end Draft
end TreeCode
