import TreeCode.Proofs.Tree.Drafting
import TreeCode.Proofs.Tree.Growth
import TreeCode.Proofs.Tree.Numbers

/-! # Defects of drafts

The conditions on a draft stand in the order in which they are checked, each with the error that
names it (`Draft.checks`). Building a tree fails with the error of the first one that does not
hold, and otherwise gives a tree that holds the nodes as they were drafted (`build_iff`). -/

namespace TreeCode

/-! ### Chains of checks -/

/-- A condition, and the error that names it. -/
structure Check where
  error : TreeError
  Holds : Prop

/-- The error names the first condition that does not hold. -/
def FirstFailing (checks : List Check) (e : TreeError) : Prop :=
  ∃ before p after, checks = before ++ ⟨e, p⟩ :: after ∧ ¬p ∧ ∀ c ∈ before, c.Holds

/-- The outcome is that of making the checks one after the other. -/
def Follows {α : Type} (checks : List Check) : Except TreeError α → Prop
  | .ok _ => ∀ c ∈ checks, c.Holds
  | .error e => FirstFailing checks e

section

variable {α β : Type} {checks checks' : List Check} {c : Check} {e e' : TreeError}
  {r : Except TreeError α} {f : α → Except TreeError β}

theorem FirstFailing.append_right (h : FirstFailing checks e) :
    FirstFailing (checks ++ checks') e := by
  obtain ⟨before, p, after, rfl, hp, hbefore⟩ := h
  exact ⟨before, p, after ++ checks', by simp, hp, hbefore⟩

theorem FirstFailing.append_left (h : FirstFailing checks' e) (hall : ∀ c ∈ checks, c.Holds) :
    FirstFailing (checks ++ checks') e := by
  obtain ⟨before, p, after, rfl, hp, hbefore⟩ := h
  refine ⟨checks ++ before, p, after, by simp, hp, fun c hc => ?_⟩
  rcases List.mem_append.1 hc with hc | hc
  · exact hall c hc
  · exact hbefore c hc

theorem FirstFailing.exists_not_holds (h : FirstFailing checks e) : ∃ c ∈ checks, ¬c.Holds := by
  obtain ⟨before, p, after, rfl, hp, -⟩ := h
  exact ⟨⟨e, p⟩, by simp, hp⟩

/-- There is only one first condition that does not hold. -/
theorem FirstFailing.unique (h : FirstFailing checks e) (h' : FirstFailing checks e') : e = e' := by
  obtain ⟨before, p, after, rfl, hp, hbefore⟩ := h
  obtain ⟨before', p', after', heq, hp', hbefore'⟩ := h'
  rcases List.append_eq_append_iff.1 heq with ⟨mid, rfl, hmid⟩ | ⟨mid, rfl, hmid⟩
  · cases mid with
    | nil => exact congrArg Check.error (List.cons.inj hmid).1
    | cons c mid =>
        obtain ⟨rfl, -⟩ := List.cons.inj hmid
        exact absurd (hbefore' ⟨e, p⟩ (by simp)) hp
  · cases mid with
    | nil => exact (congrArg Check.error (List.cons.inj hmid).1).symm
    | cons c mid =>
        obtain ⟨rfl, -⟩ := List.cons.inj hmid
        exact absurd (hbefore ⟨e', p'⟩ (by simp)) hp'

namespace Follows

theorem ok (a : α) : Follows [] (.ok a) := by simp [Follows]

/-- A check that fails ends the chain. -/
theorem check {p : Prop} [Decidable p] (hp : p ↔ ¬c.Holds) (h : c.Holds → Follows checks r) :
    Follows (c :: checks) (if p then .error c.error else r) := by
  split_ifs with hif
  · exact ⟨[], c.Holds, checks, rfl, hp.1 hif, by simp⟩
  · have hc : c.Holds := Classical.not_not.1 (mt hp.2 hif)
    have hr := h hc
    cases r with
    | ok a =>
        intro b hb
        rcases List.mem_cons.1 hb with rfl | hb
        · exact hc
        · exact hr b hb
    | error e =>
        have : FirstFailing ([c] ++ checks) e :=
          FirstFailing.append_left hr fun b hb => List.mem_singleton.1 hb ▸ hc
        exact this

theorem bind (h : Follows checks r) (h' : ∀ a, r = .ok a → Follows checks' (f a)) :
    Follows (checks ++ checks') (r >>= f) := by
  cases r with
  | error e => exact FirstFailing.append_right h
  | ok a =>
      have hf := h' a rfl
      show Follows (checks ++ checks') (f a)
      cases hb : f a with
      | error e =>
          rw [hb] at hf
          exact FirstFailing.append_left hf h
      | ok b =>
          rw [hb] at hf
          intro c hc
          rcases List.mem_append.1 hc with hc | hc
          · exact h c hc
          · exact hf c hc

theorem error_iff (h : Follows checks r) : r = .error e ↔ FirstFailing checks e := by
  constructor
  · rintro rfl
    exact h
  · intro hfail
    cases r with
    | error e' => rw [FirstFailing.unique hfail h]
    | ok a =>
        obtain ⟨c, hc, hnot⟩ := hfail.exists_not_holds
        exact absurd (h c hc) hnot

theorem ok_of_forall (h : Follows checks r) (hall : ∀ c ∈ checks, c.Holds) : ∃ a, r = .ok a := by
  cases r with
  | ok a => exact ⟨a, rfl⟩
  | error e =>
      obtain ⟨c, hc, hnot⟩ := FirstFailing.exists_not_holds h
      exact absurd (hall c hc) hnot

end Follows

end

/-! ### Identifiers -/

/-- A letter of the English alphabet or an underscore, and then letters, underscores and digits. -/
def IsIdentifier (name : List Char) : Prop :=
  ∃ c cs, name = c :: cs ∧
    ('A' ≤ c ∧ c ≤ 'Z' ∨ 'a' ≤ c ∧ c ≤ 'z' ∨ c = '_') ∧
    ∀ x ∈ cs, 'A' ≤ x ∧ x ≤ 'Z' ∨ 'a' ≤ x ∧ x ≤ 'z' ∨ '0' ≤ x ∧ x ≤ '9' ∨ x = '_'

theorem isUpper_iff (c : Char) : c.isUpper = true ↔ 'A' ≤ c ∧ c ≤ 'Z' := decide_eq_true_iff

theorem isLower_iff (c : Char) : c.isLower = true ↔ 'a' ≤ c ∧ c ≤ 'z' :=
  Bool.and_eq_true_iff.trans (and_congr decide_eq_true_iff decide_eq_true_iff)

theorem isAlpha_iff (c : Char) :
    c.isAlpha = true ↔ ('A' ≤ c ∧ c ≤ 'Z') ∨ 'a' ≤ c ∧ c ≤ 'z' :=
  Bool.or_eq_true_iff.trans (or_congr (isUpper_iff c) (isLower_iff c))

theorem isDigit_iff (c : Char) : c.isDigit = true ↔ '0' ≤ c ∧ c ≤ '9' :=
  Bool.and_eq_true_iff.trans (and_congr decide_eq_true_iff decide_eq_true_iff)

theorem startsIdentifier_iff (c : Char) : startsIdentifier c = true ↔
    'A' ≤ c ∧ c ≤ 'Z' ∨ 'a' ≤ c ∧ c ≤ 'z' ∨ c = '_' := by
  rw [startsIdentifier, Bool.or_eq_true, isAlpha_iff, beq_iff_eq, or_assoc]

theorem continuesIdentifier_iff (c : Char) : continuesIdentifier c = true ↔
    'A' ≤ c ∧ c ≤ 'Z' ∨ 'a' ≤ c ∧ c ≤ 'z' ∨ '0' ≤ c ∧ c ≤ '9' ∨ c = '_' := by
  rw [continuesIdentifier, Char.isAlphanum, Bool.or_eq_true, Bool.or_eq_true, isAlpha_iff,
    isDigit_iff, beq_iff_eq, or_assoc, or_assoc]

theorem isIdentifier_iff (name : List Char) : isIdentifier name = true ↔ IsIdentifier name := by
  cases name with
  | nil => simp [isIdentifier, IsIdentifier]
  | cons c cs =>
      simp only [isIdentifier, Bool.and_eq_true, List.all_eq_true, startsIdentifier_iff,
        continuesIdentifier_iff]
      constructor
      · rintro ⟨hc, hcs⟩
        exact ⟨c, cs, rfl, hc, hcs⟩
      · rintro ⟨_, _, heq, hc, hcs⟩
        obtain ⟨rfl, rfl⟩ := List.cons.inj heq
        exact ⟨hc, hcs⟩

/-! ### Conditions on drafts -/

/-- What a node of a tree was drafted as. -/
def Node.sketch : Node → Sketch
  | leaf m p => ⟨.leaf p, m.samples⟩
  | split m f t l r => ⟨.split f t l.id r.id, m.samples⟩

namespace Draft

/-- The draft is one tree below the head. -/
structure IsTree (d : Draft) (head : NodeId) : Prop where
  nonempty : 0 < d.sketches.size
  dim_pos : 0 < d.dim
  identifier : IsIdentifier d.name.toList
  head_lt : head < d.sketches.size
  sound : ∀ s ∈ d.sketches, s.rule.Sound d.dim
  child_lt : ∀ c ∈ d.slots, c < d.sketches.size
  nodup : d.slots.Nodup
  head_not_child : head ∉ d.slots
  reachable : ∀ id < d.sketches.size, d.LeadsTo head id

/-- The places in which the nodes before this one name their children. -/
def slotsBefore (d : Draft) (id : NodeId) : List NodeId :=
  (d.sketches.toList.take id).flatMap (·.rule.children)

/-- The conditions that do not concern a single node. -/
def headChecks (d : Draft) (head : NodeId) : List Check :=
  [⟨.empty, 0 < d.sketches.size⟩, ⟨.zeroDimension, 0 < d.dim⟩,
    ⟨.invalidName d.name, IsIdentifier d.name.toList⟩, ⟨.missingHead head, head < d.sketches.size⟩]

/-- The conditions on a node: those on its test, then those on its left and on its right child. -/
def ruleChecks (d : Draft) (id : NodeId) : Rule → List Check
  | .leaf _ => []
  | .split feature threshold left right =>
      [⟨.featureOutOfRange id feature d.dim, feature < d.dim⟩,
        ⟨.nonFiniteThreshold id, threshold.isFinite = true⟩,
        ⟨.danglingChild id left, left < d.sketches.size⟩,
        ⟨.sharedChild left, left ∉ d.slotsBefore id⟩,
        ⟨.danglingChild id right, right < d.sketches.size⟩,
        ⟨.sharedChild right, right ∉ d.slotsBefore id ++ [left]⟩]

/-- The conditions on the node of this number. -/
def nodeChecks (d : Draft) (id : NodeId) : List Check :=
  match d.sketches[id]? with
  | some s => d.ruleChecks id s.rule
  | none => []

/-- The condition that a way leads from the head to a node. -/
def wayCheck (d : Draft) (head id : NodeId) : Check := ⟨.unreachable id, d.LeadsTo head id⟩

/-- All conditions on a draft, in the order in which they are checked. -/
def checks (d : Draft) (head : NodeId) : List Check :=
  d.headChecks head ++ ((List.range d.sketches.size).flatMap d.nodeChecks ++
    (⟨.headHasParent head, head ∉ d.slots⟩ :: (List.range d.sketches.size).map (d.wayCheck head)))

variable {d : Draft} {head id : NodeId} {taken : List NodeId} {s : Sketch} {t : Tree}

theorem nodeChecks_eq (h : d.sketches[id]? = some s) :
    d.nodeChecks id = d.ruleChecks id s.rule := by
  rw [nodeChecks, h]

theorem danglingChild_mem_ruleChecks {rule : Rule} {child : NodeId} (h : child ∈ rule.children) :
    ⟨.danglingChild id child, child < d.sketches.size⟩ ∈ d.ruleChecks id rule := by
  cases rule with
  | leaf p => cases h
  | split f t left right =>
      simp only [Rule.children, List.mem_cons, List.not_mem_nil, or_false] at h
      rcases h with rfl | rfl <;> simp [ruleChecks]

theorem child_lt_of_holds
    (h : ∀ c ∈ (List.range d.sketches.size).flatMap d.nodeChecks, c.Holds) :
    ∀ child ∈ d.slots, child < d.sketches.size := by
  intro child hchild
  obtain ⟨id, hid⟩ := mem_slots_iff.1 hchild
  obtain ⟨s, hs, hmem⟩ := hasChild_iff.1 hid
  refine h ⟨.danglingChild id child, _⟩ (List.mem_flatMap.2 ⟨id, ?_, ?_⟩)
  · exact List.mem_range.2 (lt_of_hasChild hid)
  · rw [nodeChecks_eq hs]
    exact danglingChild_mem_ruleChecks hmem

/-! ### Making the checks -/

theorem follows_checkHead : Follows (d.headChecks head) (d.checkHead head) := by
  unfold checkHead headChecks
  refine .check ?_ fun _ => .check ?_ fun _ => .check ?_ fun _ => .check ?_ fun _ => .ok ()
  · rw [Array.isEmpty_iff_size_eq_zero]
    exact Nat.pos_iff_ne_zero.not_left.symm
  · rw [UInt32.pos_iff_ne_zero, ne_eq, not_not]
  · rw [← isIdentifier_iff, Bool.not_eq_true']
    exact Bool.not_eq_true _ ▸ Iff.rfl
  · exact Nat.not_lt.symm

theorem slotsBefore_succ (h : d.sketches[id]? = some s) :
    d.slotsBefore (id + 1) = d.slotsBefore id ++ s.rule.children := by
  rw [← Array.getElem?_toList] at h
  rw [slotsBefore, List.take_add_one, h, List.flatMap_append]
  simp [slotsBefore]

theorem follows_checkRule (h : ∀ c, c ∈ taken ↔ c ∈ d.slotsBefore id) (rule : Rule) :
    Follows (d.ruleChecks id rule) (d.checkRule id taken rule) := by
  cases rule with
  | leaf p => exact .ok taken
  | split f t left right =>
      have hclaim {c : NodeId} {earlier taken : List NodeId} (h : ∀ c, c ∈ taken ↔ c ∈ earlier) :
          Follows [⟨.danglingChild id c, c < d.sketches.size⟩, ⟨.sharedChild c, c ∉ earlier⟩]
            (d.claim id c taken) := by
        unfold claim
        refine .check Nat.not_lt.symm fun _ => .check ?_ fun _ => .ok (c :: taken)
        rw [not_not]
        exact h c
      simp only [ruleChecks, checkRule]
      refine .check UInt32.not_lt.symm fun _ => .check ?_ fun _ =>
        (hclaim h).bind fun taken' ht => ?_
      · simp
      · obtain ⟨-, -, rfl⟩ := claim_eq_ok_iff.1 ht
        refine hclaim fun c => ?_
        rw [List.mem_cons, List.mem_append, List.mem_singleton, h, or_comm]

/-- The nodes are checked in the order of their numbers, with the children taken so far. -/
theorem follows_checkSketches {rest : List Sketch} (hrest : d.sketches.toList.drop id = rest)
    (h : ∀ c, c ∈ taken ↔ c ∈ d.slotsBefore id) :
    Follows ((List.range' id rest.length).flatMap d.nodeChecks)
      (d.checkSketches id taken rest) := by
  induction rest generalizing id taken with
  | nil => exact .ok taken
  | cons s rest ih =>
      have hs : d.sketches[id]? = some s := by
        rw [← Array.getElem?_toList, ← List.head?_drop, hrest]
        rfl
      have hdrop : d.sketches.toList.drop (id + 1) = rest := by
        rw [← List.tail_drop, hrest]
        rfl
      rw [List.length_cons, List.range'_succ, List.flatMap_cons, nodeChecks_eq hs, checkSketches]
      refine (follows_checkRule h s.rule).bind fun taken' ht => ih hdrop fun c => ?_
      obtain ⟨rfl, -⟩ := checkRule_eq_ok ht
      rw [slotsBefore_succ hs, List.mem_append, List.mem_append, List.mem_reverse, h, or_comm]

/-- The search fails at the first node that no way leads to. -/
theorem follows_assemble {root : Node} (hg : d.grow d.sketches.size head = some root) :
    Follows ((List.range d.sketches.size).map (d.wayCheck head)) (d.assemble head) := by
  have hway (id : NodeId) : (d.wayCheck head id).Holds ↔ id ∈ root.subtrees.map Node.id :=
    (mem_ids_iff_leadsTo hg).symm
  cases hfind : (d.reached head).findIdx? (!·) with
  | none =>
      have hall := (findIdx?_reached_eq_none_iff hg).1 hfind
      rw [assemble_of_grow hg hall]
      intro c hc
      obtain ⟨id, hid, rfl⟩ := List.mem_map.1 hc
      exact (hway id).2 (hall id (List.mem_range.1 hid))
  | some id =>
      -- a flag is set just if the check for its node holds
      have hflag {i : NodeId} (hi : i < (d.reached head).size) :
          i < d.sketches.size ∧ ((d.reached head)[i] = true ↔ (d.wayCheck head i).Holds) := by
        have hget := getElem?_reached hg i
        rw [Array.getElem?_eq_getElem hi] at hget
        split_ifs at hget with hlt
        refine ⟨hlt, ?_⟩
        rw [hway, Option.some.inj hget, decide_eq_true_eq]
      obtain ⟨hlt, hnot, hbefore⟩ := Array.findIdx?_eq_some_iff_getElem.1 hfind
      have hsplit : ∃ after, List.range d.sketches.size = List.range id ++ id :: after := by
        obtain ⟨k, hk⟩ := Nat.exists_eq_add_of_lt (hflag hlt).1
        rw [hk, Nat.add_right_comm, List.range_add, List.range_succ, List.append_assoc]
        exact ⟨_, rfl⟩
      obtain ⟨after, hsplit⟩ := hsplit
      unfold assemble
      rw [hfind, hsplit, List.map_append, List.map_cons]
      refine ⟨_, d.LeadsTo head id, _, rfl, ?_, ?_⟩
      · intro hleads
        rw [(hflag hlt).2.2 hleads] at hnot
        cases hnot
      · intro c hc
        obtain ⟨i, hi, rfl⟩ := List.mem_map.1 hc
        have hi := List.mem_range.1 hi
        exact (hflag (Nat.lt_trans hi hlt)).2.1 (by simpa using hbefore i hi)

theorem follows_allSketches :
    Follows ((List.range d.sketches.size).flatMap d.nodeChecks)
      (d.checkSketches 0 [] d.sketches.toList) := by
  have h : Follows _ (d.checkSketches 0 [] d.sketches.toList) :=
    follows_checkSketches List.drop_zero (by simp [slotsBefore])
  rwa [Array.length_toList, ← List.range_eq_range'] at h

/-- Once the nodes are checked, the tree below the head grows. -/
theorem exists_grow_of_checks (hhead : d.checkHead head = .ok ())
    (hsketches : d.checkSketches 0 [] d.sketches.toList = .ok taken) (hnot : head ∉ taken) :
    d.slots.Nodup ∧ ∃ root, d.grow d.sketches.size head = some root := by
  obtain ⟨htaken, hnodup, -⟩ := checkSketches_eq_ok hsketches
  rw [List.append_nil] at htaken
  have hslots : d.slots.Nodup := List.nodup_reverse.1 (htaken ▸ hnodup List.nodup_nil)
  have hnot : head ∉ d.slots := fun h => hnot (htaken ▸ List.mem_reverse.2 h)
  have holds : Follows _ (d.checkHead head) := follows_checkHead
  have hnodes : Follows _ (d.checkSketches 0 [] d.sketches.toList) := follows_allSketches
  rw [hhead] at holds
  rw [hsketches] at hnodes
  refine ⟨hslots, exists_grow hslots hnot ?_ (child_lt_of_holds hnodes)⟩
  exact holds ⟨.missingHead head, head < d.sketches.size⟩ (by simp [headChecks])

/-- **Building a tree** makes the checks one after the other. -/
theorem follows_build : Follows (d.checks head) (d.build head) := by
  unfold build checks
  refine follows_checkHead.bind fun _ hhead => follows_allSketches.bind fun taken hsketches => ?_
  have htaken := (checkSketches_eq_ok hsketches).1
  rw [List.append_nil] at htaken
  refine .check ?_ fun hnot => ?_
  · rw [not_not, htaken, List.mem_reverse]
    rfl
  · have hnot : head ∉ taken := by
      rwa [htaken, List.mem_reverse]
    obtain ⟨-, root, hg⟩ := exists_grow_of_checks hhead hsketches hnot
    exact follows_assemble hg

/-! ### Drafts that are trees -/

theorem exists_slots_eq (h : d.sketches[id]? = some s) :
    ∃ after, d.slots = d.slotsBefore id ++ (s.rule.children ++ after) := by
  refine ⟨(d.sketches.toList.drop (id + 1)).flatMap (·.rule.children), ?_⟩
  rw [← List.append_assoc, ← slotsBefore_succ h, slotsBefore, ← List.flatMap_append,
    List.take_append_drop, slots]

theorem holds_of_mem_ruleChecks {rule : Rule} {after : List NodeId} {c : Check}
    (hsound : rule.Sound d.dim) (hlt : ∀ a ∈ rule.children, a < d.sketches.size)
    (hnodup : (d.slotsBefore id ++ (rule.children ++ after)).Nodup)
    (hc : c ∈ d.ruleChecks id rule) : c.Holds := by
  cases rule with
  | leaf p => cases hc
  | split f t left right =>
      have hnodup : ((d.slotsBefore id ++ [left]) ++ (right :: after)).Nodup := by
        simpa [Rule.children] using hnodup
      have hright : right ∉ d.slotsBefore id ++ [left] := fun hmem =>
        (List.nodup_append.1 hnodup).2.2 _ hmem _ List.mem_cons_self rfl
      have hleft : left ∉ d.slotsBefore id := fun hmem =>
        (List.nodup_append.1 (List.nodup_append.1 hnodup).1).2.2 _ hmem _ List.mem_cons_self rfl
      simp only [ruleChecks, List.mem_cons, List.not_mem_nil, or_false] at hc
      rcases hc with rfl | rfl | rfl | rfl | rfl | rfl
      · exact hsound.1
      · exact hsound.2
      · exact hlt left (by simp [Rule.children])
      · exact hleft
      · exact hlt right (by simp [Rule.children])
      · exact hright

/-- A tree passes all checks. -/
theorem IsTree.holds (h : d.IsTree head) : ∀ c ∈ d.checks head, c.Holds := by
  intro c hc
  simp only [checks, List.mem_append, List.mem_cons, List.mem_flatMap, List.mem_map,
    List.mem_range] at hc
  rcases hc with hc | ⟨id, hid, hc⟩ | rfl | ⟨id, hid, rfl⟩
  · simp only [headChecks, List.mem_cons, List.not_mem_nil, or_false] at hc
    rcases hc with rfl | rfl | rfl | rfl
    · exact h.nonempty
    · exact h.dim_pos
    · exact h.identifier
    · exact h.head_lt
  · have hs := Array.getElem?_eq_getElem hid
    obtain ⟨after, hafter⟩ := exists_slots_eq hs
    rw [nodeChecks_eq hs] at hc
    refine holds_of_mem_ruleChecks (h.sound _ (Array.getElem_mem hid)) (fun a ha => ?_)
      (hafter ▸ h.nodup) hc
    exact h.child_lt a (mem_slots_iff.2 ⟨id, hasChild_iff.2 ⟨_, hs, ha⟩⟩)
  · exact h.head_not_child
  · exact h.reachable id hid

theorem isTree_of_build (h : d.build head = .ok t) : d.IsTree head := by
  obtain ⟨-, hdim, hsound, hnodup, hg, hall⟩ := build_eq_ok h
  have holds : Follows (d.checks head) (d.build head) := follows_build
  rw [h] at holds
  have hhead : ∀ c ∈ d.headChecks head, c.Holds := fun c hc =>
    holds c (List.mem_append_left _ hc)
  exact {
    nonempty := hhead ⟨.empty, _⟩ (by simp [headChecks])
    dim_pos := hdim
    identifier := hhead ⟨.invalidName d.name, IsIdentifier d.name.toList⟩ (by simp [headChecks])
    head_lt := hhead ⟨.missingHead head, _⟩ (by simp [headChecks])
    sound := fun s hs => hsound s (Array.mem_toList_iff.2 hs)
    child_lt := child_lt_of_holds fun c hc => holds c (by simp [checks, hc])
    nodup := hnodup
    head_not_child := holds ⟨.headHasParent head, _⟩ (by simp [checks])
    reachable := fun id hid => (mem_ids_iff_leadsTo hg).1 (hall id hid) }

/-! ### The nodes of a tree that was built -/

theorem sketch_of_grow {fuel : Nat} {n : Node} (h : d.grow fuel n.id = some n) :
    d.sketches[n.id]? = some n.sketch ∧ n.prob = 0 := by
  obtain ⟨⟨rule, samples⟩, hs, hm, hr⟩ := grow_eq_some h
  have hsamples : n.samples = samples := congrArg Mark.samples hm
  have hprob : n.prob = 0 := congrArg Mark.prob hm
  refine ⟨?_, hprob⟩
  rw [hs, ← hsamples]
  cases n with
  | leaf m p =>
      obtain rfl : rule = .leaf p := hr
      rfl
  | split m f th l r =>
      obtain rfl : rule = .split f th l.id r.id := hr.1
      rfl

/-- A tree that was built holds the nodes as they were drafted. -/
theorem map_sketch_nodes (h : d.build head = .ok t) :
    t.nodes.map Node.id = List.range d.sketches.size ∧
      t.nodes.map Node.sketch = d.sketches.toList ∧ ∀ n ∈ t.nodes, n.prob = 0 := by
  have hroot := (build_wellFormed h).distinct
  have hids := ids_perm_range_nodeCount h
  have hnodes : t.nodes.map Node.id = List.range d.sketches.size := by
    rw [← nodeCount_of_build h]
    exact Tree.map_id_nodes hroot hids
  have hg := (build_eq_ok h).2.2.2.2.1
  rw [← id_of_grow hg] at hg
  have hsketch : ∀ n ∈ t.nodes, d.sketches[n.id]? = some n.sketch ∧ n.prob = 0 := by
    intro n hn
    obtain ⟨_, hgn⟩ := grow_of_mem_subtrees hg ((Tree.nodes_perm hroot hids).mem_iff.1 hn)
    exact sketch_of_grow hgn
  refine ⟨hnodes, ?_, fun n hn => (hsketch n hn).2⟩
  refine List.map_injective_iff.2 (fun _ _ => Option.some.inj) ?_
  calc (t.nodes.map Node.sketch).map some
      _ = t.nodes.map fun n => d.sketches[n.id]? := by
        rw [List.map_map]
        exact List.map_congr_left fun n hn => (hsketch n hn).1.symm
      _ = (List.range d.sketches.size).map fun id => d.sketches[id]? := by
        rw [← hnodes, List.map_map]
        rfl
      _ = d.sketches.toList.map some := by
        refine List.ext_getElem (by simp) fun i hi hi' => ?_
        have hlt : i < d.sketches.size := by simpa using hi
        simp [hlt]

/-! ### The theorem -/

/-- **Building a tree** succeeds just if the draft is one tree below the head, and fails with the
error of the first check that does not hold. The search from the head ends whenever it is made, and
comes by each node that the head leads to once. A tree that was built holds the nodes with the
numbers, rules and sample counts that they were drafted with. If the draft was made from an empty
one step by step, these are the numbers that the steps came with, in this order, and the sample
counts that were set last for a node that was there. -/
theorem build_iff (d : Draft) (head : NodeId) :
    ((∃ t, d.build head = .ok t) ↔ d.IsTree head) ∧
      (∀ e, d.build head = .error e ↔ FirstFailing (d.checks head) e) ∧
      (∀ taken, d.checkHead head = .ok () → d.checkSketches 0 [] d.sketches.toList = .ok taken →
        head ∉ taken → ∃ order, WorkedOff (fun id => (d.childIds id).reverse) [head] order ∧
          order.Nodup ∧ (∀ id ∈ order, id < d.sketches.size) ∧
            ∀ id, id ∈ order ↔ d.LeadsTo head id) ∧
      (∀ t, d.build head = .ok t →
        t = ⟨d.name, d.dim, d.featureType, t.root, false⟩ ∧ t.root.id = head ∧
          t.nodes.map Node.id = List.range d.sketches.size ∧
          t.nodes.map Node.sketch = d.sketches.toList ∧ ∀ n ∈ t.nodes, n.prob = 0) ∧
      ∀ name dim featureType steps, d = (empty name dim featureType).run steps →
        d.name = name ∧ d.dim = dim ∧ d.featureType = featureType ∧
          (empty name dim featureType).numbers steps = List.range d.sketches.size ∧
          d.sketches.toList = Step.sketches 0 steps := by
  have hbuild : Follows (d.checks head) (d.build head) := follows_build
  refine ⟨⟨?_, ?_⟩, ?_, ?_, ?_, ?_⟩
  · rintro ⟨t, ht⟩
    exact isTree_of_build ht
  · exact fun h => hbuild.ok_of_forall h.holds
  · exact fun e => hbuild.error_iff
  · intro taken hhead hsketches hnot
    obtain ⟨hslots, root, hg⟩ := exists_grow_of_checks hhead hsketches hnot
    obtain ⟨order, hwork, hperm⟩ := exists_search hg
    refine ⟨order, hwork, ?_, fun id hid => ?_, fun id => ?_⟩
    · rw [← id_of_grow hg] at hg
      exact hperm.nodup_iff.2 (distinct_of_grow hg hslots)
    · exact lt_size_of_mem_ids hg (hperm.mem_iff.1 hid)
    · rw [hperm.mem_iff]
      exact mem_ids_iff_leadsTo hg
  · intro t ht
    exact ⟨(assemble_eq_ok (assemble_of_build ht)).1, root_id_of_build ht, map_sketch_nodes ht⟩
  · rintro name dim featureType steps rfl
    obtain ⟨hrun, hnumbers⟩ := run_empty steps name dim featureType
    rw [hrun]
    exact ⟨rfl, rfl, rfl, hnumbers, rfl⟩

/-- A leaf, and a split that is a child of its own. -/
def detached : Draft :=
  ⟨"t", 1, .int, #[⟨.leaf 0, none⟩, ⟨.split 0 0.5 1 2, none⟩, ⟨.leaf 1, none⟩]⟩

theorem firstFailing_detached : FirstFailing (detached.checks 0) (.unreachable 1) := by
  have hway : ¬detached.LeadsTo 0 1 := by
    intro h
    rcases Relation.ReflTransGen.cases_head h with h | ⟨c, hc, -⟩
    · cases h
    · cases hc
  refine ⟨detached.headChecks 0 ++ (detached.nodeChecks 1 ++
    [⟨.headHasParent 0, 0 ∉ detached.slots⟩, detached.wayCheck 0 0]), _, [detached.wayCheck 0 2],
    rfl, hway, ?_⟩
  have hname : IsIdentifier detached.name.toList := (isIdentifier_iff _).1 (by decide)
  have hfinite : (0.5 : Float).isFinite = true := by decide
  have hrule : ∀ c ∈ detached.nodeChecks 1, c.Holds := by
    show ∀ c ∈ detached.ruleChecks 1 (.split 0 0.5 1 2), c.Holds
    simp only [ruleChecks, List.forall_mem_cons]
    exact ⟨by decide, hfinite, by decide, by decide, by decide, by decide, nofun⟩
  simp only [headChecks, List.forall_mem_append, List.forall_mem_cons]
  exact ⟨⟨by decide, by decide, hname, by decide, nofun⟩, hrule, by decide, .refl, nofun⟩

/-- A count that is set before the node is there, and two that are set afterwards. -/
theorem build_iff_detached : lopsided.IsTree 0 ∧ detached.build 0 = .error (.unreachable 1) ∧
    (empty "t" 1 .int).numbers [.setSamples 0 5, .add (.leaf 7), .setSamples 0 2,
      .setSamples 0 3] = [0] ∧
    ((empty "t" 1 .int).run [.setSamples 0 5, .add (.leaf 7), .setSamples 0 2,
      .setSamples 0 3]).sketches.toList = [⟨.leaf 7, some 3⟩] := by
  obtain ⟨⟨htree, -⟩, -⟩ := build_iff lopsided 0
  obtain ⟨-, herror, -⟩ := build_iff detached 0
  obtain ⟨-, -, -, -, hsteps⟩ := build_iff ((empty "t" 1 .int).run [.setSamples 0 5,
    .add (.leaf 7), .setSamples 0 2, .setSamples 0 3]) 0
  obtain ⟨-, -, -, hnumbers, hsketches⟩ := hsteps _ _ _ _ rfl
  exact ⟨htree exists_build_lopsided, (herror _).2 firstFailing_detached, hnumbers, hsketches⟩

end Draft
end TreeCode
