import TreeCode.Table.Basic

/-! # Packing

The nodes of a tree are laid out so that the way an evaluation is likely to take is contiguous.
A run starts at the most probable node that waits, and follows the hotter child of each split
until it comes to a leaf or has its full length; the colder children wait, and so do both
children of a split that ends a run of full length. The entry of a split is appended before its
children have positions: a waiting node knows the place that is kept free for its own position,
and fills it once it is laid out. -/

namespace TreeCode

/-! ### Waiting nodes -/

/-- A place for the position of a child in the entry of its parent. -/
structure Link where
  parent : Nat
  side : Side
deriving DecidableEq, Repr

/-- A node that waits to be laid out, with the place for its position if it has a parent. -/
structure Pending where
  node : Node
  link : Option Link
deriving DecidableEq

namespace Pending

/-- `a` is laid out before `b`: its probability is greater, or the same with a lower number. -/
def precedes (a b : Pending) : Bool :=
  decide (totalRank b.node.prob < totalRank a.node.prob) ||
    (totalRank a.node.prob == totalRank b.node.prob && decide (a.node.id < b.node.id))

/-- Put a node in its place among waiting ones. -/
def enqueue (p : Pending) : List Pending → List Pending
  | [] => [p]
  | q :: qs => if p.precedes q then p :: q :: qs else q :: enqueue p qs

/-- Number of nodes at and below the given ones. -/
def totalSize : List Pending → Nat
  | [] => 0
  | p :: ps => p.node.size + totalSize ps

@[simp] theorem totalSize_nil : totalSize [] = 0 := rfl

@[simp] theorem totalSize_cons (p : Pending) (ps : List Pending) :
    totalSize (p :: ps) = p.node.size + totalSize ps := rfl

@[simp] theorem totalSize_enqueue (p : Pending) (ps : List Pending) :
    totalSize (p.enqueue ps) = p.node.size + totalSize ps := by
  induction ps with
  | nil => simp [enqueue]
  | cons q qs ih =>
      unfold enqueue
      split
      · simp
      · simp only [totalSize_cons, ih]
        omega

end Pending

/-! ### Entries under construction -/

namespace Entry

/-- The entry of a node whose children have no positions yet. -/
def ofNode : Node → Entry
  | .leaf _ p => ⟨true, p, 0, 0, 0, 0⟩
  | .split _ f t _ _ => ⟨false, 0, f, t, 0, 0⟩

def setChild (e : Entry) (side : Side) (position : Nat) : Entry :=
  match side with
  | .left => { e with left := position }
  | .right => { e with right := position }

end Entry

/-- What has been laid out so far. -/
structure Packing where
  entries : Array Entry
  index : IndexMap
  /-- Number of places for children that are still free. -/
  unresolved : Nat
  /-- Number of runs that were started. -/
  runs : Nat
  events : Array Event

namespace Packing

def empty : Packing := ⟨#[], [], 0, 0, #[]⟩

/-- Fill the place that a link stands for with the next free position. -/
def fill (s : Packing) : Option Link → Except Fault Packing
  | none => .ok s
  | some link =>
      if s.entries.size ≤ link.parent then .error (.missingEntry link.parent)
      else if s.unresolved = 0 then .error .emptyCount
      else .ok { s with
        entries := s.entries.modify link.parent (·.setChild link.side s.entries.size)
        unresolved := s.unresolved - 1 }

/-- Number of places that the entry of a node keeps free. -/
def freePlaces : Node → Nat
  | .leaf .. => 0
  | .split .. => 2

/-- Lay a node out at the next free position. -/
def place (s : Packing) (p : Pending) : Except Fault Packing := do
  let i := s.entries.size
  let s ← { s with index := (p.node.id, i) :: s.index }.fill p.link
  pure { s with
    entries := s.entries.push (.ofNode p.node)
    unresolved := s.unresolved + freePlaces p.node
    events := s.events.push (.laid i p.node.id p.node.prob) }

/-! ### Runs -/

/-- Lay out the rest of the run that began at position `first`, from a node on. The nodes that
wait afterwards come with the packing. -/
def layRun (kernelSize first : Nat) (s : Packing) (queue : List Pending) (link : Option Link) :
    Node → Except Fault (Packing × List Pending)
  | .leaf m p => do
      let s ← s.place ⟨.leaf m p, link⟩
      pure (s, queue)
  | .split m f t l r => do
      let i := s.entries.size
      let s ← s.place ⟨.split m f t l r, link⟩
      let left : Pending := ⟨l, some ⟨i, .left⟩⟩
      let right : Pending := ⟨r, some ⟨i, .right⟩⟩
      if kernelSize ≤ s.entries.size - first then
        pure (s, right.enqueue (left.enqueue queue))
      else if l.LeftHot r then
        layRun kernelSize first s (right.enqueue queue) left.link l
      else
        layRun kernelSize first s (left.enqueue queue) right.link r

/-- Start a run. -/
def openRun (s : Packing) : Packing := { s with runs := s.runs + 1 }

/-- Finish the run that began at position `first` with the given node. -/
def closeRun (s : Packing) (first : Nat) (node : NodeId) : Packing :=
  { s with events := s.events.push (.run s.runs first s.entries.size node) }

theorem totalSize_layRun_lt {kernelSize first : Nat} {s s' : Packing} {queue queue' : List Pending}
    {link : Option Link} {n : Node}
    (h : layRun kernelSize first s queue link n = .ok (s', queue')) :
    Pending.totalSize queue' < n.size + Pending.totalSize queue := by
  induction n generalizing s queue link with
  | leaf m p =>
      unfold layRun at h
      cases hp : s.place ⟨.leaf m p, link⟩ with
      | error fault => rw [hp] at h; cases h
      | ok s₁ =>
          rw [hp] at h
          cases h
          simp [Node.size]
  | split m f t l r ihl ihr =>
      unfold layRun at h
      cases hp : s.place ⟨.split m f t l r, link⟩ with
      | error fault => rw [hp] at h; cases h
      | ok s₁ =>
          rw [hp] at h
          simp only [bind, Except.bind] at h
          split at h
          · cases h
            simp only [Pending.totalSize_enqueue, Node.size]
            omega
          · split at h
            · have := ihl h
              simp only [Pending.totalSize_enqueue] at this
              simp only [Node.size]
              omega
            · have := ihr h
              simp only [Pending.totalSize_enqueue] at this
              simp only [Node.size]
              omega

/-- Lay out waiting nodes and all below them, run by run. -/
def layAll (kernelSize : Nat) (s : Packing) : List Pending → Except Fault Packing
  | [] => .ok s
  | start :: queue =>
      match _h : layRun kernelSize s.entries.size s.openRun queue start.link start.node with
      | .error fault => .error fault
      | .ok (s', queue') =>
          layAll kernelSize (s'.closeRun s.entries.size start.node.id) queue'
termination_by queue => Pending.totalSize queue
decreasing_by
  simpa using totalSize_layRun_lt _h

end Packing

/-- The table of an annotated tree, with runs of at most `kernelSize` entries. -/
def Table.pack (t : Tree) (kernelSize : Nat) : Except CompileError Table :=
  if !t.annotated then .error (.unannotatedTree t.name)
  else if kernelSize = 0 then .error .invalidKernelSize
  else
    match Packing.layAll kernelSize .empty [⟨t.root, none⟩] with
    | .error fault => .error (.fault fault)
    | .ok s =>
        if s.unresolved ≠ 0 ∨ s.entries.size ≠ t.nodeCount then
          .error (.unfinishedTable s.entries.size t.nodeCount s.unresolved)
        else .ok ⟨t.name, s.entries, s.index, s.runs, s.events.toList⟩

/-- What happens while a tree is packed, whether or not it comes to a table. -/
def Table.packEvents (t : Tree) (kernelSize : Nat) : List Event :=
  if !t.annotated then []
  else if kernelSize = 0 then []
  else
    match Packing.layAll kernelSize .empty [⟨t.root, none⟩] with
    | .error _ => []
    | .ok s => s.events.toList

end TreeCode
