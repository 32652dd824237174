/-! # Work lists

A stack holds the tasks that are still to be done. The topmost task is done, and the tasks that it
brings are put on top, until the stack is empty. Nothing bounds the number of rounds: the loop ends
on a stack if its tasks can be listed in the order in which they are done (`WorkedOff`), and its
result is then that of doing them in this order (`workOff_eq`). -/

namespace TreeCode

section

variable {α σ : Type} (bring : α → List α) (act : σ → α → σ)

/-- One round of the loop: the next state and stack, or the final state. -/
def workRound : σ × List α → Id ((σ × List α) ⊕ σ)
  | (state, []) => .inr state
  | (state, task :: stack) => .inl (act state task, bring task ++ stack)

/-- Do the tasks on the stack, and those that they bring, from a state on. -/
def workOff (state : σ) (stack : List α) : σ :=
  have : Nonempty σ := ⟨state⟩
  Id.run (repeatM (workRound bring act) (state, stack))

/-- Working off the stack comes to an end, with the tasks done in this order. -/
inductive WorkedOff : List α → List α → Prop
  | nil : WorkedOff [] []
  | cons {task : α} {stack order : List α} (h : WorkedOff (bring task ++ stack) order) :
      WorkedOff (task :: stack) (task :: order)

end

variable {α σ : Type} {bring : α → List α} {act : σ → α → σ}

/-- **A loop that ends** does its tasks one after the other. -/
theorem workOff_eq {stack order : List α} (h : WorkedOff bring stack order) (state : σ) :
    workOff bring act state stack = order.foldl act state := by
  have : Nonempty σ := ⟨state⟩
  induction h generalizing state with
  | nil =>
      rw [workOff, repeatM_eq_of_monadTail]
      rfl
  | cons h ih =>
      rw [workOff, repeatM_eq_of_monadTail]
      exact ih _

/-- A stack is worked off from the top. -/
theorem WorkedOff.append {stack stack' order order' : List α} (h : WorkedOff bring stack order)
    (h' : WorkedOff bring stack' order') : WorkedOff bring (stack ++ stack') (order ++ order') := by
  induction h with
  | nil => exact h'
  | cons h ih =>
      rw [List.append_assoc] at ih
      exact .cons ih

/-- A task comes before those that it brings. -/
theorem WorkedOff.single {task : α} {order : List α} (h : WorkedOff bring (bring task) order) :
    WorkedOff bring [task] (task :: order) := by
  refine .cons ?_
  rwa [List.append_nil]

end TreeCode
