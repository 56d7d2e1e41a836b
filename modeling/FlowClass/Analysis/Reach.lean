/-!
# Reachability

A walk over a finite graph given by its successor function. The walk keeps a stack of nodes to look
at and a list of nodes not met yet; a node is taken from that list the first time it is met. Each
step shortens the stack or trades an unmet node for its successors, so the steps are counted by the
stack and the successors of all unmet nodes, which is the fuel.
-/

namespace FlowClass.Reach

variable {α : Type} [DecidableEq α]

/-- The nodes met from the stack on, in the order they are met. -/
def explore (succ : α → List α) : Nat → List α → List α → List α
  | 0, _, _ => []
  | _ + 1, _, [] => []
  | fuel + 1, unmet, x :: stack =>
    if x ∈ unmet then x :: explore succ fuel (unmet.erase x) (succ x ++ stack)
    else explore succ fuel unmet stack

/-- A bound on the steps of a walk. -/
def steps (succ : α → List α) (unmet stack : List α) : Nat :=
  stack.length + (unmet.flatMap succ).length + 1

/-- The nodes of `domain` that one or more steps lead to from `start`. -/
def after (succ : α → List α) (domain : List α) (start : α) : List α :=
  explore succ (steps succ domain (succ start)) domain (succ start)

end FlowClass.Reach
