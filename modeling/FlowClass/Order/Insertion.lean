/-!
# Insertion sort

A stable sort by plain recursion: entries that compare equal keep their order.
-/

namespace FlowClass

variable {α : Type}

/-- Puts `a` before the first entry it is not greater than. -/
def insertBy (le : α → α → Bool) (a : α) : List α → List α
  | [] => [a]
  | b :: bs => if le a b then a :: b :: bs else b :: insertBy le a bs

/-- The entries in ascending order. -/
def sortBy (le : α → α → Bool) : List α → List α
  | [] => []
  | a :: as => insertBy le a (sortBy le as)

end FlowClass
