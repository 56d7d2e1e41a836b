/-!
# The guard of passes

Only one pass is active at a time. A pass that cannot start yields to its host and tries again.
-/

namespace FlowClass

structure Guard where
  active : Bool := false
deriving DecidableEq

namespace Guard

/-- Takes the guard if it is free. -/
def tryAcquire (g : Guard) : Option Guard :=
  if g.active then none else some { active := true }

def release (_ : Guard) : Guard :=
  { active := false }

/-- Takes the guard, yielding while another pass holds it. That pass gives the guard up at the
`releaseAt`-th yield, or at the first later one. Gives the number of yields. -/
def acquireYielding (releaseAt : Nat) : Nat → Nat → Guard → Nat × Guard
  | 0, ticks, g => (ticks, g)
  | fuel + 1, ticks, g =>
    match g.tryAcquire with
    | some g => (ticks, g)
    | none =>
      let ticks := ticks + 1
      acquireYielding releaseAt fuel ticks (if releaseAt ≤ ticks then g.release else g)

/-- Takes the guard from a pass that gives it up at a yield. -/
def acquireFrom (g : Guard) (releaseAt : Nat) : Nat × Guard :=
  acquireYielding releaseAt (releaseAt + 2) 0 g

end Guard

end FlowClass
