import FlowClass.Analysis.Reach
import Mathlib.Logic.Relation

/-!
# What a walk meets

`Reach.From` says which nodes are met, by paths that stay among the unmet ones. A walk with enough
fuel meets just these (`mem_explore`). Where no step leaves the domain, `Reach.after` is the transitive
closure of the successor relation (`mem_after`).
-/

namespace FlowClass.Reach

open List

variable {α : Type} {succ : α → List α} {unmet stack : List α} {x y : α}

/-- The nodes that a path among the unmet ones leads to, from the stack on. -/
inductive From (succ : α → List α) (unmet stack : List α) : α → Prop where
  | here {x : α} : x ∈ unmet → x ∈ stack → From succ unmet stack x
  | there {x y : α} : From succ unmet stack x → y ∈ unmet → y ∈ succ x → From succ unmet stack y

/-- A node that was met before does not start a path. -/
theorem from_skip (hx : x ∉ unmet) : From succ unmet (x :: stack) y ↔ From succ unmet stack y := by
  constructor
  · intro h
    induction h with
    | here hy hstack =>
      refine .here hy ?_
      rcases mem_cons.1 hstack with rfl | hstack
      · exact absurd hy hx
      · exact hstack
    | there _ hy hstep ih => exact .there ih hy hstep
  · intro h
    induction h with
    | here hy hstack => exact .here hy (mem_cons_of_mem _ hstack)
    | there _ hy hstep ih => exact .there ih hy hstep

theorem not_from_nil : ¬ From succ unmet [] y := by
  intro h
  induction h with
  | here _ hstack => exact absurd hstack not_mem_nil
  | there _ _ _ ih => exact ih

variable [DecidableEq α]

/-- A path from a node that is met now is that node alone, or can be cut so that the node does not
come back. -/
theorem from_meet (hx : x ∈ unmet) :
    From succ unmet (x :: stack) y ↔ y = x ∨ From succ (unmet.erase x) (succ x ++ stack) y := by
  constructor
  · intro h
    induction h with
    | @here y hy hstack =>
      by_cases hyx : y = x
      · exact .inl hyx
      · refine .inr (.here ((mem_erase_of_ne hyx).2 hy) (mem_append_right _ ?_))
        exact (mem_cons.1 hstack).resolve_left hyx
    | @there p y _ hy hstep ih =>
      by_cases hyx : y = x
      · exact .inl hyx
      · have hy' := (mem_erase_of_ne hyx).2 hy
        rcases ih with rfl | ih
        · exact .inr (.here hy' (mem_append_left _ hstep))
        · exact .inr (.there ih hy' hstep)
  · rintro (rfl | h)
    · exact .here hx mem_cons_self
    · induction h with
      | here hy hstack =>
        have hy := mem_of_mem_erase hy
        rcases mem_append.1 hstack with hstep | hstack
        · exact .there (.here hx mem_cons_self) hy hstep
        · exact .here hy (mem_cons_of_mem _ hstack)
      | there _ hy hstep ih => exact .there ih (mem_of_mem_erase hy) hstep

/-- Meeting a node takes one step off the bound. -/
theorem steps_meet (succ : α → List α) (stack : List α) (hx : x ∈ unmet) :
    steps succ (unmet.erase x) (succ x ++ stack) + 1 = steps succ unmet (x :: stack) := by
  have hperm := (perm_cons_erase hx).flatMap_right succ
  have hlength := hperm.length_eq
  simp only [flatMap_cons, length_append] at hlength
  simp only [steps, length_append, length_cons]
  omega

/-- A walk with enough fuel meets just what paths lead to. -/
theorem mem_explore {fuel : Nat} (hfuel : steps succ unmet stack ≤ fuel) :
    y ∈ explore succ fuel unmet stack ↔ From succ unmet stack y := by
  induction fuel generalizing unmet stack with
  | zero => exact absurd hfuel (by simp [steps])
  | succ fuel ih =>
    cases stack with
    | nil =>
      simp only [explore, not_mem_nil, false_iff]
      exact not_from_nil
    | cons x stack =>
      rw [explore]
      split
      · rename_i hx
        have hsteps := steps_meet succ stack hx
        rw [mem_cons, ih (by omega), from_meet hx]
      · rename_i hx
        rw [ih (by simp only [steps, length_cons] at hfuel ⊢; omega), from_skip hx]

/-- One or more steps. -/
def Leads (succ : α → List α) : α → α → Prop :=
  Relation.TransGen fun a b => b ∈ succ a

/-- Where no step leaves the domain, the walk meets all that one or more steps lead to. -/
theorem mem_after {domain : List α} {start : α} (hclosed : ∀ a, ∀ b ∈ succ a, b ∈ domain) :
    y ∈ after succ domain start ↔ Leads succ start y := by
  rw [after, mem_explore (Nat.le_refl _)]
  constructor
  · intro h
    induction h with
    | here _ hstart => exact .single hstart
    | there _ _ hstep ih => exact .tail ih hstep
  · intro h
    induction h with
    | single hstep => exact .here (hclosed _ _ hstep) hstep
    | tail _ hstep ih => exact .there ih (hclosed _ _ hstep) hstep

end FlowClass.Reach
