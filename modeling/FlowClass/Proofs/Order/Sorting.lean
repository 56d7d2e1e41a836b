import FlowClass.Order.Insertion
import Mathlib.Data.List.Sort

/-!
# Insertion sort is a stable sort

The sorted list is a permutation in ascending order. Entries that compare equal keep their order, so
that leaving entries out and sorting can be done in either order (`Ranks.filter_sortBy`), and the last
entry stays the last unless a new one exceeds it (`Ranks.getLast?_sortBy_cons`).
-/

namespace FlowClass

open List

variable {α : Type} {le : α → α → Bool} {l : List α}

theorem insertBy_eq (a : α) (l : List α) :
    insertBy le a l = l.orderedInsert (fun a b => le a b = true) a := by
  induction l with
  | nil => rfl
  | cons b l ih => rw [insertBy, orderedInsert_cons, ih]

theorem sortBy_eq (l : List α) : sortBy le l = l.insertionSort fun a b => le a b = true := by
  induction l with
  | nil => rfl
  | cons a l ih => rw [sortBy, insertBy_eq, ih, insertionSort_cons]

theorem perm_sortBy (l : List α) : (sortBy le l).Perm l := by
  rw [sortBy_eq]
  exact perm_insertionSort _ l

theorem mem_sortBy {b : α} : b ∈ sortBy le l ↔ b ∈ l :=
  (perm_sortBy l).mem_iff

/-- A comparison that puts any two entries in order. -/
structure Ranks (le : α → α → Bool) : Prop where
  total : ∀ a b, le a b = true ∨ le b a = true
  trans : ∀ a b c, le a b = true → le b c = true → le a c = true

/-- The entries are in ascending order. -/
abbrev Ascending (le : α → α → Bool) (l : List α) : Prop :=
  l.Pairwise fun a b => le a b = true

namespace Ranks

variable (h : Ranks le)

include h

theorem ascending_sortBy (l : List α) : Ascending le (sortBy le l) := by
  have : Std.Total fun a b => le a b = true := ⟨h.total⟩
  have : IsTrans α fun a b => le a b = true := ⟨h.trans⟩
  rw [sortBy_eq]
  exact pairwise_insertionSort _ l

/-- An entry that is left out has no part in where another one goes. -/
theorem filter_insertBy (p : α → Bool) (a : α) (hl : Ascending le l) : (insertBy le a l).filter p =
      if p a = true then insertBy le a (l.filter p) else l.filter p := by
  induction l with
  | nil => simp [insertBy, filter_cons]
  | cons b l ih =>
    obtain ⟨hb, hl'⟩ := pairwise_cons.1 hl
    rw [insertBy]
    by_cases hab : le a b = true
    · rw [if_pos hab, filter_cons]
      split
      · -- everything behind `b` comes behind `a` as well
        cases hrest : (b :: l).filter p with
        | nil => rfl
        | cons c rest =>
          have hc : c ∈ b :: l := (mem_filter.1 (hrest ▸ mem_cons_self)).1
          have hac : le a c = true := by
            obtain rfl | hc := mem_cons.1 hc
            · exact hab
            · exact h.trans a b c hab (hb c hc)
          rw [insertBy, if_pos hac]
      · rfl
    · rw [if_neg hab, filter_cons, filter_cons, ih hl']
      by_cases hpb : p b = true
      · simp only [hpb, if_true]
        split
        · rw [insertBy, if_neg hab]
        · rfl
      · simp only [hpb, if_false, Bool.false_eq_true]

theorem filter_sortBy (p : α → Bool) (l : List α) :
    (sortBy le l).filter p = sortBy le (l.filter p) := by
  induction l with
  | nil => rfl
  | cons a l ih =>
    rw [sortBy, h.filter_insertBy p a (h.ascending_sortBy l), ih, filter_cons]
    split <;> rfl

theorem getLast?_insertBy {a m : α} (hl : Ascending le l) (hm : l.getLast? = some m) :
    (insertBy le a l).getLast? = some (if le a m = true then m else a) := by
  induction l with
  | nil => cases hm
  | cons b l ih =>
    obtain ⟨hb, hl'⟩ := pairwise_cons.1 hl
    rw [insertBy]
    cases l with
    | nil =>
      obtain rfl : b = m := Option.some.inj hm
      split <;> simp [insertBy]
    | cons c l =>
      rw [getLast?_cons_cons] at hm
      have hbm : le b m = true := hb m (mem_of_getLast? hm)
      split
      · rename_i hab
        rw [if_pos (h.trans a b m hab hbm), getLast?_cons_cons, getLast?_cons_cons, hm]
      · have hlast := ih hl' hm
        rw [getLast?_cons, hlast]
        rfl

/-- The last entry stays the last, unless the new one exceeds it. -/
theorem getLast?_sortBy_cons (a : α) {m : α} (hm : (sortBy le l).getLast? = some m) :
    (sortBy le (a :: l)).getLast? = some (if le a m = true then m else a) :=
  h.getLast?_insertBy (h.ascending_sortBy l) hm

end Ranks

end FlowClass
