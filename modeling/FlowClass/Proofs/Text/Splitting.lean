import FlowClass.Text.Basic

/-!
# Cutting texts

What comes off at the ends of a text, and what its lines are.
-/

namespace FlowClass.Text

open List

/-- Blanks around a text come off at both ends. -/
theorem trim_split (s : List Char) :
    ∃ before after, s = before ++ trim s ++ after ∧ before.all isBlank = true ∧
      after.all isBlank = true := by
  refine ⟨s.takeWhile isBlank, ((trimStart s).reverse.takeWhile isBlank).reverse, ?_,
    all_takeWhile, ?_⟩
  · have hend : trimEnd (trimStart s) ++ ((trimStart s).reverse.takeWhile isBlank).reverse =
        trimStart s := by
      unfold trimEnd
      rw [← reverse_append, takeWhile_append_dropWhile, reverse_reverse]
    rw [trim, append_assoc, hend, trimStart, takeWhile_append_dropWhile]
  · rw [all_reverse]
    exact all_takeWhile

/-- There is a text, and no blank at either end of it. -/
structure Trimmed (s : List Char) : Prop where
  first : ∃ c, s.head? = some c ∧ isBlank c = false
  last : ∃ c, s.getLast? = some c ∧ isBlank c = false

namespace Trimmed

variable {s t : List Char}

theorem trimStart_eq (h : Trimmed s) : trimStart s = s := by
  obtain ⟨c, hs, hc⟩ := h.first
  obtain ⟨rest, rfl⟩ := head?_eq_some_iff.1 hs
  rw [trimStart, dropWhile_cons_of_neg (by simp [hc])]

theorem trim_eq (h : Trimmed s) : trim s = s := by
  rw [trim, h.trimStart_eq]
  obtain ⟨c, hs, hc⟩ := h.last
  obtain ⟨rest, rfl⟩ := getLast?_eq_some_iff.1 hs
  rw [trimEnd, reverse_append, reverse_singleton, singleton_append,
    dropWhile_cons_of_neg (by simp [hc]), reverse_cons, reverse_reverse]

theorem not_blank (h : Trimmed s) : s.all isBlank = false := by
  obtain ⟨c, hs, hc⟩ := h.first
  obtain ⟨rest, rfl⟩ := head?_eq_some_iff.1 hs
  rw [all_cons, hc, Bool.false_and]

theorem below (hs : Trimmed s) (ht : Trimmed t) : Trimmed (s ++ '\n' :: t) := by
  obtain ⟨c, hc⟩ := hs.first
  obtain ⟨c', hc'⟩ := ht.last
  exact ⟨⟨c, by simp [hc]⟩, ⟨c', by simp [getLast?_cons, hc']⟩⟩

end Trimmed

theorem eq_append_of_dropLead {p s rest : List Char} (h : dropLead p s = some rest) :
    s = p ++ rest := by
  induction p generalizing s with
  | nil => exact Option.some.inj h
  | cons c p ih =>
    cases s with
    | nil => cases h
    | cons d s =>
      rw [dropLead] at h
      split at h
      · rename_i hc
        rw [hc, ih h]
        rfl
      · cases h

theorem dropLead_append (p s : List Char) : dropLead p (p ++ s) = some s := by
  induction p with
  | nil => rfl
  | cons c p ih => simpa [dropLead] using ih

theorem startsWith_iff {p s : List Char} : startsWith p s = true ↔ p <+: s := by
  rw [startsWith, Option.isSome_iff_exists]
  exact ⟨fun ⟨rest, h⟩ => ⟨rest, (eq_append_of_dropLead h).symm⟩,
    fun ⟨rest, h⟩ => ⟨rest, h ▸ dropLead_append p rest⟩⟩

/-- Cutting loses nothing. -/
theorem eq_append_of_cutAt {p s before rest : List Char} (h : cutAt p s = some (before, rest)) :
    s = before ++ p ++ rest := by
  induction s generalizing before with
  | nil =>
    rw [cutAt] at h
    split at h
    · rename_i hp
      cases h
      rw [isEmpty_iff.1 hp]
      rfl
    · cases h
  | cons c s ih =>
    rw [cutAt] at h
    split at h
    · rename_i hlead
      cases h
      exact eq_append_of_dropLead hlead
    · obtain ⟨⟨front, back⟩, hcut, hpair⟩ := Option.map_eq_some_iff.1 h
      cases hpair
      rw [ih hcut]
      rfl

theorem splitOn_ne_nil (s : List Char) : splitOn '\n' s ≠ [] := by
  cases s with
  | nil => simp [splitOn]
  | cons c s =>
    unfold splitOn
    split
    · simp
    · split <;> simp

theorem joinWith_splitOn (s : List Char) : joinWith ['\n'] (splitOn '\n' s) = s := by
  induction s with
  | nil => rfl
  | cons c s ih =>
    unfold splitOn
    split
    · rename_i hc
      cases hsplit : splitOn '\n' s with
      | nil => exact absurd hsplit (splitOn_ne_nil s)
      | cons piece pieces =>
        rw [hsplit] at ih
        simp [joinWith, ih, hc]
    · cases hsplit : splitOn '\n' s with
      | nil => exact absurd hsplit (splitOn_ne_nil s)
      | cons piece pieces =>
        rw [hsplit] at ih
        cases pieces with
        | nil | cons next pieces => simpa [joinWith] using ih

theorem splitOn_line {s : List Char} (h : '\n' ∉ s) : splitOn '\n' s = [s] := by
  induction s with
  | nil => rfl
  | cons c s ih =>
    have hc : c ≠ '\n' := fun heq => h (heq ▸ mem_cons_self)
    rw [splitOn, if_neg hc, ih fun hmem => h (mem_cons_of_mem c hmem)]

/-- The first line ends at the first line feed. -/
theorem splitOn_append {s : List Char} (h : '\n' ∉ s) (rest : List Char) :
    splitOn '\n' (s ++ '\n' :: rest) = s :: splitOn '\n' rest := by
  induction s with
  | nil => rw [nil_append, splitOn, if_pos rfl]
  | cons c s ih =>
    have hc : c ≠ '\n' := fun heq => h (heq ▸ mem_cons_self)
    rw [cons_append, splitOn, if_neg hc, ih fun hmem => h (mem_cons_of_mem c hmem)]

theorem joinWith_cons (sep piece : List Char) {pieces : List (List Char)} (h : pieces ≠ []) :
    joinWith sep (piece :: pieces) = piece ++ sep ++ joinWith sep pieces := by
  cases pieces with
  | nil => exact absurd rfl h
  | cons next pieces => rfl

end FlowClass.Text
