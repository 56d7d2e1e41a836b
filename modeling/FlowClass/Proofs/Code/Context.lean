import FlowClass.Proofs.Text.Splitting
import FlowClass.Symbol.Unit

/-!
# Texts in a context

Code is written from the inside out: a text gets other text around it, and is moved to the right when
it goes into braces. `StandsIn` follows a text through these steps. A text that is not blank is lost
in none of them.
-/

namespace FlowClass

open List

/-- The text stands in another one, with other text around it, and moved to the right. -/
inductive StandsIn (inner : String) : String → Prop where
  | itself (h : blank inner = false) : StandsIn inner inner
  | between {outer : String} (before after : String) :
    StandsIn inner outer → StandsIn inner (before ++ outer ++ after)
  | indented {outer : String} (levels : Nat) :
    StandsIn inner outer → StandsIn inner (Code.indent levels outer)

/-! ## Blank texts -/

theorem blank_eq_false_iff {text : String} :
    blank text = false ↔ ∃ c ∈ text.toList, Text.isBlank c = false := by
  simp [blank, all_eq_false]

theorem mem_joinWith {sep piece : List Char} {pieces : List (List Char)} (hpiece : piece ∈ pieces)
    {c : Char} (hc : c ∈ piece) : c ∈ Text.joinWith sep pieces := by
  induction pieces with
  | nil => exact absurd hpiece not_mem_nil
  | cons first rest ih =>
    cases rest with
    | nil =>
      cases mem_singleton.1 hpiece
      exact hc
    | cons next rest =>
      rw [Text.joinWith_cons sep first (cons_ne_nil _ _), mem_append, mem_append]
      obtain rfl | hpiece := mem_cons.1 hpiece
      · exact .inl (.inl hc)
      · exact .inr (ih hpiece)

theorem exists_of_mem_joinWith {pieces : List (List Char)} {c : Char}
    (hc : c ∈ Text.joinWith ['\n'] pieces) (hne : c ≠ '\n') : ∃ piece ∈ pieces, c ∈ piece := by
  induction pieces with
  | nil => exact absurd hc not_mem_nil
  | cons first rest ih =>
    cases rest with
    | nil => exact ⟨first, mem_cons_self, hc⟩
    | cons next rest =>
      rw [Text.joinWith_cons ['\n'] first (cons_ne_nil _ _)] at hc
      rcases mem_append.1 hc with hc | hc
      · rcases mem_append.1 hc with hc | hc
        · exact ⟨first, mem_cons_self, hc⟩
        · exact absurd (mem_singleton.1 hc) hne
      · obtain ⟨piece, hpiece, hmem⟩ := ih hc
        exact ⟨piece, mem_cons_of_mem _ hpiece, hmem⟩

theorem not_blank_indent {text : String} (h : blank text = false) (levels : Nat) :
    blank (Code.indent levels text) = false := by
  obtain ⟨c, hc, hsolid⟩ := blank_eq_false_iff.1 h
  cases levels with
  | zero => exact h
  | succ levels =>
    have hne : c ≠ '\n' := fun heq => by
      rw [heq] at hsolid
      exact absurd hsolid (by decide)
    rw [← Text.joinWith_splitOn text.toList] at hc
    obtain ⟨line, hline, hc⟩ := exists_of_mem_joinWith hc hne
    refine blank_eq_false_iff.2 ⟨c, ?_, hsolid⟩
    rw [Code.indent, String.toList_ofList]
    refine mem_joinWith (mem_map_of_mem hline) ?_
    -- the line is not blank, so it is kept
    have hkept : line.all Text.isBlank = false := all_eq_false.2 ⟨c, hc, by simp [hsolid]⟩
    rw [Code.indentLine, hkept]
    exact mem_append_right _ hc

theorem Code.lines_pair {text text' : String} (h : blank text = false) (h' : blank text' = false) :
    Code.lines [text, text'] = text ++ "\n" ++ text' := by
  simp [Code.lines, h, h', joinText]

namespace StandsIn

variable {inner outer : String}

variable (h : StandsIn inner outer)
include h

theorem not_blank : blank outer = false := by
  induction h with
  | itself h => exact h
  | between before after _ ih =>
    obtain ⟨c, hc, hsolid⟩ := blank_eq_false_iff.1 ih
    exact blank_eq_false_iff.2 ⟨c, by simp [String.toList_append, hc], hsolid⟩
  | indented levels _ ih => exact not_blank_indent ih levels

/-! ## Layout -/

theorem before (text : String) : StandsIn inner (outer ++ text) := by
  simpa using h.between "" text

theorem after (text : String) : StandsIn inner (text ++ outer) := by
  simpa using h.between text ""

theorem joinText (sep : String) {texts : List String}
    (hmem : outer ∈ texts) : StandsIn inner (joinText sep texts) := by
  induction texts with
  | nil => exact absurd hmem not_mem_nil
  | cons first rest ih =>
    cases rest with
    | nil =>
      cases mem_singleton.1 hmem
      exact h
    | cons next rest =>
      obtain rfl | hmem := mem_cons.1 hmem
      · exact (h.before sep).before _
      · exact (ih hmem).after _

theorem joinLast (sep : String) (texts : List String) :
    StandsIn inner (FlowClass.joinText sep (texts ++ [outer])) :=
  h.joinText sep (mem_append_right _ (mem_singleton_self _))

theorem lines {parts : List String} (hmem : outer ∈ parts) : StandsIn inner (Code.lines parts) :=
  h.joinText "\n" (mem_filter.2 ⟨hmem, by simp [h.not_blank]⟩)

theorem braced : StandsIn inner (Code.braced outer) := by
  rw [Code.braced, h.not_blank]
  exact (h.indented 1).between "\x7b\n" "\n\x7d"

theorem sectionBody : StandsIn inner (Fragment.sectionBody outer) := by
  unfold Fragment.sectionBody
  split
  · exact h
  · exact h.lines mem_cons_self

theorem unitBody : StandsIn inner (FlowClass.unitBody outer) := by
  unfold FlowClass.unitBody
  split
  · exact h
  · exact h.lines mem_cons_self

/-- A section with a label is written. -/
theorem switch (value : String) {sections : List SwitchSection}
    {labels : List String} (hlabels : labels ≠ []) (hmem : ⟨labels, outer⟩ ∈ sections) :
    StandsIn inner (Fragment.switch value sections none).text := by
  have hlabelled : ⟨labels, outer⟩ ∈ sections.filter fun s => !s.labels.isEmpty :=
    mem_filter.2 ⟨hmem, by simpa using hlabels⟩
  have hsection := (h.sectionBody.indented 1).after
    (FlowClass.joinText "\n" (labels.map fun label => "case " ++ label ++ ":") ++ "\n")
  unfold Fragment.switch
  dsimp only
  split
  · rename_i hempty
    simp only [Option.toList_none, map_nil, append_nil, isEmpty_map,
      List.isEmpty_iff] at hempty
    rw [hempty] at hlabelled
    exact absurd hlabelled not_mem_nil
  · refine StandsIn.before ?_ "\n\x7d"
    refine ((hsection.joinText "\n" ?_).indented 1).after _
    exact mem_append_left _ (mem_map_of_mem hlabelled)

/-- Every unit with a case stands in the dispatcher. -/
theorem dispatcher (enumerator : String) {bodies : List (Nat × String)}
    {slot : Nat} (hmem : (slot, outer) ∈ bodies) :
    ∃ text, dispatcherText enumerator bodies = some text ∧ StandsIn inner text := by
  have hne : bodies.isEmpty = false := isEmpty_eq_false_iff_exists_mem.2 ⟨_, hmem⟩
  refine ⟨_, by rw [dispatcherText, hne]; rfl, ?_⟩
  have hswitch := h.unitBody.switch "slot" (cons_ne_nil (toString slot) [])
    (mem_map_of_mem (f := fun entry : Nat × String =>
      (⟨[toString entry.1], FlowClass.unitBody entry.2⟩ : SwitchSection)) hmem)
  exact (hswitch.lines mem_cons_self).braced.after _

end StandsIn

end FlowClass
