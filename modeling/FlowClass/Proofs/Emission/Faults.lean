import FlowClass.Error
import FlowClass.Proofs.Marker.Scanning

/-!
# Faults that no pass comes to

Most failures are the fault of a graph: a value that is not assigned, a member that does not fit its
use. Three would be faults of emission itself: flow that comes back to a node it has written in
place, a wait outside a unit, and a node whose variable was never entered. All others are *ordinary*
(`GenError.isOrdinary`).

A report keeps nothing of an error but its words, mostly without their markers. The words still tell
the first two apart from every ordinary error (`GenError.not_tells_of_isOrdinary`), by the letter
that the subject of a misuse begins with.
-/

namespace FlowClass

open List

variable {text : String} {e : GenError} {c : Char} {what : Misuse}

/-- A misuse that a graph can be at fault for. -/
def Misuse.isOrdinary : Misuse → Bool
  | .revisit _ => false
  | .waitOutsideUnit => false
  -- the words of a host could be any
  | .other .. => false
  | .argument mark _ => ["ref ", "out ", "in ", ""].contains mark
  | _ => true

namespace GenError

/-- An error that a graph can be at fault for. -/
def isOrdinary : GenError → Bool
  | .unresolved (.nodeVariable _) _ => false
  | .invalid what => what.isOrdinary
  | .atNode _ _ source => source.isOrdinary
  | _ => true

theorem isOrdinary_inNode (e : GenError) (id : NodeId) (owner : String) :
    (e.inNode id owner).isOrdinary = e.isOrdinary := by
  cases e <;> rfl

theorem root_inNode (e : GenError) (id : NodeId) (owner : String) :
    (e.inNode id owner).root = e.root := by
  cases e <;> rfl

theorem isOrdinary_root (e : GenError) : e.root.isOrdinary = e.isOrdinary := by
  induction e with
  | atNode _ _ _ ih => exact ih
  | _ => rfl

theorem root_ne_atNode (e source : GenError) (id : NodeId) (owner : String) :
    e.root ≠ .atNode id owner source := by
  induction e with
  | atNode _ _ _ ih => exact ih
  | _ => simp [root]

theorem inNode_of_root (h : e.root = e) (id : NodeId) (owner : String) :
    e.inNode id owner = .atNode id owner e := by
  cases e with
  | atNode id' owner' source => exact absurd h (root_ne_atNode source _ _ _)
  | _ => rfl

/-- An ordinary error that names no node by itself. -/
def isPlain (e : GenError) : Bool :=
  e.node?.isNone && e.isOrdinary

theorem isOrdinary_of_isPlain (h : e.isPlain = true) : e.isOrdinary = true :=
  (Bool.and_eq_true_iff.1 h).2

theorem root_of_isPlain (h : e.isPlain = true) : e.root = e := by
  cases e with
  | atNode => cases h
  | _ => rfl

end GenError

/-! ## Words without markers -/

/-- The text begins with a letter. -/
abbrev Begins (c : Char) (text : String) : Prop :=
  text.toList.head? = some c

theorem Begins.append {a b : String} (h : Begins c a) : Begins c (a ++ b) := by
  simp [Begins, String.toList_append, h]

theorem Begins.prefix_strip (h : Begins c text) (hc : c ≠ '/') :
    [c] <+: (Marker.strip text).toList := by
  refine Marker.prefix_strip ?_ (by simpa using hc.symm)
  obtain ⟨s, hs⟩ := head?_eq_some_iff.1 h
  exact ⟨s, hs.symm⟩

/-- How the words for a misuse begin. -/
def invalidLead : List Char :=
  ['i', 'n', 'v', 'a', 'l', 'i', 'd', ' ', 't', 'a', 'r', 'g', 'e', 't', ':', ' ']

/-- The words for a misuse whose subject begins with a letter. -/
def IsAbout (c : Char) (text : String) : Prop :=
  invalidLead ++ [c] <+: text.toList

theorem IsAbout.unique {d : Char} (hc : IsAbout c text) (hd : IsAbout d text) : c = d := by
  have heq := (prefix_of_prefix_length_le hc hd (by simp)).eq_of_length (by simp)
  simpa using heq

theorem IsAbout.strip (h : IsAbout c text) (hc : c ≠ '/') : IsAbout c (Marker.strip text) :=
  Marker.prefix_strip h (by simpa [invalidLead] using hc.symm)

theorem isAbout_message (h : Begins c what.construct) :
    IsAbout c (GenError.invalid what).message := by
  obtain ⟨s, hs⟩ := head?_eq_some_iff.1 h
  refine ⟨s ++ (" " ++ what.reason).toList, ?_⟩
  change _ = ("invalid target: " ++ what.construct ++ " " ++ what.reason).toList
  have hlead : "invalid target: ".toList = invalidLead := rfl
  simp only [String.toList_append, hs, hlead, append_assoc, cons_append, nil_append]

/-- No other words are about a misuse. -/
theorem not_isAbout {d : Char} (h : Begins c text) (hc : c ≠ '/') (hother : c ≠ 'i') :
    ¬ IsAbout d (Marker.strip text) := by
  intro habout
  have hlead : ['i'] <+: (Marker.strip text).toList :=
    List.IsPrefix.trans ⟨invalidLead.tail ++ [d], rfl⟩ habout
  have heq := (prefix_of_prefix_length_le (h.prefix_strip hc) hlead (by simp)).eq_of_length
    (by simp)
  exact hother (by simpa using heq)

/-- The subject of an ordinary misuse begins with a letter of its own. -/
theorem Misuse.begins_construct (h : what.isOrdinary = true) :
    ∃ c ∉ ['/', 'f', 'w'], Begins c what.construct := by
  cases what with
  | statement => exact ⟨'n', by decide, .append (.append (by decide +kernel))⟩
  | output => exact ⟨'o', by decide, .append (.append (.append (.append (by decide +kernel))))⟩
  | thisInStatic => exact ⟨'`', by decide, (by decide : Begins '`' "`this`")⟩
  | lateConstructor => exact ⟨'c', by decide, .append (by decide +kernel)⟩
  | unknownOperator => exact ⟨'o', by decide, .append (.append (by decide +kernel))⟩
  | operandCount | castWithoutType => exact ⟨'o', by decide, .append (by decide)⟩
  | argument mark name =>
    have hmark : mark ∈ ["ref ", "out ", "in ", ""] := contains_iff_mem.1 h
    simp only [mem_cons, not_mem_nil, or_false] at hmark
    rcases hmark with rfl | rfl | rfl | rfl
    · exact ⟨'r', by decide, .append (.append (.append (by decide +kernel)))⟩
    · exact ⟨'o', by decide, .append (.append (.append (by decide +kernel)))⟩
    · exact ⟨'i', by decide, .append (.append (.append (by decide +kernel)))⟩
    · exact ⟨'a', by decide, .append (.append (by decide +kernel))⟩
  | targetText
  | targetMember => exact ⟨'a', by decide, (by decide : Begins 'a' "assignment target")⟩
  | targetBare | targetOther => exact ⟨'a', by decide, by decide +kernel⟩
  | temporaryOutsideStatement => exact ⟨'b', by decide, by decide +kernel⟩
  | setterValue => exact ⟨'s', by decide, (by decide : Begins 's' "setter `value`")⟩
  | notAUnit => exact ⟨'u', by decide, .append (by decide +kernel)⟩
  | unitInStatic | sharedMethod => exact ⟨'s', by decide, .append (by decide +kernel)⟩
  | sharedReturnTypes =>
    exact ⟨'s', by decide, .append (.append (.append (.append (by decide +kernel))))⟩
  | methodReturnTypes => exact ⟨'m', by decide, .append (by decide +kernel)⟩
  | entryWithoutBody | entryBeforePreparation => exact ⟨'e', by decide, .append (by decide +kernel)⟩
  | entryMismatch => exact ⟨'e', by decide, .append (.append (by decide))⟩
  | stopWithoutUnit => exact ⟨'s', by decide, by decide +kernel⟩
  | statusWithoutUnit => exact ⟨'u', by decide, by decide +kernel⟩
  | loopItem => exact ⟨'l', by decide, .append (by decide +kernel)⟩
  | returnValueInUnit => exact ⟨'r', by decide, by decide +kernel⟩
  | returnValueInVoid => exact ⟨'r', by decide, (by decide : Begins 'r' "return value")⟩
  | returnWithoutValue =>
    exact ⟨'r', by decide, (by decide : Begins 'r' "return without a value")⟩
  | unfinishedJob => exact ⟨'g', by decide, (by decide : Begins 'g' "generation job")⟩
  | typeBeforePreparation => exact ⟨'t', by decide, .append (by decide +kernel)⟩
  | noArtifact => exact ⟨'g', by decide, .append (by decide +kernel)⟩
  | revisit => cases h
  | waitOutsideUnit => cases h
  | other => cases h

namespace GenError

/-- The letter that the words for an error begin with. -/
def lead : GenError → Char
  | .invalid _ => 'i'
  | .unresolved .. => 'u'
  | .malformedMarker .. => 'm'
  | .valueCycle _ => 'v'
  | .analysis _ => 'a'
  | .graph _ => 'g'
  | .tooDeep => 'e'
  | .classificationOrder _ => 'n'
  | .atNode .. => 'n'

theorem begins_message (e : GenError) : Begins e.lead e.message := by
  cases e with
  | invalid => exact Begins.append (c := 'i') (.append (.append (by decide +kernel)))
  | unresolved => exact Begins.append (c := 'u') (.append (.append (by decide +kernel)))
  | malformedMarker =>
    exact Begins.append (c := 'm') (.append (.append (.append (.append (by decide +kernel)))))
  | valueCycle => exact Begins.append (c := 'v') (by decide +kernel)
  | analysis => exact Begins.append (c := 'a') (by decide)
  | graph => exact Begins.append (c := 'g') (by decide)
  | tooDeep => decide +kernel
  | classificationOrder => exact Begins.append (c := 'n') (.append (by decide +kernel))
  | atNode =>
    exact Begins.append (c := 'n') (.append (.append (.append (.append (by decide +kernel)))))

theorem lead_ne_slash (e : GenError) : e.lead ≠ '/' := by
  cases e <;> simp [lead]

/-- An ordinary error is not about flow that comes back, nor about a wait. -/
theorem not_isAbout_of_isOrdinary (h : e.isOrdinary = true) (hc : c ∈ ['f', 'w']) :
    ¬ IsAbout c (Marker.strip e.message) := by
  by_cases hlead : e.lead = 'i'
  · cases e with
    | invalid what =>
      intro habout
      obtain ⟨d, hd, hbegins⟩ := Misuse.begins_construct h
      have hslash : d ≠ '/' := by
        rintro rfl
        simp at hd
      have hsame : d = c := ((isAbout_message hbegins).strip hslash).unique habout
      subst hsame
      simp only [mem_cons, not_or, not_mem_nil, or_false] at hd hc
      exact hc.elim hd.2.1 hd.2.2
    | _ => exact absurd hlead (by simp [lead])
  · exact not_isAbout e.begins_message e.lead_ne_slash hlead

/-- The text gives the error, with or without the markers in it. -/
def Tells (e : GenError) (text : String) : Prop :=
  text = e.message ∨ text = Marker.strip e.message

theorem Tells.lead (h : e.Tells text) : [e.lead] <+: text.toList := by
  rcases h with rfl | rfl
  · obtain ⟨s, hs⟩ := head?_eq_some_iff.1 e.begins_message
    exact ⟨s, hs.symm⟩
  · exact e.begins_message.prefix_strip e.lead_ne_slash

/-- The words for a value cycle are those of no other error. -/
theorem Tells.eq_valueCycle (h : e.Tells text) {id : NodeId}
    (hcycle : (GenError.valueCycle id).Tells text) : ∃ id, e = .valueCycle id := by
  have hlead : [e.lead] = ['v'] :=
    (prefix_of_prefix_length_le h.lead hcycle.lead (Nat.le_refl 1)).eq_of_length rfl
  cases e with
  | valueCycle id => exact ⟨id, rfl⟩
  | _ => exact absurd hlead (by simp [GenError.lead])

theorem Tells.isAbout (h : (GenError.invalid what).Tells text) (hbegins : Begins c what.construct)
    (hc : c ≠ '/') : IsAbout c text := by
  rcases h with rfl | rfl
  · exact isAbout_message hbegins
  · exact (isAbout_message hbegins).strip hc

/-- The words for flow that comes back, and for a wait outside a unit, are those of no ordinary
error. -/
theorem not_tells_of_isOrdinary (h : e.isOrdinary = true) (htext : e.root.Tells text)
    (hwhat : what = .waitOutsideUnit ∨ ∃ id, what = .revisit id) :
    ¬ (GenError.invalid what).Tells text := by
  have hnot {c : Char} (hc : c ∈ ['f', 'w']) (hslash : c ≠ '/') : ¬ IsAbout c text := by
    intro habout
    have hroot : ¬ IsAbout c (Marker.strip e.root.message) :=
      not_isAbout_of_isOrdinary (by rwa [isOrdinary_root]) hc
    rcases htext with rfl | rfl
    · exact hroot (habout.strip hslash)
    · exact hroot habout
  intro htells
  rcases hwhat with rfl | ⟨id, rfl⟩
  · have hbegins : Begins 'w' Misuse.waitOutsideUnit.construct := by decide +kernel
    exact hnot (by decide) (by decide) (htells.isAbout hbegins (by decide))
  · have hbegins : Begins 'f' (Misuse.revisit id).construct := .append (by decide +kernel)
    exact hnot (by decide) (by decide) (htells.isAbout hbegins (by decide))

end GenError

end FlowClass
