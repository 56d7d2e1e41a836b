import FlowClass.Proofs.Model.Ports
import FlowClass.Proofs.Order.Sorting
import FlowClass.Symbol.Import
import Mathlib.Data.String.Basic

/-!
# Short type names

A file reserves the names that it declares, and then imports namespaces and asks how to write types.
What is claimed stays claimed (`Imports.Keeps`), so an answer never changes, and a short name stands
for one namespace, which is imported (`Imports.Sound`). The imports are listed once each and in order
(`Imports.short_names_unambiguous`).
-/

namespace FlowClass

open List Text

/-! ## Alphabetical order -/

theorem Text.le_iff {s t : List Char} : le s t = true ↔ s ≤ t := by
  rw [← not_lt]
  induction s generalizing t with
  | nil => simp [le]
  | cons c s ih =>
    cases t with
    | nil => simp [le]
    | cons d t =>
      rw [le, cons_lt_cons_iff]
      by_cases hcd : c < d
      · simp [hcd, hcd.not_gt, hcd.ne']
      · obtain rfl | hne := eq_or_ne c d
        · simp [ih]
        · simp [hcd, hne, lt_of_le_of_ne (not_lt.1 hcd) hne.symm]

/-- Different texts are sorted strictly. -/
theorem pairwise_lt_sortBy {l : List String} (h : l.Nodup) :
    (sortBy (fun a b => le a.toList b.toList) l).Pairwise (· < ·) := by
  have hranks : Ranks fun a b : String => le a.toList b.toList :=
    { total := fun a b => by simpa only [le_iff] using le_total a.toList b.toList
      trans := fun a b c => by simpa only [le_iff] using le_trans }
  have hnodup : (sortBy (fun a b => le a.toList b.toList) l).Nodup :=
    (perm_sortBy l).nodup_iff.2 h
  refine ((hranks.ascending_sortBy l).and hnodup).imp fun hab => ?_
  exact lt_of_le_of_ne (String.le_iff_toList_le.2 (le_iff.1 hab.1)) hab.2

/-- What the imports of a file are asked for. -/
inductive ImportCall where
  | add (space : String)
  | qualify (space : Option String) (name : String)
deriving DecidableEq

namespace Imports

/-- The imports after a call. -/
def call (i : Imports) : ImportCall → Imports
  | .add space => i.add space
  | .qualify space name => (i.qualify space name).2

/-- The imports of a file in a namespace, after some names were reserved. -/
def ofFile (current : Option String) (reserved : List String) : Imports :=
  reserved.foldl reserve (ofCurrent current)

/-- The imports after some calls, of which the latest comes first. -/
def after (i : Imports) : List ImportCall → Imports
  | [] => i
  | c :: before => (i.after before).call c

/-- One of the calls asked for a type of a namespace, and its name alone is to be written. The empty
text names no namespace. -/
def Bare (i : Imports) (calls : List ImportCall) (space name : String) : Prop :=
  space ≠ "" ∧ ∃ later before, calls = later ++ .qualify (some space) name :: before ∧
    ((i.after before).qualify (some space) name).1 = name

variable {i i' : Imports} {space name : String}

/-! ## One request -/

theorem inFull_ne (space name : String) : inFull space name ≠ name := by
  intro h
  have hlength := congrArg String.length h
  simp only [inFull, String.length_append] at hlength
  have : "global::".length = 8 := rfl
  omega

/-- How a request is answered, by what is known of the first part of the name. -/
inductive Answers (i : Imports) : Option String → String → String × Imports → Prop where
  | plain {space : Option String} (name : String) (h : space = none ∨ space = some "") :
    Answers i space name (name, i)
  | reserved {space name : String} (hspace : space ≠ "") (h : headOf name ∈ i.reserved) :
    Answers i (some space) name (inFull space name, i)
  | owned {space name owner : String} (hspace : space ≠ "") (hfree : headOf name ∉ i.reserved)
    (h : i.claimed.lookup (headOf name) = some owner) :
    Answers i (some space) name (if owner = space then name else inFull space name, i)
  | new {space name : String} (hspace : space ≠ "") (hfree : headOf name ∉ i.reserved)
    (h : i.claimed.lookup (headOf name) = none) : Answers i (some space) name
      (name, { i with claimed := (headOf name, space) :: i.claimed }.add space)

theorem Answers.eq {space : Option String} {r : String × Imports} (h : Answers i space name r) :
    i.qualify space name = r := by
  cases h with
  | plain _ h => obtain rfl | rfl := h <;> rfl
  | _ => simp [qualify, *]

theorem answers (i : Imports) (space : Option String) (name : String) :
    Answers i space name (i.qualify space name) := by
  cases space with
  | none => exact .plain name (.inl rfl)
  | some space =>
    by_cases hspace : space = ""
    · exact hspace ▸ .plain name (.inr rfl)
    · by_cases hreserved : headOf name ∈ i.reserved
      · exact (Answers.reserved hspace hreserved).eq ▸ .reserved hspace hreserved
      · cases howner : i.claimed.lookup (headOf name) with
        | some owner => exact (Answers.owned hspace hreserved howner).eq ▸ .owned hspace hreserved howner
        | none => exact (Answers.new hspace hreserved howner).eq ▸ .new hspace hreserved howner

/-- The second imports know all that the first ones know. -/
structure Keeps (i i' : Imports) : Prop where
  current : i'.current = i.current := by rfl
  reserved : i'.reserved = i.reserved := by rfl
  claimed : ∀ head space, i.claimed.lookup head = some space → i'.claimed.lookup head = some space
  spaces : i.spaces ⊆ i'.spaces

/-- Nothing is imported twice, and what owns a short name is imported. -/
structure Sound (i : Imports) : Prop where
  nodup : i.spaces.Nodup
  claimed : ∀ head space, i.claimed.lookup head = some space →
    i.current = some space ∨ space ∈ i.spaces

theorem add_eq (i : Imports) (space : String) :
    (i.add space = i ∧ (space = "" ∨ i.current = some space)) ∨
      i.add space = { i with spaces := pushNew i.spaces space } := by
  unfold add
  split
  · exact .inl ⟨rfl, by simp_all⟩
  · exact .inr rfl

theorem mem_add (i : Imports) (hspace : space ≠ "") :
    i.current = some space ∨ space ∈ (i.add space).spaces := by
  obtain ⟨_, hempty | hcurrent⟩ | hrun := i.add_eq space
  · exact absurd hempty hspace
  · exact .inl hcurrent
  · exact .inr (hrun ▸ mem_pushNew.2 (.inr rfl))

namespace Keeps

theorem refl (i : Imports) : Keeps i i :=
  { claimed := fun _ _ h => h, spaces := Subset.refl _ }

theorem trans {i'' : Imports} (h : Keeps i i') (h' : Keeps i' i'') : Keeps i i'' :=
  ⟨h'.current.trans h.current, h'.reserved.trans h.reserved,
    fun head space hspace => h'.claimed head space (h.claimed head space hspace),
    fun _ hmem => h'.spaces (h.spaces hmem)⟩

theorem add (i : Imports) (space : String) : Keeps i (i.add space) := by
  obtain ⟨hrun, _⟩ | hrun := i.add_eq space <;> rw [hrun]
  · exact refl i
  · exact { claimed := fun _ _ h => h, spaces := fun _ h => mem_pushNew.2 (.inl h) }

theorem claim {head : String} (hnew : i.claimed.lookup head = none) (space : String) :
    Keeps i { i with claimed := (head, space) :: i.claimed } where
  claimed other owner howner := by
    have hne : other ≠ head := by
      rintro rfl
      cases hnew.symm.trans howner
    rw [lookup_cons, beq_false_of_ne hne]
    exact howner
  spaces := Subset.refl _

theorem call (i : Imports) : (c : ImportCall) → Keeps i (i.call c)
  | .add space => add i space
  | .qualify space name => by
    have hanswers := i.answers space name
    rw [Imports.call]
    generalize i.qualify space name = r at hanswers
    cases hanswers with
    | new _ _ hnew => exact (claim hnew _).trans (add _ _)
    | _ => exact refl i

theorem after (i : Imports) (later before : List ImportCall) :
    Keeps (i.after before) (i.after (later ++ before)) := by
  induction later with
  | nil => exact refl _
  | cons c later ih => exact ih.trans (call _ c)

theorem start (i : Imports) (calls : List ImportCall) : Keeps i (i.after calls) := by
  have h := after i calls []
  rwa [append_nil] at h

/-- A name that is written alone was claimed. -/
theorem claimed_of_bare (hspace : space ≠ "") (hbare : (i.qualify (some space) name).1 = name)
    (h : Keeps (i.qualify (some space) name).2 i') :
    headOf name ∉ i.reserved ∧ i'.claimed.lookup (headOf name) = some space := by
  have hanswers := i.answers (some space) name
  generalize i.qualify (some space) name = r at hanswers hbare h
  cases hanswers with
  | plain _ hplain => simp [hspace] at hplain
  | reserved => exact absurd hbare (inFull_ne space name)
  | owned _ hfree howner =>
    refine ⟨hfree, h.claimed _ _ ?_⟩
    split at hbare
    · rename_i hsame
      exact hsame ▸ howner
    · exact absurd hbare (inFull_ne space name)
  | new _ hfree hnew => exact ⟨hfree, h.claimed _ _ ((add _ space).claimed _ _ lookup_cons_self)⟩

/-- A request is answered as it was before. -/
theorem qualify_eq {space : Option String} (h : Keeps (i.qualify space name).2 i') :
    (i'.qualify space name).1 = (i.qualify space name).1 := by
  have hreserved := h.reserved.trans (call i (.qualify space name)).reserved
  have hanswers := i.answers space name
  generalize i.qualify space name = r at hanswers h
  cases hanswers with
  | plain _ hplain => rw [(Answers.plain name hplain).eq]
  | reserved hspace hin => rw [(Answers.reserved hspace (hreserved ▸ hin)).eq]
  | owned hspace hfree howner =>
    rw [(Answers.owned hspace (hreserved ▸ hfree) (h.claimed _ _ howner)).eq]
  | new hspace hfree hnew =>
    have hclaimed := h.claimed _ _ ((add _ _).claimed _ _ lookup_cons_self)
    rw [(Answers.owned hspace (hreserved ▸ hfree) hclaimed).eq, if_pos rfl]

end Keeps

namespace Sound

/-- The namespace that is about to be imported may already own names. -/
theorem add (hnodup : i.spaces.Nodup) (h : ∀ head owner, i.claimed.lookup head = some owner →
    owner = space ∧ space ≠ "" ∨ i.current = some owner ∨ owner ∈ i.spaces) :
    (i.add space).Sound := by
  have hkeeps := Keeps.add i space
  obtain ⟨hnodup, hclaimed⟩ : (i.add space).spaces.Nodup ∧ (i.add space).claimed = i.claimed := by
    obtain ⟨hrun, _⟩ | hrun := i.add_eq space <;> rw [hrun]
    · exact ⟨hnodup, rfl⟩
    · exact ⟨nodup_pushNew space hnodup, rfl⟩
  refine ⟨hnodup, fun head owner howner => ?_⟩
  rw [hkeeps.current]
  obtain ⟨rfl, hspace⟩ | hcurrent | hmem := h head owner (hclaimed ▸ howner)
  · exact mem_add i hspace
  · exact .inl hcurrent
  · exact .inr (hkeeps.spaces hmem)

theorem call (h : i.Sound) : (c : ImportCall) → (i.call c).Sound
  | .add _ => add h.nodup fun head owner howner => .inr (h.claimed head owner howner)
  | .qualify space name => by
    have hanswers := i.answers space name
    rw [Imports.call]
    generalize i.qualify space name = r at hanswers
    cases hanswers with
    | new hspace =>
      refine add h.nodup fun head owner howner => ?_
      rw [lookup_cons] at howner
      split at howner
      · cases howner
        exact .inl ⟨rfl, hspace⟩
      · exact .inr (h.claimed head owner howner)
    | _ => exact h

theorem after (h : i.Sound) : (calls : List ImportCall) → (i.after calls).Sound
  | [] => h
  | c :: before => (after h before).call c

end Sound

/-! ## Files -/

theorem ofFile_eq (current : Option String) (reserved : List String) :
    ofFile current reserved = { current, reserved := reserved.reverse } := by
  have hreserve (i : Imports) : reserved.foldl reserve i =
      { i with reserved := reserved.reverse ++ i.reserved } := by
    induction reserved generalizing i with
    | nil => rfl
    | cons name reserved ih => simp [ih, reserve]
  rw [ofFile, hreserve]
  simp [ofCurrent]

/-- A name that is written alone is not reserved, and belongs to its namespace. -/
theorem Bare.claimed {calls : List ImportCall} (h : Bare i calls space name) :
    headOf name ∉ i.reserved ∧ (i.after calls).claimed.lookup (headOf name) = some space := by
  obtain ⟨hspace, later, before, rfl, hname⟩ := h
  obtain ⟨hfree, hclaimed⟩ := Keeps.claimed_of_bare hspace hname
    (Keeps.after i later (.qualify (some space) name :: before))
  exact ⟨(Keeps.start i before).reserved ▸ hfree, hclaimed⟩

theorem mem_sorted : space ∈ i.sorted ↔ space ∈ i.spaces := by
  have hcases : isSystem space = true ∨ isSystem space = false := by simp
  simp only [sorted, mem_append, mem_filter, mem_sortBy, Bool.not_eq_true']
  tauto

/-- For every file, names that it reserves and calls after that, the latest first: types of two
namespaces are never both written with one short name; the namespace of a type that is written with its
short name is the one of the file or is imported; a reserved name is never a short name for a type of a
namespace; a request is answered in the same way whenever it is repeated; what is added is imported,
unless the file is in it; and the imports are listed once each, the system first, in ascending order. -/
theorem short_names_unambiguous (current : Option String) (reserved : List String)
    (calls : List ImportCall) :
    (∀ space name space' name', Bare (ofFile current reserved) calls space name →
      Bare (ofFile current reserved) calls space' name' → headOf name = headOf name' →
      space = space') ∧
    (∀ space name, Bare (ofFile current reserved) calls space name →
      current = some space ∨ space ∈ ((ofFile current reserved).after calls).sorted) ∧
    (∀ space name, Bare (ofFile current reserved) calls space name → headOf name ∉ reserved) ∧
    (∀ later space name before, calls = later ++ .qualify space name :: before →
      (((ofFile current reserved).after calls).qualify space name).1 =
        (((ofFile current reserved).after before).qualify space name).1) ∧
    (∀ space, .add space ∈ calls → space ≠ "" →
      current = some space ∨ space ∈ ((ofFile current reserved).after calls).sorted) ∧
    ∃ system others, ((ofFile current reserved).after calls).sorted = system ++ others ∧
      (∀ space ∈ system, isSystem space = true) ∧ (∀ space ∈ others, isSystem space = false) ∧
      system.Pairwise (· < ·) ∧ others.Pairwise (· < ·) := by
  have hstart := ofFile_eq current reserved
  generalize ofFile current reserved = start at hstart ⊢
  have hcurrent (calls : List ImportCall) : (start.after calls).current = current :=
    (Keeps.start start calls).current.trans (hstart ▸ rfl)
  have hsound : (start.after calls).Sound := Sound.after (hstart ▸ ⟨nodup_nil, by simp⟩) calls
  have hsorted := pairwise_lt_sortBy hsound.nodup
  refine ⟨?_, ?_, ?_, ?_, ?_, _, _, rfl, fun _ hspace => (mem_filter.1 hspace).2,
    fun _ hspace => by simpa using (mem_filter.1 hspace).2, hsorted.filter _, hsorted.filter _⟩
  · intro space name space' name' h h' hhead
    -- a short name is claimed by one namespace
    have hclaimed := h.claimed.2
    rw [hhead, h'.claimed.2] at hclaimed
    exact (Option.some.inj hclaimed).symm
  · intro space name h
    rw [← hcurrent calls, mem_sorted]
    exact hsound.claimed _ _ h.claimed.2
  · intro space name h hin
    refine h.claimed.1 ?_
    rw [hstart]
    exact mem_reverse.2 hin
  · rintro later space name before rfl
    exact (Keeps.after start later (.qualify space name :: before)).qualify_eq
  · intro space hadded hspace
    obtain ⟨later, before, rfl⟩ := append_of_mem hadded
    rw [← hcurrent before, mem_sorted]
    exact (mem_add _ hspace).imp_right fun hmem =>
      (Keeps.after start later (.add space :: before)).spaces hmem

/-- Two namespaces with a type of the same name. -/
def namesakes : List ImportCall :=
  [.add "Zoo", .qualify (some "System") "Random", .qualify (some "UnityEngine") "Random"]

/-- The first of them owns the short name and is imported. -/
theorem namesakes_imported : Bare (ofFile (some "Game") ["Player"]) namesakes "UnityEngine" "Random" ∧
    "UnityEngine" ∈ ((ofFile (some "Game") ["Player"]).after namesakes).sorted := by
  have hbare : Bare (ofFile (some "Game") ["Player"]) namesakes "UnityEngine" "Random" :=
    ⟨by decide, [.add "Zoo", .qualify (some "System") "Random"], [], rfl, by decide +kernel⟩
  obtain ⟨_, himported, _⟩ := short_names_unambiguous (some "Game") ["Player"] namesakes
  exact ⟨hbare, (himported _ _ hbare).resolve_left (by decide)⟩

end Imports

end FlowClass
