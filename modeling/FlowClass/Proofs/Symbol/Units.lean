import FlowClass.Symbol.Unit
import Mathlib.Data.List.Infix

/-!
# How units change

A unit is entered, begun once and finished once. `StateUnits.Grows` is what any part of an emission
does to the units as seen by the code around it:

* slots and bodies are given out in order and never change (`outline`);
* a unit that is done never changes again (`done`);
* a unit whose text is being emitted stays so until its own emission ends, and a reference to it is
  never forgotten (`active`).
-/

namespace FlowClass

open List

variable {us us' : StateUnits} {id node : NodeId} {body : BodyId} {u : StateUnit}

/-- The part of a unit that never changes. -/
def StateUnit.outline (u : StateUnit) : NodeId × Nat × BodyId :=
  (u.node, u.slot, u.body)

/-- Whether the unit is degenerate can no longer change. -/
def StateUnit.Settled (u : StateUnit) : Prop :=
  u.progress = .done ∨ u.progress = .inProgress ∧ u.selfReference = true

namespace StateUnits

/-- The units by what never changes, in slot order. -/
def outline (us : StateUnits) : List (NodeId × Nat × BodyId) :=
  us.units.map StateUnit.outline

/-! ## Looking up -/

theorem get?_mem (h : us.get? id = some u) : u ∈ us.units :=
  mem_of_find?_eq_some h

theorem get?_isSome_iff : (us.get? id).isSome ↔ ∃ entry ∈ us.outline, entry.1 = id := by
  simp only [get?, find?_isSome, outline, mem_map]
  constructor
  · rintro ⟨u, hu, hid⟩
    exact ⟨u.outline, ⟨u, hu, rfl⟩, of_decide_eq_true hid⟩
  · rintro ⟨_, ⟨u, hu, rfl⟩, hid⟩
    exact ⟨u, hu, decide_eq_true hid⟩

/-- What never changes of a unit is found in the outline. -/
theorem get?_outline (us : StateUnits) (id : NodeId) :
    (us.get? id).map StateUnit.outline = us.outline.find? fun entry => decide (entry.1 = id) := by
  rw [outline, find?_map]
  rfl

theorem get?_modify (us : StateUnits) (node id : NodeId) (f : StateUnit → StateUnit)
    (hf : ∀ u, (f u).node = u.node) :
    (us.modify node f).get? id = if id = node then (us.get? id).map f else us.get? id := by
  simp only [get?, modify, find?_map]
  have hsame : ((fun u : StateUnit => decide (u.node = id)) ∘
      fun u => if u.node = node then f u else u) = fun u => decide (u.node = id) := by
    funext u
    simp only [Function.comp]
    split
    · rw [hf]
    · rfl
  rw [hsame]
  cases hfind : us.units.find? (fun u => decide (u.node = id)) with
  | none => simp
  | some u =>
    have hu : u.node = id := by simpa using find?_some hfind
    by_cases hid : id = node
    · simp [hid, hu.trans hid]
    · simp [hid, hu]

theorem outline_modify (us : StateUnits) (node : NodeId) (f : StateUnit → StateUnit)
    (hf : ∀ u, (f u).outline = u.outline) : (us.modify node f).outline = us.outline := by
  simp only [outline, modify, map_map]
  apply map_congr_left
  intro u _
  simp only [Function.comp]
  split
  · exact hf u
  · rfl

/-! ## The operations -/

/-- The unit was begun. -/
def begun (us : StateUnits) (id : NodeId) : Bool :=
  (us.get? id).any fun u => u.progress ≠ .pending

theorem begun_iff : us.begun id = true ↔ ∃ u, us.get? id = some u ∧ u.progress ≠ .pending := by
  simp [begun, Option.any_eq_true]

/-- A node has a unit, or a new one is entered with a new body. -/
theorem register_cases (us : StateUnits) (table : SymbolTable) (node : NodeId) :
    (∃ u, us.get? node = some u ∧ us.register table node = (u.slot, us, table)) ∨
      us.get? node = none ∧ us.register table node =
        (us.units.length,
          ⟨us.units ++ [{ node, slot := us.units.length, body := ⟨table.bodies.length⟩ }]⟩,
          { table with bodies := table.bodies ++ [{}] }) := by
  unfold register
  cases us.get? node with
  | some u => exact .inl ⟨u, rfl, rfl⟩
  | none => exact .inr ⟨rfl, rfl⟩

/-- Entering a unit leaves the others alone. -/
theorem get?_register (us : StateUnits) (table : SymbolTable) (node id : NodeId) :
    (us.register table node).2.1.get? id =
      if id = node then
        some ((us.get? node).getD { node, slot := us.units.length, body := ⟨table.bodies.length⟩ })
      else us.get? id := by
  unfold register
  cases hget : us.get? node with
  | some u =>
    by_cases hid : id = node
    · simp [hid, hget]
    · simp [hid]
  | none =>
    by_cases hid : id = node
    · subst hid
      have hnone : us.units.find? (fun u => decide (u.node = id)) = none := hget
      simp [get?, hnone, SymbolTable.newBody]
    · have hne : ¬ node = id := fun h => hid h.symm
      simp [get?, hid, hne]

/-- The slot of a node is the one its unit is entered with. -/
theorem register_slot (us : StateUnits) (table : SymbolTable) (node : NodeId) :
    ∃ u, (us.register table node).2.1.get? node = some u ∧ u.slot = (us.register table node).1 := by
  refine ⟨_, (get?_register us table node node).trans (if_pos rfl), ?_⟩
  unfold register
  cases us.get? node with
  | some u => rfl
  | none => rfl

/-- A new unit comes last, under the next slot. -/
theorem outline_register (us : StateUnits) (table : SymbolTable) (node : NodeId) :
    (us.register table node).2.1.outline = us.outline ∨
      us.get? node = none ∧
        (us.register table node).2.1.outline =
          us.outline ++ [(node, us.outline.length, ⟨table.bodies.length⟩)] := by
  unfold register
  cases hget : us.get? node with
  | some u => exact .inl rfl
  | none =>
    refine .inr ⟨rfl, ?_⟩
    simp [outline, StateUnit.outline, SymbolTable.newBody]

theorem begin_eq_some (h : us.begin node = some (body, us')) :
    ∃ u, us.get? node = some u ∧ u.progress = .pending ∧ u.body = body ∧
      us' = us.modify node fun u => { u with progress := .inProgress } := by
  unfold begin at h
  split at h
  · rename_i u hget
    split at h
    · rename_i hpending
      simp only [Option.some.injEq, Prod.mk.injEq] at h
      exact ⟨u, hget, hpending, h.1, h.2.symm⟩
    · exact absurd h (by simp)
  · exact absurd h (by simp)

theorem ne_of_begin (h : us.begin node = some (body, us')) (hu : us.get? id = some u)
    (hbegun : u.progress ≠ .pending) : id ≠ node := by
  obtain ⟨v, hv, hpending, _, _⟩ := begin_eq_some h
  rintro rfl
  exact hbegun (Option.some.inj (hu.symm.trans hv) ▸ hpending)

theorem begin_eq_none (hget : us.get? node = some u) (h : us.begin node = none) :
    u.progress ≠ .pending := by
  unfold begin at h
  rw [hget] at h
  intro hpending
  simp [hpending] at h

theorem get?_finish (us : StateUnits) (node id : NodeId) (text : String) :
    (us.finish node text).get? id =
      if id = node then (us.get? id).map fun u => { u with text, progress := .done }
      else us.get? id :=
  get?_modify us node id _ fun _ => rfl

theorem get?_noteReference (us : StateUnits) (node id : NodeId) :
    (us.noteReference node).get? id =
      if id = node then (us.get? id).map fun u =>
        if u.progress = .inProgress then { u with selfReference := true } else u
      else us.get? id :=
  get?_modify us node id _ fun u => by split <;> rfl

theorem outline_begin (h : us.begin node = some (body, us')) : us'.outline = us.outline := by
  obtain ⟨_, _, _, _, rfl⟩ := begin_eq_some h
  exact outline_modify us node _ fun _ => rfl

theorem outline_finish (us : StateUnits) (node : NodeId) (text : String) :
    (us.finish node text).outline = us.outline :=
  outline_modify us node _ fun _ => rfl

theorem outline_noteReference (us : StateUnits) (node : NodeId) :
    (us.noteReference node).outline = us.outline :=
  outline_modify us node _ fun u => by split <;> rfl

/-! ## Begun units -/

/-- Entering a unit does not begin it. -/
theorem begun_register (us : StateUnits) (table : SymbolTable) (node id : NodeId) :
    (us.register table node).2.1.begun id = us.begun id := by
  unfold begun
  rw [get?_register]
  split
  · rename_i hid
    subst hid
    cases us.get? id <;> simp
  · rfl

theorem begun_begin (h : us.begin node = some (body, us')) (id : NodeId) :
    us'.begun id = if id = node then true else us.begun id := by
  obtain ⟨u, hu, _, _, rfl⟩ := begin_eq_some h
  unfold begun
  rw [get?_modify us node id (fun u => { u with progress := .inProgress }) fun _ => rfl]
  split
  · rename_i hid
    rw [hid, hu]
    rfl
  · rfl

theorem begun_finish (us : StateUnits) (node id : NodeId) (text : String)
    (h : us.begun node = true) : (us.finish node text).begun id = us.begun id := by
  obtain ⟨u, hu, hbegun⟩ := begun_iff.1 h
  unfold begun
  rw [get?_finish]
  split
  · rename_i hid
    rw [hid, hu]
    simp [hbegun]
  · rfl

theorem begun_noteReference (us : StateUnits) (node id : NodeId) :
    (us.noteReference node).begun id = us.begun id := by
  unfold begun
  rw [get?_noteReference]
  split
  · cases us.get? id with
    | none => rfl
    | some u =>
      simp only [Option.map_some, Option.any_some]
      split <;> rfl
  · rfl

theorem not_begun_of_begin (h : us.begin node = some (body, us')) : us.begun node = false := by
  obtain ⟨u, hu, hpending, _, _⟩ := begin_eq_some h
  simp [begun, hu, hpending]

/-- A unit that is asked for again is settled. -/
theorem settled_noteReference (hu : us.get? id = some u) (hbegun : u.progress ≠ .pending) :
    ∃ u', (us.noteReference id).get? id = some u' ∧ u'.outline = u.outline ∧ u'.Settled := by
  rw [get?_noteReference, if_pos rfl, hu]
  cases hprogress : u.progress with
  | pending => exact absurd hprogress hbegun
  | inProgress =>
    exact ⟨{ u with selfReference := true }, by simp [hprogress], rfl, .inr ⟨hprogress, rfl⟩⟩
  | done => exact ⟨u, by simp [hprogress], rfl, .inl hprogress⟩

/-! ## Growth -/

/-- What a part of an emission does to the units around it. -/
structure Grows (us us' : StateUnits) : Prop where
  outline : us.outline <+: us'.outline
  done : ∀ id u, us.get? id = some u → u.progress = .done → us'.get? id = some u
  active : ∀ id u, us.get? id = some u → u.progress = .inProgress →
    ∃ u', us'.get? id = some u' ∧ u'.progress = .inProgress ∧
      (u.selfReference = true → u'.selfReference = true)

namespace Grows

theorem refl (us : StateUnits) : us.Grows us where
  outline := prefix_rfl
  done := fun _ _ h _ => h
  active := fun _ u h hu => ⟨u, h, hu, id⟩

theorem trans {us'' : StateUnits} (h : us.Grows us') (h' : us'.Grows us'') : us.Grows us'' where
  outline := h.outline.trans h'.outline
  done := fun id u hu hdone => h'.done id u (h.done id u hu hdone) hdone
  active := fun id u hu hactive => by
    obtain ⟨u', hu', hactive', hself⟩ := h.active id u hu hactive
    obtain ⟨u'', hu'', hactive'', hself'⟩ := h'.active id u' hu' hactive'
    exact ⟨u'', hu'', hactive'', fun h => hself' (hself h)⟩

/-- A unit is found under its slot for good. -/
theorem get?_outline (h : us.Grows us') (hu : us.get? id = some u) :
    ∃ u', us'.get? id = some u' ∧ u'.outline = u.outline := by
  obtain ⟨later, hlater⟩ := h.outline
  have hfind := StateUnits.get?_outline us' id
  rw [← hlater, find?_append, ← StateUnits.get?_outline us id, hu] at hfind
  simpa using hfind

/-- A unit that was begun stays begun. -/
theorem begun (h : us.Grows us') (hid : us.begun id = true) : us'.begun id = true := by
  obtain ⟨u, hu, hpending⟩ := begun_iff.1 hid
  cases hprogress : u.progress with
  | pending => exact absurd hprogress hpending
  | inProgress =>
    obtain ⟨u', hu', hactive, _⟩ := h.active id u hu hprogress
    exact begun_iff.2 ⟨u', hu', by simp [hactive]⟩
  | done => exact begun_iff.2 ⟨u, h.done id u hu hprogress, hpending⟩

/-- Entering a unit. -/
theorem register (us : StateUnits) (table : SymbolTable) (node : NodeId) :
    us.Grows (us.register table node).2.1 where
  outline := by
    obtain h | ⟨_, h⟩ := outline_register us table node
    · rw [h]
    · rw [h]
      exact prefix_append _ _
  done := fun id u hu _ => by
    rw [get?_register]
    split
    · rename_i hid
      rw [← hid, hu]
      rfl
    · exact hu
  active := fun id u hu hactive => by
    refine ⟨u, ?_, hactive, fun h => h⟩
    rw [get?_register]
    split
    · rename_i hid
      rw [← hid, hu]
      rfl
    · exact hu

/-- Noting a reference changes no unit that is done. -/
theorem noteReference (us : StateUnits) (node : NodeId) : us.Grows (us.noteReference node) := by
  refine ⟨by rw [outline_noteReference], fun id u hu hdone => ?_, fun id u hu hactive => ?_⟩
  · rw [get?_noteReference, hu]
    split
    · simp [hdone]
    · rfl
  · rw [get?_noteReference, hu]
    split
    · exact ⟨{ u with selfReference := true }, by simp [hactive], hactive, fun _ => rfl⟩
    · exact ⟨u, rfl, hactive, fun h => h⟩

/-- Beginning a unit is growth, and the unit is active then. -/
theorem begin (h : us.begin node = some (body, us')) :
    us.Grows us' ∧ ∃ u, us'.get? node = some u ∧ u.progress = .inProgress := by
  have houtline := outline_begin h
  obtain ⟨u, hu, hpending, _, rfl⟩ := begin_eq_some h
  have hget (id : NodeId) := get?_modify us node id
    (fun u => { u with progress := .inProgress }) fun _ => rfl
  refine ⟨⟨by rw [houtline], fun id v hv hdone => ?_, fun id v hv hactive => ?_⟩,
    { u with progress := .inProgress }, ?_, rfl⟩
  · rw [hget, if_neg (ne_of_begin h hv (by simp [hdone])), hv]
  · exact ⟨v, by rw [hget, if_neg (ne_of_begin h hv (by simp [hactive])), hv], hactive, fun h => h⟩
  · rw [hget, if_pos rfl, hu]
    rfl

/-- A unit that is begun, emitted and finished: from outside only that unit has changed. -/
theorem emitted {us'' : StateUnits} {text : String} (hbegin : us.begin node = some (body, us'))
    (h : us'.Grows us'') : us.Grows (us''.finish node text) ∧
      ∃ u, (us''.finish node text).get? node = some u ∧ u.progress = .done := by
  obtain ⟨hbegun, v, hv, hactive⟩ := begin hbegin
  have hall := hbegun.trans h
  refine ⟨⟨?_, fun id w hw hdone => ?_, fun id w hw hactive => ?_⟩, ?_⟩
  · rw [outline_finish]
    exact hall.outline
  · rw [get?_finish, if_neg (ne_of_begin hbegin hw (by simp [hdone]))]
    exact hall.done id w hw hdone
  · rw [get?_finish, if_neg (ne_of_begin hbegin hw (by simp [hactive]))]
    exact hall.active id w hw hactive
  · obtain ⟨w, hw, _, _⟩ := h.active node v hv hactive
    exact ⟨{ w with text, progress := .done }, by rw [get?_finish, if_pos rfl, hw]; rfl, rfl⟩

end Grows

end StateUnits

end FlowClass
