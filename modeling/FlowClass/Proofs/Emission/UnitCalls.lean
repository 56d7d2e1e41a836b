import FlowClass.Assembly
import FlowClass.Proofs.Emission.Preparation

/-!
# Calls of units and cases of the dispatcher

Whether a unit is degenerate is asked while other units, or the unit itself, are still being emitted,
and again when the dispatcher is written. The two answers agree:

* slots are given out in order (`Records.slots`);
* a unit is only started when it is settled, and from then on the answer stays the same
  (`Records.runsSettled`).
-/

namespace FlowClass

open List StateUnit StateUnits

variable {u : StateUnit} {us : StateUnits}

/-! ## Degenerate units -/

/-- Without its markers the text is one `yield return` of the value, but for white space at its ends
and around the value. -/
def YieldsOnly (text value : String) : Prop :=
  ∃ before lead trail after : List Char,
    (Marker.strip text).toList =
      before ++ "yield return ".toList ++ lead ++ value.toList ++ trail ++ [';'] ++ after ∧
    (before ++ lead ++ trail ++ after).all Text.isBlank = true

theorem yieldsOnly_of_singleYield? {text value : String} (h : singleYield? text = some value) :
    YieldsOnly text value := by
  unfold singleYield? at h
  dsimp only at h
  obtain ⟨before, after, hclean, hbefore, hafter⟩ := Text.trim_split (Marker.strip text).toList
  split at h
  · cases h
  · split at h
    · cases h
    · rename_i rest hrest
      split at h
      · rename_i hlast
        split at h
        · cases h
        · obtain ⟨lead, trail, hvalue, hlead, htrail⟩ := Text.trim_split rest.dropLast
          have hstatement : rest.dropLast ++ [';'] = rest := dropLast_append_getLast? _ hlast
          have hchars : value.toList = Text.trim rest.dropLast := by
            rw [← Option.some.inj h, String.toList_ofList]
          refine ⟨before, lead, trail, after, ?_, ?_⟩
          · calc (Marker.strip text).toList
                = before ++ ("yield return ".toList ++ rest) ++ after := by
                  rw [← Text.eq_append_of_dropLead hrest]
                  exact hclean
              _ = before ++ ("yield return ".toList ++ (rest.dropLast ++ [';'])) ++ after := by
                  rw [hstatement]
              _ = before ++ ("yield return ".toList ++
                    (lead ++ Text.trim rest.dropLast ++ trail ++ [';'])) ++ after := by
                  rw [← hvalue]
              _ = _ := by
                  rw [hchars]
                  simp only [append_assoc]
          · simp only [all_append, hbefore, hlead, htrail, hafter, Bool.and_self]
      · cases h

theorem StateUnit.degenerate?_of_selfReference (h : u.selfReference = true) :
    u.degenerate? = none := by
  simp [degenerate?, h]

/-! ## Slots -/

/-- Slots count the units, and no node has two. -/
structure StateUnits.Numbered (us : StateUnits) : Prop where
  slots : us.outline.map (·.2.1) = List.range us.outline.length
  nodes : (us.outline.map (·.1)).Nodup

theorem StateUnits.Numbered.register (h : us.Numbered) (table : SymbolTable) (node : NodeId) :
    (us.register table node).2.1.Numbered := by
  obtain hsame | ⟨hnew, hadded⟩ := outline_register us table node
  · exact ⟨by rw [hsame]; exact h.slots, by rw [hsame]; exact h.nodes⟩
  · constructor
    · rw [hadded, map_append, h.slots, length_append, length_singleton,
        range_succ]
      rfl
    · rw [hadded, map_append]
      refine nodup_append.2 ⟨h.nodes, pairwise_singleton _ _, ?_⟩
      rintro a ha b hb rfl
      have hnode : a = node := mem_singleton.1 hb
      obtain ⟨entry, hentry, hid⟩ := mem_map.1 ha
      have hsome := get?_isSome_iff.2 ⟨entry, hentry, hid.trans hnode⟩
      rw [hnew] at hsome
      cases hsome

theorem StateUnits.Numbered.of_outline {us' : StateUnits} (h : us.Numbered)
    (hsame : us'.outline = us.outline) : us'.Numbered :=
  ⟨by rw [hsame]; exact h.slots, by rw [hsame]; exact h.nodes⟩

namespace Records

variable {env : Env Node} {state : List NodeId} {c : Bool} {t : Ledger.Task} {l l' : Ledger}

/-- Slots are given out in order in every record. -/
theorem numbered (h : Records env state c t l l') (hl : l.units.Numbered) : l'.units.Numbered := by
  induction h with
  | seq hgo _ _ ih ih' => exact ih' (ih hl)
  | stop _ _ ih => exact ih hl
  | unwritten _ ih => exact ih hl
  | write place hn hflow _ ih => exact ih hl
  | inPlace hstate hshared _ ih => exact ih hl
  | lambda hn hbody _ ih => exact ih hl
  | request text hstate hbegin _ ih =>
    have hbegun := (hl.register _ _).of_outline (outline_begin hbegin)
    exact (ih hbegun).of_outline (outline_finish _ _ _)
  | reference hstate hbegin =>
    exact (hl.register _ _).of_outline (outline_noteReference _ _)
  | unit hstate hbegun _ ih => exact ih hl
  | share name type hstate hshared hnew _ ih => exact ih hl
  | _ => exact hl

end Records

/-! ## Starts -/

/-- Every unit that was started is settled, and has the value it was started with. -/
def Ledger.RunsSettled (l : Ledger) : Prop :=
  ∀ slot value place, .run slot value place ∈ l.journal →
    ∃ id u, l.units.get? id = some u ∧ u.slot = slot ∧ u.Settled ∧ u.degenerate? = value

/-- What is settled stays as it is while units grow. -/
theorem StateUnits.Grows.settled {us' : StateUnits} (h : us.Grows us') {id : NodeId}
    (hu : us.get? id = some u) (hsettled : u.Settled) :
    ∃ u', us'.get? id = some u' ∧ u'.slot = u.slot ∧ u'.Settled ∧
      u'.degenerate? = u.degenerate? := by
  obtain ⟨v, hv, hsame⟩ := h.get?_outline hu
  have hslot : v.slot = u.slot := congrArg (·.2.1) hsame
  rcases hsettled with hdone | ⟨hactive, hself⟩
  · exact ⟨u, h.done id u hu hdone, rfl, .inl hdone, rfl⟩
  · obtain ⟨u', hu', hactive', hself'⟩ := h.active id u hu hactive
    cases hv.symm.trans hu'
    refine ⟨v, hv, hslot, .inr ⟨hactive', hself' hself⟩, ?_⟩
    rw [degenerate?_of_selfReference hself,
      degenerate?_of_selfReference (hself' hself)]

namespace Ledger.RunsSettled

variable {l : Ledger}

theorem grow (h : l.RunsSettled) {units : StateUnits} (hgrows : l.units.Grows units) :
    { l with units }.RunsSettled := by
  intro slot value place hrun
  obtain ⟨id, u, hu, hslot, hsettled, hvalue⟩ := h slot value place hrun
  obtain ⟨u', hu', hslot', hsettled', hvalue'⟩ := hgrows.settled hu hsettled
  exact ⟨id, u', hu', hslot'.trans hslot, hsettled', hvalue'.trans hvalue⟩

/-- Any event but a start leaves the starts alone. -/
theorem note (h : l.RunsSettled) {e : Event} (he : ∀ slot value place, e ≠ .run slot value place) :
    (l.note e).RunsSettled := by
  intro slot value place hrun
  rcases mem_cons.1 hrun with hrun | hrun
  · exact absurd hrun.symm (he slot value place)
  · exact h slot value place hrun

/-- A unit that ends was not degenerate while it was being emitted, if it was started then. -/
theorem finish (h : l.RunsSettled) {id : NodeId} (hu : l.units.get? id = some u)
    (hactive : u.progress = .inProgress) (text : String) :
    { l with units := l.units.finish id text }.RunsSettled := by
  intro slot value place hrun
  obtain ⟨id', u', hu', hslot, hsettled, hvalue⟩ := h slot value place hrun
  have hget := get?_finish l.units id id' text
  by_cases hid : id' = id
  · subst hid
    cases hu.symm.trans hu'
    rcases hsettled with hdone | ⟨_, hself⟩
    · exact absurd (hdone.symm.trans hactive) (by simp)
    · refine ⟨id', { u with text, progress := .done }, ?_, hslot, .inl rfl, ?_⟩
      · rw [hget, if_pos rfl, hu]
        rfl
      · rw [← hvalue, degenerate?_of_selfReference hself]
        exact degenerate?_of_selfReference hself
  · exact ⟨id', u', by rw [hget, if_neg hid, hu'], hslot, hsettled, hvalue⟩

end Ledger.RunsSettled

namespace Records

variable {env : Env Node} {state : List NodeId} {c : Bool} {t : Ledger.Task} {l l' : Ledger}

/-- Starts agree with the units in every record. -/
theorem runsSettled (h : Records env state c t l l') (hl : l.RunsSettled) : l'.RunsSettled := by
  induction h with
  | nothing l => exact hl
  | incidental l e he =>
    refine hl.note fun slot value place hrun => ?_
    rw [hrun] at he
    cases he
  | seq hgo _ _ ih ih' => exact ih' (ih hl)
  | stop _ _ ih => exact ih hl
  | unwritten _ ih => exact ih hl
  | absent l hnone => exact hl
  | refuse l place hn hvalue => exact hl.note fun _ _ _ h => nomatch h
  | write place hn hflow _ ih => exact ih (hl.note fun _ _ _ h => nomatch h)
  | inPlace hstate hshared _ ih => exact ih hl
  | lambda hn hbody _ ih => exact ih hl
  | @request c id l l' table body units text hstate hbegin hwrite ih =>
    obtain ⟨hgrows, u, hu, hactive⟩ := Grows.begin hbegin
    have hbegun := hl.grow ((Grows.register l.units table id).trans hgrows)
    have hwritten := ih (hbegun.note fun _ _ _ h => nomatch h)
    obtain ⟨u', hu', hactive', _⟩ := hwrite.grows.units.active id u hu hactive
    exact hwritten.finish hu' hactive' text
  | @reference id l table hstate hbegin =>
    have hgrows := (Grows.register l.units table id).trans
      (Grows.noteReference _ id)
    exact (hl.grow hgrows).note fun _ _ _ h => nomatch h
  | @start id l u place hget hsettled =>
    intro slot value place' hrun
    rcases mem_cons.1 hrun with hrun | hrun
    · cases hrun
      exact ⟨id, u, hget, rfl, hsettled, rfl⟩
    · exact hl slot value place' hrun
  | unit hstate hbegun _ ih => exact ih hl
  | share name type hstate hshared hnew _ ih => exact ih hl
  | call hstate hknown => exact hl

end Records

/-! ## The dispatcher -/

theorem Assembly.mapM_caseBody (symbols : SymbolTable) (us : List StateUnit) (imports : Imports) :
    ((us.mapM (caseBody symbols)).run imports).1.map Prod.fst = us.map slot := by
  induction us generalizing imports with
  | nil => rfl
  | cons u us ih =>
    rw [mapM_cons]
    have hrest := ih ((caseBody symbols u).run imports).2
    exact congrArg (u.slot :: ·) hrest

/-- The dispatcher is written over the slots of the units that have a case, in order. -/
theorem Assembly.dispatcher_eq (symbols : SymbolTable) (units : StateUnits) (imports : Imports) :
    ∃ enumerator bodies, ((dispatcher symbols units).run imports).1 =
        dispatcherText enumerator bodies ∧
      bodies.map Prod.fst = units.cases.map slot := by
  unfold dispatcher
  split
  · rename_i hempty
    have hnone : units.cases = [] := by
      simp [cases, isEmpty_iff.1 hempty]
    exact ⟨"", [], rfl, by rw [hnone]; rfl⟩
  · exact ⟨_, _, rfl, Assembly.mapM_caseBody symbols units.cases _⟩

theorem StateUnits.count_cases (hnodup : (us.units.map slot).Nodup) (hu : u ∈ us.units) :
    (us.cases.map slot).count u.slot = if u.degenerate? = none then 1 else 0 := by
  have hinjective {v : StateUnit} (hv : v ∈ us.units) (hslot : v.slot = u.slot) : v = u :=
    inj_on_of_nodup_map hnodup hv hu hslot
  have hsub : (us.cases.map slot).Nodup :=
    hnodup.sublist (filter_sublist.map slot)
  split
  · rename_i hnone
    refine count_eq_one_of_mem hsub (mem_map_of_mem ?_)
    exact mem_filter.2 ⟨hu, by simp [hnone]⟩
  · rename_i hsome
    refine count_eq_zero_of_not_mem fun hmem => ?_
    obtain ⟨v, hv, hslot⟩ := mem_map.1 hmem
    obtain ⟨hv, hnone⟩ := mem_filter.1 hv
    rw [hinjective hv hslot] at hnone
    exact hsome (Option.isNone_iff_eq_none.1 hnone)

/-- Slots count the units from zero on, the dispatcher has one case for each unit that is not
degenerate and none for the others, every unit that was started without a value has a case, and
every unit that was started with one has none and only yields that value. -/
theorem unit_calls_agree_with_cases {graph : Graph Node} {config : Config}
    {gen : Generation Node} (hstart : Generation.start graph config = .ok gen) {s : State}
    (hrun : Emit.bodies gen.env gen.state = (.ok (), s)) :
    s.units.units.map StateUnit.slot = List.range s.units.units.length ∧
    (∀ imports, ∃ enumerator bodies,
      ((Assembly.dispatcher s.symbols s.units).run imports).1 = dispatcherText enumerator bodies ∧
      bodies.map Prod.fst = s.units.cases.map StateUnit.slot) ∧
    (∀ u ∈ s.units.units, (s.units.cases.map StateUnit.slot).count u.slot =
      if u.degenerate? = none then 1 else 0) ∧
    (∀ slot place, .run slot none place ∈ s.journal → slot ∈ s.units.cases.map StateUnit.slot) ∧
    ∀ slot value place, .run slot (some value) place ∈ s.journal →
      slot ∉ s.units.cases.map StateUnit.slot ∧
        ∃ u ∈ s.units.units, u.slot = slot ∧ YieldsOnly u.text value := by
  obtain ⟨_, hfailed⟩ | ⟨c, hrec, _⟩ := Emit.recorded_bodies hstart
  · exact absurd ⟨(), congrArg Prod.fst hrun⟩ hfailed
  rw [hrun] at hrec
  have hnumbered : s.units.Numbered := hrec.numbered ⟨rfl, List.nodup_nil⟩
  have hsettled : s.ledger.RunsSettled := hrec.runsSettled fun _ _ _ h => nomatch h
  have hslots : s.units.units.map StateUnit.slot = List.range s.units.units.length := by
    have := hnumbered.slots
    simpa [StateUnits.outline, StateUnit.outline, Function.comp_def] using this
  have hnodup : (s.units.units.map StateUnit.slot).Nodup := hslots ▸ List.nodup_range
  refine ⟨hslots, Assembly.dispatcher_eq s.symbols s.units,
    fun u hu => StateUnits.count_cases hnodup hu, fun slot place hmem => ?_,
    fun slot value place hmem => ?_⟩
  · obtain ⟨id, u, hu, rfl, _, hvalue⟩ := hsettled slot none place hmem
    refine List.mem_map_of_mem (List.mem_filter.2 ⟨StateUnits.get?_mem hu, ?_⟩)
    simp [hvalue]
  · obtain ⟨id, u, hu, rfl, _, hvalue⟩ := hsettled slot (some value) place hmem
    have hmem := StateUnits.get?_mem hu
    refine ⟨?_, u, hmem, rfl, ?_⟩
    · have hcount := StateUnits.count_cases hnodup hmem
      rw [if_neg (by simp [hvalue])] at hcount
      exact List.count_eq_zero.1 hcount
    · unfold StateUnit.degenerate? at hvalue
      split at hvalue
      · exact yieldsOnly_of_singleYield? hvalue
      · cases hvalue

/-- A unit that waits for a frame, and one that goes round and round. -/
def waitAndLoop : Graph Node where
  name := "C"
  classDecl := startsAtOne
  nodes :=
    [(⟨1⟩, .stateScope (some ⟨2⟩) (some ⟨3⟩)), (⟨2⟩, .wait .unassigned none),
      (⟨3⟩, .invoke (ownCall "Tick") (some ⟨3⟩))]

/-- The waiting unit is started with its value and has no case, the looping one is called by its
slot from its own body. -/
theorem waitAndLoop_calls_agree : ∃ gen s, Generation.start waitAndLoop {} = .ok gen ∧
    Emit.bodies gen.env gen.state = (.ok (), s) ∧
    s.journal.any (fun e => e matches .run 1 (some "null") _) = true ∧
    s.journal.any (fun e => e matches .run 2 none _) = true ∧
    s.units.units.map StateUnit.slot = List.range s.units.units.length ∧
    ∀ slot place, .run slot none place ∈ s.journal →
      slot ∈ s.units.cases.map StateUnit.slot := by
  obtain ⟨gen, s, hstart, hrun, hvalue, hplain⟩ : Generation.EndsWith waitAndLoop {} fun _ s =>
      s.journal.any (fun e => e matches .run 1 (some "null") _) = true ∧
        s.journal.any (fun e => e matches .run 2 none _) = true := by decide +kernel
  obtain ⟨hslots, _, _, hcases, _⟩ := unit_calls_agree_with_cases hstart hrun
  exact ⟨gen, s, hstart, hrun, hvalue, hplain, hslots, hcases⟩

/-- A unit whose only statement is a `yield return` with blanks around its value. -/
def spacedYield : Graph Node where
  name := "C"
  classDecl := startsAtOne
  nodes :=
    [(⟨1⟩, .stateScope (some ⟨2⟩) none),
      (⟨2⟩, .invoke (.chain .self [Step.ofField "yield return  a " .void]) none)]

/-- Blanks around the value of a unit are not passed on when it is started. -/
theorem spacedYield_starts_trimmed : ∃ gen s, Generation.start spacedYield {} = .ok gen ∧
    Emit.bodies gen.env gen.state = (.ok (), s) ∧
    s.journal.any (fun e => e matches .run 0 (some "a") _) = true ∧
    s.units.units.map (fun u => (u.slot, Marker.strip u.text)) = [(0, "yield return  a ;")] ∧
    ("yield return  a ;" : String) ≠ "yield return a;" := by
  decide +kernel

end FlowClass
