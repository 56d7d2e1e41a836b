import FlowClass.Proofs.Emission.Once
import FlowClass.Proofs.Emission.Orderly
import FlowClass.Proofs.Pass.Independence

/-!
# What a pass stays within

Every pass ends in an orderly state, or before anything was emitted (`Generation.contained`), and
whole passes fail, and report, only what a graph is at fault for (`Graph.FailsWith`). Some consequences
are spelled out here:

* emission touches no node that the analysis did not find, so that no flow comes back to a node
  written in place and no variable of a node is missing (`emission_stays_in_table`);
* code suspends only inside units, and no wait stands anywhere else (`suspension_only_in_units`).
-/

namespace FlowClass

open Generation GraphRun

variable {text : String}

/-- The variable of a node is read wherever its key is entered. -/
theorem Emit.nodeVariable_of_key {ν : Type} {s : State} {id : NodeId}
    (h : SymbolKey.node id ∈ s.symbols.keys) (env : Env ν) :
    ∃ name s', nodeVariable id env s = (.ok name, s') := by
  obtain ⟨handle, hhandle⟩ :=
    Option.isSome_iff_exists.1 (SymbolTable.variableHandle?_isSome.2 h)
  obtain ⟨index, hindex, rfl⟩ := Option.map_eq_some_iff.1 hhandle
  have hlt : index < s.symbols.vars.length := (List.findIdx?_eq_some_iff_findIdx_eq.1 hindex).1
  have huse : s.symbols.useVariable ⟨index⟩ s.place.body =
      some (s.symbols.vars[index].name, { s.symbols with
        vars := s.symbols.vars.modify index fun v =>
          { v with storage := v.storage.usedBy s.place.body } }) := by
    unfold SymbolTable.useVariable SymbolTable.variableAt?
    rw [List.getElem?_eq_getElem hlt]
    rfl
  unfold nodeVariable keyedVariable
  rw [get_bind, hhandle]
  dsimp only
  unfold variableName
  rw [get_bind, huse]
  exact ⟨_, _, rfl⟩

/-- The text gives an error, and it is not that emission came to a node that the analysis did not
find. -/
structure GenError.WithinTable (e : GenError) (text : String) : Prop where
  tells : e.root.Tells text
  owned : ∀ id owner, e.root ≠ .unresolved (.nodeVariable id) owner
  revisit : ∀ id, ¬ (GenError.invalid (.revisit id)).Tells text

theorem GenError.Tells.withinTable {e : GenError} (htext : e.root.Tells text)
    (h : e.isOrdinary = true) : e.WithinTable text where
  tells := htext
  owned id owner heq := by
    rw [← isOrdinary_root, heq] at h
    cases h
  revisit id := not_tells_of_isOrdinary h htext (.inr ⟨id, rfl⟩)

/-! ## Faults -/

/-- An error that the work on a graph may end with: a plain one, or one that fits what the analysis
found. -/
def Graph.FailsWith (graph : Graph Node) (config : Config) (e : GenError) : Prop :=
  e.isPlain = true ∨ ∃ gen, start graph config = .ok gen ∧ e.Fits gen.env

namespace Graph.FailsWith

variable {graph : Graph Node} {config : Config} {e : GenError}

theorem isOrdinary (h : graph.FailsWith config e) : e.isOrdinary = true := by
  obtain hplain | ⟨_, _, hfits⟩ := h
  · exact GenError.isOrdinary_of_isPlain hplain
  · exact hfits.1

theorem of_start (h : start graph config = .error e) : graph.FailsWith config e := by
  unfold start at h
  split at h
  · cases h
    exact .inl rfl
  · split at h <;> cases h
    exact .inl rfl

theorem of_finish {gen : Generation Node} {order : List MarkerId} (h : gen.finish order = .error e) :
    graph.FailsWith config e := by
  unfold finish at h
  dsimp only at h
  split at h
  · split at h <;> cases h
    exact .inl rfl
  · cases h

/-- What becomes of a graph. -/
theorem of_result {order : List MarkerId} :
    (∀ e, (of config order graph).result = .error e → graph.FailsWith config e) ∧
      ∀ a, (of config order graph).result = .ok a → ∀ d ∈ a.2,
        ∃ e, graph.FailsWith config e ∧ e.root.Tells d.message := by
  rcases hstart : start graph config with e | gen
  · rw [result_of_start_error hstart]
    exact ⟨fun _ he => (by cases he; exact .of_start hstart), fun _ ha => by cases ha⟩
  · have hcontained := contained hstart
    rw [result_of_start_ok hstart]
    rcases hrun : Emit.bodies gen.env gen.state with ⟨e | _, s⟩ <;> rw [hrun] at hcontained
    · refine ⟨fun e' he' => ?_, fun _ ha => by cases ha⟩
      cases he'
      exact .inr ⟨gen, hstart, hcontained.errors e rfl⟩
    · rw [outcome]
      rcases hfinish : finish ⟨gen.env, s⟩ order with e | artifact
      · refine ⟨fun e' he' => ?_, fun _ ha => by cases ha⟩
        cases he'
        exact .of_finish hfinish
      · refine ⟨fun _ he => (by cases he), fun a ha d hd => ?_⟩
        cases ha
        obtain ⟨e, he, htells⟩ := hcontained.reports d hd
        exact ⟨e, .inr ⟨gen, hstart, he⟩, htells⟩

variable {graphs : List (Graph Node)} {orders : MapOrders}

/-- A pass fails with what a graph is at fault for. -/
theorem of_generate_error (h : (generate graphs config orders).1 = .error e) :
    ∃ graph ∈ graphs, graph.FailsWith config e := by
  obtain ⟨e', he', graph, hgraph, _, hfails⟩ | hok := generate_cases graphs config orders
  · rw [h] at he'
    cases he'
    exact ⟨graph, hgraph, of_result.1 e hfails⟩
  · rw [h] at hok
    cases hok

/-- A pass reports what a graph is at fault for. -/
theorem of_generate_ok {output : Output} (h : (generate graphs config orders).1 = .ok output)
    {d : Diagnostic} (hd : d ∈ output.diagnostics) :
    ∃ graph ∈ graphs, ∃ e, graph.FailsWith config e ∧ e.root.Tells d.message := by
  obtain ⟨e', he', _⟩ | hok := generate_cases graphs config orders
  · rw [h] at he'
    cases he'
  · rw [h] at hok
    cases hok
    obtain ⟨_, hseen, hd⟩ := List.mem_flatMap.1 hd
    obtain ⟨⟨graph, position⟩, hentry, rfl⟩ := List.mem_map.1 hseen
    refine ⟨graph, List.fst_mem_of_mem_zipIdx hentry, ?_⟩
    change d ∈ ((of config (orders position) graph).output graph).diagnostics at hd
    unfold output at hd
    rcases hresult : (of config (orders position) graph).result with e | a <;> rw [hresult] at hd
    · rw [List.mem_singleton.1 hd]
      exact ⟨e, of_result.1 e hresult, .inl rfl⟩
    · exact of_result.2 a hresult d hd

end Graph.FailsWith

/-! ## Nodes -/

/-- Emission touches nothing that the analysis did not find. -/
theorem emission_stays_in_table {graph : Graph Node} {config : Config} {gen : Generation Node}
    (hstart : Generation.start graph config = .ok gen) {result : Except GenError Unit} {s : State}
    (hrun : Emit.bodies gen.env gen.state = (result, s)) :
    -- nodes that are written, read, or asked for a unit are in the table
    (∀ id place, .statement id place ∈ s.journal → id ∈ gen.env.table.ids) ∧
    (∀ id port place, .value id port place ∈ s.journal → id ∈ gen.env.table.ids) ∧
    (∀ id, .slot id ∈ s.journal → graph.contains id = true → id ∈ gen.env.table.ids) ∧
    -- before any of this the nodes of the table are set up and classified, and from then on each
    -- that owns a variable has it
    (s.journal = [] ∨ ∃ s₀, Emit.prepare gen.env gen.state = (.ok (), s₀) ∧
      s₀.classifier.frozen = some gen.env.sealed ∧ s.classifier.frozen = some gen.env.sealed ∧
      (∀ key ∈ s₀.symbols.keys, key ∈ s.symbols.keys) ∧
      ∀ id ∈ gen.env.table.ids, ∀ n, graph.get? id = some n → n.ownsVariable = true →
        ∀ s₁, (∀ key ∈ s₀.symbols.keys, key ∈ s₁.symbols.keys) →
          ∃ name s₂, Emit.nodeVariable id gen.env s₁ = (.ok name, s₂)) ∧
    -- no flow comes back to a node written in place, and no node lacks its variable
    (∀ e, result = .error e → e.WithinTable e.root.message) ∧
    (∀ d ∈ s.diagnostics, ∃ e : GenError, e.WithinTable d.message) ∧
    ∀ (graphs : List (Graph Node)) config orders,
      (∀ e, (generate graphs config orders).1 = .error e → e.WithinTable e.root.message) ∧
      ∀ output, (generate graphs config orders).1 = .ok output →
        ∀ d ∈ output.diagnostics, ∃ e : GenError, e.WithinTable d.message := by
  obtain ⟨hgraph, _, _, _⟩ := Generation.start_eq hstart
  have hcontained := Generation.contained hstart
  rw [hrun] at hcontained
  refine ⟨fun id place he => ?_, fun id port place he => ?_, fun id he hexists => ?_, ?_,
    fun e he => ?_, fun d hd => ?_,
    fun graphs config orders => ⟨fun e he => ?_, fun output hok d hd => ?_⟩⟩
  · exact (hcontained.journal _ he).1
  · exact (hcontained.journal _ he).1
  · rw [← hgraph] at hexists
    exact hcontained.journal _ he hexists
  · rcases hcontained.prepared with hempty | ⟨s₀, hprepare, horderly, hsafe⟩
    · exact .inl hempty
    · refine .inr ⟨s₀, hprepare, horderly.frozen, hsafe.orderly.frozen, hsafe.grown.keys,
        fun id hid n hn howns s₁ hkeys => ?_⟩
      -- the key was entered during the preparation, and a key is never taken back
      rw [← hgraph] at hn
      exact Emit.nodeVariable_of_key (hkeys _ (horderly.owned id hid n hn howns)) gen.env
  · exact GenError.Tells.withinTable (.inl rfl) (hcontained.errors e he).1
  · obtain ⟨e, he, htells⟩ := hcontained.reports d hd
    exact ⟨e, htells.withinTable he.1⟩
  · obtain ⟨_, _, hfails⟩ := Graph.FailsWith.of_generate_error he
    exact GenError.Tells.withinTable (.inl rfl) hfails.isOrdinary
  · obtain ⟨_, _, e, hfails, htells⟩ := Graph.FailsWith.of_generate_ok hok hd
    exact ⟨e, htells.withinTable hfails.isOrdinary⟩

/-- A loop that counts up to a stored value and is run again as long as the unit of the stored value
is running. -/
def countsAgain : Graph Node where
  name := "C"
  classDecl := startsAtOne
  nodes :=
    [(⟨1⟩, .localVariable "limit" .int (.literal (.integer 3 .int)) (some ⟨2⟩)),
      (⟨2⟩, .forLoop (.literal (.integer 0 .int)) (.output ⟨1⟩ 0) .unassigned (some ⟨3⟩)
        (some ⟨4⟩)),
      (⟨3⟩, .invoke (ownCall "Use" [.output ⟨2⟩ 0]) none),
      (⟨4⟩, .branch (.output ⟨5⟩ 0) (some ⟨1⟩) none none),
      (⟨5⟩, .unitStatus (some ⟨1⟩) .isRunning)]

/-- Asking for the unit, and reading the index of the loop, stays in the table. -/
theorem countsAgain_stays_in_table : ∃ gen s,
    Generation.start countsAgain {} = .ok gen ∧
    Emit.bodies gen.env gen.state = (.ok (), s) ∧ .slot ⟨1⟩ ∈ s.journal ∧
    ⟨1⟩ ∈ gen.env.table.ids ∧ ⟨2⟩ ∈ gen.env.table.ids ∧
    ∃ name s', Emit.nodeVariable ⟨2⟩ gen.env s = (.ok name, s') := by
  obtain ⟨gen, s, hstart, hrun, hslot, hloop⟩ : Generation.EndsWith countsAgain {} fun gen s =>
      .slot ⟨1⟩ ∈ s.journal ∧ ⟨2⟩ ∈ gen.env.table.ids := by decide +kernel
  obtain ⟨_, _, hunit, hprepared, _⟩ := emission_stays_in_table hstart hrun
  refine ⟨gen, s, hstart, hrun, hslot, hunit ⟨1⟩ hslot (by decide), hloop, ?_⟩
  rcases hprepared with hempty | ⟨s₀, _, _, _, hkeys, hvariables⟩
  · rw [hempty] at hslot
    exact absurd hslot List.not_mem_nil
  · exact hvariables ⟨2⟩ hloop _ rfl rfl s hkeys

/-! ## Suspension -/

/-- Code that suspends the unit it stands in, or ends it. -/
def Yields (text : String) : Prop :=
  text = Fragment.yieldBreak.text ∨ ∃ value, text = (Fragment.yieldReturn value).text

theorem Yields.begins (h : Yields text) : Begins 'y' text := by
  rcases h with rfl | ⟨value, rfl⟩
  · decide +kernel
  · exact .append (.append (by decide))

theorem not_yields_of_begins {c : Char} (h : Begins c text) (hc : c ≠ 'y') : ¬ Yields text := by
  intro hyields
  have hsame : some c = some 'y' := h.symm.trans hyields.begins
  exact hc (Option.some.inj hsame)

theorem begins_runCall (slot : Nat) (value : Option String) : Begins '_' (runCall slot value) := by
  cases value with
  | none => exact .append (.append (.append (by decide)))
  | some value => exact .append (.append (.append (.append (.append (by decide)))))

namespace Emit

variable {ν : Type} {env : Env ν} {s s' : State} {text : String}

/-- A wait suspends, and stands where that is allowed. -/
theorem yields_waitText {services : Services ν} {seconds : Term}
    (h : Node.waitText services seconds env s = (.ok text, s')) :
    Yields text ∧ s.place.resumable = true := by
  obtain ⟨_, s₁, hcheck, htext⟩ := bind_eq_ok_iff.1 h
  constructor
  · unfold Node.yieldText at htext
    split at htext
    · obtain ⟨_, _, _, htext⟩ := bind_eq_ok_iff.1 htext
      obtain ⟨_, _, _, htext⟩ := bind_eq_ok_iff.1 htext
      cases htext
      exact .inr ⟨_, rfl⟩
    · cases htext
      exact .inr ⟨_, rfl⟩
  · unfold Node.checkResumable demand at hcheck
    rw [get_bind] at hcheck
    by_contra hnot
    rw [if_neg hnot] at hcheck
    cases hcheck

/-- Returning ends a unit where there is one, and is a plain return elsewhere. -/
theorem yields_returnText {services : Services ν} {value : Term}
    (h : Node.returnText services value env s = (.ok text, s')) :
    Yields text ↔ s.place.resumable = true := by
  unfold Node.returnText at h
  rw [get_bind] at h
  by_cases hresumable : s.place.resumable = true
  · rw [if_pos hresumable] at h
    obtain ⟨_, _, _, htext⟩ := bind_eq_ok_iff.1 h
    cases htext
    exact ⟨fun _ => hresumable, fun _ => .inl rfl⟩
  · rw [if_neg hresumable] at h
    -- with a value or without one, the text is that of a return
    suffices hplain : Begins 'r' text from
      ⟨fun hyields => absurd hyields (not_yields_of_begins hplain (by decide)),
        fun hyes => absurd hyes hresumable⟩
    split at h
    · obtain ⟨_, _, _, htext⟩ := bind_eq_ok_iff.1 h
      obtain ⟨_, _, _, htext⟩ := bind_eq_ok_iff.1 htext
      cases htext
      exact .append (.append (by decide))
    · obtain ⟨_, _, _, htext⟩ := bind_eq_ok_iff.1 h
      cases htext
      decide

/-- A unit is waited for inside another one, and only started elsewhere. -/
theorem yields_startUnit [NodeKind ν] {slot : NodeId → Emit ν Nat} {id : NodeId}
    (h : startUnit slot id env s = (.ok text, s')) :
    (∃ k value, s'.journal.head? = some (.run k value s'.place)) ∧
      (Yields text ↔ s'.place.resumable = true) := by
  obtain ⟨k, s₁, _, hrest⟩ := bind_eq_ok_iff.1 h
  rw [get_bind, note_bind] at hrest
  cases hrest
  refine ⟨⟨_, _, rfl⟩, ?_⟩
  by_cases hresumable : s₁.place.resumable = true
  · rw [if_pos hresumable]
    exact ⟨fun _ => hresumable, fun _ => .inr ⟨_, rfl⟩⟩
  · rw [if_neg hresumable]
    have hplain := (begins_runCall k ((s₁.units.get? id).bind StateUnit.degenerate?)).append
      (b := ";")
    exact ⟨fun hyields => absurd hyields (not_yields_of_begins hplain (by decide)),
      fun hyes => absurd hyes hresumable⟩

end Emit

/-- The place where something was emitted. -/
def Event.place? : Event → Option Place
  | .statement _ place => some place
  | .value _ _ place => some place
  | .run _ _ place => some place
  | _ => none

theorem Event.Fits.housed {env : Env Node} {us : StateUnits} {e : Event} (h : e.Fits env us)
    {place : Place} (hplace : e.place? = some place) : place.Housed us := by
  cases e with
  | statement id p =>
    cases hplace
    exact h.2.1
  | value id port p =>
    cases hplace
    exact h.2
  | run slot value p =>
    cases hplace
    exact h
  | _ => cases hplace

/-- Suspension happens only inside units. -/
theorem suspension_only_in_units {graph : Graph Node} {config : Config} {gen : Generation Node}
    (hstart : Generation.start graph config = .ok gen) {result : Except GenError Unit} {s : State}
    (hrun : Emit.bodies gen.env gen.state = (result, s)) :
    -- wherever code may wait, it stands in the body of a unit
    (∀ e ∈ s.journal, ∀ place, e.place? = some place → place.resumable = true →
      place.kind = .unit ∧ ∃ u ∈ s.units.units, u.body = place.body) ∧
    -- code that suspends is given only there
    (∀ (env : Env Node) services s₀ text s₁,
      (∀ id seconds next, (Node.wait seconds next).code services id env s₀ = (.ok text, s₁) →
        Yields text ∧ s₀.place.resumable = true) ∧
      (∀ id value, (Node.returnValue value).code services id env s₀ = (.ok text, s₁) →
        (Yields text ↔ s₀.place.resumable = true)) ∧
      ∀ slot id, Emit.startUnit slot id env s₀ = (.ok text, s₁) →
        (∃ k value, s₁.journal.head? = some (.run k value s₁.place)) ∧
          (Yields text ↔ s₁.place.resumable = true)) ∧
    -- no wait is written anywhere else
    (∀ id place seconds next, .statement id place ∈ s.journal →
      graph.get? id = some (.wait seconds next) → place.resumable = true) ∧
    (∀ e, result = .error e → ¬ (GenError.invalid .waitOutsideUnit).Tells e.root.message) ∧
    (∀ d ∈ s.diagnostics, ¬ (GenError.invalid .waitOutsideUnit).Tells d.message) ∧
    ∀ (graphs : List (Graph Node)) config orders,
      (∀ e, (generate graphs config orders).1 = .error e →
        ¬ (GenError.invalid .waitOutsideUnit).Tells e.root.message) ∧
      ∀ output, (generate graphs config orders).1 = .ok output →
        ∀ d ∈ output.diagnostics, ¬ (GenError.invalid .waitOutsideUnit).Tells d.message := by
  obtain ⟨hgraph, _, _, _⟩ := Generation.start_eq hstart
  have hcontained := Generation.contained hstart
  rw [hrun] at hcontained
  refine ⟨fun e he place hplace hresumable => ?_, fun env services s₀ text s₁ => ?_,
    fun id place seconds next he hn => ?_, fun e he => ?_, fun d hd => ?_,
    fun graphs config orders => ⟨fun e he => ?_, fun output hok d hd => ?_⟩⟩
  · obtain ⟨hkind, hbody⟩ := (hcontained.journal e he).housed hplace hresumable
    obtain ⟨u, hu, hubody⟩ := List.mem_map.1 hbody
    exact ⟨hkind, u, hu, hubody⟩
  · exact ⟨fun id seconds next h => Emit.yields_waitText h,
      fun id value h => Emit.yields_returnText h, fun slot id h => Emit.yields_startUnit h⟩
  · rw [← hgraph] at hn
    exact (hcontained.journal _ he).2.2 _ hn rfl
  · exact GenError.not_tells_of_isOrdinary (hcontained.errors e he).1 (.inl rfl) (.inl rfl)
  · obtain ⟨e, he, htells⟩ := hcontained.reports d hd
    exact GenError.not_tells_of_isOrdinary he.1 htells (.inl rfl)
  · obtain ⟨_, _, hfails⟩ := Graph.FailsWith.of_generate_error he
    exact GenError.not_tells_of_isOrdinary hfails.isOrdinary (.inl rfl) (.inl rfl)
  · obtain ⟨_, _, e, hfails, htells⟩ := Graph.FailsWith.of_generate_ok hok hd
    exact GenError.not_tells_of_isOrdinary hfails.isOrdinary htells (.inl rfl)

/-- One wait that an event leads to, and a lambda in the method shared by a setter and a
constructor. -/
def awaitedFromAll : Graph Node where
  name := "C"
  classDecl :=
    { name := "C"
      properties := [{ id := ⟨2⟩, name := "P", type := .int, setter := some ⟨2⟩ }]
      constructors := [{ id := ⟨3⟩, entry := some ⟨3⟩ }]
      events := [{ id := ⟨1⟩, name := "Start", entry := some ⟨1⟩ }] }
  nodes :=
    [(⟨1⟩, .invoke (ownCall "Begin") (some ⟨6⟩)),
      (⟨2⟩, .branch (.literal (.bool true)) (some ⟨4⟩) none none),
      (⟨3⟩, .invoke (ownCall "Make") (some ⟨4⟩)),
      (⟨4⟩, .invoke (ownCall "Use" [.output ⟨5⟩ 0]) none),
      (⟨5⟩, .lambda [] .void (some ⟨6⟩)),
      (⟨6⟩, .wait .unassigned (some ⟨7⟩)),
      (⟨7⟩, .returnValue .unassigned)]

/-- The wait is written once, in its unit. -/
theorem awaitedFromAll_waits_in_unit : ∃ gen s place,
    Generation.start awaitedFromAll {} = .ok gen ∧
    Emit.bodies gen.env gen.state = (.ok (), s) ∧ s.shared.length = 1 ∧ s.units.units.length = 2 ∧
    .statement ⟨6⟩ place ∈ s.journal ∧ place.resumable = true ∧ place.kind = .unit ∧
    ∃ u ∈ s.units.units, u.body = place.body := by
  obtain ⟨gen, s, hstart, hrun, hshared, hunits, hwait⟩ : Generation.EndsWith awaitedFromAll {}
      fun _ s => s.shared.length = 1 ∧ s.units.units.length = 2 ∧ ⟨6⟩ ∈ statements s.journal := by
    decide +kernel
  obtain ⟨place, he⟩ := mem_statements_iff.1 hwait
  obtain ⟨hunit, _, hwaits, _⟩ := suspension_only_in_units hstart hrun
  have hresumable := hwaits ⟨6⟩ place _ _ he rfl
  exact ⟨gen, s, place, hstart, hrun, hshared, hunits, he, hresumable,
    hunit _ he place rfl hresumable⟩

/-! ## Value cycles -/

/-- A pass over graphs without lambdas tells of a value cycle only where there is one among the links
of a graph: outputs lead back to a node, or they lead to one that refers to a unit, from which ports
of any kind lead back. -/
theorem value_cycle_among_links {graphs : List (Graph Node)} {config : Config} {orders : MapOrders}
    (hplain : ∀ graph ∈ graphs, ∀ id n, graph.get? id = some n → n.lambdaBody = none) {id : NodeId}
    (htold : (∃ e, (generate graphs config orders).1 = .error e ∧ e.root = .valueCycle id) ∨
      ∃ output, (generate graphs config orders).1 = .ok output ∧
        ∃ d ∈ output.diagnostics, (GenError.valueCycle id).Tells d.message) :
    ∃ graph ∈ graphs, ∃ gen, Generation.start graph config = .ok gen ∧ ∃ node,
      Relation.TransGen gen.env.table.Reads node node ∨ gen.env.table.Detour node node := by
  have hfault : ∃ graph ∈ graphs, ∃ e, graph.FailsWith config e ∧ ∃ id, e.root = .valueCycle id := by
    obtain ⟨e, he, hroot⟩ | ⟨output, houtput, d, hd, htells⟩ := htold
    · obtain ⟨graph, hgraph, hfails⟩ := Graph.FailsWith.of_generate_error he
      exact ⟨graph, hgraph, e, hfails, id, hroot⟩
    · obtain ⟨graph, hgraph, e, hfails, htells'⟩ := Graph.FailsWith.of_generate_ok houtput hd
      exact ⟨graph, hgraph, e, hfails, htells'.eq_valueCycle htells⟩
  obtain ⟨graph, hgraph, e, hplainly | ⟨gen, hstart, hfits⟩, id, hroot⟩ := hfault
  · rw [GenError.root_of_isPlain hplainly] at hroot
    subst hroot
    cases hplainly
  · refine ⟨graph, hgraph, gen, hstart, (hfits.2 id hroot).resolve_left ?_⟩
    rintro ⟨node, n, target, hn, hbody⟩
    rw [(Generation.start_eq hstart).1] at hn
    rw [hplain graph hgraph node n hn] at hbody
    cases hbody

/-- A call with the output of a member that reads another, and that one the first. -/
def readsBothWays : Graph Node where
  name := "C"
  classDecl := startsAtOne
  nodes :=
    [(⟨1⟩, .invoke (ownCall "Use" [.output ⟨2⟩ 0]) none),
      (⟨2⟩, .member (.output ⟨3⟩ 0)),
      (⟨3⟩, .member (.output ⟨2⟩ 0))]

/-- The pass tells of the cycle of outputs. -/
theorem readsBothWays_cycle :
    ∃ e id, (generate [readsBothWays] {} .lastFirst).1 = .error e ∧ e.root = .valueCycle id ∧
      ∃ graph ∈ [readsBothWays], ∃ gen, Generation.start graph {} = .ok gen ∧ ∃ node,
        Relation.TransGen gen.env.table.Reads node node ∨ gen.env.table.Detour node node := by
  have hfails : (generate [readsBothWays] {} .lastFirst).1.map (·.diagnostics) =
      .error (.atNode ⟨1⟩ "Start" (.valueCycle ⟨2⟩)) := by decide +kernel
  rcases hrun : (generate [readsBothWays] {} .lastFirst).1 with e | output <;> rw [hrun] at hfails <;>
    cases hfails
  refine ⟨_, ⟨2⟩, rfl, rfl, value_cycle_among_links ?_ (.inl ⟨_, hrun, rfl⟩)⟩
  have hall : ∀ x ∈ readsBothWays.nodes, x.2.lambdaBody = none := by decide
  exact List.forall_mem_singleton.2 fun id n hn => hall _ (Graph.mem_of_get? hn)

/-- Two branches on whether a unit is running. The unit starts with a wait and leads to the second
branch. -/
def branchesOnUnit : Graph Node where
  name := "C"
  classDecl := startsAtOne
  nodes :=
    [(⟨1⟩, .branch (.output ⟨2⟩ 0) none none none),
      (⟨2⟩, .unitStatus (some ⟨3⟩) .isRunning),
      (⟨3⟩, .wait .unassigned (some ⟨4⟩)),
      (⟨4⟩, .branch (.output ⟨2⟩ 0) none none none)]

/-- A value cycle is told of, although only the two branches read an output, which is no cycle. -/
theorem branchesOnUnit_cycle_without_outputs :
    (generate [branchesOnUnit] {} .lastFirst).1.map (·.diagnostics) =
      .error (.atNode ⟨4⟩ "Start" (.valueCycle ⟨2⟩)) ∧
    ∃ table, Connectivity.build branchesOnUnit false = .ok table ∧
      ∀ node, ¬ Relation.TransGen table.Reads node node := by
  have hvalues : (Connectivity.build branchesOnUnit false).map (fun table =>
      decide (∀ l ∈ table.links, l.kind = .value → l.source = ⟨2⟩ ∧ l.target ≠ ⟨2⟩)) = .ok true := by
    decide +kernel
  rcases hbuild : Connectivity.build branchesOnUnit false with e | table <;> rw [hbuild] at hvalues
  · cases hvalues
  have hvalues := of_decide_eq_true (Except.ok.inj hvalues)
  refine ⟨by decide +kernel, table, rfl, fun node hcycle => ?_⟩
  obtain ⟨_, hfirst, _⟩ := Relation.TransGen.head'_iff.1 hcycle
  obtain ⟨_, _, hlast⟩ := Relation.TransGen.tail'_iff.1 hcycle
  exact (hvalues _ hfirst rfl).2 (hvalues _ hlast rfl).1

end FlowClass
