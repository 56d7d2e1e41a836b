import FlowClass.Proofs.Program.Identifiers
import FlowClass.Proofs.Program.Registration
import FlowClass.Proofs.Symbol.Uses

/-!
# References to parameters

The body that a parameter belongs to writes it by its own name. Any other body writes a field, and the
parameter is copied into it before the text of its body (`State.Resolves`). All that this rests on only
grows in a pass (`State.Kept`), so it holds for every reference when the bodies are emitted.

A value that is assigned to the parameter is seen wherever it is written by the same name: in its body
if it was assigned there, and everywhere else if not (`parameter_references`).
-/

namespace FlowClass

open List State SymbolTable

variable {owner : DeclId} {index : Nat} {r : String × BodyId} {env : Env Node} {s s' : State}

/-- The name by which the parameter is written, and the body that this happens in. -/
def Event.parameter? (owner : DeclId) (index : Nat) : Event → Option (String × BodyId)
  | .parameter owner' index' name body =>
    if (owner', index') = (owner, index) then some (name, body) else none
  | _ => none

/-- The references to a parameter, the latest first. -/
def State.uses (s : State) (owner : DeclId) (index : Nat) : List (String × BodyId) :=
  s.journal.filterMap (Event.parameter? owner index)

/-- The reference has the parameter's own name in the parameter's body. In another body it has the
name of a field, and the copy is contributed to the parameter's body. -/
def State.Resolves (s : State) (owner : DeclId) (index : Nat) (r : String × BodyId) : Prop :=
  ∃ own type home, s.params.lookup (owner, index) = some (own, type) ∧
    s.symbols.declBody? owner = some home ∧
    if r.2 = home then r.1 = own else
      s.symbols.varNames.lookup (.param owner index) = some r.1 ∧
        ⟨Emit.copyPriority, r.1 ++ " = " ++ own ++ ";"⟩ ∈ s.symbols.added home

/-! ## References -/

theorem State.Resolves.kept (h : s.Resolves owner index r) (hs : s.Kept s') :
    s'.Resolves owner index r := by
  obtain ⟨own, type, home, hparam, hhome, hname⟩ := h
  refine ⟨own, type, home, hs.params ▸ hparam, ?_, ?_⟩
  · rw [declBody?, hs.declBodies]
    exact hhome
  · split at hname
    · rwa [if_pos ‹_›]
    · rw [if_neg ‹_›]
      obtain ⟨more, hmore⟩ := hs.varNames
      refine ⟨?_, hs.added home hname.2⟩
      rw [← hmore, lookup_append, hname.1]
      rfl

theorem SymbolTable.lookup_varNames (t : SymbolTable) (key : SymbolKey) :
    t.varNames.lookup key =
      ((t.variableHandle? key).bind t.variableAt?).map VariableSymbol.name := by
  have hfind : (t.variableHandle? key).bind t.variableAt? = t.vars.find? (·.key = key) := by
    rw [find?_eq_bind_findIdx?_getElem?, variableHandle?, Option.bind_map]
    rfl
  rw [hfind, varNames]
  induction t.vars with
  | nil => rfl
  | cons v vs ih =>
    by_cases hkey : v.key = key
    · simp [hkey]
    · rw [map_cons, lookup_cons_of_ne (Ne.symm hkey), ih, find?_cons_of_neg (by simpa using hkey)]

/-- A variable has the name that its handle leads to. -/
theorem SymbolTable.lookup_registerVariable (t : SymbolTable) (names : Names) (v : VariableSymbol)
    (default : String) : (t.registerVariable names v).2.1.varNames.lookup v.key =
      some ((((t.registerVariable names v).2.1.variableAt? (t.registerVariable names v).1).map
        VariableSymbol.name).getD default) := by
  have hkey := t.key_registerVariable names v
  rw [keys, getElem?_map] at hkey
  obtain ⟨entered, hentered, _⟩ := Option.map_eq_some_iff.1 hkey
  rw [lookup_varNames, variableHandle?_registerVariable, Option.bind_some, variableAt?, hentered]
  rfl

/-- Every body of a declaration is there. -/
def State.Inside (s : State) : Prop :=
  ∀ owner home, s.symbols.declBody? owner = some home → home.index < s.symbols.bodies.length

theorem State.Inside.kept (h : s.Inside) (hs : s.Kept s') : s'.Inside := by
  intro owner home hhome
  rw [declBody?, hs.declBodies] at hhome
  exact (h owner home hhome).trans_le hs.length

/-- The last reference, or one before it. -/
theorem mem_parameters {owner' : DeclId} {index' : Nat} {name : String} {body : BodyId}
    {journal : List Event} (hr : r ∈ (.parameter owner' index' name body :: journal).filterMap
      (Event.parameter? owner index)) :
    owner' = owner ∧ index' = index ∧ r = (name, body) ∨
      r ∈ journal.filterMap (Event.parameter? owner index) := by
  obtain ⟨e, he, hfound⟩ := mem_filterMap.1 hr
  obtain rfl | hold := mem_cons.1 he
  · obtain ⟨hsame, hname⟩ := Option.ite_none_right_eq_some.1 hfound
    cases hsame
    exact .inl ⟨rfl, rfl, (Option.some.inj hname).symm⟩
  · exact .inr (mem_filterMap.2 ⟨e, hold, hfound⟩)

theorem State.Spells.uses (hstep : s.Spells s') (hs : s.Inside) (hr : r ∈ s'.uses owner index) :
    r ∈ s.uses owner index ∨ s'.Resolves owner index r := by
  cases hstep with
  | copy hparam hhome hother =>
    rename_i owner' index' name type home
    have hlookup := lookup_registerVariable s.symbols s.names
      { key := .param owner' index', name, type, storage := .field } name
    have hsame := registerVariable_same s.symbols s.names
      { key := .param owner' index', name, type, storage := .field }
    unfold State.copied at hr ⊢
    generalize s.symbols.registerVariable s.names
      { key := .param owner' index', name, type, storage := .field } = entered at hr hlookup hsame ⊢
    obtain ⟨_, _, hhomes, hbodies, _⟩ := hsame
    obtain ⟨rfl, rfl, rfl⟩ | hold := mem_parameters hr
    · have hbelongs := (congrArg (List.lookup _) hhomes).trans hhome
      refine .inr ⟨name, type, home, hparam, hbelongs, ?_⟩
      rw [if_neg hother.symm]
      exact ⟨hlookup, mem_added_contribute _ _ (hbodies ▸ hs _ _ hhome)⟩
    · exact .inl hold
  | parameter hparam hhome =>
    obtain ⟨rfl, rfl, rfl⟩ | hold := mem_parameters hr
    · exact .inr ⟨_, _, _, hparam, hhome, if_pos rfl ▸ rfl⟩
    · exact .inl hold
  | _ => exact .inl hr

/-- A reference that is made is resolved. -/
theorem Moves.uses (hmoves : Moves env s s') (hs : s.Inside) (hr : r ∈ s'.uses owner index) :
    r ∈ s.uses owner index ∨ s'.Resolves owner index r := by
  induction hmoves with
  | trans hfirst hsecond ih ih' =>
    obtain hold | hnew := ih' (hs.kept hfirst.kept) hr
    · exact (ih hs hold).imp_right fun h => h.kept hsecond.kept
    · exact .inr hnew
  | spell hstep => exact hstep.uses hs hr
  | note s he =>
    rename_i e
    cases e with
    | parameter owner' index' name body => cases he
    | _ => exact .inl hr
  | nested type _ ih => exact ih hs hr
  | unit hstatic hbegin text _ ih =>
    rename_i id _ _ _
    have hentered := hs.kept (.enterUnit _ id)
    exact ih hentered hr
  | shared hn hnew hmethod hm _ ih =>
    have hentered := hs.kept (.registerMethod hmethod)
    exact ih hentered hr
  | text hwrote _ ih => exact (ih hs hr).imp_right fun h => h.kept (.giveText _ _ _)
  | _ => exact .inl hr

theorem Filling.uses (hstep : Filling env s s') (hs : s.Inside) (hr : r ∈ s'.uses owner index) :
    r ∈ s.uses owner index ∨ s'.Resolves owner index r := by
  cases hstep with
  | emitted he hbody hdecl hplace hmoves => exact hmoves.uses hs hr
  | text body text => exact .inl hr

/-- Every reference of a pass is resolved. -/
theorem Generation.resolved {graph : Graph Node} {config : Config} {gen : Generation Node}
    (hstart : start graph config = .ok gen) (hrun : Emit.bodies gen.env gen.state = (.ok (), s)) :
    ∀ r ∈ s.uses owner index, s.Resolves owner index r := by
  obtain ⟨s₀, hprepare, hfillings⟩ := exists_fillings hstart hrun
  have hdeclared := Declared.prepared (nodup_declIds hstart) hprepare
  have hledger := (prepared hstart ((start_eq hstart).2.2.2 ▸ hprepare)).ledger
  have hjournal : s₀.journal = [] := congrArg Ledger.journal hledger
  suffices hboth : s.Inside ∧ ∀ r ∈ s.uses owner index, s.Resolves owner index r from hboth.2
  clear hrun hprepare hledger
  induction hfillings with
  | refl =>
    refine ⟨fun owner home hhome => ?_, fun r hr => ?_⟩
    · exact hdeclared.entryBody_lt (e := ⟨owner, .function, ⟨0⟩⟩) hhome
    · rw [State.uses, hjournal] at hr
      cases hr
  | tail _ hstep ih =>
    have hkept := Filling.kept (.single hstep)
    refine ⟨ih.1.kept hkept, fun r hr => ?_⟩
    obtain hold | hnew := hstep.uses ih.1 hr
    · exact (ih.2 r hold).kept hkept
    · exact hnew

/-! ## Names -/

theorem State.Resolves.own (h : s.Resolves owner index r)
    (hhome : s.symbols.declBody? owner = some r.2) :
    (s.params.lookup (owner, index)).map Prod.fst = some r.1 := by
  obtain ⟨own, type, home, hparam, hbelongs, hname⟩ := h
  cases Option.some.inj (hbelongs.symm.trans hhome)
  rw [if_pos rfl] at hname
  rw [hparam, hname]
  rfl

theorem State.Resolves.field (h : s.Resolves owner index r)
    (hother : s.symbols.declBody? owner ≠ some r.2) :
    s.symbols.varNames.lookup (.param owner index) = some r.1 := by
  obtain ⟨own, type, home, hparam, hbelongs, hname⟩ := h
  have hne : r.2 ≠ home := fun heq => hother (heq ▸ hbelongs)
  rw [if_neg hne] at hname
  exact hname.1

/-- No field is called like a parameter. -/
theorem Named.param_ne_field {fixed : List String} (h : Named fixed s) {own field : String}
    {key : SymbolKey} (hparam : (s.params.lookup (owner, index)).map Prod.fst = some own)
    (hfield : s.symbols.varNames.lookup key = some field) : own ≠ field := by
  obtain ⟨p, hp, rfl⟩ := Option.map_eq_some_iff.1 hparam
  obtain ⟨text, halias⟩ := h.params _ (mem_of_lookup hp)
  obtain ⟨v, hv, hentry⟩ := mem_map.1 (mem_of_lookup hfield)
  have hgiven := h.out.distinct
  simp only [given, nodup_append, mem_append] at hgiven
  exact (hgiven.1.2.2 field (.inl (.inl (mem_map.2 ⟨v, hv, congrArg Prod.snd hentry⟩))) p.1
    (mem_map_of_mem halias)).symm

/-- Each reference is noted with the name that is written. -/
theorem Emit.mem_uses_parameter {index : UInt64} {name : String}
    (hrun : parameter owner index env s = (.ok name, s')) :
    (name, s.place.body) ∈ s'.uses owner index.toNat := by
  obtain ⟨_, _, hcase⟩ | ⟨_, _, _, _, _, ⟨hown, hcase⟩ | ⟨_, hcase⟩⟩ :=
    parameter_cases owner index s <;> rw [hcase] at hrun <;> cases hrun
  · exact hown ▸ mem_filterMap.2 ⟨_, mem_cons_self, if_pos rfl⟩
  · exact mem_filterMap.2 ⟨_, mem_cons_self, if_pos rfl⟩

/-- A parameter is noted by the name that it is written by. When all bodies are emitted it has its own
name in its own body, and in all others the name of one field, which its body copies it into first.
So all references have the same name exactly if all of them stand in its body, or none. -/
theorem parameter_references {graph : Graph Node} {config : Config} {gen : Generation Node}
    (hstart : Generation.start graph config = .ok gen)
    (hrun : Emit.bodies gen.env gen.state = (.ok (), s)) (owner : DeclId) (index : UInt64) :
    (∀ t name t', Emit.parameter owner index gen.env t = (.ok name, t') →
      (name, t.place.body) ∈ t'.uses owner index.toNat) ∧
    (∀ r ∈ s.uses owner index.toNat, s.Resolves owner index.toNat r) ∧
    ((∀ r ∈ s.uses owner index.toNat, ∀ r' ∈ s.uses owner index.toNat, r.1 = r'.1) ↔
      (∀ r ∈ s.uses owner index.toNat, s.symbols.declBody? owner = some r.2) ∨
        ∀ r ∈ s.uses owner index.toNat, s.symbols.declBody? owner ≠ some r.2) := by
  have hresolved (r : String × BodyId) (hr : r ∈ s.uses owner index.toNat) :=
    Generation.resolved hstart hrun r hr
  refine ⟨fun t name t' => Emit.mem_uses_parameter, hresolved, fun hsame => ?_, ?_⟩
  · by_contra! hsplit
    obtain ⟨⟨r, hr, hother⟩, r', hr', hhome⟩ := hsplit
    have hne := (named_of_bodies hstart hrun).1.param_ne_field ((hresolved r' hr').own hhome)
      ((hresolved r hr).field hother)
    exact hne (hsame r' hr' r hr)
  · rintro (hhome | hother) r hr r' hr'
    · have hname := (hresolved r hr).own (hhome r hr)
      exact Option.some.inj (hname.symm.trans ((hresolved r' hr').own (hhome r' hr')))
    · have hname := (hresolved r hr).field (hother r hr)
      exact Option.some.inj (hname.symm.trans ((hresolved r' hr').field (hother r' hr')))

/-- A parameter gets a new value and is passed on from there, after a branch. -/
def assignsParameter (otherwise : Option NodeId) : Graph Node where
  name := "C"
  classDecl :=
    { name := "C"
      functions := [{ id := ⟨1⟩, name := "F", params := [{ name := "p", type := .int }]
                      entry := some ⟨1⟩ }] }
  nodes :=
    [(⟨1⟩, .setValue (.variable (.parameter ⟨1⟩ 0)) (.literal (.integer 5 .int)) .assign (some ⟨2⟩)),
      (⟨2⟩, .branch (.literal (.bool true)) (some ⟨3⟩) otherwise none),
      (⟨3⟩, .invoke (.chain .self [Step.ofMethod "Use" .void
        [{ name := "value", type := .int }] [.variable (.parameter ⟨1⟩ 0)]]) none)]

/-- In one body the parameter has one name. -/
theorem assignsParameter_agrees : ∃ gen s,
    Generation.start (assignsParameter none) {} = .ok gen ∧
    Emit.bodies gen.env gen.state = (.ok (), s) ∧ (s.uses ⟨1⟩ 0).map Prod.fst = ["p", "p"] ∧
    ∀ r ∈ s.uses ⟨1⟩ 0, ∀ r' ∈ s.uses ⟨1⟩ 0, r.1 = r'.1 := by
  obtain ⟨gen, s, hstart, hrun, hnames, hhome⟩ : Generation.EndsWith (assignsParameter none) {}
      fun _ s => (s.uses ⟨1⟩ 0).map Prod.fst = ["p", "p"] ∧
        ∀ r ∈ s.uses ⟨1⟩ 0, s.symbols.declBody? ⟨1⟩ = some r.2 := by decide +kernel
  obtain ⟨_, _, hsame⟩ := parameter_references hstart hrun ⟨1⟩ 0
  exact ⟨gen, s, hstart, hrun, hnames, hsame.2 (.inl hhome)⟩

/-- The contributions to bodies, with their texts. -/
def State.code (s : State) : List (List String × Option String) :=
  s.symbols.bodies.map fun b => (b.contributions.map Contribution.text, b.text)

/-- A shared node is passed the value that the parameter had before the assignment. -/
theorem assignsParameter_lost : ∃ gen s,
    Generation.start (assignsParameter (some ⟨3⟩)) {} = .ok gen ∧
    Emit.bodies gen.env gen.state = (.ok (), s) ∧ (s.uses ⟨1⟩ 0).map Prod.fst = ["p1", "p"] ∧
    s.code = [([], none), (["p1 = p;"],
      some "p = 5;\nif (true) \x7b\n    Invoke_3();\n\x7d else \x7b\n    Invoke_3();\n\x7d"),
      ([], some "Use(p1);")] := by
  decide +kernel

end FlowClass
