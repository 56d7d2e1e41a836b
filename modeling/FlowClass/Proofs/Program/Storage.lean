import FlowClass.Proofs.Program.Members
import FlowClass.Proofs.Symbol.Uses
import Mathlib.Data.List.Pairwise

/-!
# Where variables live

A variable that the class declares, or that a parameter is copied into, is a field from the start.
Any other has *homes*: the bodies that mention it, and the body of its function if it is a declared
local. It is a local of its home as long as there is only one, and a field as soon as there are two
(`Storage.Fits`), in whichever order the bodies come to mention it (`Generation.stored`).
-/

namespace FlowClass

open List SymbolTable SymbolKey State Option

variable {d : VariableDecl}

/-! ## Homes -/

/-- The body in which an event mentions a variable. -/
def Event.mentionOf? (handle : VariableHandle) : Event → Option BodyId
  | .mention other body => if other = handle then some body else none
  | _ => none

/-- The bodies that mention a variable, the latest first. -/
def State.mentions (s : State) (handle : VariableHandle) : List BodyId :=
  s.journal.filterMap (Event.mentionOf? handle)

/-- What the storage of variables depends on. -/
def State.variables (s : State) :=
  (s.mentions, s.symbols.vars, s.symbols.declBodies, s.symbols.methodKeys)

theorem State.mem_mentions {s : State} {handle : VariableHandle} {body : BodyId} :
    body ∈ s.mentions handle ↔ .mention handle body ∈ s.journal := by
  rw [mentions, mem_filterMap]
  constructor
  · rintro ⟨e, he, hbody⟩
    cases e with
    | mention other body' =>
      obtain ⟨rfl, hsame⟩ := ite_none_right_eq_some.1 hbody
      cases hsame
      exact he
    | _ => cases hbody
  · exact fun hmem => ⟨_, hmem, if_pos rfl⟩

/-- The function that a local belongs to. -/
def ClassDecl.functionOf? (c : ClassDecl) (id : DeclId) : Option FunctionDecl :=
  c.functions.find? fun f => f.locals.any fun d => d.id = id

/-- The function whose local a variable is. -/
def SymbolKey.functionOf? (c : ClassDecl) : SymbolKey → Option FunctionDecl
  | .decl id => c.functionOf? id
  | _ => none

/-- The variable is a field from the start. -/
def SymbolKey.isField (c : ClassDecl) : SymbolKey → Bool
  | .decl id => (c.functionOf? id).isNone
  | .param .. => true
  | .node _ => false

/-- The body of the function whose local a variable is. -/
def SymbolTable.ownHome (c : ClassDecl) (t : SymbolTable) (key : SymbolKey) : List BodyId :=
  ((key.functionOf? c).bind fun f => t.declBody? f.id).toList

/-- The bodies in which a variable has to be visible. -/
def State.homes (c : ClassDecl) (s : State) (handle : VariableHandle) (key : SymbolKey) :
    List BodyId :=
  s.mentions handle ++ s.symbols.ownHome c key

/-- The value that a local is declared with; that of other variables is of no interest. -/
def SymbolKey.Default (c : ClassDecl) (key : SymbolKey) (default : Option Literal) : Prop :=
  ∀ f ∈ c.functions, ∀ d ∈ f.locals, key = .decl d.id → default = d.default

/-- A field has the modifiers of its declaration, any other variable has none. -/
def SymbolKey.Modified (c : ClassDecl) (key : SymbolKey) (modifiers : Modifiers) : Prop :=
  (∀ d ∈ c.fields, key = .decl d.id → modifiers = d.modifiers) ∧
    ((∀ d ∈ c.fields, key ≠ .decl d.id) → modifiers = {})

section Locals

variable {c : ClassDecl} (hids : c.declIds.Nodup)
include hids

theorem ClassDecl.functionOf?_field (hd : d ∈ c.fields) : c.functionOf? d.id = none := by
  simp only [declIds, nodup_append] at hids
  refine find?_eq_none.2 fun f hf hany => ?_
  obtain ⟨e, he, hsame⟩ := any_eq_true.1 hany
  have hmem : d.id ∈ c.functions.flatMap FunctionDecl.ids :=
    mem_flatMap.2 ⟨f, hf, mem_cons_of_mem _
      (mem_map.2 ⟨e, he, of_decide_eq_true hsame⟩)⟩
  exact hids.1.1.1.2.2 _ (mem_map_of_mem hd) _ hmem rfl

theorem ClassDecl.functionOf?_local {f : FunctionDecl} (hf : f ∈ c.functions) (hd : d ∈ f.locals) :
    c.functionOf? d.id = some f := by
  have hnodup : (c.functions.flatMap FunctionDecl.ids).Nodup := by
    simp only [declIds, nodup_append] at hids
    exact hids.1.1.1.2.1
  have hlocal (g : FunctionDecl) : (g.locals.any fun e => e.id = d.id) = true → d.id ∈ g.ids := by
    intro hany
    obtain ⟨e, he, hsame⟩ := any_eq_true.1 hany
    exact mem_cons_of_mem _ (mem_map.2 ⟨e, he, of_decide_eq_true hsame⟩)
  have hany : (f.locals.any fun e => e.id = d.id) = true :=
    any_eq_true.2 ⟨d, hd, decide_eq_true rfl⟩
  obtain ⟨g, hg⟩ := isSome_iff_exists.1
    (find?_isSome.2 ⟨f, hf, hany⟩ : (c.functionOf? d.id).isSome = true)
  have hfound := find?_some hg
  have hg : c.functionOf? d.id = some g := hg
  rw [hg]
  -- two functions with one local would have it twice
  have hapart : c.functions.Pairwise fun g h => g.ids.Disjoint h.ids :=
    (nodup_flatMap.1 hnodup).2
  have hsymm : Std.Symm fun g h : FunctionDecl => g.ids.Disjoint h.ids := ⟨fun _ _ h => h.symm⟩
  by_contra hne
  have hne : g ≠ f := fun heq => hne (congrArg some heq)
  have hdisjoint := hapart.forall (mem_of_find?_eq_some hg) hf hne
  exact hdisjoint (hlocal g hfound) (hlocal f hany)

/-- Locals differ in their identities. -/
theorem SymbolKey.default_local {f : FunctionDecl} (hf : f ∈ c.functions) (hd : d ∈ f.locals) :
    (decl d.id).Default c d.default := by
  intro g hg e he hsame
  rw [decl.injEq] at hsame
  have hfunction := ClassDecl.functionOf?_local hids hf hd
  rw [hsame, ClassDecl.functionOf?_local hids hg he] at hfunction
  cases hfunction
  have hnodup : (c.functions.flatMap FunctionDecl.ids).Nodup := by
    simp only [ClassDecl.declIds, nodup_append] at hids
    exact hids.1.1.1.2.1
  have hlocals := (nodup_cons.1 ((nodup_flatMap.1 hnodup).1 _ hf)).2
  rw [inj_on_of_nodup_map hlocals hd he hsame]

theorem SymbolKey.Modified.field (hd : d ∈ c.fields) : (decl d.id).Modified c d.modifiers := by
  refine ⟨fun e he hsame => ?_, fun hnone => absurd rfl (hnone d hd)⟩
  simp only [ClassDecl.declIds, nodup_append] at hids
  rw [inj_on_of_nodup_map hids.1.1.1.1 hd he (decl.inj hsame)]

theorem SymbolKey.Modified.localOf {f : FunctionDecl} (hf : f ∈ c.functions) (hd : d ∈ f.locals) :
    (decl d.id).Modified c {} := by
  refine ⟨fun e he hsame => ?_, fun _ => rfl⟩
  have hsome := ClassDecl.functionOf?_local hids hf hd
  rw [decl.inj hsame, ClassDecl.functionOf?_field hids he] at hsome
  cases hsome

end Locals

/-! ## What storage says -/

/-- Variables live where their homes say. -/
structure Stored (c : ClassDecl) (s : State) : Prop where
  fields : ∀ v ∈ s.symbols.vars, v.key.isField c = true → v.storage = .field
  others : ∀ handle v, s.symbols.variableAt? handle = some v → v.key.isField c = false →
    v.storage.Fits (s.homes c handle v.key)
  known : ∀ handle, s.mentions handle ≠ [] → handle.index < s.symbols.vars.length
  entered : ∀ v ∈ s.symbols.vars, ∀ f, v.key.functionOf? c = some f → f.id ∈ s.symbols.owners
  modified : ∀ v ∈ s.symbols.vars, v.key.Modified c v.modifiers
  /-- A local keeps the value that it is declared with. -/
  defaults : ∀ v ∈ s.symbols.vars, v.key.Default c v.default

namespace Stored

variable {c : ClassDecl} {s s' : State}

section

variable (h : Stored c s)
include h

theorem same (hvars : s'.symbols.vars = s.symbols.vars)
    (hmentions : ∀ handle, s'.mentions handle = s.mentions handle)
    (hbodies : ∀ id ∈ s.symbols.owners, s'.symbols.declBody? id = s.symbols.declBody? id)
    (howners : s.symbols.owners ⊆ s'.symbols.owners) : Stored c s' where
  fields := hvars ▸ h.fields
  others handle v hv hkey := by
    rw [variableAt?, hvars] at hv
    have hhome : s'.symbols.ownHome c v.key = s.symbols.ownHome c v.key := by
      unfold ownHome
      cases hf : v.key.functionOf? c with
      | none => rfl
      | some f =>
        exact congrArg toList (hbodies _ (h.entered v (mem_of_getElem? hv) f hf))
    rw [homes, hmentions, hhome]
    exact h.others handle v hv hkey
  known handle := by
    rw [hmentions, hvars]
    exact h.known handle
  entered v hv f hf := howners (h.entered v (hvars ▸ hv) f hf)
  modified := hvars ▸ h.modified
  defaults := hvars ▸ h.defaults

theorem unchanged (hsame : s'.variables = s.variables) : Stored c s' := by
  simp only [State.variables, Prod.mk.injEq] at hsame
  obtain ⟨hmentions, hvars, hbodies, hkeys⟩ := hsame
  refine h.same hvars (congrFun hmentions) (fun id _ => ?_) ?_
  · rw [declBody?, declBody?, hbodies]
  · rw [owners, owners, hbodies, hkeys]
    exact Subset.refl _

/-- A new variable lives where its description says. -/
theorem registerVariable {v : VariableSymbol}
    (hfield : v.key.isField c = true → v.storage = .field)
    (hother : v.key.isField c = false → v.storage.Fits (s.symbols.ownHome c v.key))
    (hentered : ∀ f, v.key.functionOf? c = some f → f.id ∈ s.symbols.owners)
    (hmodified : v.key.Modified c v.modifiers)
    (hdefault : v.key.Default c v.default) : Stored c (s.withVariable v) := by
  unfold withVariable
  obtain hsame | ⟨declNames, hnew⟩ := s.symbols.registerVariable_cases s.names v
  · rw [hsame]
    exact h
  · rw [hnew]
    refine ⟨?_, fun handle w hw hkey => ?_, fun handle hmentions => ?_, ?_, ?_, ?_⟩
    · exact forall_mem_append.2 ⟨h.fields, forall_mem_singleton.2 hfield⟩
    · by_cases hindex : handle.index < s.symbols.vars.length
      · refine h.others handle w ?_ hkey
        rwa [variableAt?, getElem?_append_left hindex] at hw
      · have hmem : w ∈ [{ v with name := (s.names.generate v.name).1 }] := by
          rw [variableAt?, getElem?_append_right (Nat.le_of_not_lt hindex)] at hw
          exact mem_of_getElem? hw
        cases mem_singleton.1 hmem
        have hnone : s.mentions handle = [] := by_contra fun hsome => hindex (h.known handle hsome)
        refine (hother hkey).congr ?_
        change s.mentions handle ++ _ = _
        rw [hnone]
        rfl
    · have hlength := h.known handle hmentions
      simp only [length_append, length_singleton]
      omega
    · exact forall_mem_append.2 ⟨h.entered, forall_mem_singleton.2 hentered⟩
    · exact forall_mem_append.2 ⟨h.modified, forall_mem_singleton.2 hmodified⟩
    · exact forall_mem_append.2 ⟨h.defaults, forall_mem_singleton.2 hdefault⟩

theorem ownVariable (id : NodeId) (name : String) (type : Ty) :
    Stored c (s.withVariable { key := .node id, name, type }) :=
  h.registerVariable (fun hkey => by cases hkey) (fun _ => rfl) (fun _ hf => by cases hf)
    ⟨fun _ _ hkey => (by cases hkey), fun _ => rfl⟩ fun _ _ _ _ hkey => by cases hkey

/-- A body that mentions a variable is a home of it. -/
theorem mention {handle : VariableHandle} {name : String} {symbols : SymbolTable}
    (huse : s.symbols.useVariable handle s.place.body = some (name, symbols)) :
    Stored c { s with symbols, journal := .mention handle s.place.body :: s.journal } := by
  obtain ⟨v, hv, huse⟩ := map_eq_some_iff.1 huse
  cases huse
  -- the use may change where the one variable lives, and nothing else
  let used (v : VariableSymbol) : VariableSymbol :=
    { v with storage := v.storage.usedBy s.place.body }
  have hmem (w : VariableSymbol) (hw : w ∈ s.symbols.vars.modify handle.index used) :
      ∃ w₀ ∈ s.symbols.vars, w.key = w₀.key ∧ (w.modifiers, w.default) = (w₀.modifiers, w₀.default) ∧
        (w.storage = w₀.storage ∨ w.storage = w₀.storage.usedBy s.place.body) := by
    obtain ⟨i, hi⟩ := getElem?_of_mem hw
    rw [getElem?_modify] at hi
    obtain ⟨w₀, hw₀, rfl⟩ := map_eq_some_iff.1 hi
    refine ⟨w₀, mem_of_getElem? hw₀, ?_⟩
    split
    · exact ⟨rfl, rfl, .inr rfl⟩
    · exact ⟨rfl, rfl, .inl rfl⟩
  have hmentions (other : VariableHandle) :
      mentions
          { s with
            symbols := { s.symbols with vars := s.symbols.vars.modify handle.index used }
            journal := .mention handle s.place.body :: s.journal } other =
        if handle = other then s.place.body :: s.mentions other else s.mentions other := by
    unfold mentions
    split
    · rename_i hsame
      exact filterMap_cons_some (if_pos hsame)
    · rename_i hother
      exact filterMap_cons_none (if_neg hother)
  refine ⟨fun w hw hkey => ?_, fun other w hw hkey => ?_, fun other hother => ?_, fun w hw f hf => ?_,
    fun w hw => ?_, fun w hw => ?_⟩
  · obtain ⟨w₀, hw₀, hsame, _, hstorage⟩ := hmem w hw
    rw [h.fields w₀ hw₀ (hsame ▸ hkey)] at hstorage
    exact hstorage.elim id id
  · rw [variableAt?, getElem?_modify] at hw
    obtain ⟨w₀, hw₀, rfl⟩ := map_eq_some_iff.1 hw
    rw [homes, hmentions other]
    split at hkey
    · rename_i hsame
      have hsame : handle = other := congrArg VariableHandle.mk hsame
      rw [if_pos hsame, if_pos (congrArg VariableHandle.index hsame)]
      exact (h.others other w₀ hw₀ hkey).usedBy s.place.body
    · rename_i hother
      rw [if_neg fun hsame => hother (congrArg VariableHandle.index hsame), if_neg hother]
      exact h.others other w₀ hw₀ hkey
  · rw [length_modify]
    by_cases hsame : handle = other
    · rw [← hsame]
      exact (List.getElem?_eq_some_iff.1 hv).1
    · rw [hmentions other, if_neg hsame] at hother
      exact h.known other hother
  · obtain ⟨w₀, hw₀, hsame, _⟩ := hmem w hw
    exact h.entered w₀ hw₀ f (hsame ▸ hf)
  · obtain ⟨w₀, hw₀, hsame, hrest, _⟩ := hmem w hw
    rw [hsame, show w.modifiers = w₀.modifiers from congrArg Prod.fst hrest]
    exact h.modified w₀ hw₀
  · obtain ⟨w₀, hw₀, hsame, hrest, _⟩ := hmem w hw
    rw [hsame, show w.default = w₀.default from congrArg Prod.snd hrest]
    exact h.defaults w₀ hw₀

end

/-! ## Methods and constructors -/

/-- The body of an owner is not changed by what is entered for another declaration. -/
theorem declBody?_cons {t : SymbolTable} {id owner : DeclId} (body : BodyId)
    (hnew : id ∉ t.owners) (howner : owner ∈ t.owners) :
    ((id, body) :: t.declBodies).lookup owner = t.declBody? owner := by
  have hne : owner ≠ id := fun heq => hnew (heq ▸ howner)
  rw [lookup_cons_of_ne hne]
  rfl

theorem registerMethod (h : Stored c s) {key : SymbolKey} {m : MethodSymbol}
    {handle : MethodHandle} {symbols : SymbolTable} {names : Names}
    (hnew : ∀ id, key.decl? = some id → id ∉ s.symbols.owners)
    (hrun : s.symbols.registerMethod s.names (some key) m = .ok (handle, symbols, names)) :
    Stored c { s with symbols, names } := by
  refine h.same (registerMethod_same hrun).1 (fun _ => rfl) (fun owner howner => ?_) ?_
  · obtain hsame | hadded := declBodies_registerMethod hrun
    · exact congrArg (List.lookup owner) hsame
    · rw [declBody?, hadded]
      cases key with
      | decl id => exact declBody?_cons _ (hnew id rfl) howner
      | node id => rfl
      | param id index => rfl
  · exact owners_subset_registerMethod hrun

theorem registerConstructor (h : Stored c s) {id : DeclId} (hnew : id ∉ s.symbols.owners)
    (params : List ParamSymbol) (modifiers : Modifiers) :
    Stored c
      { s with symbols := (s.symbols.registerConstructor (some id) params modifiers).2 } :=
  h.same rfl (fun _ => rfl) (fun _ howner => declBody?_cons _ hnew howner)
    (subset_cons_self _ _)

theorem enterUnit (h : Stored c s) (id : NodeId) : Stored c (Emit.enterUnit id s) := by
  unfold Emit.enterUnit
  obtain ⟨u, _, hknown⟩ | ⟨_, hnew⟩ := s.units.register_cases s.symbols id
  · rw [hknown]
    exact h.unchanged rfl
  · rw [hnew]
    exact h.unchanged rfl

/-! ## Steps -/

theorem declaring (hids : c.declIds.Nodup) (h : Stored c s) (hstep : Declaring c s s') :
    Stored c s' := by
  cases hstep with
  | own id name type => exact h.ownVariable id name type
  | field hd hkey hstorage hmodifiers =>
    have hnone := ClassDecl.functionOf?_field hids hd
    refine h.registerVariable (fun _ => hstorage) (fun hother => ?_) (fun f hf => ?_)
      (hkey ▸ hmodifiers ▸ .field hids hd) fun f hf e he hsame => ?_
    · rw [hkey, isField, hnone] at hother
      cases hother
    · rw [hkey, functionOf?, hnone] at hf
      cases hf
    · rw [hkey, decl.injEq] at hsame
      rw [hsame, ClassDecl.functionOf?_local hids hf he] at hnone
      cases hnone
  | localOf hf hentered hd hkey hstorage hmodifiers hdefault =>
    have hsome := ClassDecl.functionOf?_local hids hf hd
    refine h.registerVariable (fun hfield => ?_) (fun _ => ?_) (fun g hg => ?_)
      (hkey ▸ hmodifiers ▸ .localOf hids hf hd) (hkey ▸ hdefault ▸ default_local hids hf hd)
    · rw [hkey, isField, hsome] at hfield
      cases hfield
    · rw [hstorage, hkey, ownHome, functionOf?, hsome, bind_some]
      cases s.symbols.declBody? _ with
      | none => rfl
      | some body => exact ⟨mem_singleton_self _, fun _ hhome => mem_singleton.1 hhome⟩
    · rw [hkey, functionOf?, hsome] at hg
      cases hg
      exact hentered
  | method hdecl hnew hbase hstatic hrun =>
    refine h.registerMethod (fun id hid => ?_) hrun
    cases hid
    exact hnew
  | constructor hk hnew params => exact h.registerConstructor hnew params _
  | _ => exact h.unchanged rfl

theorem spell (h : Stored c s) (hstep : s.Spells s') : Stored c s' := by
  cases hstep with
  | ownVariable id name type => exact h.ownVariable id name type
  | mention huse => exact h.mention huse
  | copy hparam hbody hother =>
    rename_i owner index name type body
    have hfield : Stored c
        (s.withVariable { key := .param owner index, name, type, storage := .field }) :=
      h.registerVariable (fun _ => rfl) (fun hkey => by cases hkey) (fun _ hf => by cases hf)
        ⟨fun _ _ hkey => (by cases hkey), fun _ => rfl⟩ fun _ _ _ _ hkey => by cases hkey
    exact hfield.unchanged rfl
  | _ => exact h.unchanged rfl

theorem moves {env : Env Node} (h : Stored c s) (hmoves : Moves env s s') : Stored c s' := by
  induction hmoves with
  | refl s => exact h
  | trans _ _ ih ih' => exact ih' (ih h)
  | spell hstep => exact h.spell hstep
  | note s he =>
    refine h.unchanged ?_
    rename_i e
    cases e with
    | mention other body => cases he
    | _ => rfl
  | nested type _ ih =>
    exact (ih (h.unchanged rfl)).unchanged rfl
  | unit hstatic hbegin text _ ih =>
    have hinner := ih ((h.enterUnit _).unchanged rfl)
    exact hinner.unchanged rfl
  | unitAgain s hstatic => exact (h.enterUnit _).unchanged rfl
  | shared hn hnew hmethod hm _ ih =>
    have hentered := h.registerMethod (fun _ hid => by cases hid) hmethod
    exact (ih (hentered.unchanged rfl)).unchanged rfl
  | sharedLost s hn hmethod hlost => exact h.registerMethod (fun _ hid => by cases hid) hmethod
  | text hwrote _ ih => exact (ih h).unchanged rfl
  | _ => exact h.unchanged rfl

theorem filling {env : Env Node} (h : Stored c s) (hstep : Filling env s s') : Stored c s' := by
  cases hstep with
  | emitted he hbody hdecl hplace hmoves =>
    have hplaced (place : Place) : Stored c { s with place } := h.unchanged rfl
    exact ((hplaced _).moves hmoves).unchanged rfl
  | text body text => exact h.unchanged rfl

theorem reserved (env : Env Node) :
    Stored env.graph.classDecl (Emit.reserved env (initial env)) := by
  constructor <;> simp [Emit.reserved, initial, newBody, variableAt?,
    mentions]

end Stored

/-- When all bodies are emitted, variables live where their homes say. -/
theorem Generation.stored {graph : Graph Node} {config : Config} {gen : Generation Node}
    {s : State} (hstart : start graph config = .ok gen)
    (hrun : Emit.bodies gen.env gen.state = (.ok (), s)) : Stored gen.env.graph.classDecl s :=
  invariant hstart hrun (Stored.reserved gen.env)
    (fun _ _ hstep hs => hs.declaring (nodup_declIds hstart) hstep)
    fun _ _ hstep hs => hs.filling hstep

end FlowClass
