import FlowClass.Assembly
import FlowClass.Proofs.Program.EntryBodies
import FlowClass.Proofs.Program.Members

/-!
# Identifiers do not collide

Variables, properties, methods, parameters, loop bindings, temporaries and the methods that read and
write variables by name all get their names from one supply. Overloads share a name on purpose, and
the class, the dispatcher and the runtime object have names that nobody chooses.

`Named` says that each name was given out once and that none of the fixed ones was; each step of the
preparation keeps it (`Named.declaring`), and so does each move (`Named.moves`). So all identifiers of
a class differ, as long as the class itself is not called like the dispatcher or the runtime object
(`identifiers_distinct`).
-/

namespace FlowClass

open List State Generation

/-- The name of a temporary. -/
def Event.temporary? : Event → Option String
  | .temporary name => some name
  | _ => none

def SymbolKey.isNode : SymbolKey → Bool
  | .node _ => true
  | _ => false

/-- The base names of methods with their emitted names, each once. -/
def SymbolTable.groups (t : SymbolTable) : List (String × String) :=
  (t.methods.map fun m => (m.base, m.name)).dedup

/-- The names that cannot be chosen. -/
def ClassDecl.fixedNames (c : ClassDecl) : List String :=
  [c.name, dispatcherName, runtimeProperty, runtimeField]

/-- The names of parameters, and those that nodes bind in loops and lambdas. -/
def State.bound (s : State) : List String :=
  s.params.map (fun p => p.2.1) ++ (s.names.aliases.filter fun a => a.1.1.isNode).map Prod.snd

/-- The two methods that get at variables by name. -/
def State.accessMethods (config : Config) (s : State) : List String :=
  if config.optimizeAccess then
    [(Assembly.accessorNames s.names).1, (Assembly.accessorNames s.names).2]
  else []

/-- The names that generation chose: of variables, properties, groups of overloads, parameters, what
nodes bind, temporaries, and the methods that get at variables by name. -/
def State.identifiers (config : Config) (s : State) : List String :=
  s.symbols.vars.map VariableSymbol.name ++ s.symbols.properties.map PropertySymbol.name ++
    s.symbols.groups.map Prod.snd ++ s.bound ++ s.journal.filterMap Event.temporary? ++
    s.accessMethods config

/-! ## Names given out -/

/-- Names were given out once each, and none of the fixed ones. -/
structure GivenOut (fixed given used : List String) : Prop where
  reserved : ∀ name ∈ fixed, name ∈ used
  taken : ∀ name ∈ given, name ∈ used
  apart : ∀ name ∈ given, name ∉ fixed
  distinct : given.Nodup

namespace GivenOut

variable {fixed given used : List String}

section

variable (h : GivenOut fixed given used)
include h

theorem perm {given' : List String} (hperm : given'.Perm given) : GivenOut fixed given' used where
  reserved := h.reserved
  taken name hname := h.taken name (hperm.subset hname)
  apart name hname := h.apart name (hperm.subset hname)
  distinct := hperm.nodup_iff.2 h.distinct

/-- A name that was not taken is given out. -/
theorem cons {name : String} (hnew : name ∉ used) :
    GivenOut fixed (name :: given) (name :: used) where
  reserved other hother := mem_cons_of_mem _ (h.reserved other hother)
  taken := forall_mem_cons.2 ⟨mem_cons_self,
    fun other hother => mem_cons_of_mem _ (h.taken other hother)⟩
  apart := forall_mem_cons.2 ⟨fun hfixed => hnew (h.reserved name hfixed), h.apart⟩
  distinct := nodup_cons.2 ⟨fun hgiven => hnew (h.taken name hgiven), h.distinct⟩

theorem subset {given' : List String} (hnodup : given'.Nodup)
    (hsubset : given' ⊆ given) : GivenOut fixed given' used where
  reserved := h.reserved
  taken name hname := h.taken name (hsubset hname)
  apart name hname := h.apart name (hsubset hname)
  distinct := hnodup

end

theorem generate {names : Names} (h : GivenOut fixed given names.used) (text : String) :
    GivenOut fixed ((names.generate text).1 :: given) (names.generate text).2.used := by
  rw [names.used_generate]
  exact h.cons (names.generate_not_mem text)

end GivenOut

/-- All names that were given out so far. -/
def State.given (s : State) : List String :=
  s.symbols.vars.map VariableSymbol.name ++ s.symbols.properties.map PropertySymbol.name ++
    s.symbols.groups.map Prod.snd ++ s.names.aliases.map Prod.snd ++
    s.journal.filterMap Event.temporary?

/-- What names are looked up in. -/
def State.naming (s : State) :=
  (s.given, s.names, s.params, s.symbols.methods)

/-- No name was given out twice, and overloads share theirs. -/
structure Named (fixed : List String) (s : State) : Prop where
  out : GivenOut fixed s.given s.names.used
  groups : ∀ m ∈ s.symbols.methods, ∀ m' ∈ s.symbols.methods, m.base = m'.base → m.name = m'.name
  signatures : (s.symbols.methods.map MethodSymbol.signature).Nodup
  params : ∀ p ∈ s.params, ∃ text, ((.param p.1.1 p.1.2, text), p.2.1) ∈ s.names.aliases

namespace Named

variable {fixed : List String} {s s' : State}

section

variable (h : Named fixed s)
include h

theorem same (hsame : s'.naming = s.naming) : Named fixed s' := by
  simp only [naming, Prod.mk.injEq] at hsame
  obtain ⟨hgiven, hnames, hparams, hmethods⟩ := hsame
  exact ⟨hgiven ▸ hnames ▸ h.out, hmethods ▸ h.groups, hmethods ▸ h.signatures,
    hparams ▸ hnames ▸ h.params⟩

/-- A new name is given out, and not to a method. -/
theorem add (text : String)
    (hused : s'.names.used = (s.names.generate text).2.used)
    (haliases : ∀ a ∈ s.names.aliases, a ∈ s'.names.aliases) (hparams : s'.params = s.params)
    (hmethods : s'.symbols.methods = s.symbols.methods)
    (hgiven : s'.given.Perm ((s.names.generate text).1 :: s.given)) : Named fixed s' where
  out := hused ▸ (h.out.generate text).perm hgiven
  groups := hmethods ▸ h.groups
  signatures := hmethods ▸ h.signatures
  params := by
    intro p hp
    obtain ⟨text, htext⟩ := h.params p (hparams ▸ hp)
    exact ⟨text, haliases _ htext⟩

/-- A name is given out for a text of an owner, unless the owner has one. -/
theorem nameFor (owner : SymbolKey) (text : String) :
    Named fixed { s with names := (s.names.nameFor owner text).2 } := by
  unfold Names.nameFor
  split
  · exact h
  · refine h.add text rfl (fun a ha => mem_cons_of_mem _ ?_) rfl rfl ?_
    · rwa [Names.aliases_generate]
    · refine perm_iff_count.2 fun a => ?_
      simp only [given, Names.aliases_generate, map_cons, count_append,
        count_cons]
      omega

theorem registerVariable (v : VariableSymbol) : Named fixed (s.withVariable v) := by
  unfold withVariable
  obtain hsame | ⟨declNames, hnew⟩ := s.symbols.registerVariable_cases s.names v
  · rw [hsame]
    exact h
  · rw [hnew]
    refine h.add v.name rfl (fun a ha => ?_) rfl rfl ?_
    · rwa [Names.aliases_generate]
    · simp [given, Names.aliases_generate, SymbolTable.groups]

/-- A temporary is named. -/
theorem temporary :
    Named fixed { s with
      names := (s.names.generate "temp").2
      journal := .temporary (s.names.generate "temp").1 :: s.journal } := by
  refine h.add "temp" rfl (fun a ha => ?_) rfl rfl ?_
  · rwa [Names.aliases_generate]
  · refine perm_iff_count.2 fun a => ?_
    simp only [given, Names.aliases_generate, Event.temporary?, filterMap_cons,
      count_append, count_cons]
    omega

end

/-! ## Methods -/

theorem perm_dedup_of_mem {α : Type} [DecidableEq α] {l : List α} {a : α} (h : a ∈ l) :
    (l ++ [a]).dedup.Perm l.dedup := by
  refine (perm_ext_iff_of_nodup (nodup_dedup _) (nodup_dedup _)).2 fun b => ?_
  rw [mem_dedup, mem_dedup, mem_append, mem_singleton]
  exact ⟨fun hb => hb.elim id fun hb => hb ▸ h, .inl⟩

theorem perm_dedup_of_not_mem {α : Type} [DecidableEq α] {l : List α} {a : α} (h : a ∉ l) :
    (l ++ [a]).dedup.Perm (a :: l.dedup) := by
  have hnodup : (a :: l.dedup).Nodup :=
    nodup_cons.2 ⟨fun hmem => h (mem_dedup.1 hmem), nodup_dedup l⟩
  refine (perm_ext_iff_of_nodup (nodup_dedup _) hnodup).2 fun b => ?_
  rw [mem_dedup, mem_cons, mem_dedup, mem_append, mem_singleton, or_comm]

/-- The names after some groups were added. -/
theorem perm_given (more : List (String × String)) (hvars : s'.symbols.vars = s.symbols.vars)
    (hproperties : s'.symbols.properties = s.symbols.properties)
    (hgroups : s'.symbols.groups.Perm (more ++ s.symbols.groups))
    (haliases : s'.names.aliases = s.names.aliases) (hjournal : s'.journal = s.journal) :
    s'.given.Perm (more.map Prod.snd ++ s.given) := by
  have hgroups := hgroups.map Prod.snd
  rw [map_append] at hgroups
  refine perm_iff_count.2 fun name => ?_
  have hcount := hgroups.count_eq name
  simp only [given, hvars, hproperties, haliases, hjournal, count_append] at hcount ⊢
  omega

section

variable (h : Named fixed s)
include h

/-- A method is entered under the name of its group. -/
theorem enter {entered : MethodSymbol}
    (hmethods : s'.symbols.methods = s.symbols.methods ++ [entered])
    (hnew : ∀ other ∈ s.symbols.methods, other.signature ≠ entered.signature)
    (hname : ∀ other ∈ s.symbols.methods, other.base = entered.base → other.name = entered.name)
    (hout : GivenOut fixed s'.given s'.names.used) (hparams : s'.params = s.params)
    (haliases : s'.names.aliases = s.names.aliases) : Named fixed s' where
  out := hout
  groups := by
    rw [hmethods]
    intro a ha b hb hbase
    rcases mem_append.1 ha with ha | ha <;> rcases mem_append.1 hb with hb | hb
    · exact h.groups a ha b hb hbase
    · cases mem_singleton.1 hb
      exact hname a ha hbase
    · cases mem_singleton.1 ha
      exact (hname b hb hbase.symm).symm
    · rw [mem_singleton.1 ha, mem_singleton.1 hb]
  signatures := by
    rw [hmethods, map_append, nodup_append]
    refine ⟨h.signatures, nodup_singleton _, ?_⟩
    rintro _ hold _ hentered rfl
    obtain ⟨other, hother, hsame⟩ := mem_map.1 hold
    exact hnew other hother (hsame.trans (mem_singleton.1 hentered))
  params := by
    rw [hparams, haliases]
    exact h.params

/-- A method shares the name of the methods with its base name, or gets a new one. -/
theorem addMethod (key : Option SymbolKey) {m : MethodSymbol}
    (hnew : ∀ other ∈ s.symbols.methods, other.signature ≠ m.signature) :
    Named fixed { s with
      symbols := (s.symbols.addMethod s.names key m).2.1
      names := (s.symbols.addMethod s.names key m).2.2 } := by
  rw [SymbolTable.addMethod_eq]
  cases hfind : s.symbols.methods.find? (·.base = m.base) with
  | some known =>
    have hknown : known.base = m.base := by simpa using find?_some hfind
    have hmem := mem_of_find?_eq_some hfind
    have hname : s.symbols.methodName s.names m.base = (known.name, s.names) := by
      rw [SymbolTable.methodName, hfind]
    rw [hname]
    refine h.enter rfl hnew (fun other hother hbase => ?_) (h.out.perm ?_) rfl rfl
    · exact h.groups other hother known hmem (hbase.trans hknown.symm)
    · refine perm_given [] rfl rfl ?_ rfl rfl
      have hgroup : (m.base, known.name) ∈ s.symbols.methods.map fun m => (m.base, m.name) :=
        mem_map.2 ⟨known, hmem, by rw [hknown]⟩
      simpa [SymbolTable.groups] using perm_dedup_of_mem hgroup
  | none =>
    have hnone (other : MethodSymbol) (hother : other ∈ s.symbols.methods) :
        other.base ≠ m.base := by simpa using find?_eq_none.1 hfind other hother
    have hname : s.symbols.methodName s.names m.base = s.names.generate m.base := by
      rw [SymbolTable.methodName, hfind]
    rw [hname]
    refine h.enter rfl hnew (fun other hother hbase => absurd hbase (hnone other hother))
      ((h.out.generate m.base).perm ?_) rfl (s.names.aliases_generate m.base)
    refine perm_given [(m.base, _)] rfl rfl ?_ (s.names.aliases_generate m.base) rfl
    have hgroup : (m.base, (s.names.generate m.base).1) ∉
        s.symbols.methods.map fun m => (m.base, m.name) := by
      intro hmem
      obtain ⟨other, hother, hsame⟩ := mem_map.1 hmem
      exact hnone other hother (congrArg Prod.fst hsame)
    simpa [SymbolTable.groups] using perm_dedup_of_not_mem hgroup

theorem registerMethod {key : Option SymbolKey} {m : MethodSymbol}
    {handle : MethodHandle} {symbols : SymbolTable} {names : Names}
    (hrun : s.symbols.registerMethod s.names key m = .ok (handle, symbols, names)) :
    Named fixed { s with symbols, names } := by
  obtain ⟨_, rfl, rfl⟩ | ⟨_, _, _, _, rfl, rfl⟩ | ⟨hnew, hadded⟩ := SymbolTable.registerMethod_ok hrun
  · exact h
  · cases key <;> exact h.same rfl
  · have hentered := h.addMethod key fun other hother hsame =>
      hnew other hother (congrArg Prod.fst hsame) (congrArg Prod.snd hsame)
    rwa [hadded] at hentered

/-! ## Steps -/

theorem spell (hstep : s.Spells s') : Named fixed s' := by
  cases hstep with
  | ownName id text => exact h.nameFor (.node id) text
  | temporary => exact h.temporary
  | ownVariable id name type => exact h.registerVariable _
  | mention huse =>
    obtain ⟨hsame, hnames⟩ := SymbolTable.useVariable_same huse
    replace hnames := congrArg (map Prod.snd) hnames
    simp only [SymbolTable.varNames, map_map, Function.comp_def] at hnames
    rw [hsame]
    refine h.same ?_
    simp only [naming, given, hnames]
    rfl
  | copy hparam hbody hother => exact (h.registerVariable _).same rfl
  | _ => exact h.same rfl

theorem param (owner : DeclId) (index : Nat) (p : ParamDecl) :
    Named fixed (s.withParam owner index p) := by
  have hnamed := h.nameFor (.param owner index) p.name
  refine { hnamed with params := forall_mem_cons.2 ⟨⟨p.name, ?_⟩, hnamed.params⟩ }
  exact s.names.mem_aliases_nameFor p.name (.param owner index)

theorem withProperty (p : PropertyDecl) : Named fixed (s.withProperty p) := by
  refine h.add p.name rfl (fun a ha => ?_) rfl rfl ?_
  · exact (s.names.aliases_generate p.name).symm ▸ ha
  · refine perm_iff_count.2 fun name => ?_
    simp only [State.given, State.withProperty, Names.aliases_generate, map_append,
      map_cons, map_nil, count_append, count_cons, count_nil,
      SymbolTable.groups]
    omega

theorem enterUnit (id : NodeId) : Named fixed (Emit.enterUnit id s) := by
  unfold Emit.enterUnit
  obtain ⟨u, _, hknown⟩ | ⟨_, hnew⟩ := s.units.register_cases s.symbols id
  · rw [hknown]
    exact h.same rfl
  · rw [hnew]
    exact h.same rfl

/-- Each step of the preparation keeps names apart. -/
theorem declaring {c : ClassDecl} (hstep : Declaring c s s') : Named fixed s' := by
  cases hstep with
  | param owner index p => exact h.param owner index p
  | method hdecl hnew hbase hstatic hrun => exact h.registerMethod hrun
  | property hp hnew => exact h.withProperty _
  | constructor hk hnew params | classify classifier => exact h.same rfl
  | _ => exact h.registerVariable _

/-- Each move keeps names apart. -/
theorem moves {env : Env Node} (hmoves : Moves env s s') : Named fixed s' := by
  induction hmoves with
  | refl s => exact h
  | trans _ _ ih ih' => exact ih' (ih h)
  | spell hstep => exact h.spell hstep
  | note s he =>
    refine h.same ?_
    rename_i e
    cases e with
    | temporary name => cases he
    | _ => rfl
  | nested type _ ih => exact (ih (h.same rfl)).same rfl
  | unit hstatic hbegin text _ ih => exact (ih ((h.enterUnit _).same rfl)).same rfl
  | shared hn hnew hmethod hm _ ih =>
    exact (ih ((h.registerMethod hmethod).same rfl)).same rfl
  | sharedLost s hn hmethod hlost => exact h.registerMethod hmethod
  | unitAgain s hstatic => exact (h.enterUnit _).same rfl
  | text hwrote _ ih => exact (ih h).same rfl
  | _ => exact h.same rfl

theorem filling {env : Env Node} (hstep : Filling env s s') : Named fixed s' := by
  cases hstep with
  | emitted he hbody hdecl hplace hmoves =>
    have hplaced (place : Place) : Named fixed { s with place } := h.same rfl
    exact ((hplaced _).moves hmoves).same rfl
  | text body text => exact h.same rfl

end

/-! ## A whole pass -/

theorem reserved (env : Env Node) :
    Named env.graph.classDecl.fixedNames (Emit.reserved env (initial env)) where
  out :=
    { reserved := by
        simp [ClassDecl.fixedNames, Emit.reserved, Names.reserve]
      taken := by
        simp [given, Emit.reserved, Names.reserve, initial, SymbolTable.newBody,
          SymbolTable.groups]
      apart := by
        simp [given, Emit.reserved, Names.reserve, initial, SymbolTable.newBody,
          SymbolTable.groups]
      distinct := by
        simp [given, Emit.reserved, Names.reserve, initial, SymbolTable.newBody,
          SymbolTable.groups] }
  groups := by simp [Emit.reserved, initial, SymbolTable.newBody]
  signatures := by simp [Emit.reserved, initial, SymbolTable.newBody]
  params := by simp [Emit.reserved, initial]

/-- Parameters and what nodes bind have names of their own. -/
theorem nodup_bound (h : Named fixed s) (hkeys : (s.params.map Prod.fst).Nodup) :
    s.bound.Nodup := by
  have haliases : (s.names.aliases.map Prod.snd).Nodup := by
    have hgiven := h.out.distinct
    simp only [given, nodup_append] at hgiven
    exact hgiven.1.2.1
  refine nodup_append.2 ⟨?_, ?_, ?_⟩
  · refine List.Nodup.map_on (fun p hp q hq hname => ?_) (List.Nodup.of_map _ hkeys)
    obtain ⟨text, hp'⟩ := h.params p hp
    obtain ⟨text', hq'⟩ := h.params q hq
    have hsame := inj_on_of_nodup_map haliases hp' hq' hname
    simp only [Prod.mk.injEq, SymbolKey.param.injEq] at hsame
    exact inj_on_of_nodup_map hkeys hp hq (Prod.ext hsame.1.1.1 hsame.1.1.2)
  · exact haliases.sublist (filter_sublist.map _)
  · rintro name hparam _ hnode rfl
    obtain ⟨p, hp, rfl⟩ := mem_map.1 hparam
    obtain ⟨a, ha, hname⟩ := mem_map.1 hnode
    obtain ⟨ha, hkey⟩ := mem_filter.1 ha
    obtain ⟨text, hp'⟩ := h.params p hp
    -- one name has one alias, and a parameter is no node
    rw [inj_on_of_nodup_map haliases ha hp' hname] at hkey
    cases hkey

/-- Methods with the same name are overloads of one base name. -/
theorem nodup_overloads (h : Named fixed s) :
    (s.symbols.methods.map fun m => (m.name, ParamSymbol.signature m.params)).Nodup := by
  have hgroups : (s.symbols.groups.map Prod.snd).Nodup := by
    have hgiven := h.out.distinct
    simp only [given, nodup_append] at hgiven
    exact hgiven.1.1.2.1
  have hmem (m : MethodSymbol) (hm : m ∈ s.symbols.methods) : (m.base, m.name) ∈ s.symbols.groups :=
    mem_dedup.2 (mem_map_of_mem hm)
  refine List.Nodup.map_on (fun m hm m' hm' hsame => ?_) (List.Nodup.of_map _ h.signatures)
  obtain ⟨hname, hparams⟩ := Prod.mk.inj hsame
  have hpair := inj_on_of_nodup_map hgroups (hmem m hm) (hmem m' hm') hname
  have hsignature : m.signature = m'.signature := Prod.ext (Prod.mk.inj hpair).1 hparams
  exact inj_on_of_nodup_map h.signatures hm hm' hsignature

theorem bound_subset (h : Named fixed s) : s.bound ⊆ s.names.aliases.map Prod.snd := by
  refine append_subset.2 ⟨fun name hname => ?_, map_subset _ (filter_subset_self _)⟩
  obtain ⟨p, hp, rfl⟩ := mem_map.1 hname
  obtain ⟨text, htext⟩ := h.params p hp
  exact mem_map_of_mem htext

/-- The identifiers were given out once each. -/
theorem givenOut_identifiers (h : Named fixed s) (hkeys : (s.params.map Prod.fst).Nodup)
    (config : Config) : ∃ used, GivenOut fixed (s.identifiers config) used := by
  have hbound := h.bound_subset
  have hchosen : GivenOut fixed (s.symbols.vars.map VariableSymbol.name ++
      s.symbols.properties.map PropertySymbol.name ++ s.symbols.groups.map Prod.snd ++ s.bound ++
      s.journal.filterMap Event.temporary?) s.names.used := by
    refine h.out.subset ?_ ?_
    · have hgiven := h.out.distinct
      simp only [given, nodup_append, mem_append] at hgiven ⊢
      obtain ⟨⟨hsymbols, _, hapart⟩, htemporaries, hapart'⟩ := hgiven
      refine ⟨⟨hsymbols, h.nodup_bound hkeys, fun a ha b hb => hapart a ha b (hbound hb)⟩,
        htemporaries, fun a ha => hapart' a (ha.imp_right fun hmem => hbound hmem)⟩
    · intro name hname
      simp only [given, mem_append] at hname ⊢
      exact hname.imp_left (Or.imp_right fun hmem => hbound hmem)
  unfold identifiers accessMethods
  split
  · have hboth := (hchosen.generate "GetVariable").generate "SetVariable"
    refine ⟨_, hboth.perm ?_⟩
    refine perm_iff_count.2 fun name => ?_
    simp only [Assembly.accessorNames, count_append, count_cons, count_nil]
    omega
  · rw [append_nil]
    exact ⟨_, hchosen⟩

end Named

/-- A pass that comes to assembly has given out each name once, and named each parameter. -/
theorem named_of_bodies {graph : Graph Node} {config : Config} {gen : Generation Node} {s : State}
    (hstart : start graph config = .ok gen)
    (hrun : Emit.bodies gen.env gen.state = (.ok (), s)) :
    Named graph.classDecl.fixedNames s ∧
      s.params.map Prod.fst = graph.classDecl.paramKeys.reverse := by
  rw [← (start_eq hstart).1]
  constructor
  · exact invariant hstart hrun (Named.reserved gen.env)
      (fun _ _ hstep hs => hs.declaring hstep) fun _ _ hstep hs => hs.filling hstep
  · obtain ⟨s₀, hprepare, hfillings⟩ := exists_fillings hstart hrun
    rw [(Filling.kept hfillings).params]
    exact (Emit.exists_declaring (nodup_declIds hstart) hprepare).params

/-- The fixed names differ unless the class is called like the dispatcher or the runtime object. -/
theorem ClassDecl.nodup_fixedNames (c : ClassDecl) :
    c.fixedNames.Nodup ↔ c.name ∉ [dispatcherName, runtimeProperty, runtimeField] := by
  have hothers : [dispatcherName, runtimeProperty, runtimeField].Nodup := by decide
  rw [fixedNames, nodup_cons, and_iff_left hothers]

/-- All names in a class that comes to assembly are different, if the class is not called like a
member that every class may get; and overloads have different signatures. -/
theorem identifiers_distinct {graph : Graph Node} {config : Config} {gen : Generation Node}
    {s : State} (hstart : Generation.start graph config = .ok gen)
    (hrun : Emit.bodies gen.env gen.state = (.ok (), s)) :
    ((graph.classDecl.fixedNames ++ s.identifiers config).Nodup ↔
      graph.classDecl.name ∉ [dispatcherName, runtimeProperty, runtimeField]) ∧
    s.params.map Prod.fst = graph.classDecl.paramKeys.reverse ∧
    (s.symbols.methods.map fun m => (m.name, ParamSymbol.signature m.params)).Nodup := by
  obtain ⟨hnamed, hkeys⟩ := named_of_bodies hstart hrun
  have hnodup : (s.params.map Prod.fst).Nodup := by
    rw [hkeys, List.nodup_reverse]
    exact ClassDecl.nodup_paramKeys (ClassDecl.nodup_declIds (Generation.validated hstart))
  obtain ⟨used, hout⟩ := hnamed.givenOut_identifiers hnodup config
  refine ⟨?_, hkeys, hnamed.nodup_overloads⟩
  rw [List.nodup_append, ← ClassDecl.nodup_fixedNames]
  refine and_iff_left ⟨hout.distinct, ?_⟩
  rintro name hfixed _ hname rfl
  exact hout.apart name hname hfixed

/-- Almost everything in this class is called `value`. -/
def namesakes : Graph Node where
  name := "C"
  classDecl :=
    { name := "C"
      fields := [{ id := ⟨1⟩, name := "value", type := .int }]
      functions :=
        [{ id := ⟨2⟩, name := "value", params := [{ name := "value", type := .int }]
           entry := some ⟨1⟩ },
          { id := ⟨3⟩, name := "value", params := [{ name := "value", type := .scalar .string }]
            entry := some ⟨3⟩ }] }
  nodes :=
    [(⟨1⟩, .forEach (.variable (.parameter ⟨2⟩ 0)) .int (some ⟨2⟩) none),
      (⟨2⟩, .invoke (.chain .self [Step.ofMethod "Take" .void
        [{ name := "value", type := .int, passing := .byRef }]
        [.chain .self [Step.ofProperty "Item" .int]]]) none),
      (⟨3⟩, .localVariable "value" .int .unassigned none)]

/-- The field, the overloads, their parameters and the local are told apart by numbers. -/
theorem namesakes_distinct : ∃ gen s,
    Generation.start namesakes { optimizeAccess := true } = .ok gen ∧
    Emit.bodies gen.env gen.state = (.ok (), s) ∧
    s.identifiers { optimizeAccess := true } = ["value", "item", "value4", "value2", "value3",
      "value1", "current", "temp", "GetVariable", "SetVariable"] ∧
    (namesakes.classDecl.fixedNames ++ s.identifiers { optimizeAccess := true }).Nodup ∧
    (s.symbols.methods.map fun m => (m.name, ParamSymbol.signature m.params)).Nodup := by
  obtain ⟨gen, s, hstart, hrun, hnames⟩ : Generation.EndsWith namesakes { optimizeAccess := true }
      fun _ s => s.identifiers { optimizeAccess := true } = ["value", "item", "value4", "value2",
        "value3", "value1", "current", "temp", "GetVariable", "SetVariable"] := by decide +kernel
  obtain ⟨hdistinct, _, hoverloads⟩ := identifiers_distinct hstart hrun
  exact ⟨gen, s, hstart, hrun, hnames, hdistinct.2 (by decide), hoverloads⟩

/-- A class that is called like the property that holds its runtime object. -/
def runtimeNamesake : Graph Node where
  name := "__rt"
  classDecl := { startsAtOne with name := "__rt" }
  nodes := [(⟨1⟩, .wait .unassigned none)]

/-- The class gets a property with its own name. -/
theorem runtimeNamesake_collides : ∃ gen s, Generation.start runtimeNamesake {} = .ok gen ∧
    Emit.bodies gen.env gen.state = (.ok (), s) ∧ s.runtimeUsed = true ∧
    ¬ (runtimeNamesake.classDecl.fixedNames ++ s.identifiers {}).Nodup := by
  decide +kernel

end FlowClass
