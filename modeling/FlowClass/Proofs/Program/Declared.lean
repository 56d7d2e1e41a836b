import FlowClass.Proofs.Program.Declaring

/-!
# What declarations leave behind

Before bodies are emitted, every method of the class stands for a declaration, and every body that
an entry point can fill belongs to that entry point alone (`Declared`). Each step of the preparation
keeps this (`Declared.step`), so the body of an entry point says which one it is
(`Declared.entryPoint_eq`).
-/

namespace FlowClass

open List SymbolTable Emit

variable {e : EntryPoint} {body : BodyId} {c : ClassDecl} {s' : State} {e' : EntryPoint}

/-- The bodies that entry points can fill. -/
def State.entryBodies (s : State) : List BodyId :=
  s.symbols.declBodies.map Prod.snd ++ s.accessors.map Prod.snd

/-- Only declarations were entered, each body for one of them. -/
structure Declared (c : ClassDecl) (s : State) : Prop where
  tidy : s.Tidy
  keys : ∀ k ∈ s.symbols.methodKeys, ∃ decl, k.1 = SymbolKey.decl decl
  bases : ∀ m ∈ s.symbols.methods, m.base ∈ c.methodNames
  distinct : s.entryBodies.Nodup
  inside : ∀ body ∈ s.entryBodies, body.index < s.symbols.bodies.length

/-- The name of a method is generated, or that of another with the same base. -/
theorem State.Tidy.isName_methodName {s : State} (h : s.Tidy) (base : String) :
    isName (s.symbols.methodName s.names base).1 = true := by
  unfold methodName
  split
  · rename_i m hm
    exact h.2.1 m (mem_of_find?_eq_some hm)
  · exact s.names.isName_generate base

theorem aliases_methodName (t : SymbolTable) (names : Names) (base : String) :
    (t.methodName names base).2.aliases = names.aliases := by
  unfold methodName
  split
  · rfl
  · exact names.aliases_generate base

theorem State.Tidy.registerMethod {s : State} (h : s.Tidy) {key : SymbolKey} {m : MethodSymbol}
    {handle : MethodHandle} {symbols : SymbolTable} {names : Names}
    (hrun : s.symbols.registerMethod s.names (some key) m = .ok (handle, symbols, names)) :
    State.Tidy { s with symbols, names } := by
  obtain ⟨_, rfl, rfl⟩ | ⟨_, _, _, _, rfl, rfl⟩ | ⟨_, hadded⟩ := registerMethod_ok hrun
  · exact h
  · exact h
  · rw [addMethod_eq] at hadded
    cases hadded
    have hname := h.isName_methodName m.base
    obtain ⟨hvars, hmethods, hdecls, hparams, haliases⟩ := h
    refine ⟨hvars, forall_mem_append.2 ⟨hmethods, forall_mem_singleton.2 hname⟩,
      forall_mem_append.2 ⟨fun d hd => ?_, hdecls⟩, hparams, ?_⟩
    · obtain ⟨_, _, rfl⟩ := mem_map.1 hd
      exact hname
    · rw [aliases_methodName]
      exact haliases

namespace Declared

variable {c : ClassDecl} {s : State}

theorem ofSame (h : Declared c s) (htidy : s'.Tidy)
    (hkeys : s'.symbols.methodKeys = s.symbols.methodKeys)
    (hmethods : s'.symbols.methods = s.symbols.methods) (hbodies : s'.entryBodies = s.entryBodies)
    (hlength : s'.symbols.bodies.length = s.symbols.bodies.length) : Declared c s' where
  tidy := htidy
  keys := hkeys ▸ h.keys
  bases := hmethods ▸ h.bases
  distinct := hbodies ▸ h.distinct
  inside := by
    rw [hbodies, hlength]
    exact h.inside

theorem fresh (h : Declared c s) : ⟨s.symbols.bodies.length⟩ ∉ s.entryBodies :=
  fun hmem => Nat.lt_irrefl _ (h.inside _ hmem)

/-- A body is made for an entry point. -/
theorem addBody (h : Declared c s) (htidy : s'.Tidy)
    (hkeys : ∀ k ∈ s'.symbols.methodKeys, ∃ decl, k.1 = SymbolKey.decl decl)
    (hbases : ∀ m ∈ s'.symbols.methods, m.base ∈ c.methodNames)
    (hbodies : s'.entryBodies.Perm (⟨s.symbols.bodies.length⟩ :: s.entryBodies))
    (hlength : s'.symbols.bodies.length = s.symbols.bodies.length + 1) : Declared c s' where
  tidy := htidy
  keys := hkeys
  bases := hbases
  distinct := hbodies.nodup_iff.2 (nodup_cons.2 ⟨h.fresh, h.distinct⟩)
  inside body hbody := by
    rw [hlength]
    rcases mem_cons.1 (hbodies.subset hbody) with rfl | hbody
    · exact Nat.lt_succ_self _
    · exact Nat.lt_succ_of_lt (h.inside body hbody)

/-! ## Steps -/

theorem registerVariable (h : Declared c s) (v : VariableSymbol) :
    Declared c (s.withVariable v) := by
  obtain ⟨hkeys, hmethods, hdecl, hbodies, _⟩ := s.symbols.registerVariable_same s.names v
  exact h.ofSame (h.tidy.registerVariable v) hkeys hmethods
    (congrArg (fun l => l.map Prod.snd ++ s.accessors.map Prod.snd) hdecl)
    (congrArg List.length hbodies)

theorem registerMethod (h : Declared c s) {id : DeclId} {m : MethodSymbol}
    (hbase : m.base ∈ c.methodNames) {handle : MethodHandle} {symbols : SymbolTable} {names : Names}
    (hrun : s.symbols.registerMethod s.names (some (.decl id)) m = .ok (handle, symbols, names)) :
    Declared c { s with symbols, names } := by
  obtain ⟨_, rfl, rfl⟩ | ⟨_, _, _, _, rfl, rfl⟩ | ⟨_, hadded⟩ := registerMethod_ok hrun
  · exact h
  · exact { h with keys := forall_mem_cons.2 ⟨⟨id, rfl⟩, h.keys⟩ }
  · have htidy := h.tidy.registerMethod hrun
    rw [addMethod_eq] at hadded
    cases hadded
    exact h.addBody htidy (forall_mem_cons.2 ⟨⟨id, rfl⟩, h.keys⟩)
      (forall_mem_append.2 ⟨h.bases, forall_mem_singleton.2 hbase⟩) (List.Perm.refl _) (by simp)

/-- A property is entered with the bodies of its accessors. -/
theorem withProperty (h : Declared c s) (p : PropertyDecl) : Declared c (s.withProperty p) := by
  obtain ⟨hvars, hmethods, hdecls, hparams, haliases⟩ := h.tidy.generate p.name
  have htidy : (s.withProperty p).Tidy :=
    ⟨hvars, hmethods, forall_mem_cons.2 ⟨s.names.isName_generate p.name, hdecls⟩, hparams,
      haliases⟩
  unfold State.withProperty at htidy ⊢
  cases hgetter : p.getter with
  | none =>
    rw [hgetter] at htidy
    cases hsetter : p.setter with
    | none =>
      rw [hsetter] at htidy
      exact h.ofSame htidy rfl rfl rfl (by simp)
    | some _ =>
      rw [hsetter] at htidy
      exact h.addBody htidy h.keys h.bases perm_middle (by simp)
  | some _ =>
    rw [hgetter] at htidy
    cases hsetter : p.setter with
    | none =>
      rw [hsetter] at htidy
      exact h.addBody htidy h.keys h.bases perm_middle (by simp)
    | some _ =>
      rw [hsetter] at htidy
      have hfirst : Declared c { s with
          symbols := { s.symbols with bodies := s.symbols.bodies ++ [{}] }
          accessors := ((p.id, .getter), ⟨s.symbols.bodies.length⟩) :: s.accessors } :=
        h.addBody h.tidy h.keys h.bases perm_middle (by simp)
      refine hfirst.addBody htidy h.keys h.bases ?_ (by simp)
      rw [length_append]
      exact perm_middle

/-- Each step of the preparation keeps this. -/
theorem step (h : Declared c s) (hstep : Declaring c s s') : Declared c s' := by
  cases hstep with
  | param owner index p =>
    have hname := h.tidy.isName_nameFor (.param owner index) p.name
    obtain ⟨hvars, hmethods, hdecls, hparams, haliases⟩ := h.tidy.nameFor (.param owner index) p.name
    exact h.ofSame
      ⟨hvars, hmethods, hdecls, forall_mem_cons.2 ⟨hname, hparams⟩, haliases⟩ rfl rfl rfl rfl
  | method hdecl hnew hbase hstatic hrun => exact h.registerMethod hbase hrun
  | property hp hnew => exact h.withProperty _
  | constructor hk hnew params =>
    exact h.addBody h.tidy h.keys h.bases (List.Perm.refl _)
      (by simp [registerConstructor, newBody])
  | classify classifier => exact h.ofSame h.tidy rfl rfl rfl rfl
  | _ => exact h.registerVariable _

end Declared

/-! ## Entry points -/

/-- The declaration of an entry point names its node. -/
def ClassDecl.StartsAt (c : ClassDecl) (e : EntryPoint) : Prop :=
  match e.kind with
  | .function => ∃ f ∈ c.functions, f.id = e.owner ∧ f.entry = some e.node
  | .getter => ∃ p ∈ c.properties, p.id = e.owner ∧ p.getter = some e.node
  | .setter => ∃ p ∈ c.properties, p.id = e.owner ∧ p.setter = some e.node
  | .constructor => ∃ k ∈ c.constructors, k.id = e.owner ∧ k.entry = some e.node
  | .event => ∃ v ∈ c.events, v.id = e.owner ∧ v.entry = some e.node

theorem ClassDecl.startsAt_of_mem (he : e ∈ c.entryPoints) : c.StartsAt e := by
  simp only [entryPoints, PropertyDecl.entryPoints, mem_append, mem_flatMap] at he
  obtain ((⟨d, hd, he⟩ | ⟨d, hd, he | he⟩) | ⟨d, hd, he⟩) | ⟨d, hd, he⟩ := he
  all_goals
    obtain ⟨node, hnode, rfl⟩ := mem_map.1 he
    exact ⟨d, hd, rfl, Option.mem_toList.1 hnode⟩

/-- Members of a list whose identities differ are told apart by them. -/
theorem node_eq {α : Type} {l : List α} {id : α → DeclId} {entry : α → Option NodeId}
    (hnodup : (l.map id).Nodup) {owner owner' : DeclId} {node node' : NodeId}
    (howner : owner = owner') (h : ∃ d ∈ l, id d = owner ∧ entry d = some node)
    (h' : ∃ d ∈ l, id d = owner' ∧ entry d = some node') : node = node' := by
  obtain ⟨d, hd, rfl, hnode⟩ := h
  obtain ⟨d', hd', rfl, hnode'⟩ := h'
  obtain rfl := inj_on_of_nodup_map hnodup hd hd' howner
  exact Option.some.inj (hnode.symm.trans hnode')

/-- Entry points are told apart by their declarations and kinds. -/
theorem ClassDecl.entryPoint_eq (hnodup : c.declIds.Nodup) (he : e ∈ c.entryPoints)
    (he' : e' ∈ c.entryPoints) (howner : e.owner = e'.owner) (hkind : e.kind = e'.kind) :
    e = e' := by
  unfold declIds at hnodup
  simp only [nodup_append] at hnodup
  obtain ⟨⟨⟨⟨_, hfunctions, _⟩, hproperties, _⟩, hconstructors, _⟩, hevents, _⟩ := hnodup
  have hfunctions := hfunctions.sublist (FunctionDecl.ids_sublist c.functions)
  have hstart := startsAt_of_mem he
  have hstart' := startsAt_of_mem he'
  obtain ⟨owner, kind, node⟩ := e
  obtain ⟨owner', kind', node'⟩ := e'
  obtain rfl : kind = kind' := hkind
  obtain rfl : owner = owner' := howner
  congr
  cases kind with
  | function => exact node_eq hfunctions rfl hstart hstart'
  | getter | setter => exact node_eq hproperties rfl hstart hstart'
  | constructor => exact node_eq hconstructors rfl hstart hstart'
  | event => exact node_eq hevents rfl hstart hstart'

namespace Declared

variable {c : ClassDecl} {s : State}

/-- The body of an entry point is that of an accessor or of a declaration. -/
theorem mem_of_entryBody (h : entryBody? s e = some body) :
    ((e.kind = .getter ∨ e.kind = .setter) ∧ ((e.owner, e.kind), body) ∈ s.accessors) ∨
      ¬(e.kind = .getter ∨ e.kind = .setter) ∧ (e.owner, body) ∈ s.symbols.declBodies := by
  unfold entryBody? at h
  cases hkind : e.kind with
  | getter => rw [hkind] at h; exact .inl ⟨.inl rfl, mem_of_lookup h⟩
  | setter => rw [hkind] at h; exact .inl ⟨.inr rfl, mem_of_lookup h⟩
  | _ => rw [hkind] at h; exact .inr ⟨by simp, mem_of_lookup h⟩

theorem entryBody_lt (h : Declared c s) (hbody : entryBody? s e = some body) :
    body.index < s.symbols.bodies.length := by
  refine h.inside body (mem_append.2 ?_)
  obtain ⟨_, hmem⟩ | ⟨_, hmem⟩ := mem_of_entryBody hbody
  · exact .inr (mem_map_of_mem hmem)
  · exact .inl (mem_map_of_mem hmem)

/-- A declaration has one entry point of each kind that fits. -/
theorem kind_eq {body' : BodyId} {decl : Decl} {place place' : Place}
    (h : entryPlace? c e body decl = some place)
    (h' : entryPlace? c e' body' decl = some place')
    (hkind : ¬(e.kind = .getter ∨ e.kind = .setter))
    (hkind' : ¬(e'.kind = .getter ∨ e'.kind = .setter)) : e.kind = e'.kind := by
  obtain ⟨owner, kind, node⟩ := e
  obtain ⟨owner', kind', node'⟩ := e'
  cases decl <;> cases kind <;> cases kind' <;> simp_all [entryPlace?]

/-- Entry points that fill the same body are the same. -/
theorem entryPoint_eq (h : Declared c s) (hnodup : c.declIds.Nodup) (he : e ∈ c.entryPoints)
    (he' : e' ∈ c.entryPoints) {decl decl' : Decl} {place place' : Place}
    (hbody : entryBody? s e = some body) (hbody' : entryBody? s e' = some body)
    (hdecl : c.get e.owner = .ok decl) (hdecl' : c.get e'.owner = .ok decl')
    (hplace : entryPlace? c e body decl = some place)
    (hplace' : entryPlace? c e' body decl' = some place') : e = e' := by
  have hdistinct := h.distinct
  unfold State.entryBodies at hdistinct
  obtain ⟨hdecls, haccessors, hapart⟩ := nodup_append.1 hdistinct
  obtain ⟨hkind, hmem⟩ | ⟨hkind, hmem⟩ := mem_of_entryBody hbody <;>
    obtain ⟨hkind', hmem'⟩ | ⟨hkind', hmem'⟩ := mem_of_entryBody hbody'
  · have hsame := inj_on_of_nodup_map haccessors hmem hmem' rfl
    simp only [Prod.mk.injEq, and_true] at hsame
    exact ClassDecl.entryPoint_eq hnodup he he' hsame.1 hsame.2
  · exact absurd rfl (hapart _ (mem_map_of_mem hmem') _ (mem_map_of_mem hmem))
  · exact absurd rfl (hapart _ (mem_map_of_mem hmem) _ (mem_map_of_mem hmem'))
  · have hsame := inj_on_of_nodup_map hdecls hmem hmem' rfl
    simp only [Prod.mk.injEq, and_true] at hsame
    rw [hsame, hdecl'] at hdecl
    cases hdecl
    exact ClassDecl.entryPoint_eq hnodup he he' hsame (kind_eq hplace hplace' hkind hkind')

end Declared

theorem Declared.reserved (env : Env Node) :
    Declared env.graph.classDecl (reserved env (State.initial env)) where
  tidy := by simp [State.Tidy, Emit.reserved, Names.reserve, State.initial, newBody]
  keys := by simp [Emit.reserved, State.initial, newBody]
  bases := by simp [Emit.reserved, State.initial, newBody]
  distinct := by simp [State.entryBodies, Emit.reserved, State.initial, newBody]
  inside := by simp [State.entryBodies, Emit.reserved, State.initial, newBody]

/-- What a preparation that succeeds leaves behind. -/
theorem Declared.prepared {env : Env Node} (hids : env.graph.classDecl.declIds.Nodup) {s : State}
    (hrun : prepare env (State.initial env) = (.ok (), s)) :
    Declared env.graph.classDecl s := by
  have hsteps := (exists_declaring hids hrun).steps
  clear hrun
  induction hsteps with
  | refl => exact Declared.reserved env
  | tail _ hstep ih => exact ih.step hstep

end FlowClass
