import FlowClass.Proofs.Emission.Moves
import FlowClass.Proofs.Program.Declared

/-!
# Members and their bodies

Code is emitted into the bodies of methods, constructors, accessors and units. No two of them share a
body, and the body that belongs to a declaration is the body of a member that is static if the
declaration is (`Housed`). Preparation and emission only add members (`Builds`), so that a body, once
it is there, stays with its member to the end.
-/

namespace FlowClass

open List SymbolTable StateUnits

variable {handle : MethodHandle} {gen : Generation Node} {graph : Graph Node} {m : MethodSymbol}
  {s : State} {config : Config}

/-- The bodies of methods, constructors and accessors, and whether the member is static. -/
def SymbolTable.memberBodies (t : SymbolTable) : List (BodyId × Bool) :=
  t.methods.map (fun m => (m.body, m.modifiers.isStatic)) ++
    t.constructors.map (fun k => (k.body, k.modifiers.isStatic)) ++
    t.properties.flatMap fun p =>
      (p.getter.toList ++ p.setter.toList).map fun body => (body, p.modifiers.isStatic)

/-- All bodies that code is emitted into; a unit is never static. -/
def State.bodies (s : State) : List (BodyId × Bool) :=
  s.symbols.memberBodies ++ s.units.units.map fun u => (u.body, false)

theorem State.Frame.bodies_eq {s' : State} (h : s.Frame s') : s'.bodies = s.bodies := by
  rw [State.bodies, State.bodies, memberBodies, memberBodies, h.methods,
    h.constructors, h.properties, h.units]

theorem State.mem_bodies_method (h : s.symbols.method? handle = some m) :
    (m.body, m.modifiers.isStatic) ∈ s.bodies := by
  refine mem_append_left _ (mem_append_left _ (mem_append_left _ ?_))
  exact mem_map.2 ⟨m, mem_of_getElem? h, rfl⟩

theorem State.mem_bodies_begin {id : NodeId} {body : BodyId} {units : StateUnits}
    (h : s.units.begin id = some (body, units)) : (body, false) ∈ { s with units }.bodies := by
  obtain ⟨u, hu, _, rfl, rfl⟩ := begin_eq_some h
  refine mem_append_right _ (mem_map.2 ⟨_, mem_map_of_mem (get?_mem hu), ?_⟩)
  split <;> rfl

/-- The body belongs to a member as the declaration describes it. -/
def State.Houses (c : ClassDecl) (s : State) (id : DeclId) (body : BodyId) : Prop :=
  ∃ decl, c.get id = .ok decl ∧ (body, decl.isStatic) ∈ s.bodies

/-- Members have bodies of their own, and declarations the bodies of their members. -/
structure Housed (c : ClassDecl) (s : State) : Prop where
  distinct : (s.bodies.map Prod.fst).Nodup
  inside : ∀ b ∈ s.bodies, b.1.index < s.symbols.bodies.length
  decls : ∀ entry ∈ s.symbols.declBodies, s.Houses c entry.1 entry.2
  accessors : ∀ entry ∈ s.accessors, s.Houses c entry.1.1 entry.2

/-- Members are added, and none is lost. -/
structure Builds (c : ClassDecl) (s s' : State) : Prop where
  subset : s.bodies ⊆ s'.bodies
  housed : Housed c s → Housed c s'

namespace Builds

variable {c : ClassDecl} {s s' s'' : State}

theorem refl (c : ClassDecl) (s : State) : Builds c s s :=
  ⟨Subset.refl _, fun h => h⟩

theorem trans (h : Builds c s s') (h' : Builds c s' s'') : Builds c s s'' :=
  ⟨Subset.trans h.subset h'.subset, fun hs => h'.housed (h.housed hs)⟩

theorem same (hlength : s'.symbols.bodies.length = s.symbols.bodies.length)
    (hbodies : s'.bodies = s.bodies)
    (hdecls : s'.symbols.declBodies = s.symbols.declBodies)
    (haccessors : s'.accessors = s.accessors) : Builds c s s' := by
  refine ⟨hbodies ▸ Subset.refl _, fun h => ?_⟩
  have hhouses (id : DeclId) (body : BodyId) (hin : s.Houses c id body) : s'.Houses c id body := by
    rwa [State.Houses, hbodies]
  constructor
  · rw [hbodies]
    exact h.distinct
  · rw [hbodies, hlength]
    exact h.inside
  · rw [hdecls]
    exact fun entry hentry => hhouses _ _ (h.decls entry hentry)
  · rw [haccessors]
    exact fun entry hentry => hhouses _ _ (h.accessors entry hentry)

/-- What is known of the surroundings has no part in members. -/
theorem around (s : State) (place : Place) (shared : List (NodeId × (String × Ty)))
    (journal : List Event) : Builds c s { s with place, shared, journal } :=
  same rfl rfl rfl rfl

/-- New bodies are made, one after the other. -/
theorem grow (new : List (BodyId × Bool)) (hbodies : s'.bodies.Perm (new ++ s.bodies))
    (hnew : new.map (fun b => b.1.index) = List.range' s.symbols.bodies.length new.length)
    (hlength : s'.symbols.bodies.length = s.symbols.bodies.length + new.length)
    (hdecls : ∀ entry ∈ s'.symbols.declBodies,
      entry ∈ s.symbols.declBodies ∨ s'.Houses c entry.1 entry.2)
    (haccessors : ∀ entry ∈ s'.accessors, entry ∈ s.accessors ∨ s'.Houses c entry.1.1 entry.2) :
    Builds c s s' := by
  have hsubset : s.bodies ⊆ s'.bodies :=
    Subset.trans (subset_append_right _ _) hbodies.symm.subset
  have hhouses (id : DeclId) (body : BodyId) : s.Houses c id body → s'.Houses c id body :=
    fun ⟨decl, hdecl, hmem⟩ => ⟨decl, hdecl, hsubset hmem⟩
  have hrange (b : BodyId × Bool) (hb : b ∈ new) :
      s.symbols.bodies.length ≤ b.1.index ∧
        b.1.index < s.symbols.bodies.length + new.length := by
    have hindex : b.1.index ∈ new.map fun b => b.1.index := mem_map_of_mem hb
    rw [hnew, mem_range'_1] at hindex
    exact hindex
  refine ⟨hsubset, fun h => ⟨?_, fun b hb => ?_, fun entry hentry => ?_, fun entry hentry => ?_⟩⟩
  · refine (hbodies.map Prod.fst).nodup_iff.2 ?_
    rw [map_append, nodup_append]
    refine ⟨?_, h.distinct, ?_⟩
    · have hnodup : (new.map fun b => b.1.index).Nodup := hnew ▸ nodup_range' _
      exact List.Nodup.of_map BodyId.index (by rwa [map_map])
    · rintro _ hfresh _ hold rfl
      obtain ⟨b, hb, hsame⟩ := mem_map.1 hfresh
      obtain ⟨b', hb', hsame'⟩ := mem_map.1 hold
      have hlow := (hrange b hb).1
      have hhigh := h.inside b' hb'
      rw [hsame] at hlow
      rw [hsame'] at hhigh
      omega
  · rw [hlength]
    rcases mem_append.1 (hbodies.subset hb) with hb | hb
    · exact (hrange b hb).2
    · have hhigh := h.inside b hb
      omega
  · exact (hdecls entry hentry).elim (fun hold => hhouses _ _ (h.decls entry hold)) id
  · exact (haccessors entry hentry).elim (fun hold => hhouses _ _ (h.accessors entry hold)) id

/-! ## Operations -/

theorem frame (h : s.Frame s') : Builds c s s' := by
  refine same ?_ h.bodies_eq h.declBodies h.accessors
  have hlength := congrArg List.length h.bodyTexts
  rwa [length_map, length_map] at hlength

theorem registerVariable (s : State) (v : VariableSymbol) : Builds c s (s.withVariable v) := by
  obtain ⟨_, hmethods, hdecls, hbodies, hproperties, hconstructors⟩ :=
    s.symbols.registerVariable_same s.names v
  refine same (congrArg List.length hbodies) ?_ hdecls rfl
  rw [State.bodies, State.bodies, memberBodies, memberBodies, hmethods,
    hconstructors, hproperties]

/-- A method is known or entered, with a body that belongs to its declaration if it has one. -/
theorem registerMethod {key : Option SymbolKey} {symbols : SymbolTable} {names : Names}
    (hrun : s.symbols.registerMethod s.names key m = .ok (handle, symbols, names))
    (hdecl : ∀ id, key.bind SymbolKey.decl? = some id →
      ∃ decl, c.get id = .ok decl ∧ m.modifiers.isStatic = decl.isStatic) :
    Builds c s { s with symbols, names } := by
  obtain ⟨_, rfl, rfl⟩ | ⟨_, _, _, _, rfl, rfl⟩ | ⟨_, hadded⟩ := registerMethod_ok hrun
  · exact refl c s
  · cases key <;> exact same rfl rfl rfl rfl
  · rw [addMethod_eq] at hadded
    cases hadded
    refine grow [(⟨s.symbols.bodies.length⟩, m.modifiers.isStatic)] ?_ rfl (by simp) ?_
      fun _ hentry => .inl hentry
    · refine perm_iff_count.2 fun b => ?_
      simp only [State.bodies, memberBodies, map_append, map_cons,
        map_nil, count_append, count_cons, count_nil]
      omega
    · intro entry hentry
      obtain hnew | hold := mem_append.1 hentry
      · obtain ⟨id, hid, rfl⟩ := mem_map.1 hnew
        obtain ⟨decl, hget, hstatic⟩ := hdecl id (Option.mem_toList.1 hid)
        refine .inr ⟨decl, hget, ?_⟩
        simp [State.bodies, memberBodies, hstatic]
      · exact .inl hold

/-- The accessors of a property get bodies that belong to its declaration. -/
theorem withProperty (hids : c.declIds.Nodup) {p : PropertyDecl} (hp : p ∈ c.properties) :
    Builds c s (s.withProperty p) := by
  let getter : Option BodyId := p.getter.map fun _ => ⟨s.symbols.bodies.length⟩
  let setter : Option BodyId :=
    p.setter.map fun _ => ⟨s.symbols.bodies.length + getter.toList.length⟩
  let new : List (BodyId × Bool) :=
    (getter.toList ++ setter.toList).map fun body => (body, p.modifiers.isStatic)
  have hbodies : (s.withProperty p).bodies.Perm (new ++ s.bodies) := by
    refine perm_iff_count.2 fun b => ?_
    simp only [State.bodies, memberBodies, State.withProperty, flatMap_append,
      flatMap_cons, flatMap_nil, count_append, count_nil, new, getter, setter]
    omega
  refine grow new hbodies ?_ ?_ (fun _ hentry => .inl hentry) fun entry hentry => ?_
  · cases hgetter : p.getter <;> cases hsetter : p.setter <;>
      simp [new, getter, setter, hgetter, hsetter, range'_succ]
  · simp [State.withProperty, new, getter, setter]
  · obtain hnew | hold := mem_append.1 hentry
    · have hbody : entry.1.1 = p.id ∧ entry.2 ∈ getter.toList ++ setter.toList := by
        obtain hset | hget := mem_append.1 hnew
        · obtain ⟨body, hbody, rfl⟩ := mem_map.1 hset
          exact ⟨rfl, mem_append_right _ hbody⟩
        · obtain ⟨body, hbody, rfl⟩ := mem_map.1 hget
          exact ⟨rfl, mem_append_left _ hbody⟩
      refine .inr ⟨.property p, hbody.1 ▸ ClassDecl.get_of_belongs hids (.property p) hp,
        hbodies.symm.subset ?_⟩
      exact mem_append_left _ (mem_map_of_mem hbody.2)
    · exact .inl hold

theorem registerConstructor (hids : c.declIds.Nodup) {k : ConstructorDecl}
    (hk : k ∈ c.constructors) (params : List ParamSymbol) :
    Builds c s
      { s with symbols := (s.symbols.registerConstructor (some k.id) params k.modifiers).2 } := by
  refine grow [(⟨s.symbols.bodies.length⟩, k.modifiers.isStatic)] ?_ rfl
    (by simp [SymbolTable.registerConstructor, SymbolTable.newBody]) (fun entry hentry => ?_)
    fun _ hentry => .inl hentry
  · refine perm_iff_count.2 fun b => ?_
    simp only [State.bodies, SymbolTable.memberBodies, SymbolTable.registerConstructor,
      SymbolTable.newBody, map_append, map_cons, map_nil, count_append,
      count_cons, count_nil]
    omega
  · obtain rfl | hold := mem_cons.1 hentry
    · refine .inr ⟨.constructor k, ClassDecl.get_of_belongs hids (.constructor k) hk, ?_⟩
      simp [State.bodies, SymbolTable.memberBodies, SymbolTable.registerConstructor,
        SymbolTable.newBody, Decl.isStatic]
    · exact .inl hold

/-- The bodies of units are seen in their outline. -/
theorem units (s : State) {units : StateUnits} (h : units.outline = s.units.outline) :
    Builds c s { s with units } := by
  refine same rfl ?_ rfl rfl
  have hbody (us : StateUnits) :
      us.units.map (fun u => (u.body, false)) = us.outline.map fun entry => (entry.2.2, false) := by
    rw [outline, map_map]
    rfl
  rw [State.bodies, State.bodies, hbody, hbody, h]

theorem enterUnit (s : State) (id : NodeId) : Builds c s (Emit.enterUnit id s) := by
  unfold Emit.enterUnit
  obtain ⟨u, _, hknown⟩ | ⟨_, hnew⟩ := s.units.register_cases s.symbols id
  · rw [hknown]
    exact same rfl rfl rfl rfl
  · rw [hnew]
    refine grow [(⟨s.symbols.bodies.length⟩, false)] ?_ rfl (by simp) (fun _ hentry => .inl hentry)
      fun _ hentry => .inl hentry
    refine perm_iff_count.2 fun b => ?_
    simp only [State.bodies, memberBodies, map_append, map_cons,
      map_nil, count_append, count_cons, count_nil]
    omega

/-! ## Steps -/

theorem declaring (hids : c.declIds.Nodup) (h : Declaring c s s') : Builds c s s' := by
  cases h with
  | param owner index p | classify classifier => exact same rfl rfl rfl rfl
  | method hdecl hnew hbase hstatic hrun =>
    refine registerMethod hrun fun id hid => ?_
    cases hid
    exact ⟨_, hdecl, hstatic⟩
  | property hp hnew => exact withProperty hids hp
  | constructor hk hnew params => exact registerConstructor hids hk params
  | _ => exact registerVariable s _

theorem shared {key : NodeId} {symbols : SymbolTable} {names : Names}
    (hrun : s.symbols.registerMethod s.names (some (.node key)) m = .ok (handle, symbols, names)) :
    Builds c s { s with symbols, names } :=
  registerMethod hrun fun _ hid => by cases hid

theorem moves {env : Env Node} (h : Moves env s s') : Builds c s s' := by
  induction h with
  | refl s => exact refl c s
  | trans _ _ ih ih' => exact ih.trans ih'
  | spell hstep => exact frame hstep.frame
  | text hwrote _ ih => exact ih.trans (same (by simp [State.giveText, setBodyText]) rfl rfl rfl)
  | nested type _ ih => exact ((around _ _ _ _).trans ih).trans (around _ _ _ _)
  | unit hstatic hbegin text _ ih =>
    have hbegun := (enterUnit (c := c) _ _).trans (units _ (outline_begin hbegin))
    have hinner := (hbegun.trans (around _ _ _ _)).trans ih
    exact (hinner.trans (units _ (outline_finish _ _ text))).trans (around _ _ _ _)
  | unitAgain s hstatic =>
    exact (enterUnit s _).trans (units _ (outline_noteReference _ _))
  | shared hn hnew hmethod hm _ ih =>
    exact (((shared hmethod).trans (around _ _ _ _)).trans ih).trans (around _ _ _ _)
  | sharedLost s hn hmethod hlost => exact shared hmethod
  | _ => exact same rfl rfl rfl rfl

theorem filling {env : Env Node} (h : Filling env s s') : Builds c s s' := by
  cases h with
  | emitted he hbody hdecl hplace hmoves =>
    exact ((around s _ _ _).trans (moves hmoves)).trans (around _ _ _ _)
  | text body text => exact same (by simp [setBodyText]) rfl rfl rfl

end Builds

namespace Housed

variable {c : ClassDecl} {s s' : State}

/-- An entry point is emitted into a member that is static if its place is. -/
theorem entry (h : Housed c s) {e : EntryPoint} {body : BodyId} {decl : Decl} {place : Place}
    (hbody : Emit.entryBody? s e = some body) (hdecl : c.get e.owner = .ok decl)
    (hplace : Emit.entryPlace? c e body decl = some place) :
    (place.body, place.isStatic) ∈ s.bodies := by
  have hhouses : s.Houses c e.owner body := by
    obtain ⟨_, hmem⟩ | ⟨_, hmem⟩ := Declared.mem_of_entryBody hbody
    · exact h.accessors _ hmem
    · exact h.decls _ hmem
  obtain ⟨decl', hdecl', hmem⟩ := hhouses
  cases Except.ok.inj (hdecl.symm.trans hdecl')
  unfold Emit.entryPlace? at hplace
  split at hplace <;> cases hplace <;> exact hmem

theorem reserved (env : Env Node) :
    Housed env.graph.classDecl (Emit.reserved env (State.initial env)) := by
  constructor <;>
    simp [State.bodies, memberBodies, Emit.reserved, State.initial, newBody]

end Housed

theorem Generation.nodup_declIds (hstart : start graph config = .ok gen) :
    gen.env.graph.classDecl.declIds.Nodup := by
  rw [(start_eq hstart).1]
  exact ClassDecl.nodup_declIds (validated hstart)

/-- What holds before the declarations, and is kept by each step of the preparation and by each
filling, holds when all bodies are emitted. -/
theorem Generation.invariant (hstart : start graph config = .ok gen)
    (hrun : Emit.bodies gen.env gen.state = (.ok (), s)) {P : State → Prop}
    (hreserved : P (Emit.reserved gen.env (State.initial gen.env)))
    (hdeclaring : ∀ s s', Declaring gen.env.graph.classDecl s s' → P s → P s')
    (hfilling : ∀ s s', Filling gen.env s s' → P s → P s') : P s := by
  obtain ⟨s₀, hprepare, hfillings⟩ := exists_fillings hstart hrun
  have hsteps := (Emit.exists_declaring (nodup_declIds hstart) hprepare).steps
  have hprepared : P s₀ := by
    clear hfillings hprepare
    induction hsteps with
    | refl => exact hreserved
    | tail _ hstep ih => exact hdeclaring _ _ hstep ih
  clear hsteps hprepare hrun
  induction hfillings with
  | refl => exact hprepared
  | tail _ hstep ih => exact hfilling _ _ hstep ih

/-- When all bodies are emitted, members have bodies of their own. -/
theorem Generation.housed (hstart : start graph config = .ok gen)
    (hrun : Emit.bodies gen.env gen.state = (.ok (), s)) : Housed gen.env.graph.classDecl s :=
  invariant hstart hrun (Housed.reserved gen.env)
    (fun _ _ hstep hs => (Builds.declaring (nodup_declIds hstart) hstep).housed hs)
    fun _ _ hstep hs => (Builds.filling hstep).housed hs

end FlowClass
