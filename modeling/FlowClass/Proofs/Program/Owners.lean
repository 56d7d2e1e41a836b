import FlowClass.Proofs.Emission.Orderly
import FlowClass.Proofs.Program.Members
import FlowClass.Proofs.Program.Registration

/-!
# Who a body belongs to

Declared callables, accessors, shared nodes and units have bodies. A shared node gets its body with a
method, which is entered under a name made for the node. Functions and events without parameters are
entered in the same way, so a node whose name is that of such a declaration gets no body of its own
but the one of the declaration (`Graph.Merges`).

This is the only way in which two of them come to have one body (`Tenancy.owner_eq`), and it cannot be
avoided for two that merge (`Tenancy.body_eq`). The bodies there were before any emission are told from
the others by their numbers, and `Tenancy` says so much of every state of a pass.
-/

namespace FlowClass

open List SymbolTable

variable {body : BodyId} {id : NodeId} {o : BodyOwner}

/-- Whatever may have a body. -/
inductive BodyOwner where
  | decl (id : DeclId)
  | accessor (property : DeclId) (kind : EntryKind)
  | shared (id : NodeId)
  | unit (id : NodeId)
deriving DecidableEq

/-- The owner is there before any emission. -/
def BodyOwner.IsDeclared (o : BodyOwner) : Prop :=
  (∃ id, o = .decl id) ∨ ∃ id kind, o = .accessor id kind

def State.bodyOf? (s : State) : BodyOwner → Option BodyId
  | .decl id => s.symbols.declBody? id
  | .accessor id kind => s.accessors.lookup (id, kind)
  | .shared id => (s.methodFor? id).map MethodSymbol.body
  | .unit id => (s.units.get? id).map StateUnit.body

/-- The name that is made for the node is that of a function or event without parameters. -/
def Graph.Merges (g : Graph Node) (id : NodeId) (decl : DeclId) : Prop :=
  ∃ n, g.get? id = some n ∧ (decl, n.methodBase id, []) ∈ g.classDecl.methods

/-- A shared node and a declaration that merge. -/
inductive BodyOwner.Merged (g : Graph Node) : BodyOwner → BodyOwner → Prop where
  | node {id : NodeId} {owner : DeclId} (h : g.Merges id owner) : Merged g (.shared id) (.decl owner)
  | owner {id : NodeId} {owner : DeclId} (h : g.Merges id owner) : Merged g (.decl owner) (.shared id)

/-! ## Before any emission -/

/-- Every method stands for a function or event, the first one with its signature. -/
abbrev MethodsEntered (c : ClassDecl) (s : State) : Prop :=
  Enrolled c.roster s

theorem MethodsEntered.prepared {env : Env Node} (hids : env.graph.classDecl.declIds.Nodup)
    {s : State} (hrun : Emit.prepare env (State.initial env) = (.ok (), s)) :
    MethodsEntered env.graph.classDecl s :=
  (Emit.exists_declaring hids hrun).enrolled

/-- Of the functions and events with a signature, one has a body. -/
theorem MethodsEntered.decl_eq {c : ClassDecl} {s : State} (h : MethodsEntered c s)
    (hids : c.declIds.Nodup) {id id' : DeclId} {sig : Signature} (hid : (id, sig) ∈ c.methods)
    (hid' : (id', sig) ∈ c.methods) (hbody : (s.symbols.declBody? id).isSome = true)
    (hbody' : (s.symbols.declBody? id').isSome = true) : id = id' := by
  have hfirst {id : DeclId} (hid : (id, sig) ∈ c.methods)
      (hbody : (s.symbols.declBody? id).isSome = true) : id ∉ c.repeats := by
    obtain hconstructor | hfirst := (h.bodies id).1 hbody
    · exact ClassDecl.not_mem_repeats hids (.inr hconstructor)
    · exact hfirst.2
  exact congrArg Prod.fst (eq_of_not_repeated hid hid' rfl (hfirst hid hbody) (hfirst hid' hbody'))

/-! ## During emission -/

/-- What emission has added to the members that were there before. -/
structure Tenancy (env : Env Node) (base s : State) : Prop where
  keeps : base.Keeps s
  longer : base.symbols.bodies.length ≤ s.symbols.bodies.length
  known : base.symbols.methods ⊆ s.symbols.methods
  entered : ∀ m ∈ s.symbols.methods, m ∈ base.symbols.methods ∨
    base.symbols.bodies.length ≤ m.body.index ∧
      m.signature ∉ base.symbols.methods.map MethodSymbol.signature
  units : ∀ body ∈ s.units.bodies, base.symbols.bodies.length ≤ body.index
  shared : ∀ id handle, s.symbols.methodKeys.lookup (.node id) = some handle →
    ∃ m n, s.symbols.method? handle = some m ∧ env.graph.get? id = some n ∧
      m.signature = (n.methodBase id, [])

namespace Tenancy

variable {env : Env Node} {base s s' : State}

section

variable (h : Tenancy env base s)
include h

/-- Nothing that matters is changed. -/
theorem same (hkeeps : s.Keeps s')
    (hlength : s'.symbols.bodies.length = s.symbols.bodies.length)
    (hmethods : s'.symbols.methods = s.symbols.methods)
    (hkeys : s'.symbols.methodKeys = s.symbols.methodKeys)
    (hunits : s'.units.bodies = s.units.bodies) : Tenancy env base s' where
  keeps := h.keeps.trans hkeeps
  longer := hlength ▸ h.longer
  known := hmethods ▸ h.known
  entered := hmethods ▸ h.entered
  units := hunits ▸ h.units
  shared := by
    unfold method?
    rw [hkeys, hmethods]
    exact h.shared

theorem frame (hframe : s.Frame s') : Tenancy env base s' := by
  refine h.same hframe.keeps ?_ hframe.methods hframe.methodKeys
    (congrArg StateUnits.bodies hframe.units)
  have hlength := congrArg List.length hframe.bodyTexts
  rwa [length_map, length_map] at hlength

/-- Where emission is and what was noted is of no importance. -/
theorem around (place : Place) (shared : List (NodeId × (String × Ty)))
    (journal : List Event) : Tenancy env base { s with place, shared, journal } :=
  h.same ⟨rfl, rfl, rfl⟩ rfl rfl rfl rfl

theorem withUnits {units : StateUnits}
    (hunits : units.outline = s.units.outline) : Tenancy env base { s with units } :=
  h.same ⟨rfl, rfl, rfl⟩ rfl rfl rfl (StateUnits.bodies_of_outline hunits)

theorem giveText (body : BodyId) (text : String) :
    Tenancy env base { s with symbols := s.symbols.setBodyText body text } :=
  h.same ⟨rfl, rfl, rfl⟩ (length_modify ..) rfl rfl rfl

theorem enterUnit (id : NodeId) : Tenancy env base (Emit.enterUnit id s) := by
  unfold Emit.enterUnit
  obtain ⟨u, _, hknown⟩ | ⟨_, hnew⟩ := s.units.register_cases s.symbols id
  · rw [hknown]
    exact h.same ⟨rfl, rfl, rfl⟩ rfl rfl rfl rfl
  · rw [hnew]
    obtain ⟨hnames, hbodies, haccessors⟩ := h.keeps
    refine ⟨⟨hnames, hbodies, haccessors⟩, ?_, h.known, h.entered, fun body hbody => ?_, h.shared⟩
    · exact h.longer.trans (length_append ▸ Nat.le_add_right _ _)
    · have hmem : body ∈ s.units.bodies ++ [⟨s.symbols.bodies.length⟩] := by
        simpa [StateUnits.bodies] using hbody
      obtain hold | hown := mem_append.1 hmem
      · exact h.units body hold
      · rw [mem_singleton.1 hown]
        exact h.longer

end

section Methods

variable {id : NodeId} {n : Node} {type : Ty} {handle : MethodHandle} {symbols : SymbolTable}
  {names : Names}

/-- The key of a node gets a method with the right signature. -/
theorem shared_cons (h : Tenancy env base s) (hn : env.graph.get? id = some n)
    (hkeys : symbols.methodKeys = (.node id, handle) :: s.symbols.methodKeys) {m : MethodSymbol}
    (hm : symbols.method? handle = some m) (hsignature : m.signature = (n.methodBase id, []))
    (hmethods : ∀ known other, s.symbols.method? known = some other →
      symbols.method? known = some other) (id' : NodeId) (handle' : MethodHandle)
    (hkey : symbols.methodKeys.lookup (.node id') = some handle') :
    ∃ m n, symbols.method? handle' = some m ∧ env.graph.get? id' = some n ∧
      m.signature = (n.methodBase id', []) := by
  rw [hkeys] at hkey
  by_cases hsame : id' = id
  · subst hsame
    rw [lookup_cons_self] at hkey
    cases hkey
    exact ⟨m, n, hm, hn, hsignature⟩
  · rw [lookup_cons_of_ne (by simpa using hsame)] at hkey
    obtain ⟨m', n', hm', hn', hsignature'⟩ := h.shared id' handle' hkey
    exact ⟨m', n', hmethods _ _ hm', hn', hsignature'⟩

/-- The method of a shared node is known, or is one with its signature, or is entered with a new
body. -/
theorem registerMethod (h : Tenancy env base s) (hn : env.graph.get? id = some n)
    (hmethod : s.symbols.registerMethod s.names (some (.node id))
      (Emit.sharedMethod s.place id n.title type) = .ok (handle, symbols, names)) :
    Tenancy env base { s with symbols, names } := by
  have hknown (known : MethodHandle) (other : MethodSymbol)
      (hother : s.symbols.method? known = some other) : symbols.method? known = some other :=
    method?_registerMethod hmethod hother
  obtain ⟨_, rfl, rfl⟩ | ⟨other, hother, hbase, ⟨hparams, _⟩, rfl, rfl⟩ | ⟨hnew, hadded⟩ :=
    registerMethod_ok hmethod
  · exact h
  · refine ⟨⟨h.keeps.names, h.keeps.bodies, h.keeps.accessors⟩, h.longer, h.known, h.entered, h.units,
      h.shared_cons hn rfl hother (Prod.ext hbase hparams) hknown⟩
  · rw [addMethod_eq] at hadded
    cases hadded
    refine ⟨⟨h.keeps.names, h.keeps.bodies, h.keeps.accessors⟩, ?_, ?_, ?_, h.units,
      h.shared_cons hn rfl getElem?_concat_length rfl hknown⟩
    · exact h.longer.trans (length_append ▸ Nat.le_add_right _ _)
    · exact subset_append_of_subset_left _ h.known
    · refine forall_mem_append.2 ⟨h.entered, forall_mem_singleton.2 (.inr ⟨h.longer, ?_⟩)⟩
      intro hmem
      obtain ⟨other, hother, hsame⟩ := mem_map.1 hmem
      exact hnew other (h.known hother) (congrArg Prod.fst hsame) (congrArg Prod.snd hsame)

end Methods

/-! ### Steps -/

theorem moves (hmoves : Moves env s s') (h : Tenancy env base s) : Tenancy env base s' := by
  induction hmoves with
  | refl s => exact h
  | trans _ _ ih ih' => exact ih' (ih h)
  | spell hstep => exact h.frame hstep.frame
  | text hwrote _ ih => exact (ih h).giveText _ _
  | nested type _ ih => exact (ih (h.around _ _ _)).around _ _ _
  | unit hstatic hbegin text _ ih =>
    have hbegun := (h.enterUnit _).withUnits (StateUnits.outline_begin hbegin)
    have hinner := ih (hbegun.around _ _ _)
    exact (hinner.withUnits (StateUnits.outline_finish _ _ text)).around _ _ _
  | unitAgain s hstatic => exact (h.enterUnit _).withUnits (StateUnits.outline_noteReference _ _)
  | shared hn hnew hmethod hm _ ih =>
    exact (ih ((h.registerMethod hn hmethod).around _ _ _)).around _ _ _
  | sharedLost s hn hmethod hlost => exact h.registerMethod hn hmethod
  | _ => exact h.same ⟨rfl, rfl, rfl⟩ rfl rfl rfl rfl

theorem filling (hstep : Filling env s s') (h : Tenancy env base s) : Tenancy env base s' := by
  cases hstep with
  | emitted he hbody hdecl hplace hmoves => exact (moves hmoves (h.around _ _ _)).around _ _ _
  | text body text => exact h.giveText body text

/-- Before any emission there are no units, and no node has a method. -/
theorem start {c : ClassDecl} (hunits : base.units = {}) (h : Declared c base) :
    Tenancy env base base where
  keeps := ⟨rfl, rfl, rfl⟩
  longer := le_rfl
  known := Subset.refl _
  entered _ hm := .inl hm
  units body hbody := by
    rw [hunits] at hbody
    cases hbody
  shared id handle hkey := by
    obtain ⟨decl, hdecl⟩ := h.keys _ (mem_of_lookup hkey)
    cases hdecl

/-! ## Owners -/

section Owners

variable (h : Tenancy env base s)
include h

/-- The method of a shared node. -/
theorem methodFor?_eq_some {m : MethodSymbol} (hm : s.methodFor? id = some m) :
    m ∈ s.symbols.methods ∧
      ∃ n, env.graph.get? id = some n ∧ m.signature = (n.methodBase id, []) := by
  obtain ⟨handle, hkey, hmethod⟩ := Option.bind_eq_some_iff.1 hm
  obtain ⟨m', n, hm', hn, hsignature⟩ := h.shared id handle hkey
  cases hmethod.symm.trans hm'
  exact ⟨mem_of_getElem? hmethod, n, hn, hsignature⟩

/-- A body that belongs to a declaration was there before. -/
theorem decl_body {id : DeclId} :
    s.bodyOf? (.decl id) = some body ↔ base.symbols.declBody? id = some body := by
  rw [State.bodyOf?, declBody?, declBody?, h.keeps.bodies]

theorem decl_mem {id : DeclId} (hbody : s.bodyOf? (.decl id) = some body) :
    (id, body) ∈ base.symbols.declBodies :=
  mem_of_lookup (h.decl_body.1 hbody)

theorem accessor_mem {id : DeclId} {kind : EntryKind}
    (hbody : s.bodyOf? (.accessor id kind) = some body) : ((id, kind), body) ∈ base.accessors := by
  change s.accessors.lookup (id, kind) = some body at hbody
  rw [h.keeps.accessors] at hbody
  exact mem_of_lookup hbody

omit h in
theorem unit_mem (hbody : s.bodyOf? (.unit id) = some body) :
    ∃ u ∈ s.units.units, u.node = id ∧ u.body = body := by
  obtain ⟨u, hu, rfl⟩ := Option.map_eq_some_iff.1 hbody
  exact ⟨u, StateUnits.get?_mem hu, by simpa using find?_some hu, rfl⟩

/-- The body of a shared node is new, unless the node merges with a declaration that has it. -/
theorem shared_body (hentered : MethodsEntered env.graph.classDecl base)
    (hbody : s.bodyOf? (.shared id) = some body) : base.symbols.bodies.length ≤ body.index ∨
      ∃ owner, s.bodyOf? (.decl owner) = some body ∧ env.graph.Merges id owner := by
  obtain ⟨m, hm, rfl⟩ := Option.map_eq_some_iff.1 hbody
  obtain ⟨hmem, n, hn, hsignature⟩ := h.methodFor?_eq_some hm
  obtain hold | ⟨hnew, _⟩ := h.entered m hmem
  · obtain ⟨owner, howner, hmethod⟩ := hentered.owned m hold
    exact .inr ⟨owner, h.decl_body.2 howner, n, hn, hsignature ▸ hmethod⟩
  · exact .inl hnew

/-- The bodies of shared nodes and units are told apart by their members. -/
theorem emitted_eq (hhoused : Housed env.graph.classDecl s) {o' : BodyOwner}
    (ho : ∃ id, o = .shared id ∨ o = .unit id) (ho' : ∃ id, o' = .shared id ∨ o' = .unit id)
    (hbody : s.bodyOf? o = some body) (hbody' : s.bodyOf? o' = some body) : o = o' := by
  have hdistinct := hhoused.distinct
  have hbodies : s.bodies.map Prod.fst =
      s.symbols.memberBodies.map Prod.fst ++ s.units.units.map StateUnit.body := by
    simp [State.bodies, Function.comp_def]
  rw [hbodies, memberBodies] at hdistinct
  simp only [map_append, map_map, Function.comp_def, append_assoc,
    nodup_append] at hdistinct
  obtain ⟨hmethods, ⟨_, ⟨_, hunits, _⟩, _⟩, hapart⟩ := hdistinct
  have hmixed {id id' : NodeId} (hshared : s.bodyOf? (.shared id) = some body)
      (hunit : s.bodyOf? (.unit id') = some body) : False := by
    obtain ⟨m, hm, hsame⟩ := Option.map_eq_some_iff.1 hshared
    obtain ⟨u, hu, _, hsame'⟩ := unit_mem hunit
    refine hapart _ (mem_map_of_mem (h.methodFor?_eq_some hm).1) u.body ?_
      (hsame.trans hsame'.symm)
    exact mem_append_right _ (mem_append_right _ (mem_map_of_mem hu))
  obtain ⟨id, rfl | rfl⟩ := ho <;> obtain ⟨id', rfl | rfl⟩ := ho'
  · obtain ⟨m, hm, hsame⟩ := Option.map_eq_some_iff.1 hbody
    obtain ⟨m', hm', hsame'⟩ := Option.map_eq_some_iff.1 hbody'
    obtain ⟨hmem, n, _, hsignature⟩ := h.methodFor?_eq_some hm
    obtain ⟨hmem', n', _, hsignature'⟩ := h.methodFor?_eq_some hm'
    cases inj_on_of_nodup_map hmethods hmem hmem' (hsame.trans hsame'.symm)
    rw [hsignature, Prod.mk.injEq] at hsignature'
    rw [Node.methodBase_injective hsignature'.1]
  · exact (hmixed hbody hbody').elim
  · exact (hmixed hbody' hbody).elim
  · obtain ⟨u, hu, rfl, hsame⟩ := unit_mem hbody
    obtain ⟨u', hu', rfl, hsame'⟩ := unit_mem hbody'
    rw [inj_on_of_nodup_map hunits hu hu' (hsame.trans hsame'.symm)]

section Declarations

variable (hdeclared : Declared env.graph.classDecl base)
include hdeclared

/-- The bodies of declarations and accessors were there before, each for one of them. -/
theorem declared_eq {o' : BodyOwner} (ho : o.IsDeclared) (ho' : o'.IsDeclared)
    (hbody : s.bodyOf? o = some body) (hbody' : s.bodyOf? o' = some body) : o = o' := by
  obtain ⟨hdecls, haccessors, hapart⟩ := nodup_append.1 hdeclared.distinct
  obtain ⟨id, rfl⟩ | ⟨id, kind, rfl⟩ := ho <;> obtain ⟨id', rfl⟩ | ⟨id', kind', rfl⟩ := ho'
  · have hsame := inj_on_of_nodup_map hdecls (h.decl_mem hbody) (h.decl_mem hbody') rfl
    cases congrArg Prod.fst hsame
    rfl
  · exact absurd rfl (hapart _ (mem_map_of_mem (h.decl_mem hbody)) _
      (mem_map_of_mem (h.accessor_mem hbody')))
  · exact absurd rfl (hapart _ (mem_map_of_mem (h.decl_mem hbody')) _
      (mem_map_of_mem (h.accessor_mem hbody)))
  · have hsame := inj_on_of_nodup_map haccessors (h.accessor_mem hbody)
      (h.accessor_mem hbody') rfl
    cases congrArg Prod.fst hsame
    rfl

theorem declared_lt (ho : o.IsDeclared) (hbody : s.bodyOf? o = some body) :
    body.index < base.symbols.bodies.length := by
  refine hdeclared.inside body (mem_append.2 ?_)
  obtain ⟨id, rfl⟩ | ⟨id, kind, rfl⟩ := ho
  · exact .inl (mem_map_of_mem (h.decl_mem hbody))
  · exact .inr (mem_map_of_mem (h.accessor_mem hbody))

variable (hentered : MethodsEntered env.graph.classDecl base)
include hentered

/-- A declaration or an accessor shares its body with no node but one that merges with it. -/
theorem merged_of_eq (ho : o.IsDeclared) (hbody : s.bodyOf? o = some body)
    (hbody' : s.bodyOf? (.shared id) = some body ∨ s.bodyOf? (.unit id) = some body) :
    s.bodyOf? (.shared id) = some body ∧ ∃ owner, o = .decl owner ∧ env.graph.Merges id owner := by
  have hlow := h.declared_lt hdeclared ho hbody
  obtain hshared | hunit := hbody'
  · obtain hhigh | ⟨owner, howner, hmerges⟩ := h.shared_body hentered hshared
    · omega
    exact ⟨hshared, owner, h.declared_eq hdeclared ho (.inl ⟨owner, rfl⟩) hbody howner, hmerges⟩
  · obtain ⟨u, hu, _, rfl⟩ := unit_mem hunit
    have hhigh := h.units u.body (mem_map_of_mem hu)
    omega

/-- Nothing else has the body of a declaration or an accessor, nor that of a shared node or a unit. -/
theorem owner_eq (hhoused : Housed env.graph.classDecl s) {o' : BodyOwner}
    (hbody : s.bodyOf? o = some body) (hbody' : s.bodyOf? o' = some body) :
    o = o' ∨ BodyOwner.Merged env.graph o o' := by
  -- owners of the first kind were there before any emission, the others are added by it
  have hkind (o : BodyOwner) : o.IsDeclared ∨ ∃ id, o = .shared id ∨ o = .unit id := by
    cases o <;> simp [BodyOwner.IsDeclared]
  have hmixed {o o' : BodyOwner} (ho : o.IsDeclared)
      (ho' : ∃ id, o' = .shared id ∨ o' = .unit id) (hbody : s.bodyOf? o = some body)
      (hbody' : s.bodyOf? o' = some body) :
      ∃ id owner, o' = .shared id ∧ o = .decl owner ∧ env.graph.Merges id owner := by
    obtain ⟨id, rfl | rfl⟩ := ho'
    · obtain ⟨_, owner, howner, hmerges⟩ :=
        h.merged_of_eq hdeclared hentered ho hbody (.inl hbody')
      exact ⟨id, owner, rfl, howner, hmerges⟩
    · obtain ⟨hshared, _⟩ := h.merged_of_eq hdeclared hentered ho hbody (.inr hbody')
      cases h.emitted_eq hhoused ⟨id, .inl rfl⟩ ⟨id, .inr rfl⟩ hshared hbody'
  obtain ho | ho := hkind o <;> obtain ho' | ho' := hkind o'
  · exact .inl (h.declared_eq hdeclared ho ho' hbody hbody')
  · obtain ⟨id, owner, rfl, rfl, hmerges⟩ := hmixed ho ho' hbody hbody'
    exact .inr (.owner hmerges)
  · obtain ⟨id, owner, rfl, rfl, hmerges⟩ := hmixed ho' ho hbody' hbody
    exact .inr (.node hmerges)
  · exact .inl (h.emitted_eq hhoused ho ho' hbody hbody')

omit hdeclared in
/-- A shared node and a declaration that merge have one body. -/
theorem body_eq (hids : env.graph.classDecl.declIds.Nodup) {owner : DeclId} {body' : BodyId}
    (hmerges : env.graph.Merges id owner) (hbody : s.bodyOf? (.shared id) = some body)
    (hbody' : s.bodyOf? (.decl owner) = some body') : body = body' := by
  obtain ⟨m, hm, rfl⟩ := Option.map_eq_some_iff.1 hbody
  obtain ⟨hmem, n, hn, hsignature⟩ := h.methodFor?_eq_some hm
  obtain ⟨n', hn', hmethod⟩ := hmerges
  cases hn.symm.trans hn'
  have hknown : m.signature ∈ base.symbols.methods.map MethodSymbol.signature :=
    (hentered.signatures _).2 (hsignature ▸ mem_map_of_mem hmethod)
  have hold := (h.entered m hmem).resolve_right fun hnew => hnew.2 hknown
  obtain ⟨first, hfirst, hsame⟩ := hentered.owned m hold
  have howner := h.decl_body.1 hbody'
  cases hentered.decl_eq hids (hsignature ▸ hsame) hmethod (Option.isSome_iff_exists.2 ⟨_, hfirst⟩)
    (Option.isSome_iff_exists.2 ⟨_, howner⟩)
  exact Option.some.inj (hfirst.symm.trans howner)

end Declarations

end Owners

end Tenancy

end FlowClass
