import FlowClass.Proofs.Program.Declared

/-!
# Names and bodies of declarations

Once the declarations of a class are entered, every member has a name and every callable a body,
unless it repeats an earlier one (`ClassDecl.repeats`). So every entry point has a body to fill, as long
as functions and events can be told apart by their names and signatures.
-/

namespace FlowClass

open List ClassDecl

variable {e : EntryPoint} {env : Env Node}

/-! ## Members and callables -/

namespace Enrolled

variable {c : ClassDecl} {id : DeclId} {s : State}
  (hids : c.declIds.Nodup)
  (h : Enrolled c.roster s)
include hids h

theorem isSome_declName (hid : id ∈ c.named) :
    (s.symbols.declName? id).isSome = true ↔ id ∉ c.repeats := by
  rw [h.names, ← or_assoc, ← mem_append]
  constructor
  · rintro (hname | hfirst)
    · exact not_mem_repeats hids (.inl hname)
    · exact hfirst.2
  · intro hfirst
    exact (mem_append.1 hid).imp_right fun hmethod => ⟨hmethod, hfirst⟩

theorem isSome_declBody
    (hid : id ∈ c.constructors.map ConstructorDecl.id ++ c.methods.map Prod.fst) :
    (s.symbols.declBody? id).isSome = true ↔ id ∉ c.repeats := by
  rw [h.bodies]
  constructor
  · rintro (hconstructor | hfirst)
    · exact not_mem_repeats hids (.inr hconstructor)
    · exact hfirst.2
  · intro hfirst
    exact (mem_append.1 hid).imp_right fun hmethod => ⟨hmethod, hfirst⟩

theorem isSome_entryBody (he : e ∈ c.entryPoints) :
    (Emit.entryBody? s e).isSome = true ↔ e.owner ∉ c.repeats := by
  have hstarts := startsAt_of_mem he
  have hfunctions : c.functions.map FunctionDecl.id ⊆ c.methods.map Prod.fst := by
    rw [map_fst_methods]
    exact subset_append_left _ _
  have hevents : c.events.map EventDecl.id ⊆ c.methods.map Prod.fst := by
    rw [map_fst_methods]
    exact subset_append_right _ _
  -- accessors always have a body, and a property repeats nothing
  have haccessor {p : PropertyDecl} (hp : p ∈ c.properties) (hown : e ∈ p.entryPoints)
      (howner : p.id = e.owner) :
      (s.accessors.lookup (e.owner, e.kind)).isSome = true ↔ e.owner ∉ c.repeats :=
    iff_of_true (h.accessors p hp e hown) (not_mem_repeats hids
      (.inl (mem_append_right _ (howner ▸ mem_map_of_mem hp))))
  obtain ⟨owner, kind, node⟩ := e
  cases kind with
  | function =>
    obtain ⟨f, hf, rfl, _⟩ := hstarts
    exact h.isSome_declBody hids (mem_append_right _ (hfunctions (mem_map_of_mem hf)))
  | getter | setter =>
    obtain ⟨p, hp, rfl, hnode⟩ := hstarts
    exact haccessor hp (by simp [PropertyDecl.entryPoints, hnode]) rfl
  | constructor =>
    obtain ⟨k, hk, rfl, _⟩ := hstarts
    exact h.isSome_declBody hids (mem_append_left _ (mem_map_of_mem hk))
  | event =>
    obtain ⟨v, hv, rfl, _⟩ := hstarts
    exact h.isSome_declBody hids (mem_append_right _ (hevents (mem_map_of_mem hv)))

end Enrolled

/-! ## Preparation -/

/-- Nothing was entered for a declaration in between. -/
structure State.Keeps (s s' : State) : Prop where
  names : s'.symbols.declNames = s.symbols.declNames
  bodies : s'.symbols.declBodies = s.symbols.declBodies
  accessors : s'.accessors = s.accessors

theorem State.Keeps.trans {s s' s'' : State} (h : s.Keeps s') (h' : s'.Keeps s'') : s.Keeps s'' :=
  ⟨h'.names.trans h.names, h'.bodies.trans h.bodies, h'.accessors.trans h.accessors⟩

theorem State.Frame.keeps {s s' : State} (h : s.Frame s') : s.Keeps s' :=
  ⟨h.declNames, h.declBodies, h.accessors⟩

theorem Emit.entryBody?_of_keeps {s s' : State} (h : s.Keeps s') (e : EntryPoint) :
    entryBody? s' e = entryBody? s e := by
  unfold entryBody? SymbolTable.declBody?
  rw [h.bodies, h.accessors]

namespace Emit

/-- Preparation enters the declarations first. Then nodes set up what they need, which is no more than
spelling, and the classification is sealed. -/
theorem exists_registered {s₀ : State} (hprepare : prepare env (State.initial env) = (.ok (), s₀)) :
    ∃ s, registerDeclarations env (State.initial env) = (.ok (), s) ∧
      s.Frame { s₀ with classifier := s.classifier } := by
  obtain ⟨_, s, hdeclared, hrest⟩ := bind_eq_ok_iff.1 hprepare
  refine ⟨s, hdeclared, ?_⟩
  rw [env_bind] at hrest
  obtain ⟨_, s₂, hnodes, hsealed⟩ := bind_eq_ok_iff.1 hrest
  have hset (id : NodeId) :
      Provides (fun s' => s.Frame s') (fun _ s' => s.Frame s') (setUpNode id) := by
    intro env s₁ hs₁ _ s₂ hrun
    have hframe := (quiet_setUpNode id).frame env s₁
    rw [hrun] at hframe
    exact hs₁.trans hframe
  have hframe := Provides.forM (I := fun _ s' => s.Frame s') env.table.ids (fun _ id _ _ => hset id)
    env s (.refl s) () s₂ hnodes
  cases hsealed
  rwa [← hframe.classifier]

/-- What is entered for a declaration is there when the declarations are entered. -/
theorem exists_registered_keeps {s₀ : State}
    (hprepare : prepare env (State.initial env) = (.ok (), s₀)) :
    ∃ s, registerDeclarations env (State.initial env) = (.ok (), s) ∧ s.Keeps s₀ := by
  obtain ⟨s, hdeclared, hframe⟩ := exists_registered hprepare
  exact ⟨s, hdeclared, hframe.declNames, hframe.declBodies, hframe.accessors⟩

/-- After the preparation every entry point has a body to fill. -/
theorem isSome_entryBody_of_prepare {s : State} (hids : env.graph.classDecl.declIds.Nodup)
    (hsignatures : env.graph.classDecl.signatures.Nodup)
    (hrun : (prepare : Emit Node Unit) env (State.initial env) = (.ok (), s))
    (he : e ∈ env.graph.classDecl.entryPoints) : (entryBody? s e).isSome = true := by
  obtain ⟨s₁, hdeclared, hkeeps⟩ := exists_registered_keeps hrun
  have hentered := enrolled_registerDeclarations hids hdeclared
  rw [entryBody?_of_keeps hkeeps, hentered.isSome_entryBody hids he,
    repeats_eq_nil hsignatures]
  exact not_mem_nil

/-- The declaration of an entry point is found, and has a place for it. -/
theorem exists_entryPlace {c : ClassDecl} (hids : c.declIds.Nodup) (he : e ∈ c.entryPoints)
    (body : BodyId) :
    ∃ decl place, c.get e.owner = .ok decl ∧ entryPlace? c e body decl = some place := by
  have hstarts := startsAt_of_mem he
  obtain ⟨owner, kind, node⟩ := e
  cases kind with
  | function =>
    obtain ⟨f, hf, rfl, _⟩ := hstarts
    exact ⟨_, _, get_of_belongs hids (.function f) hf, rfl⟩
  | getter | setter =>
    obtain ⟨p, hp, rfl, _⟩ := hstarts
    exact ⟨_, _, get_of_belongs hids (.property p) hp, rfl⟩
  | constructor =>
    obtain ⟨k, hk, rfl, _⟩ := hstarts
    exact ⟨_, _, get_of_belongs hids (.constructor k) hk, rfl⟩
  | event =>
    obtain ⟨v, hv, rfl, _⟩ := hstarts
    exact ⟨_, _, get_of_belongs hids (.event v) hv, rfl⟩

end Emit

end FlowClass
