import FlowClass.Proofs.Emission.Moves
import FlowClass.Proofs.Program.EntryBodies

/-!
# What registration leaves behind

A function or event that has the signature of an earlier one is left without a name and a body
(`ClassDecl.repeats`). This is the only gap that registration leaves: every other member has a name,
every other callable a body, and nothing that happens later in the pass takes them away
(`members_registered`).

An entry point without a body says so. Nothing else in its chain says the same, as the errors of
nodes are reported with the node (`Emit.Lenient`).
-/

namespace FlowClass

variable {env : Env Node}

theorem State.Kept.keeps {s s' : State} (h : s.Kept s') : s.Keeps s' :=
  ⟨h.declNames, h.declBodies, h.accessors⟩

namespace Emit

/-! ## Errors of entry points -/

/-- Of its own accord the emission complains about nothing but flow that comes back and its depth; a
node that fails is reported with the node, unless the pass is batched. -/
def Lenient {α : Type} (x : Emit Node α) : Prop :=
  ∀ env s e s', x env s = (.error e, s') → .cutOff ∈ s'.journal ∧ e = .tooDeep ∨
    (∃ id, e = .invalid (.revisit id)) ∨
    env.config.isBatched = false ∧ ∃ id owner source, e = .atNode id owner source

namespace Lenient

variable {α β : Type}

theorem ofRun {x : Emit Node α} (h : ∀ env s, ∃ a s', x env s = (.ok a, s')) : Lenient x := by
  intro env s e s' hrun
  obtain ⟨a, s'', hok⟩ := h env s
  rw [hok] at hrun
  cases hrun

theorem pure (a : α) : Lenient (Pure.pure a : Emit Node α) :=
  ofRun fun _ s => ⟨a, s, rfl⟩

theorem bind {x : Emit Node α} {f : α → Emit Node β} (hx : Lenient x) (hf : ∀ a, Lenient (f a)) :
    Lenient (x >>= f) := by
  intro env s e s' hrun
  rcases hfirst : x env s with ⟨e' | a, s''⟩
  · rw [bind_eq_of_error hfirst] at hrun
    cases hrun
    exact hx env s e s' hfirst
  · rw [bind_eq_of_ok hfirst] at hrun
    exact hf a env s'' e s' hrun

theorem recover (id : NodeId) (x : Emit Node String) : Lenient (Emit.recover id x) := by
  intro env s e s' hrun
  obtain ⟨text, s'', _, hend⟩ | ⟨inner, s'', _, ⟨_, text, hend⟩ | ⟨hsync, hend⟩⟩ :=
    recover_cases id x env s <;> rw [hend] at hrun
  · cases hrun
  · cases hrun
  · refine .inr (.inr ⟨hsync, ?_⟩)
    cases inner <;> cases hrun <;> exact ⟨_, _, _, rfl⟩

/-- A chain fails of its own accord if it comes back to a node, or is cut off. -/
def threading : Threading fun _ => True where
  rel x _ := Lenient x
  pure a := .pure a
  bind hx hf := .bind hx hf
  ofEnv _ hf env s := hf env trivial env s
  isState _ := .ofRun fun _ _ => ⟨_, _, rfl⟩
  revisit id env s e s' hrun := by
    cases hrun
    exact .inr (.inl ⟨id, rfl⟩)
  cutOff env s e s' hrun := by
    cases hrun
    exact .inl ⟨List.mem_cons_self, rfl⟩

theorem chainAt (depth : Nat) (inline : Bool) (target : Option NodeId) :
    Lenient (Emit.chainAt depth inline target : Emit Node String) := by
  cases depth with
  | zero => exact threading.cutOff
  | succ depth =>
    intro env s
    rw [chainAt_succ_apply]
    refine bind ?_ (fun _ => pure _) env s
    exact (threading.chainParts (fun id => recover id _) (fun id => recover id _)
      (fun id => recover id _) _ _ _ _ : threading.holds _)

end Lenient

/-- An entry point with a body fails only in its chain, which says nothing of declarations. -/
theorem entry_ne_invalid {e : EntryPoint} (hids : env.graph.classDecl.declIds.Nodup)
    (he : e ∈ env.graph.classDecl.entryPoints) {s : State} {body : BodyId}
    (hbody : entryBody? s e = some body) {fault : Misuse} (hfault : ∀ id, fault ≠ .revisit id) :
    (entry e env s).1 ≠ .error (.invalid fault) := by
  intro hfailed
  obtain ⟨decl, place, hdecl, hplace⟩ := exists_entryPlace hids he body
  rw [entry_apply, entryWith_of_place hbody hdecl hplace, bind_apply, withPlace_apply] at hfailed
  rcases hchain : chainAt env.depth false (some e.node) env { s with place } with ⟨err | text, s'⟩
  · rw [hchain] at hfailed
    cases hfailed
    obtain ⟨_, he⟩ | ⟨id, he⟩ | ⟨_, _, _, _, he⟩ := Lenient.chainAt _ _ _ _ _ _ _ hchain
    · cases he
    · exact hfault id (GenError.invalid.inj he)
    · cases he
  · rw [hchain] at hfailed
    cases hfailed

/-- An entry point complains about a missing body exactly if it has none. -/
theorem entryWithoutBody_iff {e : EntryPoint} (hids : env.graph.classDecl.declIds.Nodup)
    (he : e ∈ env.graph.classDecl.entryPoints) (s : State) :
    (entry e env s).1 = .error (.invalid (.entryWithoutBody e.owner)) ↔
      ¬ (entryBody? s e).isSome = true := by
  cases hbody : entryBody? s e with
  | none =>
    rw [entry_apply]
    unfold entryWith
    rw [get_bind, hbody]
    simp [fail]
  | some body =>
    exact ⟨fun hfailed => absurd hfailed (entry_ne_invalid hids he hbody fun _ h => by cases h),
      fun hnone => absurd rfl hnone⟩

theorem memberName_iff {step : Step} {id : DeclId} (hdecl : step.decl = some id) (env : Env Node)
    (s : State) :
    (∃ name, (memberName step : Emit Node String) env s = (.ok name, s)) ↔
      (s.symbols.declName? id).isSome = true := by
  have hlookup : (declName? id : Emit Node (Option String)) env s =
      (.ok (s.symbols.declName? id), s) := rfl
  unfold memberName
  rw [hdecl]
  dsimp only
  rw [bind_eq_of_ok hlookup]
  cases s.symbols.declName? id with
  | none =>
    refine ⟨fun ⟨name, hrun⟩ => ?_, fun hsome => ?_⟩
    · cases hrun
    · cases hsome
  | some name => exact ⟨fun _ => rfl, fun _ => ⟨name, rfl⟩⟩

end Emit

/-! ## Complete, except for repetitions -/

/-- Once the declarations of a class are entered, every member has a name and every callable a body,
except for functions and events with the signature of an earlier one. It stays so to the end of the
pass: exactly the entry points of these fail for want of a body, and exactly references to these
stay unresolved. -/
theorem members_registered {env : Env Node} {s : State}
    (hvalid : env.graph.classDecl.validate = .ok ())
    (hrun : Emit.registerDeclarations env (State.initial env) = (.ok (), s)) :
    (∀ id ∈ env.graph.classDecl.named,
      (s.symbols.declName? id).isSome = true ↔ id ∉ env.graph.classDecl.repeats) ∧
    (∀ id ∈ env.graph.classDecl.owners,
      (s.symbols.declBody? id).isSome = true ↔ id ∉ env.graph.classDecl.repeats) ∧
    (∀ e ∈ env.graph.classDecl.entryPoints,
      (Emit.entryBody? s e).isSome = true ↔ e.owner ∉ env.graph.classDecl.repeats) ∧
    ∀ s₀ s₁, Emit.prepare env (State.initial env) = (.ok (), s₀) →
      Relation.ReflTransGen (Filling env) s₀ s₁ →
      (∀ e ∈ env.graph.classDecl.entryPoints,
        (Emit.entry e env s₁).1 = .error (.invalid (.entryWithoutBody e.owner)) ↔
          e.owner ∈ env.graph.classDecl.repeats) ∧
      ∀ place s', Moves env { s₁ with place } s' → ∀ step id, step.decl = some id →
        id ∈ env.graph.classDecl.named →
        ((∃ name, (Emit.memberName step : Emit Node String) env s' = (.ok name, s')) ↔
          id ∉ env.graph.classDecl.repeats) := by
  have hids := ClassDecl.nodup_declIds hvalid
  have hentered := Emit.enrolled_registerDeclarations hids hrun
  have howners : env.graph.classDecl.owners ⊆
      env.graph.classDecl.constructors.map ConstructorDecl.id ++
        env.graph.classDecl.methods.map Prod.fst := by
    intro id hid
    simp only [ClassDecl.owners, ClassDecl.map_fst_methods, List.mem_append] at hid ⊢
    tauto
  refine ⟨fun id hid => hentered.isSome_declName hids hid,
    fun id hid => hentered.isSome_declBody hids (howners hid),
    fun e he => hentered.isSome_entryBody hids he, fun s₀ s₁ hprepare hfillings => ?_⟩
  obtain ⟨s', hrun', hprepared⟩ := Emit.exists_registered_keeps hprepare
  rw [hrun] at hrun'
  cases hrun'
  -- names and bodies of declarations are not touched after they are entered
  have hkeeps := hprepared.trans (Filling.kept hfillings).keeps
  refine ⟨fun e he => ?_, fun place s' hmoves step id hdecl hid => ?_⟩
  · rw [Emit.entryWithoutBody_iff hids he, Emit.entryBody?_of_keeps hkeeps,
      hentered.isSome_entryBody hids he, not_not]
  · have hnames : s'.symbols.declNames = s.symbols.declNames :=
      hmoves.kept.declNames.trans hkeeps.names
    rw [Emit.memberName_iff hdecl, SymbolTable.declName?, hnames]
    exact hentered.isSome_declName hids hid

/-- A class with overloads, in which an event repeats a function. -/
def overloadedDoor : Graph Node where
  name := "Door"
  classDecl :=
    { name := "Door"
      fields := [{ id := ⟨1⟩, name := "width", type := .int }]
      functions :=
        [{ id := ⟨2⟩, name := "Open", entry := some ⟨1⟩
           locals := [{ id := ⟨3⟩, name := "width", type := .int }] },
          { id := ⟨4⟩, name := "Open", params := [{ name := "width", type := .int }] }]
      properties := [{ id := ⟨5⟩, name := "Width", type := .int, getter := some ⟨2⟩ }]
      constructors := [{ id := ⟨6⟩ }]
      events := [{ id := ⟨7⟩, name := "Open", entry := some ⟨1⟩ }, { id := ⟨8⟩, name := "Close" }] }
  nodes := [(⟨1⟩, .returnValue .unassigned), (⟨2⟩, .returnValue (.literal (.bool true)))]

/-- A graph that is looked at for its declarations only. -/
def declarationsOf (graph : Graph Node) : Env Node :=
  { graph, config := {}, table := .empty }

/-- All members but the event are named, and the event's entry point fails. -/
theorem overloadedDoor_registered : ∃ s s₀,
    overloadedDoor.classDecl.validate = .ok () ∧
    Emit.registerDeclarations (declarationsOf overloadedDoor)
      (State.initial (declarationsOf overloadedDoor)) = (.ok (), s) ∧
    Emit.prepare (declarationsOf overloadedDoor)
      (State.initial (declarationsOf overloadedDoor)) = (.ok (), s₀) ∧
    (∀ id ∈ overloadedDoor.classDecl.named,
      (s.symbols.declName? id).isSome = true ↔ id ∉ [(⟨7⟩ : DeclId)]) ∧
    (∀ id ∈ overloadedDoor.classDecl.owners,
      (s.symbols.declBody? id).isSome = true ↔ id ∉ [(⟨7⟩ : DeclId)]) ∧
    (Emit.entry ⟨⟨7⟩, .event, ⟨1⟩⟩ (declarationsOf overloadedDoor) s₀).1 =
      .error (.invalid (.entryWithoutBody ⟨7⟩)) := by
  have hvalid : overloadedDoor.classDecl.validate = .ok () := by decide +kernel
  have hrepeats : overloadedDoor.classDecl.repeats = [⟨7⟩] := by decide +kernel
  have hentry : (⟨⟨7⟩, .event, ⟨1⟩⟩ : EntryPoint) ∈ overloadedDoor.classDecl.entryPoints := by
    decide +kernel
  have hok : (Emit.prepare (declarationsOf overloadedDoor)
      (State.initial (declarationsOf overloadedDoor))).1.isOk = true := by decide +kernel
  rcases hprepare : Emit.prepare (declarationsOf overloadedDoor)
    (State.initial (declarationsOf overloadedDoor)) with ⟨e | _, s₀⟩
  · rw [hprepare] at hok
    cases hok
  · obtain ⟨s, hrun, _⟩ := Emit.exists_registered_keeps hprepare
    obtain ⟨hnames, hbodies, _, hlater⟩ := members_registered hvalid hrun
    have hfails := (hlater s₀ s₀ hprepare .refl).1 _ hentry
    have hclass : (declarationsOf overloadedDoor).graph.classDecl.repeats = [⟨7⟩] := hrepeats
    rw [hclass] at hnames hbodies hfails
    exact ⟨s, s₀, hvalid, hrun, rfl, hnames, hbodies, hfails.2 List.mem_cons_self⟩

/-- Two functions without parameters that have one name. -/
def twoNamesakes : Graph Node where
  name := "C"
  classDecl :=
    { name := "C"
      functions := [{ id := ⟨1⟩, name := "F" }, { id := ⟨2⟩, name := "F", entry := some ⟨1⟩ }] }
  nodes := [(⟨1⟩, .returnValue .unassigned)]

/-- The second function has no name and no body, and its entry point fails. -/
theorem twoNamesakes_incomplete : ∃ s, twoNamesakes.classDecl.validate = .ok () ∧
    Emit.registerDeclarations (declarationsOf twoNamesakes)
      (State.initial (declarationsOf twoNamesakes)) = (.ok (), s) ∧
    s.symbols.declName? ⟨1⟩ = some "F" ∧ s.symbols.declName? ⟨2⟩ = none ∧
    s.symbols.declBody? ⟨2⟩ = none ∧
    (Emit.entry ⟨⟨2⟩, .function, ⟨1⟩⟩ (declarationsOf twoNamesakes) s).1 =
      .error (.invalid (.entryWithoutBody ⟨2⟩)) := by
  refine ⟨_, by decide +kernel, Prod.ext (by decide +kernel : _ = Except.ok ()) rfl, ?_⟩
  decide +kernel

end FlowClass
