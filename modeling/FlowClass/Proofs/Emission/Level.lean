import FlowClass.Proofs.Emission.Hooks
import FlowClass.Proofs.Emission.Run

/-!
# What holds at every depth

Chains, outputs and units are emitted by one another, each at a lower depth. A relation between
emissions is *pervasive* if it passes from the steps and the brackets that they are made of to the
whole (`Pervasive`); then all of them are related to themselves (`Pervasive.level`). Only units and
shared nodes change the state in ways of their own, and are left to each relation. One that does not
look at what they enter is pervasive in any case (`Situational.pervasive`).
-/

namespace FlowClass

/-- The options with another scheduling. -/
def Config.under (c : Config) (scheduling : Scheduling) : Config :=
  { c with scheduling }

/-- The environment under another scheduling. -/
def Env.under {ν : Type} (env : Env ν) (scheduling : Scheduling) : Env ν :=
  { env with config := env.config.under scheduling }

/-- What lasts from one entry point to the next. -/
def State.lasting (s : State) :
    List Diagnostic × List ((DeclId × EntryKind) × BodyId) × List (DeclId × BodyId) :=
  (s.diagnostics, s.accessors, s.symbols.declBodies)

/-- What an emission finds itself in, besides what was entered so far. -/
def State.situation (s : State) :=
  (s.lasting, s.place, s.reading, s.splices, s.scopes)

namespace Emit

variable {α : Type}

/-- A relation between emissions in some environments that passes to chains from the nodes on them.
A property of emissions is a relation that does not look at its second argument. -/
structure Threading (envs : Env Node → Prop) where
  rel : {α : Type} → Emit Node α → Emit Node α → Prop
  pure : ∀ {α : Type} (a : α), rel (Pure.pure a : Emit Node α) (Pure.pure a)
  bind : ∀ {α β : Type} {x y : Emit Node α} {f g : α → Emit Node β},
    rel x y → (∀ a, rel (f a) (g a)) → rel (x >>= f) (y >>= g)
  /-- The scheduling is looked at where a node fails, and nowhere else. -/
  ofEnv : ∀ {α : Type} {f g : Env Node → Emit Node α}, (∀ env other, g (env.under other) = g env) →
    (∀ env, envs env → rel (f env) (g env)) → rel (Emit.env >>= f) (Emit.env >>= g)
  isState : ∀ id, rel (Emit.isState id : Emit Node Bool) (Emit.isState id)
  revisit : ∀ id, rel (Emit.fail (.invalid (.revisit id)) : Emit Node (List String))
    (Emit.fail (.invalid (.revisit id)))
  cutOff : ∀ {α : Type}, rel (Emit.cutOff : Emit Node α) Emit.cutOff

/-- The relation, as a property. -/
abbrev Threading.holds {envs : Env Node → Prop} (p : Threading envs) (x : Emit Node α) : Prop :=
  p.rel x x

theorem Threading.chainParts {envs : Env Node → Prop} (p : Threading envs)
    {unit shared inPlace unit' shared' inPlace' : NodeId → Emit Node String}
    (hunit : ∀ id, p.rel (Emit.recover id (unit id)) (Emit.recover id (unit' id)))
    (hshared : ∀ id, p.rel (Emit.recover id (shared id)) (Emit.recover id (shared' id)))
    (hinPlace : ∀ id, p.rel (Emit.recover id (inPlace id)) (Emit.recover id (inPlace' id)))
    (steps : Nat) (inline : Bool) (seen : List NodeId) (target : Option NodeId) :
    p.rel (Emit.chainParts unit shared inPlace steps inline seen target)
      (Emit.chainParts unit' shared' inPlace' steps inline seen target) := by
  induction steps generalizing inline seen target with
  | zero => exact p.cutOff
  | succ steps ih =>
    cases target with
    | none => exact p.pure _
    | some id =>
      refine p.ofEnv (fun _ _ => rfl) fun env _ => ?_
      split
      · exact p.pure _
      · -- whether the node is a unit is asked for, unless the node is written in place anyway
        have hstate {rest rest' : Bool → Emit Node (List String)}
            (hrest : ∀ state, p.rel (rest state) (rest' state)) :
            p.rel (if inline then Pure.pure false >>= rest else Emit.isState id >>= rest)
              (if inline then Pure.pure false >>= rest' else Emit.isState id >>= rest') := by
          split
          · exact p.bind (p.pure _) hrest
          · exact p.bind (p.isState id) hrest
        refine hstate fun state => ?_
        dsimp only
        split
        · exact p.bind (hunit id) fun _ => p.pure _
        · refine p.ofEnv (fun _ _ => rfl) fun env _ => ?_
          split
          · exact p.bind (hshared id) fun _ => p.pure _
          · split
            · exact p.revisit id
            · exact p.bind (hinPlace id) fun _ => p.bind (ih _ _ _) fun _ => p.pure _

/-- Such a relation that passes to failures and to nodes that are recovered, too. -/
structure Chaining (envs : Env Node → Prop) extends Threading envs where
  get : rel (Emit.get : Emit Node State) Emit.get
  fail : ∀ {α : Type} {e : GenError}, e.root = e → rel (Emit.fail e : Emit Node α) (Emit.fail e)
  note : ∀ {e : Event}, e.isReference = false → rel (Emit.note e : Emit Node Unit) (Emit.note e)
  recover : ∀ {x y : Emit Node String} (id : NodeId),
    rel x y → rel (Emit.recover id x) (Emit.recover id y)
  revisit _ := fail rfl
  cutOff := bind (note rfl) fun _ => fail rfl

namespace Chaining

variable {envs : Env Node → Prop} (p : Chaining envs)

theorem demand (condition : Bool) (what : Misuse) :
    p.holds (Emit.demand condition what : Emit Node Unit) := by
  unfold Emit.demand
  split
  · exact p.pure _
  · exact p.fail rfl

theorem nodeAt (id : NodeId) : p.holds (Emit.nodeAt id : Emit Node Node) := by
  refine p.ofEnv (fun _ _ => rfl) fun env _ => ?_
  split
  · exact p.pure _
  · exact p.fail rfl

theorem startUnit {slot slot' : NodeId → Emit Node Nat} {id : NodeId}
    (h : p.rel (slot id) (slot' id)) : p.rel (Emit.startUnit slot id) (Emit.startUnit slot' id) :=
  p.bind h fun _ => p.bind p.get fun _ => p.bind (p.note rfl) fun _ => p.pure _

/-- The chains of one depth are made of units, shared nodes and statements of the depth below. -/
theorem chain {slot slot' : NodeId → Emit Node Nat}
    {shared shared' inPlace inPlace' : NodeId → Emit Node String}
    (hslot : ∀ id, p.rel (slot id) (slot' id)) (hshared : ∀ id, p.rel (shared id) (shared' id))
    (hinPlace : ∀ id, p.rel (inPlace id) (inPlace' id)) (inline : Bool) (target : Option NodeId) :
    p.rel
      (do return Code.lines (← Emit.chainParts (Emit.startUnit slot) shared inPlace
        ((← Emit.env).graph.size + 1) inline [] target))
      (do return Code.lines (← Emit.chainParts (Emit.startUnit slot') shared' inPlace'
        ((← Emit.env).graph.size + 1) inline [] target)) :=
  p.ofEnv (fun _ _ => rfl) fun _ _ => p.bind (p.chainParts
    (fun id => p.recover id (p.startUnit (hslot id))) (fun id => p.recover id (hshared id))
    (fun id => p.recover id (hinPlace id)) _ _ _ _) fun _ => p.pure _

end Chaining

/-- A relation between emissions that passes from what emissions are made of to the whole. -/
structure Pervasive (envs : Env Node → Prop) extends Chaining envs where
  ordinary : ∀ {α : Type} {x : Emit Node α}, Ordinary x → rel x x
  nodeVariable : ∀ id, rel (Emit.nodeVariable id : Emit Node String) (Emit.nodeVariable id)
  around : ∀ {α : Type} {x y x' y' : Emit Node α} {b : Bracket α}, x' = b.run x → y' = b.run y →
    b.InPlace → rel x y → rel x' y'
  nested : ∀ {α : Type} {x y : Emit Node α} (type : Ty), rel x y →
    rel (Emit.atPlace (Place.toNested type) x) (Emit.atPlace (Place.toNested type) y)
  referToUnit : ∀ {chain : NodeId → Emit Node String} {id : NodeId},
    rel (chain id) (chain id) → rel (Emit.referToUnit chain id) (Emit.referToUnit chain id)
  callShared : ∀ {depth : Nat} {id : NodeId},
    rel (Emit.chainAt depth true (some id)) (Emit.chainAt depth true (some id)) →
    rel (Emit.callShared (fun id => Emit.chainAt depth true (some id)) id)
      (Emit.callShared (fun id => Emit.chainAt depth true (some id)) id)
  pure a := ordinary (.pure a)
  get := ordinary .get

namespace Pervasive

variable {envs : Env Node → Prop} (p : Pervasive envs)

/-- The relation as a congruence. -/
def congruence : Congruence Node where
  rel _ x y := p.rel x y
  ordinary hx := p.ordinary hx
  bind hx hf := p.bind hx hf
  scope id hx := p.around (withScope_eq id _) (withScope_eq id _) (fun _ _ => ⟨rfl, rfl⟩) hx
  nested type hx := p.nested type hx

/-! ## Nodes -/

/-- All that hooks may ask for is related. -/
structure Serves (services services' : Services Node) : Prop where
  flow : ∀ target, p.rel (services.flow target) (services'.flow target)
  output : ∀ id port, p.rel (services.output id port) (services'.output id port)
  slot : ∀ id, p.rel (services.slot id) (services'.slot id)

section Nodes

variable {p} {services services' : Services Node} (h : p.Serves services services')
include h

theorem Serves.code (n : Node) (id : NodeId) : p.rel (n.code services id) (n.code services' id) :=
  p.congruence.code services services' n id (fun source _ port => h.output source port)
    (fun target _ => h.slot target) (fun _ => p.nodeVariable id) (fun target _ => h.flow target)
    fun _ => p.bind p.get fun _ => p.demand _ _

theorem Serves.statement (id : NodeId) :
    p.rel (Emit.statement services id) (Emit.statement services' id) :=
  p.bind (p.nodeAt id) fun n => p.bind p.get fun _ => p.bind (p.note rfl) fun _ =>
    p.bind (p.around (withSplice_eq _) (withSplice_eq _) (fun _ _ => ⟨rfl, rfl⟩) (h.code n id))
      fun _ => p.ofEnv (fun _ _ => rfl) fun _ _ => p.pure _

theorem Serves.value (n : Node) (id : NodeId) (port : UInt16) :
    p.rel (n.value services id port) (n.value services' id port) := by
  unfold Node.value
  split
  · exact p.congruence.mainValue services services' n id
      (fun source _ port => h.output source port) (fun target _ => h.slot target)
      (fun _ => p.nodeVariable id) (fun target _ => h.flow target) (h.flow none)
  · exact p.ordinary (Congruence.ordinary_otherValue n id port)

theorem Serves.readOutput (id : NodeId) (port : UInt16) :
    p.rel (Emit.readOutput services id port) (Emit.readOutput services' id port) := by
  refine p.bind p.get fun s => ?_
  split
  · exact p.fail rfl
  · refine p.ofEnv (fun _ _ => rfl) fun env _ => ?_
    split
    · exact p.ordinary (.unresolved fun _ => rfl)
    · exact p.bind p.get fun _ => p.bind (p.note rfl) fun _ =>
        p.bind (p.around (withReading_eq id port _) (withReading_eq id port _)
          (fun _ _ => ⟨rfl, rfl⟩) (h.value _ id port)) fun _ =>
            p.ofEnv (fun _ _ => rfl) fun _ _ => p.pure _

end Nodes

/-! ## Levels -/

/-- Everything that is emitted at any depth is related to itself. -/
theorem level (depth : Nat) :
    p.Serves (servicesAt depth) (servicesAt depth) ∧
      ∀ inline target, p.holds (chainAt depth inline target : Emit Node String) := by
  induction depth with
  | zero => exact ⟨⟨fun _ => p.cutOff, fun _ _ => p.cutOff, fun _ => p.cutOff⟩, fun _ _ => p.cutOff⟩
  | succ depth ih =>
    have hchain (inline : Bool) (target : Option NodeId) :
        p.holds (chainAt (depth + 1) inline target : Emit Node String) := by
      rw [chainAt]
      exact p.chain ih.1.slot (fun id => p.callShared (ih.2 true (some id))) ih.1.statement inline
        target
    refine ⟨⟨hchain false, fun id port => ?_, fun id => ?_⟩, hchain⟩
    · simp only [servicesAt, outputAt]
      exact ih.1.readOutput id port
    · simp only [servicesAt, slotAt]
      exact p.referToUnit (ih.2 true (some id))

end Pervasive

/-! ## Clerical steps -/

/-- A step that enters or looks up names, methods and units, and does nothing else. -/
structure Clerical (x : Emit Node α) : Prop where
  blind : ∀ env other s, x (env.under other) s = x env s
  leaves : ∀ env s, (x env s).2.situation = s.situation
  errors : ∀ env s e, (x env s).1 = .error e → e.root = e

namespace Clerical

theorem modify {f : State → State} (h : ∀ s, (f s).situation = s.situation) :
    Clerical (Emit.modify f : Emit Node Unit) where
  blind _ _ _ := rfl
  leaves _ := h
  errors := by rintro _ _ _ ⟨⟩

theorem pure (a : α) : Clerical (Pure.pure a : Emit Node α) where
  blind _ _ _ := rfl
  leaves _ _ := rfl
  errors := by rintro _ _ _ ⟨⟩

theorem get : Clerical (Emit.get : Emit Node State) where
  blind _ _ _ := rfl
  leaves _ _ := rfl
  errors := by rintro _ _ _ ⟨⟩

theorem fail {e : GenError} (h : e.root = e) : Clerical (Emit.fail e : Emit Node α) where
  blind _ _ _ := rfl
  leaves _ _ := rfl
  errors := by rintro _ _ _ ⟨⟩; exact h

theorem note (e : Event) : Clerical (Emit.note e : Emit Node Unit) :=
  modify fun _ => rfl

theorem refer (member : Added) : Clerical (Emit.refer member : Emit Node Unit) where
  blind _ _ _ := rfl
  leaves _ _ := rfl
  errors := by rintro _ _ _ ⟨⟩

theorem isState (id : NodeId) : Clerical (Emit.isState id : Emit Node Bool) where
  blind _ _ _ := rfl
  leaves _ _ := rfl
  errors := by rintro _ _ _ ⟨⟩

theorem registerUnit (id : NodeId) : Clerical (Emit.registerUnit id : Emit Node Nat) where
  blind _ _ _ := rfl
  leaves _ s := by
    unfold Emit.registerUnit StateUnits.register
    cases s.units.get? id <;> rfl
  errors := by rintro _ _ _ ⟨⟩

theorem beginUnit (id : NodeId) : Clerical (Emit.beginUnit id : Emit Node (Option BodyId)) where
  blind _ _ _ := rfl
  leaves _ _ := by
    unfold Emit.beginUnit
    split <;> rfl
  errors _ _ _ := by
    unfold Emit.beginUnit
    split <;> rintro ⟨⟩

theorem registerShared (id : NodeId) (title : String) (type : Ty) :
    Clerical (Emit.registerShared id title type : Emit Node (String × BodyId)) := by
  suffices h : ∀ env s, (Emit.registerShared id title type env s).2.situation = s.situation ∧
      ∀ e, (Emit.registerShared id title type env s).1 = .error e → e.root = e from
    ⟨fun _ _ _ => rfl, fun env s => (h env s).1, fun env s => (h env s).2⟩
  intro env s
  obtain ⟨e, he, hrun⟩ | ⟨handle, symbols, names, hentered, ⟨_, hrun⟩ | ⟨m, _, hrun⟩⟩ :=
    registerShared_run id title type s
  · rw [hrun]
    exact ⟨rfl, by rintro _ ⟨⟩; exact GenError.root_of_isPlain he⟩
  all_goals
    have hbodies : symbols.declBodies = s.symbols.declBodies :=
      (SymbolTable.declBodies_registerMethod hentered).elim (·) (·)
    rw [hrun]
    refine ⟨by simp only [State.situation, State.lasting, hbodies], ?_⟩
    rintro _ ⟨⟩ <;> rfl

end Clerical

/-- A relation that clerical steps are in to themselves, wherever it is looked at. -/
structure Situational (envs : Env Node → Prop) extends Chaining envs where
  clerical : ∀ {α : Type} {x : Emit Node α}, Clerical x → rel x x
  placed : ∀ {α : Type} {x y : Emit Node α} {change : Place → Place},
    (∀ place, (change place).ownerName = place.ownerName) →
      rel x y → rel (Emit.atPlace change x) (Emit.atPlace change y)
  emitUnit : ∀ {chain chain' : NodeId → Emit Node String} {id : NodeId} (body : BodyId),
    rel (chain id) (chain' id) → rel (Emit.emitUnit chain id body) (Emit.emitUnit chain' id body)
  pure a := clerical (.pure a)
  get := clerical .get
  fail h := clerical (.fail h)
  note _ := clerical (.note _)
  isState id := clerical (.isState id)

namespace Situational

variable {envs : Env Node → Prop} (p : Situational envs) {chain chain' : NodeId → Emit Node String}
  {id : NodeId} (h : p.rel (chain id) (chain' id))
include h

theorem unitSlot : p.rel (Emit.unitSlot chain id) (Emit.unitSlot chain' id) := by
  refine p.bind (p.clerical (.note _)) fun _ => p.bind (p.isState id) fun _ =>
    p.bind (p.demand _ _) fun _ => p.bind p.get fun _ => p.bind (p.demand _ _) fun _ =>
      p.bind (p.clerical (.modify fun _ => rfl)) fun _ =>
        p.bind (p.clerical (.registerUnit id)) fun _ =>
          p.bind (p.clerical (.beginUnit id)) fun begun => ?_
  cases begun with
  | none => exact p.bind (p.clerical (.modify fun _ => rfl)) fun _ => p.pure _
  | some body => exact p.bind (p.emitUnit body h) fun _ => p.pure _

theorem referToUnit : p.rel (Emit.referToUnit chain id) (Emit.referToUnit chain' id) :=
  p.bind (p.unitSlot h) fun _ => p.bind (p.clerical (.refer _)) fun _ => p.pure _

theorem callShared : p.rel (Emit.callShared chain id) (Emit.callShared chain' id) := by
  refine p.bind p.get fun _ => p.bind (p.bind p.get fun s => ?_) fun _ => p.pure _
  split
  · exact p.bind (p.demand _ _) fun _ => p.bind (p.clerical (.refer _)) fun _ => p.pure _
  · exact p.bind (p.nodeAt id) fun n => p.bind (p.clerical (.registerShared id _ _)) fun _ =>
      p.bind (p.clerical (.refer _)) fun _ => p.bind (p.placed (fun _ => rfl) h) fun _ =>
        p.bind (p.clerical (.modify fun _ => rfl)) fun _ => p.pure _

omit h in
/-- Such a relation is pervasive, if it passes from ordinary steps through every bracket. -/
def pervasive (ordinary : ∀ {α : Type} {x : Emit Node α}, Ordinary x → p.rel x x)
    (around : ∀ {α : Type} {x y x' y' : Emit Node α} {b : Bracket α},
      x' = b.run x → y' = b.run y → b.InPlace → p.rel x y → p.rel x' y') :
    Pervasive envs where
  toChaining := p.toChaining
  ordinary := ordinary
  nodeVariable id := by
    refine p.bind p.get fun s => ?_
    split
    · exact p.bind p.get fun _ => p.fail rfl
    · exact ordinary (.variableName _)
  around := around
  nested _ hx := p.placed (fun _ => rfl) hx
  referToUnit h := p.referToUnit h
  callShared h := p.callShared h

end Situational

/-! ## Relations between states -/

/-- A relation that emissions can be in to where they started, whatever they enter. -/
structure Lasting (R : State → State → Prop) : Prop where
  trans : ∀ {s s' s''}, R s s' → R s' s'' → R s s''
  clerical : ∀ {s s'}, s'.situation = s.situation → R s s'
  placed : ∀ {s s' place}, R { s with place } s' → R s { s' with place := s.place }
  diagnosed : ∀ (s : State) {d : Diagnostic}, d.node.isSome = true →
    R s { s with diagnostics := s.diagnostics ++ [d] }

/-- Emissions that end, well or not, in a state that is in the relation. -/
def Lasting.situational {R : State → State → Prop} (h : Lasting R) : Situational fun _ => True where
  rel x _ := ∀ env s, R s (x env s).2
  clerical hx env s := h.clerical (hx.leaves env s)
  bind {_ _ x _ f _} hx hf env s := by
    have hs := hx env s
    rcases hrun : x env s with ⟨e | a, s'⟩
    · rw [bind_eq_of_error hrun]
      rwa [hrun] at hs
    · rw [bind_eq_of_ok hrun]
      rw [hrun] at hs
      exact h.trans hs (hf a env s')
  ofEnv _ hf env s := hf env trivial env s
  placed _ hx env s := by
    rw [atPlace_apply]
    exact h.placed (hx env _)
  recover {x _} id hx env s := by
    have hs := hx env s
    obtain ⟨text, s', hrun, hend⟩ | ⟨e, s', hrun, ⟨_, text, hend⟩ | ⟨_, hend⟩⟩ :=
      recover_cases id x env s <;> rw [hrun] at hs <;> rw [hend]
    · exact hs
    · exact h.trans hs (h.diagnosed s' rfl)
    · exact hs
  emitUnit {chain _ id} body hchain env s := by
    have hs : R s (Emit.atPlace (Place.toUnit body) (chain id) env s).2 := by
      rw [atPlace_apply]
      exact h.placed (hchain env _)
    rw [emitUnit_apply]
    rcases hrun : Emit.atPlace (Place.toUnit body) (chain id) env s with ⟨_ | _, s'⟩ <;>
      rw [hrun] at hs <;> exact h.trans hs (h.clerical rfl)

end Emit

end FlowClass
