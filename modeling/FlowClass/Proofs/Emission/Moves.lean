import FlowClass.Proofs.Emission.Level
import FlowClass.Proofs.Emission.Preparation

/-!
# Moves

Whatever an emission does to the state, it does by spelling steps, by a few changes of its own, and by
going to another place and coming back. `Moves` lists them all, with what is known when each of them
is made, and every emission inside a body is made of them (`Emit.moving`), whether it succeeds or
fails. The bodies of a pass are filled one after the other (`Generation.exists_fillings`).

An invariant of emission is then a case for each move, by induction on `Moves`: no emission has to be
opened again.
-/

namespace FlowClass

open SymbolTable Emit State List

variable {s s' : State} {symbols : SymbolTable} {names : Names} {m : MethodSymbol}
  {handle : MethodHandle} {id : NodeId}

/-- The method that was entered for a shared node. -/
def State.methodFor? (s : State) (id : NodeId) : Option MethodSymbol :=
  (s.symbols.methodKeys.lookup (.node id)).bind s.symbols.method?

def State.bodyText? (s : State) (body : BodyId) : Option String :=
  (s.symbols.body? body).bind Body.text

/-- The state after a body was given its text. -/
def State.giveText (s : State) (body : BodyId) (text : String) : State :=
  { s with symbols := s.symbols.setBodyText body text }

/-- A shared node was reached for the first time in `s`, and its chain came to the text in `s'`. -/
structure Emit.Wrote (env : Env Node) (s s' : State) (id : NodeId) (m : MethodSymbol)
    (text : String) : Prop where
  method : s'.methodFor? id = some m
  run : ∃ n type handle symbols names depth, env.graph.get? id = some n ∧
    s.shared.lookup id = none ∧
    s.symbols.registerMethod s.names (some (.node id)) (sharedMethod s.place id n.title type) =
      .ok (handle, symbols, names) ∧
    symbols.method? handle = some m ∧
    chainAt depth true (some id) env (s.intoShared id type symbols names m) =
      (.ok text, { s' with place := s.place.toShared m.body type })

/-- What an emission inside a body may do to the state. -/
inductive Moves (env : Env Node) : State → State → Prop where
  | refl (s : State) : Moves env s s
  | trans {s s' s'' : State} : Moves env s s' → Moves env s' s'' → Moves env s s''
  | spell {s s' : State} (h : s.Spells s') : Moves env s s'
  /-- What the brackets around outputs, statements and loops change. -/
  | dynamic (s : State) (reading : List (NodeId × UInt16)) (splices : List Splice)
    (scopes : List NodeId) : Moves env s { s with reading, splices, scopes }
  | note (s : State) {e : Event} (h : e.isReference = false) :
    Moves env s { s with journal := e :: s.journal }
  | diagnose (s : State) (d : Diagnostic) : Moves env s { s with diagnostics := s.diagnostics ++ [d] }
  /-- The chain of a shared node becomes the text of its method. -/
  | text {s s' : State} {id : NodeId} {m : MethodSymbol} {text : String}
    (h : Emit.Wrote env s s' id m text) : Moves env s s' → Moves env s (s'.giveText m.body text)
  /-- A body inside an expression. -/
  | nested {s s' : State} (type : Ty) :
    Moves env { s with place := s.place.toNested type } s' → Moves env s { s' with place := s.place }
  /-- A unit is asked for the first time. -/
  | unit {s s' : State} {id : NodeId} {body : BodyId} {units : StateUnits}
    (hstatic : s.place.isStatic = false)
    (hbegin : (enterUnit id s).units.begin id = some (body, units)) (text : String) :
    Moves env { enterUnit id s with units, place := s.place.toUnit body } s' →
    Moves env s { s' with place := s.place, units := s'.units.finish id text }
  /-- A unit is asked for again. -/
  | unitAgain (s : State) {id : NodeId} (hstatic : s.place.isStatic = false) :
    Moves env s
      { enterUnit id s with units := (enterUnit id s).units.noteReference id }
  | referToUnit (s : State) (id : NodeId) (hstatic : s.place.isStatic = false) :
    Moves env s { s with journal := .refer (.unit id) s.place.body :: s.journal }
  /-- A shared node is reached for the first time. -/
  | shared {s s' : State} {id : NodeId} {n : Node} {type : Ty} {handle : MethodHandle}
    {symbols : SymbolTable} {names : Names} {m : MethodSymbol}
    (hn : env.graph.get? id = some n) (hnew : s.shared.lookup id = none)
    (hmethod : s.symbols.registerMethod s.names (some (.node id))
      (sharedMethod s.place id n.title type) = .ok (handle, symbols, names))
    (hm : symbols.method? handle = some m) :
    Moves env (s.intoShared id type symbols names m) s' → Moves env s { s' with place := s.place }
  /-- The method of a shared node is entered and cannot be found again. -/
  | sharedLost (s : State) {id : NodeId} {n : Node} {type : Ty} {handle : MethodHandle}
    {symbols : SymbolTable} {names : Names} (hn : env.graph.get? id = some n)
    (hmethod : s.symbols.registerMethod s.names (some (.node id))
      (sharedMethod s.place id n.title type) = .ok (handle, symbols, names))
    (hlost : symbols.method? handle = none) :
    Moves env s { s with symbols, names }
  | referToShared (s : State) {id : NodeId} {method : String × Ty}
    (hknown : s.shared.lookup id = some method) :
    Moves env s { s with journal := .refer (.shared id) s.place.body :: s.journal }

/-- What an entry point may do to the state: its chain is emitted at its place, and becomes the text
of its body unless it fails. -/
inductive Filling (env : Env Node) : State → State → Prop where
  | emitted {s s' : State} {e : EntryPoint} {body : BodyId} {decl : Decl} {place : Place}
    (he : e ∈ env.graph.classDecl.entryPoints) (hbody : entryBody? s e = some body)
    (hdecl : env.graph.classDecl.get e.owner = .ok decl)
    (hplace : entryPlace? env.graph.classDecl e body decl = some place)
    (h : Moves env { s with place } s') : Filling env s { s' with place := s.place }
  | text (s : State) (body : BodyId) (text : String) :
    Filling env s { s with symbols := s.symbols.setBodyText body text }

/-! ## Methods -/

section Methods

variable {key : SymbolKey}
  (hrun : s.symbols.registerMethod s.names (some key) m = .ok (handle, symbols, names))
include hrun

/-- A key that is known keeps its method. -/
theorem lookup_registerMethod {other : SymbolKey} {known : MethodHandle}
    (hknown : s.symbols.methodKeys.lookup other = some known) :
    symbols.methodKeys.lookup other = some known := by
  obtain ⟨_, rfl⟩ | ⟨hnew, hkeys, _⟩ := registerMethod_keyed hrun
  · exact hknown
  · have hne : other ≠ key := fun heq => by
      rw [heq, hnew] at hknown
      cases hknown
    rw [hkeys, lookup_cons_of_ne hne]
    exact hknown

theorem lookup_registerMethod_self : symbols.methodKeys.lookup key = some handle := by
  obtain ⟨hknown, rfl⟩ | ⟨_, hkeys, _⟩ := registerMethod_keyed hrun
  · exact hknown
  · rw [hkeys, List.lookup_cons_self]

/-- A method that is known stays what it is. -/
theorem method?_registerMethod {known : MethodHandle} {other : MethodSymbol}
    (hother : s.symbols.method? known = some other) : symbols.method? known = some other := by
  have hmethods : s.symbols.methods <+: symbols.methods := by
    obtain ⟨_, rfl⟩ | ⟨_, _, ⟨hsame, _⟩ | ⟨_, name, hadded⟩⟩ := registerMethod_keyed hrun
    · exact List.prefix_rfl
    · exact hsame ▸ List.prefix_rfl
    · exact hadded ▸ List.prefix_append _ _
  obtain ⟨more, hmore⟩ := hmethods
  rw [method?, ← hmore, List.getElem?_append_left (List.getElem?_eq_some_iff.1 hother).1]
  exact hother

end Methods

/-- The method of a node belongs to no declaration. -/
theorem SymbolTable.registerMethod_node {t t' : SymbolTable} {names' : Names}
    (h : t.registerMethod names (some (.node id)) m = .ok (handle, t', names')) :
    t'.declNames = t.declNames ∧ t'.declBodies = t.declBodies ∧
      ∃ new, t'.bodies = t.bodies ++ new := by
  obtain ⟨_, rfl, _⟩ | ⟨_, _, _, _, rfl, _⟩ | ⟨_, hadded⟩ := registerMethod_ok h
  · exact ⟨rfl, rfl, [], (append_nil _).symm⟩
  · exact ⟨rfl, rfl, [], (append_nil _).symm⟩
  · rw [addMethod_eq] at hadded
    cases hadded
    exact ⟨rfl, rfl, [{}], rfl⟩

/-! ## What is kept -/

/-- What no move changes, and what moves only add to. -/
structure State.Kept (s s' : State) : Prop where
  classifier : s'.classifier = s.classifier
  params : s'.params = s.params
  accessors : s'.accessors = s.accessors
  declNames : s'.symbols.declNames = s.symbols.declNames
  declBodies : s'.symbols.declBodies = s.symbols.declBodies
  length : s.symbols.bodies.length ≤ s'.symbols.bodies.length
  varNames : s.symbols.varNames <+: s'.symbols.varNames
  added : ∀ body, s.symbols.added body ⊆ s'.symbols.added body
  lookup : ∀ {key handle}, s.symbols.methodKeys.lookup key = some handle →
    s'.symbols.methodKeys.lookup key = some handle
  method? : ∀ {handle m}, s.symbols.method? handle = some m → s'.symbols.method? handle = some m
  shared : ∀ {id entry}, s.shared.lookup id = some entry → s'.shared.lookup id = some entry
  journal : s.journal ⊆ s'.journal
  diagnostics : s.diagnostics ⊆ s'.diagnostics

namespace State.Kept

theorem refl (s : State) : s.Kept s where
  classifier := rfl
  params := rfl
  accessors := rfl
  declNames := rfl
  declBodies := rfl
  length := le_rfl
  varNames := prefix_rfl
  added _ := Subset.refl _
  lookup h := h
  method? h := h
  shared h := h
  journal := Subset.refl _
  diagnostics := Subset.refl _

theorem trans {s s' s'' : State} (h : s.Kept s') (h' : s'.Kept s'') : s.Kept s'' where
  classifier := h'.classifier.trans h.classifier
  params := h'.params.trans h.params
  accessors := h'.accessors.trans h.accessors
  declNames := h'.declNames.trans h.declNames
  declBodies := h'.declBodies.trans h.declBodies
  length := h.length.trans h'.length
  varNames := h.varNames.trans h'.varNames
  added body := Subset.trans (h.added body) (h'.added body)
  lookup hkey := h'.lookup (h.lookup hkey)
  method? hm := h'.method? (h.method? hm)
  shared hid := h'.shared (h.shared hid)
  journal := Subset.trans h.journal h'.journal
  diagnostics := Subset.trans h.diagnostics h'.diagnostics

theorem frame (h : s.Frame s') : s.Kept s' where
  classifier := h.classifier
  params := h.params
  accessors := h.accessors
  declNames := h.declNames
  declBodies := h.declBodies
  length := by simpa using (congrArg List.length h.bodyTexts).ge
  varNames := h.varNames
  added := h.contributed
  lookup hkey := h.methodKeys ▸ hkey
  method? hm := by
    rw [SymbolTable.method?, h.methods]
    exact hm
  shared hid := h.shared ▸ hid
  journal := by
    obtain ⟨new, hnew, _⟩ := h.journal
    exact hnew ▸ subset_append_right _ _
  diagnostics := h.diagnostics ▸ Subset.refl _

theorem registerMethod
    (hrun : s.symbols.registerMethod s.names (some (.node id)) m = .ok (handle, symbols, names)) :
    s.Kept { s with symbols, names } := by
  obtain ⟨hnames, hhomes, new, hbodies⟩ := registerMethod_node hrun
  exact { refl s with
    declNames := hnames
    declBodies := hhomes
    length := by simp [hbodies]
    varNames := by
      unfold SymbolTable.varNames
      rw [(registerMethod_same hrun).1]
    added := added_append hbodies
    lookup := lookup_registerMethod hrun
    method? := method?_registerMethod hrun }

/-- A shared node is entered once. -/
theorem callingShared {m' : MethodSymbol} {type : Ty}
    (hrun : s.symbols.registerMethod s.names (some (.node id)) m = .ok (handle, symbols, names))
    (hnew : s.shared.lookup id = none) : s.Kept (s.callingShared id type symbols names m') :=
  { registerMethod hrun with
    shared := fun {other entry} hother => by
      have hne : other ≠ id := fun heq => by
        rw [heq, hnew] at hother
        cases hother
      rw [lookup_cons_of_ne hne]
      exact hother
    journal := subset_cons_self _ _ }

theorem enterUnit (s : State) (id : NodeId) : s.Kept (Emit.enterUnit id s) := by
  unfold Emit.enterUnit
  obtain ⟨u, _, hknown⟩ | ⟨_, hnew⟩ := s.units.register_cases s.symbols id
  · rw [hknown]
    exact { refl s with journal := subset_cons_self _ _ }
  · rw [hnew]
    exact { refl s with
      length := by simp
      added := added_append rfl
      journal := subset_cons_self _ _ }

theorem giveText (s : State) (body : BodyId) (text : String) : s.Kept (s.giveText body text) :=
  { refl s with
    length := (length_modify ..).ge
    added := fun other => (s.symbols.added_setBodyText body text other).symm ▸ Subset.refl _ }

theorem clean (h : s.Kept s') (hclean : s'.diagnostics = []) : s.diagnostics = [] :=
  eq_nil_of_subset_nil (hclean ▸ h.diagnostics)

theorem methodFor? (h : s.Kept s')
    (hm : s.methodFor? id = some m) : s'.methodFor? id = some m := by
  obtain ⟨handle, hkey, hm⟩ := Option.bind_eq_some_iff.1 hm
  exact Option.bind_eq_some_iff.2 ⟨handle, h.lookup hkey, h.method? hm⟩

end State.Kept

namespace Moves

variable {env : Env Node}

theorem spells (h : Relation.ReflTransGen State.Spells s s') : Moves env s s' := by
  induction h with
  | refl => exact .refl s
  | tail _ hstep ih => exact ih.trans (.spell hstep)

/-- Every move comes back to its place. -/
theorem place (h : Moves env s s') : s'.place = s.place := by
  induction h with
  | trans _ _ ih ih' => exact ih'.trans ih
  | spell h => exact h.frame.place
  | text h _ ih => exact ih
  | _ => rfl

/-- Each move keeps what is known. -/
theorem kept (h : Moves env s s') : s.Kept s' := by
  induction h with
  | refl s => exact .refl s
  | trans _ _ ih ih' => exact ih.trans ih'
  | spell h => exact .frame h.frame
  | dynamic s reading splices scopes => exact { Kept.refl s with }
  | diagnose s d => exact { Kept.refl s with diagnostics := subset_append_left _ _ }
  | nested type _ ih => exact { ih with }
  | unit hstatic hbegin text _ ih => exact (Kept.enterUnit _ _).trans { ih with }
  | unitAgain s hstatic => exact { Kept.enterUnit s _ with }
  | shared hn hnew hmethod hm _ ih => exact (Kept.callingShared hmethod hnew).trans { ih with }
  | sharedLost s hn hmethod hlost => exact .registerMethod hmethod
  | text h _ ih => exact ih.trans (.giveText _ _ _)
  | _ => exact { Kept.refl _ with journal := subset_cons_self _ _ }

end Moves

theorem Filling.kept {env : Env Node} (h : Relation.ReflTransGen (Filling env) s s') :
    s.Kept s' := by
  induction h with
  | refl => exact .refl s
  | tail _ hstep ih =>
    refine ih.trans ?_
    cases hstep with
    | emitted he hbody hdecl hplace h => exact { h.kept with }
    | text body text => exact .giveText _ body text

namespace Emit

variable {α β : Type} {x : Emit Node α}

/-- The emission is made of moves in every state whose classification is sealed. -/
def Moving (env : Env Node) (frozen : Classification) (x : Emit Node α) : Prop :=
  ∀ s, s.classifier.frozen = some frozen → Moves env s (x env s).2

namespace Moving

variable {env : Env Node} {frozen : Classification}

/-! ## Closure -/

theorem quiet (hx : Quiet x) : Moving env frozen x :=
  fun s _ => .spells (hx env s)

theorem note {e : Event} (h : e.isReference = false) :
    Moving env frozen (note e : Emit Node Unit) :=
  fun s _ => .note s h

theorem bind {f : α → Emit Node β} (hx : Moving env frozen x) (hf : ∀ a, Moving env frozen (f a)) :
    Moving env frozen (x >>= f) := by
  intro s hs
  have hfirst := hx s hs
  rcases hrun : x env s with ⟨e | a, s'⟩
  · rw [bind_eq_of_error hrun]
    rwa [hrun] at hfirst
  · rw [bind_eq_of_ok hrun]
    rw [hrun] at hfirst
    exact hfirst.trans (hf a s' ((congrArg _ hfirst.kept.classifier).trans hs))

theorem nested (type : Ty) (hx : Moving env frozen x) :
    Moving env frozen (atPlace (Place.toNested type) x) := by
  intro s hs
  rw [atPlace_apply]
  exact .nested type (hx _ hs)

theorem around {y : Emit Node α} {b : Bracket α} (hy : y = b.run x) (hb : b.InPlace)
    (hx : Moving env frozen x) : Moving env frozen y := by
  subst hy
  intro s hs
  have hmoves {s s' : State} (h : Around s s') (hplace : s'.place = s.place) : Moves env s s' := by
    obtain ⟨_, _, _, _, rfl⟩ := h
    cases hplace
    exact .dynamic s _ _ _
  have henter := hmoves (b.enter_eq s) (hb s s).1
  have hinner := hx (b.enter s) ((congrArg _ henter.kept.classifier).trans hs)
  exact (henter.trans hinner).trans (hmoves (b.leave_eq s _) (hb s _).2)

theorem recover {x : Emit Node String} (id : NodeId) (hx : Moving env frozen x) :
    Moving env frozen (recover id x) := by
  intro s hs
  have hinner := hx s hs
  obtain ⟨text, s', hrun, hend⟩ | ⟨e, s', hrun, ⟨_, text, hend⟩ | ⟨_, hend⟩⟩ :=
    recover_cases id x env s <;> rw [hrun] at hinner <;> rw [hend]
  · exact hinner
  · exact hinner.trans (.diagnose s' _)
  · exact hinner

theorem isState (id : NodeId) : Moving env frozen (isState id) := by
  intro s hs
  rw [isState_of_frozen hs]
  exact .refl s

end Moving

/-! ## Units -/

section Flow

variable {env : Env Node} {frozen : Classification} {chain : NodeId → Emit Node String}

theorem moving_unitSlot (h : Moving env frozen (chain id)) :
    Moving env frozen (unitSlot chain id) := by
  intro s hs
  obtain ⟨_, _, hrun⟩ | ⟨_, hstatic, ⟨_, hrun⟩ | ⟨body, units, hbegin, hrun⟩⟩ :=
    unitSlot_cases id hs
  · rw [hrun]
    exact .note s rfl
  · rw [hrun]
    exact .unitAgain s hstatic
  · rw [hrun chain env _ _ rfl]
    exact .unit hstatic hbegin _ (h _ hs)

/-- A unit that was asked for was not asked for from static code. -/
theorem isStatic_of_unitSlot {slot : Nat} (hs : s.classifier.frozen = some frozen)
    (h : unitSlot chain id env s = (.ok slot, s')) : s.place.isStatic = false := by
  obtain ⟨_, _, hrun⟩ | ⟨_, hstatic, _⟩ := unitSlot_cases id hs
  · rw [hrun] at h
    cases h
  · exact hstatic

theorem moving_referToUnit (h : Moving env frozen (chain id)) :
    Moving env frozen (referToUnit chain id) := by
  intro s hs
  have hslot := moving_unitSlot h s hs
  rcases hrun : unitSlot chain id env s with ⟨e | slot, s'⟩
  · rw [referToUnit_of_error hrun]
    rwa [hrun] at hslot
  · rw [referToUnit_of_ok hrun]
    rw [hrun] at hslot
    have hstatic := isStatic_of_unitSlot hs hrun
    rw [← hslot.place] at hstatic
    exact hslot.trans (.referToUnit s' id hstatic)

/-! ## Shared nodes -/

section Shared

variable {depth : Nat} (h : Moving env frozen (chainAt depth true (some id)))
include h

/-- The method of a shared node is emitted when it is entered. -/
theorem moving_callShared :
    Moving env frozen (callShared (fun id => chainAt depth true (some id)) id) := by
  intro s hs
  obtain ⟨_, _, hrun⟩ | ⟨_, hknown, hrun⟩ |
    ⟨hnew, n, handle, symbols, names, hn, hmethod, ⟨hlost, hrun⟩ | ⟨m, hm, hrun⟩⟩ :=
    callShared_cases id (env.graph.get? id) s
  · rw [hrun _ env rfl]
    exact .refl s
  · rw [hrun]
    exact .referToShared s hknown
  · rw [hrun _ env rfl]
    exact .sharedLost s hn hmethod hlost
  · have hinner := h (s.intoShared id s.place.returnType symbols names m) hs
    rcases hbody : chainAt depth true (some id) env
      (s.intoShared id s.place.returnType symbols names m) with ⟨r, s'⟩
    rw [hbody] at hinner
    rw [hrun _ env rfl r s' hbody]
    have hentered := Moves.shared hn hnew hmethod hm hinner
    cases r with
    | error e => exact hentered
    | ok text =>
      -- the method is still the one that was entered for the node
      have hkept := hinner.kept.methodFor? (Option.bind_eq_some_iff.2
        ⟨handle, lookup_registerMethod_self hmethod, hm⟩)
      have hplace : s'.place = s.place.toShared m.body s.place.returnType := hinner.place
      have hwrote : Emit.Wrote env s { s' with place := s.place } id m text :=
        ⟨hkept, n, _, handle, symbols, names, depth, hn, hnew, hmethod, hm, by rw [hbody, ← hplace]⟩
      exact .text hwrote hentered

end Shared

end Flow

/-! ## Levels -/

section Levels

variable {env : Env Node} {frozen : Classification}

/-- Being made of moves is pervasive. -/
def moving (env : Env Node) (frozen : Classification) : Pervasive (· = env) where
  rel x _ := Moving env frozen x
  ordinary hx := .quiet hx.quiet
  fail _ := .quiet (Quiet.fail _)
  bind hx hf := hx.bind hf
  ofEnv _ h := fun s hs => h env rfl s hs
  note h := .note h
  isState id := .isState id
  nodeVariable id := .quiet (Quiet.nodeVariable id)
  around hy _ hb hx := hx.around hy hb
  nested type hx := hx.nested type
  recover id hx := hx.recover id
  referToUnit h := moving_referToUnit h
  callShared h := moving_callShared h

/-! ## Entry points -/

/-- The emission fills bodies, one after the other. -/
def Fills (env : Env Node) (frozen : Classification) (x : Emit Node Unit) : Prop :=
  ∀ s, s.classifier.frozen = some frozen → Relation.ReflTransGen (Filling env) s (x env s).2

theorem fills_entry {e : EntryPoint} (he : e ∈ env.graph.classDecl.entryPoints) :
    Fills env frozen (entry e) := by
  intro s hs
  rw [entry_apply]
  obtain ⟨err, _, hrun⟩ | ⟨body, decl, place, hbody, hdecl, hplace, hrun⟩ :=
    entryWith_cases env.graph.classDecl e s
  · rw [hrun _ env rfl]
  · have hflow : Moving env frozen (chainAt env.depth false (some e.node)) :=
      ((moving env frozen).level env.depth).2 false (some e.node)
    have hinner := hflow { s with place } hs
    rw [hrun _ env rfl, bind_apply, withPlace_apply]
    rcases hchain : chainAt env.depth false (some e.node) env { s with place } with ⟨err | text, s'⟩
    · rw [hchain] at hinner
      exact .single (.emitted he hbody hdecl hplace hinner)
    · rw [hchain] at hinner
      exact .tail (.single (.emitted he hbody hdecl hplace hinner)) (.text _ body text)

theorem fills_entries {es : List EntryPoint}
    (hes : ∀ e ∈ es, e ∈ env.graph.classDecl.entryPoints) :
    Fills env frozen (es.forM entry) := by
  induction es with
  | nil => exact fun _ _ => .refl
  | cons e es ih =>
    intro s hs
    have hfirst := fills_entry (hes e List.mem_cons_self) s hs
    have hcons : (e :: es).forM entry env s = (entry e >>= fun _ => es.forM entry) env s := rfl
    rw [hcons]
    rcases hrun : entry e env s with ⟨err | _, s'⟩
    · rw [bind_eq_of_error hrun]
      rwa [hrun] at hfirst
    · rw [bind_eq_of_ok hrun]
      rw [hrun] at hfirst
      have hsealed := (congrArg Classifier.frozen (Filling.kept hfirst).classifier).trans hs
      exact hfirst.trans (ih (fun e' he' => hes e' (List.mem_cons_of_mem _ he')) s' hsealed)

end Levels

end Emit

/-- The bodies of a pass are emitted by moves from a prepared state. -/
theorem Generation.exists_fillings {graph : Graph Node} {config : Config} {gen : Generation Node}
    (h : start graph config = .ok gen) (hrun : bodies gen.env gen.state = (.ok (), s)) :
    ∃ s₀, prepare gen.env (State.initial gen.env) = (.ok (), s₀) ∧
      Relation.ReflTransGen (Filling gen.env) s₀ s := by
  rw [(start_eq h).2.2.2] at hrun
  obtain ⟨_, s₀, hprepare, hentries⟩ := bind_eq_ok_iff.1 hrun
  rw [env_bind] at hentries
  have hfills : Emit.Fills gen.env gen.env.sealed
      (gen.env.graph.classDecl.entryPoints.forM entry) := fills_entries fun _ he => he
  have hsteps := hfills s₀ (prepared h ((start_eq h).2.2.2 ▸ hprepare)).frozen
  rw [hentries] at hsteps
  exact ⟨s₀, hprepare, hsteps⟩

end FlowClass
