import FlowClass.Proofs.Emission.Quiet

/-!
# Running the brackets

One equation for each operation that runs an emission inside another: what the inner emission starts
from, and what is put back after it. Proofs about whole emissions rewrite with these and never open
the operations.
-/

namespace FlowClass.Emit

variable {ν α β : Type} {env : Env ν} {s s' : State} {id : NodeId} {chain : NodeId → Emit ν String}
  {f : α → Emit ν β} {x : Emit ν α} {frozen : Classification} {e : GenError}

theorem bind_eq_of_ok {a : α} (h : x env s = (.ok a, s')) : (x >>= f) env s = f a env s' := by
  rw [bind_apply, h]

theorem bind_eq_of_error (h : x env s = (.error e, s')) : (x >>= f) env s = (.error e, s') := by
  rw [bind_apply, h]

theorem fst_bind_of_error (h : (x env s).1 = .error e) : ((x >>= f) env s).1 = .error e := by
  rw [bind_eq_of_error (Prod.ext h rfl)]

theorem bind_congr_apply {y : Emit ν α} (h : x env s = y env s') (f : α → Emit ν β) :
    (x >>= f) env s = (y >>= f) env s' := by
  rw [bind_apply, bind_apply, h]

/-- A step that succeeds gives way to the next one. -/
theorem bind_eq_ok_iff {s'' : State} {b : β} :
    (x >>= f) env s = (.ok b, s'') ↔ ∃ a s', x env s = (.ok a, s') ∧ f a env s' = (.ok b, s'') := by
  rw [bind_apply]
  rcases x env s with ⟨e | a, s'⟩
  · simp
  · constructor
    · exact fun h => ⟨a, s', rfl, h⟩
    · rintro ⟨_, _, ⟨⟩, h⟩
      exact h

/-! ## Steps -/

theorem env_bind (f : Env ν → Emit ν α) (env : Env ν) (s : State) :
    ((Emit.env : Emit ν (Env ν)) >>= f) env s = f env env s :=
  rfl

theorem get_bind (f : State → Emit ν α) (env : Env ν) (s : State) :
    ((Emit.get : Emit ν State) >>= f) env s = f s env s :=
  rfl

theorem modify_bind (g : State → State) (f : Unit → Emit ν α) (env : Env ν) (s : State) :
    ((Emit.modify g : Emit ν Unit) >>= f) env s = f () env (g s) :=
  rfl

theorem note_bind (e : Event) (f : Unit → Emit ν α) (env : Env ν) (s : State) :
    ((note e : Emit ν Unit) >>= f) env s = f () env { s with journal := e :: s.journal } :=
  rfl

theorem refer_bind (member : Added) (f : Unit → Emit ν α) (env : Env ν) (s : State) :
    ((refer member : Emit ν Unit) >>= f) env s =
      f () env { s with journal := .refer member s.place.body :: s.journal } :=
  rfl

theorem demand_bind (condition : Bool) (what : Misuse) (f : Unit → Emit ν α) (env : Env ν)
    (s : State) : ((demand condition what : Emit ν Unit) >>= f) env s =
      if condition then f () env s else (.error (.invalid what), s) := by
  cases condition <;> rfl

/-! ## Brackets -/

theorem withPlace_apply (place : Place) (x : Emit ν α) (env : Env ν) (s : State) :
    withPlace place x env s =
      ((x env { s with place }).1, { (x env { s with place }).2 with place := s.place }) := by
  unfold withPlace
  simp only [get_bind, modify_bind]
  rw [bind_apply]
  unfold attempt
  rcases x env { s with place } with ⟨_ | _, _⟩ <;> rfl

theorem atPlace_apply (change : Place → Place) (x : Emit ν α) (env : Env ν) (s : State) :
    atPlace change x env s =
      ((x env { s with place := change s.place }).1,
        { (x env { s with place := change s.place }).2 with place := s.place }) := by
  unfold atPlace
  rw [get_bind, withPlace_apply]

theorem withScope_apply (node : NodeId) (x : Emit ν α) (env : Env ν) (s : State) :
    withScope node x env s =
      ((x env { s with scopes := node :: s.scopes }).1,
        { (x env { s with scopes := node :: s.scopes }).2 with
          scopes := (x env { s with scopes := node :: s.scopes }).2.scopes.tail }) := by
  unfold withScope
  simp only [modify_bind]
  rw [bind_apply]
  unfold attempt
  rcases x env { s with scopes := node :: s.scopes } with ⟨_ | _, _⟩ <;> rfl

theorem withReading_apply (node : NodeId) (port : UInt16) (x : Emit ν α) (env : Env ν)
    (s : State) :
    withReading node port x env s =
      ((x env { s with reading := (node, port) :: s.reading }).1,
        { (x env { s with reading := (node, port) :: s.reading }).2 with
          reading := (x env { s with reading := (node, port) :: s.reading }).2.reading.tail }) := by
  unfold withReading
  simp only [modify_bind]
  rw [bind_apply]
  unfold attempt
  rcases x env { s with reading := (node, port) :: s.reading } with ⟨_ | _, _⟩ <;> rfl

theorem withSplice_apply (x : Emit ν String) (env : Env ν) (s : State) :
    withSplice x env s =
      ((x env { s with splices := {} :: s.splices }).1.map fun text =>
          let splice := (x env { s with splices := {} :: s.splices }).2.splices.headD {}
          Code.lines (splice.enter ++ [text] ++ splice.exit.reverse),
        { (x env { s with splices := {} :: s.splices }).2 with
          splices := (x env { s with splices := {} :: s.splices }).2.splices.tail }) := by
  unfold withSplice
  simp only [modify_bind]
  rw [bind_apply]
  unfold attempt
  rcases x env { s with splices := {} :: s.splices } with ⟨_ | _, _⟩ <;> rfl

/-- The states differ at most in what brackets change. -/
def Around (s s' : State) : Prop :=
  ∃ place reading splices scopes, s' = { s with place, reading, splices, scopes }

/-- What an operation does around an emission: where the emission starts, what is put back after it,
and what becomes of its result. -/
structure Bracket (α : Type) where
  enter : State → State
  leave : State → State → State
  result : State → α → α
  enter_eq : ∀ s, Around s (enter s)
  leave_eq : ∀ s s', Around s' (leave s s')
  back : ∀ {s s'}, (enter s).Back s' → s.Back (leave s s')

namespace Bracket

def run (b : Bracket α) (x : Emit ν α) : Emit ν α := fun env s =>
  ((x env (b.enter s)).1.map (b.result (x env (b.enter s)).2), b.leave s (x env (b.enter s)).2)

theorem run_eq_error_iff (b : Bracket α) :
    (b.run x env s).1 = .error e ↔ (x env (b.enter s)).1 = .error e := by
  unfold run
  cases (x env (b.enter s)).1 <;> simp [Except.map]

/-- The emission is run where the bracket stands. -/
def InPlace (b : Bracket α) : Prop :=
  ∀ s s', (b.enter s).place = s.place ∧ (b.leave s s').place = s'.place

def place (change : Place → Place) : Bracket α where
  enter s := { s with place := change s.place }
  leave s s' := { s' with place := s.place }
  result _ a := a
  enter_eq _ := ⟨_, _, _, _, rfl⟩
  leave_eq _ _ := ⟨_, _, _, _, rfl⟩
  back h := ⟨rfl, h.reading, h.scopes, h.spliceDepth, h.spliceTail, h.splice⟩

def scope (node : NodeId) : Bracket α where
  enter s := { s with scopes := node :: s.scopes }
  leave _ s' := { s' with scopes := s'.scopes.tail }
  result _ a := a
  enter_eq _ := ⟨_, _, _, _, rfl⟩
  leave_eq _ _ := ⟨_, _, _, _, rfl⟩
  back h :=
    ⟨h.place, h.reading, congrArg List.tail h.scopes, h.spliceDepth, h.spliceTail, h.splice⟩

def reading (node : NodeId) (port : UInt16) : Bracket α where
  enter s := { s with reading := (node, port) :: s.reading }
  leave _ s' := { s' with reading := s'.reading.tail }
  result _ a := a
  enter_eq _ := ⟨_, _, _, _, rfl⟩
  leave_eq _ _ := ⟨_, _, _, _, rfl⟩
  back h :=
    ⟨h.place, congrArg List.tail h.reading, h.scopes, h.spliceDepth, h.spliceTail, h.splice⟩

def splice : Bracket String where
  enter s := { s with splices := {} :: s.splices }
  leave _ s' := { s' with splices := s'.splices.tail }
  result s' text :=
    Code.lines ((s'.splices.headD {}).enter ++ [text] ++ (s'.splices.headD {}).exit.reverse)
  enter_eq _ := ⟨_, _, _, _, rfl⟩
  leave_eq _ _ := ⟨_, _, _, _, rfl⟩
  back {s s'} h := by
    have hsame : s'.splices.tail = s.splices := h.spliceTail
    rw [hsame]
    exact ⟨h.place, h.reading, h.scopes, rfl, rfl, .refl _⟩

end Bracket

theorem withPlace_eq (place : Place) (x : Emit ν α) :
    withPlace place x = (Bracket.place fun _ => place).run x := by
  funext env s
  rw [withPlace_apply]
  exact congrArg (·, _) (congrFun Except.map_id _).symm

theorem atPlace_eq (change : Place → Place) (x : Emit ν α) :
    atPlace change x = (Bracket.place change).run x := by
  funext env s
  rw [atPlace_apply]
  exact congrArg (·, _) (congrFun Except.map_id _).symm

theorem withScope_eq (node : NodeId) (x : Emit ν α) :
    withScope node x = (Bracket.scope node).run x := by
  funext env s
  rw [withScope_apply]
  exact congrArg (·, _) (congrFun Except.map_id _).symm

theorem withReading_eq (node : NodeId) (port : UInt16) (x : Emit ν α) :
    withReading node port x = (Bracket.reading node port).run x := by
  funext env s
  rw [withReading_apply]
  exact congrArg (·, _) (congrFun Except.map_id _).symm

theorem withSplice_eq (x : Emit ν String) : withSplice x = Bracket.splice.run x :=
  funext fun env => funext fun s => withSplice_apply x env s

/-! ## Nodes -/

theorem nodeAt_of_some {n : ν} (h : env.graph.get? id = some n) (s : State) :
    nodeAt id env s = (.ok n, s) := by
  unfold nodeAt Graph.node
  rw [env_bind, h]
  rfl

theorem nodeAt_of_none (h : env.graph.get? id = none) (s : State) :
    nodeAt id env s = (.error (.graph (.nodeNotFound id)), s) := by
  unfold nodeAt Graph.node
  rw [env_bind, h]
  rfl

/-- Once the classification is sealed a question about it changes nothing. -/
theorem isState_of_frozen (h : s.classifier.frozen = some frozen) (id : NodeId) :
    isState id env s = (.ok (decide (id ∈ frozen.stateNodes)), s) := by
  unfold isState Classifier.isState
  rw [h]

/-! ## Units -/

/-- The state in which the body of a unit is looked for. -/
def enterUnit (id : NodeId) (s : State) : State :=
  { s with
    journal := .slot id :: s.journal
    runtimeUsed := true
    units := (s.units.register s.symbols id).2.1
    symbols := (s.units.register s.symbols id).2.2 }

theorem enterUnit_apply (id : NodeId) (env : Env ν) (s : State) :
    (registerUnit id : Emit ν Nat) env
        { s with journal := .slot id :: s.journal, runtimeUsed := true } =
      (.ok (s.units.register s.symbols id).1, enterUnit id s) :=
  rfl

/-- Entering a unit makes at most a body. -/
theorem symbols_enterUnit {f : SymbolTable → β} (hf : ∀ t bodies, f { t with bodies } = f t)
    (id : NodeId) (s : State) : f (enterUnit id s).symbols = f s.symbols := by
  unfold enterUnit StateUnits.register
  cases s.units.get? id with
  | none => exact hf s.symbols _
  | some u => rfl

theorem beginUnit_of_none (h : s.units.begin id = none) : beginUnit id env s = (.ok none, s) := by
  unfold beginUnit
  rw [h]

theorem beginUnit_of_some {body : BodyId} {units : StateUnits}
    (h : s.units.begin id = some (body, units)) :
    beginUnit id env s = (.ok (some body), { s with units }) := by
  unfold beginUnit
  rw [h]

/-- A unit is finished also when its body fails. -/
theorem emitUnit_apply (chain : NodeId → Emit ν String) (id : NodeId) (body : BodyId) (env : Env ν)
    (s : State) :
    emitUnit chain id body env s =
      match atPlace (Place.toUnit body) (chain id) env s with
      | (.ok text, s') => (.ok (), { s' with units := s'.units.finish id text })
      | (.error e, s') => (.error e, { s' with units := s'.units.finish id "" }) := by
  unfold emitUnit
  rw [bind_apply]
  unfold attempt
  rcases atPlace (Place.toUnit body) (chain id) env s with ⟨e | text, s'⟩ <;> rfl

/-- A unit is refused outside the classification and in static code. Else its body is emitted the
first time, and every later request is noted. -/
theorem unitSlot_cases (id : NodeId) (h : s.classifier.frozen = some frozen) :
    (∃ e : GenError, e.isPlain = true ∧ ∀ chain (env : Env ν), unitSlot chain id env s =
      (.error e, { s with journal := .slot id :: s.journal })) ∨
    id ∈ frozen.stateNodes ∧ s.place.isStatic = false ∧
      ((enterUnit id s).units.begin id = none ∧ (∀ chain (env : Env ν), unitSlot chain id env s =
          (.ok (s.units.register s.symbols id).1,
            { enterUnit id s with units := (enterUnit id s).units.noteReference id })) ∨
        ∃ body units, (enterUnit id s).units.begin id = some (body, units) ∧
          ∀ chain (env : Env ν) r s',
            chain id env { enterUnit id s with units, place := s.place.toUnit body } = (r, s') →
            unitSlot chain id env s = (r.map fun _ => (s.units.register s.symbols id).1,
              { s' with place := s.place, units := s'.units.finish id (r.toOption.getD "") })) := by
  have hasked : { s with journal := .slot id :: s.journal }.classifier.frozen = some frozen := h
  unfold unitSlot
  simp only [note_bind, bind_eq_of_ok (isState_of_frozen hasked id)]
  by_cases hid : id ∈ frozen.stateNodes
  · simp only [hid, get_bind, demand_bind]
    cases s.place.isStatic with
    | true => exact .inl ⟨.invalid (.unitInStatic id s.place.ownerName), rfl, fun _ _ => rfl⟩
    | false =>
      refine .inr ⟨trivial, rfl, ?_⟩
      simp only [modify_bind, bind_eq_of_ok (enterUnit_apply id _ s)]
      rcases hbegin : (enterUnit id s).units.begin id with _ | ⟨body, units⟩
      · simp only [bind_eq_of_ok (beginUnit_of_none hbegin)]
        exact .inl ⟨trivial, fun _ _ => rfl⟩
      · simp only [bind_eq_of_ok (beginUnit_of_some hbegin)]
        refine .inr ⟨body, units, rfl, fun chain env r s' hchain => ?_⟩
        have hbody : atPlace (Place.toUnit body) (chain id) env { enterUnit id s with units } =
            (r, { s' with place := s.place }) := by
          rw [atPlace_apply]
          exact congrArg (fun run => (run.1, { run.2 with place := s.place })) hchain
        rw [bind_apply, emitUnit_apply, hbody]
        cases r <;> rfl
  · simp only [hid]
    exact .inl ⟨.invalid (.notAUnit id), rfl, fun _ _ => rfl⟩

theorem referToUnit_of_ok {slot : Nat} (h : unitSlot chain id env s = (.ok slot, s')) :
    referToUnit chain id env s =
      (.ok slot, { s' with journal := .refer (.unit id) s'.place.body :: s'.journal }) := by
  unfold referToUnit
  rw [bind_eq_of_ok h]
  rfl

theorem referToUnit_of_error (h : unitSlot chain id env s = (.error e, s')) :
    referToUnit chain id env s = (.error e, s') :=
  bind_eq_of_error h

/-! ## Shared nodes -/

/-- The method that is asked for when a shared node is reached from a place. -/
def sharedMethod (place : Place) (id : NodeId) (title : String) (returnType : Ty) : MethodSymbol :=
  { base := s!"{title}_{id}"
    name := ""
    returnType
    modifiers := if place.isStatic then Modifiers.ownOnly.asStatic else Modifiers.ownOnly
    body := ⟨0⟩ }

/-- The method of a shared node is refused, or entered and lost, or entered and found again. -/
theorem registerShared_run (id : NodeId) (title : String) (returnType : Ty) (s : State) :
    (∃ e : GenError, e.isPlain = true ∧
      ∀ env : Env ν, registerShared id title returnType env s = (.error e, s)) ∨
    ∃ handle symbols names, s.symbols.registerMethod s.names (some (.node id))
          (sharedMethod s.place id title returnType) = .ok (handle, symbols, names) ∧
      (symbols.method? handle = none ∧ (∀ env : Env ν, registerShared id title returnType env s =
          (.error (.invalid (.sharedMethod id)), { s with symbols, names })) ∨
        ∃ m, symbols.method? handle = some m ∧ ∀ env : Env ν,
          registerShared id title returnType env s = (.ok (m.name, m.body),
            { s with symbols, names, shared := (id, (m.name, returnType)) :: s.shared })) := by
  unfold registerShared sharedMethod
  dsimp only
  rcases hmethod : s.symbols.registerMethod s.names (some (.node id)) _ with
    what | ⟨handle, symbols, names⟩
  · obtain hcase | ⟨_, _, hcase⟩ | ⟨_, _, _, _, _, hcase⟩ | ⟨_, hcase⟩ :=
      s.symbols.registerMethod_cases s.names (some (.node id)) _ <;> rw [hmethod] at hcase <;> cases hcase
    exact .inl ⟨_, rfl, fun _ => rfl⟩
  · refine .inr ⟨handle, symbols, names, rfl, ?_⟩
    dsimp only
    cases symbols.method? handle with
    | none => exact .inl ⟨rfl, fun _ => rfl⟩
    | some m => exact .inr ⟨m, rfl, fun _ => rfl⟩

/-- The statement that goes on in the method with a name. -/
def sharedCall (returnType : Ty) (name : String) : String :=
  (if returnType.isVoid then Fragment.invoke (name ++ "()")
    else Fragment.returnValue (some (name ++ "()"))).text

theorem callShared_of_known [NodeKind ν] {name : String} {type : Ty}
    (h : s.shared.lookup id = some (name, type)) : callShared chain id env s =
      if type = s.place.returnType then
        (.ok (sharedCall s.place.returnType name),
          { s with journal := .refer (.shared id) s.place.body :: s.journal })
      else (.error (.invalid (.sharedReturnTypes id name)), s) := by
  unfold callShared sharedName
  rw [get_bind, bind_apply, get_bind, h]
  dsimp only
  rw [demand_bind]
  by_cases htype : type = s.place.returnType
  · simp only [htype]
    rfl
  · simp only [htype, decide_false, Bool.false_eq_true, if_false]

theorem callShared_of_new [NodeKind ν] (h : s.shared.lookup id = none) : callShared chain id env s =
      (do
        let name ← emitShared chain id s.place.returnType
        return sharedCall s.place.returnType name : Emit ν String) env s := by
  unfold callShared sharedName
  rw [get_bind, bind_apply, get_bind, h]
  rfl

/-- A shared node is refused, or called, or it is new. Then its method is entered and its chain becomes
the text of the method, unless it fails. -/
theorem callShared_cases [NodeKind ν] (id : NodeId) (found : Option ν) (s : State) :
    (∃ e : GenError, e.isPlain = true ∧ ∀ chain (env : Env ν), env.graph.get? id = found →
      callShared chain id env s = (.error e, s)) ∨
    (∃ name, s.shared.lookup id = some (name, s.place.returnType) ∧
      ∀ chain (env : Env ν), callShared chain id env s =
        (.ok (sharedCall s.place.returnType name),
          { s with journal := .refer (.shared id) s.place.body :: s.journal })) ∨
    s.shared.lookup id = none ∧ ∃ n handle symbols names, found = some n ∧
      s.symbols.registerMethod s.names (some (.node id))
        (sharedMethod s.place id (NodeShape.title n) s.place.returnType) =
          .ok (handle, symbols, names) ∧
      (symbols.method? handle = none ∧ (∀ chain (env : Env ν), env.graph.get? id = found →
          callShared chain id env s =
            (.error (.invalid (.sharedMethod id)), { s with symbols, names })) ∨
        ∃ m, symbols.method? handle = some m ∧ ∀ chain (env : Env ν), env.graph.get? id = found →
          ∀ r s', chain id env (s.intoShared id s.place.returnType symbols names m) = (r, s') →
            callShared chain id env s = (r.map fun _ => sharedCall s.place.returnType m.name,
              { s' with
                place := s.place
                symbols := r.toOption.elim s'.symbols (s'.symbols.setBodyText m.body) })) := by
  rcases hknown : s.shared.lookup id with _ | ⟨name, type⟩
  · simp only [callShared_of_new hknown]
    unfold emitShared
    cases found with
    | none =>
      refine .inl ⟨.graph (.nodeNotFound id), rfl, fun chain env hn => ?_⟩
      rw [bind_assoc, bind_eq_of_error (nodeAt_of_none hn s)]
    | some n =>
      obtain ⟨e, he, hrun⟩ | ⟨handle, symbols, names, hmethod, ⟨hlost, hrun⟩ | ⟨m, hm, hrun⟩⟩ :=
        registerShared_run id (NodeShape.title n) s.place.returnType s
      · refine .inl ⟨e, he, fun chain env hn => ?_⟩
        rw [bind_assoc, bind_eq_of_ok (nodeAt_of_some hn s), bind_assoc, bind_eq_of_error (hrun env)]
      · refine .inr (.inr ⟨trivial, n, handle, symbols, names, rfl, hmethod,
          .inl ⟨hlost, fun chain env hn => ?_⟩⟩)
        rw [bind_assoc, bind_eq_of_ok (nodeAt_of_some hn s), bind_assoc, bind_eq_of_error (hrun env)]
      · refine .inr (.inr ⟨trivial, n, handle, symbols, names, rfl, hmethod,
          .inr ⟨m, hm, fun chain env hn r s' hchain => ?_⟩⟩)
        rw [bind_assoc, bind_eq_of_ok (nodeAt_of_some hn s), bind_assoc, bind_eq_of_ok (hrun env)]
        -- the reference is noted, and then the chain fills the method
        rw [bind_assoc, refer_bind]
        rw [bind_assoc, bind_apply, atPlace_apply, hchain]
        cases r <;> rfl
  · by_cases htype : type = s.place.returnType
    · refine .inr (.inl ⟨name, by rw [htype], fun chain env => ?_⟩)
      rw [callShared_of_known hknown, if_pos htype]
    · refine .inl ⟨.invalid (.sharedReturnTypes id name), rfl, fun chain env _ => ?_⟩
      rw [callShared_of_known hknown, if_neg htype]

/-! ## Entry points -/

theorem resumable_of_entryPlace {c : ClassDecl} {e : EntryPoint} {body : BodyId} {decl : Decl}
    {place : Place} (h : entryPlace? c e body decl = some place) : place.resumable = false := by
  unfold entryPlace? at h
  split at h <;> cases h <;> rfl

/-- An entry point that fits its declaration is emitted at its place. -/
theorem entryWith_of_place {e : EntryPoint} {body : BodyId} {decl : Decl} {place : Place}
    (hbody : entryBody? s e = some body) (hdecl : env.graph.classDecl.get e.owner = .ok decl)
    (hplace : entryPlace? env.graph.classDecl e body decl = some place)
    (flow : Option NodeId → Emit ν String) : entryWith flow e env s =
      (do
        let text ← withPlace place (flow (some e.node))
        modify fun s => { s with symbols := s.symbols.setBodyText body text } : Emit ν Unit)
      env s := by
  unfold entryWith
  rw [get_bind, hbody]
  dsimp only
  rw [env_bind, hdecl]
  dsimp only
  rw [hplace]

/-- An entry point is refused before anything is emitted, or its chain is emitted at its place and
becomes the text of its body. Nothing but the class decides which. -/
theorem entryWith_cases (c : ClassDecl) (e : EntryPoint) (s : State) :
    (∃ err : GenError, err.isPlain = true ∧ ∀ flow (env : Env ν), env.graph.classDecl = c →
      entryWith flow e env s = (.error err, s)) ∨
    ∃ body decl place, entryBody? s e = some body ∧ c.get e.owner = .ok decl ∧
      entryPlace? c e body decl = some place ∧
      ∀ flow (env : Env ν), env.graph.classDecl = c → entryWith flow e env s =
        (do
          let text ← withPlace place (flow (some e.node))
          modify fun s => { s with symbols := s.symbols.setBodyText body text } : Emit ν Unit)
        env s := by
  unfold entryWith
  simp only [get_bind]
  cases hbody : entryBody? s e with
  | none => exact .inl ⟨.invalid (.entryWithoutBody e.owner), rfl, fun _ _ _ => rfl⟩
  | some body =>
    simp only [env_bind]
    cases hdecl : c.get e.owner with
    | error err => exact .inl ⟨.graph err, rfl, fun _ _ hc => by rw [hc, hdecl]; rfl⟩
    | ok decl =>
      cases hplace : entryPlace? c e body decl with
      | none =>
        exact .inl ⟨.invalid (.entryMismatch e.kind decl.name), rfl, fun _ _ hc => by
          rw [hc, hdecl]
          dsimp only
          rw [hplace]
          rfl⟩
      | some place =>
        refine .inr ⟨body, decl, place, rfl, rfl, hplace, fun _ _ hc => ?_⟩
        rw [hc, hdecl]
        dsimp only
        rw [hplace]

/-! ## Flow -/

section Flow

variable [NodeKind ν]

/-- What is left of a failure in a batched pass. -/
def afterFailure (env : Env ν) (id : NodeId) (e : GenError) (s : State) : State :=
  { s with
    diagnostics := s.diagnostics ++
      [{ graph := env.graph.name
         node := some (e.node?.getD id)
         owner := s.place.ownerName
         message := Marker.strip e.root.message }] }

/-- The comment that stands for the code of a node that failed. -/
def failureText (env : Env ν) (id : NodeId) (e : GenError) : String :=
  let title := ((env.graph.get? id).map NodeShape.title).getD ""
  let message := Marker.strip e.root.message
  (Fragment.placeholder s!"flowgen: node {id} ({title}) failed: {message}").text

theorem recover_of_ok {x : Emit ν String} {text : String} (h : x env s = (.ok text, s')) :
    recover id x env s = (.ok text, s') := by
  unfold recover
  rw [bind_apply]
  unfold attempt
  rw [h]
  rfl

section Failure

variable (id : NodeId) {x : Emit ν String} {env : Env ν} {s s' : State} {e : GenError}
  (h : x env s = (.error e, s'))
include h

theorem recover_of_batched (hbatched : env.config.isBatched = true) :
    recover id x env s = (.ok (failureText env id e), afterFailure env id e s') := by
  unfold recover
  rw [bind_apply]
  unfold attempt
  rw [h]
  dsimp only
  rw [env_bind, if_pos hbatched]
  rfl

theorem recover_of_synchronous (hsync : env.config.isBatched = false) :
    recover id x env s = (.error (e.inNode id s'.place.ownerName), s') := by
  unfold recover
  rw [bind_apply]
  unfold attempt
  rw [h]
  dsimp only
  rw [env_bind, hsync]
  rfl

end Failure

/-- A failure is noted by a batched pass, and ends a synchronous one. -/
theorem recover_cases (id : NodeId) (x : Emit ν String) (env : Env ν) (s : State) :
    (∃ text s', x env s = (.ok text, s') ∧ recover id x env s = (.ok text, s')) ∨
      ∃ e s', x env s = (.error e, s') ∧
        (env.config.isBatched = true ∧
            (∃ text, recover id x env s = (.ok text, afterFailure env id e s')) ∨
          env.config.isBatched = false ∧
            recover id x env s = (.error (e.inNode id s'.place.ownerName), s')) := by
  rcases h : x env s with ⟨e | text, s'⟩
  · refine .inr ⟨e, s', rfl, ?_⟩
    cases hbatched : env.config.isBatched with
    | true => exact .inl ⟨rfl, _, recover_of_batched id h hbatched⟩
    | false => exact .inr ⟨rfl, recover_of_synchronous id h hbatched⟩
  · exact .inl ⟨text, s', rfl, recover_of_ok h⟩

theorem recover_congr (id : NodeId) {x y : Emit ν String} (h : x env s = y env s') :
    recover id x env s = recover id y env s' := by
  unfold recover
  simp only [bind_apply, attempt, h]

/-- The statement of a node that exists. -/
theorem statement_of_some (services : Services ν) {n : ν} (h : env.graph.get? id = some n)
    (s : State) : statement services id env s =
      (do
        let text ← withSplice (NodeKind.code services id n)
        return env.config.mark (.node id) text : Emit ν String) env
        { s with journal := .statement id s.place :: s.journal } := by
  unfold statement
  rw [bind_eq_of_ok (nodeAt_of_some h s)]
  rfl

/-- The state in which a node writes its statement. -/
abbrev intoStatement (id : NodeId) (s : State) : State :=
  { s with journal := .statement id s.place :: s.journal, splices := {} :: s.splices }

/-- A statement that succeeds has its splice around it. -/
theorem statement_eq_ok {services : Services ν} {n : ν} {text : String}
    (hn : env.graph.get? id = some n) (hrun : statement services id env s = (.ok text, s')) :
    ∃ own s₁, NodeKind.code services id n env (intoStatement id s) = (.ok own, s₁) ∧
      text = env.config.mark (.node id) (Code.lines ((s₁.splices.headD {}).enter ++ [own] ++
        (s₁.splices.headD {}).exit.reverse)) ∧
      s' = { s₁ with splices := s₁.splices.tail } := by
  rw [statement_of_some services hn] at hrun
  obtain ⟨spliced, s₂, hsplice, hend⟩ := bind_eq_ok_iff.1 hrun
  cases hend
  rw [withSplice_apply] at hsplice
  rcases hown : NodeKind.code services id n env (intoStatement id s) with ⟨e | own, s₁⟩ <;>
    rw [hown] at hsplice <;> cases hsplice
  exact ⟨own, s₁, rfl, rfl, rfl⟩

/-! ## Chains -/

/-- How a chain goes on at a node, once the classification is sealed. -/
theorem chainParts_some (unit shared inPlace : NodeId → Emit ν String) (steps : Nat) (inline : Bool)
    (seen : List NodeId) (id : NodeId) (h : s.classifier.frozen = some frozen) :
    chainParts unit shared inPlace (steps + 1) inline seen (some id) env s =
      match env.graph.get? id with
      | none => (.ok [], s)
      | some n =>
        if inline = false ∧ id ∈ frozen.stateNodes then
          (do return [← recover id (unit id)] : Emit ν (List String)) env s
        else if inline = false ∧ env.table.isShared id = true then
          (do return [← recover id (shared id)] : Emit ν (List String)) env s
        else if id ∈ seen then (.error (.invalid (.revisit id)), s)
        else
          (do
            let text ← recover id (inPlace id)
            let rest ← chainParts unit shared inPlace steps false (id :: seen) (NodeShape.next n)
            return text :: rest : Emit ν (List String)) env s := by
  rw [chainParts, env_bind]
  cases env.graph.get? id with
  | none => rfl
  | some n =>
    have hcontains : seen.contains id = decide (id ∈ seen) := by simp
    cases inline with
    | true =>
      simp only [if_true]
      rw [bind_eq_of_ok (pure_apply false env s)]
      simp only [Bool.false_eq_true, if_false, hcontains, decide_eq_true_eq]
      split <;> rfl
    | false =>
      simp only [Bool.false_eq_true, if_false, Bool.not_false, Bool.true_and, true_and]
      rw [bind_eq_of_ok (isState_of_frozen h id)]
      simp only [decide_eq_true_eq, hcontains]
      split
      · rfl
      · rw [env_bind]
        split
        · rfl
        · split <;> rfl

/-! ## Levels -/

/-- What is offered to nodes at a depth. -/
def servicesAt (depth : Nat) : Services ν :=
  ⟨chainAt depth false, outputAt depth, slotAt depth⟩

/-- The parts of a chain at a level. -/
def partsAt (depth steps : Nat) (inline : Bool) (seen : List NodeId) (target : Option NodeId) :
    Emit ν (List String) :=
  chainParts (startUnit (slotAt depth)) (callShared fun id => chainAt depth true (some id))
    (statement (servicesAt depth)) steps inline seen target

theorem entry_apply (e : EntryPoint) (env : Env ν) (s : State) :
    entry e env s = entryWith (chainAt env.depth false) e env s :=
  rfl

/-- An entry point that succeeds has its chain emitted, which becomes the text of its body. -/
theorem entry_ok {e : EntryPoint} (h : entry e env s = (.ok (), s')) :
    ∃ body decl place text s₁, entryBody? s e = some body ∧
      env.graph.classDecl.get e.owner = .ok decl ∧
      entryPlace? env.graph.classDecl e body decl = some place ∧
      chainAt env.depth false (some e.node) env { s with place } = (.ok text, s₁) ∧
      s' = { s₁ with place := s.place, symbols := s₁.symbols.setBodyText body text } := by
  rw [entry_apply] at h
  obtain ⟨err, _, hrun⟩ | ⟨body, decl, place, hbody, hdecl, hplace, hrun⟩ :=
    entryWith_cases env.graph.classDecl e s
  · rw [hrun _ env rfl] at h
    cases h
  · rw [hrun _ env rfl, bind_apply, withPlace_apply] at h
    rcases hchain : chainAt env.depth false (some e.node) env { s with place } with ⟨err | text, s₁⟩ <;>
      rw [hchain] at h <;> cases h
    exact ⟨body, decl, place, text, s₁, hbody, hdecl, hplace, hchain, rfl⟩

theorem chainAt_succ_apply (depth : Nat) (inline : Bool) (start : Option NodeId) (env : Env ν)
    (s : State) :
    chainAt (depth + 1) inline start env s =
      (do return Code.lines (← partsAt depth (env.graph.size + 1) inline [] start) :
        Emit ν String) env s := by
  rfl

end Flow

end FlowClass.Emit
