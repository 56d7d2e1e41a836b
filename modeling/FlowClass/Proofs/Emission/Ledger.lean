import FlowClass.Proofs.Emission.Hooks
import FlowClass.Proofs.Emission.Run
import FlowClass.Proofs.Symbol.Units

/-!
# What an emission records

Of all that an emission changes, the units, the shared nodes and the journal decide which node is
written where. `Records` says what an emission may do to them, without its depth and its texts:

* it is led into some nodes, with repetition, and comes to each of them in order;
* a node that it is led into is started as a unit, called as a shared node, or written in place, and
  units and shared nodes are written once, when they are first needed;
* writing a node notes it in the journal and leads on into its branches and its continuation.

`Emit.recorded_chainAt` and its companions say that every chain, output and unit records in this
way. What holds of all records is then proved by induction on `Records` alone.
-/

namespace FlowClass

open List StateUnits

variable {services : Services Node} {id : NodeId} {n : Node}

/-- The event neither writes a statement nor starts a unit. -/
def Event.isIncidental : Event → Bool
  | .statement .. => false
  | .run .. => false
  | _ => true

theorem isIncidental_of_isReference {e : Event} (h : e.isReference = true) :
    e.isIncidental = true := by
  cases e with
  | statement node place | run slot value place => exact absurd h Bool.false_ne_true
  | _ => rfl

/-- The part of the state that says which nodes were written. -/
structure Ledger where
  units : StateUnits
  shared : List (NodeId × (String × Ty))
  journal : List Event

def State.ledger (s : State) : Ledger :=
  ⟨s.units, s.shared, s.journal⟩

def Ledger.note (l : Ledger) (e : Event) : Ledger :=
  { l with journal := e :: l.journal }

/-- Units grow, and shared nodes and events are only added. -/
structure Ledger.Grows (l l' : Ledger) : Prop where
  units : l.units.Grows l'.units
  shared : l.shared.Sublist l'.shared
  journal : l.journal.Sublist l'.journal

namespace Ledger.Grows

variable {l l' l'' : Ledger}

theorem refl (l : Ledger) : l.Grows l :=
  ⟨.refl _, .refl _, .refl _⟩

theorem trans (h : l.Grows l') (h' : l'.Grows l'') : l.Grows l'' :=
  ⟨h.units.trans h'.units, h.shared.trans h'.shared, h.journal.trans h'.journal⟩

theorem noted {e : Event} (h : (l.note e).Grows l') : l.Grows l' :=
  ⟨h.units, h.shared, (sublist_cons_self _ _).trans h.journal⟩

end Ledger.Grows

/-- What an emission is asked to do. -/
inductive Ledger.Task where
  /-- Chains that start at these nodes. -/
  | into (targets : Multiset NodeId)
  /-- The node in place, and what follows it. -/
  | write (id : NodeId)

/-- What an emission may record; `complete` if nothing of the task was given up. -/
inductive Records (env : Env Node) (state : List NodeId) :
    (complete : Bool) → Ledger.Task → Ledger → Ledger → Prop where
  | nothing (l : Ledger) : Records env state true (.into 0) l l
  | incidental (l : Ledger) (e : Event) (h : e.isIncidental = true) :
    Records env state true (.into 0) l (l.note e)
  /-- A synchronous emission goes on only when nothing was given up. -/
  | seq {c c' : Bool} {m m' : Multiset NodeId} {l l' l'' : Ledger}
    (hgo : c = true ∨ env.config.isBatched = true) :
    Records env state c (.into m) l l' → Records env state c' (.into m') l' l'' →
    Records env state (c && c') (.into (m + m')) l l''
  /-- An emission fails before it has come to all nodes. -/
  | stop {c : Bool} {m m' : Multiset NodeId} {l l' : Ledger} :
    Records env state c (.into m) l l' → m ≤ m' → Records env state false (.into m') l l'
  | unwritten {c : Bool} {id : NodeId} {l l' : Ledger} :
    Records env state c (.into 0) l l' → Records env state false (.write id) l l'
  | absent {id : NodeId} (l : Ledger) (h : env.graph.get? id = none) :
    Records env state true (.into {id}) l l
  /-- A value node has no statement, and fails. -/
  | refuse {id : NodeId} {n : Node} (l : Ledger) (place : Place) (h : env.graph.get? id = some n)
    (hvalue : n.isFlow = false) :
    Records env state false (.write id) l (l.note (.statement id place))
  | write {c : Bool} {id : NodeId} {n : Node} {l l' : Ledger} (place : Place)
    (h : env.graph.get? id = some n) (hflow : n.isFlow = true ∨ env.config.isBatched = true) :
    Records env state c (.into (leads n.branches + leads [NodeShape.next n]))
      (l.note (.statement id place)) l' → Records env state c (.write id) l l'
  | inPlace {c : Bool} {id : NodeId} {l l' : Ledger} (hstate : id ∉ state)
    (hshared : env.table.isShared id = false) :
    Records env state c (.write id) l l' → Records env state c (.into {id}) l l'
  /-- A lambda is a value with a chain inside. -/
  | lambda {c : Bool} {id target : NodeId} {n : Node} {l l' : Ledger}
    (h : env.graph.get? id = some n) (hbody : n.lambdaBody = some target) :
    Records env state c (.into {target}) l l' → Records env state c (.into 0) l l'
  /-- A unit is asked for the first time. -/
  | request {c : Bool} {id : NodeId} {l l' : Ledger} {table : SymbolTable} {body : BodyId}
    {units : StateUnits} (text : String) (hstate : id ∈ state)
    (hbegin : (l.units.register table id).2.1.begin id = some (body, units)) :
    Records env state c (.write id) { l with units, journal := .slot id :: l.journal } l' →
    Records env state c (.into 0) l { l' with units := l'.units.finish id text }
  /-- A unit is asked for again. -/
  | reference {id : NodeId} {l : Ledger} {table : SymbolTable} (hstate : id ∈ state)
    (hbegin : (l.units.register table id).2.1.begin id = none) :
    Records env state true (.into 0) l
      { l with
        units := (l.units.register table id).2.1.noteReference id
        journal := .slot id :: l.journal }
  /-- A unit is started. -/
  | start {id : NodeId} {l : Ledger} {u : StateUnit} (place : Place)
    (hget : l.units.get? id = some u) (hsettled : u.Settled) :
    Records env state true (.into 0) l (l.note (.run u.slot u.degenerate? place))
  /-- Being led into a state node is asking for its unit. -/
  | unit {c : Bool} {id : NodeId} {l l' : Ledger} (hstate : id ∈ state)
    (hbegun : l'.units.begun id = true) :
    Records env state c (.into 0) l l' → Records env state c (.into {id}) l l'
  | share {c : Bool} {id : NodeId} {l l' : Ledger} (name : String) (type : Ty)
    (hstate : id ∉ state) (hshared : env.table.isShared id = true)
    (hnew : l.shared.lookup id = none) :
    Records env state c (.write id) { l with shared := (id, (name, type)) :: l.shared } l' →
    Records env state c (.into {id}) l l'
  | call {id : NodeId} {l : Ledger} {method : String × Ty} (hstate : id ∉ state)
    (hknown : l.shared.lookup id = some method) : Records env state true (.into {id}) l l

namespace Records

variable {env : Env Node} {state : List NodeId} {c : Bool} {t : Ledger.Task} {l l' : Ledger}

/-- A record only adds to the ledger. -/
theorem grows (h : Records env state c t l l') : l.Grows l' := by
  induction h with
  | incidental l e he
  | refuse l place h hvalue
  | start place hget hsettled => exact (Ledger.Grows.refl _).noted
  | seq hgo _ _ ih ih' => exact ih.trans ih'
  | stop _ _ ih => exact ih
  | unwritten _ ih => exact ih
  | write place h hflow _ ih => exact ih.noted
  | inPlace hstate hshared _ ih => exact ih
  | lambda h hbody _ ih => exact ih
  | request text hstate hbegin _ ih =>
    exact ⟨(Grows.register _ _ _).trans (Grows.emitted hbegin ih.units).1,
      ih.shared, (sublist_cons_self _ _).trans ih.journal⟩
  | reference hstate hbegin =>
    exact ⟨(Grows.register _ _ _).trans (Grows.noteReference _ _),
      .refl _, sublist_cons_self _ _⟩
  | unit hstate hbegun _ ih => exact ih
  | share name type hstate hshared hnew _ ih =>
    exact ⟨ih.units, (sublist_cons_self _ _).trans ih.shared, ih.journal⟩
  | _ => exact .refl _

/-- References are of no consequence. -/
theorem references (l : Ledger) {es : List Event} (h : ∀ e ∈ es, e.isReference = true) :
    Records env state true (.into 0) l { l with journal := es ++ l.journal } := by
  induction es with
  | nil => exact .nothing l
  | cons e es ih =>
    have he := isIncidental_of_isReference (h e mem_cons_self)
    exact .seq (.inl rfl) (ih fun e he => h e (mem_cons_of_mem _ he)) (.incidental _ e he)

end Records

namespace Emit

variable {α β : Type} {x : Emit Node α}

/-- The emission records a task in every state whose classification is sealed. A synchronous one
that succeeds has given up nothing. -/
def Recorded (env : Env Node) (frozen : Classification) (t : Ledger.Task) (x : Emit Node α) :
    Prop :=
  ∀ s, s.classifier.frozen = some frozen →
    (x env s).2.classifier = s.classifier ∧
      ∃ c, Records env frozen.stateNodes c t s.ledger (x env s).2.ledger ∧
        (env.config.isBatched = false → ∀ a, (x env s).1 = .ok a → c = true)

namespace Recorded

variable {env : Env Node} {frozen : Classification} {t : Ledger.Task}

/-! ## Closure -/

/-- What comes after a success may be recorded after it. -/
theorem goes_on {c : Bool} {result : Except GenError α} {a : α}
    (hok : env.config.isBatched = false → ∀ a, result = .ok a → c = true) (h : result = .ok a) :
    c = true ∨ env.config.isBatched = true := by
  cases hmode : env.config.isBatched with
  | false => exact .inl (hok hmode a h)
  | true => exact .inr rfl

theorem quiet (hx : Quiet x) : Recorded env frozen (.into 0) x := by
  intro s hs
  have hframe := hx.frame env s
  obtain ⟨new, hnew, href⟩ := hframe.journal
  have hledger : (x env s).2.ledger =
      { s.ledger with journal := new ++ s.ledger.journal } := by
    simp only [State.ledger, hframe.units, hframe.shared, hnew]
  exact ⟨hframe.classifier, true, hledger ▸ .references s.ledger href, fun _ _ _ => rfl⟩

theorem fail (e : GenError) (m : Multiset NodeId) :
    Recorded env frozen (.into m) (Emit.fail e : Emit Node α) := by
  intro s hs
  exact ⟨rfl, false, .stop (.nothing _) (Multiset.zero_le m), fun _ _ h => nomatch h⟩

theorem bind {m m' : Multiset NodeId} {f : α → Emit Node β} (hx : Recorded env frozen (.into m) x)
    (hf : ∀ a, Recorded env frozen (.into m') (f a)) :
    Recorded env frozen (.into (m + m')) (x >>= f) := by
  intro s hs
  obtain ⟨hsame, c, hrec, hok⟩ := hx s hs
  rcases hrun : x env s with ⟨e | a, s'⟩
  · rw [bind_eq_of_error hrun]
    rw [hrun] at hsame hrec
    exact ⟨hsame, false, .stop hrec (Multiset.le_add_right _ _), fun _ _ h => nomatch h⟩
  · rw [bind_eq_of_ok hrun]
    rw [hrun] at hsame hrec hok
    obtain ⟨hsame', c', hrec', hok'⟩ := hf a s' ((congrArg _ hsame).trans hs)
    refine ⟨hsame'.trans hsame, c && c', .seq (goes_on hok rfl) hrec hrec',
      fun hsync b hb => ?_⟩
    rw [hok hsync a rfl, hok' hsync b hb]
    rfl

theorem thenQuiet {m : Multiset NodeId} {f : α → Emit Node β} (hx : Recorded env frozen (.into m) x)
    (hf : ∀ a, Quiet (f a)) : Recorded env frozen (.into m) (x >>= f) := by
  have h := bind hx fun a => quiet (hf a)
  rwa [add_zero] at h

theorem refer (member : Added) : Recorded env frozen (.into 0) (Emit.refer member : Emit Node Unit) :=
  fun s _ => ⟨rfl, true, .incidental s.ledger (.refer member s.place.body) rfl, fun _ _ _ => rfl⟩

theorem conclude (hx : Recorded env frozen t x) (f : α → β) :
    Recorded env frozen t (do return f (← x)) := by
  intro s hs
  obtain ⟨hsame, c, hrec, hok⟩ := hx s hs
  rcases hrun : x env s with ⟨e | a, s'⟩
  · rw [bind_eq_of_error hrun]
    exact ⟨(hrun ▸ hsame :), c, (hrun ▸ hrec :), fun _ _ h => nomatch h⟩
  · rw [bind_eq_of_ok hrun]
    exact ⟨(hrun ▸ hsame :), c, (hrun ▸ hrec :), fun hsync _ _ => hok hsync a (by rw [hrun])⟩

/-- A bracket leaves the ledger and the classifier to the emission in it. -/
theorem around {y : Emit Node α} {b : Bracket α} (hy : y = b.run x)
    (hx : Recorded env frozen t x) : Recorded env frozen t y := by
  subst hy
  have hkeeps {s s' : State} (h : Around s s') :
      s'.classifier = s.classifier ∧ s'.ledger = s.ledger := by
    obtain ⟨_, _, _, _, rfl⟩ := h
    exact ⟨rfl, rfl⟩
  intro s hs
  obtain ⟨henter, henter'⟩ := hkeeps (b.enter_eq s)
  obtain ⟨hleave, hleave'⟩ := hkeeps (b.leave_eq s (x env (b.enter s)).2)
  obtain ⟨hsame, c, hrec, hok⟩ := hx (b.enter s) ((congrArg _ henter).trans hs)
  refine ⟨hleave.trans (hsame.trans henter), c, ?_, fun hsync a ha => ?_⟩
  · rw [Bracket.run, hleave', ← henter']
    exact hrec
  · cases hinner : (x env (b.enter s)).1 with
    | error e =>
      rw [b.run_eq_error_iff.2 hinner] at ha
      cases ha
    | ok a' => exact hok hsync a' hinner

theorem atPlace (change : Place → Place) (hx : Recorded env frozen t x) :
    Recorded env frozen t (Emit.atPlace change x) :=
  hx.around (atPlace_eq change x)

/-- A recovered failure gives up the rest of the task. -/
theorem recover {x : Emit Node String} (id : NodeId)
    (hx : Recorded env frozen t x) : Recorded env frozen t (Emit.recover id x) := by
  intro s hs
  obtain ⟨hsame, c, hrec, hok⟩ := hx s hs
  obtain ⟨text, s', hrun, hend⟩ | ⟨e, s', hrun, ⟨hbatched, text, hend⟩ | ⟨_, hend⟩⟩ :=
    recover_cases id x env s <;> rw [hrun] at hsame hrec hok <;> rw [hend]
  · exact ⟨hsame, c, hrec, hok⟩
  · exact ⟨hsame, c, hrec, fun hsync => absurd hbatched (by simp [hsync])⟩
  · exact ⟨hsame, c, hrec, fun _ _ h => nomatch h⟩

end Recorded

/-- Recording is a congruence, as a property of one emission. -/
def recording (env : Env Node) (frozen : Classification) : Congruence Node where
  rel m x _ := Recorded env frozen (.into m) x
  ordinary hx := .quiet hx.quiet
  bind hx hf := .bind hx hf
  scope id hx := hx.around (withScope_eq id _)
  nested type hx := .atPlace (Place.toNested type) hx

/-! ## Flow -/

section Flow

variable {env : Env Node} {frozen : Classification}

/-- All that hooks may ask for records. -/
structure RecordedServices (env : Env Node) (frozen : Classification) (services : Services Node) :
    Prop where
  flow : ∀ target, Recorded env frozen (.into (leads [target])) (services.flow target)
  output : ∀ id port, Recorded env frozen (.into 0) (services.output id port)
  slot : ∀ id, Recorded env frozen (.into 0) (services.slot id)

theorem recorded_cutOff (t : Ledger.Task) : Recorded env frozen t (cutOff : Emit Node α) := by
  intro s hs
  refine ⟨rfl, false, ?_, fun _ _ h => nomatch h⟩
  have hnote : Records env frozen.stateNodes true (.into 0) s.ledger (s.ledger.note .cutOff) :=
    .incidental _ _ rfl
  cases t with
  | into m => exact .stop hnote (Multiset.zero_le m)
  | write id => exact .unwritten hnote

/-- An output records no more than the body of a lambda does. -/
theorem recorded_readOutput (h : RecordedServices env frozen services) (id : NodeId) (port : UInt16) :
    Recorded env frozen (.into 0) (readOutput services id port) := by
  have hnested {n : Node} (hn : env.graph.get? id = some n) :
      Recorded env frozen (.into 0) (n.value services id port) := by
    unfold Node.value
    split
    · have hmain := (recording env frozen).mainValue services services n id
        (fun source _ port => h.output source port) (fun target _ => h.slot target)
        (fun _ => .quiet (Quiet.nodeVariable id)) (fun target _ => h.flow (some target))
        (h.flow none)
      intro s hs
      obtain ⟨hsame, c, hrec, hok⟩ := hmain s hs
      refine ⟨hsame, c, ?_, hok⟩
      cases hbody : n.lambdaBody with
      | none => simpa only [hbody, leads_none] using hrec
      | some target => exact .lambda hn hbody (by simpa only [hbody, leads_some] using hrec)
    · exact .quiet (Congruence.ordinary_otherValue n id port).quiet
  intro s hs
  unfold readOutput
  rw [get_bind]
  split
  · exact Recorded.fail _ _ s hs
  · rw [env_bind]
    cases hn : env.graph.get? id with
    | none => exact Recorded.quiet (Quiet.unresolved _) s hs
    | some n =>
      have hvalue := Recorded.thenQuiet ((hnested hn).around (withReading_eq id port _)) fun text =>
        Quiet.bind Quiet.env fun e => Quiet.pure (e.config.mark (.node id) text)
      obtain ⟨hsame, c, hrec, hok⟩ :=
        hvalue { s with journal := .value id port s.place :: s.journal } hs
      exact ⟨hsame, _, .seq (.inl rfl) (.incidental s.ledger (.value id port s.place) rfl) hrec,
        fun hsync a ha => by rw [hok hsync a ha]; rfl⟩

/-- The statement of a value node fails and leaves nothing but its event. -/
theorem statement_of_value (services : Services Node) (hn : env.graph.get? id = some n)
    (hvalue : n.isFlow = false) (s : State) : ∃ e, statement services id env s =
      (.error e, { s with journal := .statement id s.place :: s.journal }) := by
  have hcode : ∃ e, n.code services id = Emit.fail e := by
    cases n <;> first | exact ⟨_, rfl⟩ | cases hvalue
  obtain ⟨e, he⟩ := hcode
  refine ⟨e, ?_⟩
  rw [statement_of_some services hn s]
  have hhook : NodeKind.code services id n = n.code services id := rfl
  rw [hhook, he]
  rfl

/-- Writing a node and what follows it. -/
theorem recorded_write (h : RecordedServices env frozen services) (hn : env.graph.get? id = some n)
    {rest : Emit Node (List String)}
    (hrest : Recorded env frozen (.into (leads [NodeShape.next n])) rest) :
    Recorded env frozen (.write id) (do
      let text ← recover id (statement services id)
      let texts ← rest
      return text :: texts) := by
  have hcode : Recorded env frozen (.into (leads n.branches)) (do
      let text ← withSplice (n.code services id)
      return env.config.mark (.node id) text : Emit Node String) := by
    have hbranches := (recording env frozen).code services services n id
      (fun source _ port => h.output source port) (fun target _ => h.slot target)
      (fun _ => .quiet (Quiet.nodeVariable id)) (fun target _ => h.flow target)
      (fun _ => .quiet Node.quiet_checkResumable)
    exact Recorded.thenQuiet (hbranches.around (withSplice_eq _)) fun text => Quiet.pure _
  have hall := Recorded.bind (Recorded.recover id hcode) fun text =>
    Recorded.thenQuiet hrest fun texts => Quiet.pure (text :: texts)
  intro s hs
  have hstatement := recover_congr id (statement_of_some services hn s)
  by_cases hwritten : n.isFlow = true ∨ env.config.isBatched = true
  · obtain ⟨hsame, c, hrec, hok⟩ :=
      hall { s with journal := .statement id s.place :: s.journal } hs
    rw [bind_congr_apply hstatement]
    exact ⟨hsame, c, .write s.place hn hwritten hrec, hok⟩
  · -- a synchronous emission ends at a value node, before anything follows
    obtain ⟨hvalue, hsync⟩ := not_or.1 hwritten
    have hvalue := Bool.eq_false_of_not_eq_true hvalue
    obtain ⟨e, hfail⟩ := statement_of_value services hn hvalue s
    have hrecover := recover_of_synchronous id hfail (Bool.eq_false_of_not_eq_true hsync)
    rw [bind_eq_of_error hrecover]
    exact ⟨rfl, false, .refuse s.ledger s.place hn hvalue, fun _ _ h => nomatch h⟩

theorem recorded_unitSlot {chain : NodeId → Emit Node String}
    (hchain : id ∈ frozen.stateNodes → Recorded env frozen (.write id) (chain id)) :
    Recorded env frozen (.into 0) (unitSlot chain id) := by
  intro s hs
  have hrefused : Records env frozen.stateNodes false (.into 0) s.ledger
      (s.ledger.note (.slot id)) := .stop (.incidental s.ledger (.slot id) rfl) le_rfl
  obtain ⟨_, _, hrun⟩ | ⟨hstate, _, ⟨hbegin, hrun⟩ | ⟨body, units, hbegin, hrun⟩⟩ :=
    unitSlot_cases id hs
  · rw [hrun]
    exact ⟨rfl, false, hrefused, fun _ _ h => nomatch h⟩
  · rw [hrun]
    exact ⟨rfl, true, .reference hstate hbegin, fun _ _ _ => rfl⟩
  · have hfirst : (s.ledger.units.register s.symbols id).2.1.begin id = some (body, units) := hbegin
    obtain ⟨hsame, c, hrec, hok⟩ :=
      hchain hstate { enterUnit id s with units, place := s.place.toUnit body } hs
    rcases hbody : chain id env { enterUnit id s with units, place := s.place.toUnit body } with ⟨r, s'⟩
    rw [hbody] at hsame hrec hok
    rw [hrun chain env r s' hbody]
    refine ⟨hsame, c, .request _ hstate hfirst hrec, fun hsync slot hslot => ?_⟩
    cases r with
    | error e => cases hslot
    | ok text => exact hok hsync text rfl

/-- The slot that is given out is that of a settled unit of the node. -/
theorem settled_unitSlot {chain : NodeId → Emit Node String}
    (hchain : id ∈ frozen.stateNodes → Recorded env frozen (.write id) (chain id)) {s s' : State}
    (hs : s.classifier.frozen = some frozen) {slot : Nat}
    (hslot : unitSlot chain id env s = (.ok slot, s')) :
    ∃ u, s'.units.get? id = some u ∧ u.slot = slot ∧ u.Settled := by
  obtain ⟨u, hu, hentered⟩ := register_slot s.units s.symbols id
  obtain ⟨_, _, hrun⟩ | ⟨hstate, _, ⟨hbegin, hrun⟩ | ⟨body, units, hbegin, hrun⟩⟩ :=
    unitSlot_cases id hs
  · rw [hrun] at hslot
    cases hslot
  · rw [hrun] at hslot
    cases hslot
    obtain ⟨v, hv, hsame, hsettled⟩ := settled_noteReference hu
      (begin_eq_none hu hbegin)
    exact ⟨v, hv, (congrArg (·.2.1) hsame).trans hentered, hsettled⟩
  · obtain ⟨_, c, hrec, _⟩ :=
      hchain hstate { enterUnit id s with units, place := s.place.toUnit body } hs
    rcases hbody : chain id env { enterUnit id s with units, place := s.place.toUnit body } with ⟨r, s''⟩
    rw [hbody] at hrec
    rw [hrun chain env r s'' hbody] at hslot
    cases r with
    | error e => cases hslot
    | ok text =>
      cases hslot
      obtain ⟨hgrows, v, hv, hdone⟩ := Grows.emitted hbegin hrec.grows.units
      obtain ⟨v', hv', hsame⟩ := hgrows.get?_outline hu
      have hvv' : v' = v := Option.some.inj (hv'.symm.trans hv)
      exact ⟨v, hv, (congrArg (·.2.1) (hvv' ▸ hsame)).trans hentered, .inl hdone⟩

/-- Starting a unit notes the value that it is degenerate to at that moment. -/
theorem recorded_startUnit {slot : NodeId → Emit Node Nat} (hstate : id ∈ frozen.stateNodes)
    (hrecorded : Recorded env frozen (.into 0) (slot id))
    (hsettled : ∀ {s s' : State} {k : Nat}, s.classifier.frozen = some frozen →
      slot id env s = (.ok k, s') → ∃ u, s'.units.get? id = some u ∧ u.slot = k ∧ u.Settled) :
    Recorded env frozen (.into {id}) (startUnit slot id) := by
  intro s hs
  obtain ⟨hsame, c, hrec, hok⟩ := hrecorded s hs
  unfold startUnit
  rcases hrun : slot id env s with ⟨e | k, s'⟩
  · rw [bind_eq_of_error hrun]
    rw [hrun] at hsame hrec
    exact ⟨hsame, false, .stop hrec (Multiset.zero_le _), fun _ _ h => nomatch h⟩
  · rw [bind_eq_of_ok hrun, get_bind]
    rw [hrun] at hsame hrec hok
    obtain ⟨u, hu, rfl, hu'⟩ := hsettled hs hrun
    have hnoted : Records env frozen.stateNodes true (.into 0) s'.ledger
        (s'.ledger.note (.run u.slot u.degenerate? s'.place)) := .start s'.place hu hu'
    have hstart := Records.seq (Recorded.goes_on hok rfl) hrec hnoted
    rw [Bool.and_true] at hstart
    refine ⟨hsame, c, ?_, fun hsync _ _ => hok hsync _ rfl⟩
    refine .unit hstate ?_ ?_
    · refine begun_iff.2 ⟨u, hu, ?_⟩
      rcases hu' with hdone | ⟨hactive, _⟩
      · simp [hdone]
      · simp [hactive]
    · have hvalue : (s'.units.get? id).bind StateUnit.degenerate? = u.degenerate? := by
        rw [hu]
        rfl
      rw [hvalue]
      exact hstart

/-- A shared node is written when its method is entered, and called from then on. -/
theorem recorded_callShared {chain : NodeId → Emit Node String} (hn : env.graph.get? id = some n)
    (hstate : id ∉ frozen.stateNodes) (hshared : env.table.isShared id = true)
    (hchain : Recorded env frozen (.write id) (chain id)) :
    Recorded env frozen (.into {id}) (callShared chain id) := by
  intro s hs
  have hrefused : Records env frozen.stateNodes false (.into {id}) s.ledger s.ledger :=
    .stop (.nothing _) (Multiset.zero_le _)
  obtain ⟨_, _, hrun⟩ | ⟨_, hknown, hrun⟩ |
    ⟨hnew, _, _, symbols, names, _, _, ⟨_, hrun⟩ | ⟨m, _, hrun⟩⟩ := callShared_cases id (some n) s
  · rw [hrun chain env hn]
    exact ⟨rfl, false, hrefused, fun _ _ h => nomatch h⟩
  · have hcall : Records env frozen.stateNodes true (.into ({id} + 0)) s.ledger
        (s.ledger.note (.refer (.shared id) s.place.body)) :=
      .seq (.inl rfl) (.call hstate hknown) (.incidental _ _ rfl)
    rw [hrun]
    exact ⟨rfl, true, hcall, fun _ _ _ => rfl⟩
  · rw [hrun chain env hn]
    exact ⟨rfl, false, hrefused, fun _ _ h => nomatch h⟩
  · obtain ⟨hsame, c, hrec, hok⟩ :=
      hchain (s.intoShared id s.place.returnType symbols names m) hs
    -- the reference is noted, and then the method is entered
    have hnoted := Records.seq (.inl rfl)
      (.incidental s.ledger (.refer (.shared id) s.place.body) rfl)
      (.share m.name s.place.returnType hstate hshared hnew hrec)
    rcases hbody : chain id env (s.intoShared id s.place.returnType symbols names m) with ⟨r, s'⟩
    rw [hbody] at hsame hnoted hok
    rw [hrun chain env hn r s' hbody]
    refine ⟨hsame, c, hnoted, fun hsync text htext => ?_⟩
    cases r with
    | error e => cases htext
    | ok text => exact hok hsync text rfl

/-! ## Chains -/

/-- What a chain asks for records. -/
structure RecordedParts (env : Env Node) (frozen : Classification)
    (unit shared : NodeId → Emit Node String) (services : Services Node) : Prop where
  unit : ∀ id ∈ frozen.stateNodes, Recorded env frozen (.into {id}) (unit id)
  shared : ∀ id n, env.graph.get? id = some n → id ∉ frozen.stateNodes →
    env.table.isShared id = true → Recorded env frozen (.into {id}) (shared id)
  services : RecordedServices env frozen services

theorem RecordedParts.chain {unit shared : NodeId → Emit Node String}
    (h : RecordedParts env frozen unit shared services) (steps : Nat) (seen : List NodeId)
    (start : Option NodeId) : Recorded env frozen (.into (leads [start]))
      (chainParts unit shared (statement services) steps false seen start) := by
  induction steps generalizing seen start with
  | zero => exact recorded_cutOff _
  | succ steps ih =>
    cases start with
    | none => exact .quiet (Quiet.pure _)
    | some id =>
      intro s hs
      rw [chainParts_some unit shared _ steps false seen id hs]
      cases hn : env.graph.get? id with
      | none => exact ⟨rfl, true, .absent _ hn, fun _ _ _ => rfl⟩
      | some n =>
        simp only [true_and]
        split
        · rename_i hstate
          exact (Recorded.recover id (h.unit id hstate)).thenQuiet (fun _ => Quiet.pure _) s hs
        · rename_i hstate
          split
          · rename_i hshared
            exact (Recorded.recover id (h.shared id n hn hstate hshared)).thenQuiet
              (fun _ => Quiet.pure _) s hs
          · rename_i hshared
            split
            · exact Recorded.fail _ _ s hs
            · obtain ⟨hsame, c, hrec, hok⟩ :=
                recorded_write h.services hn (ih (id :: seen) (NodeShape.next n)) s hs
              exact ⟨hsame, c, .inPlace hstate (Bool.eq_false_of_not_eq_true hshared) hrec, hok⟩

/-- A chain whose first node is written in place. -/
theorem RecordedParts.body {unit shared : NodeId → Emit Node String}
    (h : RecordedParts env frozen unit shared services) (steps : Nat)
    (hn : env.graph.get? id = some n) : Recorded env frozen (.write id)
      (chainParts unit shared (statement services) steps true [] (some id)) := by
  cases steps with
  | zero => exact recorded_cutOff _
  | succ steps =>
    intro s hs
    rw [chainParts_some unit shared _ steps true [] id hs, hn]
    exact recorded_write h.services hn (h.chain steps [id] (NodeShape.next n)) s hs

/-! ## Levels -/

/-- All emissions up to a depth record. -/
structure RecordedLevel (env : Env Node) (frozen : Classification) (depth : Nat) : Prop where
  services : RecordedServices env frozen (servicesAt depth)
  body : ∀ id n, env.graph.get? id = some n →
    Recorded env frozen (.write id) (chainAt depth true (some id))
  slot : ∀ id, id ∈ frozen.stateNodes → ∀ {s s' : State} {k : Nat},
    s.classifier.frozen = some frozen → slotAt depth id env s = (.ok k, s') →
    ∃ u, s'.units.get? id = some u ∧ u.slot = k ∧ u.Settled

theorem RecordedLevel.parts {depth : Nat} (h : RecordedLevel env frozen depth) :
    RecordedParts env frozen (startUnit (slotAt depth))
      (callShared fun id => chainAt depth true (some id))
      (servicesAt depth) where
  unit := fun id hstate => recorded_startUnit hstate (h.services.slot id) (h.slot id hstate)
  shared := fun id n hn hstate hshared => recorded_callShared hn hstate hshared (h.body id n hn)
  services := h.services

/-- Every level records, if every state node exists. -/
theorem recordedLevel (hexists : ∀ id ∈ frozen.stateNodes, ∃ n, env.graph.get? id = some n)
    (depth : Nat) : RecordedLevel env frozen depth := by
  induction depth with
  | zero =>
    exact ⟨⟨fun _ => recorded_cutOff _, fun _ _ => recorded_cutOff _, fun _ => recorded_cutOff _⟩,
      fun _ _ _ => recorded_cutOff _, fun _ _ _ _ _ _ hrun => nomatch hrun⟩
  | succ depth ih =>
    have hbody (id : NodeId) (hid : id ∈ frozen.stateNodes) :
        Recorded env frozen (.write id) (chainAt depth true (some id)) := by
      obtain ⟨n, hn⟩ := hexists id hid
      exact ih.body id n hn
    refine ⟨⟨fun target s hs => ?_, fun id port => ?_, fun id => ?_⟩, fun id n hn s hs => ?_,
      fun id hid s s' k hs hrun => ?_⟩
    · simp only [servicesAt]
      exact (ih.parts.chain _ [] target).conclude Code.lines s hs
    · exact recorded_readOutput ih.services id port
    · exact .bind (recorded_unitSlot fun hid => hbody id hid) fun _ =>
        .thenQuiet (.refer _) fun _ => Quiet.pure _
    · exact (ih.parts.body _ hn).conclude Code.lines s hs
    · obtain ⟨slot, s₁, hslot, hrefer⟩ := bind_eq_ok_iff.1 hrun
      cases hrefer
      obtain ⟨u, hu⟩ := settled_unitSlot (fun hid => hbody id hid) hs hslot
      exact ⟨u, hu⟩

end Flow

end Emit

end FlowClass
