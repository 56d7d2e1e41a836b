import FlowClass.Proofs.Analysis.ReachedPart
import FlowClass.Proofs.Emission.Level
import FlowClass.Proofs.Emission.Steady

/-!
# Emission comes to an end

Emissions nest, and the depth that bounds them is never reached. Going down, either

* a unit is begun, a shared node is entered, or an output is read that is not being read, and the
  `room` that is left for such steps shrinks; or
* a statement leads into a node that ranks lower (`Connectivity.rank_lt`).

So two runs agree as soon as both depths are large enough for the room (`agreeLevel`), and `Env.depth`
is large enough for every room there is. Agreement is a congruence; what one run keeps of the state
(`State.Onward`) is carried along with it.

The second run may be over another graph with the same reached part (`Env.Exchange`). Emission goes
from the entry points to where the ports of nodes lead, so it looks up nodes that are in the table if
they exist (`Met`), and those are the same in both graphs.
-/

namespace FlowClass

open List Connectivity StateUnits NodeShape

variable {id : NodeId} {e : EntryPoint} {target : Option NodeId}

/-- What every emission keeps of the state: what was begun stays begun, and an emission that was not
cut off is not cut off. -/
structure State.Onward (s s' : State) : Prop where
  classifier : s'.classifier = s.classifier
  reading : s'.reading = s.reading
  begun : ∀ id, s.units.begun id = true → s'.units.begun id = true
  shared : ∀ id, (s.shared.lookup id).isSome = true → (s'.shared.lookup id).isSome = true
  uncut : .cutOff ∉ s.journal → .cutOff ∉ s'.journal

namespace State.Onward

theorem refl (s : State) : s.Onward s :=
  ⟨rfl, rfl, fun _ h => h, fun _ h => h, fun h => h⟩

theorem trans {s s' s'' : State} (h : s.Onward s') (h' : s'.Onward s'') : s.Onward s'' where
  classifier := h'.classifier.trans h.classifier
  reading := h'.reading.trans h.reading
  begun id hid := h'.begun id (h.begun id hid)
  shared id hid := h'.shared id (h.shared id hid)
  uncut hcut := h'.uncut (h.uncut hcut)

theorem ofFrame {s s' : State} (h : s.Frame s') : s.Onward s' where
  classifier := h.classifier
  reading := h.reading
  begun id hid := by rwa [h.units]
  shared id hid := by rwa [h.shared]
  uncut hcut := by
    obtain ⟨new, hnew, href⟩ := h.journal
    rw [hnew, mem_append, not_or]
    exact ⟨fun hmem => absurd (href _ hmem) Bool.false_ne_true, hcut⟩

theorem note (s : State) {e : Event} (he : e ≠ .cutOff) :
    s.Onward { s with journal := e :: s.journal } where
  classifier := rfl
  reading := rfl
  begun _ hid := hid
  shared _ hid := hid
  uncut hcut := not_mem_cons_of_ne_of_not_mem he.symm hcut

theorem bind {α β : Type} {x : Emit Node α} {f : α → Emit Node β} {env : Env Node} {s : State}
    (hx : s.Onward (x env s).2) (hf : ∀ a (s' : State), s'.Onward (f a env s').2) :
    s.Onward ((x >>= f) env s).2 := by
  rcases hrun : x env s with ⟨e | a, s'⟩
  · rwa [Emit.bind_eq_of_error hrun, ← congrArg Prod.snd hrun]
  · rw [hrun] at hx
    rw [Emit.bind_eq_of_ok hrun]
    exact hx.trans (hf a s')

end State.Onward

/-- How many nodes of the table are left. -/
def left (env : Env Node) (done : NodeId → Bool) : Nat :=
  env.table.ids.countP fun id => !done id

/-- How many units are not begun, shared nodes not entered and first outputs not being read. -/
def room (env : Env Node) (s : State) : Nat :=
  left env s.units.begun + left env (fun id => (s.shared.lookup id).isSome) +
    left env fun id => s.reading.contains (id, 0)

section Room

variable {env : Env Node} {s s' : State} {p q : NodeId → Bool}

theorem left_le (h : ∀ id, p id = true → q id = true) : left env q ≤ left env p :=
  countP_mono_left fun id _ hid => by
    cases hp : p id with
    | false => rfl
    | true => rwa [h id hp] at hid

theorem left_lt (h : ∀ id, p id = true → q id = true) (hid : id ∈ env.table.ids) (hp : p id = false)
    (hq : q id = true) : left env q < left env p := by
  refine countP_lt_countP (fun x hx => ?_) hid (by simp [hp]) (by simp [hq])
  cases hpx : p x with
  | false => rfl
  | true => rwa [h x hpx] at hx

theorem State.Onward.room_le (h : s.Onward s') : room env s' ≤ room env s := by
  unfold room
  rw [h.reading]
  exact Nat.add_le_add_right (Nat.add_le_add (left_le h.begun) (left_le h.shared)) _

/-- There is less room while an output is being read. -/
theorem room_lt_of_reading (hid : id ∈ env.table.ids) (hfree : (id, 0) ∉ s.reading)
    (journal : List Event) :
    room env { s with journal, reading := (id, 0) :: s.reading } < room env s := by
  refine Nat.add_lt_add_left (left_lt (fun x hx => ?_) hid (by simpa using hfree) (by simp)) _
  simp only [contains_cons, hx, Bool.or_true]

theorem room_le (env : Env Node) (s : State) : room env s ≤ 3 * env.table.ids.length := by
  have hleft (done : NodeId → Bool) : left env done ≤ env.table.ids.length := countP_le_length
  have h₁ := hleft s.units.begun
  have h₂ := hleft fun id => (s.shared.lookup id).isSome
  have h₃ := hleft fun id => s.reading.contains (id, 0)
  unfold room
  omega

end Room

/-! ## Another graph -/

/-- The environment over another graph. -/
def Env.withGraph (env : Env Node) (g : Graph Node) : Env Node :=
  { env with graph := g }

@[simp] theorem Env.withGraph_table (env : Env Node) (g : Graph Node) :
    (env.withGraph g).table = env.table := rfl

/-- A graph with the same reached part, which the table describes as well. -/
structure Env.Exchange (env : Env Node) (g : Graph Node) : Prop where
  same : env.graph.SameReached g
  describes : env.table.Describes env.graph
  describes' : (env.withGraph g).table.Describes (env.withGraph g).graph

theorem Env.Exchange.refl {env : Env Node} (h : env.table.Describes env.graph) :
    env.Exchange env.graph :=
  ⟨.refl _, h, h⟩

namespace Emit

variable {α β : Type} {x : Emit Node α}

/-- The node is in the table, if it exists. -/
def Known (env : Env Node) (id : NodeId) : Prop :=
  env.graph.contains id = true → id ∈ env.table.ids

/-- The node is in the table, if it exists in either graph. -/
structure Met (env : Env Node) (g : Graph Node) (id : NodeId) : Prop where
  here : Known env id
  there : Known (env.withGraph g) id

section Known

variable {env : Env Node} {id : NodeId} {n : Node} (hdescribes : env.table.Describes env.graph)
  (hid : id ∈ env.table.ids) (hn : env.graph.get? id = some n)
include hdescribes hid hn

theorem known_of_connection {c : Connection} (hc : c ∈ (ports n).connections) :
    Known env c.other :=
  hdescribes.closed id n hid hn c hc

theorem known_source {source : NodeId} (hsource : source ∈ n.ports.valueSources) :
    Known env source := by
  refine known_of_connection hdescribes hid hn (c := .value source) ?_
  simp [Ports.connections, ports, hsource]

theorem known_reference {target : NodeId} (htarget : target ∈ n.ports.references) :
    Known env target := by
  refine known_of_connection hdescribes hid hn (c := .reference target) ?_
  simp [Ports.connections, ports, htarget]

theorem known_lambdaBody {target : NodeId} (hbody : n.lambdaBody = some target) :
    Known env target := by
  refine known_of_connection hdescribes hid hn (c := .child target) (Ports.mem_children.1 ?_)
  have hscope : n.isScope = false := by cases n <;> first | rfl | cases hbody
  have hchildren := Node.children_eq n hscope
  rw [hbody] at hchildren
  exact Multiset.mem_coe.1 (hchildren ▸ Multiset.mem_singleton_self target)

theorem known_follows
    (htarget : target ∈ n.branches ∨ target = next n) :
    ∀ y, target = some y → Known env y := by
  rintro y rfl hexists
  exact hdescribes.follows_mem hid (Graph.mem_follows_of_target hn htarget) hexists

end Known

section Met

variable {env : Env Node} {g : Graph Node} (h : env.Exchange g) {id : NodeId} {n : Node}

theorem met_of_mem (hid : id ∈ env.table.ids) : Met env g id :=
  ⟨fun _ => hid, fun _ => hid⟩

theorem Met.mem (hid : Met env g id) (hn : env.graph.get? id = some n) : id ∈ env.table.ids :=
  hid.here (by simp [Graph.contains, hn])

include h

theorem Met.get?_eq (hid : Met env g id) : (env.withGraph g).graph.get? id = env.graph.get? id :=
  h.same.get?_eq (fun hexists => h.describes.reached id (hid.here hexists))
    fun hexists => h.describes'.reached id (hid.there hexists)

/-- What is known of a node because of the ports of another is known in both graphs. -/
theorem met_of_ports {y : NodeId} (hid : id ∈ env.table.ids) (hn : env.graph.get? id = some n)
    (hknown : ∀ env' : Env Node, env'.table.Describes env'.graph → id ∈ env'.table.ids →
      env'.graph.get? id = some n → Known env' y) : Met env g y :=
  ⟨hknown env h.describes hid hn,
    hknown _ h.describes' hid (((met_of_mem hid).get?_eq h).trans hn)⟩

end Met

/-! ## Agreement -/

/-- Two emissions, the second over another graph, agree where no more than `m` room is left. -/
def Agree (env : Env Node) (g : Graph Node) (m : Nat) (x y : Emit Node α) : Prop :=
  ∀ s, s.classifier.frozen = some env.sealed → room env s ≤ m →
    x env s = y (env.withGraph g) s ∧ s.Onward (x env s).2

namespace Agree

variable {env : Env Node} {g : Graph Node} {m : Nat}

/-- An emission agrees with itself if it goes on, and does not look at the graph. -/
theorem self (hsteady : Steady env (env.withGraph g) x) (h : ∀ s : State, s.Onward (x env s).2) :
    Agree env g m x x :=
  fun s _ _ => ⟨hsteady s, h s⟩

theorem quiet (hx : Quiet x) (hsteady : Steady env (env.withGraph g) x) : Agree env g m x x :=
  self hsteady fun s => .ofFrame (hx.frame env s)

theorem ordinary (hx : Ordinary x) : Agree env g m x x :=
  quiet hx.quiet (.ordinary hx)

theorem nodeVariable (id : NodeId) : Agree env g m (Emit.nodeVariable id) (Emit.nodeVariable id) := by
  refine quiet (Quiet.nodeVariable id) (.bind (.ordinary .get) fun s => ?_)
  split
  · exact fun _ => rfl
  · exact .ordinary (.variableName _)

theorem checkResumable : Agree env g m Node.checkResumable Node.checkResumable :=
  quiet Node.quiet_checkResumable (.bind (.ordinary .get) fun _ => .demand _ _)

theorem bind {y : Emit Node α} {f f' : α → Emit Node β} (hx : Agree env g m x y)
    (hf : ∀ a, Agree env g m (f a) (f' a)) : Agree env g m (x >>= f) (y >>= f') := by
  intro s hs hroom
  obtain ⟨hsame, honward⟩ := hx s hs hroom
  rcases hrun : x env s with ⟨e | a, s'⟩
  · rw [hrun] at hsame honward
    rw [bind_eq_of_error hrun, bind_eq_of_error hsame.symm]
    exact ⟨rfl, honward⟩
  · rw [hrun] at hsame honward
    rw [bind_eq_of_ok hrun, bind_eq_of_ok hsame.symm]
    obtain ⟨hsame', honward'⟩ := hf a s' ((congrArg _ honward.classifier).trans hs)
      (honward.room_le.trans hroom)
    exact ⟨hsame', honward.trans honward'⟩

theorem thenPure {y : Emit Node α} (hx : Agree env g m x y) (f : α → β) :
    Agree env g m (x >>= fun a => pure (f a)) (y >>= fun a => pure (f a)) :=
  bind hx fun a => .ordinary (.pure (f a))

/-- A bracket that reads nothing changes nothing that is kept. -/
theorem around {y x' y' : Emit Node α} {b : Bracket α} (hx' : x' = b.run x) (hy' : y' = b.run y)
    (henter : ∀ s, (b.enter s).reading = s.reading)
    (hleave : ∀ s s', (b.leave s s').reading = s'.reading) (hx : Agree env g m x y) :
    Agree env g m x' y' := by
  subst hx' hy'
  intro s hs hroom
  have honward {s s' : State} (h : Around s s') (hreading : s'.reading = s.reading) :
      s.Onward s' := by
    obtain ⟨_, _, _, _, rfl⟩ := h
    exact ⟨rfl, hreading, fun _ h => h, fun _ h => h, fun h => h⟩
  have hbefore := honward (b.enter_eq s) (henter s)
  obtain ⟨hsame, hinner⟩ := hx (b.enter s) ((congrArg _ hbefore.classifier).trans hs)
    (hbefore.room_le.trans hroom)
  rw [Bracket.run, Bracket.run, ← hsame]
  exact ⟨rfl, (hbefore.trans hinner).trans (honward (b.leave_eq s _) (hleave s _))⟩

theorem atPlace {y : Emit Node α} (change : Place → Place) (hx : Agree env g m x y) :
    Agree env g m (Emit.atPlace change x) (Emit.atPlace change y) :=
  hx.around (atPlace_eq _ _) (atPlace_eq _ _) (fun _ => rfl) fun _ _ => rfl

/-- A failure is reported with the title of the node and the name of the graph, which are the same. -/
theorem recover (h : env.Exchange g) {x y : Emit Node String} (hid : Met env g id)
    (hx : Agree env g m x y) : Agree env g m (Emit.recover id x) (Emit.recover id y) := by
  intro s hs hroom
  obtain ⟨hsame, honward⟩ := hx s hs hroom
  rcases hrun : x env s with ⟨e | text, s'⟩ <;> rw [hrun] at hsame honward
  · cases hbatched : env.config.isBatched with
    | true =>
      rw [recover_of_batched id hrun hbatched, recover_of_batched id hsame.symm hbatched]
      unfold failureText afterFailure
      rw [hid.get?_eq h, show (env.withGraph g).graph.name = _ from h.same.name]
      exact ⟨rfl, honward.trans ⟨rfl, rfl, fun _ h => h, fun _ h => h, fun h => h⟩⟩
    | false =>
      rw [recover_of_synchronous id hrun hbatched, recover_of_synchronous id hsame.symm hbatched]
      exact ⟨rfl, honward⟩
  · rw [recover_of_ok hrun, recover_of_ok hsame.symm]
    exact ⟨rfl, honward⟩

end Agree

/-- Agreement is a congruence. -/
def agreement (env : Env Node) (g : Graph Node) (m : Nat) : Congruence Node where
  rel _ x y := Agree env g m x y
  ordinary hx := .ordinary hx
  bind hx hf := .bind hx hf
  scope id hx := hx.around (withScope_eq id _) (withScope_eq id _) (fun _ => rfl) fun _ _ => rfl
  nested type hx := .atPlace (Place.toNested type) hx

/-! ## Outputs, units and shared nodes -/

section Services

variable {env : Env Node} {g : Graph Node} {m : Nat}

/-- What two levels offer to nodes agrees. -/
structure AgreeServices (env : Env Node) (g : Graph Node) (m : Nat)
    (services services' : Services Node) : Prop where
  flow : ∀ target, (∀ id, target = some id → Met env g id) →
    Agree env g m (services.flow target) (services'.flow target)
  output : ∀ id port, Met env g id →
    Agree env g m (services.output id port) (services'.output id port)
  slot : ∀ id, Agree env g m (services.slot id) (services'.slot id)

/-- The statement of a node agrees if all that it asks for does. -/
theorem agree_statement (h : env.Exchange g) {n : Node} (hid : id ∈ env.table.ids)
    (hn : env.graph.get? id = some n) {services services' : Services Node}
    (hflow : ∀ target ∈ n.branches, Agree env g m (services.flow target) (services'.flow target))
    (houtput : ∀ source port, Met env g source →
      Agree env g m (services.output source port) (services'.output source port))
    (hslot : ∀ target, Agree env g m (services.slot target) (services'.slot target)) :
    Agree env g m (statement services id) (statement services' id) := by
  have hcode : Agree env g m (n.code services id) (n.code services' id) :=
    (agreement env g m).code services services' n id
      (fun source hsource port => houtput source port (met_of_ports h hid hn fun _ hd hi hn =>
        known_source hd hi hn hsource))
      (fun target _ => hslot target) (fun _ => .nodeVariable id) hflow fun _ => .checkResumable
  intro s hs hroom
  rw [statement_of_some services hn,
    statement_of_some services' (((met_of_mem hid).get?_eq h).trans hn)]
  have hnote : s.Onward { s with journal := .statement id s.place :: s.journal } :=
    .note s (by simp)
  obtain ⟨hsame, honward⟩ := (hcode.around (withSplice_eq _) (withSplice_eq _) (fun _ => rfl)
    fun _ _ => rfl).thenPure (env.config.mark (.node id))
    { s with journal := .statement id s.place :: s.journal } hs (hnote.room_le.trans hroom)
  exact ⟨hsame, hnote.trans honward⟩

/-- An output is read with less room than there was before. -/
theorem agree_readOutput (hexchange : env.Exchange g) {services services' : Services Node}
    (h : ∀ k < m, AgreeServices env g k services services') (hid : Met env g id) (port : UInt16) :
    Agree env g m (readOutput services id port) (readOutput services' id port) := by
  intro s hs hroom
  unfold readOutput
  rw [get_bind, get_bind]
  split
  · exact ⟨rfl, .refl s⟩
  rename_i hfree
  rw [env_bind, env_bind, hid.get?_eq hexchange]
  cases hn : env.graph.get? id with
  | none => exact Agree.ordinary (m := m) (Ordinary.unresolved fun _ => rfl) s hs hroom
  | some n =>
    have hid : id ∈ env.table.ids := hid.mem hn
    -- only the first output reads on, and there is less room while it is read
    have hvalue (s : State) (hs : s.classifier.frozen = some env.sealed)
        (hroom : port = 0 → room env s < m) :
        n.value services id port env s = n.value services' id port (env.withGraph g) s ∧
          s.Onward (n.value services id port env s).2 := by
      unfold Node.value
      split
      · rename_i hport
        have hlower := h _ (hroom hport)
        refine (agreement env g (room env s)).mainValue services services' n id
          (fun source hsource port => hlower.output source port (met_of_ports hexchange hid hn
            fun _ hd hi hn => known_source hd hi hn hsource))
          (fun target _ => hlower.slot target) (fun _ => .nodeVariable id) (fun target hbody => ?_)
          (hlower.flow none (fun id h => absurd h.symm (Option.some_ne_none id))) s hs le_rfl
        refine hlower.flow (some target) fun id heq => ?_
        rw [← Option.some.inj heq]
        exact met_of_ports hexchange hid hn fun _ hd hi hn => known_lambdaBody hd hi hn hbody
      · exact Agree.ordinary (m := room env s) (Congruence.ordinary_otherValue n id port) s hs le_rfl
    dsimp only
    rw [get_bind, get_bind, note_bind]
    have hnote : s.Onward { s with journal := .value id port s.place :: s.journal } :=
      .note s (by simp)
    obtain ⟨hsame, honward⟩ := hvalue
      { s with
        journal := .value id port s.place :: s.journal
        reading := (id, port) :: s.reading } hs fun hport => by
        subst hport
        exact (room_lt_of_reading hid (by simpa using hfree) _).trans_le hroom
    have hread : withReading id port (n.value services id port) env
          { s with journal := .value id port s.place :: s.journal } =
        withReading id port (n.value services' id port) (env.withGraph g)
          { s with journal := .value id port s.place :: s.journal } := by
      rw [withReading_apply, withReading_apply, ← hsame]
    refine ⟨bind_eq_bind hread fun _ _ => rfl, hnote.trans (.bind ?_ fun _ _ => .refl _)⟩
    rw [withReading_apply]
    exact ⟨honward.classifier, congrArg List.tail honward.reading, honward.begun, honward.shared,
      honward.uncut⟩

theorem onward_enterUnit (id : NodeId) (s : State) : s.Onward (enterUnit id s) where
  classifier := rfl
  reading := rfl
  begun x hx := by
    change (s.units.register s.symbols id).2.1.begun x = true
    rwa [begun_register]
  shared _ hx := hx
  uncut hcut := not_mem_cons_of_ne_of_not_mem (by simp) hcut

/-- The body of a unit is emitted with less room than there was when it was asked for. -/
theorem agree_unitSlot {chain chain' : NodeId → Emit Node String}
    (h : id ∈ env.table.stateNodes → ∀ k < m, Agree env g k (chain id) (chain' id)) :
    Agree env g m (unitSlot chain id) (unitSlot chain' id) := by
  intro s hs hroom
  have henter := onward_enterUnit id s
  obtain ⟨_, _, hrun⟩ | ⟨hstate, _, ⟨_, hrun⟩ | ⟨body, units, hbegin, hrun⟩⟩ := unitSlot_cases id hs
  · rw [hrun, hrun]
    exact ⟨rfl, .note s (by simp)⟩
  · rw [hrun, hrun]
    refine ⟨rfl, henter.trans ⟨rfl, rfl, fun x hx => ?_, fun _ hx => hx, fun hcut => hcut⟩⟩
    rwa [begun_noteReference]
  · have hbegun (x : NodeId) := begun_begin hbegin x
    have hnot : s.units.begun id = false := by
      have hnot := not_begun_of_begin hbegin
      rwa [enterUnit, begun_register] at hnot
    have hbegan : s.Onward { enterUnit id s with units, place := s.place.toUnit body } := by
      refine henter.trans ⟨rfl, rfl, fun x hx => ?_, fun _ hx => hx, fun hcut => hcut⟩
      rw [hbegun x]
      split
      · rfl
      · exact hx
    have hless : room env { enterUnit id s with units, place := s.place.toUnit body } <
        room env s := by
      refine Nat.add_lt_add_right (Nat.add_lt_add_right (left_lt hbegan.begun
        (mem_stateNodes.1 hstate).1 hnot ?_) _) _
      rw [hbegun id, if_pos rfl]
    obtain ⟨hsame, honward⟩ := h hstate _ (hless.trans_le hroom)
      { enterUnit id s with units, place := s.place.toUnit body } hs le_rfl
    rw [hrun chain env _ _ rfl, hrun chain' (env.withGraph g) _ _ hsame.symm]
    refine ⟨rfl, hbegan.trans ⟨honward.classifier, honward.reading, fun x hx => ?_, honward.shared,
      honward.uncut⟩⟩
    rw [begun_finish _ _ _ _ (honward.begun id (by rw [hbegun id, if_pos rfl]))]
    exact honward.begun x hx

theorem agree_startUnit {slot slot' : NodeId → Emit Node Nat}
    (h : Agree env g m (slot id) (slot' id)) :
    Agree env g m (startUnit slot id) (startUnit slot' id) := by
  refine h.bind fun k => Agree.self (fun _ => rfl) fun s => ?_
  exact .note s (by simp)

section SharedNodes

variable (hexchange : env.Exchange g) {chain chain' : NodeId → Emit Node String}
  {id : NodeId} (hid : id ∈ env.table.ids) (h : ∀ k < m, Agree env g k (chain id) (chain' id))
include hexchange hid h

/-- A shared node is entered once: its method is emitted with less room than there was when it was
called. -/
theorem agree_callShared : Agree env g m (callShared chain id) (callShared chain' id) := by
  intro s hs hroom
  obtain ⟨n, hn⟩ := hexchange.describes.exists_node hid
  have hn' : (env.withGraph g).graph.get? id = some n := ((met_of_mem hid).get?_eq hexchange).trans hn
  obtain ⟨_, _, hrun⟩ | ⟨_, _, hrun⟩ |
    ⟨hnew, _, _, symbols, names, _, _, ⟨_, hrun⟩ | ⟨method, _, hrun⟩⟩ := callShared_cases id (some n) s
  · rw [hrun chain env hn, hrun chain' _ hn']
    exact ⟨rfl, .refl s⟩
  · rw [hrun chain env, hrun chain']
    exact ⟨rfl, .note s (by simp)⟩
  · rw [hrun chain env hn, hrun chain' _ hn']
    exact ⟨rfl, rfl, rfl, fun _ hx => hx, fun _ hx => hx, fun hcut => hcut⟩
  · have hentered : s.Onward (s.intoShared id s.place.returnType symbols names method) := by
      refine ⟨rfl, rfl, fun _ hx => hx, fun x hx => ?_, fun hcut => by simpa using hcut⟩
      rw [lookup_cons]
      split
      · rfl
      · exact hx
    have hless : room env (s.intoShared id s.place.returnType symbols names method) < room env s :=
      Nat.add_lt_add_right (Nat.add_lt_add_left
        (left_lt hentered.shared hid (by simp [hnew]) (by simp)) _) _
    obtain ⟨hsame, honward⟩ := h _ (hless.trans_le hroom)
      (s.intoShared id s.place.returnType symbols names method) hs le_rfl
    rw [hrun chain env hn _ _ rfl, hrun chain' _ hn' _ _ hsame.symm]
    have hgone := hentered.trans honward
    exact ⟨rfl, hgone.classifier, hgone.reading, hgone.begun, hgone.shared, hgone.uncut⟩

end SharedNodes

end Services

/-! ## Chains -/

section Chains

variable {env : Env Node} {g : Graph Node} {m : Nat}

/-- A chain that starts here comes to state nodes, or to nodes that rank lower than `h`. -/
def Low (env : Env Node) (g : Graph Node) (h : Nat) (target : Option NodeId) : Prop :=
  ∀ id, target = some id → Met env g id ∧ (env.graph.contains id = true →
    id ∈ env.table.stateNodes ∨ env.table.rank id < h)

theorem low_of_follows (hexchange : env.Exchange g) {n : Node} (hid : id ∈ env.table.ids)
    (hn : env.graph.get? id = some n) {h : Nat}
    (hstate : id ∈ env.table.stateNodes → env.table.ids.length + 1 < h)
    (hrank : env.table.rank id ≤ h)
    (htarget : target ∈ n.branches ∨ target = next n) : Low env g h target := by
  rintro y rfl
  refine ⟨met_of_ports hexchange hid hn fun _ hd hi hn => known_follows hd hi hn htarget y rfl,
    fun hexists => ?_⟩
  have hy : y ∈ env.graph.follows id := Graph.mem_follows_of_target hn htarget
  by_cases hid' : id ∈ env.table.stateNodes
  · exact .inr ((env.table.rank_le y).trans_lt (hstate hid'))
  · exact (rank_lt hexchange.describes hid hid' hy hexists).imp_right fun h =>
      h.trans_le hrank

/-- Chains agree if the statements of the nodes they come to do. A chain has no more nodes than either
graph, since it writes none twice; only one that starts in line may come to a state node first. -/
theorem agree_chainParts (hexchange : env.Exchange g)
    {unit unit' shared shared' inPlace inPlace' : NodeId → Emit Node String} {h : Nat}
    (hunit : ∀ id, Agree env g m (unit id) (unit' id))
    (hshared : ∀ id ∈ env.table.ids, Agree env g m (shared id) (shared' id))
    {inline : Bool} (hinline : inline = true → env.table.ids.length + 1 < h)
    (hinPlace : ∀ id ∈ env.table.ids, (inline = false → id ∉ env.table.stateNodes) →
      env.table.rank id < h → Agree env g m (inPlace id) (inPlace' id))
    {steps steps' : Nat} {seen : List NodeId} (hnodup : seen.Nodup)
    (hseen : ∀ id ∈ seen, id ∈ env.table.ids)
    (hsteps : seen.length + steps = env.graph.size + 1)
    (hsteps' : seen.length + steps' = g.size + 1)
    (htarget : Low env g h target) :
    Agree env g m (chainParts unit shared inPlace steps inline seen target)
      (chainParts unit' shared' inPlace' steps' inline seen target) := by
  induction steps generalizing steps' seen target inline with
  | zero =>
    have hle := length_le_size hnodup fun id hid =>
      hexchange.describes.exists_node (hseen id hid)
    omega
  | succ steps ih =>
    -- no node is written twice, so the other graph has steps left too
    have hle : seen.length ≤ g.size := length_le_size hnodup fun id hid =>
      hexchange.describes'.exists_node (hseen id hid)
    obtain ⟨steps', rfl⟩ : ∃ k, steps' = k + 1 := ⟨steps' - 1, by omega⟩
    cases target with
    | none => exact .ordinary (.pure _)
    | some id =>
      intro s hs hroom
      obtain ⟨hmet, hlow⟩ := htarget id rfl
      rw [chainParts_some unit shared inPlace steps inline seen id hs,
        chainParts_some unit' shared' inPlace' steps' inline seen id hs, hmet.get?_eq hexchange,
        Env.withGraph_table]
      cases hn : env.graph.get? id with
      | none => exact ⟨rfl, .refl s⟩
      | some n =>
        have hid := hmet.mem hn
        have hlow := hlow (by simp [Graph.contains, hn])
        dsimp only
        split
        · exact ((hunit id).recover hexchange hmet).thenPure _ s hs hroom
        · rename_i hnotUnit
          split
          · exact ((hshared id hid).recover hexchange hmet).thenPure _ s hs hroom
          · split
            · exact ⟨rfl, .refl s⟩
            · rename_i hfresh
              -- a state node that is written here is the first one, in line
              have hplain (h : inline = false) : id ∉ env.table.stateNodes :=
                fun hstate => hnotUnit ⟨h, hstate⟩
              have hhigh (hstate : id ∈ env.table.stateNodes) : env.table.ids.length + 1 < h :=
                hinline (Bool.eq_true_of_not_eq_false fun h => hplain h hstate)
              have hrank : env.table.rank id < h :=
                hlow.elim (fun hstate => (env.table.rank_le id).trans_lt (hhigh hstate)) fun h => h
              have hrest := @ih _ false (by simp)
                (fun x hx hstate => hinPlace x hx fun _ => hstate rfl) steps' (id :: seen)
                (hnodup.cons hfresh) (forall_mem_cons.2 ⟨hid, hseen⟩)
                (by rw [length_cons]; omega) (by rw [length_cons]; omega)
                (low_of_follows hexchange hid hn hhigh hrank.le (.inr rfl))
              exact (((hinPlace id hid hplain hrank).recover hexchange hmet).bind fun _ =>
                hrest.thenPure _) s hs hroom

end Chains

/-! ## Levels -/

/-- All emissions agree at two depths. -/
structure AgreeLevel (env : Env Node) (g : Graph Node) (m d d' : Nat) : Prop where
  services : AgreeServices env g m (servicesAt d) (servicesAt d')
  body : ∀ id ∈ env.table.ids,
    Agree env g m (chainAt d true (some id)) (chainAt d' true (some id))

section Levels

variable {env : Env Node} {g : Graph Node} {m bound d d' : Nat} (hexchange : env.Exchange g)
  (hlower : ∀ k < m, ∀ d d', bound ≤ d → bound ≤ d' → AgreeLevel env g k d d')
include hexchange hlower

theorem agree_outputAt (hd : bound ≤ d) (hd' : bound ≤ d') (hid : Met env g id) (port : UInt16) :
    Agree env g m (outputAt (d + 1) id port) (outputAt (d' + 1) id port) := by
  exact agree_readOutput hexchange (fun k hk => (hlower k hk d d' hd hd').services) hid port

omit hexchange in
theorem agree_slotAt (hd : bound ≤ d) (hd' : bound ≤ d') (id : NodeId) :
    Agree env g m (slotAt (d + 1) id) (slotAt (d' + 1) id) := by
  simp only [slotAt]
  refine .bind (agree_unitSlot fun hstate k hk => ?_) fun _ =>
    .self (fun _ => rfl) fun s => .note s (by simp)
  exact (hlower k hk d d' hd hd').body id (mem_stateNodes.1 hstate).1

/-- The statement of a node agrees if the chains do that it leads into. -/
theorem agree_statementAt (hd : bound ≤ d) (hd' : bound ≤ d') {n : Node} (hid : id ∈ env.table.ids)
    (hn : env.graph.get? id = some n) (hflow : ∀ target ∈ n.branches,
      Agree env g m (chainAt (d + 1) false target) (chainAt (d' + 1) false target)) :
    Agree env g m (statement (servicesAt (d + 1)) id) (statement (servicesAt (d' + 1)) id) :=
  agree_statement hexchange hid hn hflow
    (fun _ port hsource => agree_outputAt hexchange hlower hd hd' hsource port)
    (fun target => agree_slotAt hlower hd hd' target)

/-- A chain agrees if the statements do that it can come to. -/
theorem agree_chain {h : Nat} (hd : bound ≤ d) (hd' : bound ≤ d') {inline : Bool}
    (hinline : inline = true → env.table.ids.length + 1 < h)
    (hinPlace : ∀ id ∈ env.table.ids, (inline = false → id ∉ env.table.stateNodes) →
      env.table.rank id < h →
        Agree env g m (statement (servicesAt (d + 1)) id) (statement (servicesAt (d' + 1)) id))
    (htarget : Low env g h target) :
    Agree env g m (chainAt (d + 2) inline target) (chainAt (d' + 2) inline target) := by
  intro s hs hroom
  refine (agree_chainParts hexchange (fun id => agree_startUnit (agree_slotAt hlower hd hd' id))
    (fun id hid => agree_callShared hexchange hid fun k hk => ?_) hinline hinPlace nodup_nil
    (by simp) (Nat.zero_add _) (Nat.zero_add _) htarget).thenPure _ s hs hroom
  exact (hlower k hk _ _ (Nat.le_succ_of_le hd) (Nat.le_succ_of_le hd')).body id hid

/-- A chain needs one level for each rank. -/
theorem agree_flow (h : Nat) (hd : bound + h + 2 ≤ d) (hd' : bound + h + 2 ≤ d')
    (htarget : Low env g h target) :
    Agree env g m (chainAt d false target) (chainAt d' false target) := by
  induction h using Nat.strong_induction_on generalizing d d' target with
  | _ h ih =>
    obtain ⟨e, rfl⟩ : ∃ e, d = e + 2 := ⟨d - 2, by omega⟩
    obtain ⟨e', rfl⟩ : ∃ e', d' = e' + 2 := ⟨d' - 2, by omega⟩
    refine agree_chain hexchange hlower (show bound ≤ e by omega) (show bound ≤ e' by omega)
      (by simp) (fun id hid hstate hrank => ?_) htarget
    obtain ⟨n, hn⟩ := hexchange.describes.exists_node hid
    refine agree_statementAt hexchange hlower (by omega) (by omega) hid hn fun target ht => ?_
    refine ih _ hrank (by omega) (by omega) (low_of_follows hexchange hid hn ?_ le_rfl (.inl ht))
    exact fun h => absurd h (hstate rfl)

omit hexchange hlower in
theorem low_of_known (h : ∀ id, target = some id → Met env g id) :
    Low env g (env.table.ids.length + 2) target := fun id hid =>
  ⟨h id hid, fun _ => .inr (Nat.lt_succ_of_le (env.table.rank_le id))⟩

/-- The statement of any node agrees, wherever it leads. -/
theorem agree_anyStatement (hd : bound + env.table.ids.length + 3 ≤ d)
    (hd' : bound + env.table.ids.length + 3 ≤ d') (hid : id ∈ env.table.ids) :
    Agree env g m (statement (servicesAt (d + 1)) id) (statement (servicesAt (d' + 1)) id) := by
  obtain ⟨n, hn⟩ := hexchange.describes.exists_node hid
  have hrank := env.table.rank_le id
  refine agree_statementAt hexchange hlower (by omega) (by omega) hid hn fun target ht => ?_
  exact agree_flow hexchange hlower (env.table.ids.length + 2) (by omega) (by omega)
    (low_of_follows hexchange hid hn (fun _ => by omega) (by omega) (.inl ht))

/-- The first node of a body may be state and lead anywhere. -/
theorem agree_body (hd : bound + env.table.ids.length + 3 ≤ d)
    (hd' : bound + env.table.ids.length + 3 ≤ d') (hid : id ∈ env.table.ids) :
    Agree env g m (chainAt (d + 2) true (some id)) (chainAt (d' + 2) true (some id)) :=
  agree_chain hexchange hlower (by omega) (by omega) (fun _ => Nat.lt_succ_self _)
    (fun _ hx _ _ => agree_anyStatement hexchange hlower hd hd' hx)
    (low_of_known fun _ heq => Option.some.inj heq ▸ met_of_mem hid)

theorem agreeLevel_of_lower (hd : bound + env.table.ids.length + 5 ≤ d)
    (hd' : bound + env.table.ids.length + 5 ≤ d') : AgreeLevel env g m d d' := by
  obtain ⟨e, rfl⟩ : ∃ e, d = e + 2 := ⟨d - 2, by omega⟩
  obtain ⟨e', rfl⟩ : ∃ e', d' = e' + 2 := ⟨d' - 2, by omega⟩
  refine ⟨⟨fun target htarget => ?_, fun id port hid => ?_, fun id => ?_⟩, fun id hid => ?_⟩
  · exact agree_flow hexchange hlower (env.table.ids.length + 2) (by omega) (by omega)
      (low_of_known htarget)
  · exact agree_outputAt hexchange hlower (by omega) (by omega) hid port
  · exact agree_slotAt hlower (by omega) (by omega) id
  · exact agree_body hexchange hlower (by omega) (by omega) hid

omit hlower in
/-- Depths that are large enough for the room agree. -/
theorem agreeLevel (hd : (m + 1) * (env.table.ids.length + 5) ≤ d)
    (hd' : (m + 1) * (env.table.ids.length + 5) ≤ d') : AgreeLevel env g m d d' := by
  induction m using Nat.strong_induction_on generalizing d d' with
  | _ m ih =>
    have hlower : ∀ k < m, ∀ d d', m * (env.table.ids.length + 5) ≤ d →
        m * (env.table.ids.length + 5) ≤ d' → AgreeLevel env g k d d' := fun k hk d d' hd hd' => by
      have hle : (k + 1) * (env.table.ids.length + 5) ≤ m * (env.table.ids.length + 5) :=
        Nat.mul_le_mul_right _ hk
      exact ih k hk (hle.trans hd) (hle.trans hd')
    rw [Nat.add_mul, Nat.one_mul] at hd hd'
    exact agreeLevel_of_lower hexchange hlower (by omega) (by omega)

end Levels

/-! ## A whole pass -/

/-- The bodies of a pass whose emissions may nest to a depth. -/
def bodiesAt (depth : Nat) : Emit Node Unit := do
  prepare
  (← env).graph.classDecl.entryPoints.forM (entryWith (chainAt depth false))

section Bodies

variable {env : Env Node} {g : Graph Node} {m : Nat}

theorem agree_entryWith (hclass : g.classDecl = env.graph.classDecl)
    {flow flow' : Option NodeId → Emit Node String}
    (h : Agree env g m (flow (some e.node)) (flow' (some e.node))) :
    Agree env g m (entryWith flow e) (entryWith flow' e) := by
  intro s hs hroom
  obtain ⟨err, _, hrun⟩ | ⟨body, _, place, _, _, _, hrun⟩ :=
    entryWith_cases env.graph.classDecl e s
  · rw [hrun flow env rfl, hrun flow' _ hclass]
    exact ⟨rfl, .refl s⟩
  · have hinner := h.around (withPlace_eq place _) (withPlace_eq place _) (fun _ => rfl)
      fun _ _ => rfl
    rw [hrun flow env rfl, hrun flow' _ hclass]
    exact (hinner.bind fun text => Agree.self (fun _ => rfl) fun s =>
      ⟨rfl, rfl, fun _ hx => hx, fun _ hx => hx, fun hcut => hcut⟩) s hs hroom

theorem agree_entry (hexchange : env.Exchange g) {depth : Nat}
    (henv : (m + 1) * (env.table.ids.length + 5) ≤ env.depth)
    (hdepth : (m + 1) * (env.table.ids.length + 5) ≤ depth)
    (he : e ∈ env.graph.classDecl.entryPoints) :
    Agree env g m (entry e) (entryWith (chainAt depth false) e) := by
  have hclass : g.classDecl = env.graph.classDecl := hexchange.same.classDecl
  have hmet : Met env g e.node := ⟨hexchange.describes.mem_of_entryPoint he,
    hexchange.describes'.mem_of_entryPoint (hclass ▸ he)⟩
  exact fun s hs hroom => agree_entryWith hclass ((agreeLevel hexchange henv hdepth).services.flow _
    fun id hid => Option.some.inj hid ▸ hmet) s hs hroom

theorem agree_entries (hdescribes : env.table.Describes env.graph) {depth : Nat}
    (henv : (m + 1) * (env.table.ids.length + 5) ≤ env.depth)
    (hdepth : (m + 1) * (env.table.ids.length + 5) ≤ depth) (es : List EntryPoint)
    (hes : ∀ e ∈ es, e ∈ env.graph.classDecl.entryPoints) :
    Agree env env.graph m (es.forM entry) (es.forM (entryWith (chainAt depth false))) := by
  induction es with
  | nil => exact .ordinary (.pure _)
  | cons e es ih =>
    obtain ⟨he, hes⟩ := forall_mem_cons.1 hes
    exact (agree_entry (.refl hdescribes) henv hdepth he).bind fun _ => ih hes

/-- The depth of a pass is large enough for all the room there is. -/
theorem enough_depth (hdescribes : env.table.Describes env.graph) :
    (3 * env.table.ids.length + 1) * (env.table.ids.length + 5) ≤ env.depth := by
  have hsize : env.table.ids.length ≤ env.graph.size :=
    length_le_size hdescribes.nodup fun _ hid => hdescribes.exists_node hid
  calc (3 * env.table.ids.length + 1) * (env.table.ids.length + 5)
      ≤ (4 * (env.graph.size + 2)) * (4 * (env.graph.size + 2)) :=
        Nat.mul_le_mul (by omega) (by omega)
    _ = env.depth := by rw [Nat.mul_mul_mul_comm, Env.depth, Nat.mul_assoc 16]

theorem entry_over (h : env.Exchange g) (he : e ∈ env.graph.classDecl.entryPoints) {s : State}
    (hs : s.classifier.frozen = some env.sealed) : entry e env s = entry e (env.withGraph g) s := by
  have henough : (3 * env.table.ids.length + 1) * (env.table.ids.length + 5) ≤
      (env.withGraph g).depth := enough_depth h.describes'
  exact (agree_entry h (enough_depth h.describes) henough he s hs (room_le env s)).1

theorem prepare_over (h : env.Exchange g) : Steady env (env.withGraph g) prepare :=
  .prepare h.same.classDecl rfl rfl fun _ hid => (met_of_mem hid).get?_eq h

end Bodies

end Emit

/-- Emission comes to an end: the analysis has gone wherever links lead, no emission was cut off,
and none nests deeper than the pass allows, since at every greater depth the pass is the same. -/
theorem emission_never_cut_off {graph : Graph Node} {config : Config} {gen : Generation Node}
    (hstart : Generation.start graph config = .ok gen) :
    gen.env.table.Describes graph ∧
    (∀ x y, y ∈ gen.env.table.flowReachable x ↔ Reach.Leads gen.env.table.flowNext x y) ∧
    .cutOff ∉ (Emit.bodies gen.env gen.state).2.journal ∧
    ∀ depth, gen.env.depth ≤ depth →
      Emit.bodiesAt depth gen.env gen.state = Emit.bodies gen.env gen.state := by
  obtain ⟨rfl, _, hdescribes, hstate⟩ := Generation.start_eq hstart
  refine ⟨hdescribes, fun x y => hdescribes.mem_flowReachable, ?_⟩
  have hempty : gen.state.journal = [] := by
    rw [hstate]
    rfl
  have hpass (depth : Nat) (hdepth : gen.env.depth ≤ depth) :
      Emit.bodies gen.env gen.state = Emit.bodiesAt depth gen.env gen.state ∧
        .cutOff ∉ (Emit.bodies gen.env gen.state).2.journal := by
    unfold Emit.bodies Emit.bodiesAt
    obtain ⟨e, s, hrun, hsame, _⟩ | ⟨s, hrun, hsame⟩ := Emit.prepare_cases gen.env gen.state
    · rw [Emit.bind_eq_of_error hrun, Emit.bind_eq_of_error hrun]
      have hjournal : s.journal = gen.state.journal := congrArg (Ledger.journal ∘ Prod.fst) hsame
      exact ⟨rfl, by simp [hjournal, hempty]⟩
    · rw [Emit.bind_eq_of_ok hrun, Emit.bind_eq_of_ok hrun, Emit.env_bind, Emit.env_bind]
      have hprepared := Generation.prepared hstart hrun
      have henough := Emit.enough_depth hdescribes
      obtain ⟨hsame, honward⟩ := Emit.agree_entries hdescribes henough (henough.trans hdepth) _
        (fun _ he => he) _ hprepared.frozen (room_le _ _)
      have hjournal := congrArg Ledger.journal hprepared.ledger
      refine ⟨hsame, honward.uncut ?_⟩
      rw [show State.journal _ = [] from hjournal]
      exact List.not_mem_nil
  exact ⟨(hpass _ le_rfl).2, fun depth hdepth => (hpass depth hdepth).1.symm⟩

/-- A scope whose body polls the scope's own unit and flows back into it, and a lambda whose body
reads the lambda. -/
def tangled : Graph Node where
  name := "C"
  classDecl := startsAtOne
  nodes :=
    [(⟨1⟩, .stateScope (some ⟨2⟩) (some ⟨4⟩)),
      (⟨2⟩, .branch (.output ⟨3⟩ 0) (some ⟨1⟩) none (some ⟨2⟩)),
      (⟨3⟩, .unitStatus (some ⟨1⟩) .isRunning),
      (⟨4⟩, .invoke (ownCall "Use" [.output ⟨5⟩ 0]) none),
      (⟨5⟩, .lambda [] .void (some ⟨6⟩)),
      (⟨6⟩, .invoke (ownCall "Again" [.output ⟨5⟩ 0]) (some ⟨6⟩))]

/-- Four units ask for one another, and reading the lambda inside itself fails; nothing is cut
off. -/
theorem tangled_never_cut_off : ∃ gen s,
    Generation.start tangled { scheduling := .batched 1 } = .ok gen ∧
    Emit.bodies gen.env gen.state = (.ok (), s) ∧ s.units.units.length = 4 ∧
    s.diagnostics.length = 1 ∧ .cutOff ∉ s.journal ∧
    ∀ depth, gen.env.depth ≤ depth → Emit.bodiesAt depth gen.env gen.state = (.ok (), s) := by
  obtain ⟨gen, s, hstart, hrun, hunits, hdiagnostics⟩ :
      Generation.EndsWith tangled { scheduling := .batched 1 } fun _ s =>
        s.units.units.length = 4 ∧ s.diagnostics.length = 1 := by decide +kernel
  obtain ⟨_, _, huncut, hsame⟩ := emission_never_cut_off hstart
  rw [hrun] at huncut hsame
  exact ⟨gen, s, hstart, hrun, hunits, hdiagnostics, huncut, hsame⟩

end FlowClass
