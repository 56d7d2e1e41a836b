import FlowClass.Proofs.Emission.Depth

/-!
# Orderly emission

A state is *orderly* (`Orderly`) if the classification is sealed, every node of the table has the
variable it owns, and all that happened so far stayed within what the analysis found:

* only nodes of the table were written, read or asked for a unit;
* a place where code may wait is the body of a unit that is entered;
* a wait was written at such places only, and nothing but ordinary errors was reported.

An emission is *safe* (`Safe`) if it leads from orderly states to orderly ones and fails with
ordinary errors only. Being safe is a congruence, so the hooks of nodes are safe if the services are;
the rest follows the levels of emission (`safeLevel`). Two arguments carry the induction: what a
hook asks for is among the connections of its node, which the table is closed under, and a chain that
comes back to a node it has written runs along a cycle, whose nodes are state.
-/

namespace FlowClass

open List Emit NodeShape SymbolKey Connectivity

variable {id : NodeId} {s s' : State} {within : NodeId → Prop} {e : GenError}
  {target : Option NodeId} {place : Place} {us : StateUnits}

/-! ## Orderly states -/

/-- The bodies of the units, in slot order. -/
def StateUnits.bodies (us : StateUnits) : List BodyId :=
  us.units.map StateUnit.body

/-- A place where code may wait is the body of a unit. -/
def Place.Housed (place : Place) (us : StateUnits) : Prop :=
  place.resumable = true → place.kind = .unit ∧ place.body ∈ us.bodies

/-- An event stays within what the analysis found. -/
def Event.Fits (env : Env Node) (us : StateUnits) : Event → Prop
  | .statement id place =>
    id ∈ env.table.ids ∧ place.Housed us ∧
      ∀ n, env.graph.get? id = some n → n.suspends = true → place.resumable = true
  | .value id _ place => id ∈ env.table.ids ∧ place.Housed us
  | .slot id => env.graph.contains id = true → id ∈ env.table.ids
  | .run _ _ place => place.Housed us
  | _ => True

/-! ### Outputs that are being read -/

namespace Connectivity

/-- A node reads an output of another. -/
def Reads (t : Connectivity) (x y : NodeId) : Prop :=
  ⟨y, x, .value⟩ ∈ t.links

/-- A port of a node names another, for whatever purpose. -/
def Names (t : Connectivity) (x y : NodeId) : Prop :=
  ∃ l ∈ t.links, l.owner = x ∧ l.far = y

/-- Outputs lead from a node to one that refers to a unit, and ports of any kind lead on from there. -/
def Detour (t : Connectivity) (x y : NodeId) : Prop :=
  ∃ q u, Relation.ReflTransGen t.Reads x q ∧ ⟨q, u, .reference⟩ ∈ t.links ∧
    Relation.ReflTransGen t.Names u y

end Connectivity

/-- The body of a lambda is emitted while its value is. -/
def Env.HasLambda (env : Env Node) : Prop :=
  ∃ id n target, env.graph.get? id = some n ∧ n.lambdaBody = some target

/-- An output may be asked for while it is being read. -/
def Env.Knotted (env : Env Node) : Prop :=
  env.HasLambda ∨ ∃ id, Relation.TransGen env.table.Reads id id ∨ env.table.Detour id id

/-- While an output of `x` is being read, emission comes to `y`: along outputs as told, through a
lambda, or through a unit. -/
def Env.Opens (env : Env Node) (outputs : NodeId → NodeId → Prop) (y x : NodeId) : Prop :=
  x ∈ env.table.ids ∧ (env.graph.contains y = true →
    outputs x y ∨ env.HasLambda ∨ env.table.Detour x y)

/-- A chain comes to `y`. -/
abbrev Env.Free (env : Env Node) : NodeId → NodeId → Prop :=
  env.Opens fun _ _ => False

/-- An output of `y` is asked for. -/
abbrev Env.Toward (env : Env Node) : NodeId → NodeId → Prop :=
  env.Opens (Relation.TransGen env.table.Reads)

/-- An output of `y` is being read. -/
abbrev Env.Inside (env : Env Node) : NodeId → NodeId → Prop :=
  env.Opens (Relation.ReflTransGen env.table.Reads)

theorem Env.Opens.mono {env : Env Node} {outputs outputs' : NodeId → NodeId → Prop} {x y : NodeId}
    (h : env.Opens outputs y x) (himp : ∀ x y, outputs x y → outputs' x y) : env.Opens outputs' y x :=
  ⟨h.1, fun hexists => (h.2 hexists).imp_left (himp x y)⟩

/-- An ordinary error, and a value cycle only where outputs may be asked for again. -/
def GenError.Fits (env : Env Node) (e : GenError) : Prop :=
  e.isOrdinary = true ∧ ∀ id, e.root = .valueCycle id → env.Knotted

theorem GenError.fits_of_isPlain (h : e.isPlain = true) (env : Env Node) : e.Fits env := by
  refine ⟨isOrdinary_of_isPlain h, fun id hid => ?_⟩
  rw [root_of_isPlain h] at hid
  subst hid
  cases h

/-- A report of an error that fits. -/
def Diagnostic.Fits (env : Env Node) (d : Diagnostic) : Prop :=
  ∃ e : GenError, e.Fits env ∧ e.root.Tells d.message

/-- The invariant of emission. -/
structure Orderly (env : Env Node) (s : State) : Prop where
  frozen : s.classifier.frozen = some env.sealed
  owned : ∀ id ∈ env.table.ids, ∀ n, env.graph.get? id = some n → n.ownsVariable = true →
    node id ∈ s.symbols.keys
  place : s.place.Housed s.units
  journal : ∀ e ∈ s.journal, e.Fits env s.units
  reports : ∀ d ∈ s.diagnostics, d.Fits env

/-- How a state looks from the outside after an emission. -/
structure State.Grown (s s' : State) : Prop where
  place : s'.place = s.place
  reading : s'.reading = s.reading
  bodies : ∀ body ∈ s.units.bodies, body ∈ s'.units.bodies
  keys : ∀ key ∈ s.symbols.keys, key ∈ s'.symbols.keys

theorem State.Grown.refl (s : State) : s.Grown s :=
  ⟨rfl, rfl, fun _ h => h, fun _ h => h⟩

theorem State.Grown.trans {s'' : State} (h : s.Grown s') (h' : s'.Grown s'') : s.Grown s'' :=
  ⟨h'.place.trans h.place, h'.reading.trans h.reading,
    fun body hbody => h'.bodies body (h.bodies body hbody),
    fun key hkey => h'.keys key (h.keys key hkey)⟩

theorem State.Grown.note (s : State) (e : Event) : s.Grown { s with journal := e :: s.journal } :=
  ⟨rfl, rfl, fun _ h => h, fun _ h => h⟩

/-! ### More units -/

namespace StateUnits

theorem bodies_eq (us : StateUnits) : us.bodies = us.outline.map fun entry => entry.2.2 := by
  unfold bodies outline
  rw [map_map]
  rfl

theorem bodies_of_outline {us' : StateUnits} (h : us'.outline = us.outline) :
    us'.bodies = us.bodies := by
  rw [bodies_eq, bodies_eq, h]

theorem mem_bodies_register {body : BodyId} (h : body ∈ us.bodies) (table : SymbolTable)
    (node : NodeId) : body ∈ (us.register table node).2.1.bodies := by
  rw [bodies_eq] at h ⊢
  obtain hsame | ⟨_, hnew⟩ := outline_register us table node
  · rwa [hsame]
  · rw [hnew, map_append]
    exact mem_append_left _ h

theorem mem_bodies_of_begin {us' : StateUnits} {node : NodeId} {body : BodyId}
    (h : us.begin node = some (body, us')) : body ∈ us'.bodies := by
  rw [bodies_of_outline (outline_begin h)]
  obtain ⟨u, hu, _, hbody, _⟩ := begin_eq_some h
  exact hbody ▸ mem_map_of_mem (get?_mem hu)

end StateUnits

theorem State.Grown.withUnits (s : State) {units : StateUnits}
    (hunits : units.bodies = s.units.bodies) : s.Grown { s with units } :=
  ⟨rfl, rfl, fun _ hbody => hunits ▸ hbody, fun _ h => h⟩

theorem State.Grown.enterUnit (s : State) (id : NodeId) : s.Grown (enterUnit id s) := by
  refine ⟨rfl, rfl, fun body hbody => StateUnits.mem_bodies_register hbody s.symbols id,
    fun key hkey => ?_⟩
  change key ∈ (s.units.register s.symbols id).2.2.keys
  unfold StateUnits.register
  split <;> exact hkey

section Units

variable {env : Env Node} {us us' : StateUnits} (h : ∀ body ∈ us.bodies, body ∈ us'.bodies)
include h

theorem Place.Housed.mono (hplace : place.Housed us) : place.Housed us' := by
  intro hresumable
  obtain ⟨hkind, hbody⟩ := hplace hresumable
  exact ⟨hkind, h _ hbody⟩

theorem Event.Fits.mono {e : Event} (he : e.Fits env us) : e.Fits env us' := by
  cases e with
  | statement id place => exact ⟨he.1, he.2.1.mono h, he.2.2⟩
  | value id port place => exact ⟨he.1, he.2.mono h⟩
  | slot id => exact he
  | run slot value place => exact Place.Housed.mono h he
  | _ => trivial

end Units

theorem Event.fits_of_isReference {e : Event} (h : e.isReference = true) (env : Env Node)
    (us : StateUnits) : e.Fits env us := by
  cases e with
  | mention handle body => trivial
  | refer member body => trivial
  | parameter owner index name body => trivial
  | temporary name => trivial
  | _ => exact absurd h Bool.false_ne_true

theorem Place.Housed.of_not_resumable (h : place.resumable = false) : place.Housed us := by
  intro hresumable
  rw [h] at hresumable
  cases hresumable

namespace Orderly

variable {env : Env Node} {s : State}

variable (h : Orderly env s)
include h

/-- A spelling step keeps order. -/
theorem ofFrame (hframe : s.Frame s') : Orderly env s' where
  frozen := by rw [hframe.classifier, h.frozen]
  owned id hid n hn howns := hframe.keys.subset (h.owned id hid n hn howns)
  place := by
    rw [hframe.place, hframe.units]
    exact h.place
  journal e he := by
    obtain ⟨new, hnew, href⟩ := hframe.journal
    rw [hnew, mem_append] at he
    rw [hframe.units]
    rcases he with he | he
    · exact Event.fits_of_isReference (href e he) env s.units
    · exact h.journal e he
  reports d hd := by
    rw [hframe.diagnostics] at hd
    exact h.reports d hd

theorem atPlace (hplace : place.Housed s.units) : Orderly env { s with place } :=
  ⟨h.frozen, h.owned, hplace, h.journal, h.reports⟩

theorem note {e : Event} (he : e.Fits env s.units) :
    Orderly env { s with journal := e :: s.journal } :=
  ⟨h.frozen, h.owned, h.place, forall_mem_cons.2 ⟨he, h.journal⟩, h.reports⟩

/-- Units and variables may grow, and whatever else is not looked at may change. -/
theorem grow (hgrown : s.Grown s') (hclassifier : s'.classifier = s.classifier)
    (hjournal : s'.journal = s.journal) (hdiagnostics : s'.diagnostics = s.diagnostics) :
    Orderly env s' where
  frozen := by rw [hclassifier, h.frozen]
  owned id hid n hn howns := hgrown.keys _ (h.owned id hid n hn howns)
  place := by
    rw [hgrown.place]
    exact h.place.mono hgrown.bodies
  journal e he := by
    rw [hjournal] at he
    exact (h.journal e he).mono hgrown.bodies
  reports d hd := by
    rw [hdiagnostics] at hd
    exact h.reports d hd

theorem around (haround : Emit.Around s s') (hplace : s'.place = s.place) : Orderly env s' := by
  obtain ⟨_, _, _, _, rfl⟩ := haround
  cases hplace
  exact ⟨h.frozen, h.owned, h.place, h.journal, h.reports⟩

theorem withUnits {units : StateUnits} (hunits : units.bodies = s.units.bodies) :
    Orderly env { s with units } :=
  h.grow (.withUnits s hunits) rfl rfl rfl

theorem enterUnit (hid : env.graph.contains id = true → id ∈ env.table.ids) :
    Orderly env (enterUnit id s) := by
  have hnoted : Orderly env { s with journal := .slot id :: s.journal } := h.note hid
  have hgrown := State.Grown.enterUnit s id
  exact hnoted.grow ⟨hgrown.place, hgrown.reading, hgrown.bodies, hgrown.keys⟩ rfl rfl rfl

/-- A failure is reported. -/
theorem afterFailure (id : NodeId) (he : e.Fits env) :
    Orderly env (afterFailure env id e s) := by
  refine ⟨h.frozen, h.owned, h.place, h.journal, fun d hd => ?_⟩
  rcases mem_append.1 hd with hd | hd
  · exact h.reports d hd
  · rw [mem_singleton.1 hd]
    exact ⟨e, he, .inr rfl⟩

end Orderly

namespace Emit

variable {env : Env Node} {α β : Type} {x : Emit Node α}

/-! ## Safe emissions -/

/-- A run that keeps order and fails with ordinary errors only. -/
structure Safely (env : Env Node) (s : State) (run : Except GenError α × State) : Prop where
  orderly : Orderly env run.2
  grown : s.Grown run.2
  errors : ∀ e, run.1 = .error e → e.Fits env

/-- From every orderly state the emission runs safely, as long as only outputs of certain nodes are
being read. -/
def Safe (env : Env Node) (within : NodeId → Prop) (x : Emit Node α) : Prop :=
  ∀ s, Orderly env s → (∀ r ∈ s.reading, within r.1) → Safely env s (x env s)

namespace Safely

variable {s s' : State}

theorem ok (h : Orderly env s') (hgrown : s.Grown s') (a : α) :
    Safely env s ((.ok a, s') : Except GenError α × State) :=
  ⟨h, hgrown, fun _ he => nomatch he⟩

theorem error (h : Orderly env s') (hgrown : s.Grown s') (he : e.isPlain = true) :
    Safely env s ((.error e, s') : Except GenError α × State) := by
  refine ⟨h, hgrown, fun e' he' => ?_⟩
  cases he'
  exact GenError.fits_of_isPlain he env

theorem cutOff (hs : Orderly env s) : Safely env s (cutOff env s : Except GenError α × State) :=
  .error (e := .tooDeep) (hs.note (e := .cutOff) trivial) (.note s _) rfl

theorem after {run : Except GenError α × State} (h : Safely env s' run) (hgrown : s.Grown s') :
    Safely env s run :=
  ⟨h.orderly, hgrown.trans h.grown, h.errors⟩

/-- Sequencing, where what follows may know the state it starts from. -/
theorem bind {f : α → Emit Node β} (hx : Safely env s (x env s))
    (hf : ∀ a s', Orderly env s' → s.Grown s' → Safely env s' (f a env s')) :
    Safely env s ((x >>= f) env s) := by
  rcases hrun : x env s with ⟨e | a, s'⟩
  · rw [bind_eq_of_error hrun]
    rw [hrun] at hx
    exact ⟨hx.orderly, hx.grown, fun e' he' => by cases he'; exact hx.errors e rfl⟩
  · rw [bind_eq_of_ok hrun]
    rw [hrun] at hx
    exact (hf a s' hx.orderly hx.grown).after hx.grown

theorem withPlace (hs : Orderly env s) (hx : Safely env { s with place } (x env { s with place })) :
    Safely env s (withPlace place x env s) := by
  rw [withPlace_apply]
  exact ⟨hx.orderly.atPlace (hs.place.mono hx.grown.bodies),
    ⟨rfl, hx.grown.reading, hx.grown.bodies, hx.grown.keys⟩, hx.errors⟩

theorem atPlace {change : Place → Place} (hs : Orderly env s)
    (hx : Safely env { s with place := change s.place }
      (x env { s with place := change s.place })) : Safely env s (atPlace change x env s) := by
  unfold Emit.atPlace
  exact .withPlace hs hx

/-- A run in a bracket that stays at its place. -/
theorem around {y : Emit Node α} {b : Bracket α} (hy : y = b.run x) (hb : b.InPlace)
    (hreading : ∀ s s', s'.reading = (b.enter s).reading → (b.leave s s').reading = s.reading)
    (hx : Safely env (b.enter s) (x env (b.enter s))) : Safely env s (y env s) := by
  subst hy
  obtain ⟨henter, hleave⟩ := hb s (x env (b.enter s)).2
  have hsame {s s' : State} (h : Around s s') : s'.units = s.units ∧ s'.symbols = s.symbols := by
    obtain ⟨_, _, _, _, rfl⟩ := h
    exact ⟨rfl, rfl⟩
  obtain ⟨hunits, hsymbols⟩ := hsame (b.enter_eq s)
  obtain ⟨hunits', hsymbols'⟩ := hsame (b.leave_eq s (x env (b.enter s)).2)
  refine ⟨hx.orderly.around (b.leave_eq s _) hleave, ⟨hleave.trans (hx.grown.place.trans henter),
    hreading s _ hx.grown.reading, ?_, ?_⟩, fun e he => hx.errors e (b.run_eq_error_iff.1 he)⟩
  · exact fun body hbody => hunits' ▸ hx.grown.bodies body (hunits ▸ hbody)
  · exact fun key hkey => hsymbols' ▸ hx.grown.keys key (hsymbols ▸ hkey)

/-- A failure is reported, or goes on under the name of the node. -/
theorem recover {x : Emit Node String} (id : NodeId) (hx : Safely env s (x env s)) :
    Safely env s (recover id x env s) := by
  obtain ⟨text, s', hrun, h⟩ | ⟨e, s', hrun, h⟩ := recover_cases id x env s
  · rwa [h, ← hrun]
  · rw [hrun] at hx
    have he := hx.errors e rfl
    obtain ⟨_, text, h⟩ | ⟨_, h⟩ := h <;> rw [h]
    · exact .ok (hx.orderly.afterFailure id he)
        ⟨hx.grown.place, hx.grown.reading, hx.grown.bodies, hx.grown.keys⟩ text
    · refine ⟨hx.orderly, hx.grown, fun e' he' => ?_⟩
      cases he'
      exact ⟨(e.isOrdinary_inNode _ _).trans he.1, fun m hm => he.2 m ((e.root_inNode _ _).symm.trans hm)⟩

end Safely

namespace Safe

variable {within : NodeId → Prop}

theorem mono {within' : NodeId → Prop} (hx : Safe env within' x) (h : ∀ id, within id → within' id) :
    Safe env within x :=
  fun s hs hopen => hx s hs fun r hr => h r.1 (hopen r hr)

theorem ordinary (hx : Ordinary x) : Safe env within x := by
  intro s hs _
  have hframe := hx.quiet.frame env s
  refine ⟨hs.ofFrame hframe,
    ⟨hframe.place, hframe.reading, fun body hbody => ?_, hframe.keys.subset⟩,
    fun e he => GenError.fits_of_isPlain (hx.errors env s e he) env⟩
  rwa [hframe.units]

theorem bind {f : α → Emit Node β} (hx : Safe env within x) (hf : ∀ a, Safe env within (f a)) :
    Safe env within (x >>= f) := by
  intro s hs hopen
  exact (hx s hs hopen).bind fun a s' hs' hgrown => hf a s' hs' (hgrown.reading ▸ hopen)

theorem thenPure (hx : Safe env within x) (f : α → β) :
    Safe env within (do return f (← x)) :=
  hx.bind fun a => .ordinary (Ordinary.pure (f a))

/-- A body inside an expression cannot wait. -/
theorem nested (type : Ty) (hx : Safe env within x) :
    Safe env within (atPlace (Place.toNested type) x) := by
  intro s hs hopen
  exact .atPlace hs (hx _ (hs.atPlace (.of_not_resumable rfl)) hopen)

theorem recover {x : Emit Node String} (id : NodeId) (hx : Safe env within x) :
    Safe env within (recover id x) := by
  intro s hs hopen
  exact (hx s hs hopen).recover id

theorem refer (member : Added) : Safe env within (refer member : Emit Node Unit) := by
  intro s hs _
  exact .ok (hs.note (e := .refer member s.place.body) trivial) (.note s _) ()

theorem cutOff : Safe env within (cutOff : Emit Node α) :=
  fun _ hs _ => .cutOff hs

end Safe

/-- Being safe is a congruence. -/
def guarding (env : Env Node) (within : NodeId → Prop) : Congruence Node where
  rel _ x _ := Safe env within x
  ordinary hx := .ordinary hx
  bind hx hf := .bind hx hf
  scope id hx _ hs hopen := .around (withScope_eq id _) (fun _ _ => ⟨rfl, rfl⟩) (fun _ _ h => h)
    (hx _ (hs.around ⟨_, _, _, _, rfl⟩ rfl) hopen)
  nested type hx := .nested type hx

/-! ## Nodes -/

/-- What hooks may ask for is safe, as long as they ask for nodes of the table. -/
structure SafeServices (env : Env Node) (services : Services Node) : Prop where
  flow : ∀ target, (∀ id, target = some id → Known env id) →
    Safe env (fun x => ∀ id, target = some id → env.Free id x) (services.flow target)
  output : ∀ id port, Known env id → Safe env (env.Toward id) (services.output id port)
  slot : ∀ id, Known env id → Safe env (env.Free id) (services.slot id)

/-- The variable of a node that owns one is there. -/
theorem safe_nodeVariable {n : Node} (hid : id ∈ env.table.ids) (hn : env.graph.get? id = some n)
    (howns : n.ownsVariable = true) : Safe env within (nodeVariable id) := by
  intro s hs hopen
  have hkey := hs.owned id hid n hn howns
  obtain ⟨handle, hhandle⟩ := Option.isSome_iff_exists.1 (SymbolTable.variableHandle?_isSome.2 hkey)
  unfold nodeVariable keyedVariable
  rw [get_bind, hhandle]
  exact Safe.ordinary (Ordinary.variableName handle) s hs hopen

section Nodes

variable (hdescribes : env.table.Describes env.graph) {services : Services Node}
  (h : SafeServices env services) {id : NodeId} {n : Node} (hid : id ∈ env.table.ids)
  (hn : env.graph.get? id = some n)
include hdescribes hid hn

section Opens

omit h

variable {x : NodeId}

theorem mem_links {c : Connection} (hc : c ∈ (ports n).connections)
    (hexists : env.graph.contains c.other = true) : c.toLink id ∈ env.table.links :=
  hdescribes.mem_links.2 ⟨id, hid, Graph.mem_linksOf.2 ⟨n, hn, c, hc, hexists, rfl⟩⟩

/-- A chain that comes to a node comes to what the node names. -/
theorem free_of_connection (hx : env.Free id x) {c : Connection}
    (hc : c ∈ (ports n).connections) : env.Free c.other x := by
  refine ⟨hx.1, fun hexists => .inr ?_⟩
  refine ((hx.2 (by simp [Graph.contains, hn])).resolve_left False.elim).imp_right ?_
  rintro ⟨q, u, hq, hu, hnames⟩
  exact ⟨q, u, hq, hu, hnames.tail ⟨_, mem_links hdescribes hid hn hc hexists, by simp⟩⟩

theorem free_follows (hx : env.Free id x)
    (htarget : target ∈ n.branches ∨ target = next n) :
    ∀ y, target = some y → env.Free y x := by
  rintro y rfl
  rcases Graph.mem_follows (Graph.mem_follows_of_target hn htarget) with hy | hy
  · rw [Graph.flowTargets_of_some hn] at hy
    obtain ⟨index, hc⟩ := Ports.mem_flowTargets.1 hy
    exact free_of_connection hdescribes hid hn hx hc
  · rw [Graph.children_of_some hn] at hy
    exact free_of_connection hdescribes hid hn hx (Ports.mem_children.1 hy)

theorem toward_source (hx : env.Inside id x) {source : NodeId}
    (hsource : source ∈ n.ports.valueSources) : env.Toward source x := by
  have hc : .value source ∈ (ports n).connections := by
    simp [Ports.connections, ports, hsource]
  obtain hreads | hother := hx.2 (by simp [Graph.contains, hn])
  · exact ⟨hx.1, fun hexists => .inl (.tail' hreads (mem_links hdescribes hid hn hc hexists))⟩
  · exact (free_of_connection hdescribes hid hn ⟨hx.1, fun _ => .inr hother⟩ hc).mono fun _ _ =>
      False.elim

theorem free_reference (hx : env.Inside id x) {target : NodeId}
    (htarget : target ∈ n.ports.references) : env.Free target x := by
  have hc : .reference target ∈ (ports n).connections := by
    simp [Ports.connections, ports, htarget]
  obtain hreads | hother := hx.2 (by simp [Graph.contains, hn])
  · exact ⟨hx.1, fun hexists =>
      .inr (.inr ⟨id, target, hreads, mem_links hdescribes hid hn hc hexists, .refl⟩)⟩
  · exact free_of_connection hdescribes hid hn ⟨hx.1, fun _ => .inr hother⟩ hc

end Opens

include h

theorem safe_output {source : NodeId} (hsource : source ∈ n.ports.valueSources) (port : UInt16) :
    Safe env (env.Inside id) (services.output source port) :=
  (h.output source port (known_source hdescribes hid hn hsource)).mono fun _ hx =>
    toward_source hdescribes hid hn hx hsource

theorem safe_slot {target : NodeId} (htarget : target ∈ n.ports.references) :
    Safe env (env.Inside id) (services.slot target) :=
  (h.slot target (known_reference hdescribes hid hn htarget)).mono fun _ hx =>
    free_reference hdescribes hid hn hx htarget

theorem safe_value (port : UInt16) : Safe env (env.Inside id) (n.value services id port) := by
  unfold Node.value
  split
  · refine (guarding env _).mainValue services services n id
      (fun source hsource port => safe_output hdescribes h hid hn hsource port)
      (fun target htarget => safe_slot hdescribes h hid hn htarget)
      (fun howns => safe_nodeVariable hid hn howns) (fun target hbody => ?_)
      ((h.flow none fun _ h => nomatch h).mono fun _ _ _ h => nomatch h)
    refine (h.flow (some target) fun y hy => ?_).mono fun x hx _ _ =>
      ⟨hx.1, fun _ => .inr (.inl ⟨id, n, target, hn, hbody⟩)⟩
    rw [← Option.some.inj hy]
    exact known_lambdaBody hdescribes hid hn hbody
  · exact .ordinary (Congruence.ordinary_otherValue n id port)

theorem safe_code (hwait : n.suspends = false) : Safe env (env.Free id) (n.code services id) :=
  (guarding env _).code services services n id
    (fun source hsource port =>
      (safe_output hdescribes h hid hn hsource port).mono fun _ hx => hx.mono fun _ _ => False.elim)
    (fun target htarget =>
      (safe_slot hdescribes h hid hn htarget).mono fun _ hx => hx.mono fun _ _ => False.elim)
    (fun howns => safe_nodeVariable hid hn howns)
    (fun target htarget => (h.flow target (known_follows hdescribes hid hn (.inl htarget))).mono
      fun _ hx => free_follows hdescribes hid hn hx (.inl htarget))
    (fun hsuspends => absurd (hwait.symm.trans hsuspends) (by simp))

/-- The code of a wait is safe where code may wait. -/
theorem safely_code (hs : Orderly env s) (hopen : ∀ r ∈ s.reading, env.Free id r.1)
    (hwait : n.suspends = true → s.place.resumable = true) :
    Safely env s (n.code services id env s) := by
  by_cases hsuspends : n.suspends = true
  · cases n with
    | wait seconds next =>
      -- the check in front of a wait passes here, and the rest is like any other hook
      have hcode : (Node.wait seconds next).code services id env s =
          Node.yieldText services seconds env s := by
        change Node.waitText services seconds env s = _
        have hcheck : (Node.checkResumable : Emit Node Unit) env s = (.ok (), s) := by
          unfold Node.checkResumable demand
          rw [get_bind, hwait rfl]
          rfl
        rw [Node.waitText, bind_eq_of_ok hcheck]
      rw [hcode]
      have hyield : Safe env (env.Inside id) (Node.yieldText services seconds) :=
        (guarding env _).yieldText services services fun source hsource port =>
          safe_output hdescribes h hid hn
            (Ports.reads_mem_valueSources ⟨"seconds", seconds⟩ mem_cons_self hsource) port
      exact hyield s hs fun r hr => (hopen r hr).mono fun _ _ => False.elim
    | _ => cases hsuspends
  · exact safe_code hdescribes h hid hn (Bool.eq_false_of_not_eq_true hsuspends) s hs hopen

end Nodes

/-! ## Statements and outputs -/

section Emissions

variable (hdescribes : env.table.Describes env.graph)
include hdescribes

/-- The table knows a node that waits to be state. -/
theorem state_of_suspends {n : Node} (hid : id ∈ env.table.ids) (hn : env.graph.get? id = some n)
    (hsuspends : n.suspends = true) : id ∈ env.table.stateNodes := by
  have hflow : n.isFlow = true := by
    cases n with
    | wait seconds next => rfl
    | _ => cases hsuspends
  have hflowNode := hdescribes.isFlowNode_iff.2 ⟨hid, n, hn, hflow⟩
  refine mem_stateNodes.2 ⟨hid, hflowNode, id, ?_, .inl rfl⟩
  have hinfo := info_mem hdescribes hid hn
  refine mem_append_right _ (mem_flatMap.2 ⟨_, hinfo, ?_⟩)
  have hisFlow : isFlow n = true := hflow
  have hwaits : suspends n = true := hsuspends
  simp [Classifier.seedsAt, NodeInfo.ofNode, hisFlow, hwaits]

/-- A state node is written in place only where code may wait. -/
theorem safely_statement {services : Services Node} (h : SafeServices env services)
    (hid : id ∈ env.table.ids) (hs : Orderly env s) (hopen : ∀ r ∈ s.reading, env.Free id r.1)
    (hstate : id ∈ env.table.stateNodes → s.place.resumable = true) :
    Safely env s (statement services id env s) := by
  obtain ⟨n, hn⟩ := hdescribes.exists_node hid
  have hwait (hsuspends : n.suspends = true) : s.place.resumable = true :=
    hstate (state_of_suspends hdescribes hid hn hsuspends)
  have hfits : (Event.statement id s.place).Fits env s.units := by
    refine ⟨hid, hs.place, fun m hm hsuspends => hwait ?_⟩
    rw [hn] at hm
    cases hm
    exact hsuspends
  have hnoted := hs.note hfits
  -- the code runs after the event was noted, in a frame of its own
  rw [statement_of_some services hn]
  have hcode := safely_code hdescribes h hid hn
    (s := intoStatement id s)
    (hnoted.around ⟨_, _, _, _, rfl⟩ rfl) hopen hwait
  have hspliced : Safely env { s with journal := .statement id s.place :: s.journal }
      (withSplice (NodeKind.code services id n) env
        { s with journal := .statement id s.place :: s.journal }) :=
    .around (withSplice_eq _) (fun _ _ => ⟨rfl, rfl⟩) (fun _ _ h => h) hcode
  refine (hspliced.bind fun text s' hs' _ => ?_).after (.note s _)
  exact .ok hs' (.refl s') _

/-- An output that is asked for while it is being read lies on a cycle. -/
theorem safe_readOutput {services : Services Node} (h : SafeServices env services)
    (hid : Known env id) (port : UInt16) :
    Safe env (env.Toward id) (readOutput services id port) := by
  intro s hs hopen
  unfold readOutput
  rw [get_bind]
  split
  · rename_i hread
    obtain ⟨hknown, hcycle⟩ := hopen (id, port) (by simpa using hread)
    obtain ⟨n, hn⟩ := hdescribes.exists_node hknown
    refine ⟨hs, .refl s, fun e he => ?_⟩
    cases he
    refine ⟨rfl, fun _ _ => ?_⟩
    obtain hreads | hlambda | hdetour := hcycle (by simp [Graph.contains, hn])
    · exact .inr ⟨id, .inl hreads⟩
    · exact .inl hlambda
    · exact .inr ⟨id, .inr hdetour⟩
  rw [env_bind]
  cases hn : env.graph.get? id with
  | none => exact Safe.ordinary (Ordinary.unresolved fun _ => rfl) s hs hopen
  | some n =>
    have hid : id ∈ env.table.ids := hid (by simp [Graph.contains, hn])
    have hfits : (Event.value id port s.place).Fits env s.units := ⟨hid, hs.place⟩
    have hnoted := hs.note hfits
    have hinside : ∀ r ∈ (id, port) :: s.reading, env.Inside id r.1 :=
      forall_mem_cons.2 ⟨⟨hid, fun _ => .inl .refl⟩, fun r hr =>
        (hopen r hr).mono fun _ _ => Relation.TransGen.to_reflTransGen⟩
    have hvalue := safe_value hdescribes h hid hn port
      { s with journal := .value id port s.place :: s.journal, reading := (id, port) :: s.reading }
      (hnoted.around ⟨_, _, _, _, rfl⟩ rfl) hinside
    have hread : Safely env _ (withReading id port (n.value services id port) env
        { s with journal := .value id port s.place :: s.journal }) :=
      .around (withReading_eq id port _) (fun _ _ => ⟨rfl, rfl⟩) (fun _ _ h => congrArg List.tail h)
        hvalue
    exact (hread.bind fun text s' hs' _ => .ok hs' (.refl s') _).after (.note s _)

/-! ## Units and shared nodes -/

omit hdescribes in
/-- The body of a unit is emitted where code may wait. -/
theorem safe_unitSlot {chain : NodeId → Emit Node String} (hid : Known env id)
    (hchain : id ∈ env.table.stateNodes → ∀ s, Orderly env s →
      (∀ r ∈ s.reading, env.Free id r.1) → s.place.resumable = true →
        Safely env s (chain id env s)) : Safe env (env.Free id) (unitSlot chain id) := by
  intro s hs hopen
  have hgrown := State.Grown.enterUnit s id
  have hentered : Orderly env (enterUnit id s) := hs.enterUnit hid
  obtain ⟨_, herr, hrun⟩ | ⟨hstate, _, ⟨_, hrun⟩ | ⟨body, units, hbegin, hrun⟩⟩ :=
    unitSlot_cases id hs.frozen
  · rw [hrun]
    exact .error (hs.note (e := .slot id) hid) (.note s _) herr
  · have hsame := StateUnits.bodies_of_outline
      (StateUnits.outline_noteReference (enterUnit id s).units id)
    rw [hrun]
    exact .ok (hentered.withUnits hsame) (hgrown.trans (.withUnits _ hsame)) _
  · -- the unit is new, and its body becomes the place
    have hsame := StateUnits.bodies_of_outline (StateUnits.outline_begin hbegin)
    have hbegun : Orderly env { enterUnit id s with units } := hentered.withUnits hsame
    have hhoused : (s.place.toUnit body).Housed units :=
      fun _ => ⟨rfl, StateUnits.mem_bodies_of_begin hbegin⟩
    have hinner := hchain hstate { enterUnit id s with units, place := s.place.toUnit body }
      (hbegun.atPlace hhoused) hopen rfl
    rcases hbody : chain id env { enterUnit id s with units, place := s.place.toUnit body } with ⟨r, s'⟩
    rw [hbody] at hinner
    rw [hrun chain env r s' hbody]
    have hfinish (text : String) := StateUnits.bodies_of_outline (s'.units.outline_finish id text)
    have hback : State.Grown { enterUnit id s with units } { s' with place := s.place } :=
      ⟨rfl, hinner.grown.reading, hinner.grown.bodies, hinner.grown.keys⟩
    refine ⟨(hinner.orderly.atPlace (hbegun.place.mono hback.bodies)).withUnits (hfinish _),
      (hgrown.trans (.withUnits _ hsame)).trans (hback.trans (.withUnits _ (hfinish _))),
      fun e he => hinner.errors e ?_⟩
    cases r <;> cases he
    rfl

omit hdescribes in
theorem safe_startUnit {slot : NodeId → Emit Node Nat} (h : Safe env within (slot id)) :
    Safe env within (startUnit slot id) := by
  refine h.bind fun k s hs _ => ?_
  rw [get_bind, note_bind]
  exact .ok (hs.note (e := .run k _ s.place) hs.place) (.note s _) _

omit hdescribes in
theorem safely_setBodyText (body : BodyId) (text : String) (hs : Orderly env s) :
    Safely env s ((.ok (), { s with symbols := s.symbols.setBodyText body text }) :
      Except GenError Unit × State) := by
  have hgrown : s.Grown { s with symbols := s.symbols.setBodyText body text } :=
    ⟨rfl, rfl, fun _ hbody => hbody, fun _ hkey => hkey⟩
  exact .ok (hs.grow hgrown rfl rfl rfl) hgrown ()

/-- The method of a shared node cannot wait. -/
theorem safe_callShared {chain : NodeId → Emit Node String} (hid : id ∈ env.table.ids)
    (hchain : Safe env within (chain id)) : Safe env within (callShared chain id) := by
  intro s hs hopen
  obtain ⟨n, hn⟩ := hdescribes.exists_node hid
  obtain ⟨_, herr, hrun⟩ | ⟨_, _, hrun⟩ |
    ⟨_, _, _, symbols, names, _, hentered, hrun⟩ := callShared_cases id (some n) s
  · rw [hrun chain env hn]
    exact .error hs (.refl s) herr
  · rw [hrun]
    exact .ok (hs.note (e := .refer (.shared id) s.place.body) trivial) (.note s _) _
  have hkeys := SymbolTable.keys_registerMethod hentered
  have hgrown (shared : List (NodeId × (String × Ty))) : s.Grown { s with symbols, names, shared } :=
    ⟨rfl, rfl, fun _ hbody => hbody, fun _ hkey => hkeys ▸ hkey⟩
  obtain ⟨_, hrun⟩ | ⟨m, _, hrun⟩ := hrun
  · rw [hrun chain env hn]
    exact .error (hs.grow (hgrown s.shared) rfl rfl rfl) (hgrown _) rfl
  · have hcalled : Orderly env (s.callingShared id s.place.returnType symbols names m) :=
      Orderly.note (e := .refer (.shared id) s.place.body)
        (hs.grow (hgrown ((id, (m.name, s.place.returnType)) :: s.shared)) rfl rfl rfl) trivial
    have hinner := hchain (s.intoShared id s.place.returnType symbols names m)
      (hcalled.atPlace (.of_not_resumable rfl)) hopen
    rcases hbody : chain id env (s.intoShared id s.place.returnType symbols names m) with ⟨r, s'⟩
    rw [hbody] at hinner
    rw [hrun chain env hn r s' hbody]
    have hback : s.Grown { s' with place := s.place } := (hgrown s.shared).trans
      ⟨rfl, hinner.grown.reading, hinner.grown.bodies, hinner.grown.keys⟩
    have horderly : Orderly env { s' with place := s.place } :=
      hinner.orderly.atPlace (hs.place.mono hback.bodies)
    cases r with
    | error e => exact ⟨horderly, hback, by rintro _ ⟨⟩; exact hinner.errors e rfl⟩
    | ok text =>
      have htext := safely_setBodyText m.body text horderly
      exact .ok htext.orderly (hback.trans htext.grown) _

/-! ## Chains -/

/-- The node that a statement goes on to is one its flow ports lead to. -/
theorem flowNext_of_next {y : NodeId} {n : Node} (hid : id ∈ env.table.ids)
    (hn : env.graph.get? id = some n) (hnext : next n = some y)
    (hexists : env.graph.contains y = true) : y ∈ env.table.flowNext id := by
  refine hdescribes.mem_flowNext.2 ⟨hid, ?_, hexists⟩
  rw [Graph.flowTargets_of_some hn]
  unfold NodeShape.next at hnext
  split at hnext
  · cases hnext
  · obtain ⟨port, hport, htarget⟩ := Option.bind_eq_some_iff.1 hnext
    exact mem_filterMap.2 ⟨port, mem_of_getElem? hport, htarget⟩

/-- A chain that has written some nodes comes to a target: the table knows it, and flow leads to it
from all of them. Only a chain that has written none is to be written in line. -/
structure Along (env : Env Node) (inline : Bool) (seen : List NodeId) (target : Option NodeId) :
    Prop where
  known : ∀ id, target = some id → Known env id
  leads : ∀ x ∈ seen, ∀ y, target = some y → env.graph.contains y = true →
    Reach.Leads env.table.flowNext x y
  first : inline = true → seen = []

namespace Along

variable {inline : Bool} {seen : List NodeId} {id : NodeId} {n : Node}

omit hdescribes in
theorem start (h : ∀ id, target = some id → Known env id) : Along env inline [] target :=
  ⟨h, forall_mem_nil _, fun _ => rfl⟩

omit hdescribes in
theorem mem_ids (h : Along env inline seen (some id)) (hn : env.graph.get? id = some n) :
    id ∈ env.table.ids :=
  h.known id rfl (by simp [Graph.contains, hn])

/-- A chain does not come back to a node it has written: a node on a cycle is state, and so has a
unit. -/
theorem fresh (h : Along env inline seen (some id)) (hn : env.graph.get? id = some n)
    (hunit : ¬ (inline = false ∧ id ∈ env.table.stateNodes)) : id ∉ seen := by
  intro hagain
  cases inline with
  | true =>
    rw [h.first rfl] at hagain
    exact not_mem_nil hagain
  | false =>
    have hcycle := h.leads id hagain id rfl (by simp [Graph.contains, hn])
    exact hunit ⟨rfl, state_of_cycle hdescribes hcycle⟩

/-- After a node the chain comes to what follows it. -/
theorem next (h : Along env inline seen (some id)) (hn : env.graph.get? id = some n) :
    Along env false (id :: seen) (next n) := by
  have hid := h.mem_ids hn
  refine ⟨known_follows hdescribes hid hn (.inr rfl), ?_, fun h => absurd h Bool.false_ne_true⟩
  intro x hx y hy hexists
  have hstep : y ∈ env.table.flowNext id := flowNext_of_next hdescribes hid hn hy hexists
  obtain rfl | hx := mem_cons.1 hx
  · exact .single hstep
  · exact (h.leads x hx id rfl (by simp [Graph.contains, hn])).tail hstep

end Along

/-- A chain is safe if what it comes to is. -/
theorem safely_chainParts {unit shared inPlace : NodeId → Emit Node String}
    (hunit : ∀ id ∈ env.table.stateNodes, Safe env (env.Free id) (unit id))
    (hshared : ∀ id ∈ env.table.ids, id ∉ env.table.stateNodes →
      Safe env (env.Free id) (shared id))
    (hinPlace : ∀ id ∈ env.table.ids, ∀ s, Orderly env s → (∀ r ∈ s.reading, env.Free id r.1) →
      (id ∈ env.table.stateNodes → s.place.resumable = true) → Safely env s (inPlace id env s))
    {steps : Nat} {inline : Bool} {seen : List NodeId} (halong : Along env inline seen target)
    (hs : Orderly env s) (hopen : ∀ r ∈ s.reading, ∀ id, target = some id → env.Free id r.1)
    (hinline : inline = true → ∀ id, target = some id → id ∈ env.table.stateNodes →
      s.place.resumable = true) :
    Safely env s (chainParts unit shared inPlace steps inline seen target env s) := by
  induction steps generalizing inline seen target s with
  | zero => exact .cutOff hs
  | succ steps ih =>
    cases target with
    | none => exact .ok hs (.refl s) _
    | some id =>
      have hfree : ∀ r ∈ s.reading, env.Free id r.1 := fun r hr => hopen r hr id rfl
      rw [chainParts_some unit shared inPlace steps inline seen id hs.frozen]
      cases hn : env.graph.get? id with
      | none => exact .ok hs (.refl s) _
      | some n =>
        have hid : id ∈ env.table.ids := halong.mem_ids hn
        dsimp only
        split
        · rename_i hstate
          exact ((hunit id hstate.2).recover id).thenPure (fun text => [text]) s hs hfree
        rename_i hnotUnit
        split
        · rename_i hcalled
          have hnot : id ∉ env.table.stateNodes := fun hstate => hnotUnit ⟨hcalled.1, hstate⟩
          exact ((hshared id hid hnot).recover id).thenPure (fun text => [text]) s hs hfree
        rw [if_neg (halong.fresh hdescribes hn hnotUnit)]
        -- a state node is written in place only where code may wait
        have hallowed : id ∈ env.table.stateNodes → s.place.resumable = true := by
          intro hstate
          cases inline with
          | true => exact hinline rfl id rfl hstate
          | false => exact absurd ⟨rfl, hstate⟩ hnotUnit
        refine ((hinPlace id hid s hs hfree hallowed).recover id).bind fun text s' hs' hgrown => ?_
        have hrest : Safely env s'
            (chainParts unit shared inPlace steps false (id :: seen) (next n) env s') :=
          ih (halong.next hdescribes hn) hs' (hgrown.reading ▸ fun r hr =>
            free_follows hdescribes hid hn (hfree r hr) (.inr rfl))
            (fun h => absurd h Bool.false_ne_true)
        exact hrest.bind fun rest s'' hs'' _ => .ok hs'' (.refl s'') _

/-! ## Levels -/

/-- All emissions at a depth are safe. -/
structure SafeLevel (env : Env Node) (depth : Nat) : Prop where
  services : SafeServices env (servicesAt depth)
  body : ∀ id ∈ env.table.ids, ∀ s, Orderly env s → (∀ r ∈ s.reading, env.Free id r.1) →
    (id ∈ env.table.stateNodes → s.place.resumable = true) →
      Safely env s (chainAt depth true (some id) env s)

theorem safeLevel (depth : Nat) : SafeLevel env depth := by
  induction depth with
  | zero =>
    exact ⟨⟨fun _ _ => .cutOff, fun _ _ _ => .cutOff, fun _ _ => .cutOff⟩,
      fun _ _ s hs _ _ => .cutOff hs⟩
  | succ depth ih =>
    have hslot (id : NodeId) (hid : Known env id) :
        Safe env (env.Free id) (unitSlot (fun id => chainAt depth true (some id)) id) :=
      safe_unitSlot hid fun hstate s hs hopen hresumable =>
        ih.body id (mem_stateNodes.1 hstate).1 s hs hopen fun _ => hresumable
    have hchain {inline : Bool} {target : Option NodeId}
        (htarget : ∀ id, target = some id → Known env id) {s : State} (hs : Orderly env s)
        (hopen : ∀ r ∈ s.reading, ∀ id, target = some id → env.Free id r.1)
        (hinline : inline = true → ∀ id, target = some id → id ∈ env.table.stateNodes →
          s.place.resumable = true) :
        Safely env s (chainAt (depth + 1) inline target env s) := by
      rw [chainAt_succ_apply]
      refine Safely.bind (safely_chainParts hdescribes (fun id hstate => ?_) (fun id hid hnot => ?_)
        (fun id hid s hs hopen hstate => safely_statement hdescribes ih.services hid hs hopen hstate)
        (.start htarget) hs hopen hinline) fun _ s' hs' _ => .ok hs' (.refl s') _
      · exact safe_startUnit (ih.services.slot id fun _ => (mem_stateNodes.1 hstate).1)
      · exact safe_callShared hdescribes hid fun s hs hopen =>
          ih.body id hid s hs hopen fun h => absurd h hnot
    refine ⟨⟨fun target htarget s hs hopen => hchain htarget hs hopen (fun h => nomatch h),
      fun id port hid => ?_, fun id hid => ?_⟩, fun id hid s hs hopen hstate => ?_⟩
    · change Safe env _ (outputAt (depth + 1) id port)
      exact safe_readOutput hdescribes ih.services hid port
    · change Safe env _ (slotAt (depth + 1) id)
      exact (hslot id hid).bind fun _ => (Safe.refer _).thenPure _
    · refine hchain (fun y hy _ => ?_) hs (fun r hr y hy => ?_) fun _ y hy => ?_
      · exact Option.some.inj hy ▸ hid
      · exact Option.some.inj hy ▸ hopen r hr
      · exact Option.some.inj hy ▸ hstate

/-! ## A whole pass -/

/-- The bodies of entry points cannot wait. -/
theorem safe_entry {e : EntryPoint} (he : e ∈ env.graph.classDecl.entryPoints) :
    Safe env (fun _ => False) (entry e) := by
  have hknown : Known env e.node := hdescribes.mem_of_entryPoint he
  have hflow : Safe env _ (chainAt env.depth false (some e.node)) :=
    (safeLevel hdescribes env.depth).services.flow (some e.node) fun id hid =>
      Option.some.inj hid ▸ hknown
  intro s hs hidle
  rw [entry_apply]
  obtain ⟨err, herr, hrun⟩ | ⟨body, _, place, _, _, hplace, hrun⟩ :=
    entryWith_cases env.graph.classDecl e s
  · rw [hrun _ env rfl]
    exact .error hs (.refl s) herr
  · rw [hrun _ env rfl]
    have hinner := hflow { s with place }
      (hs.atPlace (.of_not_resumable (resumable_of_entryPlace hplace)))
      fun r hr => (hidle r hr).elim
    refine (Safely.withPlace hs hinner).bind fun text s' hs' _ => ?_
    exact safely_setBodyText body text hs'

theorem safe_entries {es : List EntryPoint} (hes : ∀ e ∈ es, e ∈ env.graph.classDecl.entryPoints) :
    Safe env (fun _ => False) (es.forM entry) := by
  induction es with
  | nil => exact .ordinary (Ordinary.pure _)
  | cons e es ih =>
    have hfirst := safe_entry hdescribes (hes e mem_cons_self)
    exact hfirst.bind fun _ => ih fun e he => hes e (mem_cons_of_mem _ he)

end Emissions

/-- A node that owns a variable enters it. -/
theorem key_of_setUp (env : Env Node) {n : Node} (howns : n.ownsVariable = true) (s : State) :
    node id ∈ ((n.setUp id : Emit Node Unit) env s).2.symbols.keys := by
  have hkey (v : VariableSymbol) (hv : v.key = .node id) :
      node id ∈ (s.symbols.registerVariable s.names v).2.1.keys := by
    rw [SymbolTable.keys_registerVariable, hv]
    split
    · assumption
    · exact mem_append_right _ mem_cons_self
  cases n with
  | forLoop | forEach | localVariable => exact hkey _ rfl
  | _ => cases howns

/-- After all nodes are set up, each that owns a variable has it. -/
theorem keys_of_setUpNodes {ids : List NodeId}
    (hrun : (ids.forM setUpNode : Emit Node Unit) env s = (.ok (), s')) :
    ∀ id ∈ ids, ∀ n, env.graph.get? id = some n → n.ownsVariable = true →
      node id ∈ s'.symbols.keys := by
  induction ids generalizing s with
  | nil => exact forall_mem_nil _
  | cons id ids ih =>
    obtain ⟨_, s₁, hfirst, hrest⟩ := bind_eq_ok_iff.1 hrun
    intro y hy n hn howns
    rcases mem_cons.1 hy with rfl | hy
    · -- the key is entered now, and what comes later keeps it
      have hkept := (Enters.forM Enters.setUpNode ids env s₁).keys
      rw [hrest] at hkept
      obtain hfail | ⟨m, hm, hsetUp⟩ := setUpNode_cases y env s
      · rw [hfirst] at hfail
        cases hfail
      · rw [hn] at hm
        cases hm
        have hkey : node y ∈ ((n.setUp y : Emit Node Unit) env s).2.symbols.keys :=
          key_of_setUp env howns s
        rw [← hsetUp, hfirst] at hkey
        exact hkept.subset hkey
    · exact ih hrest y hy n hn howns

end Emit

/-! ## Passes -/

/-- What holds after a pass, whether or not it succeeds. -/
structure Contained (gen : Generation Node) (run : Except GenError Unit × State) : Prop where
  journal : ∀ e ∈ run.2.journal, e.Fits gen.env run.2.units
  reports : ∀ d ∈ run.2.diagnostics, d.Fits gen.env
  errors : ∀ e, run.1 = .error e → e.Fits gen.env
  /-- Nothing is emitted before the nodes are set up and classified. -/
  prepared : run.2.journal = [] ∨ ∃ s₀, prepare gen.env gen.state = (.ok (), s₀) ∧
    Orderly gen.env s₀ ∧ Emit.Safely gen.env s₀ run

namespace Generation

variable {graph : Graph Node} {config : Config} {gen : Generation Node}

variable (h : start graph config = .ok gen)
include h

/-- A preparation that succeeds ends in order. -/
theorem orderly (hrun : prepare gen.env gen.state = (.ok (), s)) : Orderly gen.env s := by
  have hprepared := prepared h hrun
  have hjournal : s.journal = [] := congrArg Ledger.journal hprepared.ledger
  refine ⟨hprepared.frozen, ?_, .of_not_resumable hprepared.resumable, ?_, ?_⟩
  · obtain ⟨_, s₁, _, hrun⟩ := bind_eq_ok_iff.1 hrun
    rw [env_bind] at hrun
    obtain ⟨_, s₂, hsetUp, hseal⟩ := bind_eq_ok_iff.1 hrun
    have hkeys := keys_of_setUpNodes hsetUp
    cases hseal
    exact hkeys
  · rw [hjournal]
    exact forall_mem_nil _
  · rw [hprepared.diagnostics]
    exact forall_mem_nil _

/-- A preparation that fails has emitted nothing. -/
theorem silent_of_error
    (hrun : prepare gen.env gen.state = (.error e, s)) :
    s.journal = [] ∧ s.diagnostics = [] ∧ e.isPlain = true := by
  obtain ⟨_, _, _, hstate⟩ := start_eq h
  obtain ⟨e', s', hfail, hsame, hplain⟩ | ⟨s', hok, _⟩ :=
    prepare_cases gen.env gen.state
  · rw [hrun] at hfail
    cases hfail
    have hjournal : s.journal = [] := by
      have hledger := congrArg (Ledger.journal ∘ Prod.fst) hsame
      rwa [hstate] at hledger
    have hdiagnostics : s.diagnostics = [] := by
      have hreports := congrArg (fun x => x.2.2.2.2.2.2) hsame
      rwa [hstate] at hreports
    exact ⟨hjournal, hdiagnostics, hplain⟩
  · rw [hrun] at hok
    cases hok

theorem contained_of_error
    (hrun : prepare gen.env gen.state = (.error e, s)) : Contained gen (.error e, s) := by
  obtain ⟨hjournal, hdiagnostics, hplain⟩ := silent_of_error h hrun
  refine ⟨?_, ?_, fun e' he' => ?_, .inl hjournal⟩
  · rw [hjournal]
    exact forall_mem_nil _
  · rw [hdiagnostics]
    exact forall_mem_nil _
  · cases he'
    exact GenError.fits_of_isPlain hplain gen.env

/-- Every pass stays within what the analysis found. -/
theorem contained : Contained gen (bodies gen.env gen.state) := by
  unfold bodies
  rcases hrun : prepare gen.env gen.state with ⟨e | _, s⟩
  · rw [bind_eq_of_error hrun]
    exact contained_of_error h hrun
  · rw [bind_eq_of_ok hrun]
    have horderly := orderly h hrun
    have hsafe := safe_entries (describes h) (fun _ he => he) s horderly
      ((prepared h hrun).reading ▸ forall_mem_nil _)
    exact ⟨hsafe.orderly.journal, hsafe.orderly.reports, hsafe.errors,
      .inr ⟨s, hrun, horderly, hsafe⟩⟩

end Generation

end FlowClass
