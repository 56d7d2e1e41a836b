import FlowClass.Proofs.Emission.Mirror
import FlowClass.Proofs.Emission.Orderly
import FlowClass.Proofs.Program.Registration

/-!
# The node that a failure is attributed to

On its way out of an entry point an error passes through chains, one inside the other: those of
branches and lambdas, of units, and of shared nodes, asked for by nodes and by the outputs that they
read. `Emit.traced` is emission that tells them all: wherever a chain emits a node, an error that
comes out of it is attributed to the node, whatever it is attributed to already. A synchronous pass
fails where this emission fails, and keeps of all the nodes the innermost
(`failure_attributed_once`).
-/

namespace FlowClass

variable {e : EntryPoint}

namespace Emit

/-! ## Emission that tells every chain -/

/-- Attributes any error of an emission to a node. -/
def frame (id : NodeId) (x : Emit Node String) : Emit Node String := fun env s =>
  ((x env s).1.mapError (.atNode id s.place.ownerName), (x env s).2)

/-- The chains of a depth, and what they offer to nodes, with every error attributed to the node of
each chain that it passes through. -/
def traced : Nat → (Bool → Option NodeId → Emit Node String) × Services Node
  | 0 => (fun _ _ => cutOff, ⟨fun _ => cutOff, fun _ _ => cutOff, fun _ => cutOff⟩)
  | depth + 1 =>
    let (inner, services) := traced depth
    let unitChain (id : NodeId) := inner true (some id)
    let chain (inline : Bool) (target : Option NodeId) : Emit Node String := do
      return Code.lines (← chainParts (fun id => frame id (startUnit services.slot id))
        (fun id => frame id (callShared unitChain id)) (fun id => frame id (statement services id))
        ((← env).graph.size + 1) inline [] target)
    (chain, ⟨chain false, readOutput services, referToUnit unitChain⟩)

/-- The body of an entry point, emitted that way. -/
def tracedEntry (e : EntryPoint) : Emit Node Unit := do
  entryWith ((traced (← env).depth).1 false) e

/-- Nodes around the one that failed leave the error of a synchronous pass as it is. -/
theorem Mirrors.frame {owner : String} {x y : Emit Node String}
    (hx : Mirrors .synchronous owner x y) (id : NodeId) :
    Mirrors .synchronous owner (Emit.recover id x) (Emit.recover id (frame id y)) where
  runs env s howner hs := by
    have hthis : env.config.isBatched = false := hs.elim (·) (·.1)
    have hframed {e : GenError} (he : (y (env.under .synchronous) s).1 = .error e) :
        (Emit.recover id (Emit.frame id y) (env.under .synchronous) s).1 =
          .error (.atNode id owner e) := by
      have hrun : Emit.frame id y (env.under .synchronous) s =
          (.error (.atNode id owner e), (y (env.under .synchronous) s).2) := by
        rw [Emit.frame, he, howner]
        rfl
      rw [recover_of_synchronous id hrun rfl]
      rfl
    obtain ⟨hsame, howner', hs', hbare⟩ | ⟨e, he, _, node, source, rfl, hroot, hparted⟩ :=
      hx.runs env s howner hs
    · rcases hrun : x env s with ⟨e | text, s'⟩ <;> rw [hrun] at hsame howner' hs' hbare
      · rw [recover_of_synchronous id hrun hthis, howner', GenError.inNode_of_root (hbare e rfl)]
        exact .inr ⟨_, rfl, hthis, id, e, rfl, hbare e rfl, [], hframed (congrArg Prod.fst hsame.symm)⟩
      · have hrun' : Emit.frame id y (env.under .synchronous) s = (.ok text, s') := by
          rw [Emit.frame, ← hsame]
          rfl
        rw [recover_of_ok hrun, recover_of_ok hrun']
        exact .inl ⟨rfl, howner', hs', fun _ he => by cases he⟩
    · obtain ⟨around, hparted⟩ := hparted
      refine .inr ⟨_, ?_, hthis, node, source, rfl, hroot, id :: around, hframed hparted⟩
      rw [recover_of_synchronous id (Prod.ext he rfl) hthis]
      rfl
  retains := by
    have hframe : Retains (Emit.frame id y) := hx.retains
    exact (reporting.recover id hframe : reporting.holds _)

/-- At every depth emission mirrors the one that tells every chain. -/
theorem mirrors_traced (owner : String) (depth : Nat) :
    (mirroring .synchronous owner).Serves (servicesAt depth) (traced depth).2 ∧
      ∀ inline target,
        Mirrors .synchronous owner (chainAt depth inline target) ((traced depth).1 inline target) := by
  let p := mirrored .synchronous owner
  induction depth with
  | zero => exact ⟨⟨fun _ => p.cutOff, fun _ _ => p.cutOff, fun _ => p.cutOff⟩, fun _ _ => p.cutOff⟩
  | succ depth ih =>
    obtain ⟨hservices, hinner⟩ := ih
    have hchain (inline : Bool) (target : Option NodeId) :
        Mirrors .synchronous owner (chainAt (depth + 1) inline target)
          ((traced (depth + 1)).1 inline target) := by
      rw [chainAt]
      refine p.ofEnv (fun _ _ => rfl) fun _ _ => p.bind (p.chainParts (fun id => .frame ?_ id)
        (fun id => .frame ?_ id) (fun id => .frame ?_ id) _ _ _ _) fun _ => p.pure _
      · exact p.startUnit (hservices.slot id)
      · exact p.callShared (hinner true (some id))
      · exact hservices.statement id
    refine ⟨⟨hchain false, fun id port => ?_, fun id => ?_⟩, hchain⟩
    · simp only [servicesAt, outputAt]
      exact hservices.readOutput id port
    · simp only [servicesAt, slotAt]
      exact p.referToUnit (hinner true (some id))

/-! ## Between entry points -/

/-- No output is being read, and emission was never cut off. -/
structure Ready (env : Env Node) (s : State) : Prop where
  orderly : Orderly env s
  idle : s.reading = []
  uncut : .cutOff ∉ s.journal

variable {env : Env Node} {s : State}

theorem Ready.safe_entry (hs : Ready env s) (hdescribes : env.table.Describes env.graph)
    (he : e ∈ env.graph.classDecl.entryPoints) : Safely env s (Emit.entry e env s) :=
  Emit.safe_entry hdescribes he s hs.orderly (hs.idle ▸ List.forall_mem_nil _)

/-- One entry point leaves all ready for the next, though it may fail. -/
theorem Ready.entry (hs : Ready env s) (hdescribes : env.table.Describes env.graph)
    (he : e ∈ env.graph.classDecl.entryPoints) : Ready env (Emit.entry e env s).2 := by
  have hsafe := hs.safe_entry hdescribes he
  have henough := enough_depth hdescribes
  have honward := (agree_entry (.refl hdescribes) henough henough he s hs.orderly.frozen (room_le _ _)).2
  exact ⟨hsafe.orderly, hsafe.grown.reading.trans hs.idle, honward.uncut hs.uncut⟩

theorem Ready.entries (hs : Ready env s) (hdescribes : env.table.Describes env.graph)
    {es : List EntryPoint} (hes : ∀ e ∈ es, e ∈ env.graph.classDecl.entryPoints) :
    Ready env (es.foldl (fun s e => (Emit.entry e env s).2) s) := by
  induction es generalizing s with
  | nil => exact hs
  | cons e es ih =>
    rw [List.forall_mem_cons] at hes
    exact ih (hs.entry hdescribes hes.1) hes.2

end Emit

/-! ## Errors of a synchronous pass -/

/-- The name that failures in a declaration are told with. Constructors have none but that of the
class. -/
def ClassDecl.ownerName (c : ClassDecl) : Decl → String
  | .constructor _ => c.name
  | decl => decl.name

theorem ownerName_of_entryPlace {c : ClassDecl} {body : BodyId} {decl : Decl} {place : Place}
    (h : Emit.entryPlace? c e body decl = some place) : place.ownerName = c.ownerName decl := by
  unfold Emit.entryPlace? at h
  split at h <;> cases h <;> rfl

open Emit

/-- In a synchronous pass, an entry point that has a body fails with an error that is attributed to
one node and the declaration of the entry point. The emission that tells every chain tells the same
error, and around it other nodes at most: the node is that of the innermost chain. Other entry points
may have failed before. -/
theorem failure_attributed_once {graph : Graph Node} {config : Config} {gen : Generation Node}
    (hsync : config.scheduling = .synchronous) (hstart : Generation.start graph config = .ok gen)
    {s₀ s s' : State} (hprepare : prepare gen.env gen.state = (.ok (), s₀)) {before : List EntryPoint}
    (hbefore : ∀ e ∈ before, e ∈ graph.classDecl.entryPoints)
    (hs : before.foldl (fun s e => (entry e gen.env s).2) s₀ = s) {e : EntryPoint}
    (he : e ∈ graph.classDecl.entryPoints) (hbody : (entryBody? s e).isSome = true) {err : GenError}
    (hfails : entry e gen.env s = (.error err, s')) :
    ∃ decl id source, graph.classDecl.get e.owner = .ok decl ∧
      err = .atNode id (graph.classDecl.ownerName decl) source ∧ source.root = source ∧
      ∃ around : List NodeId, (tracedEntry e gen.env s).1 =
        .error (around.foldr (.atNode · (graph.classDecl.ownerName decl) ·) err) := by
  have hids := ClassDecl.nodup_declIds (Generation.validated hstart)
  have hprepared := Generation.prepared hstart hprepare
  have horderly := Generation.orderly hstart hprepare
  obtain ⟨rfl, rfl, hdescribes, _⟩ := Generation.start_eq hstart
  have hsame : gen.env.under .synchronous = gen.env := by
    rw [Env.under, Config.under, ← hsync]
  have hready : Ready gen.env s := by
    refine hs ▸ Ready.entries ⟨horderly, hprepared.reading, ?_⟩ hdescribes hbefore
    rw [show s₀.journal = [] from congrArg Ledger.journal hprepared.ledger]
    exact List.not_mem_nil
  have huncut := (hready.entry hdescribes he).uncut
  have hfits := (hready.safe_entry hdescribes he).errors err (congrArg Prod.fst hfails)
  obtain ⟨body, hbody⟩ := Option.isSome_iff_exists.1 hbody
  obtain ⟨decl, place, hdecl, hplace⟩ := exists_entryPlace hids he body
  have howner := ownerName_of_entryPlace hplace
  rw [hfails] at huncut
  rw [entry_apply, entryWith_of_place hbody hdecl hplace, bind_apply, withPlace_apply] at hfails
  have halike := ((mirrors_traced place.ownerName gen.env.depth).2 false (some e.node)).runs gen.env
    { s with place } rfl (.inl (by rw [hsame]))
  rw [hsame] at halike
  rcases hchain : chainAt gen.env.depth false (some e.node) gen.env { s with place } with ⟨err' | _, t⟩
  all_goals
    rw [hchain] at hfails halike
    cases hfails
  obtain ⟨_, _, _, hbare⟩ | ⟨_, ⟨⟩, _, id, source, rfl, hroot, around, htraced⟩ := halike
  · -- a chain fails of its own accord if it is cut off or comes back to a node, and neither happens
    obtain ⟨hcut, _⟩ | ⟨_, rfl⟩ | ⟨_, _, _, _, rfl⟩ := Lenient.chainAt _ _ _ _ _ _ _ hchain
    · exact absurd hcut huncut
    · cases hfits.1
    · exact absurd (hbare _ rfl) (GenError.root_ne_atNode _ _ _ _)
  · refine ⟨decl, id, source, hdecl, howner ▸ rfl, hroot, around, ?_⟩
    have hentry : tracedEntry e gen.env s = entryWith ((traced gen.env.depth).1 false) e gen.env s := rfl
    rw [hentry, entryWith_of_place hbody hdecl hplace, ← howner]
    refine fst_bind_of_error ?_
    rw [withPlace_apply]
    exact htraced

/-- In an arm, a call with a lambda; in the lambda, a call with the state of a unit that is not
there. -/
def asksInLambda : Graph Node where
  name := "C"
  classDecl := startsAtOne
  nodes :=
    [(⟨1⟩, .branch (.literal (.bool true)) (some ⟨2⟩) none none),
      (⟨2⟩, .invoke (ownCall "Use" [.output ⟨3⟩ 0]) none),
      (⟨3⟩, .lambda [] .void (some ⟨4⟩)),
      (⟨4⟩, .invoke (ownCall "Use" [.output ⟨5⟩ 0]) none),
      (⟨5⟩, .unitStatus none .isRunning)]

/-- The error comes out of the call in the lambda, the call in the arm, and the branch. -/
theorem asksInLambda_attributed_once : ∃ gen s s' source,
    Generation.start asksInLambda {} = .ok gen ∧ prepare gen.env gen.state = (.ok (), s) ∧
    entry ⟨⟨1⟩, .event, ⟨1⟩⟩ gen.env s = (.error (.atNode ⟨4⟩ "Start" source), s') ∧
    source.root = source ∧
    (tracedEntry ⟨⟨1⟩, .event, ⟨1⟩⟩ gen.env s).1 =
      .error (.atNode ⟨1⟩ "Start" (.atNode ⟨2⟩ "Start" (.atNode ⟨4⟩ "Start" source))) := by
  have hruns : (Generation.start asksInLambda {}).map (fun gen =>
      let s := (prepare gen.env gen.state).2
      ((prepare gen.env gen.state).1, (entryBody? s ⟨⟨1⟩, .event, ⟨1⟩⟩).isSome,
        (entry ⟨⟨1⟩, .event, ⟨1⟩⟩ gen.env s).1, (tracedEntry ⟨⟨1⟩, .event, ⟨1⟩⟩ gen.env s).1)) =
      .ok (.ok (), true, .error (.atNode ⟨4⟩ "Start" (.invalid .statusWithoutUnit)),
        .error (.atNode ⟨1⟩ "Start" (.atNode ⟨2⟩ "Start"
          (.atNode ⟨4⟩ "Start" (.invalid .statusWithoutUnit))))) := by
    decide +kernel
  rcases hstart : Generation.start asksInLambda {} with e | gen <;> rw [hstart] at hruns
  · cases hruns
  simp only [Except.map, Except.ok.injEq, Prod.mk.injEq] at hruns
  obtain ⟨hprepare, hbody, hfails, htraced⟩ := hruns
  obtain ⟨_, id, source, _, herr, hroot, _⟩ := failure_attributed_once rfl hstart
    (Prod.ext hprepare rfl) (List.forall_mem_nil _) rfl (by decide) hbody (Prod.ext hfails rfl)
  obtain ⟨_, _, rfl⟩ := GenError.atNode.inj herr
  exact ⟨gen, _, _, _, rfl, Prod.ext hprepare rfl, Prod.ext hfails rfl, hroot, htraced⟩

end FlowClass
