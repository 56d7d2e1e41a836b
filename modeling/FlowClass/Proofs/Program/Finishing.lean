import FlowClass.Proofs.Program.Origins

/-!
# Shared nodes that are reached are finished

A shared node whose method is entered is emitted at once. Its method is left without a text only if
that emission fails, and the chain of a node fails for two reasons in a batched pass: it is cut off,
or flow comes back to it. In any other pass every failure ends the pass. So an emission that is not
disturbed in one of these ways finishes all methods that it begins (`Emit.finishing`).
-/

namespace FlowClass

open List State Option

variable {id : NodeId} {s : State}

/-- A state in which nothing was cut off, and no flow was reported to come back. -/
structure State.Regular (s : State) : Prop where
  uncut : .cutOff ∉ s.journal
  onward : ∀ d ∈ s.diagnostics, ∀ id, ¬ (GenError.invalid (.revisit id)).Tells d.message

/-- The method of a shared node has a text. -/
def State.HasText (s : State) (id : NodeId) : Prop :=
  ∃ m text, s.methodFor? id = some m ∧ s.bodyText? m.body = some text

section Moves

variable {env : Env Node} {base s s' : State}

/-- A text may be replaced, but is never taken away. -/
theorem State.HasText.moves (h : s.HasText id) (hmoves : Moves env s s') (hs : Callable env base s) :
    s'.HasText id := by
  obtain ⟨m, text, hm, htext⟩ := h
  obtain hsame | ⟨_, text', htext', _⟩ := hmoves.bodyText? hs m.body
  · exact ⟨m, text, hmoves.kept.methodFor? hm, hsame.trans htext⟩
  · exact ⟨m, text', hmoves.kept.methodFor? hm, htext'⟩

theorem State.HasText.giveText (h : s.HasText id) (place : Place) (body : BodyId) (text : String) :
    (giveText { s with place } body text).HasText id := by
  obtain ⟨m, old, hm, hold⟩ := h
  obtain hsame | ⟨_, hgiven⟩ := bodyText_giveText_or { s with place } m.body body text
  · exact ⟨m, old, hm, hsame.trans hold⟩
  · exact ⟨m, text, hm, hgiven⟩

theorem State.Regular.before (h : s'.Regular) (hkept : s.Kept s') : s.Regular :=
  ⟨fun hcut => h.uncut (hkept.journal hcut), fun d hd => h.onward d (hkept.diagnostics hd)⟩

end Moves

/-! ## Emissions that finish what they begin -/

/-- The shared nodes that were reached in between have texts. -/
def State.Completes (s s' : State) : Prop :=
  ∀ id, s.shared.lookup id = none → (s'.shared.lookup id).isSome = true → s'.HasText id

theorem State.Completes.ofShared {s' : State} (h : s'.shared = s.shared) : s.Completes s' := by
  intro id hnone hsome
  rw [h, hnone] at hsome
  cases hsome

theorem State.Completes.trans {env : Env Node} {base s' s'' : State} (h : s.Completes s')
    (h' : s'.Completes s'') (hmoves : Moves env s' s'') (hs : Callable env base s') :
    s.Completes s'' := by
  intro id hnone hsome
  cases hmiddle : s'.shared.lookup id with
  | none => exact h' id hmiddle hsome
  | some method => exact (h id hnone (isSome_iff_exists.2 ⟨method, hmiddle⟩)).moves hmoves hs

namespace Emit

variable {α β : Type} {x : Emit Node α}

/-- The run has not failed, or goes on after a failure that is no flow that comes back. -/
def Undisturbed (env : Env Node) (result : Except GenError α) : Prop :=
  ∀ e, result = .error e → env.config.isBatched = true ∧ ∀ id, e ≠ .invalid (.revisit id)

/-- An emission that is not disturbed leaves no method of a shared node without a text. -/
def Finishing (env : Env Node) (base : State) (x : Emit Node α) : Prop :=
  Moving env env.sealed x ∧ ∀ s, Callable env base s → Housed env.graph.classDecl s →
    (x env s).2.Regular → Undisturbed env (x env s).1 → s.Completes (x env s).2

namespace Finishing

variable {env : Env Node} {base : State}

theorem ofShared (hx : Moving env env.sealed x) (h : ∀ s, (x env s).2.shared = s.shared) :
    Finishing env base x :=
  ⟨hx, fun s _ _ _ _ => .ofShared (h s)⟩

theorem quiet (hx : Quiet x) : Finishing env base x :=
  .ofShared (.quiet hx) fun s => (hx.frame env s).shared

theorem note {e : Event} (h : e.isReference = false) :
    Finishing env base (Emit.note e : Emit Node Unit) :=
  .ofShared (.note h) fun _ => rfl

theorem bind {f : α → Emit Node β} (hx : Finishing env base x)
    (hf : ∀ a, Finishing env base (f a)) : Finishing env base (x >>= f) := by
  refine ⟨hx.1.bind fun a => (hf a).1, fun s hs hhoused hregular hundisturbed => ?_⟩
  have hmoves := hx.1 s hs.frozen
  have hfirst := hx.2 s hs hhoused
  rcases hrun : x env s with ⟨e | a, s'⟩
  · rw [bind_eq_of_error hrun] at hregular hundisturbed ⊢
    rw [hrun] at hfirst
    refine hfirst hregular fun e' he' => ?_
    cases he'
    exact hundisturbed e rfl
  · rw [bind_eq_of_ok hrun] at hregular hundisturbed ⊢
    rw [hrun] at hfirst hmoves
    have hs' := hs.moves hmoves
    have hmoves' := (hf a).1 s' hs'.frozen
    have hbefore := hfirst (hregular.before hmoves'.kept) fun e he => by cases he
    refine hbefore.trans ?_ hmoves' hs'
    exact (hf a).2 s' hs' ((Builds.moves hmoves).housed hhoused) hregular hundisturbed

/-- What is put around an emission has no part in this. -/
theorem around {y : Emit Node α} {b : Bracket α} (hy : y = b.run x)
    (hmoving : Moving env env.sealed y) (hx : Finishing env base x) : Finishing env base y := by
  subst hy
  refine ⟨hmoving, fun s hs hhoused hregular hundisturbed id hnone hsome => ?_⟩
  have hinner := hx.2 (b.enter s)
  have hfails (e : GenError) : (b.run x env s).1 = .error e ↔ (x env (b.enter s)).1 = .error e :=
    b.run_eq_error_iff
  obtain ⟨_, _, _, _, henter⟩ := b.enter_eq s
  obtain ⟨_, _, _, _, hleave⟩ := b.leave_eq s (x env (b.enter s)).2
  have hbuilds : Builds env.graph.classDecl s (b.enter s) := henter ▸ .same rfl rfl rfl rfl
  change (b.leave s _).Regular at hregular
  change ((b.leave s _).shared.lookup id).isSome = true at hsome
  change (b.leave s _).HasText id
  rw [hleave] at hregular hsome ⊢
  exact hinner (henter ▸ hs.around _ _ _ _ _) (hbuilds.housed hhoused)
    ⟨hregular.uncut, hregular.onward⟩ (fun e he => hundisturbed e ((hfails e).2 he)) id
    (henter ▸ hnone) hsome

/-- A failure is reported, and not of flow that comes back, or disturbs the emission. -/
theorem recover {x : Emit Node String} (id : NodeId) (hx : Finishing env base x) :
    Finishing env base (Emit.recover id x) := by
  refine ⟨hx.1.recover id, fun s hs hhoused hregular hundisturbed => ?_⟩
  have hinner := hx.2 s hs hhoused
  rcases hrun : x env s with ⟨e | text, s'⟩
  · rw [hrun] at hinner
    by_cases hbatched : env.config.isBatched = true
    · rw [recover_of_batched id hrun hbatched] at hregular ⊢
      have hmoves : Moves env s' (afterFailure env id e s') := .diagnose s' _
      refine hinner (hregular.before hmoves.kept) fun e' he' => ⟨hbatched, fun node hnode => ?_⟩
      cases he'
      refine hregular.onward _ (mem_append_right _ mem_cons_self) node ?_
      rw [hnode]
      exact .inr rfl
    · rw [recover_of_synchronous id hrun (Bool.eq_false_of_not_eq_true hbatched)] at hundisturbed
      exact absurd (hundisturbed _ rfl).1 hbatched
  · rw [hrun] at hinner
    rw [recover_of_ok hrun] at hregular ⊢
    exact hinner hregular fun e he => by cases he

theorem isState (id : NodeId) : Finishing env base (Emit.isState id) :=
  .ofShared (.isState id) fun _ => rfl

end Finishing

/-! ### Units -/

section Flow

variable {env : Env Node} {base : State} {chain : NodeId → Emit Node String} {id : NodeId}

theorem finishing_unitSlot (h : Finishing env base (chain id)) :
    Finishing env base (unitSlot chain id) := by
  refine ⟨moving_unitSlot h.1, fun s hs hhoused hregular hundisturbed => ?_⟩
  obtain ⟨_, _, hrun⟩ | ⟨_, _, ⟨_, hrun⟩ | ⟨body, units, hbegin, hrun⟩⟩ := unitSlot_cases id hs.frozen
  · rw [hrun]
    exact .ofShared rfl
  · rw [hrun]
    exact .ofShared rfl
  -- the code of the unit is emitted in the state in which the unit has begun
  have hbegun : Housed env.graph.classDecl { enterUnit id s with units } :=
    (Builds.units _ (StateUnits.outline_begin hbegin)).housed ((Builds.enterUnit s id).housed hhoused)
  have hinner := h.2 { enterUnit id s with units, place := s.place.toUnit body }
    (hs.enterUnit id units _) ((Builds.around { enterUnit id s with units } _ _ _).housed hbegun)
  rw [hrun chain env _ _ rfl] at hregular hundisturbed ⊢
  exact hinner ⟨hregular.uncut, hregular.onward⟩ fun e he => hundisturbed e (by rw [he]; rfl)

theorem finishing_referToUnit (h : Finishing env base (chain id)) :
    Finishing env base (referToUnit chain id) := by
  refine ⟨moving_referToUnit h.1, fun s hs hhoused hregular hundisturbed => ?_⟩
  have hinner := (finishing_unitSlot h).2 s hs hhoused
  rcases hrun : unitSlot chain id env s with ⟨e | slot, s'⟩
  · rw [referToUnit_of_error hrun] at hregular hundisturbed ⊢
    rw [hrun] at hinner
    refine hinner hregular fun e' he' => ?_
    cases he'
    exact hundisturbed e rfl
  · rw [referToUnit_of_ok hrun] at hregular ⊢
    rw [hrun] at hinner
    exact hinner ⟨fun hcut => hregular.uncut (mem_cons_of_mem _ hcut), hregular.onward⟩
      fun e he => by cases he

/-! ### Shared nodes -/

section Shared

variable {depth : Nat} (h : Finishing env base (chainAt depth true (some id)))
include h

/-- The chain of a shared node that is reached becomes the text of its method. -/
theorem finishing_callShared :
    Finishing env base (callShared (fun id => chainAt depth true (some id)) id) := by
  refine ⟨moving_callShared h.1, fun s hs hhoused hregular hundisturbed => ?_⟩
  obtain ⟨_, _, hrun⟩ | ⟨_, _, hrun⟩ |
    ⟨hnew, n, handle, symbols, names, hn, hmethod, ⟨_, hrun⟩ | ⟨m, hm, hrun⟩⟩ :=
    callShared_cases id (env.graph.get? id) s
  · rw [hrun _ env rfl]
    exact .ofShared rfl
  · rw [hrun]
    exact .ofShared rfl
  · rw [hrun _ env rfl]
    exact .ofShared rfl
  have hentered : Housed env.graph.classDecl (s.intoShared id s.place.returnType symbols names m) :=
    ((Builds.shared hmethod).trans (Builds.around _ _ _ _)).housed hhoused
  have hcallable := hs.intoShared hmethod hn hnew hm
  have hmoves := h.1 (s.intoShared id s.place.returnType symbols names m) hcallable.frozen
  have hinner := h.2 (s.intoShared id s.place.returnType symbols names m) hcallable hentered
  rcases hbody : chainAt depth true (some id) env
    (s.intoShared id s.place.returnType symbols names m) with ⟨r, s'⟩
  rw [hbody] at hmoves hinner
  rw [hrun _ env rfl r s' hbody] at hregular hundisturbed ⊢
  cases r with
  | error e =>
    -- the errors of a chain itself disturb the emission
    obtain ⟨hbatched, honward⟩ := hundisturbed e rfl
    obtain ⟨hcut, _⟩ | ⟨node, hnode⟩ | ⟨hsync, _⟩ := Lenient.chainAt _ _ _ _ _ _ _ hbody
    · exact absurd hcut hregular.uncut
    · exact absurd hnode (honward node)
    · rw [hsync] at hbatched
      cases hbatched
  | ok text =>
    intro node hnone hsome
    by_cases hsame : node = id
    · subst hsame
      have hmethodFor : methodFor? { s with symbols, names } node = some m :=
        bind_eq_some_iff.2 ⟨handle, lookup_registerMethod_self hmethod, hm⟩
      have hmoved := hmoves.kept.methodFor? (show methodFor? _ node = some m from hmethodFor)
      have hinside : m.body.index < s'.symbols.bodies.length := by
        obtain ⟨_, _, hfound⟩ := bind_eq_some_iff.1 hmoved
        exact ((Builds.moves hmoves).housed hentered).inside _ (mem_bodies_method hfound)
      exact ⟨m, text, hmoved, bodyText_giveText_self (s := { s' with place := s.place }) text
        hinside⟩
    · refine State.HasText.giveText (hinner ⟨hregular.uncut, hregular.onward⟩
        (fun e he => by cases he) node ?_ hsome) s.place m.body text
      exact (lookup_cons_of_ne hsame _ _).trans hnone

end Shared

end Flow

/-- Finishing what is begun is pervasive. -/
def finishing (env : Env Node) (base : State) : Pervasive (· = env) where
  rel x _ := Finishing env base x
  ordinary hx := .quiet hx.quiet
  fail _ := .quiet (Quiet.fail _)
  bind hx hf := hx.bind hf
  ofEnv _ h := ⟨fun s hs => (h env rfl).1 s hs, fun s hs => (h env rfl).2 s hs⟩
  note h := .note h
  isState id := .isState id
  nodeVariable id := .quiet (Quiet.nodeVariable id)
  around hy _ hb hx := hx.around hy (hx.1.around hy hb)
  nested type hx := hx.around (atPlace_eq _ _) (hx.1.nested type)
  recover id hx := hx.recover id
  referToUnit h := finishing_referToUnit h
  callShared h := finishing_callShared h

end Emit

end FlowClass
