import FlowClass.Proofs.Emission.Level

/-!
# What emissions take back

No emission takes a diagnostic back, whether it succeeds or fails: it adds diagnostics, each of which
carries a node. The bodies that entry points fill are made before any of it, and stay the same
(`State.Retained`).
-/

namespace FlowClass

/-- Diagnostics were added, each with a node. -/
def State.Retained (s s' : State) : Prop :=
  ∃ added : List Diagnostic, (∀ d ∈ added, d.node.isSome = true) ∧
    s'.lasting = (s.diagnostics ++ added, s.accessors, s.symbols.declBodies)

namespace State.Retained

variable {s s' s'' : State}

theorem of_same (h : s'.lasting = s.lasting) : s.Retained s' :=
  ⟨[], List.forall_mem_nil _, by rwa [List.append_nil]⟩

theorem trans (h : s.Retained s') (h' : s'.Retained s'') : s.Retained s'' := by
  obtain ⟨added, hnodes, hlasting⟩ := h
  obtain ⟨added', hnodes', hlasting'⟩ := h'
  simp only [lasting, Prod.mk.injEq] at hlasting hlasting'
  refine ⟨added ++ added', List.forall_mem_append.2 ⟨hnodes, hnodes'⟩, ?_⟩
  simp only [lasting, hlasting', hlasting, List.append_assoc]

theorem ofFrame (h : s.Frame s') : s.Retained s' :=
  of_same (by simp only [lasting, h.diagnostics, h.accessors, h.declBodies])

theorem diagnostics (h : s.Retained s') : s.diagnostics <+: s'.diagnostics := by
  obtain ⟨added, _, hlasting⟩ := h
  exact ⟨added, (congrArg Prod.fst hlasting).symm⟩

theorem accessors (h : s.Retained s') : s'.accessors = s.accessors := by
  obtain ⟨_, _, hlasting⟩ := h
  simp only [lasting, Prod.mk.injEq] at hlasting
  exact hlasting.2.1

theorem declBodies (h : s.Retained s') : s'.symbols.declBodies = s.symbols.declBodies := by
  obtain ⟨_, _, hlasting⟩ := h
  simp only [lasting, Prod.mk.injEq] at hlasting
  exact hlasting.2.2

end State.Retained

namespace Emit

variable {α β : Type} {x : Emit Node α}

/-- What was reported before an emission is still reported after it. -/
def Retains (x : Emit Node α) : Prop :=
  ∀ (env : Env Node) (s : State), s.Retained (x env s).2

/-- Retaining diagnostics, for which it does not matter what units and shared nodes enter. -/
def reporting : Situational fun _ => True :=
  Lasting.situational (R := State.Retained) {
    trans h h' := h.trans h'
    clerical h := .of_same (congrArg Prod.fst h)
    placed h := h
    diagnosed _ _ hnode := ⟨_, List.forall_mem_singleton.2 hnode, rfl⟩ }

namespace Retains

theorem quiet (hx : Quiet x) : Retains x :=
  fun env s => .ofFrame (hx.frame env s)

theorem modify {f : State → State} (h : ∀ s, (f s).lasting = s.lasting) :
    Retains (Emit.modify f : Emit Node Unit) :=
  fun _ s => .of_same (h s)

theorem bind {f : α → Emit Node β} (hx : Retains x) (hf : ∀ a, Retains (f a)) : Retains (x >>= f) :=
  (reporting.bind hx hf : reporting.holds _)

theorem around {y : Emit Node α} {b : Bracket α} (hy : y = b.run x) (hx : Retains x) :
    Retains y := by
  subst hy
  have hsame {s s' : State} (h : Around s s') : s.Retained s' := by
    obtain ⟨_, _, _, _, rfl⟩ := h
    exact .of_same rfl
  exact fun env s => ((hsame (b.enter_eq s)).trans (hx env _)).trans (hsame (b.leave_eq s _))

end Retains

/-- Retaining diagnostics is pervasive. -/
def retaining : Pervasive fun _ => True :=
  reporting.pervasive (fun hx => Retains.quiet hx.quiet) fun hx' _ _ hx => Retains.around hx' hx

/-! ## Entry points -/

theorem retains_entryWith {flow : Option NodeId → Emit Node String}
    (hflow : ∀ target, Retains (flow target)) (e : EntryPoint) : Retains (entryWith flow e) := by
  intro env s
  obtain ⟨err, _, hrun⟩ | ⟨body, _, place, _, _, _, hrun⟩ :=
    entryWith_cases env.graph.classDecl e s
  · rw [hrun flow env rfl]
    exact .of_same rfl
  · rw [hrun flow env rfl]
    refine Retains.bind ((hflow _).around (withPlace_eq place _)) (fun _ => ?_) env s
    exact .modify fun _ => rfl

theorem retains_entry (e : EntryPoint) : Retains (entry e : Emit Node Unit) :=
  fun env s => retains_entryWith (fun target => (retaining.level env.depth).1.flow target) e env s

theorem retains_entries (es : List EntryPoint) : Retains (es.forM entry : Emit Node Unit) := by
  induction es with
  | nil => exact .quiet (Quiet.pure _)
  | cons e es ih => exact .bind (retains_entry e) fun _ => ih

end Emit

end FlowClass
