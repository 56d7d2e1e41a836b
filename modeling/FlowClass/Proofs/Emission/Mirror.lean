import FlowClass.Proofs.Emission.Reports

/-!
# The same emission under another scheduling

The scheduling of a pass matters to an emission where a node fails, and nowhere else. Hence, from a
state without diagnostics, the emissions of a synchronous and of a batched pass are the same, up to
the first failure (`Mirrors`). From there on the one has failed with an error that is attributed to
the node, and the other has the failure as its first diagnostic (`Parted`), which it keeps. Two
batched passes never part.

A second synchronous pass may attribute the error to more nodes, around the one that failed.
-/

namespace FlowClass

namespace Emit

variable {α β : Type} {env : Env Node} {other : Scheduling} {owner : String} {x y : Emit Node α}

/-- The two passes treat failures alike, or the first would fail and nothing was reported yet. -/
def Unparted (env : Env Node) (other : Scheduling) (s : State) : Prop :=
  env.config.isBatched = (env.under other).config.isBatched ∨
    env.config.isBatched = false ∧ s.diagnostics = []

/-- What is reported of a node that fails inside a declaration. -/
def blame (graph : Graph Node) (id : NodeId) (owner : String) (source : GenError) : Diagnostic where
  graph := graph.name
  node := some (source.node?.getD id)
  owner := owner
  message := Marker.strip source.message

/-- The first run has failed with an error that is attributed once. The second has reported it before
all else, or has failed as well, with the same error or one attributed to nodes around, too. -/
def Parted (env : Env Node) (other : Scheduling) (owner : String) (e : GenError)
    (run' : Except GenError α × State) : Prop :=
  env.config.isBatched = false ∧ ∃ id source, e = .atNode id owner source ∧ source.root = source ∧
    if (env.under other).config.isBatched then [blame env.graph id owner source] <+: run'.2.diagnostics
    else ∃ around : List NodeId, run'.1 = .error (around.foldr (GenError.atNode · owner ·) e)

theorem Parted.later {e : GenError} {run : Except GenError α × State}
    {run' : Except GenError β × State} (h : Parted env other owner e run)
    (hdiagnostics : run.2.diagnostics <+: run'.2.diagnostics)
    (herror : (env.under other).config.isBatched = false → ∀ id source,
      run.1 = .error (.atNode id owner source) → run'.1 = .error (.atNode id owner source)) :
    Parted env other owner e run' := by
  obtain ⟨hsync, id, source, rfl, hroot, h⟩ := h
  refine ⟨hsync, id, source, rfl, hroot, ?_⟩
  cases hother : (env.under other).config.isBatched with
  | true => exact (if_pos hother ▸ h :).trans hdiagnostics
  | false =>
    rw [hother] at h
    obtain ⟨around, h⟩ := h
    cases around with
    | nil => exact ⟨[], herror hother id source h⟩
    | cons node around => exact ⟨node :: around, herror hother node _ h⟩

/-- Two runs inside a declaration are the same, and any error is not attributed yet; or they have
parted. -/
def Alike (env : Env Node) (other : Scheduling) (owner : String)
    (run run' : Except GenError α × State) : Prop :=
  (run = run' ∧ run.2.place.ownerName = owner ∧ Unparted env other run.2 ∧
      ∀ e, run.1 = .error e → e.root = e) ∨
    ∃ e, run.1 = .error e ∧ Parted env other owner e run'

/-- The second emission, under the other scheduling, mirrors the first. -/
structure Mirrors (other : Scheduling) (owner : String) (x y : Emit Node α) : Prop where
  runs : ∀ env s, s.place.ownerName = owner → Unparted env other s →
    Alike env other owner (x env s) (y (env.under other) s)
  retains : Retains y

namespace Mirrors

theorem clerical (hx : Clerical x) : Mirrors other owner x x where
  runs env s howner hs := by
    have hsame : (x env s).2.situation = s.situation := hx.leaves env s
    simp only [State.situation, State.lasting, Prod.mk.injEq] at hsame
    refine .inl ⟨(hx.blind env other s).symm, by rwa [hsame.2.1], ?_, hx.errors env s⟩
    unfold Unparted at hs ⊢
    rwa [hsame.1.1]
  retains := reporting.clerical hx

theorem ordinary (hx : Ordinary x) : Mirrors other owner x x where
  runs env s howner hs := by
    have hframe := hx.quiet.frame env s
    refine .inl ⟨hx.blind env (env.under other) s, by rwa [hframe.place], ?_, fun e he => ?_⟩
    · unfold Unparted at hs ⊢
      rwa [hframe.diagnostics]
    · exact GenError.root_of_isPlain (hx.errors env s e he)
  retains := .quiet hx.quiet

theorem bind {f g : α → Emit Node β} (hx : Mirrors other owner x y)
    (hf : ∀ a, Mirrors other owner (f a) (g a)) : Mirrors other owner (x >>= f) (y >>= g) where
  runs env s howner hs := by
    obtain ⟨hsame, howner', hs', hbare⟩ | ⟨e, he, hparted⟩ := hx.runs env s howner hs
    · rcases hrun : x env s with ⟨e | a, s'⟩ <;> rw [hrun] at hsame howner' hs' hbare
      · rw [bind_eq_of_error hrun, bind_eq_of_error hsame.symm]
        exact .inl ⟨rfl, howner', hs', fun e' he' => by cases he'; exact hbare e rfl⟩
      · rw [bind_eq_of_ok hrun, bind_eq_of_ok hsame.symm]
        exact (hf a).runs env s' howner' hs'
    · -- the first pass is over, and the second keeps what it has come to
      refine .inr ⟨e, fst_bind_of_error he, hparted.later ?_ fun _ _ _ => fst_bind_of_error⟩
      rcases hrun : y (env.under other) s with ⟨e' | a, s'⟩
      · rw [bind_eq_of_error hrun]
      · rw [bind_eq_of_ok hrun]
        exact ((hf a).retains _ s').diagnostics
  retains := hx.retains.bind fun a => (hf a).retains

/-- A bracket neither reports nor takes back anything, and fails with the emission in it. -/
theorem around {x' y' : Emit Node α} {b : Bracket α} (hx' : x' = b.run x) (hy' : y' = b.run y)
    (henter : ∀ s, (b.enter s).place.ownerName = s.place.ownerName)
    (hleave : ∀ s s', s'.place.ownerName = s.place.ownerName →
      (b.leave s s').place.ownerName = s.place.ownerName) (hx : Mirrors other owner x y) :
    Mirrors other owner x' y' := by
  subst hx' hy'
  refine ⟨fun env s howner hs => ?_, hx.retains.around rfl⟩
  have hsame {s s' : State} (h : Around s s') : s'.diagnostics = s.diagnostics := by
    obtain ⟨_, _, _, _, rfl⟩ := h
    rfl
  have hinner : Unparted env other (b.enter s) := by
    unfold Unparted
    rwa [hsame (b.enter_eq s)]
  obtain ⟨hruns, howner', hs', hbare⟩ | ⟨e, he, hparted⟩ :=
    hx.runs env (b.enter s) ((henter s).trans howner) hinner
  · refine .inl ⟨by rw [Bracket.run, Bracket.run, hruns], ?_, ?_, fun e he =>
      hbare e (b.run_eq_error_iff.1 he)⟩
    · exact (hleave s _ (howner'.trans howner.symm)).trans howner
    · unfold Unparted at hs' ⊢
      rwa [Bracket.run, hsame (b.leave_eq s _)]
  · refine .inr ⟨e, b.run_eq_error_iff.2 he, hparted.later ?_ fun _ _ _ => b.run_eq_error_iff.2⟩
    rw [Bracket.run, hsame (b.leave_eq s _)]

theorem atPlace {change : Place → Place}
    (hchange : ∀ place, (change place).ownerName = place.ownerName) (hx : Mirrors other owner x y) :
    Mirrors other owner (Emit.atPlace change x) (Emit.atPlace change y) :=
  hx.around (atPlace_eq _ _) (atPlace_eq _ _) (fun s => hchange s.place) fun _ _ _ => rfl

/-- Where a node fails the two passes part, unless they are batched. -/
theorem recover {x y : Emit Node String} (hx : Mirrors other owner x y) (id : NodeId) :
    Mirrors other owner (Emit.recover id x) (Emit.recover id y) where
  runs env s howner hs := by
    obtain ⟨hsame, howner', hs', hbare⟩ | ⟨e, he, hparted⟩ := hx.runs env s howner hs
    · rcases hrun : x env s with ⟨e | text, s'⟩ <;> rw [hrun] at hsame howner' hs' hbare
      · dsimp only at howner'
        cases hthis : env.config.isBatched with
        | true =>
          have hother : true = (env.under other).config.isBatched := by
            simpa only [Unparted, hthis, Bool.true_eq_false, false_and, or_false] using hs'
          rw [recover_of_batched id hrun hthis, recover_of_batched id hsame.symm hother.symm]
          exact .inl ⟨rfl, howner', .inl (hthis.trans hother), fun _ he => by cases he⟩
        | false =>
          -- here the two passes part: this one ends, the other may go on
          have hnode : e.inNode id s'.place.ownerName = .atNode id owner e := by
            rw [howner', GenError.inNode_of_root (hbare e rfl)]
          rw [recover_of_synchronous id hrun hthis, hnode]
          refine .inr ⟨_, rfl, hthis, id, e, rfl, hbare e rfl, ?_⟩
          cases hother : (env.under other).config.isBatched with
          | true =>
            have hnone : s'.diagnostics = [] := by simpa [Unparted, hthis, hother] using hs'
            have hroot : e.root = e := hbare e rfl
            rw [recover_of_batched id hsame.symm hother, if_pos rfl]
            simp only [afterFailure, hnone, howner', hroot, List.nil_append]
            exact List.prefix_rfl
          | false =>
            rw [recover_of_synchronous id hsame.symm hother, hnode]
            exact ⟨[], rfl⟩
      · rw [recover_of_ok hrun, recover_of_ok hsame.symm]
        exact .inl ⟨rfl, howner', hs', fun _ he => by cases he⟩
    -- the passes have parted, and what comes after does not bring them back
    · have hattributed := hparted
      obtain ⟨hsync, node, source, rfl, _⟩ := hattributed
      refine .inr ⟨.atNode node owner source, ?_, hparted.later ?_ fun hother node' source' h' => ?_⟩
      · rw [recover_of_synchronous id (Prod.ext he rfl) hsync]
        rfl
      · obtain ⟨text, s', hrun, hend⟩ | ⟨e', s', hrun, ⟨_, text, hend⟩ | ⟨_, hend⟩⟩ :=
          recover_cases id y (env.under other) s <;> rw [hrun, hend]
        exact List.prefix_append _ _
      · rw [recover_of_synchronous id (Prod.ext h' rfl) hother]
        rfl
  retains := (reporting.recover id hx.retains : reporting.holds _)

/-- A unit is finished whether its body succeeds or fails. -/
theorem emitUnit {chain chain' : NodeId → Emit Node String} {id : NodeId} (body : BodyId)
    (h : Mirrors other owner (chain id) (chain' id)) :
    Mirrors other owner (Emit.emitUnit chain id body) (Emit.emitUnit chain' id body) where
  runs env s howner hs := by
    rw [emitUnit_apply, emitUnit_apply]
    have hplace : Mirrors other owner (Emit.atPlace (Place.toUnit body) (chain id)) _ :=
      h.atPlace fun _ => rfl
    obtain ⟨hruns, howner', hs', hbare⟩ | ⟨e, he, hparted⟩ := hplace.runs env s howner hs
    · rw [← hruns]
      rcases hrun : Emit.atPlace (Place.toUnit body) (chain id) env s with ⟨e | text, s'⟩ <;>
        rw [hrun] at howner' hs' hbare
      · exact .inl ⟨rfl, howner', hs', fun e' he' => by cases he'; exact hbare e rfl⟩
      · exact .inl ⟨rfl, howner', hs', fun _ he => by cases he⟩
    · refine .inr ⟨e, ?_, hparted.later ?_ fun _ _ _ h => ?_⟩
      · rw [← Prod.mk.eta (p := Emit.atPlace _ _ env s), he]
      · rcases Emit.atPlace (Place.toUnit body) (chain' id) (env.under other) s with ⟨_ | _, s'⟩ <;>
          exact List.prefix_rfl
      · rw [← Prod.mk.eta (p := Emit.atPlace _ _ (env.under other) s), h]
  retains := (reporting.emitUnit body h.retains : reporting.holds _)

end Mirrors

/-! ## Levels -/

/-- To mirror does not depend on what units and shared nodes enter. -/
def mirrored (other : Scheduling) (owner : String) : Situational fun _ => True where
  rel x y := Mirrors other owner x y
  clerical hx := .clerical hx
  bind hx hf := .bind hx hf
  ofEnv hsame h := by
    refine ⟨fun env s howner hs => ?_, fun env s => (h env trivial).retains env s⟩
    rw [env_bind, env_bind, hsame]
    exact (h env trivial).runs env s howner hs
  placed hchange hx := hx.atPlace hchange
  recover id hx := hx.recover id
  emitUnit body h := h.emitUnit body

/-- To mirror is pervasive. -/
def mirroring (other : Scheduling) (owner : String) : Pervasive fun _ => True :=
  (mirrored other owner).pervasive .ordinary fun hx' hy' hb hx =>
    hx.around hx' hy' (fun s => by rw [(hb s s).1]) fun s s' h => by rw [(hb s s').2, h]

/-- An entry point under two schedulings. Only its chain, inside its declaration, may part. -/
theorem entry_alike (e : EntryPoint) {s : State} (hs : Unparted env other s) :
    (entry e env s = entry e (env.under other) s ∧ Unparted env other (entry e env s).2) ∨
      ∃ owner err, (entry e env s).1 = .error err ∧
        Parted env other owner err (entry e (env.under other) s) := by
  rw [entry_apply, entry_apply]
  obtain ⟨err, _, hrun⟩ | ⟨body, _, place, _, _, _, hrun⟩ :=
    entryWith_cases env.graph.classDecl e s
  · rw [hrun _ env rfl, hrun _ (env.under other) rfl]
    exact .inl ⟨rfl, hs⟩
  rw [hrun _ env rfl, hrun _ (env.under other) rfl, bind_apply, bind_apply, withPlace_apply,
    withPlace_apply]
  rw [show (env.under other).depth = env.depth from rfl]
  have hchain := ((mirroring other place.ownerName).level env.depth).2 false (some e.node)
  rcases hthis : chainAt env.depth false (some e.node) env { s with place } with ⟨r, t⟩
  rcases hthat : chainAt env.depth false (some e.node) (env.under other) { s with place } with
    ⟨r', t'⟩
  have halike := hchain.runs env { s with place } rfl hs
  rw [hthis, hthat] at halike
  obtain ⟨hsame, _, hs', _⟩ | ⟨err, herr, hparted⟩ := halike
  · cases hsame
    cases r <;> exact .inl ⟨rfl, hs'⟩
  · cases herr
    refine .inr ⟨place.ownerName, err, rfl, hparted.later ?_ fun _ _ _ h => ?_⟩
    · cases r' <;> exact List.prefix_rfl
    · cases h
      rfl

end Emit

end FlowClass
