import FlowClass.Proofs.Emission.Orderly

/-!
# Chains go on after failures

In a batched pass nothing that a chain comes to makes the chain fail, however deep the failure lies: a
node whose statement fails, and one whose unit or method cannot be called, has a comment in the place
of its code (`Attempted`), and the chain goes on from there as it would have otherwise (`Chained`).

What is left are the errors of a chain itself. It does not come back to a node it has written, since
nodes on a cycle are units, and so it is at an end before its steps are.
-/

namespace FlowClass.Emit

variable {s : State}

/-- What stands in a chain for a node: the code for it or, if that fails, a comment, and the failure
is reported. -/
inductive Attempted (env : Env Node) (id : NodeId) (x : Emit Node String) (s : State) :
    String → State → Prop where
  | code {text : String} {s' : State} (h : x env s = (.ok text, s')) : Attempted env id x s text s'
  | failed {e : GenError} {s' : State} (h : x env s = (.error e, s')) :
    Attempted env id x s (failureText env id e) (afterFailure env id e s')

/-- The texts of a chain from a node on, each for a node of the chain. The call of a unit or of a
method ends it; any other node is followed by its continuation. -/
inductive Chained (env : Env Node) (depth : Nat) :
    Bool → Option NodeId → State → List String → State → Prop where
  | nowhere (inline : Bool) (s : State) : Chained env depth inline none s [] s
  | missing (inline : Bool) {id : NodeId} (s : State) (hn : env.graph.get? id = none) :
    Chained env depth inline (some id) s [] s
  | unit {id : NodeId} {s s' : State} {text : String} (hid : env.graph.contains id = true)
    (hstate : id ∈ env.table.stateNodes)
    (h : Attempted env id (startUnit (slotAt depth) id) s text s') :
    Chained env depth false (some id) s [text] s'
  | shared {id : NodeId} {s s' : State} {text : String} (hid : env.graph.contains id = true)
    (hstate : id ∉ env.table.stateNodes) (hshared : env.table.isShared id = true)
    (h : Attempted env id (callShared (fun id => chainAt depth true (some id)) id) s text s') :
    Chained env depth false (some id) s [text] s'
  | inPlace {inline : Bool} {id : NodeId} {n : Node} {s s' s'' : State} {text : String}
    {rest : List String} (hn : env.graph.get? id = some n)
    (hown : inline = true ∨ id ∉ env.table.stateNodes ∧ env.table.isShared id = false)
    (h : Attempted env id (statement (servicesAt depth) id) s text s')
    (hrest : Chained env depth false (NodeShape.next n) s' rest s'') :
    Chained env depth inline (some id) s (text :: rest) s''

variable {env : Env Node}

theorem exists_attempted (hbatched : env.config.isBatched = true) (id : NodeId)
    (x : Emit Node String) (s : State) :
    ∃ text s', recover id x env s = (.ok text, s') ∧ Attempted env id x s text s' := by
  rcases hrun : x env s with ⟨e | text, s'⟩
  · exact ⟨_, _, recover_of_batched id hrun hbatched, .failed hrun⟩
  · exact ⟨_, _, recover_of_ok hrun, .code hrun⟩

/-- Writing a node leaves the classification alone. -/
theorem classifier_recover {frozen : Classification} {services : Services Node}
    (h : RecordedServices env frozen services) {id : NodeId} {n : Node}
    (hn : env.graph.get? id = some n) (hs : s.classifier.frozen = some frozen) :
    (recover id (statement services id) env s).2.classifier = s.classifier := by
  -- this is known of a node with what follows it, which may well be a failure
  have hfail : Recorded env frozen (.into (leads [NodeShape.next n]))
      (fail .tooDeep : Emit Node (List String)) := .fail _ _
  have hrun := (recorded_write h hn hfail s hs).1
  rcases hfirst : recover id (statement services id) env s with ⟨e | text, s'⟩
  · rwa [bind_eq_of_error hfirst] at hrun
  · rwa [bind_eq_of_ok hfirst] at hrun

section Chains

variable (hbatched : env.config.isBatched = true) (hdescribes : env.table.Describes env.graph)
include hbatched hdescribes

/-- By the steps that are left, of which there are enough for every node of the graph. -/
theorem exists_chainParts (depth : Nat) {steps : Nat} {inline : Bool} {seen : List NodeId}
    {target : Option NodeId} (halong : Along env inline seen target) (hnodup : seen.Nodup)
    (hexist : ∀ id ∈ seen, ∃ n, env.graph.get? id = some n)
    (hsteps : seen.length + steps = env.graph.size + 1) (hs : s.classifier.frozen = some env.sealed) :
    ∃ parts s', partsAt depth steps inline seen target env s = (.ok parts, s') ∧
      Chained env depth inline target s parts s' := by
  induction steps generalizing inline seen target s with
  | zero =>
    have hlength := Connectivity.length_le_size hnodup hexist
    omega
  | succ steps ih =>
    cases target with
    | none => exact ⟨[], s, rfl, .nowhere inline s⟩
    | some id =>
      rw [partsAt, chainParts_some _ _ _ steps inline seen id hs]
      cases hn : env.graph.get? id with
      | none => exact ⟨[], s, rfl, .missing inline s hn⟩
      | some n =>
        have hexists : env.graph.contains id = true := by simp [Graph.contains, hn]
        dsimp only
        split
        · rename_i hunit
          obtain ⟨rfl, hstate⟩ := hunit
          obtain ⟨text, s', hrun, htext⟩ :=
            exists_attempted hbatched id (startUnit (slotAt depth) id) s
          exact ⟨[text], s', bind_eq_of_ok hrun, .unit hexists hstate htext⟩
        rename_i hnotUnit
        split
        · rename_i hcalled
          obtain ⟨rfl, hshared⟩ := hcalled
          obtain ⟨text, s', hrun, htext⟩ := exists_attempted hbatched id
            (callShared (fun id => chainAt depth true (some id)) id) s
          exact ⟨[text], s', bind_eq_of_ok hrun,
            .shared hexists (fun hstate => hnotUnit ⟨rfl, hstate⟩) hshared htext⟩
        rename_i hnotShared
        have hfresh : id ∉ seen := halong.fresh hdescribes hn hnotUnit
        rw [if_neg hfresh]
        have hown : inline = true ∨ id ∉ env.table.stateNodes ∧ env.table.isShared id = false := by
          cases inline with
          | true => exact .inl rfl
          | false =>
            exact .inr ⟨fun hstate => hnotUnit ⟨rfl, hstate⟩,
              Bool.eq_false_of_not_eq_true fun hshared => hnotShared ⟨rfl, hshared⟩⟩
        -- the statement gives a text even if it fails, and the chain goes on
        obtain ⟨text, s₁, hrun, htext⟩ :=
          exists_attempted hbatched id (statement (servicesAt depth) id) s
        have hlevel : RecordedLevel env env.sealed depth :=
          recordedLevel (fun _ hstate => exists_of_state hdescribes hstate) depth
        have hsame : (recover id (statement (servicesAt depth) id) env s).2.classifier =
            s.classifier := classifier_recover hlevel.services hn hs
        rw [hrun] at hsame
        obtain ⟨rest, s₂, hrest, hchained⟩ := ih (halong.next hdescribes hn) (hnodup.cons hfresh)
          (List.forall_mem_cons.2 ⟨⟨n, hn⟩, hexist⟩) (by rw [List.length_cons]; omega) (hsame ▸ hs)
        refine ⟨text :: rest, s₂, ?_, .inPlace hn hown htext hchained⟩
        rw [bind_eq_of_ok hrun]
        exact bind_eq_of_ok hrest

/-- No chain fails, at any depth. -/
theorem exists_chainAt (depth : Nat) (inline : Bool) {target : Option NodeId}
    (htarget : ∀ id, target = some id → Known env id) (hs : s.classifier.frozen = some env.sealed) :
    ∃ parts s', chainAt (depth + 1) inline target env s = (.ok (Code.lines parts), s') ∧
      Chained env depth inline target s parts s' := by
  obtain ⟨parts, s', hrun, hchained⟩ := exists_chainParts hbatched hdescribes depth
    (.start htarget) List.nodup_nil (List.forall_mem_nil _) (Nat.zero_add _) hs
  refine ⟨parts, s', ?_, hchained⟩
  rw [chainAt_succ_apply]
  exact bind_eq_of_ok hrun

end Chains

end FlowClass.Emit
