import FlowClass.Proofs.Analysis.Coverage
import Mathlib.Data.Set.Insert

/-!
# What the classifier answers

The classifier may be asked anything in any order, and in between nodes are registered and the
classification is sealed. `Plain` is the same service without a memory: all it keeps is which nodes
were registered and whether it is sealed, and it looks every answer up in the links of the table
(`Connectivity.IsState`, `Connectivity.FlowReaches`).

* One request gets the same answer from both, and leaves both in states that belong together
  (`agree`), so every run does (`run_eq`).
* A sealed service answers as it did at the moment it was sealed (`Plain.answer_sealed`).
* The answers depend on flow links and on the children of scopes only (`Plain.run_flowPart`).
-/

namespace FlowClass

open List Classifier

variable {id : NodeId} {registered : Set NodeId} {t : Connectivity} {x y : NodeId}

namespace Connectivity

/-! ## State nodes, by links -/

/-- One or more flow links lead from one node to another. -/
def FlowReaches (t : Connectivity) : NodeId → NodeId → Prop :=
  Relation.TransGen t.FlowsTo

/-- A node of the table that takes part in control flow. -/
def HasFlow (t : Connectivity) (id : NodeId) : Prop :=
  ∃ info ∈ t.nodes, info.id = id ∧ info.isFlow = true

/-- Where state begins, when some nodes are registered by hand. -/
inductive Seed (t : Connectivity) (registered : Set NodeId) : NodeId → Prop where
  | registered {id : NodeId} : id ∈ registered → Seed t registered id
  | suspends {info : NodeInfo} : info ∈ t.nodes → info.isFlow = true → info.suspends = true →
    Seed t registered info.id
  | recursive {info : NodeInfo} : info ∈ t.nodes → info.isFlow = true →
    t.FlowReaches info.id info.id → Seed t registered info.id
  | inScope {owner : NodeInfo} {child id : NodeId} : owner ∈ t.nodes → owner.isFlow = true →
    owner.isScope = true → ⟨owner.id, child, .child⟩ ∈ t.links →
    id = child ∨ t.FlowReaches child id → t.HasFlow id → Seed t registered id

/-- A flow node that is a seed or flows into one. -/
def IsState (t : Connectivity) (registered : Set NodeId) (id : NodeId) : Prop :=
  t.HasFlow id ∧ ∃ seed, t.Seed registered seed ∧ (id = seed ∨ t.FlowReaches id seed)

/-- What flows into a state node is state. -/
theorem IsState.of_reaches (hx : t.HasFlow x) (hreach : t.FlowReaches x y)
    (hy : t.IsState registered y) : t.IsState registered x := by
  obtain ⟨_, seed, hseed, hto⟩ := hy
  refine ⟨hx, seed, hseed, .inr ?_⟩
  rcases hto with rfl | hto
  · exact hreach
  · exact hreach.trans hto

open Classical in
/-- The state nodes and the recursive nodes of the table. -/
noncomputable def classification (t : Connectivity) (registered : Set NodeId) : Classification where
  stateNodes := t.ids.filter fun id => t.IsState registered id
  recursiveNodes := t.ids.filter fun id => t.FlowReaches id id

/-- The answers that are frozen are those for all nodes there are. -/
theorem mem_classification :
    id ∈ (t.classification registered).stateNodes ↔ t.IsState registered id := by
  simp only [classification, mem_filter, decide_eq_true_eq, and_iff_right_iff_imp]
  rintro ⟨⟨info, hinfo, rfl, _⟩, _⟩
  exact mem_map.2 ⟨info, hinfo, rfl⟩

end Connectivity

namespace Classifier

/-! ## Requests -/

theorem eq_decide {b : Bool} {P : Prop} {inst : Decidable P} (h : b = true ↔ P) :
    b = @decide P inst :=
  Bool.eq_iff_iff.2 (h.trans decide_eq_true_iff.symm)

inductive Request where
  | register (id : NodeId)
  | isState (id : NodeId)
  /-- Whether the node is a seed or flows into one: the same question as `isState`. -/
  | hasStateOutput (id : NodeId)
  | hasStateInput (id : NodeId)
  | isRecursive (id : NodeId)
  | sealNodes

inductive Answer where
  | registered
  | refused (e : AnalysisError)
  | verdict (b : Bool)
  | classified (c : Classification)

/-- One request. A registration that is refused leaves the classifier as it is. -/
def answer (t : Connectivity) (c : Classifier) : Request → Answer × Classifier
  | .register id =>
    match c.register t id with
    | .ok c => (.registered, c)
    | .error e => (.refused e, c)
  | .isState id => (.verdict (c.isState t id).1, (c.isState t id).2)
  | .hasStateOutput id => (.verdict (c.isState t id).1, (c.isState t id).2)
  | .hasStateInput id => (.verdict (c.hasStateInput t id).1, (c.hasStateInput t id).2)
  | .isRecursive id => (.verdict (c.isRecursive t id).1, (c.isRecursive t id).2)
  | .sealNodes => (.classified (c.sealNodes t).1, (c.sealNodes t).2)

/-- The classifier after some requests. -/
def after (t : Connectivity) (c : Classifier) (requests : List Request) : Classifier :=
  requests.foldl (fun c r => (c.answer t r).2) c

/-- The answers to some requests. -/
def run (t : Connectivity) (c : Classifier) : List Request → List Answer
  | [] => []
  | r :: requests => (c.answer t r).1 :: run t (c.answer t r).2 requests

/-- A classifier without a memory. -/
structure Plain where
  registered : Set NodeId := ∅
  isSealed : Bool := false

namespace Plain

open Classical in
/-- One request, answered from the links of the table. -/
noncomputable def answer (t : Connectivity) (p : Plain) : Request → Answer × Plain
  | .register id =>
    if p.isSealed then (.refused (.classificationSealed id), p)
    else if id ∉ t.ids then (.refused (.unknownNode id), p)
    else if ¬ t.HasFlow id then (.refused (.notAFlowNode id), p)
    else (.registered, { p with registered := insert id p.registered })
  | .isState id => (.verdict (decide (t.IsState p.registered id)), p)
  | .hasStateOutput id => (.verdict (decide (t.IsState p.registered id)), p)
  | .hasStateInput id =>
    (.verdict (decide (∃ x, t.FlowsTo x id ∧ t.IsState p.registered x)), p)
  | .isRecursive id => (.verdict (decide (t.FlowReaches id id)), p)
  | .sealNodes => (.classified (t.classification p.registered), { p with isSealed := true })

noncomputable def after (t : Connectivity) (p : Plain) (requests : List Request) : Plain :=
  requests.foldl (fun p r => (p.answer t r).2) p

noncomputable def run (t : Connectivity) (p : Plain) : List Request → List Answer
  | [] => []
  | r :: requests => (p.answer t r).1 :: run t (p.answer t r).2 requests

end Plain

end Classifier

/-! ## Tables whose links stay inside -/

namespace Connectivity

/-- No node comes twice, and links lead from nodes of the table to nodes of the table. -/
structure WellLinked (t : Connectivity) : Prop where
  nodup : t.ids.Nodup
  closed : ∀ l ∈ t.links, l.source ∈ t.ids ∧ l.target ∈ t.ids

theorem Describes.wellLinked {ν : Type} [NodeShape ν] {g : Graph ν} (h : t.Describes g) :
    t.WellLinked where
  nodup := h.nodup
  closed := by
    intro l hl
    obtain ⟨id, hid, hl⟩ := h.mem_links.1 hl
    obtain ⟨n, hn, c, hc, hexists, rfl⟩ := Graph.mem_linksOf.1 hl
    have hother := h.closed id n hid hn c hc hexists
    cases c with
    | value source => exact ⟨hother, hid⟩
    | _ => exact ⟨hid, hother⟩

namespace WellLinked

variable {t : Connectivity} (h : t.WellLinked)
include h

theorem get?_of_mem {info : NodeInfo} (hinfo : info ∈ t.nodes) : t.get? info.id = some info := by
  obtain ⟨info', hinfo'⟩ := Option.isSome_iff_exists.1
    (contains_iff.2 (mem_map.2 ⟨info, hinfo, rfl⟩ : info.id ∈ t.ids))
  have hid : info'.id = info.id := by simpa using List.find?_some hinfo'
  have heq : info' = info :=
    inj_on_of_nodup_map h.nodup (mem_of_find?_eq_some hinfo') hinfo hid
  rw [hinfo', heq]

theorem isFlowNode_iff : t.isFlowNode id = true ↔ t.HasFlow id := by
  constructor
  · intro hflow
    obtain ⟨info, hinfo, hisFlow⟩ := (Option.any_eq_true _ _).1 hflow
    exact ⟨info, mem_of_find?_eq_some hinfo, by simpa using List.find?_some hinfo, hisFlow⟩
  · rintro ⟨info, hinfo, rfl, hisFlow⟩
    simp [isFlowNode, h.get?_of_mem hinfo, hisFlow]

theorem flowsTo_mem (hxy : t.FlowsTo x y) : x ∈ t.ids ∧ y ∈ t.ids := by
  obtain ⟨port, hl⟩ := hxy
  exact h.closed _ hl

theorem reaches_mem (hxy : t.FlowReaches x y) : x ∈ t.ids := by
  obtain ⟨z, hstep, _⟩ := Relation.TransGen.head'_iff.1 hxy
  exact (h.flowsTo_mem hstep).1

theorem mem_flowReachable : y ∈ t.flowReachable x ↔ t.FlowReaches x y := by
  have hleads : Reach.Leads t.flowNext = t.FlowReaches := by
    unfold Reach.Leads FlowReaches
    congr 1
    funext a b
    exact propext mem_flowNext_iff
  rw [← hleads]
  exact Reach.mem_after fun a b hab => (h.flowsTo_mem (mem_flowNext_iff.1 hab)).2

theorem recursive_iff : recursive t id = true ↔ t.FlowReaches id id := by
  rw [recursive, decide_eq_true_eq, h.mem_flowReachable]

theorem mem_scopeMembers {owner : NodeId} : y ∈ t.scopeMembers owner ↔ t.HasFlow y ∧
      ∃ child, ⟨owner, child, .child⟩ ∈ t.links ∧ (y = child ∨ t.FlowReaches child y) := by
  unfold scopeMembers
  rw [mem_distinct, mem_filter, mem_flatMap, h.isFlowNode_iff, and_comm]
  simp only [mem_children_iff, mem_cons, h.mem_flowReachable]

/-- The seeds that the classifier computes. -/
theorem mem_seedsOf {registered : List NodeId} :
    id ∈ seedsOf t registered ↔ t.Seed {x | x ∈ registered} id := by
  have hremembered (x : NodeId) : remembered t [] x = true ↔ t.FlowReaches x x :=
    h.recursive_iff
  unfold seedsOf
  rw [mem_append, mem_flatMap]
  constructor
  · rintro (hid | ⟨info, hinfo, hid⟩)
    · exact .registered hid
    · unfold seedsAt at hid
      split at hid
      · rename_i hflow
        rcases mem_append.1 hid with hid | hid
        · split at hid
          · rename_i hseed
            rw [mem_singleton.1 hid]
            rcases Bool.or_eq_true_iff.1 hseed with hsuspends | hrecursive
            · exact .suspends hinfo hflow hsuspends
            · exact .recursive hinfo hflow ((hremembered _).1 hrecursive)
          · exact absurd hid not_mem_nil
        · split at hid
          · rename_i hscope
            obtain ⟨hhas, child, hchild, hto⟩ := h.mem_scopeMembers.1 hid
            exact .inScope hinfo hflow hscope hchild hto hhas
          · exact absurd hid not_mem_nil
      · exact absurd hid not_mem_nil
  · intro hid
    cases hid with
    | registered hid => exact .inl hid
    | suspends hinfo hflow hsuspends =>
      exact .inr ⟨_, hinfo, by simp [seedsAt, hflow, hsuspends]⟩
    | recursive hinfo hflow hrecursive =>
      exact .inr ⟨_, hinfo, by simp [seedsAt, hflow, (hremembered _).2 hrecursive]⟩
    | inScope howner hflow hscope hchild hto hhas =>
      refine .inr ⟨_, howner, ?_⟩
      simp only [seedsAt, hflow, hscope]
      exact mem_append_right _ (h.mem_scopeMembers.2 ⟨hhas, _, hchild, hto⟩)

theorem stateful_iff {registered : List NodeId} (hflow : ∀ id ∈ registered, t.HasFlow id) :
    stateful t registered id = true ↔ t.IsState {x | x ∈ registered} id := by
  unfold stateful IsState
  simp only [Bool.or_eq_true, Bool.and_eq_true, decide_eq_true_eq, any_eq_true,
    h.isFlowNode_iff, h.mem_seedsOf, h.mem_flowReachable]
  constructor
  · rintro (hid | ⟨hhas, hseed | ⟨seed, hto, hseed⟩⟩)
    · exact ⟨hflow id hid, id, .registered hid, .inl rfl⟩
    · exact ⟨hhas, id, hseed, .inl rfl⟩
    · exact ⟨hhas, seed, hseed, .inr hto⟩
  · rintro ⟨hhas, seed, hseed, rfl | hto⟩
    · exact .inr ⟨hhas, .inl hseed⟩
    · exact .inr ⟨hhas, .inr ⟨seed, hto, hseed⟩⟩

theorem mem_classification_recursive :
    id ∈ (t.classification registered).recursiveNodes ↔ t.FlowReaches id id := by
  simp only [classification, mem_filter, decide_eq_true_eq, and_iff_right_iff_imp]
  exact h.reaches_mem

end WellLinked

end Connectivity

/-! ## One request -/

namespace Classifier

open Connectivity

variable {t : Connectivity} {c : Classifier}

theorem anyState_of_truthful (h : c.Truthful t) (ids : List NodeId) :
    (c.anyState t ids).1 = ids.any (stateful t c.registered) ∧ (c.anyState t ids).2.Truthful t ∧
      (c.anyState t ids).2.registered = c.registered := by
  induction ids generalizing c with
  | nil => exact ⟨rfl, h, rfl⟩
  | cons id ids ih =>
    obtain ⟨hanswer, htruthful, hsame⟩ := isState_of_truthful h id
    rcases hrun : c.isState t id with ⟨b, c'⟩
    rw [hrun] at hanswer htruthful hsame
    rw [anyState, hrun]
    cases b with
    | true => exact ⟨by rw [any_cons, ← hanswer]; rfl, htruthful, hsame⟩
    | false =>
      obtain ⟨hrest, htruthful', hsame'⟩ := ih htruthful
      refine ⟨?_, htruthful', hsame'.trans hsame⟩
      rw [any_cons, ← hanswer, Bool.false_or]
      exact hrest.trans (by rw [hsame])

theorem anyState_of_frozen {frozen : Classification} (h : c.frozen = some frozen)
    (ids : List NodeId) :
    c.anyState t ids = (ids.any fun id => id ∈ frozen.stateNodes, c) := by
  have hone (id : NodeId) : c.isState t id = (decide (id ∈ frozen.stateNodes), c) := by
    unfold isState
    rw [h]
  induction ids with
  | nil => rfl
  | cons id ids ih =>
    rw [anyState, hone]
    cases hid : decide (id ∈ frozen.stateNodes) with
    | true => simp [hid]
    | false => simp [hid, ih]

/-- A registration goes through for a flow node of the table, until the classifier is sealed. -/
theorem register_eq (h : t.WellLinked) (hopen : c.frozen = none) (id : NodeId) :
    (id ∉ t.ids ∧ c.register t id = .error (.unknownNode id)) ∨
    (id ∈ t.ids ∧ ¬ t.HasFlow id ∧ c.register t id = .error (.notAFlowNode id)) ∨
    (id ∈ t.ids ∧ t.HasFlow id ∧ id ∈ c.registered ∧ c.register t id = .ok c) ∨
    (id ∈ t.ids ∧ t.HasFlow id ∧ id ∉ c.registered ∧ c.register t id =
      .ok { c with registered := id :: c.registered, seeds := none, stateMemo := [] }) := by
  have hunsealed : c.isSealed = false := by simp [isSealed, hopen]
  unfold register
  rw [hunsealed]
  simp only [Connectivity.node]
  cases hget : t.get? id with
  | none =>
    refine .inl ⟨fun hid => ?_, rfl⟩
    rw [← Connectivity.contains_iff, Connectivity.contains, hget] at hid
    cases hid
  | some info =>
    have hid : id ∈ t.ids := Connectivity.contains_iff.1 (by rw [Connectivity.contains, hget]; rfl)
    have hflow : t.HasFlow id ↔ info.isFlow = true := by
      rw [← h.isFlowNode_iff, isFlowNode, hget]
      rfl
    refine .inr ?_
    dsimp only
    cases hisFlow : info.isFlow with
    | false =>
      refine .inl ⟨hid, ?_, rfl⟩
      rw [hflow, hisFlow]
      exact Bool.false_ne_true
    | true =>
      have hhas := hflow.2 hisFlow
      by_cases hmem : id ∈ c.registered
      · exact .inr (.inl ⟨hid, hhas, hmem, by simp [hmem]⟩)
      · exact .inr (.inr ⟨hid, hhas, hmem, by simp [hmem]⟩)

/-- Answers for nodes that were not registered are kept where they stay true. -/
theorem truthful_register (h : c.Truthful t) (id : NodeId) : Truthful t
    { c with registered := id :: c.registered, seeds := none, stateMemo := [] } where
  isOpen := h.isOpen
  seeds := fun _ hsome => nomatch hsome
  stateMemo := fun _ hentry => nomatch hentry
  recursiveMemo := h.recursiveMemo

/-- The classifier and the plain one give the same answers from now on. -/
inductive Refines (t : Connectivity) : Classifier → Plain → Prop where
  | unsealed {c : Classifier} {registered : Set NodeId} (htruthful : c.Truthful t)
    (hsame : {x | x ∈ c.registered} = registered) (hflow : ∀ id ∈ c.registered, t.HasFlow id) :
    Refines t c ⟨registered, false⟩
  | frozen {c : Classifier} {registered : Set NodeId}
    (hfrozen : c.frozen = some (t.classification registered)) : Refines t c ⟨registered, true⟩

/-- Both give one answer, and the same answers after that. -/
def Agree (t : Connectivity) (c : Classifier) (p : Plain) (r : Request) : Prop :=
  (c.answer t r).1 = (p.answer t r).1 ∧ Refines t (c.answer t r).2 (p.answer t r).2

theorem refines_empty (t : Connectivity) : Refines t {} {} :=
  .unsealed (truthful_empty t) (by simp) (by simp)

/-- The sealed classification is the one that the table gives. -/
theorem sealNodes_eq (h : t.WellLinked) (htruthful : c.Truthful t)
    (hflow : ∀ id ∈ c.registered, t.HasFlow id) :
    (c.sealNodes t).1 = t.classification {x | x ∈ c.registered} ∧
      (c.sealNodes t).2.frozen = some (t.classification {x | x ∈ c.registered}) := by
  have hall : (c.classifyAll t {} t.ids).1 = t.classification {x | x ∈ c.registered} := by
    rw [classifyAll_of_truthful htruthful]
    congr 1
    · apply filter_congr
      intro id _
      exact eq_decide (h.stateful_iff hflow)
    · apply filter_congr
      intro id _
      exact eq_decide h.recursive_iff
  unfold sealNodes
  rw [htruthful.isOpen]
  dsimp only
  rw [hall]
  exact ⟨rfl, rfl⟩

theorem any_flowPrev_iff {p : NodeId → Bool} :
    (t.flowPrev id).any p = true ↔ ∃ x, t.FlowsTo x id ∧ p x = true := by
  simp only [any_eq_true, mem_flowPrev_iff]

theorem not_flowsTo_of_not_contains (h : t.WellLinked) (hid : t.contains id = false) (x : NodeId) :
    ¬ t.FlowsTo x id := by
  intro hflow
  rw [Connectivity.contains_iff.2 (h.flowsTo_mem hflow).2] at hid
  cases hid

section Request

variable {p : Plain}

variable (h : t.WellLinked)
include h

variable (hc : Refines t c p)
include hc

theorem agree_register (id : NodeId) : Agree t c p (.register id) := by
  unfold Agree
  cases hc with
  | frozen hfrozen =>
    have hrefused : c.register t id = .error (.classificationSealed id) := by
      simp [register, isSealed, hfrozen]
    simp only [answer, Plain.answer, hrefused, if_true, true_and]
    exact .frozen hfrozen
  | unsealed htruthful hsame hflow =>
    subst hsame
    obtain ⟨hid, hrun⟩ | ⟨hid, hhas, hrun⟩ | ⟨hid, hhas, hmem, hrun⟩ | ⟨hid, hhas, hmem, hrun⟩ :=
      register_eq h htruthful.isOpen id <;>
      simp only [answer, Plain.answer, *, not_true_eq_false, not_false_eq_true, if_true,
        Bool.false_eq_true, if_false, true_and]
    · exact .unsealed htruthful rfl hflow
    · exact .unsealed htruthful rfl hflow
    · have hmem' : id ∈ {x | x ∈ c.registered} := hmem
      exact .unsealed htruthful (Set.insert_eq_of_mem hmem').symm hflow
    · refine .unsealed (truthful_register htruthful id) ?_ (forall_mem_cons.2 ⟨hhas, hflow⟩)
      ext x
      simp

theorem agree_isState (id : NodeId) : Agree t c p (.isState id) := by
  simp only [Agree, answer]
  cases hc with
  | @frozen registered hfrozen =>
    have hrun : c.isState t id =
        (decide (id ∈ (t.classification registered).stateNodes), c) := by
      unfold isState
      rw [hfrozen]
    rw [hrun]
    exact ⟨congrArg _ (eq_decide (decide_eq_true_iff.trans mem_classification)), .frozen hfrozen⟩
  | unsealed htruthful hsame hflow =>
    subst hsame
    obtain ⟨hanswer, htruthful', hregistered⟩ := isState_of_truthful htruthful id
    refine ⟨?_, .unsealed htruthful' (by rw [hregistered]) (by rwa [hregistered])⟩
    rw [hanswer]
    exact congrArg _ (eq_decide (h.stateful_iff hflow))

theorem agree_isRecursive (id : NodeId) : Agree t c p (.isRecursive id) := by
  simp only [Agree, answer]
  cases hc with
  | @frozen registered hfrozen =>
    have hrun : c.isRecursive t id =
        (decide (id ∈ (t.classification registered).recursiveNodes), c) := by
      unfold isRecursive
      rw [hfrozen]
    rw [hrun]
    exact ⟨congrArg _ (eq_decide (decide_eq_true_iff.trans h.mem_classification_recursive)),
      .frozen hfrozen⟩
  | unsealed htruthful hsame hflow =>
    subst hsame
    obtain ⟨hanswer, htruthful', hregistered⟩ := isRecursive_of_truthful htruthful id
    refine ⟨?_, .unsealed htruthful' (by rw [hregistered]) (by rwa [hregistered])⟩
    rw [hanswer]
    exact congrArg _ (eq_decide h.recursive_iff)

theorem agree_hasStateInput (id : NodeId) : Agree t c p (.hasStateInput id) := by
  simp only [Agree, answer, Plain.answer, hasStateInput]
  cases hid : t.contains id with
  | false =>
    have hnone := not_flowsTo_of_not_contains h hid
    exact ⟨by simp [hnone], hc⟩
  | true =>
    simp only [if_true]
    cases hc with
    | frozen hfrozen =>
      rw [anyState_of_frozen hfrozen]
      refine ⟨congrArg _ (eq_decide ?_), .frozen hfrozen⟩
      simp only [any_flowPrev_iff, decide_eq_true_eq, mem_classification]
    | unsealed htruthful hsame hflow =>
      subst hsame
      obtain ⟨hanswer, htruthful', hregistered⟩ := anyState_of_truthful htruthful (t.flowPrev id)
      refine ⟨?_, .unsealed htruthful' (by rw [hregistered]) (by rwa [hregistered])⟩
      rw [hanswer]
      refine congrArg _ (eq_decide ?_)
      simp only [any_flowPrev_iff, h.stateful_iff hflow]

theorem agree_seal : Agree t c p .sealNodes := by
  simp only [Agree, answer]
  cases hc with
  | @frozen registered hfrozen =>
    have hrun : c.sealNodes t = (t.classification registered, c) := by
      unfold sealNodes
      rw [hfrozen]
    rw [hrun]
    exact ⟨rfl, .frozen hfrozen⟩
  | unsealed htruthful hsame hflow =>
    subst hsame
    obtain ⟨hanswer, hfrozen⟩ := sealNodes_eq h htruthful hflow
    exact ⟨congrArg _ hanswer, .frozen hfrozen⟩

/-- One request gets the same answer from both. -/
theorem agree (r : Request) : Agree t c p r := by
  cases r with
  | register id => exact agree_register h hc id
  | isState id | hasStateOutput id => exact agree_isState h hc id
  | hasStateInput id => exact agree_hasStateInput h hc id
  | isRecursive id => exact agree_isRecursive h hc id
  | sealNodes => exact agree_seal h hc

/-! ## Runs -/

theorem refines_after (requests : List Request) :
    Refines t (c.after t requests) (p.after t requests) := by
  induction requests generalizing c p with
  | nil => exact hc
  | cons r requests ih => exact ih (agree h hc r).2

/-- Every run gets the same answers from both. -/
theorem run_eq (requests : List Request) : c.run t requests = p.run t requests := by
  induction requests generalizing c p with
  | nil => rfl
  | cons r requests ih =>
    obtain ⟨hanswer, hrest⟩ := agree h hc r
    rw [run, Plain.run, hanswer, ih hrest]

end Request

namespace Plain

variable {p : Plain}

/-- What a service that is sealed answers: no node can be registered any more, and everything else is
as it was before. -/
def sealedAnswer (before : Request → Answer) : Request → Answer
  | .register id => .refused (.classificationSealed id)
  | r => before r

theorem answer_sealed (registered : Set NodeId) (r : Request) :
    answer t ⟨registered, true⟩ r =
      (sealedAnswer (fun r => (answer t ⟨registered, false⟩ r).1) r, ⟨registered, true⟩) := by
  cases r <;> simp [answer, sealedAnswer]

theorem after_sealed (registered : Set NodeId) (requests : List Request) :
    after t ⟨registered, true⟩ requests = ⟨registered, true⟩ := by
  induction requests with
  | nil => rfl
  | cons r requests ih => rw [after, foldl_cons, answer_sealed]; exact ih

theorem after_append (before later : List Request) :
    after t p (before ++ later) = after t (after t p before) later :=
  foldl_append

/-- After the first sealing, and whatever is asked then, the answers are those of that moment. -/
theorem answer_after_seal (before later : List Request) (r : Request) :
    (answer t (after t p (before ++ .sealNodes :: later)) r).1 =
      sealedAnswer (fun r => (answer t (after t p before) r).1) r := by
  rw [after_append, after]
  generalize after t p before = q
  obtain ⟨registered, isSealed⟩ := q
  show (answer t (after t ⟨registered, true⟩ later) r).1 = _
  rw [after_sealed, answer_sealed]
  cases isSealed with
  | false => rfl
  | true =>
    cases r <;> rfl

/-- A registration that is refused changes nothing. -/
theorem answer_refused {e : AnalysisError} (h : (answer t p (.register id)).1 = .refused e) :
    (answer t p (.register id)).2 = p := by
  unfold answer at h ⊢
  dsimp only at h ⊢
  split
  · rfl
  · rename_i hopen
    split
    · rfl
    · rename_i hid
      split
      · rfl
      · rename_i hflow
        rw [if_neg hopen, if_neg hid, if_neg hflow] at h
        cases h

end Plain

end Classifier

/-! ## Only flow links count -/

namespace Connectivity

variable {t : Connectivity}

/-- The table with its flow links and the child links of scopes, and without all other links. -/
def flowPart (t : Connectivity) : Connectivity where
  nodes := t.nodes
  links := t.links.filter fun l => l.isFlow || l.isChild &&
    (t.get? l.source).any fun info => info.isFlow && info.isScope
  entries := t.entries
  record := .of _ _
  recorded := fun _ => rfl

theorem WellLinked.flowPart (h : t.WellLinked) : t.flowPart.WellLinked where
  nodup := h.nodup
  closed := fun l hl => h.closed l (mem_of_mem_filter hl)

theorem flowsTo_flowPart : t.flowPart.FlowsTo = t.FlowsTo := by
  funext x y
  apply propext
  constructor
  · rintro ⟨port, hl⟩
    exact ⟨port, mem_of_mem_filter hl⟩
  · rintro ⟨port, hl⟩
    exact ⟨port, mem_filter.2 ⟨hl, by simp [Link.isFlow]⟩⟩

theorem reaches_flowPart : t.flowPart.FlowReaches = t.FlowReaches := by
  unfold FlowReaches
  rw [flowsTo_flowPart]

/-- The children of a scope are kept. -/
theorem WellLinked.child_flowPart (h : t.WellLinked) {owner : NodeInfo} {child : NodeId}
    (howner : owner ∈ t.nodes) (hflow : owner.isFlow = true) (hscope : owner.isScope = true) :
    ⟨owner.id, child, .child⟩ ∈ t.flowPart.links ↔ ⟨owner.id, child, .child⟩ ∈ t.links := by
  constructor
  · intro hl
    exact mem_of_mem_filter hl
  · intro hl
    refine mem_filter.2 ⟨hl, ?_⟩
    simp [Link.isChild, h.get?_of_mem howner, hflow, hscope]

theorem WellLinked.seed_flowPart (h : t.WellLinked) :
    t.flowPart.Seed registered id ↔ t.Seed registered id := by
  constructor <;> intro hseed <;> cases hseed with
  | registered hid => exact .registered hid
  | suspends hinfo hflow hsuspends => exact .suspends hinfo hflow hsuspends
  | recursive hinfo hflow hrecursive =>
    exact .recursive hinfo hflow (by simpa only [reaches_flowPart] using hrecursive)
  | inScope howner hflow hscope hchild hto hhas =>
    exact .inScope howner hflow hscope
      (by simpa only [h.child_flowPart howner hflow hscope] using hchild)
      (by simpa only [reaches_flowPart] using hto) hhas

theorem WellLinked.isState_flowPart (h : t.WellLinked) : t.flowPart.IsState = t.IsState := by
  unfold IsState
  simp only [h.seed_flowPart, reaches_flowPart]
  rfl

theorem WellLinked.classification_flowPart (h : t.WellLinked) :
    t.flowPart.classification = t.classification := by
  unfold classification
  rw [h.isState_flowPart, reaches_flowPart]
  rfl

end Connectivity

namespace Classifier

open Connectivity

variable {t : Connectivity}

theorem Plain.answer_flowPart (h : t.WellLinked) : Plain.answer t.flowPart = Plain.answer t := by
  unfold Plain.answer
  rw [h.isState_flowPart, flowsTo_flowPart, reaches_flowPart, h.classification_flowPart]
  rfl

theorem Plain.run_flowPart (h : t.WellLinked) (p : Plain) (requests : List Request) :
    Plain.run t.flowPart p requests = Plain.run t p requests := by
  induction requests generalizing p with
  | nil => rfl
  | cons r requests ih => rw [Plain.run, Plain.run, Plain.answer_flowPart h, ih]

/-- Whatever is asked in whatever order, the classifier of a table that was built gives the answers of
the plain one. Once sealed it answers as at the moment of sealing, a registration that is refused
changes no answer, the state nodes are closed under going back along flow links, and no other link
plays a part but those from scopes to their children. -/
theorem answers_without_memory {ν : Type} [NodeShape ν] {g : Graph ν} {strict : Bool}
    {t : Connectivity} (h : Connectivity.build g strict = .ok t) :
    (∀ requests, run t {} requests = Plain.run t {} requests) ∧
    (∀ before later r, (answer t (after t {} (before ++ .sealNodes :: later)) r).1 =
      Plain.sealedAnswer (fun r => (answer t (after t {} before) r).1) r) ∧
    (∀ before id e, (answer t (after t {} before) (.register id)).1 = .refused e → ∀ later,
      run t (after t {} (before ++ [.register id])) later = run t (after t {} before) later) ∧
    (∀ before sealing, (answer t (after t {} before) .sealNodes).1 = .classified sealing →
      ∀ x y, t.HasFlow x → t.FlowReaches x y → y ∈ sealing.stateNodes → x ∈ sealing.stateNodes) ∧
    (∀ requests, run t.flowPart {} requests = run t {} requests) := by
  have hlinked := (describes_build h).wellLinked
  have hafter (requests : List Request) :=
    refines_after hlinked (refines_empty t) requests
  have hanswer (requests : List Request) (r : Request) :=
    (agree hlinked (hafter requests) r).1
  refine ⟨run_eq hlinked (refines_empty t), fun before later r => ?_,
    fun before id e hrefused later => ?_, fun before sealing hsealing x y hx hreach hy => ?_,
    fun requests => ?_⟩
  · rw [hanswer, Plain.answer_after_seal]
    congr 1
    funext r
    rw [hanswer]
  · rw [hanswer] at hrefused
    rw [run_eq hlinked (hafter _), run_eq hlinked (hafter _), Plain.after_append]
    show Plain.run t (Plain.answer t (Plain.after t {} before) (.register id)).2 later = _
    rw [Plain.answer_refused hrefused]
  · rw [hanswer] at hsealing
    have hclass : sealing = t.classification (Plain.after t {} before).registered :=
      (Answer.classified.inj hsealing).symm
    rw [hclass, mem_classification] at hy ⊢
    exact hy.of_reaches hx hreach
  · rw [run_eq hlinked.flowPart (refines_empty _), run_eq hlinked (refines_empty t),
      Plain.run_flowPart hlinked]

/-- Three nodes in a row, none of them a seed by itself. -/
def row : Graph Node where
  name := "C"
  classDecl := { name := "C", events := [{ id := ⟨1⟩, name := "Start", entry := some ⟨1⟩ }] }
  nodes := [
    (⟨1⟩, .sequence [some ⟨2⟩]),
    (⟨2⟩, .sequence [some ⟨3⟩]),
    (⟨3⟩, .sequence [])]

/-- A registration takes back an answer that was given, until the classifier is sealed. -/
theorem row_answers : ∃ t, Connectivity.build row false = .ok t ∧
    run t {} [.isState ⟨1⟩, .register ⟨2⟩, .isState ⟨1⟩, .isState ⟨3⟩, .hasStateInput ⟨3⟩,
      .sealNodes, .register ⟨3⟩, .isState ⟨3⟩] =
      [.verdict false, .registered, .verdict true, .verdict false, .verdict true,
        .classified ⟨[⟨1⟩, ⟨2⟩], []⟩, .refused (.classificationSealed ⟨3⟩), .verdict false] ∧
    ∀ requests, run t {} requests = Plain.run t {} requests :=
  ⟨_, rfl, rfl, (answers_without_memory (rfl : Connectivity.build row false = .ok _)).1⟩

end Classifier

end FlowClass
