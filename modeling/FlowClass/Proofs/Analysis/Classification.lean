import FlowClass.Analysis.Classify

/-!
# The classifier gives true answers

`Classifier.stateful` and `Classifier.recursive` answer the two questions from the table alone. A
classifier that remembers only true answers gives true answers (`isState_of_truthful`,
`isRecursive_of_truthful`), and sealing it freezes the answers for all nodes
(`sealNodes_of_truthful`).
-/

namespace FlowClass.Classifier

open List

/-- The node flows back into itself. -/
def recursive (t : Connectivity) (id : NodeId) : Bool :=
  id ∈ t.flowReachable id

/-- The seeds, when some nodes are registered by hand. -/
def seedsOf (t : Connectivity) (registered : List NodeId) : List NodeId :=
  registered ++ t.nodes.flatMap (seedsAt t [])

/-- The node is registered, or a flow node that is or reaches a seed. -/
def stateful (t : Connectivity) (registered : List NodeId) (id : NodeId) : Bool :=
  id ∈ registered || t.isFlowNode id &&
    (id ∈ seedsOf t registered || (t.flowReachable id).any (· ∈ seedsOf t registered))

/-- All that is remembered is true. -/
def Remembers {α : Type} (truth : NodeId → α) (memo : List (NodeId × α)) : Prop :=
  ∀ entry ∈ memo, entry.2 = truth entry.1

theorem Remembers.lookup {α : Type} {truth : NodeId → α} {memo : List (NodeId × α)}
    (h : Remembers truth memo) {id : NodeId} {answer : α} (hid : memo.lookup id = some answer) :
    answer = truth id := by
  induction memo with
  | nil => cases hid
  | cons entry memo ih =>
    obtain ⟨key, value⟩ := entry
    rw [lookup_cons] at hid
    cases hkey : id == key with
    | true =>
      rw [hkey] at hid
      have hvalue := h (key, value) mem_cons_self
      rw [← eq_of_beq hkey] at hvalue
      exact (Option.some.inj hid).symm.trans hvalue
    | false =>
      rw [hkey] at hid
      exact ih (fun e he => h e (mem_cons_of_mem _ he)) hid

theorem Remembers.cons {α : Type} {truth : NodeId → α} {memo : List (NodeId × α)}
    (h : Remembers truth memo) (id : NodeId) : Remembers truth ((id, truth id) :: memo) := by
  intro entry hentry
  rcases mem_cons.1 hentry with rfl | hentry
  · rfl
  · exact h entry hentry

/-- A classifier that is open and remembers only what is true. -/
structure Truthful (t : Connectivity) (c : Classifier) : Prop where
  isOpen : c.frozen = none
  seeds : ∀ seeds, c.seeds = some seeds → seeds = seedsOf t c.registered
  stateMemo : Remembers (stateful t c.registered) c.stateMemo
  recursiveMemo : Remembers (recursive t) c.recursiveMemo

theorem truthful_empty (t : Connectivity) : ({} : Classifier).Truthful t where
  isOpen := rfl
  seeds := fun _ h => nomatch h
  stateMemo := fun _ h => nomatch h
  recursiveMemo := fun _ h => nomatch h

section Answers

variable {t : Connectivity} {c : Classifier}

theorem remembered_of_truthful {memo : List (NodeId × Bool)} (h : Remembers (recursive t) memo)
    (id : NodeId) : remembered t memo id = recursive t id := by
  unfold remembered
  cases hlookup : memo.lookup id with
  | some answer => exact h.lookup hlookup
  | none => rfl

variable (h : c.Truthful t)
include h

theorem isRecursive_of_truthful (id : NodeId) :
    (c.isRecursive t id).1 = recursive t id ∧ (c.isRecursive t id).2.Truthful t ∧
      (c.isRecursive t id).2.registered = c.registered := by
  unfold isRecursive
  split
  · rename_i frozen hfrozen
    exact absurd (h.isOpen.symm.trans hfrozen) (by simp)
  · split
    · rename_i answer hanswer
      exact ⟨h.recursiveMemo.lookup hanswer, h, rfl⟩
    · exact ⟨rfl, { h with recursiveMemo := h.recursiveMemo.cons id }, rfl⟩

/-- The seeds do not depend on what is remembered. -/
theorem withSeeds_of_truthful :
    (c.withSeeds t).1 = seedsOf t c.registered ∧ (c.withSeeds t).2.Truthful t ∧
      (c.withSeeds t).2.registered = c.registered := by
  unfold withSeeds
  split
  · rename_i seeds hseeds
    exact ⟨h.seeds seeds hseeds, h, rfl⟩
  · have hseeds : c.registered ++ t.nodes.flatMap (seedsAt t c.recursiveMemo) =
        seedsOf t c.registered := by
      unfold seedsOf
      congr 2
      funext info
      unfold seedsAt
      rw [remembered_of_truthful h.recursiveMemo]
      rfl
    refine ⟨hseeds, { h with seeds := ?_, recursiveMemo := ?_ }, rfl⟩
    · intro seeds hsome
      rw [← Option.some.inj hsome, hseeds]
    · intro entry hentry
      rcases mem_append.1 hentry with hentry | hentry
      · exact h.recursiveMemo entry hentry
      · obtain ⟨info, _, rfl⟩ := mem_map.1 hentry
        exact remembered_of_truthful h.recursiveMemo info.id

theorem isState_of_truthful (id : NodeId) :
    (c.isState t id).1 = stateful t c.registered id ∧ (c.isState t id).2.Truthful t ∧
      (c.isState t id).2.registered = c.registered := by
  unfold isState
  split
  · rename_i frozen hfrozen
    exact absurd (h.isOpen.symm.trans hfrozen) (by simp)
  · split
    · rename_i hregistered
      exact ⟨by simp [stateful, hregistered], h, rfl⟩
    · rename_i hregistered
      split
      · rename_i answer hanswer
        exact ⟨h.stateMemo.lookup hanswer, h, rfl⟩
      · split
        · rename_i hflow
          obtain ⟨hseeds, htruthful, hsame⟩ := withSeeds_of_truthful h
          have hanswer : (decide (id ∈ (c.withSeeds t).1) ||
              (t.flowReachable id).any (· ∈ (c.withSeeds t).1)) =
                stateful t c.registered id := by
            simp [stateful, hregistered, hflow, hseeds]
          refine ⟨hanswer, { htruthful with stateMemo := ?_ }, hsame⟩
          have hmemo := htruthful.stateMemo.cons id
          dsimp only
          rw [hanswer, hsame]
          rwa [hsame] at hmemo
        · rename_i hflow
          have hanswer : stateful t c.registered id = false := by
            simp [stateful, hregistered, hflow]
          refine ⟨hanswer.symm, { h with stateMemo := ?_ }, rfl⟩
          have hmemo := h.stateMemo.cons id
          rwa [hanswer] at hmemo

theorem classifyAll_of_truthful (result : Classification) (ids : List NodeId) :
    (c.classifyAll t result ids).1 =
      { stateNodes := result.stateNodes ++ ids.filter (stateful t c.registered)
        recursiveNodes := result.recursiveNodes ++ ids.filter (recursive t) } := by
  induction ids generalizing c result with
  | nil => simp [classifyAll]
  | cons id ids ih =>
    obtain ⟨hstate, htruthful, hsame⟩ := isState_of_truthful h id
    obtain ⟨hrecursive, htruthful', hsame'⟩ := isRecursive_of_truthful htruthful id
    rw [classifyAll]
    rw [ih htruthful', hstate, hrecursive, hsame', hsame]
    simp only [filter_cons]
    cases stateful t c.registered id <;> cases recursive t id <;> simp

/-- Sealing freezes the true answers for all nodes of the table. -/
theorem sealNodes_of_truthful :
    (c.sealNodes t).2.frozen =
      some { stateNodes := t.ids.filter (stateful t c.registered)
             recursiveNodes := t.ids.filter (recursive t) } := by
  unfold sealNodes
  rw [h.isOpen]
  have hall := classifyAll_of_truthful h {} t.ids
  simp only [nil_append] at hall
  dsimp only
  rw [hall]

end Answers

end FlowClass.Classifier
