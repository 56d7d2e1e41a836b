import FlowClass.Analysis.Closures
import FlowClass.Proofs.Analysis.Answers

/-!
# Closures of the flow links

What a table answers about flow is what its flow links say: one or more of them lead from a node to
those that it reaches, the nodes that reach it are found by the same links taken backwards, and a node
reaches itself if it is on a cycle. The walks that find this out stop on their own, however the links
go round (`Reach.explore_add`).

Answers are kept, and are then given again without another walk. As long as what is kept is right
(`Closures.Right`) this cannot be told from walking every time (`Closures.run_eq`).
-/

namespace FlowClass

open List

/-- A walk that has come to its end takes no more steps. -/
theorem Reach.explore_add {α : Type} [DecidableEq α] {succ : α → List α} {unmet stack : List α}
    {fuel : Nat} (hfuel : steps succ unmet stack ≤ fuel) (more : Nat) :
    explore succ (fuel + more) unmet stack = explore succ fuel unmet stack := by
  induction fuel generalizing unmet stack with
  | zero => exact absurd hfuel (by simp [steps])
  | succ fuel ih =>
    rw [Nat.add_right_comm]
    cases stack with
    | nil => rfl
    | cons x stack =>
      rw [explore, explore]
      split
      · rename_i hx
        have hsteps := steps_meet succ stack hx
        rw [ih (by omega)]
      · exact ih (by simp only [steps, length_cons] at hfuel ⊢; omega)

namespace Connectivity

variable {t : Connectivity} {x y z : NodeId}

/-! ## Cycles -/

/-- Flow links one behind the other, with the nodes that they start from. -/
inductive Trail (t : Connectivity) : NodeId → List NodeId → NodeId → Prop where
  | link {x y : NodeId} : t.FlowsTo x y → Trail t x [x] y
  | follow {x y z : NodeId} {nodes : List NodeId} :
    t.FlowsTo x y → Trail t y nodes z → Trail t x (x :: nodes) z

/-- The node is one of those on a trail that comes back to where it starts. -/
def OnCycle (t : Connectivity) (x : NodeId) : Prop :=
  ∃ start nodes, t.Trail start nodes start ∧ x ∈ nodes

theorem exists_trail (h : t.FlowReaches x y) : ∃ nodes, t.Trail x nodes y ∧ x ∈ nodes := by
  induction h using Relation.TransGen.head_induction_on with
  | single hlink => exact ⟨_, .link hlink, mem_cons_self⟩
  | head hlink _ ih =>
    obtain ⟨nodes, htrail, _⟩ := ih
    exact ⟨_, .follow hlink htrail, mem_cons_self⟩

theorem Trail.reaches {nodes : List NodeId} (h : t.Trail x nodes y) : t.FlowReaches x y := by
  induction h with
  | link hlink => exact .single hlink
  | follow hlink _ ih => exact .head hlink ih

/-- A trail can be cut at each of its nodes. -/
theorem Trail.through {nodes : List NodeId} (h : t.Trail x nodes z) (hy : y ∈ nodes) :
    (y = x ∨ t.FlowReaches x y) ∧ t.FlowReaches y z := by
  induction h with
  | link hlink =>
    cases mem_singleton.1 hy
    exact ⟨.inl rfl, .single hlink⟩
  | follow hlink htrail ih =>
    rcases mem_cons.1 hy with rfl | hy
    · exact ⟨.inl rfl, .head hlink htrail.reaches⟩
    · obtain ⟨hbefore, hbehind⟩ := ih hy
      refine ⟨.inr ?_, hbehind⟩
      rcases hbefore with rfl | hbefore
      · exact .single hlink
      · exact .head hlink hbefore

theorem reaches_self_iff : t.FlowReaches x x ↔ t.OnCycle x := by
  constructor
  · intro h
    obtain ⟨nodes, htrail, hx⟩ := exists_trail h
    exact ⟨x, nodes, htrail, hx⟩
  · rintro ⟨start, nodes, htrail, hx⟩
    obtain ⟨hbefore, hbehind⟩ := htrail.through hx
    rcases hbefore with rfl | hbefore
    · exact hbehind
    · exact hbehind.trans hbefore

/-! ## Both directions -/

namespace WellLinked

variable (h : t.WellLinked)
include h

/-- Links taken backwards lead to where they come from. -/
theorem mem_flowReaching : x ∈ t.flowReaching y ↔ t.FlowReaches x y := by
  have hleads : Reach.Leads t.flowPrev = Relation.TransGen (Function.swap t.FlowsTo) := by
    unfold Reach.Leads
    congr 1
    funext a b
    exact propext mem_flowPrev_iff
  have hclosed : ∀ a, ∀ b ∈ t.flowPrev a, b ∈ t.ids := fun a b hb =>
    (h.flowsTo_mem (mem_flowPrev_iff.1 hb)).1
  rw [flowReaching, Reach.mem_after hclosed, hleads]
  exact Relation.transGen_swap

/-- Nothing is reached from outside the table, or reaches there. -/
theorem closures_outside (hx : t.contains x = false) :
    t.flowReachable x = [] ∧ t.flowReaching x = [] := by
  have hout : x ∉ t.ids := fun hmem => by rw [contains_iff.2 hmem] at hx; cases hx
  constructor <;> refine eq_nil_iff_forall_not_mem.2 fun y hy => hout ?_
  · exact h.reaches_mem (h.mem_flowReachable.1 hy)
  · obtain ⟨_, _, hstep⟩ := Relation.TransGen.tail'_iff.1 (h.mem_flowReaching.1 hy)
    exact (h.flowsTo_mem hstep).2

end WellLinked

end Connectivity

/-! ## Kept answers -/

namespace Closures

open Classifier (Remembers)

/-- What is kept is what a walk would find. -/
structure Right (t : Connectivity) (c : Closures) : Prop where
  reachable : Remembers t.flowReachable c.reachable
  reaching : Remembers t.flowReaching c.reaching

theorem remember_eq {find : NodeId → List NodeId} {kept : List (NodeId × List NodeId)}
    (h : Remembers find kept) (id : NodeId) :
    (remember find id kept).1 = find id ∧ Remembers find (remember find id kept).2 := by
  unfold remember
  split
  · rename_i answer hanswer
    exact ⟨h.lookup hanswer, h⟩
  · exact ⟨rfl, h.cons id⟩

section Right

variable {t : Connectivity} {c : Closures} (hlinked : t.WellLinked)
include hlinked

theorem flowReachable_eq (h : c.Right t) (id : NodeId) :
    (c.flowReachable t id).1 = t.flowReachable id ∧ (c.flowReachable t id).2.Right t := by
  unfold flowReachable
  split
  · obtain ⟨hanswer, hkept⟩ := remember_eq h.reachable id
    exact ⟨hanswer, hkept, h.reaching⟩
  · rename_i hout
    exact ⟨(hlinked.closures_outside (Bool.eq_false_of_not_eq_true hout)).1.symm, h⟩

theorem flowReaching_eq (h : c.Right t) (id : NodeId) :
    (c.flowReaching t id).1 = t.flowReaching id ∧ (c.flowReaching t id).2.Right t := by
  unfold flowReaching
  split
  · obtain ⟨hanswer, hkept⟩ := remember_eq h.reaching id
    exact ⟨hanswer, h.reachable, hkept⟩
  · rename_i hout
    exact ⟨(hlinked.closures_outside (Bool.eq_false_of_not_eq_true hout)).2.symm, h⟩

theorem withReachable_eq (h : c.Right t) (ids : List NodeId) :
    (c.withReachable t ids).1 = ids.flatMap (fun id => id :: t.flowReachable id) ∧
      (c.withReachable t ids).2.Right t := by
  induction ids generalizing c with
  | nil => exact ⟨rfl, h⟩
  | cons id ids ih =>
    obtain ⟨hanswer, hright⟩ := flowReachable_eq hlinked h id
    obtain ⟨hmore, hright'⟩ := ih hright
    refine ⟨?_, hright'⟩
    rw [flatMap_cons, ← hanswer, ← hmore]
    rfl

theorem scopeMembers_eq (h : c.Right t) (owner : NodeId) :
    (c.scopeMembers t owner).1 = t.scopeMembers owner ∧ (c.scopeMembers t owner).2.Right t := by
  obtain ⟨hreached, hright⟩ := withReachable_eq hlinked h (t.children owner)
  refine ⟨?_, hright⟩
  rw [Connectivity.scopeMembers, ← hreached]
  rfl

end Right

/-- What a table can be asked about flow. -/
inductive Query where
  | reachable (id : NodeId)
  | reaching (id : NodeId)
  | members (owner : NodeId)

/-- The answer that the table gives without looking at what is kept. -/
def Query.plain (t : Connectivity) : Query → List NodeId
  | .reachable id => t.flowReachable id
  | .reaching id => t.flowReaching id
  | .members owner => t.scopeMembers owner

def answer (t : Connectivity) (c : Closures) : Query → List NodeId × Closures
  | .reachable id => c.flowReachable t id
  | .reaching id => c.flowReaching t id
  | .members owner => c.scopeMembers t owner

/-- The answers to some queries, one after the other. -/
def run (t : Connectivity) (c : Closures) : List Query → List (List NodeId)
  | [] => []
  | q :: queries => (c.answer t q).1 :: run t (c.answer t q).2 queries

theorem answer_eq {t : Connectivity} {c : Closures} (hlinked : t.WellLinked) (h : c.Right t)
    (q : Query) : (c.answer t q).1 = q.plain t ∧ (c.answer t q).2.Right t := by
  cases q with
  | reachable id => exact flowReachable_eq hlinked h id
  | reaching id => exact flowReaching_eq hlinked h id
  | members owner => exact scopeMembers_eq hlinked h owner

theorem run_eq {t : Connectivity} {c : Closures} (hlinked : t.WellLinked) (h : c.Right t)
    (queries : List Query) : run t c queries = queries.map (Query.plain t) := by
  induction queries generalizing c with
  | nil => rfl
  | cons q queries ih =>
    obtain ⟨hanswer, hright⟩ := answer_eq hlinked h q
    rw [run, hanswer, ih hright, map_cons]

theorem right_empty (t : Connectivity) : Right t {} where
  reachable _ h := absurd h not_mem_nil
  reaching _ h := absurd h not_mem_nil

end Closures

namespace Connectivity

/-- In a table that was built, a node reaches just what one or more flow links lead to; reaching is the
converse of being reached, a node reaches itself just if it is on a cycle, and the members of a scope
are the flow nodes among its children and what these reach. The walks end on their own, and whatever
was asked before, the answers are the same. -/
theorem flow_closures_exact {ν : Type} [NodeShape ν] {g : Graph ν} {strict : Bool}
    {t : Connectivity} (h : build g strict = .ok t) :
    (∀ a b, b ∈ t.flowReachable a ↔ Relation.TransGen t.FlowsTo a b) ∧
    (∀ a b, b ∈ t.flowReachable a ↔ a ∈ t.flowReaching b) ∧
    (∀ a, a ∈ t.flowReachable a ↔ t.OnCycle a) ∧
    (∀ owner x, x ∈ t.scopeMembers owner ↔ t.HasFlow x ∧
      ∃ child, ⟨owner, child, .child⟩ ∈ t.links ∧ (x = child ∨ x ∈ t.flowReachable child)) ∧
    (∀ next ∈ [t.flowNext, t.flowPrev], ∀ a more,
      Reach.explore next (Reach.steps next t.ids (next a) + more) t.ids (next a) =
        Reach.after next t.ids a) ∧
    ∀ queries, Closures.run t {} queries = queries.map (Closures.Query.plain t) := by
  have hlinked := (describes_build h).wellLinked
  refine ⟨fun a b => hlinked.mem_flowReachable, fun a b => ?_, fun a => ?_, fun owner x => ?_,
    fun next _ a more => Reach.explore_add (Nat.le_refl _) more,
    Closures.run_eq hlinked (Closures.right_empty t)⟩
  · rw [hlinked.mem_flowReachable, hlinked.mem_flowReaching]
  · rw [hlinked.mem_flowReachable, reaches_self_iff]
  · simp only [hlinked.mem_scopeMembers, hlinked.mem_flowReachable]

/-- Two nodes go round each other, and a scope beside them has the one as its child. -/
def goesRound : Graph Node where
  name := "C"
  classDecl := { name := "C", events := [{ id := ⟨1⟩, name := "Start", entry := some ⟨1⟩ }] }
  nodes := [
    (⟨1⟩, .stateScope (some ⟨2⟩) none),
    (⟨2⟩, .sequence [some ⟨3⟩, some ⟨4⟩]),
    (⟨3⟩, .sequence [some ⟨2⟩]),
    (⟨4⟩, .sequence [])]

theorem goesRound_closures : ∃ t, build goesRound false = .ok t ∧ t.OnCycle ⟨3⟩ ∧ ¬ t.OnCycle ⟨4⟩ ∧
    ⟨4⟩ ∈ t.scopeMembers ⟨1⟩ ∧ Closures.run t {} [.members ⟨1⟩, .reachable ⟨4⟩, .members ⟨1⟩] =
      [[⟨2⟩, ⟨3⟩, ⟨4⟩], [], [⟨2⟩, ⟨3⟩, ⟨4⟩]] := by
  refine ⟨_, rfl, ?_⟩
  obtain ⟨_, _, hcycle, _, _, hrun⟩ :=
    flow_closures_exact (rfl : build goesRound false = .ok _)
  refine ⟨(hcycle _).1 (by decide), fun h => absurd ((hcycle _).2 h) (by decide), by decide, ?_⟩
  rw [hrun]
  decide

end Connectivity

end FlowClass
