import FlowClass.Model.Node
import Mathlib.Algebra.Order.Group.Multiset

/-!
# Ports and the statements behind them

The flow ports of a node fall into two kinds. Most start chains that stand inside the node's own
statement (`Node.branches`); at most one goes on after it (`NodeShape.next`). Together the two kinds
are all flow ports, each once (`Node.flowTargets_eq`), except that the body of a scope is a child
and no port.
-/

namespace FlowClass

open List FlowPort

/-! ## Members each once -/

section Distinct

variable {α : Type} [DecidableEq α] {xs : List α}

theorem mem_pushNew {a b : α} : b ∈ pushNew xs a ↔ b ∈ xs ∨ b = a := by
  unfold pushNew
  split
  · rename_i h
    constructor
    · exact .inl
    · rintro (hb | rfl)
      · exact hb
      · exact h
  · simp

private theorem mem_foldl_pushNew {acc : List α} {b : α} :
    b ∈ xs.foldl pushNew acc ↔ b ∈ acc ∨ b ∈ xs := by
  induction xs generalizing acc with
  | nil => simp
  | cons a xs ih =>
    rw [foldl_cons, ih, mem_pushNew, mem_cons]
    tauto

@[simp] theorem mem_distinct {b : α} : b ∈ distinct xs ↔ b ∈ xs := by
  simp [distinct, mem_foldl_pushNew]

theorem nodup_pushNew (a : α) (h : xs.Nodup) : (pushNew xs a).Nodup := by
  unfold pushNew
  split
  · exact h
  · rename_i ha
    rw [nodup_append]
    refine ⟨h, nodup_singleton a, ?_⟩
    rintro x hx y hy rfl
    rw [mem_singleton] at hy
    exact ha (hy ▸ hx)

theorem nodup_distinct (xs : List α) : (distinct xs).Nodup := by
  have h (ys acc : List α) (hacc : acc.Nodup) : (ys.foldl pushNew acc).Nodup := by
    induction ys generalizing acc with
    | nil => exact hacc
    | cons y ys ih => exact ih _ (nodup_pushNew y hacc)
  exact h xs [] nodup_nil

end Distinct

/-! ## Values -/

namespace Ports

theorem mem_valueSources {p : Ports} {id : NodeId} :
    id ∈ p.valueSources ↔ ∃ port ∈ p.values, id ∈ port.value.reads := by
  simp [valueSources, Term.nodes]

theorem reads_mem_valueSources {p : Ports} (port : ValuePort) (hport : port ∈ p.values)
    {id : NodeId} (hid : id ∈ port.value.reads) : id ∈ p.valueSources :=
  mem_valueSources.2 ⟨port, hport, hid⟩

end Ports

theorem Term.mem_readsOf {ts : List Term} {id : NodeId} :
    id ∈ Term.readsOf ts ↔ ∃ t ∈ ts, id ∈ t.reads := by
  induction ts with
  | nil => simp [Term.readsOf]
  | cons t ts ih => simp [Term.readsOf, ih]

/-- Every operand has a port. -/
theorem Node.operands_mem_valueSources {op : Operator} {operands : List Term} {cast : Option Ty}
    {id : NodeId} (hid : id ∈ Term.readsOf operands) :
    id ∈ (Node.operator op operands cast).ports.valueSources := by
  obtain ⟨t, ht, hread⟩ := Term.mem_readsOf.1 hid
  obtain ⟨i, hi⟩ := mem_iff_getElem?.1 ht
  refine Ports.reads_mem_valueSources ⟨s!"operand{i}", t⟩ ?_ hread
  exact mem_map.2 ⟨(t, i), mem_zipIdx_iff_getElem?.2 hi, rfl⟩

/-! ## Flow -/

/-- The nodes that some connected ports lead into. -/
def leads (targets : List (Option NodeId)) : Multiset NodeId :=
  ↑(targets.filterMap id)

@[simp] theorem leads_none : leads [none] = 0 := rfl

@[simp] theorem leads_some (id : NodeId) : leads [some id] = {id} := rfl

theorem leads_append (targets others : List (Option NodeId)) :
    leads (targets ++ others) = leads targets + leads others := by
  simp [leads]

theorem leads_cons (target : Option NodeId) (targets : List (Option NodeId)) :
    leads (target :: targets) = leads [target] + leads targets :=
  leads_append [target] targets

theorem mem_leads {targets : List (Option NodeId)} {id : NodeId} :
    id ∈ leads targets ↔ some id ∈ targets := by
  simp [leads]

namespace Node

/-- The first nodes of the chains that stand inside the statement of a node. -/
def branches : Node → List (Option NodeId)
  | .sequence outputs => outputs
  | .branch _ onTrue onFalse _ => [onTrue, onFalse]
  | .switch _ cases default _ => cases.map SwitchArm.target ++ [default]
  | .forLoop _ _ _ body _ => [body]
  | .forEach _ _ body _ => [body]
  | .whileLoop _ body _ => [body]
  | .stateScope body _ => [body]
  | _ => []

/-- The first node of the chain inside an output. -/
def lambdaBody : Node → Option NodeId
  | .lambda _ _ body => body
  | _ => none

private theorem numberedFlows_targets (word : String) (targets : List (Option NodeId)) :
    (numberedFlows word targets).map target = targets := by
  unfold numberedFlows
  rw [map_map]
  have h : (target ∘ fun x : Option NodeId × Nat => mk s!"{word}{x.2}" x.1) =
      Prod.fst := rfl
  exact h ▸ zipIdx_map_fst 0 targets

private theorem length_numberedFlows (word : String) (targets : List (Option NodeId)) :
    (numberedFlows word targets).length = targets.length := by
  simp [numberedFlows]

/-- The flow ports of a node that is no scope start the chains inside its statement and the chain
that goes on after it. -/
theorem flowTargets_eq (n : Node) (h : n.isScope = false) :
    (n.ports.flowTargets : Multiset NodeId) = leads n.branches + leads [NodeShape.next n] := by
  cases n with
  | sequence outputs =>
    change (((numberedFlows "then" outputs).filterMap target : List NodeId) :
      Multiset NodeId) = leads outputs + leads [none]
    rw [leads_none, add_zero, leads]
    congr 1
    conv_rhs => rw [← numberedFlows_targets "then" outputs]
    rw [filterMap_map]
    rfl
  | switch value cases default next =>
    have hnext : NodeShape.next (Node.switch value cases default next) = next := by
      change ((numberedFlows "case" (cases.map SwitchArm.target) ++
        [⟨"default", default⟩, ⟨"next", next⟩])[cases.length + 1]?).bind target = next
      rw [getElem?_append_right (by simp [length_numberedFlows])]
      simp [length_numberedFlows]
    rw [hnext]
    change (((numberedFlows "case" (cases.map SwitchArm.target) ++
      [mk "default" default, mk "next" next]).filterMap target :
      List NodeId) : Multiset NodeId) =
        leads (cases.map SwitchArm.target ++ [default]) + leads [next]
    rw [← leads_append, leads]
    congr 1
    conv_rhs => rw [← numberedFlows_targets "case" (cases.map SwitchArm.target)]
    simp only [filterMap_append, filterMap_map, append_assoc]
    cases default <;> cases next <;> rfl
  | stateScope body next => exact absurd h (by simp [isScope])
  | branch condition onTrue onFalse next =>
    cases onTrue <;> cases onFalse <;> cases next <;> rfl
  | forLoop start stop step body next
  | forEach collection element body next
  | whileLoop condition body next => cases body <;> cases next <;> rfl
  | invoke call next
  | setValue target value op next
  | localVariable name type value next
  | wait seconds next
  | stopUnit target next => cases next <;> rfl
  | _ => rfl

/-- The body of a scope is its child, and its only flow port goes on after it. -/
theorem flowTargets_scope (n : Node) (h : n.isScope = true) :
    (n.ports.flowTargets : Multiset NodeId) = leads [NodeShape.next n] ∧
      (n.ports.children : Multiset NodeId) = leads n.branches := by
  cases n with
  | stateScope body next => cases body <;> cases next <;> exact ⟨rfl, rfl⟩
  | _ => exact absurd h (by simp [isScope])

/-- The children of a node that is no scope are the body of a lambda. -/
theorem children_eq (n : Node) (h : n.isScope = false) :
    (n.ports.children : Multiset NodeId) = leads [n.lambdaBody] := by
  cases n with
  | stateScope body next => exact absurd h (by simp [isScope])
  | lambda params returnType body => cases body <;> rfl
  | _ => rfl

theorem flowTargets_of_value (n : Node) (h : n.isFlow = false) : n.ports.flowTargets = [] := by
  cases n <;> first | rfl | exact absurd h (by simp [isFlow])

end Node

end FlowClass
