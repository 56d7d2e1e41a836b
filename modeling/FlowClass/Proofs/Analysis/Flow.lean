import FlowClass.Proofs.Analysis.Classification
import FlowClass.Proofs.Analysis.Table
import FlowClass.Proofs.Model.Ports
import Mathlib.Algebra.GroupWithZero.Nat

/-!
# Flow through a graph and its table

The links of a table that describes a graph are the connected ports of its nodes:

* flow links lead where flow ports lead (`mem_flowNext`), and a node has as many incoming links as
  there are ports that lead to it (`flowInEdges_eq`);
* reachability along flow links is the transitive closure (`mem_flowReachable`).

From this follows what the classification says of the library's nodes: state nodes are closed under
going back along flow links, all flow nodes on a cycle and all flow nodes inside a scope are state.
So outside the state nodes every statement leads downwards (`rank_lt`).
-/

namespace FlowClass

open List Connection Link Classifier

variable {p y id : NodeId} {g : Graph Node} {t : Connectivity} {n : Node}

section Shape

variable {ν : Type} [NodeShape ν] {g : Graph ν}

/-! ## Links -/

/-- The target of a flow connection. -/
def Connection.flowTarget? : Connection → Option NodeId
  | .flow _ target => some target
  | _ => none

/-- The target of a child connection. -/
def Connection.childTarget? : Connection → Option NodeId
  | .child target => some target
  | _ => none

/-- The connections of a node hold each of its flow ports once. -/
theorem Ports.flowTargets_eq (p : Ports) :
    p.connections.filterMap flowTarget? = p.flowTargets := by
  unfold Ports.connections Ports.flowTargets
  rw [filterMap_append, filterMap_append, filterMap_append, filterMap_filterMap,
    filterMap_map, filterMap_map, filterMap_map]
  have hflows : (fun x : FlowPort × Nat =>
      (x.1.target.map (flow x.2)).bind flowTarget?) =
        FlowPort.target ∘ Prod.fst := by
    funext x
    simp only [Function.comp]
    cases x.1.target <;> rfl
  rw [hflows, ← filterMap_map, zipIdx_map_fst]
  simp [Function.comp_def, flowTarget?]

/-- The connections of a node hold each of its children once. -/
theorem Ports.children_eq (p : Ports) :
    p.connections.filterMap childTarget? = p.children := by
  unfold Ports.connections
  rw [filterMap_append, filterMap_append, filterMap_append, filterMap_filterMap,
    filterMap_map, filterMap_map, filterMap_map]
  have hflows : (fun x : FlowPort × Nat =>
      (x.1.target.map (flow x.2)).bind childTarget?) = fun _ => none := by
    funext x
    cases x.1.target <;> rfl
  rw [hflows]
  simp [Function.comp_def, childTarget?]

/-- The links of a kind go out from the owner of a connection, to where `target?` says. -/
def Connection.Outward (kind : Link → Bool) (target? : Connection → Option NodeId) : Prop :=
  ∀ id c, (kind (c.toLink id) = false ∧ target? c = none) ∨
    (kind (c.toLink id) = true ∧ target? c = some c.other ∧ (c.toLink id).source = id ∧
      (c.toLink id).target = c.other)

theorem Connection.outward_flow : Outward isFlow flowTarget? := by
  rintro id (_ | _ | _ | _) <;> simp [toLink, other, isFlow, flowTarget?]

theorem Connection.outward_child : Outward isChild childTarget? := by
  rintro id (_ | _ | _ | _) <;> simp [toLink, other, isChild, childTarget?]

namespace Graph

/-- The ports of a node; a node that does not exist has none. -/
def portsAt (g : Graph ν) (id : NodeId) : Ports :=
  match g.get? id with
  | none => {}
  | some n => NodeShape.ports n

theorem portsAt_of_some {n : ν} (h : g.get? id = some n) :
    g.portsAt id = NodeShape.ports n := by
  simp [portsAt, h]

/-- A node has a link for each connection to a node that exists. -/
theorem linksOf_eq (g : Graph ν) (id : NodeId) :
    g.linksOf id =
      ((g.portsAt id).connections.map (toLink id)).filter (g.contains ∘ Link.far) := by
  unfold linksOf portsAt
  cases g.get? id with
  | none => rfl
  | some n =>
    show g.linksAlong id _ = _
    rw [linksAlong, filter_map]
    simp [Function.comp_def]

/-- The connected flow ports of a node. -/
def flowTargets (g : Graph ν) (id : NodeId) : List NodeId :=
  (g.portsAt id).flowTargets

/-- The children of a node. -/
def children (g : Graph ν) (id : NodeId) : List NodeId :=
  (g.portsAt id).children

theorem flowTargets_of_some {n : ν} (h : g.get? id = some n) :
    g.flowTargets id = (NodeShape.ports n).flowTargets := by
  rw [flowTargets, portsAt_of_some h]

theorem children_of_some {n : ν} (h : g.get? id = some n) :
    g.children id = (NodeShape.ports n).children := by
  rw [children, portsAt_of_some h]

/-- Links of a kind are counted by the connections of that kind. -/
theorem countP_linksOf {kind : Link → Bool} {target? : Connection → Option NodeId}
    (hkind : Outward kind target?) (g : Graph ν) (id : NodeId) (hy : g.contains y = true) :
    (g.linksOf id).countP (fun l => kind l && l.target = y) =
      ((g.portsAt id).connections.filterMap target?).count y := by
  rw [linksOf_eq, countP_filter, countP_map, count_filterMap]
  apply countP_congr
  intro c _
  obtain ⟨hother, hnone⟩ | ⟨hsame, hsome, _, htarget⟩ := hkind id c
  · simp [hother, hnone]
  · by_cases hc : c.other = y
    · simp [hsame, hsome, htarget, hc, hy]
    · simp [hsome, htarget, hc]

end Graph

namespace Connectivity

variable {g : Graph ν} {t : Connectivity}

/-- How many child links lead into a node. -/
def childInEdges (t : Connectivity) (id : NodeId) : Nat :=
  (t.links.filter fun l => l.isChild && l.target = id).length

variable (h : t.Describes g)
include h

theorem Describes.exists_node (hid : id ∈ t.ids) : ∃ n, g.get? id = some n :=
  exists_of_knows h.knows hid

theorem Describes.mem_of_entryPoint {e : EntryPoint}
    (he : e ∈ g.classDecl.entryPoints) (hexists : g.contains e.node = true) : e.node ∈ t.ids := by
  refine h.roots e ?_
  rw [h.entries]
  exact mem_filter.2 ⟨he, hexists⟩

theorem Describes.countP_links (p : Link → Bool) :
    t.links.countP p = (t.ids.map fun id => (g.linksOf id).countP p).sum := by
  obtain ⟨order, hperm, hlinks⟩ := h.links
  rw [hlinks, countP_flatMap, ← (hperm.map fun id => (g.linksOf id).countP p).sum_nat]
  rfl

/-- A node has an incoming link for each port that leads to it. -/
theorem Describes.flowInEdges_eq (hy : g.contains y = true) :
    t.flowInEdges y = (t.ids.map fun p => (g.flowTargets p).count y).sum := by
  rw [t.flowInEdges_eq, h.countP_links]
  simp only [Graph.countP_linksOf outward_flow g _ hy, Ports.flowTargets_eq]
  rfl

theorem Describes.childInEdges_eq (hy : g.contains y = true) :
    t.childInEdges y = (t.ids.map fun p => (g.children p).count y).sum := by
  unfold childInEdges
  rw [← countP_eq_length_filter, h.countP_links]
  simp only [Graph.countP_linksOf outward_child g _ hy, Ports.children_eq]
  rfl

theorem Describes.mem_links {l : Link} : l ∈ t.links ↔ ∃ id ∈ t.ids, l ∈ g.linksOf id := by
  obtain ⟨order, hperm, hlinks⟩ := h.links
  rw [hlinks, mem_flatMap]
  constructor
  · rintro ⟨id, hid, hl⟩
    exact ⟨id, hperm.mem_iff.1 hid, hl⟩
  · rintro ⟨id, hid, hl⟩
    exact ⟨id, hperm.mem_iff.2 hid, hl⟩

end Connectivity

/-- Flow connections lead where flow ports lead. -/
theorem Ports.mem_flowTargets {p : Ports} :
    y ∈ p.flowTargets ↔ ∃ index, flow index y ∈ p.connections := by
  rw [← Ports.flowTargets_eq, mem_filterMap]
  constructor
  · rintro ⟨c, hc, hy⟩
    cases c with
    | flow index target => exact ⟨index, Option.some.inj hy ▸ hc⟩
    | value source => cases hy
    | child target => cases hy
    | reference target => cases hy
  · rintro ⟨index, hc⟩
    exact ⟨_, hc, rfl⟩

theorem Ports.mem_children {p : Ports} : y ∈ p.children ↔ child y ∈ p.connections := by
  simp [Ports.connections]

theorem Graph.mem_linksOf {l : Link} :
    l ∈ g.linksOf id ↔ ∃ n, g.get? id = some n ∧ ∃ c ∈ (NodeShape.ports n).connections,
      g.contains c.other = true ∧ c.toLink id = l := by
  unfold Graph.linksOf
  cases g.get? id with
  | none => simp
  | some n => simp [Graph.linksAlong, and_assoc]

namespace Connectivity

variable {g : Graph ν} {t : Connectivity}

variable (h : t.Describes g)
include h

section Outward

variable {kind : Link → Bool} {target? : Connection → Option NodeId} (hkind : Outward kind target?)
include hkind

/-- Links of a kind lead where the connections of that kind lead. -/
theorem Describes.mem_targetsOf : y ∈ Neighbours.targetsOf t.links kind p ↔
    p ∈ t.ids ∧ y ∈ (g.portsAt p).connections.filterMap target? ∧ g.contains y = true := by
  simp only [Neighbours.targetsOf, mem_distinct, mem_map, mem_filter, h.mem_links, g.linksOf_eq,
    mem_filterMap, Bool.and_eq_true, decide_eq_true_eq]
  constructor
  · rintro ⟨_, ⟨⟨id, hid, ⟨c, hc, rfl⟩, hexists⟩, hsame, rfl⟩, rfl⟩
    obtain ⟨hother, _⟩ | ⟨_, hsome, hsource, htarget⟩ := hkind id c
    · exact absurd (hother.symm.trans hsame) (by decide)
    · rw [hsource, htarget]
      exact ⟨hid, ⟨c, hc, hsome⟩, by simpa using hexists⟩
  · rintro ⟨hp, ⟨c, hc, hy⟩, hexists⟩
    obtain ⟨_, hnone⟩ | ⟨hsame, hsome, hsource, htarget⟩ := hkind p c
    · exact absurd (hnone.symm.trans hy) (by simp)
    · cases hsome.symm.trans hy
      exact ⟨_, ⟨⟨p, hp, ⟨c, hc, rfl⟩, by simpa using hexists⟩, hsame, hsource⟩, htarget⟩

/-- Connected nodes that exist are in the table. -/
theorem Describes.targetsOf_mem (hy : y ∈ Neighbours.targetsOf t.links kind p) : y ∈ t.ids := by
  obtain ⟨hp, hy, hexists⟩ := (h.mem_targetsOf hkind).1 hy
  obtain ⟨c, hc, hy⟩ := mem_filterMap.1 hy
  obtain ⟨n, hn⟩ := h.exists_node hp
  rw [Graph.portsAt_of_some hn] at hc
  obtain ⟨_, hnone⟩ | ⟨_, hsome, _⟩ := hkind p c
  · exact absurd (hnone.symm.trans hy) (by simp)
  · cases hsome.symm.trans hy
    exact h.closed p n hp hn c hc hexists

end Outward

theorem Describes.mem_flowNext :
    y ∈ t.flowNext p ↔ p ∈ t.ids ∧ y ∈ g.flowTargets p ∧ g.contains y = true := by
  rw [t.flowNext_eq, Graph.flowTargets, ← Ports.flowTargets_eq]
  exact h.mem_targetsOf outward_flow

theorem Describes.mem_children :
    y ∈ t.children p ↔ p ∈ t.ids ∧ y ∈ g.children p ∧ g.contains y = true := by
  rw [t.children_eq, Graph.children, ← Ports.children_eq]
  exact h.mem_targetsOf outward_child

theorem Describes.flowNext_mem (hy : y ∈ t.flowNext p) : y ∈ t.ids :=
  h.targetsOf_mem outward_flow (t.flowNext_eq p ▸ hy)

theorem Describes.children_mem (hy : y ∈ t.children p) : y ∈ t.ids :=
  h.targetsOf_mem outward_child (t.children_eq p ▸ hy)

/-- Reachability is the transitive closure of the flow links. -/
theorem Describes.mem_flowReachable {x : NodeId} :
    y ∈ t.flowReachable x ↔ Reach.Leads t.flowNext x y :=
  Reach.mem_after fun _ _ hstep => h.flowNext_mem hstep

theorem Describes.get?_of_mem {n : ν} (hid : id ∈ t.ids)
    (hn : g.get? id = some n) : t.get? id = some (NodeInfo.ofNode id n) := by
  obtain ⟨info, hinfo⟩ := Option.isSome_iff_exists.1 (contains_iff.2 hid)
  have hknown := h.knows info (mem_of_find?_eq_some hinfo)
  have hinfoid : info.id = id := by simpa using find?_some hinfo
  obtain ⟨n', hn', hofNode⟩ := hknown
  rw [hinfoid, hn] at hn'
  cases hn'
  rw [hinfo, hofNode, hinfoid]

theorem Describes.isFlowNode_iff :
    t.isFlowNode id = true ↔ id ∈ t.ids ∧ ∃ n, g.get? id = some n ∧ NodeShape.isFlow n = true := by
  constructor
  · intro hflow
    obtain ⟨info, hinfo, hisFlow⟩ := (Option.any_eq_true _ _).1 hflow
    have hid : id ∈ t.ids := contains_iff.1 (by simp [contains, hinfo])
    obtain ⟨n, hn⟩ := h.exists_node hid
    rw [h.get?_of_mem hid hn] at hinfo
    cases hinfo
    exact ⟨hid, n, hn, hisFlow⟩
  · rintro ⟨hid, n, hn, hisFlow⟩
    simp [isFlowNode, h.get?_of_mem hid hn, NodeInfo.ofNode, hisFlow]

end Connectivity

end Shape

/-! ## Classification -/

namespace Connectivity

variable {g : Graph Node} {t : Connectivity}

/-- The state nodes of a table, when none is registered by hand. -/
def stateNodes (t : Connectivity) : List NodeId :=
  t.ids.filter (stateful t [])

theorem mem_stateNodes : id ∈ t.stateNodes ↔ id ∈ t.ids ∧ t.isFlowNode id = true ∧
      ∃ seed ∈ seedsOf t [], id = seed ∨ seed ∈ t.flowReachable id := by
  simp only [stateNodes, mem_filter, stateful, not_mem_nil, decide_false,
    Bool.false_or, Bool.and_eq_true, Bool.or_eq_true, decide_eq_true_eq, any_eq_true]
  constructor
  · rintro ⟨hid, hflow, hseed | ⟨seed, hreach, hseed⟩⟩
    · exact ⟨hid, hflow, id, hseed, .inl rfl⟩
    · exact ⟨hid, hflow, seed, hseed, .inr hreach⟩
  · rintro ⟨hid, hflow, seed, hseed, rfl | hreach⟩
    · exact ⟨hid, hflow, .inl hseed⟩
    · exact ⟨hid, hflow, .inr ⟨seed, hreach, hseed⟩⟩

section

variable (h : t.Describes g)
include h

/-- A node with flow ports takes part in control flow. -/
theorem isFlow_of_flowNext (hy : y ∈ t.flowNext p) : t.isFlowNode p = true := by
  obtain ⟨hp, hy, _⟩ := h.mem_flowNext.1 hy
  obtain ⟨n, hn⟩ := h.exists_node hp
  refine h.isFlowNode_iff.2 ⟨hp, n, hn, ?_⟩
  rw [Graph.flowTargets_of_some hn] at hy
  by_contra hvalue
  have hnone := Node.flowTargets_of_value n (Bool.eq_false_of_not_eq_true hvalue)
  exact absurd (hnone ▸ hy : y ∈ ([] : List NodeId)) not_mem_nil

/-- What flows into a state node is state. -/
theorem state_of_flowNext (hy : y ∈ t.flowNext p) (hstate : y ∈ t.stateNodes) :
    p ∈ t.stateNodes := by
  obtain ⟨_, _, seed, hseed, hreach⟩ := mem_stateNodes.1 hstate
  refine mem_stateNodes.2 ⟨(h.mem_flowNext.1 hy).1, isFlow_of_flowNext h hy, seed, hseed, .inr ?_⟩
  rw [h.mem_flowReachable] at hreach ⊢
  rcases hreach with rfl | hreach
  · exact .single hy
  · exact .head hy hreach

theorem info_mem (hid : id ∈ t.ids) (hn : g.get? id = some n) : NodeInfo.ofNode id n ∈ t.nodes :=
  mem_of_find?_eq_some (h.get?_of_mem hid hn)

/-- A flow node that flows back into itself is state. -/
theorem state_of_cycle (hcycle : Reach.Leads t.flowNext id id) : id ∈ t.stateNodes := by
  have hflow : t.isFlowNode id = true := by
    obtain ⟨y, hy, _⟩ := Relation.TransGen.head'_iff.1 hcycle
    exact isFlow_of_flowNext h hy
  obtain ⟨hid, n, hn, hisFlow⟩ := h.isFlowNode_iff.1 hflow
  refine mem_stateNodes.2 ⟨hid, hflow, id, ?_, .inl rfl⟩
  refine mem_append_right _ (mem_flatMap.2 ⟨_, info_mem h hid hn, ?_⟩)
  have hrecursive : remembered t [] id = true := by
    simpa [remembered] using h.mem_flowReachable.2 hcycle
  simp [seedsAt, NodeInfo.ofNode, hisFlow, hrecursive]

/-- A flow node inside a scope is state. -/
theorem state_of_child (hp : p ∈ t.ids) (hn : g.get? p = some n) (hscope : n.isScope = true)
    (hy : y ∈ g.children p) (hflow : t.isFlowNode y = true) : y ∈ t.stateNodes := by
  obtain ⟨hyid, m, hm, _⟩ := h.isFlowNode_iff.1 hflow
  have hchild : y ∈ t.children p :=
    h.mem_children.2 ⟨hp, hy, by simp [Graph.contains, hm]⟩
  refine mem_stateNodes.2 ⟨hyid, hflow, y, ?_, .inl rfl⟩
  refine mem_append_right _ (mem_flatMap.2 ⟨_, info_mem h hp hn, ?_⟩)
  have hisFlow : (NodeInfo.ofNode p n).isFlow = true := by
    cases n with
    | stateScope body next => rfl
    | _ => cases hscope
  have hisScope : (NodeInfo.ofNode p n).isScope = true := hscope
  have hmember : y ∈ t.scopeMembers p := by
    refine mem_distinct.2 (mem_filter.2 ⟨mem_flatMap.2 ⟨y, hchild, ?_⟩, hflow⟩)
    exact mem_cons_self
  simp only [seedsAt, hisFlow, hisScope, if_true]
  exact mem_append_right _ hmember

end

/-! ## Height -/

/-- How many nodes a node flows into. -/
def height (t : Connectivity) (id : NodeId) : Nat :=
  t.ids.countP (· ∈ t.flowReachable id)

theorem height_le (t : Connectivity) (id : NodeId) : t.height id ≤ t.ids.length :=
  countP_le_length

/-- Fewer members count when one of them is given up. -/
theorem countP_lt_countP {p q : NodeId → Bool} {ids : List NodeId} (h : ∀ id, q id → p id)
    (hid : id ∈ ids) (hp : p id = true) (hq : q id = false) : ids.countP q < ids.countP p := by
  obtain ⟨before, after, rfl⟩ := append_of_mem hid
  have hbefore := countP_mono_left (l := before) fun id _ => h id
  have hafter := countP_mono_left (l := after) fun id _ => h id
  simp only [countP_append, countP_cons, hp, hq, if_true, Bool.false_eq_true, if_false]
  omega

/-- Outside the state nodes the height falls along flow links. -/
theorem height_lt (h : t.Describes g) (hp : p ∉ t.stateNodes) (hy : y ∈ t.flowNext p) :
    t.height y < t.height p := by
  have hself : ¬ Reach.Leads t.flowNext y y := fun hcycle =>
    hp (state_of_flowNext h hy (state_of_cycle h hcycle))
  refine countP_lt_countP (fun x hx => ?_) (h.flowNext_mem hy) ?_ ?_
  · simp only [decide_eq_true_eq, h.mem_flowReachable] at hx ⊢
    exact .head hy hx
  · exact decide_eq_true (h.mem_flowReachable.2 (.single hy))
  · exact decide_eq_false fun hmem => hself (h.mem_flowReachable.1 hmem)

end Connectivity

/-! ## Statements -/

/-- What the statement of a node leads into, with its continuation. -/
def Graph.follows (g : Graph Node) (id : NodeId) : Multiset NodeId :=
  match g.get? id with
  | none => 0
  | some n => leads n.branches + leads [NodeShape.next n]

theorem Graph.follows_of_some (h : g.get? id = some n) :
    g.follows id = leads n.branches + leads [NodeShape.next n] := by
  simp [follows, h]

theorem Graph.mem_follows_of_target (hn : g.get? id = some n)
    (h : some y ∈ n.branches ∨ some y = NodeShape.next n) : y ∈ g.follows id := by
  rw [follows_of_some hn, Multiset.mem_add]
  refine h.imp (fun hy => mem_leads.2 hy) fun hy => ?_
  rw [← hy]
  exact Multiset.mem_singleton_self y

/-- A statement leads along flow ports and into children. -/
theorem Graph.count_follows_le (g : Graph Node) (id y : NodeId) :
    (g.follows id).count y ≤ (g.flowTargets id).count y + (g.children id).count y := by
  unfold follows flowTargets children portsAt
  cases g.get? id with
  | none => simp
  | some n =>
    cases hscope : n.isScope with
    | false =>
      dsimp only
      rw [← Node.flowTargets_eq n hscope, Multiset.coe_count]
      exact Nat.le_add_right _ _
    | true =>
      obtain ⟨hnext, hbody⟩ := Node.flowTargets_scope n hscope
      dsimp only
      rw [← hnext, ← hbody, Multiset.count_add, Multiset.coe_count, Multiset.coe_count]
      exact le_of_eq (Nat.add_comm _ _)

theorem Graph.mem_follows (h : y ∈ g.follows id) : y ∈ g.flowTargets id ∨ y ∈ g.children id := by
  have hle := g.count_follows_le id y
  have hpos := Multiset.count_pos.2 h
  by_cases hflow : y ∈ g.flowTargets id
  · exact .inl hflow
  · rw [count_eq_zero_of_not_mem hflow] at hle
    exact .inr (count_pos_iff.1 (by omega))

theorem Connectivity.Describes.follows_mem (h : t.Describes g) (hid : id ∈ t.ids)
    (hy : y ∈ g.follows id) (hexists : g.contains y = true) : y ∈ t.ids := by
  rcases Graph.mem_follows hy with hy | hy
  · exact h.flowNext_mem (h.mem_flowNext.2 ⟨hid, hy, hexists⟩)
  · exact h.children_mem (h.mem_children.2 ⟨hid, hy, hexists⟩)

/-- Only flow nodes have a statement that leads on. -/
theorem Connectivity.Describes.isFlow_of_follows (h : t.Describes g) (hp : p ∈ t.ids)
    (hy : y ∈ g.follows p) : t.isFlowNode p = true := by
  obtain ⟨n, hn⟩ := h.exists_node hp
  refine h.isFlowNode_iff.2 ⟨hp, n, hn, ?_⟩
  by_contra hvalue
  have hvalue : n.isFlow = false := Bool.eq_false_iff.2 hvalue
  have hscope : n.isScope = false := by cases n <;> first | rfl | cases hvalue
  rw [Graph.follows_of_some hn, ← Node.flowTargets_eq n hscope,
    Node.flowTargets_of_value n hvalue] at hy
  exact Multiset.notMem_zero _ hy

/-- A flow node outside the state nodes is reached by flow ports only. -/
theorem Connectivity.Describes.count_follows_le_flow (h : t.Describes g) (hp : p ∈ t.ids)
    (hflow : t.isFlowNode y = true) (hstate : y ∉ t.stateNodes) :
    (g.follows p).count y ≤ (g.flowTargets p).count y := by
  obtain ⟨n, hn⟩ := h.exists_node hp
  cases hscope : n.isScope with
  | true =>
    have hchild : y ∉ g.children p := fun hy =>
      hstate (Connectivity.state_of_child h hp hn hscope hy hflow)
    have hle := g.count_follows_le p y
    rwa [count_eq_zero_of_not_mem hchild, Nat.add_zero] at hle
  | false =>
    rw [Graph.follows_of_some hn, Graph.flowTargets_of_some hn, ← Node.flowTargets_eq n hscope,
      Multiset.coe_count]
    exact le_rfl

/-- Flow links and children are what a statement leads into, when no lambda has a body. -/
theorem Connectivity.Describes.mem_follows (h : t.Describes g)
    (hlambda : ∀ id n, g.get? id = some n → n.lambdaBody = none)
    (hy : y ∈ t.flowNext p ∨ y ∈ t.children p) : y ∈ g.follows p ∧ g.contains y = true := by
  have hp : p ∈ t.ids := hy.elim (fun hy => (h.mem_flowNext.1 hy).1)
    fun hy => (h.mem_children.1 hy).1
  obtain ⟨n, hn⟩ := h.exists_node hp
  rw [h.mem_flowNext, h.mem_children, Graph.flowTargets_of_some hn, Graph.children_of_some hn,
    ← Multiset.mem_coe, ← Multiset.mem_coe] at hy
  rw [Graph.follows_of_some hn]
  cases hscope : n.isScope with
  | true =>
    obtain ⟨hnext, hbody⟩ := Node.flowTargets_scope n hscope
    rcases hy with ⟨_, hy, hexists⟩ | ⟨_, hy, hexists⟩
    · exact ⟨Multiset.mem_add.2 (.inr (hnext ▸ hy)), hexists⟩
    · exact ⟨Multiset.mem_add.2 (.inl (hbody ▸ hy)), hexists⟩
  | false =>
    rcases hy with ⟨_, hy, hexists⟩ | ⟨_, hy, _⟩
    · exact ⟨Node.flowTargets_eq n hscope ▸ hy, hexists⟩
    · have hchildren := Node.children_eq n hscope
      rw [hlambda p n hn, leads_none] at hchildren
      exact absurd (hchildren ▸ hy) (Multiset.notMem_zero y)

namespace Connectivity

/-- How far a node stands before the end of the flow; values come last. -/
def rank (t : Connectivity) (id : NodeId) : Nat :=
  if t.isFlowNode id then t.height id + 1 else 0

theorem rank_le (t : Connectivity) (id : NodeId) : t.rank id ≤ t.ids.length + 1 := by
  have hle := t.height_le id
  unfold rank
  split <;> omega

/-- What the statement of a node leads into ranks lower, unless one of the two is state. -/
theorem rank_lt (h : t.Describes g) (hp : p ∈ t.ids) (hstate : p ∉ t.stateNodes)
    (hy : y ∈ g.follows p) (hexists : g.contains y = true) :
    y ∈ t.stateNodes ∨ t.rank y < t.rank p := by
  by_cases hystate : y ∈ t.stateNodes
  · exact .inl hystate
  right
  unfold rank
  rw [if_pos (h.isFlow_of_follows hp hy)]
  split
  · rename_i hflow
    have hpos := (Multiset.count_pos.2 hy).trans_le (h.count_follows_le_flow hp hflow hystate)
    have hnext : y ∈ t.flowNext p := h.mem_flowNext.2 ⟨hp, count_pos_iff.1 hpos, hexists⟩
    exact Nat.succ_lt_succ (height_lt h hstate hnext)
  · exact Nat.succ_pos _

end Connectivity

end FlowClass
