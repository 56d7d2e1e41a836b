import FlowClass.Proofs.Analysis.Flow
import Mathlib.Algebra.BigOperators.Group.List.Basic
import Mathlib.Data.List.Count

/-!
# The table is the reachable part of the graph

`Connectivity.Exact` says what a table holds, in terms of the ports of the graph alone:

* the nodes that an entry point leads to, each once;
* a link for each connected port of such a node, counted exactly (`Describes.count_links` and one
  lemma for each kind of port);
* for each node a record of the neighbours that its links give it.

A walk that passes over missing nodes fails for one reason only: a connected flow port beyond the
range of port numbers (`exists_build_iff`).
-/

namespace FlowClass

open List Connection FlowPort

variable {ν : Type} [NodeShape ν] {x y id : NodeId} {p : Ports}

/-! ## Links of the ports of a node -/

namespace Ports

/-- The links of the flow ports of a node. -/
def flowLinks (p : Ports) (x : NodeId) : List Link :=
  p.flows.zipIdx.filterMap fun (port, i) => port.target.map fun y => ⟨x, y, .flow (UInt16.ofNat i)⟩

/-- The links of a node, kind by kind. -/
theorem map_toLink (p : Ports) (x : NodeId) :
    p.connections.map (toLink x) =
      p.flowLinks x ++ p.valueSources.map (fun y => ⟨y, x, .value⟩) ++
        p.children.map (fun y => ⟨x, y, .child⟩) ++ p.references.map (fun y => ⟨x, y, .reference⟩) := by
  have hflows : (p.flows.zipIdx.filterMap fun (port, i) => port.target.map (flow i)).map
      (toLink x) = p.flowLinks x := by
    rw [map_filterMap]
    simp only [Option.map_map]
    rfl
  simp only [connections, map_append, map_map, hflows]
  rfl

theorem count_toLink (p : Ports) (x : NodeId) (l : Link) :
    (p.connections.map (toLink x)).count l =
      (p.flowLinks x).count l + (p.valueSources.map fun y => Link.mk y x .value).count l +
        (p.children.map fun y => Link.mk x y .child).count l +
        (p.references.map fun y => Link.mk x y .reference).count l := by
  rw [map_toLink, count_append, count_append, count_append]

theorem count_flowLinks_of_not_isFlow (p : Ports) (x : NodeId) {l : Link} (h : l.isFlow = false) :
    (p.flowLinks x).count l = 0 := by
  rw [count_eq_zero]
  intro hl
  obtain ⟨⟨port, i⟩, _, hlink⟩ := mem_filterMap.1 hl
  obtain ⟨y, _, rfl⟩ := Option.map_eq_some_iff.1 hlink
  cases h

theorem mem_connections_flow {i : Nat} :
    flow i y ∈ p.connections ↔ (p.flows[i]?).bind target = some y := by
  simp only [connections, mem_append, mem_filterMap, mem_map, reduceCtorEq, and_false,
    exists_false, or_false]
  constructor
  · rintro ⟨⟨port, j⟩, hport, hflow⟩
    obtain ⟨z, hz, heq⟩ := Option.map_eq_some_iff.1 hflow
    cases heq
    rw [mk_mem_zipIdx_iff_getElem?.1 hport]
    exact hz
  · intro h
    obtain ⟨port, hport, hy⟩ := Option.bind_eq_some_iff.1 h
    exact ⟨(port, i), mk_mem_zipIdx_iff_getElem?.2 hport, by rw [hy]; rfl⟩

section

variable (h : ∀ c ∈ p.connections, c.Addressable)
include h

/-- A port that can be addressed is found again by its number. -/
theorem toNat_index {port : FlowPort} {i : Nat}
    (hport : (port, i) ∈ p.flows.zipIdx) (hy : port.target = some y) :
    (UInt16.ofNat i).toNat = i := by
  have hi : (p.flows[i]?).bind target = some y := by
    rw [mk_mem_zipIdx_iff_getElem?.1 hport]
    exact hy
  exact UInt16.toNat_ofNat_of_lt' (h _ (mem_connections_flow.2 hi))

theorem mem_flowLinks {port : UInt16} :
    ⟨x, y, .flow port⟩ ∈ p.flowLinks x ↔
      (p.flows[port.toNat]?).bind target = some y := by
  rw [flowLinks, mem_filterMap]
  constructor
  · rintro ⟨⟨flow, i⟩, hflow, hlink⟩
    obtain ⟨z, hz, heq⟩ := Option.map_eq_some_iff.1 hlink
    cases heq
    rw [toNat_index h hflow hz, mk_mem_zipIdx_iff_getElem?.1 hflow]
    exact hz
  · intro hy
    obtain ⟨flow, hflow, htarget⟩ := Option.bind_eq_some_iff.1 hy
    exact ⟨(flow, port.toNat), mk_mem_zipIdx_iff_getElem?.2 hflow, by simp [htarget]⟩

/-- The numbers of two ports differ as long as both can be addressed. -/
theorem nodup_flowLinks (x : NodeId) : (p.flowLinks x).Nodup := by
  have hzip : p.flows.zipIdx.Pairwise fun a b => a.2 ≠ b.2 := by
    rw [← pairwise_map, zipIdx_map_snd]
    exact nodup_range'
  refine (List.Pairwise.and_mem.1 hzip).filterMap _ ?_
  rintro ⟨flow, i⟩ ⟨flow', i'⟩ ⟨hflow, hflow', hne⟩ l hl l' hl' rfl
  obtain ⟨z, hz, rfl⟩ := Option.map_eq_some_iff.1 hl
  obtain ⟨z', hz', heq⟩ := Option.map_eq_some_iff.1 hl'
  have hport : UInt16.ofNat i' = UInt16.ofNat i := by
    injection heq with _ _ hkind
    injection hkind
  apply hne
  rw [← toNat_index h hflow hz, ← toNat_index h hflow' hz', hport]

/-- One link for each connected flow port. -/
theorem count_flow (x y : NodeId) (port : UInt16) :
    (p.connections.map (toLink x)).count ⟨x, y, .flow port⟩ =
      if (p.flows[port.toNat]?).bind target = some y then 1 else 0 := by
  rw [count_toLink, count_eq_zero.2 (by simp : _ ∉ p.valueSources.map _),
    count_eq_zero.2 (by simp : _ ∉ p.children.map _),
    count_eq_zero.2 (by simp : _ ∉ p.references.map _), (nodup_flowLinks h x).count]
  simp only [mem_flowLinks h, Nat.add_zero]

end

/-- One link from each node whose value is read, however many inputs read it. -/
theorem count_value (p : Ports) (x y : NodeId) :
    (p.connections.map (toLink x)).count ⟨y, x, .value⟩ =
      if y ∈ p.valueSources then 1 else 0 := by
  have hnodup : p.valueSources.Nodup := nodup_distinct _
  rw [count_toLink, p.count_flowLinks_of_not_isFlow x rfl,
    count_map_of_injective _ (fun y => Link.mk y x .value) (fun a b hab => by injection hab) y,
    count_eq_zero.2 (by simp : _ ∉ p.children.map _),
    count_eq_zero.2 (by simp : _ ∉ p.references.map _), hnodup.count]
  omega

/-- One link for each time the node is named as a child. -/
theorem count_child (p : Ports) (x y : NodeId) :
    (p.connections.map (toLink x)).count ⟨x, y, .child⟩ = p.children.count y := by
  rw [count_toLink, p.count_flowLinks_of_not_isFlow x rfl,
    count_eq_zero.2 (by simp : _ ∉ p.valueSources.map _),
    count_map_of_injective _ (fun y => Link.mk x y .child) (fun a b hab => by injection hab) y,
    count_eq_zero.2 (by simp : _ ∉ p.references.map _)]
  omega

/-- One link for each time the node is named without a port. -/
theorem count_reference (p : Ports) (x y : NodeId) :
    (p.connections.map (toLink x)).count ⟨x, y, .reference⟩ = p.references.count y := by
  rw [count_toLink, p.count_flowLinks_of_not_isFlow x rfl,
    count_eq_zero.2 (by simp : _ ∉ p.valueSources.map _),
    count_eq_zero.2 (by simp : _ ∉ p.children.map _),
    count_map_of_injective _ (fun y => Link.mk x y .reference)
      (fun a b hab => by injection hab) y]
  omega

end Ports

namespace Connectivity

variable {g : Graph ν} {t : Connectivity}

/-! ## Nodes and links -/

/-- The table has the nodes that are reached, and no others. -/
theorem Describes.mem_ids (h : t.Describes g) : id ∈ t.ids ↔ g.Reached id := by
  constructor
  · intro hid
    exact h.reached id hid
  · intro hid
    induction hid with
    | @entry e he hexists =>
      apply h.roots
      rw [h.entries]
      exact mem_filter.2 ⟨he, hexists⟩
    | @port id y n _ hn hport hexists ih =>
      obtain ⟨c, hc, rfl⟩ := Ports.exists_of_connects hport
      exact h.closed id n ih hn c hc hexists

theorem Describes.addressable_portsAt (h : t.Describes g) (hid : id ∈ t.ids) :
    ∀ c ∈ (g.portsAt id).connections, c.Addressable := by
  obtain ⟨n, hn⟩ := h.exists_node hid
  rw [Graph.portsAt_of_some hn]
  exact h.addressable id n hid hn

/-- Every link is there as often as its owner has a connection for it. -/
theorem Describes.count_links (h : t.Describes g) (l : Link) :
    t.links.count l = if l.owner ∈ t.ids ∧ g.contains l.far = true then
      ((g.portsAt l.owner).connections.map (toLink l.owner)).count l else 0 := by
  have hothers : ∀ id, id ≠ l.owner → id ∈ t.ids → (g.linksOf id).count l = 0 := by
    intro id hne _
    rw [count_eq_zero, g.linksOf_eq]
    intro hl
    obtain ⟨c, _, rfl⟩ := mem_map.1 (mem_of_mem_filter hl)
    exact hne (owner_toLink id c).symm
  have hsum : t.links.count l = t.ids.count l.owner * (g.linksOf l.owner).count l := by
    calc t.links.count l = (t.ids.map fun id => (g.linksOf id).count l).sum := h.countP_links _
      _ = t.ids.count l.owner • (g.linksOf l.owner).count l :=
        sum_map_eq_nsmul_single l.owner _ hothers
      _ = t.ids.count l.owner * (g.linksOf l.owner).count l := rfl
  rw [hsum, h.nodup.count, g.linksOf_eq]
  by_cases hfar : (g.contains ∘ Link.far) l = true
  · rw [count_filter hfar]
    by_cases howner : l.owner ∈ t.ids
    · rw [if_pos howner, if_pos ⟨howner, hfar⟩, Nat.one_mul]
    · rw [if_neg howner, if_neg (fun hand => howner hand.1), Nat.zero_mul]
  · have hnone : l ∉ ((g.portsAt l.owner).connections.map (toLink l.owner)).filter
        (g.contains ∘ Link.far) := fun hl => hfar (of_mem_filter hl)
    rw [count_eq_zero.2 hnone, Nat.mul_zero]
    rw [if_neg (fun hand => hfar hand.2)]

/-! ## Neighbours -/

/-- A link of some kind from one node to another. -/
theorem mem_targetsOf {ls : List Link} {p : Link → Bool} :
    y ∈ Neighbours.targetsOf ls p x ↔ ∃ kind, p ⟨x, y, kind⟩ = true ∧ Link.mk x y kind ∈ ls := by
  simp only [Neighbours.targetsOf, mem_distinct, mem_map, mem_filter, Bool.and_eq_true,
    decide_eq_true_eq]
  constructor
  · rintro ⟨⟨_, _, kind⟩, ⟨hl, hp, rfl⟩, rfl⟩
    exact ⟨kind, hp, hl⟩
  · rintro ⟨kind, hp, hl⟩
    exact ⟨_, ⟨hl, hp, rfl⟩, rfl⟩

theorem mem_sourcesOf {ls : List Link} {p : Link → Bool} :
    x ∈ Neighbours.sourcesOf ls p y ↔ ∃ kind, p ⟨x, y, kind⟩ = true ∧ Link.mk x y kind ∈ ls := by
  simp only [Neighbours.sourcesOf, mem_distinct, mem_map, mem_filter, Bool.and_eq_true,
    decide_eq_true_eq]
  constructor
  · rintro ⟨⟨_, _, kind⟩, ⟨hl, hp, rfl⟩, rfl⟩
    exact ⟨kind, hp, hl⟩
  · rintro ⟨kind, hp, hl⟩
    exact ⟨_, ⟨hl, hp, rfl⟩, rfl⟩

/-- A flow link from one node to another, through whatever port. -/
def FlowsTo (t : Connectivity) (x y : NodeId) : Prop :=
  ∃ port, Link.mk x y (.flow port) ∈ t.links

theorem exists_flowLink_iff :
    (∃ kind, Link.isFlow ⟨x, y, kind⟩ = true ∧ Link.mk x y kind ∈ t.links) ↔ t.FlowsTo x y := by
  constructor
  · rintro ⟨kind, hkind, hl⟩
    cases kind with
    | flow port => exact ⟨port, hl⟩
    | value => cases hkind
    | child => cases hkind
    | reference => cases hkind
  · rintro ⟨port, hl⟩
    exact ⟨_, rfl, hl⟩

theorem exists_kindLink_iff (k : LinkKind) :
    (∃ kind, decide (kind = k) = true ∧ Link.mk x y kind ∈ t.links) ↔ Link.mk x y k ∈ t.links := by
  simp

theorem mem_flowNext_iff : y ∈ t.flowNext x ↔ t.FlowsTo x y := by
  rw [t.flowNext_eq, mem_targetsOf, exists_flowLink_iff]

theorem mem_flowPrev_iff : x ∈ t.flowPrev y ↔ t.FlowsTo x y := by
  rw [flowPrev, t.recorded]
  exact mem_sourcesOf.trans exists_flowLink_iff

theorem mem_valueInputs_iff : y ∈ (t.record x).valueInputs ↔ ⟨y, x, .value⟩ ∈ t.links := by
  rw [t.recorded]
  exact mem_sourcesOf.trans (exists_kindLink_iff .value)

theorem mem_valueOutputs_iff : x ∈ (t.record y).valueOutputs ↔ ⟨y, x, .value⟩ ∈ t.links := by
  rw [t.recorded]
  exact mem_targetsOf.trans (exists_kindLink_iff .value)

theorem mem_children_iff : y ∈ t.children x ↔ ⟨x, y, .child⟩ ∈ t.links := by
  rw [t.children_eq]
  exact mem_targetsOf.trans (exists_kindLink_iff .child)

theorem mem_parents_iff :
    x ∈ Neighbours.sourcesOf t.links Link.isChild y ↔ ⟨x, y, .child⟩ ∈ t.links :=
  mem_sourcesOf.trans (exists_kindLink_iff .child)

theorem mem_references_iff : y ∈ (t.record x).references ↔ ⟨x, y, .reference⟩ ∈ t.links := by
  rw [t.recorded]
  exact mem_targetsOf.trans (exists_kindLink_iff .reference)

theorem parent_link (h : (t.record y).parent = some x) : ⟨x, y, .child⟩ ∈ t.links := by
  rw [t.recorded] at h
  exact mem_parents_iff.1 (mem_of_mem_head? h)

theorem parent_eq_none : (t.record y).parent = none ↔ ∀ x, ⟨x, y, .child⟩ ∉ t.links := by
  rw [t.recorded]
  refine head?_eq_none_iff.trans (eq_nil_iff_forall_not_mem.trans ?_)
  simp only [mem_parents_iff]

/-! ## When the table can be built -/

/-- Every connected flow port of the node has a number. -/
def PortsAddressable (p : Ports) : Prop :=
  ∀ i y, (p.flows[i]?).bind target = some y → i < UInt16.size

theorem portsAddressable_iff : PortsAddressable p ↔ ∀ c ∈ p.connections, c.Addressable := by
  constructor
  · intro h c hc
    cases c with
    | flow i y => exact h i y (Ports.mem_connections_flow.1 hc)
    | value source => trivial
    | child target => trivial
    | reference target => trivial
  · intro h i y hi
    exact h _ (Ports.mem_connections_flow.2 hi)

/-- Passing over missing nodes, the walk gets through addressable connections. -/
theorem exists_followAll (id : NodeId) {cs : List Connection} (h : ∀ c ∈ cs, c.Addressable)
    (w : Walk) : ∃ w', followAll g false id cs w = .ok w' := by
  induction cs generalizing w with
  | nil => exact ⟨w, rfl⟩
  | cons c cs ih =>
    obtain ⟨hc, hcs⟩ := forall_mem_cons.1 h
    have hstep : ∃ w', follow g false id w c = .ok w' := by
      unfold follow
      rw [link_eq hc]
      dsimp only
      split
      · exact ⟨_, rfl⟩
      · exact ⟨_, rfl⟩
    obtain ⟨w', hw'⟩ := hstep
    obtain ⟨w'', hw''⟩ := ih hcs w'
    exact ⟨w'', by rw [followAll, hw']; exact hw''⟩

theorem exists_start (points : List EntryPoint) (w : Walk) :
    ∃ w', start g false points w = .ok w' := by
  induction points generalizing w with
  | nil => exact ⟨w, rfl⟩
  | cons e es ih =>
    rw [start]
    split
    · exact ih _
    · exact ih _

theorem exists_visit (h : ∀ id, g.Reached id → PortsAddressable (g.portsAt id)) {fuel : Nat}
    {done : List NodeId} {w : Walk} (hw : w.Visited g done) :
    ∃ t, visit g false fuel w = .ok t := by
  induction fuel generalizing done w with
  | zero => exact ⟨w.table, rfl⟩
  | succ fuel ih =>
    rw [visit]
    cases hstack : w.stack with
    | nil => exact ⟨w.table, rfl⟩
    | cons id stack =>
      have hid : id ∈ w.table.ids := hw.perm.subset (by simp [hstack])
      obtain ⟨n, hn⟩ := exists_of_knows hw.knows hid
      have haddressable := portsAddressable_iff.1 (h id (hw.reached id hid))
      rw [Graph.portsAt_of_some hn] at haddressable
      obtain ⟨w', hw'⟩ := exists_followAll (g := g) id haddressable { w with stack }
      simp only [hn, hw']
      exact ih (visited_followAll hw hstack hn hw')

/-- The table is built unless a port that is reached has no number. -/
theorem exists_build_iff (g : Graph ν) :
    (∃ t, build g false = .ok t) ↔ ∀ id, g.Reached id → PortsAddressable (g.portsAt id) := by
  constructor
  · rintro ⟨t, ht⟩ id hid
    have hdescribes := describes_build ht
    exact portsAddressable_iff.2 (hdescribes.addressable_portsAt (hdescribes.mem_ids.2 hid))
  · intro h
    obtain ⟨w, hw⟩ := exists_start (g := g) g.classDecl.entryPoints {}
    unfold build
    rw [hw]
    exact exists_visit h (visited_start hw)

/-! ## Exactness -/

/-- The table is the reachable part of the graph, with a link for each of its connected ports and the
neighbours that these links give. -/
structure Exact (g : Graph ν) (t : Connectivity) : Prop where
  nodup : t.ids.Nodup
  nodes : ∀ id, id ∈ t.ids ↔ g.Reached id
  infos : ∀ info ∈ t.nodes, Knows g info
  addressable : ∀ id ∈ t.ids, PortsAddressable (g.portsAt id)
  flowLinks : ∀ x y port, t.links.count ⟨x, y, .flow port⟩ =
    if x ∈ t.ids ∧ g.contains y = true ∧
      ((g.portsAt x).flows[port.toNat]?).bind target = some y then 1 else 0
  valueLinks : ∀ x y, t.links.count ⟨y, x, .value⟩ =
    if x ∈ t.ids ∧ g.contains y = true ∧ y ∈ (g.portsAt x).valueSources then 1 else 0
  childLinks : ∀ x y, t.links.count ⟨x, y, .child⟩ =
    if x ∈ t.ids ∧ g.contains y = true then (g.portsAt x).children.count y else 0
  referenceLinks : ∀ x y, t.links.count ⟨x, y, .reference⟩ =
    if x ∈ t.ids ∧ g.contains y = true then (g.portsAt x).references.count y else 0
  flowNext : ∀ x y, y ∈ t.flowNext x ↔ t.FlowsTo x y
  flowPrev : ∀ x y, x ∈ t.flowPrev y ↔ t.FlowsTo x y
  flowInEdges : ∀ y, t.flowInEdges y = t.links.countP fun l => l.isFlow && l.target = y
  valueInputs : ∀ x y, y ∈ (t.record x).valueInputs ↔ ⟨y, x, .value⟩ ∈ t.links
  valueOutputs : ∀ x y, x ∈ (t.record y).valueOutputs ↔ ⟨y, x, .value⟩ ∈ t.links
  children : ∀ x y, y ∈ t.children x ↔ ⟨x, y, .child⟩ ∈ t.links
  parent : ∀ x y, (t.record y).parent = some x → ⟨x, y, .child⟩ ∈ t.links
  orphan : ∀ y, (t.record y).parent = none ↔ ∀ x, ⟨x, y, .child⟩ ∉ t.links
  references : ∀ x y, y ∈ (t.record x).references ↔ ⟨x, y, .reference⟩ ∈ t.links
  entries : t.entries = g.classDecl.entryPoints.filter fun e => g.contains e.node
  entriesAt : ∀ id ∈ t.ids, t.entriesAt id = g.classDecl.entryPoints.filter fun e => e.node = id

/-- Where a port has one link at most. -/
theorem Describes.count_link (h : t.Describes g) {l : Link} {connected : Prop} [Decidable connected]
    (hcount : l.owner ∈ t.ids →
      ((g.portsAt l.owner).connections.map (toLink l.owner)).count l =
        if connected then 1 else 0) :
    t.links.count l = if l.owner ∈ t.ids ∧ g.contains l.far = true ∧ connected then 1 else 0 := by
  rw [h.count_links]
  by_cases hl : l.owner ∈ t.ids ∧ g.contains l.far = true
  · rw [hcount hl.1]
    simp [hl.1, hl.2]
  · rw [if_neg hl, if_neg (fun hall => hl ⟨hall.1, hall.2.1⟩)]

theorem Describes.entriesAt_eq (h : t.Describes g) (hid : id ∈ t.ids) :
    t.entriesAt id = g.classDecl.entryPoints.filter fun e => e.node = id := by
  obtain ⟨n, hn⟩ := h.exists_node hid
  rw [t.entriesAt_eq, h.entries, filter_filter]
  apply filter_congr
  intro e _
  by_cases he : e.node = id
  · simp [he, Graph.contains, hn]
  · simp [he]

/-- A walk that passes over missing nodes succeeds unless a port that is reached has no number, and
its table is the reachable part of the graph. -/
theorem build_exact (g : Graph ν) :
    ((∃ t, build g false = .ok t) ↔ ∀ id, g.Reached id → PortsAddressable (g.portsAt id)) ∧
      ∀ t, build g false = .ok t → t.Exact g := by
  refine ⟨exists_build_iff g, fun t ht => ?_⟩
  have h := describes_build ht
  exact
    { nodup := h.nodup
      nodes := fun _ => h.mem_ids
      infos := h.knows
      addressable := fun _ hid => portsAddressable_iff.2 (h.addressable_portsAt hid)
      flowLinks := fun x y port => h.count_link (l := ⟨x, y, .flow port⟩) fun hx =>
        Ports.count_flow (h.addressable_portsAt hx) x y port
      valueLinks := fun x y => h.count_link (l := ⟨y, x, .value⟩) fun _ => Ports.count_value _ x y
      childLinks := fun x y => by rw [← Ports.count_child]; exact h.count_links ⟨x, y, .child⟩
      referenceLinks := fun x y => by
        rw [← Ports.count_reference]; exact h.count_links ⟨x, y, .reference⟩
      flowNext := fun _ _ => mem_flowNext_iff
      flowPrev := fun _ _ => mem_flowPrev_iff
      flowInEdges := t.flowInEdges_eq
      valueInputs := fun _ _ => mem_valueInputs_iff
      valueOutputs := fun _ _ => mem_valueOutputs_iff
      children := fun _ _ => mem_children_iff
      parent := fun _ _ => parent_link
      orphan := fun _ => parent_eq_none
      references := fun _ _ => mem_references_iff
      entries := h.entries
      entriesAt := fun _ hid => h.entriesAt_eq hid }

/-- A node leads back to itself, twice to the next one, to a missing one and, inside a scope, to
itself again; one node is not reached. -/
def knotted : Graph Node where
  name := "C"
  classDecl := { name := "C", events := [{ id := ⟨1⟩, name := "Start", entry := some ⟨1⟩ }] }
  nodes := [
    (⟨1⟩, .branch (.output ⟨2⟩ 0) (some ⟨1⟩) (some ⟨3⟩) (some ⟨3⟩)),
    (⟨2⟩, .operator .add [.output ⟨2⟩ 0, .output ⟨2⟩ 0] none),
    (⟨3⟩, .stateScope (some ⟨1⟩) (some ⟨9⟩)),
    (⟨4⟩, .sequence [some ⟨1⟩])]

theorem knotted_exact : ∃ t, build knotted false = .ok t ∧ t.ids = [⟨1⟩, ⟨3⟩, ⟨2⟩] ∧
    t.links = [⟨⟨1⟩, ⟨1⟩, .flow 0⟩, ⟨⟨1⟩, ⟨3⟩, .flow 1⟩, ⟨⟨1⟩, ⟨3⟩, .flow 2⟩, ⟨⟨2⟩, ⟨1⟩, .value⟩,
      ⟨⟨2⟩, ⟨2⟩, .value⟩, ⟨⟨3⟩, ⟨1⟩, .child⟩] ∧ t.Exact knotted :=
  ⟨_, rfl, by decide, by decide, (build_exact knotted).2 _ rfl⟩

end Connectivity

end FlowClass
