import FlowClass.Analysis.Connectivity
import FlowClass.Proofs.Analysis.Reach
import Mathlib.Data.List.Perm.Basic

/-!
# The table describes the graph

`Connectivity.Describes` is the specification of `Connectivity.build`: the nodes of the table are
those that the entry points lead to (`Graph.Reached`), each once, with all their connections as
links. The walk keeps its table in that shape as far as it has come (`Walk.Meets`, `Walk.Visited`),
and its fuel lasts until the stack is empty (`visited_visit`).
-/

namespace FlowClass

open List Connection NodeShape

variable {ν : Type} [NodeShape ν] {g : Graph ν} {id : NodeId} {c : Connection} {strict : Bool}
  {t : Connectivity} {w : Walk} {w' : Walk} {n : ν}

/-- The link of a connection that `id` owns. -/
def Connection.toLink (id : NodeId) : Connection → Link
  | .flow index target => ⟨id, target, .flow (UInt16.ofNat index)⟩
  | .value source => ⟨source, id, .value⟩
  | .child target => ⟨id, target, .child⟩
  | .reference target => ⟨id, target, .reference⟩

/-- The node whose port a link comes from: a value is read by the node it goes to. -/
def Link.owner (l : Link) : NodeId :=
  match l.kind with
  | .value => l.target
  | _ => l.source

/-- The node that the port of a link names. -/
def Link.far (l : Link) : NodeId :=
  match l.kind with
  | .value => l.source
  | _ => l.target

@[simp] theorem Connection.owner_toLink (id : NodeId) (c : Connection) : (c.toLink id).owner = id := by
  cases c <;> rfl

@[simp] theorem Connection.far_toLink (id : NodeId) (c : Connection) :
    (c.toLink id).far = c.other := by
  cases c <;> rfl

/-- The index of a flow port fits the number that a link has for it. -/
def Connection.Addressable : Connection → Prop
  | .flow index _ => index < UInt16.size
  | _ => True

theorem Connection.link_eq (h : c.Addressable) (id : NodeId) : c.link id = .ok (c.toLink id) := by
  cases c with
  | flow index target => exact if_pos h
  | value source => rfl
  | child target => rfl
  | reference target => rfl

theorem Connection.addressable_of_link {l : Link} (h : c.link id = .ok l) : c.Addressable := by
  cases c with
  | flow index target =>
    simp only [link] at h
    split at h
    · rename_i hindex
      exact hindex
    · cases h
  | value source => trivial
  | child target => trivial
  | reference target => trivial

theorem Connection.eq_toLink {l : Link} (h : c.link id = .ok l) : l = c.toLink id := by
  rw [link_eq (addressable_of_link h)] at h
  exact (Except.ok.inj h).symm

/-- A port of the node leads to `y`. -/
def Ports.Connects (p : Ports) (y : NodeId) : Prop :=
  y ∈ p.flowTargets ∨ y ∈ p.valueSources ∨ y ∈ p.children ∨ y ∈ p.references

theorem Ports.connects_of_mem {p : Ports} (h : c ∈ p.connections) : p.Connects c.other := by
  simp only [Ports.connections, mem_append, mem_map] at h
  rcases h with ((hflow | ⟨y, hy, rfl⟩) | ⟨y, hy, rfl⟩) | ⟨y, hy, rfl⟩
  · obtain ⟨⟨port, i⟩, hport, hc⟩ := mem_filterMap.1 hflow
    obtain ⟨y, hy, rfl⟩ := Option.map_eq_some_iff.1 hc
    exact .inl (mem_filterMap.2 ⟨port, fst_mem_of_mem_zipIdx hport, hy⟩)
  · exact .inr (.inl hy)
  · exact .inr (.inr (.inl hy))
  · exact .inr (.inr (.inr hy))

theorem Ports.exists_of_connects {p : Ports} {y : NodeId} (h : p.Connects y) :
    ∃ c ∈ p.connections, c.other = y := by
  simp only [Ports.connections, mem_append, mem_map, mem_filterMap]
  rcases h with hflow | hvalue | hchild | hreference
  · obtain ⟨port, hport, hy⟩ := mem_filterMap.1 hflow
    obtain ⟨i, hi⟩ := mem_iff_getElem?.1 hport
    have hmem := mk_mem_zipIdx_iff_getElem?.2 hi
    exact ⟨.flow i y, .inl (.inl (.inl ⟨(port, i), hmem, by rw [hy]; rfl⟩)), rfl⟩
  · exact ⟨.value y, .inl (.inl (.inr ⟨y, hvalue, rfl⟩)), rfl⟩
  · exact ⟨.child y, .inl (.inr ⟨y, hchild, rfl⟩), rfl⟩
  · exact ⟨.reference y, .inr ⟨y, hreference, rfl⟩, rfl⟩

namespace Graph

/-- The nodes that exist and that an entry point leads to, over ports of nodes that exist. -/
inductive Reached (g : Graph ν) : NodeId → Prop where
  | entry {e : EntryPoint} : e ∈ g.classDecl.entryPoints → g.contains e.node = true →
    Reached g e.node
  | port {id y : NodeId} {n : ν} : Reached g id → g.get? id = some n →
    (ports n).Connects y → g.contains y = true → Reached g y

/-- The links of some connections of a node to nodes that exist, in port order. -/
def linksAlong (g : Graph ν) (id : NodeId) (connections : List Connection) : List Link :=
  (connections.filter fun c => g.contains c.other).map (toLink id)

/-- The links of a node to nodes that exist. -/
def linksOf (g : Graph ν) (id : NodeId) : List Link :=
  match g.get? id with
  | none => []
  | some n => g.linksAlong id (ports n).connections

omit [NodeShape ν] in
theorem mem_of_get? (h : g.get? id = some n) : (id, n) ∈ g.nodes := by
  obtain ⟨entry, hentry, rfl⟩ := Option.map_eq_some_iff.1 h
  have hfst : entry.1 = id := by simpa using find?_some hentry
  rw [← hfst]
  exact mem_of_find?_eq_some hentry

end Graph

namespace Connectivity

/-- What is known of a node is what the graph says of it. -/
def Knows (g : Graph ν) (info : NodeInfo) : Prop :=
  ∃ n, g.get? info.id = some n ∧ info = NodeInfo.ofNode info.id n

/-- The table holds what the entry points lead to. -/
structure Describes (g : Graph ν) (t : Connectivity) : Prop where
  nodup : t.ids.Nodup
  knows : ∀ info ∈ t.nodes, Knows g info
  reached : ∀ id ∈ t.ids, g.Reached id
  addressable : ∀ id n, id ∈ t.ids → g.get? id = some n →
    ∀ c ∈ (ports n).connections, c.Addressable
  links : ∃ order : List NodeId, order.Perm t.ids ∧ t.links = order.flatMap g.linksOf
  closed : ∀ id n, id ∈ t.ids → g.get? id = some n → ∀ c ∈ (ports n).connections,
    g.contains c.other = true → c.other ∈ t.ids
  entries : t.entries = g.classDecl.entryPoints.filter fun e => g.contains e.node
  roots : ∀ e ∈ t.entries, e.node ∈ t.ids

/-! ## Meeting nodes -/

/-- The walk has met more nodes, which are on the stack now. -/
structure Walk.Meets (g : Graph ν) (w w' : Walk) : Prop where
  grows : ∃ new : List NodeInfo, w'.table.nodes = w.table.nodes ++ new ∧
    w'.stack = (new.map NodeInfo.id).reverse ++ w.stack ∧ ∀ info ∈ new, Knows g info
  nodup : w.table.ids.Nodup → w'.table.ids.Nodup

namespace Walk.Meets

variable {g : Graph ν} {w w' w'' : Walk}

theorem refl (w : Walk) : w.Meets g w :=
  ⟨⟨[], by simp⟩, id⟩

theorem trans (h : w.Meets g w') (h' : w'.Meets g w'') : w.Meets g w'' := by
  obtain ⟨new, hnodes, hstack, hknows⟩ := h.grows
  obtain ⟨new', hnodes', hstack', hknows'⟩ := h'.grows
  refine ⟨⟨new ++ new', ?_, ?_, ?_⟩, fun hnodup => h'.nodup (h.nodup hnodup)⟩
  · rw [hnodes', hnodes, append_assoc]
  · rw [hstack', hstack]
    simp
  · intro info hinfo
    rcases mem_append.1 hinfo with hinfo | hinfo
    · exact hknows info hinfo
    · exact hknows' info hinfo

theorem ids_subset (h : w.Meets g w') (hid : id ∈ w.table.ids) : id ∈ w'.table.ids := by
  obtain ⟨new, hnodes, _, _⟩ := h.grows
  rw [ids, hnodes, map_append]
  exact mem_append_left _ hid

end Walk.Meets

theorem contains_iff : t.contains id = true ↔ id ∈ t.ids := by
  simp [contains, get?, ids, find?_isSome]

/-- A node is met at most once. -/
theorem Walk.meets_meet (w : Walk) (hn : g.get? id = some n) :
    w.Meets g (w.meet id n) ∧ id ∈ (w.meet id n).table.ids := by
  unfold Walk.meet
  split
  · rename_i hknown
    exact ⟨.refl w, contains_iff.1 hknown⟩
  · rename_i hnew
    have hid : id ∉ w.table.ids := fun h => hnew (contains_iff.2 h)
    refine ⟨⟨⟨[NodeInfo.ofNode id n], rfl, rfl, ?_⟩, fun hnodup => ?_⟩, ?_⟩
    · intro info hinfo
      rw [mem_singleton] at hinfo
      exact ⟨n, by rw [hinfo]; exact hn, by rw [hinfo]; rfl⟩
    · simp only [ids, addNode, map_append, map_cons, map_nil]
      refine nodup_append.2 ⟨hnodup, pairwise_singleton _ _, ?_⟩
      rintro a ha b hb rfl
      have ha' : a = id := mem_singleton.1 hb
      exact hid (ha' ▸ ha)
    · simp [ids, addNode, NodeInfo.ofNode]

theorem Walk.mem_meet (w : Walk) {y : NodeId} (hy : y ∈ (w.meet id n).table.ids) :
    y ∈ w.table.ids ∨ y = id := by
  unfold Walk.meet at hy
  split at hy
  · exact .inl hy
  · simpa [ids, addNode, NodeInfo.ofNode, or_comm, eq_comm] using hy

theorem Walk.meet_links (w : Walk) (id : NodeId) (n : ν) :
    (w.meet id n).table.links = w.table.links := by
  unfold Walk.meet
  split <;> rfl

theorem Walk.meet_entries (w : Walk) (id : NodeId) (n : ν) :
    (w.meet id n).table.entries = w.table.entries := by
  unfold Walk.meet
  split <;> rfl

/-! ## Following connections -/

section Follow

variable {g : Graph ν} {strict : Bool} {id : NodeId}

/-- What following connections adds. -/
structure Walk.Followed (g : Graph ν) (id : NodeId) (connections : List Connection)
    (w w' : Walk) : Prop where
  meets : w.Meets g w'
  links : w'.table.links = w.table.links ++ g.linksAlong id connections
  entries : w'.table.entries = w.table.entries
  met : ∀ c ∈ connections, g.contains c.other = true → c.other ∈ w'.table.ids
  only : ∀ y ∈ w'.table.ids, y ∈ w.table.ids ∨
    ∃ c ∈ connections, c.other = y ∧ g.contains y = true
  addressable : ∀ c ∈ connections, c.Addressable

theorem followed_follow (h : follow g strict id w c = .ok w') : w.Followed g id [c] w' := by
  unfold follow at h
  split at h
  · cases h
  · rename_i link hlink
    have haddressable : ∀ c' ∈ [c], c'.Addressable :=
      forall_mem_singleton.2 (addressable_of_link hlink)
    split at h
    · rename_i hnone
      have hmissing : g.contains c.other = false := by simp [Graph.contains, hnone]
      unfold missing at h
      split at h
      · cases h
      · cases h
        exact ⟨.refl _, by simp [Graph.linksAlong, hmissing], rfl, by simp [hmissing],
          fun y hy => .inl hy, haddressable⟩
    · rename_i n hn
      have hexists : g.contains c.other = true := by simp [Graph.contains, hn]
      obtain ⟨hmeets, hid⟩ := w.meets_meet hn
      cases h
      refine ⟨⟨hmeets.grows, hmeets.nodup⟩, ?_, Walk.meet_entries _ _ _, ?_, ?_, haddressable⟩
      · simp [Graph.linksAlong, addLink, hexists, eq_toLink hlink, Walk.meet_links]
      · intro c' hc' _
        rw [mem_singleton] at hc'
        exact hc' ▸ hid
      · intro y hy
        refine (w.mem_meet hy).imp_right fun hother => ?_
        exact ⟨c, mem_singleton_self c, hother.symm, hother ▸ hexists⟩

theorem followed_followAll {connections : List Connection}
    (h : followAll g strict id connections w = .ok w') : w.Followed g id connections w' := by
  induction connections generalizing w with
  | nil =>
    cases h
    exact ⟨.refl _, by simp [Graph.linksAlong], rfl, by simp, fun y hy => .inl hy, by simp⟩
  | cons c cs ih =>
    rw [followAll] at h
    split at h
    · cases h
    · rename_i v hv
      have hc := followed_follow hv
      have hcs := ih h
      refine ⟨hc.meets.trans hcs.meets, ?_, hcs.entries.trans hc.entries, ?_, ?_,
        forall_mem_cons.2 ⟨hc.addressable c (mem_singleton_self c), hcs.addressable⟩⟩
      · rw [hcs.links, hc.links, append_assoc]
        congr 1
        simp only [Graph.linksAlong, ← map_append, ← filter_append, singleton_append]
      · intro c' hc' hexists
        rcases mem_cons.1 hc' with rfl | hc'
        · exact hcs.meets.ids_subset (hc.met _ mem_cons_self hexists)
        · exact hcs.met c' hc' hexists
      · intro y hy
        rcases hcs.only y hy with hy | ⟨c', hc', hother⟩
        · refine (hc.only y hy).imp_right fun ⟨c', hc', hother⟩ => ⟨c', ?_, hother⟩
          exact mem_singleton.1 hc' ▸ mem_cons_self
        · exact .inr ⟨c', mem_cons_of_mem c hc', hother⟩

end Follow

/-! ## Starting -/

/-- What the entry points add. -/
structure Walk.Started (g : Graph ν) (points : List EntryPoint) (w w' : Walk) : Prop where
  meets : w.Meets g w'
  links : w'.table.links = w.table.links
  entries : w'.table.entries = w.table.entries ++ points.filter fun e => g.contains e.node
  met : ∀ e ∈ points, g.contains e.node = true → e.node ∈ w'.table.ids
  only : ∀ y ∈ w'.table.ids, y ∈ w.table.ids ∨
    ∃ e ∈ points, e.node = y ∧ g.contains y = true

theorem started_start {entries : List EntryPoint} (h : start g strict entries w = .ok w') :
    w.Started g entries w' := by
  induction entries generalizing w with
  | nil =>
    cases h
    exact ⟨.refl _, rfl, by simp, by simp, fun y hy => .inl hy⟩
  | cons e es ih =>
    rw [start] at h
    split at h
    · rename_i hnone
      have hmissing : g.contains e.node = false := by simp [Graph.contains, hnone]
      -- a node that does not exist is passed over unless the walk is strict
      unfold missing at h
      split at h
      · cases h
      · rename_i v hv
        split at hv
        · cases hv
        · rw [← Except.ok.inj hv] at h
          have hes := ih h
          refine ⟨hes.meets, hes.links, ?_, ?_, fun y hy => (hes.only y hy).imp_right
            fun ⟨e', he', hother⟩ => ⟨e', mem_cons_of_mem e he', hother⟩⟩
          · rw [hes.entries, filter_cons_of_neg (by simp [hmissing])]
          · intro e' he' hexists
            rcases mem_cons.1 he' with rfl | he'
            · exact absurd hexists (by simp [hmissing])
            · exact hes.met e' he' hexists
    · rename_i n hn
      have hexists : g.contains e.node = true := by simp [Graph.contains, hn]
      obtain ⟨hmeets, hid⟩ := w.meets_meet hn
      have hes := ih h
      have hall : w.Meets g w' := by
        refine Walk.Meets.trans ?_ hes.meets
        exact ⟨hmeets.grows, hmeets.nodup⟩
      refine ⟨hall, hes.links.trans (w.meet_links _ _), ?_, ?_, ?_⟩
      · rw [hes.entries]
        simp [addEntry, hexists, w.meet_entries]
      · intro e' he' hexists'
        rcases mem_cons.1 he' with rfl | he'
        · exact hes.meets.ids_subset hid
        · exact hes.met e' he' hexists'
      · intro y hy
        rcases hes.only y hy with hy | ⟨e', he', hother⟩
        · refine (w.mem_meet hy).imp_right fun hnode => ?_
          exact ⟨e, mem_cons_self, hnode.symm, hnode ▸ hexists⟩
        · exact .inr ⟨e', mem_cons_of_mem e he', hother⟩

/-! ## Visiting -/

/-- The walk has looked at the ports of the nodes `done`. -/
structure Walk.Visited (g : Graph ν) (done : List NodeId) (w : Walk) : Prop where
  nodup : w.table.ids.Nodup
  perm : (done ++ w.stack).Perm w.table.ids
  knows : ∀ info ∈ w.table.nodes, Knows g info
  reached : ∀ id ∈ w.table.ids, g.Reached id
  addressable : ∀ id ∈ done, ∀ n, g.get? id = some n →
    ∀ c ∈ (ports n).connections, c.Addressable
  links : w.table.links = done.flatMap g.linksOf
  closed : ∀ id ∈ done, ∀ n, g.get? id = some n → ∀ c ∈ (ports n).connections,
    g.contains c.other = true → c.other ∈ w.table.ids

theorem exists_of_knows (h : ∀ info ∈ t.nodes, Knows g info) (hid : id ∈ t.ids) :
    ∃ n, g.get? id = some n := by
  obtain ⟨info, hinfo, rfl⟩ := mem_map.1 hid
  obtain ⟨n, hn, _⟩ := h info hinfo
  exact ⟨n, hn⟩

theorem visited_followAll {done stack : List NodeId} (h : w.Visited g done)
    (hstack : w.stack = id :: stack) (hn : g.get? id = some n)
    (hrun : followAll g strict id (ports n).connections { w with stack } = .ok w') :
    w'.Visited g (done ++ [id]) := by
  have hfollowed := followed_followAll hrun
  obtain ⟨new, hnodes, hstack', hknows⟩ := hfollowed.meets.grows
  have hid : id ∈ w.table.ids := h.perm.subset (by simp [hstack])
  refine ⟨hfollowed.meets.nodup h.nodup, ?_, ?_, ?_, ?_, ?_, ?_⟩
  · have hids : w'.table.ids = w.table.ids ++ new.map NodeInfo.id := by
      simp [ids, hnodes]
    have hperm := h.perm
    rw [hstack] at hperm
    rw [hids, hstack', append_assoc, singleton_append]
    -- `id` moves from the stack to what is done, and new nodes come on top
    have hmoved : (done ++ id :: ((new.map NodeInfo.id).reverse ++ stack)).Perm
        ((done ++ id :: stack) ++ new.map NodeInfo.id) := by
      rw [append_assoc, cons_append]
      refine List.Perm.append_left done (List.Perm.cons id ?_)
      exact perm_append_comm.trans (List.Perm.append_left stack (reverse_perm _))
    exact hmoved.trans (hperm.append_right _)
  · intro info hinfo
    rw [hnodes] at hinfo
    rcases mem_append.1 hinfo with hinfo | hinfo
    · exact h.knows info hinfo
    · exact hknows info hinfo
  · intro y hy
    rcases hfollowed.only y hy with hy | ⟨c, hc, rfl, hexists⟩
    · exact h.reached y hy
    · exact .port (h.reached id hid) hn (Ports.connects_of_mem hc) hexists
  · intro id' hid' n' hn'
    rcases mem_append.1 hid' with hid' | hid'
    · exact h.addressable id' hid' n' hn'
    · rw [mem_singleton.1 hid', hn] at hn'
      cases hn'
      exact hfollowed.addressable
  · rw [hfollowed.links, flatMap_append, flatMap_singleton]
    simp [h.links, Graph.linksOf, hn]
  · intro id' hid' n' hn' c hc hexists
    rcases mem_append.1 hid' with hid' | hid'
    · exact hfollowed.meets.ids_subset (h.closed id' hid' n' hn' c hc hexists)
    · rw [mem_singleton.1 hid', hn] at hn'
      cases hn'
      exact hfollowed.met c hc hexists

omit [NodeShape ν] in
/-- Nodes that exist, each once, are not more than the graph has. -/
theorem length_le_size {xs : List NodeId} (hnodup : xs.Nodup)
    (hexists : ∀ id ∈ xs, ∃ n, g.get? id = some n) : xs.length ≤ g.size := by
  have hsub : xs ⊆ g.ids := by
    intro id hid
    obtain ⟨n, hn⟩ := hexists id hid
    exact mem_map.2 ⟨_, Graph.mem_of_get? hn, rfl⟩
  have hlength := (subperm_of_subset hnodup hsub).length_le
  simpa [Graph.ids, Graph.size] using hlength

/-- The fuel of a visit lasts until the stack is empty. -/
theorem visited_visit {fuel : Nat} {done : List NodeId} (h : w.Visited g done)
    (hfuel : done.length + fuel = g.size + 1) (hrun : visit g strict fuel w = .ok t) :
    ∃ w' : Walk, ∃ order : List NodeId, w'.table = t ∧ w'.stack = [] ∧ w'.Visited g order ∧
      t.entries = w.table.entries ∧ ∀ id ∈ w.table.ids, id ∈ t.ids := by
  induction fuel generalizing done w with
  | zero =>
    -- every node of `done` exists and none comes twice
    have hdone : ∀ id ∈ done, id ∈ w.table.ids := fun id hid =>
      h.perm.subset (mem_append_left _ hid)
    have hnodup : done.Nodup := (nodup_append.1 (h.perm.nodup_iff.2 h.nodup)).1
    have := length_le_size hnodup fun id hid => exists_of_knows h.knows (hdone id hid)
    omega
  | succ fuel ih =>
    rw [visit] at hrun
    cases hstack : w.stack with
    | nil =>
      rw [hstack] at hrun
      cases hrun
      exact ⟨w, done, rfl, hstack, h, rfl, fun _ hid => hid⟩
    | cons id stack =>
      rw [hstack] at hrun
      dsimp only at hrun
      have hid : id ∈ w.table.ids := h.perm.subset (by simp [hstack])
      obtain ⟨n, hn⟩ := exists_of_knows h.knows hid
      rw [hn] at hrun
      dsimp only at hrun
      split at hrun
      · cases hrun
      · rename_i v hv
        have hnext := visited_followAll h hstack hn hv
        have hfollowed := followed_followAll hv
        obtain ⟨w', order, htable, hempty, hvisited, hentries, hids⟩ :=
          ih hnext (by simp only [length_append, length_singleton]; omega) hrun
        exact ⟨w', order, htable, hempty, hvisited, hentries.trans hfollowed.entries,
          fun id hid => hids id (hfollowed.meets.ids_subset hid)⟩

/-- Before any ports are looked at. -/
theorem visited_start (h : start g strict g.classDecl.entryPoints {} = .ok w) : w.Visited g [] := by
  have hstarted := started_start h
  obtain ⟨new, hnodes, hstack, hknows⟩ := hstarted.meets.grows
  refine ⟨hstarted.meets.nodup nodup_nil, ?_, ?_, ?_, by simp, hstarted.links, by simp⟩
  · simp only [ids, hnodes, hstack]
    simp [empty]
  · rw [hnodes]
    simpa [empty] using hknows
  · intro y hy
    rcases hstarted.only y hy with hy | ⟨e, he, rfl, hexists⟩
    · exact absurd hy not_mem_nil
    · exact .entry he hexists

/-- The table that is built describes the graph. -/
theorem describes_build (h : build g strict = .ok t) : t.Describes g := by
  unfold build at h
  split at h
  · cases h
  · rename_i w hw
    have hstarted := started_start hw
    obtain ⟨w', order, rfl, hempty, hvisited', hentries, hids⟩ :=
      visited_visit (visited_start hw) (by simp) h
    have hperm := hvisited'.perm
    rw [hempty, append_nil] at hperm
    refine ⟨hvisited'.nodup, hvisited'.knows, hvisited'.reached, ?_,
      ⟨order, hperm, hvisited'.links⟩, ?_, ?_, ?_⟩
    · intro id n hid hn
      exact hvisited'.addressable id (hperm.mem_iff.2 hid) n hn
    · intro id n hid hn
      exact hvisited'.closed id (hperm.mem_iff.2 hid) n hn
    · rw [hentries, hstarted.entries]
      rfl
    · intro e he
      rw [hentries, hstarted.entries] at he
      simp only [empty, nil_append, mem_filter] at he
      exact hids _ (hstarted.met e he.1 he.2)

end Connectivity

end FlowClass
