import FlowClass.Proofs.Analysis.Table

/-!
# Graphs with the same reached part

Two graphs that declare the same class may hold different nodes, in a different order. If the nodes
that their entry points lead to are the same (`Graph.SameReached`), then wherever the analysis looks a
node up it finds the same in both, so their tables are the same (`Connectivity.build_eq`).
-/

namespace FlowClass

open List

variable {ν : Type} [NodeShape ν] {id : NodeId}

namespace Graph

/-- The graphs have the same name and class, and the nodes that entry points lead to are the same
under the same identities. -/
structure SameReached (g g' : Graph ν) : Prop where
  name : g'.name = g.name
  classDecl : g'.classDecl = g.classDecl
  nodes : ∀ id n, g.Reached id ∧ g.get? id = some n ↔ g'.Reached id ∧ g'.get? id = some n

theorem Reached.exists_node {g : Graph ν} (h : g.Reached id) : ∃ n, g.get? id = some n := by
  cases h with
  | entry _ hexists | port _ _ _ hexists => exact Option.isSome_iff_exists.1 hexists

namespace SameReached

variable {g g' : Graph ν}

theorem refl (g : Graph ν) : g.SameReached g :=
  ⟨rfl, rfl, fun _ _ => Iff.rfl⟩

variable (h : g.SameReached g')
include h

theorem symm : g'.SameReached g where
  name := h.name.symm
  classDecl := h.classDecl.symm
  nodes id n := (h.nodes id n).symm

theorem get?_of_reached (hid : g.Reached id) : g'.get? id = g.get? id := by
  obtain ⟨n, hn⟩ := hid.exists_node
  rw [hn]
  exact ((h.nodes id n).1 ⟨hid, hn⟩).2

/-- A node that is reached if it exists, in either graph, is the same in both. -/
theorem get?_eq (hid : g.contains id = true → g.Reached id)
    (hid' : g'.contains id = true → g'.Reached id) : g'.get? id = g.get? id := by
  cases hn : g.get? id with
  | some n => rw [← hn, h.get?_of_reached (hid (by simp [contains, hn]))]
  | none =>
    cases hn' : g'.get? id with
    | none => rfl
    | some n => rw [← hn', ← hn, h.symm.get?_of_reached (hid' (by simp [contains, hn']))]

theorem get?_entry {e : EntryPoint} (he : e ∈ g.classDecl.entryPoints) :
    g'.get? e.node = g.get? e.node :=
  h.get?_eq (fun hexists => .entry he hexists)
    fun hexists => .entry (by rwa [h.classDecl]) hexists

theorem get?_other {n : ν} (hid : g.Reached id) (hn : g.get? id = some n)
    {c : Connection} (hc : c ∈ (NodeShape.ports n).connections) :
    g'.get? c.other = g.get? c.other := by
  obtain ⟨hid', hn'⟩ := (h.nodes id n).1 ⟨hid, hn⟩
  exact h.get?_eq (fun hexists => .port hid hn (Ports.connects_of_mem hc) hexists)
    fun hexists => .port hid' hn' (Ports.connects_of_mem hc) hexists

end SameReached

end Graph

namespace Connectivity

variable {g g' : Graph ν} {strict : Bool}

theorem follow_eq {c : Connection} (h : g'.get? c.other = g.get? c.other) (w : Walk) :
    follow g' strict id w c = follow g strict id w c := by
  unfold follow
  rw [h]

theorem followAll_eq {connections : List Connection}
    (h : ∀ c ∈ connections, g'.get? c.other = g.get? c.other) (w : Walk) :
    followAll g' strict id connections w = followAll g strict id connections w := by
  induction connections generalizing w with
  | nil => rfl
  | cons c cs ih =>
    rw [followAll, followAll, follow_eq (h c mem_cons_self)]
    cases follow g strict id w c with
    | error e => rfl
    | ok w => exact ih (fun c hc => h c (mem_cons_of_mem _ hc)) w

theorem start_eq {entries : List EntryPoint}
    (h : ∀ e ∈ entries, g'.get? e.node = g.get? e.node) (w : Walk) :
    start g' strict entries w = start g strict entries w := by
  induction entries generalizing w with
  | nil => rfl
  | cons e es ih =>
    have hrest := ih fun e he => h e (mem_cons_of_mem _ he)
    rw [start, start, h e mem_cons_self]
    cases g.get? e.node with
    | none =>
      cases missing strict e.node none w with
      | error e => rfl
      | ok w => exact hrest w
    | some n => exact hrest _

/-- The nodes that a walk has looked at are reached, so either graph holds them all. -/
theorem length_le_of_visited (h : g.SameReached g') {done : List NodeId} {w : Walk}
    (hw : w.Visited g done) : done.length ≤ g'.size := by
  have hnodup : done.Nodup := (nodup_append.1 (hw.perm.nodup_iff.2 hw.nodup)).1
  refine length_le_size hnodup fun id hid => ?_
  have hreached := hw.reached id (hw.perm.subset (mem_append_left _ hid))
  rw [h.get?_of_reached hreached]
  exact hreached.exists_node

/-- The walks take the same steps, and the fuel of each graph lasts for them. -/
theorem visit_eq (h : g.SameReached g') {fuel fuel' : Nat} {done : List NodeId} {w : Walk}
    (hw : w.Visited g done) (hfuel : done.length + fuel = g.size + 1)
    (hfuel' : done.length + fuel' = g'.size + 1) :
    visit g' strict fuel' w = visit g strict fuel w := by
  induction fuel generalizing fuel' done w with
  | zero =>
    have hle := length_le_of_visited (.refl g) hw
    omega
  | succ fuel ih =>
    have hle' := length_le_of_visited h hw
    obtain ⟨fuel', rfl⟩ : ∃ k, fuel' = k + 1 := ⟨fuel' - 1, by omega⟩
    rw [visit, visit]
    cases hstack : w.stack with
    | nil => rfl
    | cons id stack =>
      have hid : g.Reached id := hw.reached id (hw.perm.subset (by simp [hstack]))
      obtain ⟨n, hn⟩ := hid.exists_node
      dsimp only
      rw [h.get?_of_reached hid, hn]
      dsimp only
      rw [followAll_eq fun c hc => h.get?_other hid hn hc]
      rcases hrun : followAll g strict id (NodeShape.ports n).connections { w with stack } with e | v
      · rfl
      · have hnext := visited_followAll hw hstack hn hrun
        exact ih hnext (by simp only [length_append, length_singleton]; omega)
          (by simp only [length_append, length_singleton]; omega)

/-- The table depends on the reached part of the graph only. -/
theorem build_eq (h : g.SameReached g') (strict : Bool) : build g' strict = build g strict := by
  unfold build
  rw [h.classDecl, start_eq fun e he => h.get?_entry he]
  rcases hstart : start g strict g.classDecl.entryPoints {} with e | w
  · rfl
  · exact visit_eq h (visited_start hstart) (by simp) (by simp)

end Connectivity

end FlowClass
