import FlowClass.Proofs.Analysis.Coverage
import FlowClass.Proofs.Analysis.ReachedPart

/-!
# Strict walks

A strict walk gives up at the first connection to a node that does not exist; any other walk passes
over it and goes on. Up to there the two take the same steps. So a strict walk that comes to its end has
built the same table, and it does come to its end if nothing is missing from where the other one gets to
(`strict_only_rejects`). What it gives up with is a connection that it was about to follow.
-/

namespace FlowClass

open List NodeShape

variable {ν : Type} [NodeShape ν] {w : Walk} {w' : Walk}

/-- All that the node connects to exists. -/
def Graph.Whole (g : Graph ν) (id : NodeId) : Prop :=
  ∀ n, g.get? id = some n → ∀ y, (ports n).Connects y → g.contains y = true

namespace Connectivity

variable {g : Graph ν} {id : NodeId}

/-! ## Walks that succeed -/

theorem follow_strict {c : Connection} : follow g true id w c = .ok w' ↔
      follow g false id w c = .ok w' ∧ g.contains c.other = true := by
  unfold follow
  cases c.link id with
  | error e => simp
  | ok link =>
    cases hn : g.get? c.other with
    | none => simp [missing, Graph.contains, hn]
    | some n => simp [Graph.contains, hn]

theorem followAll_strict {cs : List Connection} : followAll g true id cs w = .ok w' ↔
      followAll g false id cs w = .ok w' ∧ ∀ c ∈ cs, g.contains c.other = true := by
  induction cs generalizing w with
  | nil => simp [followAll]
  | cons c cs ih =>
    rw [followAll, followAll, forall_mem_cons]
    cases hstrict : follow g true id w c with
    | ok v =>
      obtain ⟨hfollow, hexists⟩ := follow_strict.1 hstrict
      simp only [hfollow, ih, hexists, true_and]
    | error e =>
      -- the other walk has failed as well, or has passed over the connection
      cases hfollow : follow g false id w c with
      | error e' => simp
      | ok v =>
        have hmissing : ¬ g.contains c.other = true := fun hexists => by
          rw [follow_strict.2 ⟨hfollow, hexists⟩] at hstrict
          cases hstrict
        simp [hmissing]

theorem start_strict {points : List EntryPoint} : start g true points w = .ok w' ↔
      start g false points w = .ok w' ∧ ∀ e ∈ points, g.contains e.node = true := by
  induction points generalizing w with
  | nil => simp [start]
  | cons e es ih =>
    rw [start, start, forall_mem_cons]
    cases hn : g.get? e.node with
    | none => simp [missing, Graph.contains, hn]
    | some n => simp [ih, Graph.contains, hn]

/-- The connections of a node that all exist, one by one. -/
theorem whole_iff {n : ν} (hn : g.get? id = some n) :
    g.Whole id ↔ ∀ c ∈ (ports n).connections, g.contains c.other = true := by
  constructor
  · intro h c hc
    exact h n hn c.other (Ports.connects_of_mem hc)
  · intro h n' hn' y hy
    rw [hn] at hn'
    cases hn'
    obtain ⟨c, hc, rfl⟩ := Ports.exists_of_connects hy
    exact h c hc

/-- The nodes that were looked at are whole, so the strict walk has come as far. -/
theorem visit_strict {fuel : Nat} {done : List NodeId} {t : Connectivity} (h : w.Visited g done)
    (hfuel : done.length + fuel = g.size + 1) (hdone : ∀ id ∈ done, g.Whole id) :
    visit g true fuel w = .ok t ↔ visit g false fuel w = .ok t ∧ ∀ id ∈ t.ids, g.Whole id := by
  induction fuel generalizing done w with
  | zero =>
    have hle := length_le_of_visited (.refl g) h
    omega
  | succ fuel ih =>
    cases hstack : w.stack with
    | nil =>
      have hperm := h.perm
      rw [hstack, append_nil] at hperm
      simp only [visit, hstack, iff_self_and]
      rintro ⟨⟩ id hid
      exact hdone id (hperm.mem_iff.2 hid)
    | cons id stack =>
      have hid : id ∈ w.table.ids := h.perm.subset (by simp [hstack])
      obtain ⟨n, hn⟩ := exists_of_knows h.knows hid
      simp only [visit, hstack, hn]
      cases hfollow : followAll g false id (ports n).connections { w with stack } with
      | error e =>
        have hstrict : ∀ v, followAll g true id (ports n).connections
            { w with stack } ≠ .ok v := fun v hv => by
          rw [(followAll_strict.1 hv).1] at hfollow
          cases hfollow
        split
        · simp
        · rename_i v hv
          exact absurd hv (hstrict v)
      | ok v =>
        have hvisited := visited_followAll h hstack hn hfollow
        have hlength : (done ++ [id]).length + fuel = g.size + 1 := by
          simp only [length_append, length_singleton]
          omega
        by_cases hwhole : g.Whole id
        · rw [followAll_strict.2 ⟨hfollow, (whole_iff hn).1 hwhole⟩]
          refine ih hvisited hlength fun y hy => ?_
          rcases mem_append.1 hy with hy | hy
          · exact hdone y hy
          · exact mem_singleton.1 hy ▸ hwhole
        · -- the strict walk has given up here, and the node stays in the table of the other
          constructor
          · intro hrun
            split at hrun
            · cases hrun
            · rename_i v' hv'
              exact absurd ((whole_iff hn).2 (followAll_strict.1 hv').2) hwhole
          · rintro ⟨hrun, hall⟩
            obtain ⟨_, _, _, _, _, _, hkept⟩ := visited_visit hvisited hlength hrun
            have hmet := (followed_followAll hfollow).meets.ids_subset hid
            exact absurd (hall id (hkept id hmet)) hwhole

/-! ## Walks that give up -/

variable {strict : Bool} {target : NodeId} {referrer : Option NodeId}

theorem unresolved_follow {c : Connection}
    (h : follow g strict id w c = .error (.unresolvedTarget target referrer)) :
    g.contains target = false ∧ referrer = some id ∧ c.other = target := by
  unfold follow at h
  split at h
  · rename_i e hlink
    -- a connection itself is only ever refused for its port
    cases c with
    | flow index y =>
      simp only [Connection.link] at hlink
      split at hlink
      · cases hlink
      · cases hlink
        cases h
    | value source => cases hlink
    | child y => cases hlink
    | reference y => cases hlink
  · split at h
    · rename_i hnone
      unfold missing at h
      split at h
      · cases h
        exact ⟨by simp [Graph.contains, hnone], rfl, rfl⟩
      · cases h
    · cases h

theorem unresolved_followAll {cs : List Connection}
    (h : followAll g strict id cs w = .error (.unresolvedTarget target referrer)) :
    g.contains target = false ∧ referrer = some id ∧ ∃ c ∈ cs, c.other = target := by
  induction cs generalizing w with
  | nil => cases h
  | cons c cs ih =>
    rw [followAll] at h
    split at h
    · rename_i e he
      cases h
      obtain ⟨hmissing, hreferrer, hother⟩ := unresolved_follow he
      exact ⟨hmissing, hreferrer, c, mem_cons_self, hother⟩
    · obtain ⟨hmissing, hreferrer, c', hc', hother⟩ := ih h
      exact ⟨hmissing, hreferrer, c', mem_cons_of_mem c hc', hother⟩

theorem unresolved_start {points : List EntryPoint}
    (h : start g strict points w = .error (.unresolvedTarget target referrer)) :
    g.contains target = false ∧ referrer = none ∧ ∃ e ∈ points, e.node = target := by
  induction points generalizing w with
  | nil => cases h
  | cons e es ih =>
    have hrest {v : Walk} (hv : start g strict es v = .error (.unresolvedTarget target referrer)) :
        g.contains target = false ∧ referrer = none ∧ ∃ e' ∈ e :: es, e'.node = target := by
      obtain ⟨hmissing, hreferrer, e', he', hnode⟩ := ih hv
      exact ⟨hmissing, hreferrer, e', mem_cons_of_mem e he', hnode⟩
    rw [start] at h
    split at h
    · rename_i hnone
      unfold missing at h
      cases strict with
      | true =>
        cases h
        exact ⟨by simp [Graph.contains, hnone], rfl, e, mem_cons_self, rfl⟩
      | false => exact hrest h
    · exact hrest h

theorem unresolved_visit {fuel : Nat} {done : List NodeId} (hw : w.Visited g done)
    (h : visit g strict fuel w = .error (.unresolvedTarget target referrer)) :
    g.contains target = false ∧ ∃ id n, referrer = some id ∧ g.Reached id ∧
      g.get? id = some n ∧ (ports n).Connects target := by
  induction fuel generalizing done w with
  | zero => cases h
  | succ fuel ih =>
    cases hstack : w.stack with
    | nil =>
      simp only [visit, hstack] at h
      cases h
    | cons id stack =>
      have hid : id ∈ w.table.ids := hw.perm.subset (by simp [hstack])
      obtain ⟨n, hn⟩ := exists_of_knows hw.knows hid
      simp only [visit, hstack, hn] at h
      split at h
      · rename_i e he
        cases h
        obtain ⟨hmissing, hreferrer, c, hc, rfl⟩ := unresolved_followAll he
        exact ⟨hmissing, id, n, hreferrer, hw.reached id hid, hn, Ports.connects_of_mem hc⟩
      · rename_i v hv
        exact ih (visited_followAll hw hstack hn hv) h

/-- A strict walk builds a table just if the other walk builds the same one and all that entry points
and nodes of it connect to exists. If it gives up for a missing node, that node is missing, and an entry
point or a node that entry points lead to connects to it. -/
theorem strict_only_rejects (g : Graph ν) :
    (∀ t, build g true = .ok t ↔ build g false = .ok t ∧
      (∀ e ∈ g.classDecl.entryPoints, g.contains e.node = true) ∧
      ∀ id ∈ t.ids, ∀ n, g.get? id = some n → ∀ y, (NodeShape.ports n).Connects y →
        g.contains y = true) ∧
    ∀ target referrer, build g true = .error (.unresolvedTarget target referrer) →
      g.contains target = false ∧
      ((referrer = none ∧ ∃ e ∈ g.classDecl.entryPoints, e.node = target) ∨
        ∃ id n, referrer = some id ∧ g.Reached id ∧ g.get? id = some n ∧
          (NodeShape.ports n).Connects target) := by
  constructor
  · intro t
    unfold build
    cases hstrict : start g true g.classDecl.entryPoints {} with
    | ok w =>
      obtain ⟨hstart, hentries⟩ := start_strict.1 hstrict
      simp only [hstart]
      rw [visit_strict (visited_start hstart) (by simp) (by simp)]
      exact and_congr_right fun _ => (and_iff_right hentries).symm
    | error e =>
      obtain ⟨w, hstart⟩ := exists_start (g := g) g.classDecl.entryPoints {}
      -- the strict walk only gives up here for an entry point that is missing
      have hmissing : ¬ ∀ e ∈ g.classDecl.entryPoints, g.contains e.node = true := fun hall => by
        rw [start_strict.2 ⟨hstart, hall⟩] at hstrict
        cases hstrict
      simp [hmissing]
  · intro target referrer h
    unfold build at h
    split at h
    · rename_i e he
      cases h
      obtain ⟨hmissing, hreferrer, hentry⟩ := unresolved_start he
      exact ⟨hmissing, .inl ⟨hreferrer, hentry⟩⟩
    · rename_i w hw
      obtain ⟨hmissing, hnode⟩ := unresolved_visit (visited_start hw) h
      exact ⟨hmissing, .inr hnode⟩

end Connectivity

end FlowClass
