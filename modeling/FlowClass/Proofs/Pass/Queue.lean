import FlowClass.Proofs.Pass.Independence

/-!
# The queue of a job

Between items a job is *consistent* (`Job.Consistent`): what is left of the graph that was prepared last
stands in front of the whole work on later graphs, and every item is counted as done or as pending. So
the next item finds the generation that it needs. Each item keeps this, whether it succeeds
(`Consistent.report`), drops its graph (`Consistent.fail`) or ends the pass (`Consistent.stop`), and so
do drains (`Consistent.drainItems`).
-/

namespace FlowClass

open List

variable {ν : Type} [NodeKind ν] {j : Job ν}

/-- The generation of a graph after it was prepared and some entry points were emitted. -/
inductive Generation.Prepared (config : Config) (graph : Graph ν) :
    List EntryPoint → Generation ν → Prop where
  | first {g₀ g : Generation ν} (hstart : Generation.start graph config = .ok g₀)
    (hrun : g₀.run Emit.prepare = (.ok (), g)) : Prepared config graph [] g
  | entry {done : List EntryPoint} {e : EntryPoint} {g g' : Generation ν}
    (hg : Prepared config graph done g) (hrun : g.run (Emit.entry e) = (.ok (), g')) :
    Prepared config graph (done ++ [e]) g'

/-- The current generation is the one that the item needs: that of its own graph, in which all entry
points before the item are emitted. -/
def WorkItem.Fits (config : Config) (item : WorkItem ν) (current : Option (Generation ν)) : Prop :=
  match item.task with
  | .prepare => True
  | .emit e => ∃ done later g, item.graph.classDecl.entryPoints = done ++ e :: later ∧
      current = some g ∧ g.Prepared config item.graph done
  | .assemble => ∃ g, current = some g ∧ g.Prepared config item.graph item.graph.classDecl.entryPoints

namespace Job

/-! ## Consistent jobs -/

/-- What is left of the queue: the whole work on some graphs, perhaps after the rest of the work on the
graph that was prepared last. -/
inductive Laid (config : Config) (queue : List (WorkItem ν)) (current : Option (Generation ν)) :
    Prop where
  | between {placed : List (Graph ν × Nat)} (hplaced : (placed.map Prod.snd).Nodup)
    (hqueue : queue = WorkItem.ofPlaced placed)
  | within {placed : List (Graph ν × Nat)} {graph : Graph ν} {position : Nat}
    {done entries : List EntryPoint} {g : Generation ν}
    (hplaced : (((graph, position) :: placed).map Prod.snd).Nodup)
    (hqueue : queue = WorkItem.rest position graph entries ++ WorkItem.ofPlaced placed)
    (hentries : graph.classDecl.entryPoints = done ++ entries) (hcurrent : current = some g)
    (hg : g.Prepared config graph done)

structure Consistent (config : Config) (total : Nat) (j : Job ν) : Prop where
  config_eq : j.config = config
  total_eq : j.total = total
  laid : Laid config j.queue j.current
  /-- The count is exact, unless an error has emptied the queue. -/
  count : j.done + j.pending = total ∨ config.isBatched = false ∧ j.queue = [] ∧ j.done ≤ total
  increasing : (j.reports.map Report.done).Pairwise (· < ·)
  reports : ∀ r ∈ j.reports, r.done ≤ j.done ∧ r.total = total

namespace Consistent

variable {config : Config} {total : Nat} {j j' : Job ν} {item : WorkItem ν}
  {queue : List (WorkItem ν)}

section

variable (h : Consistent config total j)
include h

theorem done_le : j.done ≤ total := by
  obtain hcount | ⟨_, _, hle⟩ := h.count
  · omega
  · exact hle

theorem counted (hqueue : j.queue = item :: queue) : j.done + queue.length + 1 = total := by
  obtain hcount | ⟨_, hempty, _⟩ := h.count
  · rw [pending, hqueue, length_cons] at hcount
    exact hcount
  · rw [hqueue] at hempty
    cases hempty

/-- An item succeeds, and is reported. -/
theorem report (hqueue : j.queue = item :: queue)
    {current : Option (Generation ν)} (hlaid : Laid config queue current) (output : Output) :
    Consistent config total
      { j with queue, current, output, done := j.done + 1
               reports := j.reports ++ [⟨j.done + 1, j.total, item.message⟩] } where
  config_eq := h.config_eq
  total_eq := h.total_eq
  laid := hlaid
  count := .inl (by
    have hcounted := h.counted hqueue
    simp only [pending]
    omega)
  increasing := by
    simp only [map_append, map_cons, map_nil, pairwise_append,
      pairwise_singleton, mem_singleton, mem_map]
    refine ⟨h.increasing, trivial, ?_⟩
    rintro _ ⟨r, hr, rfl⟩ _ rfl
    exact Nat.lt_succ_of_le (h.reports r hr).1
  reports := forall_mem_append.2
    ⟨fun r hr => ⟨Nat.le_succ_of_le (h.reports r hr).1, (h.reports r hr).2⟩,
      forall_mem_singleton.2 ⟨Nat.le_refl _, h.total_eq⟩⟩

/-- An item fails, and what is left of its graph is dropped. -/
theorem fail {items : List (WorkItem ν)}
    {placed : List (Graph ν × Nat)} (hitems : ∀ x ∈ items, x.position = item.position)
    (hplaced : (((item.graph, item.position) :: placed).map Prod.snd).Nodup)
    (hqueue : j.queue = item :: (items ++ WorkItem.ofPlaced placed)) (e : GenError) :
    Consistent config total
      ({ j with queue := items ++ WorkItem.ofPlaced placed, current := none }.skip item e) := by
  have hcounted := h.counted hqueue
  have hfilter := filter_position hitems (position_ne_of_nodup hplaced)
  rw [length_append] at hcounted
  refine ⟨h.config_eq, h.total_eq, ?_, .inl ?_, h.increasing, fun r hr => ?_⟩
  · exact .between (nodup_cons.1 hplaced).2 hfilter
  · simp only [skip, pending, hfilter, length_append]
    omega
  · exact ⟨Nat.le_trans (h.reports r hr).1 (by simp only [skip]; omega), (h.reports r hr).2⟩

/-- An item fails, and the pass is at an end. -/
theorem stop (hsync : config.isBatched = false) :
    Consistent config total ({ j with queue := [], current := none } : Job ν) := by
  have hnone : (([] : List (Graph ν × Nat)).map Prod.snd).Nodup := nodup_nil
  exact ⟨h.config_eq, h.total_eq, .between hnone rfl, .inr ⟨hsync, rfl, h.done_le⟩, h.increasing,
    h.reports⟩

/-- The first item of a consistent job finds the generation that it needs, and leaves a consistent job
if it succeeds. -/
theorem runItem (hqueue : j.queue = item :: queue) :
    item.Fits config j.current ∧
      (∃ items placed, queue = items ++ WorkItem.ofPlaced placed ∧
        (∀ x ∈ items, x.position = item.position) ∧
        (((item.graph, item.position) :: placed).map Prod.snd).Nodup) ∧
      ∀ j', { j with queue }.runItem item = .ok j' → Consistent config total j' := by
  have hsuccess {j' : Job ν} (hrun : { j with queue }.runItem item = .ok j')
      {current : Option (Generation ν)} {output : Output}
      (hperform : { j with queue }.perform item = .ok { j with queue, current, output })
      (hlaid : Laid config queue current) : Consistent config total j' := by
    rw [Job.runItem, hperform] at hrun
    cases hrun
    exact h.report hqueue hlaid output
  cases h.laid with
  | between hplaced hlaid =>
    -- between two graphs: the item starts the next one
    rename_i placed
    cases placed with
    | nil =>
      rw [hlaid] at hqueue
      cases hqueue
    | cons entry placed =>
      obtain ⟨graph, position⟩ := entry
      rw [hlaid, WorkItem.ofPlaced_cons, WorkItem.ofGraph_eq] at hqueue
      cases hqueue
      refine ⟨trivial, ⟨_, placed, rfl, fun x hx => WorkItem.position_of_mem_rest hx, hplaced⟩,
        fun j' hrun => ?_⟩
      rcases hstart : Generation.start graph j.config with e | g₀
      · simp [Job.runItem, perform, hstart] at hrun
      · rcases hprepare : g₀.run Emit.prepare with ⟨e | _, g⟩
        · simp [Job.runItem, perform, hstart, hprepare] at hrun
        · refine hsuccess hrun (by simp only [perform, hstart, hprepare]; rfl) ?_
          exact .within hplaced rfl rfl rfl (.first (h.config_eq ▸ hstart) hprepare)
  | within hplaced hlaid hentries hcurrent hg =>
    -- within a graph: the item is its next entry point, or ends it
    rename_i placed graph position done entries g
    cases entries with
    | nil =>
      rw [hlaid] at hqueue
      cases hqueue
      rw [append_nil] at hentries
      refine ⟨⟨g, hcurrent, hentries ▸ hg⟩, ⟨[], placed, rfl, by simp, hplaced⟩,
        fun j' hrun => ?_⟩
      rcases hfinish : g.finish (j.orders position) with e | artifact
      · simp [Job.runItem, perform, hcurrent, hfinish] at hrun
      · refine hsuccess hrun (by simp only [perform, hcurrent, hfinish]; rfl) ?_
        exact .between (nodup_cons.1 hplaced).2 rfl
    | cons e entries =>
      rw [hlaid] at hqueue
      cases hqueue
      refine ⟨⟨done, entries, g, hentries, hcurrent, hg⟩,
        ⟨_, placed, rfl, fun x hx => WorkItem.position_of_mem_rest hx, hplaced⟩, fun j' hrun => ?_⟩
      rcases hentry : g.run (Emit.entry e) with ⟨err | _, g'⟩
      · simp [Job.runItem, perform, hcurrent, hentry] at hrun
      · refine hsuccess hrun (by simp only [perform, hcurrent, hentry]; rfl) ?_
        exact .within hplaced rfl (hentries.trans (append_cons done e entries)) rfl
          (.entry hg hentry)

/-- A drain keeps the job consistent. It does not run more items than it may, and an error empties the
queue. -/
theorem drainItems (count ran : Nat) :
    Consistent config total (Job.drainItems count ran j).2 ∧
      (∀ n, (Job.drainItems count ran j).1 = .ok n → n ≤ ran + count) ∧
      ∀ e, (Job.drainItems count ran j).1 = .error e →
        config.isBatched = false ∧ (Job.drainItems count ran j).2.queue = [] := by
  induction count generalizing ran j with
  | zero => exact ⟨h, by rintro _ ⟨⟩; exact Nat.le_refl _, by rintro _ ⟨⟩⟩
  | succ count ih =>
    have hmore {j' : Job ν} (h' : Consistent config total j') := ih h' (ran + 1)
    simp only [Nat.add_assoc, Nat.add_comm 1] at hmore
    unfold Job.drainItems
    cases hqueue : j.queue with
    | nil => exact ⟨h, by rintro _ ⟨⟩; exact Nat.le_add_right _ _, by rintro _ ⟨⟩⟩
    | cons item queue =>
      obtain ⟨_, ⟨items, placed, rfl, hitems, hplaced⟩, hnext⟩ := h.runItem hqueue
      dsimp only
      split
      · rename_i j' hrun
        exact hmore (hnext j' hrun)
      · rename_i e hrun
        split
        · exact hmore (h.fail hitems hplaced hqueue e)
        · rename_i hsync
          rw [h.config_eq, Bool.not_eq_true] at hsync
          exact ⟨h.stop hsync, by rintro _ ⟨⟩, fun _ _ => ⟨hsync, rfl⟩⟩

end

theorem initial (config : Config) (graphs : List (Graph ν)) (orders : MapOrders) :
    Consistent config (WorkItem.ofGraphs graphs).length (Job.ofGraphs config graphs orders) where
  config_eq := rfl
  total_eq := rfl
  laid := .between (nodup_positions graphs) rfl
  count := .inl (Nat.zero_add _)
  increasing := List.Pairwise.nil
  reports _ hr := absurd hr not_mem_nil

end Consistent

/-! ## Drains -/

/-- The job after some drains, whatever they gave. -/
def drains : Nat → Job ν → Job ν
  | 0, j => j
  | n + 1, j => drains n j.drain.2

theorem drain_of_empty (h : j.queue = []) : j.drain = (.ok 0, j) := by
  rw [drain, pending, h, length_nil, Nat.min_zero, drainItems]

theorem drains_of_empty (h : j.queue = []) (n : Nat) : j.drains n = j := by
  induction n with
  | zero => rfl
  | succ n ih => rw [drains, drain_of_empty h, ih]

theorem Consistent.drains {config : Config} {total : Nat} (h : Consistent config total j) (n : Nat) :
    Consistent config total (j.drains n) := by
  induction n generalizing j with
  | zero => exact h
  | succ n ih => exact ih (h.drainItems _ 0).1

end Job

/-- The queue stays consistent over any sequence of drains. Whatever number of items the next drain has
run, the item after them finds the generation that was prepared for its own graph; and no drain runs
more items than the queue depth. Every item is counted as done or pending in a batched pass, and what
is reported grows up to the number of all items. After an error nothing is left to run. -/
theorem queue_stays_consistent (graphs : List (Graph ν)) (config : Config) (orders : MapOrders)
    (n : Nat) :
    let j := (Job.ofGraphs config graphs orders).drains n
    (∀ count item queue, (Job.drainItems count 0 j).2.queue = item :: queue →
      item.Fits config (Job.drainItems count 0 j).2.current) ∧
    (∃ count ≤ config.queueDepth, j.drain = Job.drainItems count 0 j ∧
      ∀ ran, j.drain.1 = .ok ran → ran ≤ count) ∧
    (config.isBatched = true → j.done + j.pending = (WorkItem.ofGraphs graphs).length) ∧
    (j.reports.map Report.done).Pairwise (· < ·) ∧
    (∀ r ∈ j.reports, r.done ≤ r.total ∧ r.total = (WorkItem.ofGraphs graphs).length) ∧
    ∀ e, j.drain.1 = .error e → config.isBatched = false ∧ j.drain.2.queue = [] ∧
      ∀ m, (j.drain.2.drains m).drain = (.ok 0, j.drain.2) := by
  intro j
  have hj : Job.Consistent config (WorkItem.ofGraphs graphs).length j :=
    (Job.Consistent.initial config graphs orders).drains n
  obtain ⟨_, hran, herror⟩ := hj.drainItems (min j.config.queueDepth j.pending) 0
  rw [Nat.zero_add] at hran
  refine ⟨fun count item queue hqueue => ((hj.drainItems count 0).1.runItem hqueue).1,
    ⟨_, ?_, rfl, hran⟩, fun hbatched => ?_, hj.increasing, fun r hr => ?_, fun e he => ?_⟩
  · rw [hj.config_eq]
    exact Nat.min_le_left _ _
  · obtain hcount | ⟨hsync, _⟩ := hj.count
    · exact hcount
    · rw [hsync] at hbatched
      cases hbatched
  · obtain ⟨hdone, htotal⟩ := hj.reports r hr
    exact ⟨htotal ▸ hdone.trans hj.done_le, htotal⟩
  · obtain ⟨hsync, hempty⟩ := herror e he
    refine ⟨hsync, hempty, fun m => ?_⟩
    rw [← Job.drain] at hempty
    rw [Job.drains_of_empty hempty, Job.drain_of_empty hempty]

end FlowClass
