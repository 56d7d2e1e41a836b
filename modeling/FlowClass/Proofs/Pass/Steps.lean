import FlowClass.Pass.Generate

/-!
# Steps of a job

A job takes one work item after the other (`Job.next`). A drain takes some steps, and so does a whole
pass, which takes as many as it needs to empty the queue. As an empty queue stays empty, a job has
one final state, however its steps are put together into drains: `generate_of_leads` and
`generate_of_fails` read the result of a pass off any sequence of steps that comes to its end.
-/

namespace FlowClass

open Job

namespace Job

variable {ν : Type} [NodeKind ν]

/-- The job after its next work item. If that ends the pass, the error and what was reported. -/
def next (j : Job ν) : Except (GenError × List Report) (Job ν) :=
  match j.queue with
  | [] => .ok j
  | item :: queue =>
    match { j with queue }.runItem item with
    | .ok j => .ok j
    | .error e =>
      if j.config.isBatched then .ok ({ j with queue, current := none }.skip item e)
      else .error (e, j.reports)

/-- The job after some work items. -/
def steps : Nat → Job ν → Except (GenError × List Report) (Job ν)
  | 0, j => .ok j
  | count + 1, j => j.next.bind (steps count)

/-- Steps of the first job lead to the second. -/
def Leads (j j' : Job ν) : Prop :=
  ∃ count, j.steps count = .ok j'

/-- Steps of the job lead to an error. -/
def Fails (j : Job ν) (failure : GenError × List Report) : Prop :=
  ∃ count, j.steps count = .error failure

/-- No work is left. -/
def Ended : Except (GenError × List Report) (Job ν) → Prop
  | .ok j => j.queue = []
  | .error _ => True

variable {j j' j'' : Job ν} {item : WorkItem ν} {queue : List (WorkItem ν)} {e : GenError}
  {failure : GenError × List Report}

/-! ## One step -/

theorem next_of_empty (h : j.queue = []) : j.next = .ok j := by
  rw [next, h]

theorem next_of_ok (hqueue : j.queue = item :: queue)
    (hrun : { j with queue }.runItem item = .ok j') : j.next = .ok j' := by
  rw [next, hqueue]
  dsimp only
  rw [hrun]

theorem next_of_error (hqueue : j.queue = item :: queue)
    (hrun : { j with queue }.runItem item = .error e) :
    j.next = if j.config.isBatched then .ok ({ j with queue, current := none }.skip item e)
      else .error (e, j.reports) := by
  rw [next, hqueue]
  dsimp only
  rw [hrun]

/-- A work item leaves the queue and the options of the job alone. -/
theorem perform_keeps (h : j.perform item = .ok j') :
    j'.queue = j.queue ∧ j'.config = j.config := by
  unfold perform at h
  split at h
  all_goals
    split at h
    · cases h
    · split at h <;> cases h
      exact ⟨rfl, rfl⟩

theorem runItem_keeps (h : j.runItem item = .ok j') :
    j'.queue = j.queue ∧ j'.config = j.config := by
  unfold runItem at h
  split at h
  · cases h
  · rename_i j₁ hperform
    have hkeeps := perform_keeps hperform
    cases h
    exact hkeeps

/-- A step takes at least the item that it is about from the queue. -/
theorem next_keeps (h : j.next = .ok j') :
    j'.queue.length ≤ j.queue.length - 1 ∧ j'.config = j.config := by
  cases hqueue : j.queue with
  | nil =>
    rw [next_of_empty hqueue] at h
    cases h
    exact ⟨by rw [hqueue]; exact Nat.le_refl _, rfl⟩
  | cons item queue =>
    rcases hrun : { j with queue }.runItem item with e | j₁
    · rw [next_of_error hqueue hrun] at h
      split at h <;> cases h
      exact ⟨List.length_filter_le _ _, rfl⟩
    · rw [next_of_ok hqueue hrun] at h
      cases h
      obtain ⟨hsame, hconfig⟩ := runItem_keeps hrun
      rw [hsame]
      exact ⟨Nat.le_refl _, hconfig⟩

/-- A batched pass goes on after every work item. -/
theorem exists_next_of_batched (h : j.config.isBatched = true) : ∃ j', j.next = .ok j' := by
  cases hqueue : j.queue with
  | nil => exact ⟨j, next_of_empty hqueue⟩
  | cons item queue =>
    rcases hrun : { j with queue }.runItem item with e | j₁
    · rw [next_of_error hqueue hrun, if_pos h]
      exact ⟨_, rfl⟩
    · exact ⟨j₁, next_of_ok hqueue hrun⟩

/-! ## Sequences of steps -/

theorem steps_succ_of_ok (h : j.next = .ok j') (count : Nat) :
    j.steps (count + 1) = j'.steps count := by
  rw [steps, h]
  rfl

theorem steps_succ_of_error (h : j.next = .error failure) (count : Nat) :
    j.steps (count + 1) = .error failure := by
  rw [steps, h]
  rfl

theorem steps_of_empty (h : j.queue = []) (count : Nat) : j.steps count = .ok j := by
  induction count with
  | zero => rfl
  | succ count ih => rw [steps_succ_of_ok (next_of_empty h), ih]

theorem steps_add (j : Job ν) (m n : Nat) : j.steps (m + n) = (j.steps m).bind (steps n) := by
  induction m generalizing j with
  | zero => rw [Nat.zero_add]; rfl
  | succ m ih =>
    rw [Nat.add_right_comm, steps, steps]
    rcases j.next with f | j₁
    · rfl
    · exact ih j₁

theorem steps_add_of_ok {m : Nat} (h : j.steps m = .ok j') (n : Nat) :
    j.steps (m + n) = j'.steps n := by
  rw [steps_add, h]
  rfl

/-- Each step takes an item off the queue. -/
theorem steps_keeps {count : Nat} (h : j.steps count = .ok j') :
    j'.queue.length ≤ j.queue.length - count ∧ j'.config = j.config := by
  induction count generalizing j with
  | zero =>
    cases h
    exact ⟨Nat.le_refl _, rfl⟩
  | succ count ih =>
    rcases hnext : j.next with e | j₁
    · rw [steps_succ_of_error hnext] at h
      cases h
    · rw [steps_succ_of_ok hnext] at h
      have hstep := next_keeps hnext
      have hrest := ih h
      exact ⟨by omega, hrest.2.trans hstep.2⟩

theorem exists_steps_of_batched (h : j.config.isBatched = true) (count : Nat) :
    ∃ j', j.steps count = .ok j' := by
  induction count generalizing j with
  | zero => exact ⟨j, rfl⟩
  | succ count ih =>
    obtain ⟨j₁, hnext⟩ := exists_next_of_batched h
    rw [steps_succ_of_ok hnext]
    exact ih ((next_keeps hnext).2 ▸ h)

theorem ended_steps {count : Nat} (hcount : j.pending ≤ count) : Ended (j.steps count) := by
  rcases h : j.steps count with f | j'
  · trivial
  · have hlength := (steps_keeps h).1
    have hpending : j.queue.length ≤ count := hcount
    exact List.eq_nil_of_length_eq_zero (by omega)

theorem steps_add_of_ended {m : Nat} (h : Ended (j.steps m)) (n : Nat) :
    j.steps (m + n) = j.steps m := by
  rw [steps_add]
  rcases hrun : j.steps m with f | j'
  · rfl
  · rw [hrun] at h
    exact steps_of_empty h n

/-- All sequences of steps that leave no work come to the same. -/
theorem steps_eq_of_ended {m n : Nat} {r : Except (GenError × List Report) (Job ν)}
    (h : j.steps m = r) (hended : Ended r) (hn : j.pending ≤ n) : j.steps n = r := by
  subst h
  rw [← steps_add_of_ended (ended_steps hn) m, Nat.add_comm, steps_add_of_ended hended]

/-! ## What steps lead to -/

namespace Leads

theorem refl (j : Job ν) : j.Leads j := ⟨0, rfl⟩

theorem trans (h : j.Leads j') (h' : j'.Leads j'') : j.Leads j'' := by
  obtain ⟨m, hm⟩ := h
  obtain ⟨n, hn⟩ := h'
  exact ⟨m + n, (steps_add_of_ok hm n).trans hn⟩

theorem step (h : j.next = .ok j') (h' : j'.Leads j'') : j.Leads j'' := by
  obtain ⟨n, hn⟩ := h'
  exact ⟨n + 1, (steps_succ_of_ok h n).trans hn⟩

theorem fails (h : j.Leads j') (h' : j'.Fails failure) : j.Fails failure := by
  obtain ⟨m, hm⟩ := h
  obtain ⟨n, hn⟩ := h'
  exact ⟨m + n, (steps_add_of_ok hm n).trans hn⟩

end Leads

theorem Fails.step (h : j.next = .ok j') (h' : j'.Fails failure) : j.Fails failure := by
  obtain ⟨n, hn⟩ := h'
  exact ⟨n + 1, (steps_succ_of_ok h n).trans hn⟩

/-! ## Drains -/

omit [NodeKind ν] in
/-- A drain ends as some steps do. -/
def EndsAs (run : Except GenError Nat × Job ν) : Except (GenError × List Report) (Job ν) → Prop
  | .ok j => ∃ count, run = (.ok count, j)
  | .error (e, reports) => ∃ j, run = (.error e, j) ∧ j.reports = reports

theorem drainItems_endsAs (count ran : Nat) (j : Job ν) :
    EndsAs (drainItems count ran j) (j.steps count) := by
  induction count generalizing j ran with
  | zero => exact ⟨ran, rfl⟩
  | succ count ih =>
    unfold drainItems
    cases hqueue : j.queue with
    | nil =>
      rw [steps_of_empty hqueue]
      exact ⟨ran, rfl⟩
    | cons item queue =>
      dsimp only
      rcases hrun : { j with queue }.runItem item with e | j₁
      · have hnext := next_of_error hqueue hrun
        rw [hrun]
        dsimp only
        split
        · rename_i hbatched
          rw [if_pos hbatched] at hnext
          rw [steps_succ_of_ok hnext]
          exact ih (ran + 1) _
        · rename_i hbatched
          rw [if_neg hbatched] at hnext
          rw [steps_succ_of_error hnext]
          exact ⟨_, rfl, rfl⟩
      · rw [steps_succ_of_ok (next_of_ok hqueue hrun), hrun]
        exact ih (ran + 1) j₁

omit [NodeKind ν] in
/-- A drain of a queue that is not empty runs an item. -/
theorem drain_pos (h : j.queue ≠ []) : 0 < min j.config.queueDepth j.pending := by
  have hpending : 0 < j.pending := List.length_pos_iff.2 h
  have hdepth : 0 < j.config.queueDepth := by
    unfold Config.queueDepth
    split
    · decide
    · omega
  omega

/-- Draining until the queue is empty takes all the steps there are. -/
theorem drainAll_endsAs {fuel : Nat} (hfuel : j.pending ≤ fuel) (ticks : Nat) :
    EndsAs (drainAll fuel ticks j) (j.steps j.pending) := by
  induction fuel generalizing j ticks with
  | zero =>
    have hpending : j.pending = 0 := by omega
    rw [hpending]
    exact ⟨ticks, rfl⟩
  | succ fuel ih =>
    unfold drainAll drain
    by_cases hqueue : j.queue = []
    · rw [steps_of_empty hqueue, if_pos (List.isEmpty_iff.2 hqueue)]
      exact ⟨ticks, rfl⟩
    · rw [if_neg fun hempty => hqueue (List.isEmpty_iff.1 hempty)]
      have hpos := drain_pos hqueue
      generalize min j.config.queueDepth j.pending = count at hpos ⊢
      have hdrain := drainItems_endsAs count 0 j
      rcases hrun : j.steps count with f | j₁ <;> rw [hrun] at hdrain
      · obtain ⟨j₂, hdrain, hreports⟩ := hdrain
        rw [hdrain, steps_eq_of_ended hrun trivial (Nat.le_refl _)]
        exact ⟨j₂, rfl, hreports⟩
      · obtain ⟨ran, hdrain⟩ := hdrain
        have hshorter : j₁.pending ≤ j.pending - count := (steps_keeps hrun).1
        -- the steps that are left end as all of them do
        rw [hdrain, steps_eq_of_ended (steps_add_of_ok hrun j₁.pending) (ended_steps (Nat.le_refl _))
          (Nat.le_refl _)]
        exact ih (by omega) _

end Job

/-! ## Passes -/

variable {ν : Type} [NodeKind ν] {graphs : List (Graph ν)} {config : Config} {orders : MapOrders}
  {j : Job ν}

/-- A pass gives what any sequence of steps gives that empties the queue. -/
theorem generate_of_leads (h : (ofGraphs config graphs orders).Leads j) (hempty : j.queue = []) :
    generate graphs config orders = (.ok j.output, j.reports) := by
  obtain ⟨count, hcount⟩ := h
  have hwait := drainAll_endsAs (Nat.le_refl (ofGraphs config graphs orders).pending) 0
  rw [steps_eq_of_ended hcount hempty (Nat.le_refl _)] at hwait
  obtain ⟨ticks, hwait⟩ := hwait
  unfold generate run wait
  rw [hwait]
  dsimp only [finish]
  rw [if_pos (List.isEmpty_iff.2 hempty)]

theorem generate_of_fails {e : GenError} {reports : List Report}
    (h : (ofGraphs config graphs orders).Fails (e, reports)) :
    generate graphs config orders = (.error e, reports) := by
  obtain ⟨count, hcount⟩ := h
  have hwait := drainAll_endsAs (Nat.le_refl (ofGraphs config graphs orders).pending) 0
  rw [steps_eq_of_ended hcount trivial (Nat.le_refl _)] at hwait
  obtain ⟨_, hwait, rfl⟩ := hwait
  unfold generate run wait
  rw [hwait]

end FlowClass
