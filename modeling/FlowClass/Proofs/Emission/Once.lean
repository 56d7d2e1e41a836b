import FlowClass.Proofs.Emission.Preparation
import Mathlib.Algebra.Order.BigOperators.Group.List
import Mathlib.Algebra.Order.Ring.Nat

/-!
# Every node is written once

A node with a body of its own, as a unit or as a shared node, is written when that body is opened,
and a body is opened once. Any other node is written as often as something leads to it, and only one
port or entry point does. So in a graph without lambdas no flow node is written twice
(`Records.bounded`), and a pass that gives up nothing writes all that its entry points lead to
(`Records.complete`).
-/

namespace FlowClass

open List StateUnits

variable {m : Multiset NodeId} {y id : NodeId} {m' : Multiset NodeId}

/-- The nodes whose statement was emitted, latest first. -/
def statements (journal : List Event) : List NodeId :=
  journal.filterMap fun e =>
    match e with
    | .statement node _ => some node
    | _ => none

theorem mem_statements_iff {journal : List Event} :
    id ∈ statements journal ↔ ∃ place, .statement id place ∈ journal := by
  unfold statements
  rw [mem_filterMap]
  constructor
  · rintro ⟨e, he, hid⟩
    split at hid
    · rename_i node place
      cases hid
      exact ⟨place, he⟩
    · cases hid
  · rintro ⟨place, hplace⟩
    exact ⟨_, hplace, rfl⟩

theorem statements_of_incidental {e : Event} (h : e.isIncidental = true) (journal : List Event) :
    statements (e :: journal) = statements journal := by
  cases e <;> first | rfl | cases h

/-- A sum over a list is bounded by the sum over the allowed members, when the members that count
are there once. -/
theorem sum_map_le_of_once {f : NodeId → Nat} {xs ids : List NodeId}
    (h : ∀ p ∈ xs, f p ≠ 0 → p ∈ ids ∧ xs.count p ≤ 1) : (xs.map f).sum ≤ (ids.map f).sum := by
  have hfilter : (xs.map f).sum = ((xs.filter fun p => f p ≠ 0).map f).sum := by
    clear h
    induction xs with
    | nil => rfl
    | cons p xs ih => by_cases hp : f p = 0 <;> simp [hp, ih]
  have hnodup : (xs.filter fun p => f p ≠ 0).Nodup := by
    refine nodup_iff_count_le_one.2 fun p => ?_
    by_cases hp : p ∈ xs.filter fun p => f p ≠ 0
    · obtain ⟨hmem, hpos⟩ := mem_filter.1 hp
      exact (filter_sublist.count_le p).trans (h p hmem (by simpa using hpos)).2
    · exact (count_eq_zero_of_not_mem hp).trans_le (Nat.zero_le 1)
  have hsubset : (xs.filter fun p => f p ≠ 0) ⊆ ids := fun p hp => by
    obtain ⟨hmem, hpos⟩ := mem_filter.1 hp
    exact (h p hmem (by simpa using hpos)).1
  obtain ⟨ys, hperm, hsub⟩ := hnodup.subperm hsubset
  calc (xs.map f).sum = (ys.map f).sum := by rw [hfilter, (hperm.map f).sum_nat]
    _ ≤ (ids.map f).sum := (hsub.map f).sum_le_sum fun _ _ => Nat.zero_le _

namespace Records

section Bound

variable (env : Env Node) (state : List NodeId) (y : NodeId)

/-- The node has a body of its own. -/
def ownsBody : Bool :=
  y ∈ state || env.table.isShared y

/-- Whether the body of a node was opened, as a number. -/
def opened (l : Ledger) : Nat :=
  if y ∈ state then (l.units.begun y).toNat
  else if env.table.isShared y then (l.shared.lookup y).isSome.toNat
  else 0

theorem opened_le (l : Ledger) : opened env state y l ≤ 1 := by
  unfold opened
  split
  · exact Bool.toNat_le _
  · split
    · exact Bool.toNat_le _
    · exact Nat.zero_le 1

/-- How often the node was written is bounded by what leads to it: nothing but the opening of its
own body, or the targets `m` and the statements written on the way. `extra` is granted besides. -/
def Bounded (extra : Nat) (m : Multiset NodeId) (l l' : Ledger) : Prop :=
  ∃ new, statements l'.journal = new ++ statements l.journal ∧
    new.count y + opened env state y l ≤ opened env state y l' + extra +
      if ownsBody env state y then 0
      else m.count y + (new.map fun p => (env.graph.follows p).count y).sum

variable {env state y} {l l' l'' : Ledger}

/-- Nothing was written. -/
theorem bounded_idle (extra : Nat) (m : Multiset NodeId)
    (hjournal : statements l'.journal = statements l.journal)
    (hopened : opened env state y l ≤ opened env state y l') :
    Bounded env state y extra m l l' := by
  refine ⟨[], by simpa using hjournal, ?_⟩
  simp only [count_nil]
  omega

theorem Bounded.seq (h : Bounded env state y 0 m l l') (h' : Bounded env state y 0 m' l' l'') :
    Bounded env state y 0 (m + m') l l'' := by
  obtain ⟨new, hnew, hcount⟩ := h
  obtain ⟨new', hnew', hcount'⟩ := h'
  refine ⟨new' ++ new, by rw [hnew', hnew, append_assoc], ?_⟩
  rw [count_append, map_append, sum_append, Multiset.count_add]
  cases hown : ownsBody env state y with
  | false =>
    simp only [hown, Bool.false_eq_true, if_false] at hcount hcount' ⊢
    omega
  | true =>
    simp only [hown, if_true] at hcount hcount' ⊢
    omega

theorem Bounded.mono {extra : Nat} (h : Bounded env state y extra m l l') (hle : m ≤ m') :
    Bounded env state y extra m' l l' := by
  obtain ⟨new, hnew, hcount⟩ := h
  refine ⟨new, hnew, hcount.trans ?_⟩
  have := Multiset.count_le_of_le y hle
  split <;> omega

/-- The bound for a task: a node that is written now is granted once. -/
def BoundedTask (env : Env Node) (state : List NodeId) (y : NodeId) : Ledger.Task → Ledger →
    Ledger → Prop
  | .into m => Bounded env state y 0 m
  | .write id => Bounded env state y (if id = y then 1 else 0) 0

theorem opened_congr (hunits : l'.units.begun y = l.units.begun y)
    (hshared : l'.shared.lookup y = l.shared.lookup y) :
    opened env state y l' = opened env state y l := by
  simp only [opened, hunits, hshared]

/-- Writing a node adds it to the statements, and what follows it to what is led into. -/
theorem bounded_write (place : Place)
    (h : Bounded env state y 0 (env.graph.follows id) (l.note (.statement id place)) l') :
    Bounded env state y (if id = y then 1 else 0) 0 l l' := by
  obtain ⟨new, hnew, hcount⟩ := h
  refine ⟨new ++ [id], ?_, ?_⟩
  · rw [hnew, append_assoc]
    rfl
  · have hopened : opened env state y (l.note (.statement id place)) = opened env state y l := rfl
    rw [count_append, map_append, sum_append, count_singleton]
    simp only [map_cons, sum_cons, beq_iff_eq]
    cases hown : ownsBody env state y with
    | false =>
      simp only [hown, Bool.false_eq_true, if_false] at hcount ⊢
      omega
    | true =>
      simp only [hown, if_true] at hcount ⊢
      omega

/-- The body of a node is written when it is opened, and nothing else is opened with it. -/
theorem Bounded.opening {l₁ l₂ : Ledger}
    (h : Bounded env state y (if id = y then 1 else 0) 0 l₁ l₂) (hown : ownsBody env state id = true)
    (hbefore : opened env state id l = 0) (hinside : opened env state id l₁ = 1)
    (hsame : id ≠ y → opened env state y l₁ = opened env state y l)
    (hstart : statements l₁.journal = statements l.journal)
    (hend : statements l'.journal = statements l₂.journal)
    (hafter : opened env state y l' = opened env state y l₂) : Bounded env state y 0 m l l' := by
  obtain ⟨new, hnew, hcount⟩ := h
  refine ⟨new, by rw [hend, hnew, hstart], ?_⟩
  by_cases hid : id = y
  · subst hid
    simp only [hown, if_true] at hcount ⊢
    omega
  · rw [hsame hid, if_neg hid, Multiset.count_zero] at hcount
    refine hcount.trans ?_
    split <;> omega

/-- A unit is written when it is begun. -/
theorem bounded_request {table : SymbolTable} {body : BodyId} {units : StateUnits} (text : String)
    (hstate : id ∈ state) (hbegin : (l.units.register table id).2.1.begin id = some (body, units))
    (hgrows : units.Grows l'.units) (h : Bounded env state y (if id = y then 1 else 0) 0
      { l with units, journal := .slot id :: l.journal } l') :
    Bounded env state y 0 0 l { l' with units := l'.units.finish id text } := by
  have hbegun : units.begun id = true := by
    rw [begun_begin hbegin, if_pos rfl]
  refine h.opening (by simp [ownsBody, hstate]) ?_ (by simp [opened, hstate, hbegun])
    (fun hid => opened_congr ?_ rfl) rfl rfl
    (opened_congr (begun_finish _ _ _ _ (hgrows.begun hbegun)) rfl)
  · have hnot := not_begun_of_begin hbegin
    rw [begun_register] at hnot
    simp [opened, hstate, hnot]
  · rw [begun_begin hbegin, if_neg (Ne.symm hid), begun_register]

/-- A shared node is written when its method is entered. -/
theorem bounded_share {method : String × Ty} (hstate : id ∉ state)
    (hshared : env.table.isShared id = true) (hnew : l.shared.lookup id = none)
    (h : Bounded env state y (if id = y then 1 else 0) 0
      { l with shared := (id, method) :: l.shared } l') : Bounded env state y 0 {id} l l' := by
  refine h.opening (by simp [ownsBody, hshared]) (by simp [opened, hstate, hnew])
    (by simp [opened, hstate, hshared]) (fun hid => opened_congr rfl ?_) rfl rfl rfl
  rw [lookup_cons_of_ne (Ne.symm hid)]

/-- Nothing is written more often than something leads to it. -/
theorem bounded {c : Bool} {t : Ledger.Task}
    (hlambda : ∀ id n, env.graph.get? id = some n → n.lambdaBody = none)
    (h : Records env state c t l l') : BoundedTask env state y t l l' := by
  induction h with
  | incidental l e he => exact bounded_idle _ _ (statements_of_incidental he _) le_rfl
  | seq hgo _ _ ih ih' => exact ih.seq ih'
  | stop _ hle ih => exact Bounded.mono ih hle
  | unwritten _ ih =>
    obtain ⟨new, hnew, hcount⟩ := ih
    exact ⟨new, hnew, by omega⟩
  | refuse l place hn hvalue => exact bounded_write place (bounded_idle _ _ rfl le_rfl)
  | write place hn hflow _ ih =>
    refine bounded_write place ?_
    rw [Graph.follows_of_some hn]
    exact ih
  | @inPlace c id l l' hstate hshared _ ih =>
    obtain ⟨new, hnew, hcount⟩ := ih
    refine ⟨new, hnew, hcount.trans ?_⟩
    rw [Multiset.count_singleton, Multiset.count_zero]
    by_cases hid : id = y
    · subst hid
      have hown : ownsBody env state id = false := by simp [ownsBody, hstate, hshared]
      simp only [hown, Bool.false_eq_true, if_false]
      omega
    · simp only [hid, Ne.symm hid, if_false]
      omega
  | lambda hn hbody _ ih => exact absurd hbody (by simp [hlambda _ _ hn])
  | request text hstate hbegin hwrite ih => exact bounded_request text hstate hbegin hwrite.grows.units ih
  | @reference id l table hstate hbegin =>
    have hsame : ((l.units.register table id).2.1.noteReference id).begun y = l.units.begun y := by
      rw [begun_noteReference, begun_register]
    exact bounded_idle _ _ rfl (le_of_eq (opened_congr hsame.symm rfl))
  | unit hstate hbegun _ ih => exact Bounded.mono ih (Multiset.zero_le _)
  | share name type hstate hshared hnew _ ih => exact bounded_share hstate hshared hnew ih
  | _ => exact bounded_idle _ _ rfl le_rfl

end Bound

/-! ## Where statements come from -/

section Known

variable {env : Env Node} {state : List NodeId} {c : Bool} {t : Ledger.Task} {l l' : Ledger}

theorem statements_subset (h : Records env state c t l l') {p : NodeId}
    (hp : p ∈ statements l.journal) : p ∈ statements l'.journal :=
  (h.grows.journal.filterMap _).subset hp

/-- What a task leads to is in the table, if it exists. -/
def KnownTask (env : Env Node) : Ledger.Task → Prop
  | .into m => ∀ id ∈ m, env.graph.contains id = true → id ∈ env.table.ids
  | .write id => env.graph.contains id = true → id ∈ env.table.ids

/-- Only nodes of the table are written. -/
theorem known (hdescribes : env.table.Describes env.graph)
    (hlambda : ∀ id n, env.graph.get? id = some n → n.lambdaBody = none)
    (hstates : ∀ id ∈ state, id ∈ env.table.ids) (h : Records env state c t l l')
    (ht : KnownTask env t) :
    ∀ p ∈ statements l'.journal, p ∈ statements l.journal ∨ p ∈ env.table.ids := by
  induction h with
  | incidental l e he =>
    intro p hp
    rw [Ledger.note, statements_of_incidental he] at hp
    exact .inl hp
  | seq hgo _ _ ih ih' =>
    intro p hp
    rcases ih' (fun id hid => ht id (Multiset.mem_add.2 (.inr hid))) p hp with hp | hp
    · exact ih (fun id hid => ht id (Multiset.mem_add.2 (.inl hid))) p hp
    · exact .inr hp
  | stop _ hle ih => exact ih fun id hid => ht id (Multiset.mem_of_le hle hid)
  | unwritten _ ih
  | unit hstate hbegun _ ih => exact ih fun id hid => absurd hid (Multiset.notMem_zero id)
  | @refuse id n l place hn hvalue =>
    intro p hp
    rcases mem_cons.1 hp with rfl | hp
    · exact .inr (ht (by simp [Graph.contains, hn]))
    · exact .inl hp
  | @write c id n l l' place hn hflow _ ih =>
    have hid := ht (by simp [Graph.contains, hn])
    intro p hp
    have htargets : KnownTask env (.into (leads n.branches + leads [NodeShape.next n])) :=
      fun y hy hexists => hdescribes.follows_mem hid
        (by rw [Graph.follows_of_some hn]; exact hy) hexists
    rcases ih htargets p hp with hp | hp
    · rcases mem_cons.1 hp with rfl | hp
      · exact .inr hid
      · exact .inl hp
    · exact .inr hp
  | inPlace hstate hshared _ ih
  | share name type hstate hshared hnew _ ih => exact ih (ht _ (Multiset.mem_singleton_self _))
  | lambda hn hbody _ ih => exact absurd hbody (by simp [hlambda _ _ hn])
  | request text hstate hbegin _ ih => exact ih fun _ => hstates _ hstate
  | _ => exact fun p hp => .inl hp

end Known

/-! ## At most once -/

section AtMostOnce

variable {env : Env Node} {c : Bool} {m : Multiset NodeId} {l : Ledger}

/-- The node is a value. -/
def isValue (env : Env Node) (id : NodeId) : Bool :=
  (env.graph.get? id).any fun n => !n.isFlow

/-- A synchronous emission ends with the first value node it is led into. -/
theorem values_le {state : List NodeId} {t : Ledger.Task} {l' : Ledger}
    (hsync : env.config.isBatched = false) (h : Records env state c t l l') :
    (statements l'.journal).countP (isValue env) ≤
      (statements l.journal).countP (isValue env) + if c then 0 else 1 := by
  induction h with
  | incidental l e he =>
    rw [Ledger.note, statements_of_incidental he]
    exact Nat.le_add_right _ _
  | @seq c c' _ _ l l' l'' hgo _ _ ih ih' =>
    obtain rfl : c = true := hgo.resolve_right (by simp [hsync])
    rw [if_pos rfl] at ih
    rw [Bool.true_and]
    omega
  | @stop c _ _ _ _ _ _ ih | @unwritten c _ _ _ _ ih => exact ih.trans (by cases c <;> simp)
  | @refuse id n l place hn hvalue =>
    change (id :: statements l.journal).countP _ ≤ _
    rw [countP_cons]
    split <;> simp
  | @write c id n l l' place hn hflow _ ih =>
    have hisFlow : n.isFlow = true := hflow.resolve_right (by simp [hsync])
    have hid : ¬ isValue env id = true := by simp [isValue, hn, hisFlow]
    change _ ≤ (id :: statements l.journal).countP _ + _ at ih
    rwa [countP_cons_of_neg hid] at ih
  | inPlace hstate hshared _ ih => exact ih
  | lambda hn hbody _ ih => exact ih
  | request text hstate hbegin _ ih => exact ih
  | unit hstate hbegun _ ih => exact ih
  | share name type hstate hshared hnew _ ih => exact ih
  | _ => exact Nat.le_add_right _ _

variable (hdescribes : env.table.Describes env.graph)
  (hlambda : ∀ id n, env.graph.get? id = some n → n.lambdaBody = none)
  (h : Records env env.table.stateNodes c (.into m) ⟨{}, [], []⟩ l) (hm : KnownTask env (.into m))
  (hentries : ∀ y ∈ env.table.ids, m.count y ≤ (env.table.entriesAt y).length) {y : NodeId}
include hlambda h

/-- A node with a body of its own is written there alone. -/
theorem count_le_of_ownsBody (hown : ownsBody env env.table.stateNodes y = true) :
    (statements l.journal).count y ≤ 1 := by
  obtain ⟨new, hnew, hcount⟩ := h.bounded (y := y) hlambda
  have hle := opened_le env env.table.stateNodes y l
  rw [hown, if_pos rfl] at hcount
  rw [hnew]
  simp only [statements, filterMap_nil, append_nil]
  omega

/-- Any other node is written as often as the ports of written nodes lead to it. -/
theorem count_le_targets (hown : ownsBody env env.table.stateNodes y = false) :
    (statements l.journal).count y ≤
      m.count y + ((statements l.journal).map fun p => (env.graph.follows p).count y).sum := by
  obtain ⟨new, hnew, hcount⟩ := h.bounded (y := y) hlambda
  have hopened : opened env env.table.stateNodes y l = 0 := by
    simp only [ownsBody, Bool.or_eq_false_iff, decide_eq_false_iff_not] at hown
    simp [opened, hown.1, hown.2]
  have hnil : statements (⟨{}, [], []⟩ : Ledger).journal = [] := rfl
  rw [hown, if_neg (by simp)] at hcount
  rw [hnil, append_nil] at hnew
  rw [hnew]
  omega

include hdescribes hm

theorem mem_ids {p : NodeId} (hp : p ∈ statements l.journal) : p ∈ env.table.ids := by
  have hstates : ∀ id ∈ env.table.stateNodes, id ∈ env.table.ids := fun id hid =>
    (Connectivity.mem_stateNodes.1 hid).1
  exact (h.known hdescribes hlambda hstates hm p hp).resolve_left not_mem_nil

/-- The ports that lead to a node, counted over all nodes, bound how often it is written, when the
nodes with such a port are written once. -/
theorem count_le_sources (hown : ownsBody env env.table.stateNodes y = false)
    (hsources : ∀ p ∈ env.table.ids, y ∈ env.graph.follows p →
      (statements l.journal).count p ≤ 1) :
    (statements l.journal).count y ≤
      m.count y + (env.table.ids.map fun p => (env.graph.follows p).count y).sum := by
  refine (h.count_le_targets hlambda hown).trans (Nat.add_le_add_left ?_ _)
  refine sum_map_le_of_once fun p hp hpos => ?_
  have hid := h.mem_ids hdescribes hlambda hm hp
  exact ⟨hid, hsources p hid (Multiset.count_pos.1 (Nat.pos_of_ne_zero hpos))⟩

theorem count_eq_zero (hy : y ∉ env.table.ids) : (statements l.journal).count y = 0 :=
  count_eq_zero_of_not_mem fun hmem => hy (h.mem_ids hdescribes hlambda hm hmem)

include hentries

/-- A flow node is written once: where it has no body of its own, one port or entry point leads to
it, and the node of that port comes before it. -/
theorem count_flow_le (hflow : env.table.isFlowNode y = true) :
    (statements l.journal).count y ≤ 1 := by
  -- the node of a port stands higher than what the port leads to, and no height is above all nodes
  induction hd : env.table.ids.length - env.table.height y using Nat.strong_induction_on
    generalizing y with
  | _ d ih =>
    cases hown : ownsBody env env.table.stateNodes y with
    | true => exact h.count_le_of_ownsBody hlambda hown
    | false =>
      obtain ⟨hy, n, hn, _⟩ := hdescribes.isFlowNode_iff.1 hflow
      have hexists : env.graph.contains y = true := by simp [Graph.contains, hn]
      obtain ⟨hstate, hshared⟩ : y ∉ env.table.stateNodes ∧ env.table.isShared y = false := by
        simpa only [ownsBody, Bool.or_eq_false_iff, decide_eq_false_iff_not] using hown
      have hports : ∀ p ∈ env.table.ids,
          (env.graph.follows p).count y ≤ (env.graph.flowTargets p).count y := fun p hp =>
        hdescribes.count_follows_le_flow hp hflow hstate
      have hcount := h.count_le_sources hdescribes hlambda hm hown fun p hp hfollows => by
        have hnext : y ∈ env.table.flowNext p := by
          have hpos := (Multiset.count_pos.2 hfollows).trans_le (hports p hp)
          exact hdescribes.mem_flowNext.2 ⟨hp, count_pos_iff.1 hpos, hexists⟩
        by_cases hp' : p ∈ env.table.stateNodes
        · exact h.count_le_of_ownsBody hlambda (by simp [ownsBody, hp'])
        · have hlt := Connectivity.height_lt hdescribes hp' hnext
          have hle := env.table.height_le p
          exact ih _ (by omega) (Connectivity.isFlow_of_flowNext hdescribes hnext) rfl
      have hsum := sum_le_sum hports
      rw [← hdescribes.flowInEdges_eq hexists] at hsum
      have hentry := hentries y hy
      simp only [Connectivity.isShared, decide_eq_false_iff_not] at hshared
      omega

/-- A node without a body of its own is written at most as often as links and entry points lead to
it. -/
theorem count_le_links (hy : y ∈ env.table.ids)
    (hown : ownsBody env env.table.stateNodes y = false) :
    (statements l.journal).count y ≤ env.table.flowInEdges y + (env.table.entriesAt y).length +
      env.table.childInEdges y := by
  obtain ⟨n, hn⟩ := hdescribes.exists_node hy
  have hexists : env.graph.contains y = true := by simp [Graph.contains, hn]
  have hcount := h.count_le_sources hdescribes hlambda hm hown fun p hp hfollows =>
    h.count_flow_le hdescribes hlambda hm hentries (hdescribes.isFlow_of_follows hp hfollows)
  have hsum := sum_le_sum (l := env.table.ids) fun p _ => env.graph.count_follows_le p y
  rw [sum_map_add, ← hdescribes.flowInEdges_eq hexists,
    ← hdescribes.childInEdges_eq hexists] at hsum
  have hentry := hentries y hy
  omega

theorem count_le_max (y : NodeId) :
    (statements l.journal).count y ≤ max 1 (env.table.flowInEdges y +
      (env.table.entriesAt y).length + env.table.childInEdges y) := by
  by_cases hy : y ∈ env.table.ids
  · cases hown : ownsBody env env.table.stateNodes y with
    | true => exact le_max_of_le_left (h.count_le_of_ownsBody hlambda hown)
    | false =>
      exact le_max_of_le_right (h.count_le_links hdescribes hlambda hm hentries hy hown)
  · rw [h.count_eq_zero hdescribes hlambda hm hy]
    exact Nat.zero_le _

/-- A synchronous emission writes no node twice. -/
theorem count_sync_le (hsync : env.config.isBatched = false) (y : NodeId) :
    (statements l.journal).count y ≤ 1 := by
  by_cases hy : y ∈ env.table.ids
  · by_cases hflow : env.table.isFlowNode y = true
    · exact h.count_flow_le hdescribes hlambda hm hentries hflow
    · obtain ⟨n, hn⟩ := hdescribes.exists_node hy
      have hvalue : isValue env y = true := by
        have hnot : ¬ n.isFlow = true := fun hisFlow =>
          hflow (hdescribes.isFlowNode_iff.2 ⟨hy, n, hn, hisFlow⟩)
        simp [isValue, hn, hnot]
      calc (statements l.journal).count y ≤ (statements l.journal).countP (isValue env) :=
            countP_mono_left fun p _ hp => beq_iff_eq.1 hp ▸ hvalue
        _ ≤ 0 + if c then 0 else 1 := h.values_le hsync
        _ ≤ 1 := by split <;> simp
  · rw [h.count_eq_zero hdescribes hlambda hm hy]
    exact Nat.zero_le 1

end AtMostOnce

/-! ## At least once -/

section AtLeastOnce

variable {env : Env Node} {state : List NodeId} {c : Bool} {t : Ledger.Task} {l l' : Ledger}

/-- The body of the node was opened. -/
def IsOpen (state : List NodeId) (l : Ledger) (y : NodeId) : Prop :=
  (y ∈ state ∧ l.units.begun y = true) ∨ (l.shared.lookup y).isSome = true

/-- The node is written, or will be when the open bodies are done. -/
def Reached (state : List NodeId) (l : Ledger) (y : NodeId) : Prop :=
  y ∈ statements l.journal ∨ IsOpen state l y

theorem reached_mono (h : Records env state c t l l') (hy : Reached state l y) :
    Reached state l' y := by
  rcases hy with hy | ⟨hstate, hbegun⟩ | hy
  · exact .inl (h.statements_subset hy)
  · exact .inr (.inl ⟨hstate, h.grows.units.begun hbegun⟩)
  · exact .inr (.inr (h.grows.shared.lookup_isSome hy))

/-- What a task was to come to, it has come to. -/
def Arrives (env : Env Node) (state : List NodeId) (l' : Ledger) : Ledger.Task → Prop
  | .into m => ∀ y ∈ m, env.graph.contains y = true → Reached state l' y
  | .write id => id ∈ statements l'.journal

/-- A record that gives up nothing: bodies that were opened are written, and written nodes are
followed. -/
structure Completes (env : Env Node) (state : List NodeId) (t : Ledger.Task) (l l' : Ledger) :
    Prop where
  arrives : Arrives env state l' t
  opened : ∀ y, IsOpen state l' y → IsOpen state l y ∨ y ∈ statements l'.journal
  followed : ∀ p ∈ statements l'.journal, p ∈ statements l.journal ∨
    ∀ y ∈ env.graph.follows p, env.graph.contains y = true → Reached state l' y

theorem completes_idle (harrives : Arrives env state l' t)
    (hjournal : statements l'.journal = statements l.journal)
    (hopen : ∀ y, IsOpen state l' y → IsOpen state l y) : Completes env state t l l' where
  arrives := harrives
  opened y hy := .inl (hopen y hy)
  followed _ hp := .inl (hjournal ▸ hp)

theorem Completes.seq {c' : Bool} {l l' l'' : Ledger} (h : Completes env state (.into m) l l')
    (h' : Completes env state (.into m') l' l'') (hrec : Records env state c' (.into m') l' l'') :
    Completes env state (.into (m + m')) l l'' where
  arrives y hy hexists := by
    rcases Multiset.mem_add.1 hy with hy | hy
    · exact hrec.reached_mono (h.arrives y hy hexists)
    · exact h'.arrives y hy hexists
  opened y hy := by
    rcases h'.opened y hy with hy | hy
    · exact (h.opened y hy).imp_right hrec.statements_subset
    · exact .inr hy
  followed p hp := by
    rcases h'.followed p hp with hp | hp
    · exact (h.followed p hp).imp_right fun hall y hy hexists =>
        hrec.reached_mono (hall y hy hexists)
    · exact .inr hp

/-- The body of a node is written when it was not open before. -/
theorem Completes.body {l₁ l₂ : Ledger} (h : Completes env state (.write id) l₁ l₂)
    (hm : ∀ y ∈ m, y = id) (hstart : statements l₁.journal = statements l.journal)
    (hbefore : ∀ y, IsOpen state l₁ y → IsOpen state l y ∨ y = id)
    (hend : statements l'.journal = statements l₂.journal)
    (hafter : ∀ y, IsOpen state l' y ↔ IsOpen state l₂ y) : Completes env state (.into m) l l' where
  arrives y hy _ := by
    rw [hm y hy]
    exact .inl (hend ▸ h.arrives)
  opened y hy := by
    rw [hend]
    rcases h.opened y ((hafter y).1 hy) with hy | hy
    · refine (hbefore y hy).imp_right fun heq => ?_
      rw [heq]
      exact h.arrives
    · exact .inr hy
  followed p hp := by
    rw [hend] at hp
    rw [← hstart]
    refine (h.followed p hp).imp_right fun hall y hy hexists => ?_
    exact (hall y hy hexists).imp (fun hy => hend ▸ hy) (hafter y).2

/-- Where nothing is given up, everything that is led into is written. -/
theorem complete (h : Records env state c t l l') (hc : c = true) : Completes env state t l l' := by
  have hnone {p : NodeId → Prop} (y : NodeId) (hy : y ∈ (0 : Multiset NodeId)) : p y :=
    absurd hy (Multiset.notMem_zero y)
  induction h with
  | nothing l | start place hget hsettled =>
    exact completes_idle hnone rfl fun _ hy => hy
  | incidental l e he =>
    exact completes_idle hnone (statements_of_incidental he _) fun _ hy => hy
  | seq hgo _ hrec ih ih' =>
    obtain ⟨hc, hc'⟩ := Bool.and_eq_true_iff.1 hc
    exact (ih hc).seq (ih' hc') hrec
  -- in these three something is given up
  | stop _ hle ih => cases hc
  | unwritten _ ih => cases hc
  | refuse l place hn hvalue => cases hc
  | absent l hnone =>
    refine completes_idle (fun y hy hexists => ?_) rfl fun _ hy => hy
    rw [Multiset.mem_singleton.1 hy] at hexists
    simp [Graph.contains, hnone] at hexists
  | @write c id n l l' place hn hflow hrec ih =>
    -- what follows the node is what its own record leads into
    have hwritten := hrec.statements_subset (mem_cons_self (a := id))
    refine ⟨hwritten, (ih hc).opened, fun p hp => ?_⟩
    rcases (ih hc).followed p hp with hp | hp
    · rcases mem_cons.1 hp with rfl | hp
      · right
        rw [Graph.follows_of_some hn]
        exact (ih hc).arrives
      · exact .inl hp
    · exact .inr hp
  | inPlace hstate hshared _ ih =>
    exact (ih hc).body (fun y hy => Multiset.mem_singleton.1 hy) rfl (fun _ hy => .inl hy) rfl
      fun _ => Iff.rfl
  | lambda hn hbody _ ih =>
    exact ⟨hnone, (ih hc).opened, (ih hc).followed⟩
  | @request c id l l' table body units text hstate hbegin hrec ih =>
    have hbegun : l'.units.begun id = true :=
      hrec.grows.units.begun (by rw [begun_begin hbegin, if_pos rfl])
    refine (ih hc).body hnone rfl ?_ rfl ?_
    -- besides the unit itself, only what was open before is open now
    · rintro y (⟨hy, hopen⟩ | hopen)
      · rw [begun_begin hbegin] at hopen
        split at hopen
        · exact .inr ‹y = id›
        · rw [begun_register] at hopen
          exact .inl (.inl ⟨hy, hopen⟩)
      · exact .inl (.inr hopen)
    · intro y
      simp only [IsOpen, begun_finish _ _ _ _ hbegun]
  | reference hstate hbegin =>
    refine completes_idle hnone rfl fun y hy => ?_
    simpa only [IsOpen, begun_noteReference, begun_register] using hy
  | unit hstate hbegun _ ih =>
    refine ⟨fun y hy _ => ?_, (ih hc).opened, (ih hc).followed⟩
    rw [Multiset.mem_singleton.1 hy]
    exact .inr (.inl ⟨hstate, hbegun⟩)
  | share name type hstate hshared hnew _ ih =>
    refine (ih hc).body (fun y hy => Multiset.mem_singleton.1 hy) rfl ?_ rfl fun _ => Iff.rfl
    -- its method is known before its code is written
    rintro y (hopen | hopen)
    · exact .inl (.inl hopen)
    · rw [lookup_cons] at hopen
      split at hopen
      · exact .inr (by simpa using ‹(y == _) = true›)
      · exact .inl (.inr hopen)
  | call hstate hknown =>
    refine completes_idle (fun y hy _ => ?_) rfl fun _ hy => hy
    rw [Multiset.mem_singleton.1 hy]
    exact .inr (.inr (by simp [hknown]))

/-- Every node that can be come to from a target is written. -/
theorem mem_statements {step : NodeId → NodeId → Prop}
    (h : Records env state true (.into m) ⟨{}, [], []⟩ l') {x : NodeId} (hx : x ∈ m)
    (hexists : env.graph.contains x = true)
    (hstep : ∀ p y, step p y → y ∈ env.graph.follows p ∧ env.graph.contains y = true)
    (hreach : Relation.ReflTransGen step x y) : y ∈ statements l'.journal := by
  have hcomplete := h.complete rfl
  have hwritten : ∀ y, Reached state l' y → y ∈ statements l'.journal := by
    rintro y (hy | hy)
    · exact hy
    · refine (hcomplete.opened y hy).resolve_left ?_
      rintro (⟨_, hbegun⟩ | hlookup)
      · cases hbegun
      · cases hlookup
  induction hreach with
  | refl => exact hwritten x (hcomplete.arrives x hx hexists)
  | tail _ hlast ih =>
    obtain ⟨hfollows, hexists⟩ := hstep _ _ hlast
    rcases hcomplete.followed _ ih with hnil | hall
    · exact absurd hnil not_mem_nil
    · exact hwritten _ (hall _ hfollows hexists)

end AtLeastOnce

end Records

/-! ## A whole pass -/

/-- Entry points count as targets where their node exists. -/
theorem Connectivity.Describes.count_entries {g : Graph Node} {t : Connectivity} (h : t.Describes g)
    (hy : g.contains y = true) :
    (g.classDecl.entryPoints.map EntryPoint.node).count y = (t.entriesAt y).length := by
  rw [t.entriesAt_eq, h.entries, filter_filter, ← countP_eq_length_filter, List.count, countP_map]
  refine countP_congr fun e _ => ?_
  simp only [Function.comp_apply, beq_iff_eq, Bool.and_eq_true, decide_eq_true_eq]
  constructor
  · rintro rfl
    exact ⟨rfl, hy⟩
  · exact And.left

/-- Where no lambda has a body, no flow node is written twice, and in a synchronous pass no node at
all; in a batched pass a value node can be tried once for every link and entry point that leads to
it. A synchronous pass that succeeds writes each flow node that its entry points lead to. -/
theorem nodes_written_once {graph : Graph Node} {config : Config} {gen : Generation Node}
    (hlambda : ∀ id n, graph.get? id = some n → n.lambdaBody = none)
    (hstart : Generation.start graph config = .ok gen) {result : Except GenError Unit} {s : State}
    (hrun : Emit.bodies gen.env gen.state = (result, s)) :
    (∀ y, config.isBatched = false ∨ gen.env.table.isFlowNode y = true ∨
        gen.env.table.isShared y = true → (statements s.journal).count y ≤ 1) ∧
    (∀ y, (statements s.journal).count y ≤ max 1 (gen.env.table.flowInEdges y +
        (gen.env.table.entriesAt y).length + gen.env.table.childInEdges y)) ∧
    (config.isBatched = false → result = .ok () → ∀ e ∈ graph.classDecl.entryPoints,
      graph.contains e.node = true → ∀ y,
      Relation.ReflTransGen
        (fun p y => y ∈ gen.env.table.flowNext p ∨ y ∈ gen.env.table.children p) e.node y →
      gen.env.table.isFlowNode y = true → (statements s.journal).count y = 1) := by
  obtain ⟨rfl, rfl, _, _⟩ := Generation.start_eq hstart
  have hdescribes := Generation.describes hstart
  obtain ⟨hempty, hfailed⟩ | ⟨c, hrec, hok⟩ := Emit.recorded_bodies hstart
  · -- the preparation failed
    rw [hrun] at hempty hfailed
    have hnone : s.journal = [] := congrArg Ledger.journal hempty
    refine ⟨?_, ?_, fun _ hok => absurd ⟨(), hok⟩ hfailed⟩ <;> simp [hnone, statements]
  rw [hrun] at hrec hok
  have hentries : ∀ y ∈ gen.env.table.ids,
      (gen.env.graph.classDecl.entryPoints.map EntryPoint.node : Multiset NodeId).count y ≤
        (gen.env.table.entriesAt y).length := fun y hy => by
    obtain ⟨n, hn⟩ := hdescribes.exists_node hy
    rw [Multiset.coe_count, hdescribes.count_entries (by simp [Graph.contains, hn])]
  have hknown : Records.KnownTask gen.env
      (.into (gen.env.graph.classDecl.entryPoints.map EntryPoint.node : List NodeId)) := by
    intro id hid hexists
    obtain ⟨e, he, rfl⟩ := List.mem_map.1 (Multiset.mem_coe.1 hid)
    exact hdescribes.roots e (by rw [hdescribes.entries]; exact List.mem_filter.2 ⟨he, hexists⟩)
  have hflow : ∀ y, gen.env.table.isFlowNode y = true → (statements s.journal).count y ≤ 1 :=
    fun y hy => hrec.count_flow_le hdescribes hlambda hknown hentries hy
  refine ⟨?_, hrec.count_le_max hdescribes hlambda hknown hentries, ?_⟩
  · rintro y (hsync | hy | hshared)
    · exact hrec.count_sync_le hdescribes hlambda hknown hentries hsync y
    · exact hflow y hy
    · exact hrec.count_le_of_ownsBody hlambda (by simp [Records.ownsBody, hshared])
  · intro hsync hresult e he hexists y hreach hy
    obtain rfl := hok hsync () hresult
    have hwritten : y ∈ statements s.journal := by
      refine hrec.mem_statements ?_ hexists (fun p y hy => hdescribes.mem_follows hlambda hy) hreach
      exact Multiset.mem_coe.2 (List.mem_map_of_mem he)
    exact Nat.le_antisymm (hflow y hy) (List.count_pos_iff.2 hwritten)

/-- Both arms of a branch lead to one node, which a scope after the branch holds besides. -/
def meetingArms : Graph Node where
  name := "C"
  classDecl := startsAtOne
  nodes :=
    [(⟨1⟩, .branch (.literal (.bool true)) (some ⟨2⟩) (some ⟨2⟩) (some ⟨3⟩)),
      (⟨2⟩, .invoke (ownCall "A") none), (⟨3⟩, .stateScope (some ⟨2⟩) none)]

/-- The node where the arms meet is written once. -/
theorem meetingArms_written_once : ∃ gen s, Generation.start meetingArms {} = .ok gen ∧
    Emit.bodies gen.env gen.state = (.ok (), s) ∧ (∀ y, (statements s.journal).count y ≤ 1) ∧
    (statements s.journal).count ⟨2⟩ = 1 := by
  obtain ⟨gen, s, hstart, hrun, hnext, hflow⟩ : Generation.EndsWith meetingArms {} fun gen _ =>
      ⟨2⟩ ∈ gen.env.table.flowNext ⟨1⟩ ∧ gen.env.table.isFlowNode ⟨2⟩ = true := by decide +kernel
  have hlambda : ∀ id n, meetingArms.get? id = some n → n.lambdaBody = none := by
    have hall : ∀ x ∈ meetingArms.nodes, x.2.lambdaBody = none := by decide
    exact fun id n hn => hall _ (Graph.mem_of_get? hn)
  obtain ⟨hle, _, hwritten⟩ := nodes_written_once hlambda hstart hrun
  refine ⟨gen, s, hstart, hrun, fun y => hle y (.inl rfl), ?_⟩
  exact hwritten rfl rfl _ (List.mem_singleton_self _) (by decide) _ (.single (.inl hnext)) hflow

/-- Two scopes hold one literal. -/
def scopedLiteral : Graph Node where
  name := "C"
  classDecl := startsAtOne
  nodes :=
    [(⟨1⟩, .stateScope (some ⟨3⟩) (some ⟨2⟩)), (⟨2⟩, .stateScope (some ⟨3⟩) none),
      (⟨3⟩, .literal .null)]

/-- A batched pass tries a value node that two scopes hold twice. -/
theorem scopedLiteral_tried_twice :
    (∀ id n, scopedLiteral.get? id = some n → n.lambdaBody = none) ∧
    ∃ gen s, Generation.start scopedLiteral { scheduling := .batched 1 } = .ok gen ∧
      Emit.bodies gen.env gen.state = (.ok (), s) ∧ (statements s.journal).count ⟨3⟩ = 2 := by
  refine ⟨?_, by decide +kernel⟩
  have hall : ∀ x ∈ scopedLiteral.nodes, x.2.lambdaBody = none := by decide
  exact fun id n hn => hall _ (Graph.mem_of_get? hn)

end FlowClass
