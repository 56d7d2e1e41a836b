import FlowClass.Proofs.Emission.Ordinary

/-!
# Congruences of emissions

A congruence relates two emissions step by step. It carries the nodes that an emission leads into,
with repetition, and is closed under everything that the hooks of a node are made of: ordinary steps,
sequencing, and the two brackets that hooks use. Terms and nodes respect every congruence that the
services respect (`Congruence.term`, `Congruence.code`, `Congruence.value`).

Facts about a single emission are the diagonal: a relation that ignores its second argument.
-/

namespace FlowClass.Emit

variable {ν α β : Type} {m : Multiset NodeId} {f : α → Emit ν β} {x y : Emit ν α}

/-- A relation between emissions that respects how hooks are put together. -/
structure Congruence (ν : Type) where
  /-- `rel leads x y`: the two emissions correspond, and lead into the nodes `leads`. -/
  rel : {α : Type} → (leads : Multiset NodeId) → Emit ν α → Emit ν α → Prop
  ordinary : ∀ {α : Type} {x : Emit ν α}, Ordinary x → rel 0 x x
  bind : ∀ {α β : Type} {m n : Multiset NodeId} {x y : Emit ν α} {f g : α → Emit ν β},
    rel m x y → (∀ a, rel n (f a) (g a)) → rel (m + n) (x >>= f) (y >>= g)
  scope : ∀ {α : Type} {m : Multiset NodeId} {x y : Emit ν α} (id : NodeId),
    rel m x y → rel m (withScope id x) (withScope id y)
  nested : ∀ {α : Type} {m : Multiset NodeId} {x y : Emit ν α} (type : Ty),
    rel m x y → rel m (atPlace (Place.toNested type) x) (atPlace (Place.toNested type) y)

namespace Congruence

variable (c : Congruence ν)

theorem step {g : α → Emit ν β} (hx : Ordinary x) (hf : ∀ a, c.rel m (f a) (g a)) :
    c.rel m (x >>= f) (x >>= g) := by
  have h := c.bind (c.ordinary hx) hf
  rwa [zero_add] at h

theorem andThen {g : α → Emit ν β} (hx : c.rel 0 x y) (hf : ∀ a, c.rel m (f a) (g a)) :
    c.rel m (x >>= f) (y >>= g) := by
  have h := c.bind hx hf
  rwa [zero_add] at h

theorem thenOrdinary (hx : c.rel m x y) (hf : ∀ a, Ordinary (f a)) :
    c.rel m (x >>= f) (y >>= f) := by
  have h := c.bind hx fun a => c.ordinary (hf a)
  rwa [add_zero] at h

theorem map (f : α → β) (h : c.rel m x y) : c.rel m (f <$> x) (f <$> y) := by
  rw [map_eq_pure_bind, map_eq_pure_bind]
  exact c.thenOrdinary h fun a => .pure (f a)

/-! ## Steps of a chain of members -/

section Steps

variable {args args' : Emit ν (List String)} (hargs : c.rel 0 args args')
include hargs

theorem applyMethod (step : Step) (current : Current) :
    c.rel 0 (applyMethod step current args) (applyMethod step current args') := by
  refine c.step (.memberName step) fun name => c.andThen hargs fun texts => ?_
  split
  · refine c.step (.currentTarget current) fun _ => ?_
    split
    · exact c.step (.pure _) fun _ =>
        c.ordinary (.bind .runtime fun _ => .pure _)
    · refine c.step (.typeArgsText _) fun _ => c.ordinary ?_
      exact .bind .runtime fun _ => .pure _
  · exact c.ordinary (.bind (.typeArgsText _) fun _ => .pure _)

theorem applyConstructor (step : Step) (index : Nat) :
    c.rel 0 (applyConstructor step index args) (applyConstructor step index args') := by
  unfold Emit.applyConstructor
  split
  · refine c.andThen hargs fun _ => c.ordinary ?_
    exact .bind (.typeText _) fun _ => .pure _
  · exact c.ordinary (.bind (.typeText _) fun _ => .fail rfl)

theorem applyIndexer (current : Current) :
    c.rel 0 (applyIndexer current args) (applyIndexer current args') :=
  c.step (.currentTarget current) fun _ => c.thenOrdinary hargs fun _ => .pure _

theorem applyOperator (step : Step) (current : Current) :
    c.rel 0 (applyOperator step current args) (applyOperator step current args') := by
  unfold Emit.applyOperator
  split
  · exact c.ordinary (.fail rfl)
  · refine c.step (.leadingOperand current) fun _ => c.andThen hargs fun _ => c.ordinary ?_
    exact .bind (.typeText _) fun _ => .operatorText _ _ _

theorem applyStep (step : Step) (index : Nat) (current : Current) :
    c.rel 0 (applyStep step index current args) (applyStep step index current args') := by
  unfold Emit.applyStep
  refine c.map _ ?_
  cases step.kind with
  | field | property => exact c.ordinary (.applyMember step current)
  | method => exact c.applyMethod hargs step current
  | constructor => exact c.applyConstructor hargs step index
  | indexer => exact c.applyIndexer hargs current
  | operator => exact c.applyOperator hargs step current

end Steps

/-! ## Places that can be assigned -/

section Stores

variable {read read' : Emit ν String} {upTo upTo' : Nat → Emit ν Current}
  (hread : c.rel 0 read read') (hupTo : ∀ count, c.rel 0 (upTo count) (upTo' count))
include hread hupTo

theorem storeInChain (steps : List Step) (value : String) (op : AssignOp) :
    c.rel 0 (storeInChain steps read upTo value op) (storeInChain steps read' upTo' value op) := by
  unfold Emit.storeInChain
  split
  · exact c.ordinary (.fail rfl)
  · rename_i last _
    split
    · exact c.ordinary (.fail rfl)
    · split
      · refine c.andThen (hupTo _) fun owner => c.step (.currentTarget _) fun _ => ?_
        refine c.step (.memberName _) fun _ => ?_
        split
        · refine c.step (.pure _) fun _ => c.ordinary ?_
          exact .bind .runtime fun _ => .pure _
        · refine c.andThen hread fun _ => c.ordinary ?_
          exact .bind .runtime fun _ => .pure _
      · exact c.thenOrdinary hread fun _ => .pure _

theorem storeIn (target : Term) (value : String) (op : AssignOp) :
    c.rel 0 (storeIn target read upTo value op) (storeIn target read' upTo' value op) := by
  unfold Emit.storeIn
  split
  · exact c.ordinary (.bind (.variableRef _) fun _ => .pure _)
  · exact c.thenOrdinary hread fun _ => .bind (.demand rfl) fun _ => .pure _
  · exact c.storeInChain hread hupTo _ value op
  · exact c.ordinary (.fail rfl)

theorem passAssignable (param : Param) (arg : Term) :
    c.rel 0 (passAssignable param arg read upTo) (passAssignable param arg read' upTo') := by
  have hmark : (Misuse.argument param.passing.callMark param.name).isOrdinary = true := by
    cases param.passing <;> rfl
  unfold Emit.passAssignable
  split
  · exact c.ordinary (.bind (.variableRef _) fun _ => .pure _)
  · exact c.thenOrdinary hread fun _ => .bind (.demand hmark) fun _ =>
      .pure _
  · rename_i root steps
    split
    · exact c.ordinary (.fail hmark)
    · split
      · exact c.thenOrdinary hread fun _ => .pure _
      · -- through a temporary: read before, stored back after the statement
        refine c.step .temporaryName fun _ => c.step (.typeText _) fun _ => ?_
        have hstore (value : Option String) (temporary type : String) := c.andThen
          (c.storeIn hread hupTo (.chain root steps) temporary .assign) fun exit =>
            c.ordinary (.bind (ν := ν)
              (.splice (Fragment.declare type temporary value).text (some exit)) fun _ =>
                .pure (param.passing.callMark ++ temporary))
        split
        · exact c.step (.pure _) fun _ => hstore _ _ _
        · exact c.andThen (c.map _ hread) fun _ => hstore _ _ _
  · exact c.ordinary (.fail hmark)

theorem pass (param : Option Param) (arg : Term) :
    c.rel 0 (pass param arg read upTo) (pass param arg read' upTo') := by
  unfold Emit.pass
  split
  · exact hread
  · split
    · exact c.passAssignable hread hupTo _ arg
    · exact c.thenOrdinary hread fun _ => .pure _

end Stores

/-! ## Terms -/

section Terms

variable {output output' : NodeId → UInt16 → Emit ν String}

mutual

/-- A term respects a congruence that the outputs it reads respect. -/
theorem term (t : Term)
    (h : ∀ id ∈ t.reads, ∀ port, c.rel 0 (output id port) (output' id port)) :
    c.rel 0 (Emit.term output t) (Emit.term output' t) := by
  cases t with
    simp only [Emit.term, Term.reads, List.forall_mem_append] at h ⊢
  | unassigned => exact c.ordinary (.unresolved fun _ => rfl)
  | literal value => exact c.ordinary (.literalText value)
  | «variable» ref => exact c.ordinary (.variableRef ref)
  | typeOf type => exact c.ordinary (.bind (.typeText type) fun _ => .pure _)
  | self => exact c.ordinary .selfText
  | output node port => exact h node List.mem_cons_self port
  | collection kind element items =>
    exact c.thenOrdinary (terms items h) fun _ => .collectionText _ _ _
  | chain root steps =>
    exact c.andThen (chainStart root h.1) fun start =>
      c.thenOrdinary (fold steps h.2 0 steps.length start) fun _ => .currentValue _

theorem terms (ts : List Term)
    (h : ∀ id ∈ Term.readsOf ts, ∀ port, c.rel 0 (output id port) (output' id port)) :
    c.rel 0 (Emit.terms output ts) (Emit.terms output' ts) := by
  cases ts with
    simp only [Emit.terms, Term.readsOf, List.forall_mem_append] at h ⊢
  | nil => exact c.ordinary (.pure _)
  | cons t ts =>
    exact c.andThen (term t h.1) fun _ => c.thenOrdinary (terms ts h.2) fun _ => .pure _

theorem chainStart (root : ChainRoot)
    (h : ∀ id ∈ root.reads, ∀ port, c.rel 0 (output id port) (output' id port)) :
    c.rel 0 (Emit.chainStart output root) (Emit.chainStart output' root) := by
  cases root with
    simp only [Emit.chainStart, ChainRoot.reads] at h ⊢
  | ofType type => exact c.ordinary (.bind (.typeText type) fun _ => .pure _)
  | ofValue value => exact c.thenOrdinary (term value h) fun _ => .pure _
  | self => exact c.ordinary (.pure _)

theorem fold (steps : List Step)
    (h : ∀ id ∈ Step.readsOf steps, ∀ port, c.rel 0 (output id port) (output' id port))
    (index count : Nat) (current : Current) :
    c.rel 0 (Emit.fold output steps index count current)
      (Emit.fold output' steps index count current) := by
  cases steps with
  | nil =>
    simp only [Emit.fold]
    exact c.ordinary (.pure _)
  | cons step steps =>
    rw [Step.readsOf, List.forall_mem_append] at h
    cases count with
      simp only [Emit.fold]
    | zero => exact c.ordinary (.pure _)
    | succ count =>
      exact c.andThen (c.applyStep (stepArgs step h.1) step index current) fun next =>
        fold steps h.2 (index + 1) count next

theorem stepArgs (step : Step)
    (h : ∀ id ∈ step.reads, ∀ port, c.rel 0 (output id port) (output' id port)) :
    c.rel 0 (Emit.stepArgs output step) (Emit.stepArgs output' step) := by
  obtain ⟨_, _, _, params, args, _, _, _⟩ := step
  simp only [Emit.stepArgs, Step.reads] at h ⊢
  exact arguments args h params

theorem arguments (args : List Term)
    (h : ∀ id ∈ Term.readsOf args, ∀ port, c.rel 0 (output id port) (output' id port))
    (params : List Param) :
    c.rel 0 (Emit.arguments output args params) (Emit.arguments output' args params) := by
  cases args with
    simp only [Emit.arguments, Term.readsOf, List.forall_mem_append] at h ⊢
  | nil => exact c.ordinary (.pure _)
  | cons arg args =>
    exact c.andThen (c.pass (term arg h.1) (foldUpTo arg h.1) _ arg) fun _ =>
      c.thenOrdinary (arguments args h.2 _) fun _ => .pure _

theorem foldUpTo (t : Term)
    (h : ∀ id ∈ t.reads, ∀ port, c.rel 0 (output id port) (output' id port)) (count : Nat) :
    c.rel 0 (Emit.foldUpTo output t count) (Emit.foldUpTo output' t count) := by
  cases t with
  | chain root steps =>
    rw [Term.reads, List.forall_mem_append] at h
    simp only [Emit.foldUpTo]
    exact c.andThen (chainStart root h.1) fun start => fold steps h.2 0 count start
  | _ =>
    simp only [Emit.foldUpTo]
    exact c.ordinary (.fail rfl)

end

theorem store (target : Term) (value : String) (op : AssignOp)
    (h : ∀ id ∈ target.reads, ∀ port, c.rel 0 (output id port) (output' id port)) :
    c.rel 0 (Emit.store output target value op) (Emit.store output' target value op) :=
  c.storeIn (c.term target h) (c.foldUpTo target h) target value op

end Terms

end Congruence

end FlowClass.Emit
