import FlowClass.Proofs.Emission.Congruence

/-!
# The hooks of nodes respect congruences

The statement of a node leads into its branches, each once and in order, and an output leads into
the body of a lambda at most. Besides, a node only reads the outputs that its ports name, and only
asks for the units that it refers to.

Two steps of hooks are not ordinary, and a congruence has to be asked for them: reading the variable
of the node itself, and making sure that a wait stands in a unit.
-/

namespace FlowClass.Node

/-- The node has a variable of its own, which is entered before any body is emitted. -/
def ownsVariable : Node → Bool
  | .forLoop .. => true
  | .forEach .. => true
  | .localVariable .. => true
  | _ => false

variable {ν : Type}

open Emit

theorem quiet_checkResumable : Quiet (checkResumable : Emit ν Unit) :=
  .bind .get fun _ => .demand _ _

end FlowClass.Node

namespace FlowClass.Emit.Congruence

open List

variable {ν : Type} (c : Congruence ν) {services services' : Services ν}

/-! ## Flow -/

theorem flows {targets : List (Option NodeId)}
    (h : ∀ target ∈ targets, c.rel (leads [target]) (services.flow target)
      (services'.flow target)) :
    c.rel (leads targets) (Node.flows services targets) (Node.flows services' targets) := by
  induction targets with
  | nil => exact c.ordinary (.pure _)
  | cons target targets ih =>
    rw [leads_cons]
    refine c.bind (h target mem_cons_self) fun _ => ?_
    exact c.thenOrdinary (ih fun t ht => h t (mem_cons_of_mem _ ht)) fun _ => .pure _

theorem sections {arms : List SwitchArm}
    (h : ∀ arm ∈ arms, c.rel (leads [arm.target]) (services.flow arm.target)
      (services'.flow arm.target)) :
    c.rel (leads (arms.map SwitchArm.target)) (Node.sections services arms)
      (Node.sections services' arms) := by
  induction arms with
  | nil => exact c.ordinary (.pure _)
  | cons arm arms ih =>
    rw [map_cons, leads_cons]
    refine c.step (.literalTexts _) fun _ => c.bind (h arm mem_cons_self) fun _ => ?_
    exact c.thenOrdinary (ih fun a ha => h a (mem_cons_of_mem _ ha)) fun _ => .pure _

theorem targetSlot {target : Option NodeId} {what : Misuse} (hwhat : what.isOrdinary = true)
    (h : ∀ id ∈ target.toList, c.rel 0 (services.slot id) (services'.slot id)) :
    c.rel 0 (Node.targetSlot services target what) (Node.targetSlot services' target what) := by
  cases target with
  | none => exact c.ordinary (.fail hwhat)
  | some id => exact h id (by simp)

/-! ## Statements and outputs -/

theorem yieldText (services services' : Services ν) {seconds : Term}
    (h : ∀ id ∈ seconds.reads, ∀ port,
      c.rel 0 (services.output id port) (services'.output id port)) :
    c.rel 0 (Node.yieldText services seconds) (Node.yieldText services' seconds) := by
  unfold Node.yieldText
  split
  · refine c.andThen (c.term seconds h) fun _ => c.ordinary ?_
    exact .bind (.typeText _) fun _ => .pure _
  · exact c.ordinary (.pure _)

private theorem ordinary_paramNames (id : NodeId) (params : List ParamDecl) :
    Ordinary (Node.paramNames id params : Emit ν (List String)) := by
  induction params with
  | nil => exact .pure _
  | cons p ps ih =>
    exact .bind (.nameFor _ _) fun _ => .bind ih fun _ => .pure _

private theorem ordinary_castText (cast : Option Ty) :
    Ordinary (Node.castText cast : Emit ν (Option String)) := by
  cases cast with
  | none => exact .pure _
  | some type => exact .map _ (.typeText _)

/-- Every output but the first is a name, or fails. -/
theorem ordinary_otherValue (n : Node) (id : NodeId) (port : UInt16) :
    Ordinary (n.otherValue id port : Emit ν String) := by
  unfold Node.otherValue
  split
  · split
    · exact .nameFor _ _
    · exact .fail rfl
  · exact .fail rfl

variable (services services' : Services ν) (n : Node) (id : NodeId)
  (houtput : ∀ source ∈ n.ports.valueSources, ∀ port,
    c.rel 0 (services.output source port) (services'.output source port))
  (hslot : ∀ target ∈ n.ports.references, c.rel 0 (services.slot target) (services'.slot target))
  (hvariable : n.ownsVariable = true → c.rel 0 (nodeVariable id) (nodeVariable id))
include houtput hslot hvariable

/-- The statement of a node leads into its branches. -/
theorem code (hflow : ∀ target ∈ n.branches,
      c.rel (leads [target]) (services.flow target) (services'.flow target))
    (hwait : n.suspends = true → c.rel 0 Node.checkResumable Node.checkResumable) :
    c.rel (leads n.branches) (n.code services id) (n.code services' id) := by
  -- a node reads no source but those of its ports
  have hterm (port : ValuePort) (hport : port ∈ n.ports.values) :
      c.rel 0 (Emit.term services.output port.value) (Emit.term services'.output port.value) :=
    c.term port.value fun source hsource =>
      houtput source (Ports.reads_mem_valueSources port hport hsource)
  cases n with
  | sequence outputs => exact c.thenOrdinary (c.flows hflow) fun _ => .pure _
  | branch condition onTrue onFalse next =>
    refine c.andThen (hterm ⟨"condition", condition⟩ mem_cons_self) fun _ => ?_
    change c.rel (leads [onTrue, onFalse]) _ _
    rw [leads_cons]
    refine c.bind (hflow onTrue mem_cons_self) fun _ => ?_
    exact c.thenOrdinary (hflow onFalse (by simp [Node.branches])) fun _ => .pure _
  | switch value cases default next =>
    refine c.andThen (hterm ⟨"value", value⟩ mem_cons_self) fun _ => ?_
    change c.rel (leads (cases.map SwitchArm.target ++ [default])) _ _
    -- the sections come first, and the default is led into last
    rw [leads_append]
    refine c.bind (c.sections fun arm harm => hflow arm.target ?_) fun _ => ?_
    · exact mem_append_left _ (mem_map_of_mem harm)
    · exact c.thenOrdinary (hflow default (by simp [Node.branches])) fun _ => .pure _
  | forLoop start stop step body next =>
    refine c.andThen (hvariable rfl) fun index => ?_
    refine c.andThen (hterm ⟨"start", start⟩ (by simp [Node.ports])) fun _ => ?_
    refine c.andThen (hterm ⟨"end", stop⟩ (by simp [Node.ports])) fun _ => ?_
    have hstep : c.rel 0 (Node.stepText services index step)
        (Node.stepText services' index step) := by
      unfold Node.stepText
      split
      · exact c.thenOrdinary (hterm ⟨"step", step⟩ (by simp [Node.ports])) fun _ =>
          .pure _
      · exact c.ordinary (.pure _)
    refine c.andThen hstep fun _ => ?_
    exact c.thenOrdinary (hflow body mem_cons_self) fun _ => .pure _
  | forEach collection element body next =>
    refine c.andThen (hvariable rfl) fun _ => c.step (.nameFor _ _) fun _ => ?_
    refine c.step (.typeText _) fun _ => ?_
    refine c.andThen (hterm ⟨"collection", collection⟩ mem_cons_self) fun _ => ?_
    exact c.thenOrdinary (c.scope id (hflow body mem_cons_self)) fun _ => .pure _
  | whileLoop condition body next =>
    refine c.andThen (hterm ⟨"condition", condition⟩ mem_cons_self) fun _ => ?_
    exact c.thenOrdinary (hflow body mem_cons_self) fun _ => .pure _
  | invoke call next =>
    exact c.thenOrdinary (hterm ⟨"call", call⟩ mem_cons_self) fun _ => .pure _
  | setValue target value op next =>
    refine c.andThen (hterm ⟨"value", value⟩ (by simp [Node.ports])) fun text => ?_
    refine c.store target text op fun source hsource => houtput source ?_
    exact Ports.reads_mem_valueSources ⟨"target", target⟩ mem_cons_self hsource
  | localVariable name type value next =>
    refine c.andThen (hvariable rfl) fun _ => ?_
    split
    · exact c.thenOrdinary (hterm ⟨"value", value⟩ mem_cons_self) fun _ =>
        .pure _
    · refine c.ordinary (.bind (.typeText _) fun _ => ?_)
      exact .bind (.pure _) fun _ => .pure _
  | returnValue value =>
    refine c.step .get fun s => ?_
    dsimp only
    split
    · exact c.ordinary (.bind (.demand rfl) fun _ => .pure _)
    · split
      · refine c.step (.demand rfl) fun _ => ?_
        exact c.thenOrdinary (hterm ⟨"value", value⟩ mem_cons_self) fun _ =>
          .pure _
      · exact c.ordinary (.bind (.demand rfl) fun _ => .pure _)
  | wait seconds next =>
    -- the check comes apart from the rest, as it is not ordinary
    refine c.andThen (hwait rfl) fun _ => c.yieldText services services' fun source hsource =>
      houtput source ?_
    exact Ports.reads_mem_valueSources ⟨"seconds", seconds⟩ mem_cons_self hsource
  | stateScope body next => exact hflow body mem_cons_self
  | stopUnit target next =>
    exact c.thenOrdinary (c.targetSlot rfl hslot) fun _ => .pure _
  | _ => exact c.ordinary (.fail rfl)

/-- The first output of a node leads into the body of a lambda at most. -/
theorem mainValue (hflow : ∀ target, n.lambdaBody = some target →
      c.rel (leads [some target]) (services.flow (some target)) (services'.flow (some target)))
    (hnone : c.rel 0 (services.flow none) (services'.flow none)) :
    c.rel (leads [n.lambdaBody]) (n.mainValue services id) (n.mainValue services' id) := by
  cases n with
  | forLoop start stop step body next | localVariable name type value next => exact hvariable rfl
  | forEach collection element body next =>
    refine c.step (.inScope id) fun _ => c.step (.demand rfl) fun _ => ?_
    exact hvariable rfl
  | unitStatus target query => exact c.thenOrdinary (c.targetSlot rfl hslot) fun _ => .pure _
  | literal value => exact c.ordinary (.literalText value)
  | member value =>
    refine c.term value fun source hsource => houtput source ?_
    exact Ports.reads_mem_valueSources ⟨"value", value⟩ mem_cons_self hsource
  | operator op operands cast =>
    refine c.andThen (c.terms operands fun source hsource =>
      houtput source (Node.operands_mem_valueSources hsource)) fun _ => ?_
    exact c.ordinary (.bind (ordinary_castText cast) fun _ => .operatorText _ _ _)
  | lambda params returnType body =>
    refine c.step (ordinary_paramNames id params) fun _ => ?_
    refine c.thenOrdinary (c.nested returnType ?_) fun _ => .pure _
    cases body with
    | none => exact hnone
    | some target => exact hflow target rfl
  | _ => exact c.ordinary (.fail rfl)

end FlowClass.Emit.Congruence
