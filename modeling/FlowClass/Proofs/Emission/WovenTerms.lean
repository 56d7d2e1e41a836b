import FlowClass.Proofs.Emission.Weaving

/-!
# Terms and nodes weave

A term weaves if the outputs it reads do, and the hooks of a node weave if the chains, outputs and
slots that they ask for do.
-/

namespace FlowClass

open List Option Term

variable {ok : MarkerId → Prop} {current : Current}

/-! ## Terms -/

/-- What a chain was folded to is woven. -/
def Current.Woven (ok : MarkerId → Prop) : Current → Prop
  | .type text => FlowClass.Woven ok text
  | .value text => FlowClass.Woven ok text
  | .self => True

theorem Woven.access (hcurrent : current.Woven ok) {name : String} (hname : '#' ∉ name.toList) :
    Woven ok (Emit.access current name) := by
  cases current with
  | type text => exact (append hcurrent (.plain _ (by decide))).append (.plain _ hname)
  | value text => exact ((operand hcurrent).append (.plain _ (by decide))).append (.plain _ hname)
  | self => exact .plain _ hname

theorem Woven.branchText {condition thenBody elseBody : String} (hcondition : Woven ok condition)
    (hthen : Woven ok thenBody) (helse : Woven ok elseBody) :
    Woven ok (Node.branchText condition thenBody elseBody) := by
  unfold Node.branchText
  split
  · exact .ifElse ((plain "!" (by decide)).append hcondition.operand) helse
      fun _ h => absurd h (not_mem_none _)
  · refine .ifElse hcondition hthen fun body hbody => ?_
    split at hbody
    · exact absurd hbody (not_mem_none _)
    · rw [← some.inj hbody]
      exact helse

theorem Woven.slot {before after : String} (hbefore : '#' ∉ before.toList)
    (hafter : '#' ∉ after.toList) (slot : Nat) : Woven ok (before ++ toString slot ++ after) :=
  (plain _ (Code.not_hash_number slot)).between hbefore hafter

namespace Emit.Weaves

variable {ok : MarkerId → Prop} {env : Env Node}

theorem selfText : Weaves ok env (Woven ok) (Emit.selfText : Emit Node String) :=
  .bind .get fun _ _ => .bind (.demand _ _) fun _ _ => .pure (.plain _ (by decide))

theorem currentValue (h : current.Woven ok) :
    Weaves ok env (Woven ok) (Emit.currentValue current : Emit Node String) := by
  cases current with
  | type text => exact .pure (.between h (by decide) (by decide))
  | value text => exact .pure h
  | self => exact .selfText

theorem currentTarget (h : current.Woven ok) :
    Weaves ok env (Woven ok) (Emit.currentTarget current : Emit Node String) := by
  cases current with
  | type text => exact .pure (.between h (by decide) (by decide))
  | value text => exact .pure (.operand h)
  | self => exact .selfText

section Steps

variable {step : Step} (hstep : Hashless step.strings) {current : Current}
  (hcurrent : current.Woven ok) {args : Emit Node (List String)}
  (hargs : Weaves ok env (fun texts => ∀ text ∈ texts, Woven ok text) args)

theorem typeArgsText {types : List Ty} (h : Hashless (Ty.stringsOf types)) :
    Weaves ok env ('#' ∉ ·.toList) (Emit.typeArgsText types : Emit Node String) := by
  unfold Emit.typeArgsText
  split
  · have hempty : '#' ∉ "".toList := by decide
    exact .pure hempty
  · refine .bind (.typeTexts h) fun texts htexts => .pure ?_
    simp [not_hash_joinText _ htexts]

include hstep

theorem hashless_step : '#' ∉ step.name.toList ∧ Hashless step.type.strings ∧
    (∀ p ∈ step.params, Hashless p.strings) ∧ Hashless (stringsOf step.args) ∧
    Hashless (Ty.stringsOf step.typeArgs) := by
  obtain ⟨name, kind, type, params, args, typeArgs, reflected, decl⟩ := step
  simp only [Step.strings, hashless_append, hashless_cons] at hstep
  have hparams (p : Param) : p ∈ params → Hashless p.strings := Hashless.of_mem_flatMap (by tauto)
  tauto

theorem memberName : Weaves ok env ('#' ∉ ·.toList) (Emit.memberName step : Emit Node String) := by
  unfold Emit.memberName
  split
  · exact .pure (hashless_step hstep).1
  · refine .bind (.declName? _) fun name hname => ?_
    split
    · exact .pure (hname _ (mem_toList.2 rfl))
    · exact .unresolved _

include hcurrent

theorem applyMember :
    Weaves ok env (Woven ok) (Emit.applyMember step current : Emit Node String) := by
  refine .bind (.memberName hstep) fun name hname => ?_
  split
  · refine .bind (.currentTarget hcurrent) fun target htarget =>
      .bind (.typeText (hashless_step hstep).2.1) fun type htype =>
        .bind .runtime fun runtime hruntime => .pure ?_
    have hhead : Woven ok (runtime ++ ".GetValue<" ++ type ++ ">(") :=
      .plain _ (by simp [hruntime, htype])
    have hpair := (htarget.append (.plain ", " (by decide))).append (.stringLiteral name)
    exact (hhead.append hpair).append (.plain _ (by decide))
  · exact .pure (.access hcurrent hname)

include hargs

theorem applyMethod :
    Weaves ok env (Woven ok) (Emit.applyMethod step current args : Emit Node String) := by
  refine .bind (.memberName hstep) fun name hname => .bind hargs fun texts htexts => ?_
  split
  · refine .bind (.currentTarget hcurrent) fun target htarget => ?_
    have hcall (result : String) (hresult : '#' ∉ result.toList) :
        Weaves ok env (Woven ok) (do
          let runtime ← Emit.runtime
          return runtime ++ ".Invoke" ++ result ++ "(" ++
            joinText ", " (target :: Code.stringLiteral name :: texts) ++ ")" : Emit Node String) := by
      refine .bind .runtime fun runtime hruntime => .pure ?_
      refine ((Woven.plain _ ?_).append (.joinText (by decide) ?_)).append (.plain _ (by decide))
      · simp [hruntime, hresult]
      · exact forall_mem_cons.2 ⟨htarget, forall_mem_cons.2 ⟨.stringLiteral name, htexts⟩⟩
    split
    · exact .bind (.pure (a := "") (by decide)) hcall
    · refine .bind (.typeArgsText ?_) hcall
      rw [Ty.stringsOf, Ty.stringsOf, append_nil]
      exact (hashless_step hstep).2.1
  · refine .bind (.typeArgsText (hashless_step hstep).2.2.2.2) fun typeArgs htypeArgs => .pure ?_
    have hhead := ((Woven.access hcurrent hname).append (.plain typeArgs htypeArgs)).append
      (.plain "(" (by decide))
    exact (hhead.append (.joinText (by decide) htexts)).append (.plain _ (by decide))

omit hcurrent in
theorem applyConstructor (index : Nat) :
    Weaves ok env (Woven ok) (Emit.applyConstructor step index args : Emit Node String) := by
  have htype := (hashless_step hstep).2.1
  unfold Emit.applyConstructor
  split
  · refine .bind hargs fun texts htexts => .bind (.typeText htype) fun type htype => .pure ?_
    have hhead : Woven ok ("new " ++ type ++ "(") := .plain _ (by simp [htype])
    exact (hhead.append (.joinText (by decide) htexts)).append (.plain _ (by decide))
  · exact .bind (.typeText htype) fun _ _ => .fail _

omit hstep in
theorem applyIndexer :
    Weaves ok env (Woven ok) (Emit.applyIndexer current args : Emit Node String) := by
  refine .bind (.currentTarget hcurrent) fun target htarget => .bind hargs fun texts htexts => ?_
  exact .pure (((htarget.append (.plain _ (by decide))).append (.joinText (by decide) htexts)).append
    (.plain _ (by decide)))

omit hstep hargs in
theorem leadingOperand :
    Weaves ok env (fun texts => ∀ text ∈ texts, Woven ok text)
      (Emit.leadingOperand current : Emit Node (List String)) := by
  have hone {text : String} (h : Woven ok text) : ∀ other ∈ [text], Woven ok other := by
    intro other hother
    rw [mem_singleton.1 hother]
    exact h
  cases current with
  | type text => exact .pure (forall_mem_nil _)
  | value text | self => exact .bind (.currentTarget hcurrent) fun _ h => .pure (hone h)

omit hstep hcurrent hargs in
theorem operatorText {op : Operator} {operands : List String} {cast : Option String}
    (hoperands : ∀ text ∈ operands, Woven ok text) (hcast : ∀ type ∈ cast, Woven ok type) :
    Weaves ok env (Woven ok) (Emit.operatorText op operands cast : Emit Node String) := by
  unfold Emit.operatorText
  split
  · rename_i fragment hfragment
    exact .pure (.operator hfragment hoperands hcast)
  · exact .fail _

theorem applyOperator :
    Weaves ok env (Woven ok) (Emit.applyOperator step current args : Emit Node String) := by
  unfold Emit.applyOperator
  split
  · exact .fail _
  · refine .bind (.leadingOperand hcurrent) fun leading hleading => .bind hargs fun texts htexts =>
      .bind (.typeText (hashless_step hstep).2.1) fun type htype => .operatorText ?_ ?_
    · exact forall_mem_append.2 ⟨hleading, htexts⟩
    · intro other hother
      rw [← some.inj hother]
      exact .plain _ htype

theorem applyStep (index : Nat) :
    Weaves ok env (Current.Woven ok) (Emit.applyStep step index current args) := by
  refine Weaves.map (P := Woven ok) ?_ fun _ htext => htext
  cases step.kind with
  | field | property => exact .applyMember hstep hcurrent
  | method => exact .applyMethod hstep hcurrent hargs
  | constructor => exact .applyConstructor hstep hargs index
  | indexer => exact .applyIndexer hcurrent hargs
  | operator => exact .applyOperator hstep hcurrent hargs

end Steps

/-! ## Places that can be assigned -/

section Stores

variable {read : Emit Node String} {upTo : Nat → Emit Node Current}
  (hread : Weaves ok env (Woven ok) read)
  (hupTo : ∀ count, Weaves ok env (Current.Woven ok) (upTo count)) {value : String}
  (hvalue : Woven ok value)
include hread hupTo hvalue

theorem storeInChain {steps : List Step} (hsteps : ∀ step ∈ steps, Hashless step.strings)
    (op : AssignOp) : Weaves ok env (Woven ok) (Emit.storeInChain steps read upTo value op) := by
  unfold Emit.storeInChain
  split
  · exact .fail _
  · rename_i last hlast
    have hstep := hsteps last (mem_of_getLast? hlast)
    split
    · exact .fail _
    · split
      · refine .bind (hupTo _) fun owner howner => .bind (.currentTarget howner) fun target htarget =>
          .bind (.memberName hstep) fun name _ => ?_
        have hcall (current : String) (hcurrent : Woven ok current) :
            Weaves ok env (Woven ok) (do
              let runtime ← Emit.runtime
              return (Fragment.assignByCall (runtime ++ ".SetValue")
                [target, Code.stringLiteral name] current value op).text : Emit Node String) := by
          refine .bind .runtime fun runtime hruntime => .pure ?_
          refine .assignByCall (.plain _ (by simp [hruntime])) ?_ hcurrent hvalue op
          refine forall_mem_cons.2 ⟨htarget, fun arg harg => ?_⟩
          rw [mem_singleton.1 harg]
          exact .stringLiteral name
        split
        · exact .bind (.pure (.plain "" (by decide))) hcall
        · exact .bind hread hcall
      · exact .bind hread fun text htext => .pure ((Woven.stable ok).assign htext hvalue op)

theorem storeIn {target : Term} (htarget : Hashless target.strings) (op : AssignOp) :
    Weaves ok env (Woven ok) (Emit.storeIn target read upTo value op) := by
  unfold Emit.storeIn
  split
  · refine .bind (.variableRef _) fun name hname => .pure ?_
    exact (Woven.stable ok).assign (.plain name hname) hvalue op
  · exact .bind hread fun text htext => .bind (.demand _ _) fun _ _ =>
      .pure ((Woven.stable ok).assign htext hvalue op)
  · rw [strings, hashless_append, Step.stringsOf_eq] at htarget
    exact .storeInChain hread hupTo hvalue (fun _ hstep => htarget.2.of_mem_flatMap hstep) op
  · exact .fail _

omit hvalue

theorem passAssignable {param : Param} (hparam : Hashless param.strings) {arg : Term}
    (harg : Hashless arg.strings) :
    Weaves ok env (Woven ok) (Emit.passAssignable param arg read upTo) := by
  have hmark : '#' ∉ param.passing.callMark.toList := by cases param.passing <;> decide
  unfold Emit.passAssignable
  split
  · refine .bind (.variableRef _) fun name hname => .pure (.plain _ ?_)
    simp [hmark, hname]
  · exact .bind hread fun text htext => .bind (.demand _ _) fun _ _ =>
      .pure ((Woven.plain _ hmark).append htext)
  · rename_i root steps
    split
    · exact .fail _
    · split
      · exact .bind hread fun text htext => .pure ((Woven.plain _ hmark).append htext)
      · -- through a temporary: read before, stored back after the statement
        refine .bind .temporaryName fun temporary htemporary =>
          .bind (.typeText (hashless_cons.1 hparam).2) fun type htype => ?_
        have hstore (value : Option String) (hvalue : ∀ text ∈ value, Woven ok text) :
            Weaves ok env (Woven ok) (do
              let exit ← Emit.storeIn (.chain root steps) read upTo temporary .assign
              Emit.splice (Fragment.declare type temporary value).text (some exit)
              return param.passing.callMark ++ temporary) := by
          refine .bind (.storeIn hread hupTo (.plain _ htemporary) harg .assign) fun exit hexit =>
            .bind (.splice ?_ ?_) fun _ _ => .pure (.plain _ (by simp [hmark, htemporary]))
          · exact .declare (.plain _ htype) (.plain _ htemporary) hvalue
          · intro text htext
            rw [← some.inj htext]
            exact hexit
        split
        · exact .bind (.pure fun _ h => absurd h (not_mem_none _)) hstore
        · refine .bind (.map hread fun text htext => ?_) hstore
          intro other hother
          rw [← some.inj hother]
          exact htext
  · exact .fail _

theorem pass {param : Option Param} (hparam : ∀ p ∈ param, Hashless p.strings) {arg : Term}
    (harg : Hashless arg.strings) : Weaves ok env (Woven ok) (Emit.pass param arg read upTo) := by
  unfold Emit.pass
  split
  · exact hread
  · rename_i param
    have hmark : '#' ∉ param.passing.callMark.toList := by cases param.passing <;> decide
    split
    · exact .passAssignable hread hupTo (hparam param rfl) harg
    · exact .bind hread fun text htext => .pure ((Woven.plain _ hmark).append htext)

end Stores

/-! ## The recursion -/

theorem collectionText {kind : CollectionKind} {element : Ty} (helement : Hashless element.strings)
    {items : List String} (hitems : ∀ item ∈ items, Woven ok item) :
    Weaves ok env (Woven ok) (Emit.collectionText kind element items : Emit Node String) := by
  cases kind with
  | array => exact .bind (.typeText helement) fun _ htype => .pure (.arrayText htype hitems)
  | list =>
    exact .bind (.typeText (Ty.hashless_listOf helement)) fun _ htype => .pure (.listText htype hitems)

section Terms

variable {output : NodeId → UInt16 → Emit Node String}

mutual

/-- A term weaves if it has no `#` in its strings and the outputs it reads weave. -/
theorem term (t : Term) (h : Hashless t.strings)
    (houtput : ∀ id ∈ t.reads, ∀ port, Weaves ok env (Woven ok) (output id port)) :
    Weaves ok env (Woven ok) (Emit.term output t) := by
  cases t with
    simp only [Emit.term, strings, hashless_append, reads, forall_mem_append]
      at h houtput ⊢
  | unassigned => exact .unresolved _
  | literal value => exact .literalText h
  | «variable» ref => exact (Weaves.variableRef ref).imp fun name hname => .plain name hname
  | typeOf type => exact .bind (.typeText h) fun name hname => .pure (.plain _ (by simp [hname]))
  | self => exact .selfText
  | output node port => exact houtput node mem_cons_self port
  | collection kind element items =>
    exact .bind (terms items h.2 houtput) fun _ hitems => .collectionText h.1 hitems
  | chain root steps =>
    exact .bind (chainStart root h.1 houtput.1) fun start hstart =>
      .bind (fold steps h.2 houtput.2 0 steps.length start hstart) fun _ hcurrent =>
        .currentValue hcurrent

theorem terms (ts : List Term) (h : Hashless (stringsOf ts))
    (houtput : ∀ id ∈ readsOf ts, ∀ port, Weaves ok env (Woven ok) (output id port)) :
    Weaves ok env (fun texts => ∀ text ∈ texts, Woven ok text) (Emit.terms output ts) := by
  cases ts with
    simp only [Emit.terms, stringsOf, hashless_append, readsOf, forall_mem_append]
      at h houtput ⊢
  | nil => exact .pure (forall_mem_nil _)
  | cons t ts =>
    exact .bind (term t h.1 houtput.1) fun text htext => .bind (terms ts h.2 houtput.2)
      fun texts htexts => .pure (forall_mem_cons.2 ⟨htext, htexts⟩)

theorem chainStart (root : ChainRoot) (h : Hashless root.strings)
    (houtput : ∀ id ∈ root.reads, ∀ port, Weaves ok env (Woven ok) (output id port)) :
    Weaves ok env (Current.Woven ok) (Emit.chainStart output root) := by
  cases root with
    simp only [Emit.chainStart, ChainRoot.strings, ChainRoot.reads] at h houtput ⊢
  | ofType type => exact .bind (.typeText h) fun name hname => .pure (.plain name hname)
  | ofValue value => exact .bind (term value h houtput) fun text htext => .pure htext.operand
  | self => exact .pure trivial

theorem fold (steps : List Step) (h : Hashless (Step.stringsOf steps))
    (houtput : ∀ id ∈ Step.readsOf steps, ∀ port, Weaves ok env (Woven ok) (output id port))
    (index count : Nat) (current : Current) (hcurrent : current.Woven ok) :
    Weaves ok env (Current.Woven ok) (Emit.fold output steps index count current) := by
  cases steps with
  | nil =>
    simp only [Emit.fold]
    exact .pure hcurrent
  | cons step steps =>
    rw [Step.stringsOf, hashless_append] at h
    rw [Step.readsOf, forall_mem_append] at houtput
    cases count with
      simp only [Emit.fold]
    | zero => exact .pure hcurrent
    | succ count =>
      exact .bind (.applyStep h.1 hcurrent (stepArgs step h.1 houtput.1) index) fun next hnext =>
        fold steps h.2 houtput.2 (index + 1) count next hnext

theorem stepArgs (step : Step) (h : Hashless step.strings)
    (houtput : ∀ id ∈ step.reads, ∀ port, Weaves ok env (Woven ok) (output id port)) :
    Weaves ok env (fun texts => ∀ text ∈ texts, Woven ok text) (Emit.stepArgs output step) := by
  obtain ⟨_, _, hparams, hargs, _⟩ := hashless_step h
  obtain ⟨name, kind, type, params, args, typeArgs, reflected, decl⟩ := step
  simp only [Emit.stepArgs, Step.reads] at houtput ⊢
  exact arguments args hargs houtput params hparams

theorem arguments (args : List Term) (h : Hashless (stringsOf args))
    (houtput : ∀ id ∈ readsOf args, ∀ port, Weaves ok env (Woven ok) (output id port))
    (params : List Param) (hparams : ∀ p ∈ params, Hashless p.strings) :
    Weaves ok env (fun texts => ∀ text ∈ texts, Woven ok text) (Emit.arguments output args params) := by
  cases args with
    simp only [Emit.arguments, stringsOf, hashless_append, readsOf, forall_mem_append]
      at h houtput ⊢
  | nil => exact .pure (forall_mem_nil _)
  | cons arg args =>
    exact .bind (.pass (term arg h.1 houtput.1) (foldUpTo arg h.1 houtput.1)
      (fun p hp => hparams p (mem_of_mem_head? hp)) h.1) fun text htext =>
        .bind (arguments args h.2 houtput.2 params.tail fun p hp => hparams p (mem_of_mem_tail hp))
          fun texts htexts => .pure (forall_mem_cons.2 ⟨htext, htexts⟩)

theorem foldUpTo (t : Term) (h : Hashless t.strings)
    (houtput : ∀ id ∈ t.reads, ∀ port, Weaves ok env (Woven ok) (output id port)) (count : Nat) :
    Weaves ok env (Current.Woven ok) (Emit.foldUpTo output t count) := by
  cases t with
  | chain root steps =>
    rw [strings, hashless_append] at h
    rw [reads, forall_mem_append] at houtput
    simp only [Emit.foldUpTo]
    exact .bind (chainStart root h.1 houtput.1) fun start hstart =>
      fold steps h.2 houtput.2 0 count start hstart
  | _ =>
    simp only [Emit.foldUpTo]
    exact .fail _

end

theorem store {target : Term} (htarget : Hashless target.strings) {value : String}
    (hvalue : Woven ok value) (op : AssignOp)
    (houtput : ∀ id ∈ target.reads, ∀ port, Weaves ok env (Woven ok) (output id port)) :
    Weaves ok env (Woven ok) (Emit.store output target value op) :=
  .storeIn (.term target htarget houtput) (.foldUpTo target htarget houtput) hvalue htarget op

end Terms

/-! ## Statements and outputs -/

theorem paramNames (id : NodeId) (params : List ParamDecl) :
    Weaves ok env Hashless (Node.paramNames id params : Emit Node (List String)) := by
  induction params with
  | nil => exact .pure hashless_nil
  | cons p ps ih =>
    exact .bind (.nameFor _ _) fun _ hname => .bind ih fun _ hnames =>
      .pure (hashless_cons.2 ⟨hname, hnames⟩)

theorem otherValue (n : Node) (id : NodeId) (port : UInt16) :
    Weaves ok env (Woven ok) (n.otherValue id port : Emit Node String) := by
  unfold Node.otherValue
  split
  · split
    · exact (Weaves.nameFor _ _).imp fun name hname => .plain name hname
    · exact .fail _
  · exact .fail _

section Hooks

variable {services : Services Node}

theorem flows {targets : List (Option NodeId)}
    (h : ∀ target ∈ targets, Weaves ok env (Woven ok) (services.flow target)) :
    Weaves ok env (fun texts => ∀ text ∈ texts, Woven ok text) (Node.flows services targets) := by
  induction targets with
  | nil => exact .pure (forall_mem_nil _)
  | cons target targets ih =>
    refine .bind (h target mem_cons_self) fun text htext => ?_
    exact .bind (ih fun t ht => h t (mem_cons_of_mem _ ht)) fun texts htexts =>
      .pure (forall_mem_cons.2 ⟨htext, htexts⟩)

theorem sections {arms : List SwitchArm} (harms : Hashless (arms.flatMap SwitchArm.strings))
    (h : ∀ arm ∈ arms, Weaves ok env (Woven ok) (services.flow arm.target)) :
    Weaves ok env (fun sections => ∀ s ∈ sections,
      (∀ label ∈ s.labels, Woven ok label) ∧ Woven ok s.body) (Node.sections services arms) := by
  induction arms with
  | nil => exact .pure (forall_mem_nil _)
  | cons arm arms ih =>
    rw [flatMap_cons, hashless_append] at harms
    refine .bind (.literalTexts harms.1) fun labels hlabels =>
      .bind (h arm mem_cons_self) fun body hbody => ?_
    exact .bind (ih harms.2 fun a ha => h a (mem_cons_of_mem _ ha)) fun rest hrest =>
      .pure (forall_mem_cons.2 ⟨⟨hlabels, hbody⟩, hrest⟩)

theorem targetSlot {target : Option NodeId} {what : Misuse}
    (h : ∀ id ∈ target.toList, Weaves ok env (fun _ => True) (services.slot id)) :
    Weaves ok env (fun _ => True) (Node.targetSlot services target what) := by
  cases target with
  | none => exact .fail _
  | some id => exact h id (by simp)

variable {n : Node} (hn : Hashless n.strings) (id : NodeId)
  (houtput : ∀ source ∈ n.ports.valueSources, ∀ port,
    Weaves ok env (Woven ok) (services.output source port))
  (hslot : ∀ target ∈ n.ports.references, Weaves ok env (fun _ => True) (services.slot target))
include hn houtput hslot

/-- The statement of a node weaves if its branches, and the outputs and slots it asks for, do. -/
theorem code (hflow : ∀ target ∈ n.branches, Weaves ok env (Woven ok) (services.flow target)) :
    Weaves ok env (Woven ok) (n.code services id) := by
  -- the expressions of a node stand at its ports, and its sources are what those read
  have hterm (port : ValuePort) (hport : port ∈ n.ports.values)
      (hstrings : Hashless port.value.strings) :
      Weaves ok env (Woven ok) (Emit.term services.output port.value) :=
    .term port.value hstrings fun source hsource =>
      houtput source (Ports.reads_mem_valueSources port hport hsource)
  cases n with
  | sequence outputs => exact .bind (.flows hflow) fun _ htexts => .pure (.lines htexts)
  | branch condition onTrue onFalse next =>
    refine .bind (hterm ⟨"condition", condition⟩ mem_cons_self hn) fun _ hcondition => ?_
    refine .bind (hflow onTrue mem_cons_self) fun _ hthen => ?_
    exact .bind (hflow onFalse (by simp [Node.branches])) fun _ helse =>
      .pure (.branchText hcondition hthen helse)
  | switch value cases default next =>
    rw [Node.strings, hashless_append] at hn
    refine .bind (hterm ⟨"value", value⟩ mem_cons_self hn.1) fun _ hvalue => ?_
    refine .bind (.sections hn.2 fun arm harm => hflow arm.target ?_) fun _ hsections => ?_
    · exact mem_append_left _ (mem_map_of_mem harm)
    · refine .bind (hflow default (by simp [Node.branches])) fun body hbody =>
        .pure ((Woven.stable ok).switch hvalue hsections fun other hother => ?_)
      -- a default without code is left out
      split at hother
      · exact absurd hother (not_mem_none _)
      · rw [← some.inj hother]
        exact hbody
  | forLoop start stop step body next =>
    rw [Node.strings, hashless_append, hashless_append] at hn
    refine .bind (.nodeVariable id) fun index hindex => ?_
    refine .bind (hterm ⟨"start", start⟩ (by simp [Node.ports]) hn.1.1) fun _ hstart => ?_
    refine .bind (hterm ⟨"end", stop⟩ (by simp [Node.ports]) hn.1.2) fun _ hstop => ?_
    have hstep : Weaves ok env (Woven ok) (Node.stepText services index step) := by
      unfold Node.stepText
      split
      · refine .bind (hterm ⟨"step", step⟩ (by simp [Node.ports]) hn.2) fun _ hstep => .pure ?_
        exact (Woven.plain _ (by simp [hindex])).append hstep.operand
      · exact .pure (.plain _ (by simp [hindex]))
    refine .bind hstep fun _ hstep => .bind (hflow body mem_cons_self) fun _ hbody => .pure ?_
    -- the index is a plain name, which stands before both bounds
    refine (Woven.stable ok).forLoop ?_ ?_ hstep hbody
    · exact (Woven.plain _ (by simp [hindex])).append hstart
    · exact (Woven.plain _ (by simp [hindex])).append hstop.operand
  | forEach collection element body next =>
    rw [Node.strings, hashless_append] at hn
    refine .bind (.nodeVariable id) fun item hitem => .bind (.nameFor _ _) fun binding hbinding => ?_
    refine .bind (.typeText hn.2) fun type htype => ?_
    refine .bind (hterm ⟨"collection", collection⟩ mem_cons_self hn.1) fun _ hcollection => ?_
    refine .bind (.withScope (hflow body mem_cons_self) id) fun text htext => .pure ?_
    refine (Woven.stable ok).forEach (.plain _ htype) (.plain _ hbinding) hcollection (.lines ?_)
    refine forall_mem_cons.2 ⟨(Woven.stable ok).assign (.plain _ hitem) (.plain _ hbinding) _, ?_⟩
    exact forall_mem_singleton.2 htext
  | whileLoop condition body next =>
    refine .bind (hterm ⟨"condition", condition⟩ mem_cons_self hn) fun _ hcondition => ?_
    exact .bind (hflow body mem_cons_self) fun _ hbody =>
      .pure ((Woven.stable ok).whileLoop hcondition hbody)
  | invoke call next =>
    refine .bind (hterm ⟨"call", call⟩ mem_cons_self hn) fun _ hcall => .pure ?_
    exact hcall.append (.plain _ (by decide))
  | setValue target value op next =>
    rw [Node.strings, hashless_append] at hn
    refine .bind (hterm ⟨"value", value⟩ (by simp [Node.ports]) hn.2) fun text htext => ?_
    refine .store hn.1 htext op fun source hsource => houtput source ?_
    exact Ports.reads_mem_valueSources ⟨"target", target⟩ mem_cons_self hsource
  | localVariable name type value next =>
    rw [Node.strings, cons_append, hashless_cons, hashless_append] at hn
    refine .bind (.nodeVariable id) fun name hname => ?_
    have hassign (text : String) (htext : Woven ok text) :
        Weaves ok env (Woven ok) (Pure.pure (Fragment.assign name text .assign).text) :=
      .pure ((Woven.stable ok).assign (.plain _ hname) htext _)
    split
    · exact .bind (hterm ⟨"value", value⟩ mem_cons_self hn.2.2) hassign
    · refine .bind (.typeText hn.2.1) fun type htype => .bind (.pure (.plain _ ?_)) hassign
      simp [htype]
  | returnValue value =>
    refine .bind .get fun s _ => ?_
    dsimp only
    split
    · exact .bind (.demand _ _) fun _ _ => .pure (.plain _ (by decide))
    · split
      · refine .bind (.demand _ _) fun _ _ =>
          .bind (hterm ⟨"value", value⟩ mem_cons_self hn) fun _ htext => .pure ?_
        exact htext.between (by decide) (by decide)
      · exact .bind (.demand _ _) fun _ _ => .pure (.plain _ (by decide))
  | wait seconds next =>
    refine .bind (.bind .get fun _ _ => .demand _ _) fun _ _ => ?_
    unfold Node.yieldText
    -- a wait without a time yields nothing but `null`
    split
    · have hwait : Hashless Node.waitType.strings := by decide
      refine .bind (hterm ⟨"seconds", seconds⟩ mem_cons_self hn) fun _ hseconds =>
        .bind (.typeText hwait) fun type htype => .pure ?_
      have hvalue := ((Woven.plain ("new " ++ type ++ "(") (by simp [htype])).append hseconds).append
        (.plain ")" (by decide))
      exact hvalue.between (by decide) (by decide)
    · exact .pure (.plain _ (by decide))
  | stateScope body next => exact hflow body mem_cons_self
  | stopUnit target next =>
    refine .bind (.targetSlot hslot) fun slot _ => .pure ?_
    exact (Woven.slot (by decide) (by decide) slot).append (.plain _ (by decide))
  | _ => exact .fail _

theorem mainValue (hflow : ∀ target, n.lambdaBody = some target →
      Weaves ok env (Woven ok) (services.flow (some target)))
    (hnone : Weaves ok env (Woven ok) (services.flow none)) :
    Weaves ok env (Woven ok) (n.mainValue services id) := by
  have hvariable : Weaves ok env (Woven ok) (Emit.nodeVariable id) :=
    (Weaves.nodeVariable id).imp fun name hname => .plain name hname
  cases n with
  | forLoop start stop step body next | localVariable name type value next => exact hvariable
  | forEach collection element body next =>
    exact .bind (.inScope id) fun _ _ => .bind (.demand _ _) fun _ _ => hvariable
  | unitStatus target query =>
    have hquery : '#' ∉ (runtimeProperty ++ "." ++ query.methodName ++ "(").toList := by
      cases query <;> decide
    exact .bind (.targetSlot hslot) fun slot _ => .pure (.slot hquery (by decide) slot)
  | literal value => exact .literalText hn
  | member value =>
    refine .term value hn fun source hsource => houtput source ?_
    exact Ports.reads_mem_valueSources ⟨"value", value⟩ mem_cons_self hsource
  | operator op operands cast =>
    rw [Node.strings, hashless_append] at hn
    refine .bind (.terms operands hn.1 fun source hsource =>
      houtput source (Node.operands_mem_valueSources hsource)) fun _ htexts => ?_
    cases cast with
    | none =>
      exact .bind (.pure fun _ h => absurd h (not_mem_none _)) fun _ hcast =>
        .operatorText htexts hcast
    | some type =>
      have htype : Hashless type.strings := hn.2.of_mem_flatMap (mem_toList.2 rfl)
      refine .bind (.map (.typeText htype) fun text htext => ?_) fun _ hcast =>
        .operatorText htexts hcast
      intro other hother
      rw [← some.inj hother]
      exact .plain _ htext
  | lambda params returnType body =>
    rw [Node.strings, hashless_append] at hn
    have hbody : Weaves ok env (Woven ok) (services.flow body) := by
      cases body with
      | none => exact hnone
      | some target => exact hflow target rfl
    refine .bind (.paramNames id params) fun names hnames =>
      .bind (.atPlace hbody fun _ _ => hn.2) fun _ htext => .pure (.lambda ?_ htext)
    exact fun name hname => .plain _ (hnames name hname)
  | _ => exact .fail _

end Hooks

end Emit.Weaves

end FlowClass
