import FlowClass.Proofs.Emission.Splices
import FlowClass.Proofs.Program.Origins

/-!
# Chains of plain nodes

A graph is *straight* if its flow nodes are plain: calls of own methods without arguments, branches,
sequences and bare returns, none of them a unit. Every chain of a straight graph that comes to a text
without a diagnostic writes the lowered code of the nodes it goes through, at whatever depth it is
emitted (`writes_flow`), and so does the body of every shared node (`writes_shared`). Where a chain
comes to a shared node it calls the method of the node.
-/

namespace FlowClass

open Program Emit Node List

variable {text : String} {n : Node} {s s' : State}

/-- The name of the method of a shared node, if the method gives no value. -/
def State.voidMethod? (s : State) (id : NodeId) : Option String :=
  (s.shared.lookup id).bind fun m => if m.2.isVoid then some m.1 else none

/-- A condition may have the text: an emission of it gives the text, wherever that is. -/
def Env.spells (env : Env Node) (condition : Term) (text : String) : Prop :=
  ∃ (depth : Nat) (s s' : State), s.Tidy ∧
    Emit.term (Emit.outputAt depth) condition env s = (.ok text, s')

/-- Some work is lowered to some code, where `method` are the methods that are known. -/
def Env.Lowers (env : Env Node) (names : List (DeclId × String)) (method : NodeId → Option String) :
    List Work → List Stmt → Prop :=
  Lowered env.graph names env.spells method env.table.isShared

/-- The text is the work, lowered. -/
def Written (env : Env Node) (s : State) (work : List Work) (text : String) : Prop :=
  ∃ code, Block text code ∧ env.Lowers s.symbols.declNames s.voidMethod? work code

/-- The texts are the work, lowered, when they are put one after the other. -/
def WrittenParts (env : Env Node) (s : State) (work : List Work) (texts : List String) : Prop :=
  ∃ codes, List.Forall₂ Block texts codes ∧
    env.Lowers s.symbols.declNames s.voidMethod? work codes.flatten

theorem State.Kept.voidMethod? (h : s.Kept s') {id : NodeId} {name : String}
    (hname : s.voidMethod? id = some name) : s'.voidMethod? id = some name := by
  unfold State.voidMethod? at hname ⊢
  obtain ⟨m, hm, hvoid⟩ := Option.bind_eq_some_iff.1 hname
  rw [h.shared hm]
  exact hvoid

/-- What is written stays written when more code is added. -/
theorem State.Kept.written {env : Env Node} {work : List Work} (h : s.Kept s')
    (hwritten : Written env s work text) : Written env s' work text := by
  obtain ⟨code, hblock, hlowered⟩ := hwritten
  refine ⟨code, hblock, ?_⟩
  rw [h.declNames]
  exact hlowered.mono fun _ _ => h.voidMethod?

/-! ## Straight graphs -/

/-- The statement of the node is a call of an own method, a branch, a sequence or a bare return. -/
def Node.isPlain (names : List (DeclId × String)) : Node → Bool
  | .sequence _ => true
  | .branch .. => true
  | .returnValue value => !value.isAssigned
  | .invoke call next => ((invoke call next).ownCall? names).any isWord
  | _ => false

/-- Wherever the condition is emitted, it is an expression, and nothing is put around its
statement. -/
def Env.IsExpression (env : Env Node) (condition : Term) : Prop :=
  ∀ (depth : Nat) (s : State) (text : String) (s' : State), s.Tidy →
    term (outputAt depth) condition env s = (.ok text, s') →
    Condition text ∧ s'.splices = s.splices

/-- A truth value or a variable. -/
def Term.isSimple : Term → Bool
  | .literal (.bool _) => true
  | .variable _ => true
  | _ => false

namespace Emit

variable {env : Env Node} {s s' : State} {text : String}

theorem keyedVariable_run {key : SymbolKey} {what : Missing} (hs : s.Tidy)
    (hrun : keyedVariable key what env s = (.ok text, s')) :
    isName text = true ∧ s'.splices = s.splices := by
  unfold keyedVariable at hrun
  rw [get_bind] at hrun
  cases hhandle : s.symbols.variableHandle? key with
  | none =>
    rw [hhandle] at hrun
    cases hrun
  | some handle =>
    rw [hhandle] at hrun
    dsimp only at hrun
    unfold variableName at hrun
    rw [get_bind] at hrun
    rcases huse : s.symbols.useVariable handle s.place.body with _ | ⟨name, symbols⟩
    · rw [huse] at hrun
      cases hrun
    · rw [huse] at hrun
      cases hrun
      obtain ⟨v, hv, huse⟩ := Option.map_eq_some_iff.1 huse
      cases huse
      exact ⟨hs.1 v (List.mem_of_getElem? hv), rfl⟩

theorem parameter_run {owner : DeclId} {index : UInt64} (hs : s.Tidy)
    (hrun : parameter owner index env s = (.ok text, s')) :
    isName text = true ∧ s'.splices = s.splices := by
  obtain ⟨_, _, hcase⟩ | ⟨name, type, _, hparam, _, ⟨_, hcase⟩ | ⟨_, hcase⟩⟩ :=
    parameter_cases owner index s <;> rw [hcase] at hrun
  · cases hrun
  · cases hrun
    exact ⟨hs.2.2.2.1 _ (mem_of_lookup hparam), rfl⟩
  · -- a field that the parameter is copied into, under a name of its own
    obtain ⟨htext, rfl⟩ := Prod.mk.inj hrun
    refine ⟨Except.ok.inj htext ▸ ?_, rfl⟩
    obtain ⟨hvars, _⟩ := hs.registerVariable
      { key := .param owner index.toNat, name, type, storage := .field }
    generalize hv : SymbolTable.variableAt? _ _ = found
    cases found with
    | none => exact hs.2.2.2.1 _ (mem_of_lookup hparam)
    | some v => exact hvars v (List.mem_of_getElem? hv)

end Emit

/-- Truth values and variables are expressions. -/
theorem Env.isExpression_of_isSimple (env : Env Node) {condition : Term}
    (h : condition.isSimple = true) : env.IsExpression condition := by
  intro depth s text s' hs hrun
  unfold Term.isSimple at h
  split at h
  · rename_i value
    have hliteral : term (outputAt depth) (.literal (.bool value)) env s =
        (.ok (if value then "true" else "false"), s) := by
      cases value <;> rfl
    rw [hliteral] at hrun
    cases hrun
    refine ⟨.of_isName ?_, rfl⟩
    cases value <;> decide +kernel
  · rename_i ref
    have hname : isName text = true ∧ s'.splices = s.splices := by
      cases ref with
      | field decl | localOf _ decl => exact keyedVariable_run hs hrun
      | parameter owner index => exact parameter_run hs hrun
      | setterValue =>
        change (do
          let place := (← get).place
          demand (place.kind = .setter) (.setterValue place.ownerName)
          return "value" : Emit Node String) env s = _ at hrun
        rw [get_bind, demand_bind] at hrun
        split at hrun
        · cases hrun
          exact ⟨by decide +kernel, rfl⟩
        · cases hrun
    exact ⟨.of_isName hname.1, hname.2⟩
  · cases h

/-- The flow of the graph is plain; `names` are those of the declarations. -/
structure Straight (env : Env Node) (names : List (DeclId × String)) : Prop where
  stateless : env.table.stateNodes = []
  plain : ∀ id n, env.graph.get? id = some n → n.isFlow = true → n.isPlain names = true
  conditions : ∀ id condition onTrue onFalse next,
    env.graph.get? id = some (.branch condition onTrue onFalse next) → env.IsExpression condition
  /-- No declared method takes the name of the method of a node. -/
  undeclared : ∀ id n, env.graph.get? id = some n →
    n.methodBase id ∉ env.graph.classDecl.methodNames

/-- The text is the statement of a node: put before its continuation, it is the whole node, whatever
methods get known later. -/
def Stated (env : Env Node) (s : State) (id : NodeId) (n : Node) (text : String) : Prop :=
  ∃ code, Block text code ∧ ∀ method : NodeId → Option String,
    (∀ x name, s.voidMethod? x = some name → method x = some name) → ∀ rest code',
    env.Lowers s.symbols.declNames method (.go (NodeShape.next n) :: rest) code' →
    env.Lowers s.symbols.declNames method (.here id :: rest) (code ++ code')

section Stated

variable {env : Env Node} {s : State} {id : NodeId}

theorem Stated.layout {text' : String} (h : Stated env s id n text)
    (hblock : ∀ code, Block text code → Block text' code) : Stated env s id n text' := by
  obtain ⟨code, htext, hcode⟩ := h
  exact ⟨code, hblock code htext, hcode⟩

theorem stated_call {name : String} (hn : env.graph.get? id = some n)
    (hname : n.ownCall? s.symbols.declNames = some name) (hword : isWord name = true) :
    Stated env s id n (name ++ "();") :=
  ⟨_, .one (.call hword), fun _ _ _ _ hrest => .invoke hn hname hrest⟩

theorem stated_return {value : Term} (hn : env.graph.get? id = some (.returnValue value))
    (hvalue : value.isAssigned = false) : Stated env s id (.returnValue value) "return;" := by
  refine ⟨_, .one .leave, fun method _ rest code' hrest => ?_⟩
  cases hrest with
  | nowhere hrest => exact .leave hn hvalue hrest

theorem stated_branch {condition : Term} {onTrue onFalse next : Option NodeId}
    {thenBody elseBody : String}
    (hn : env.graph.get? id = some (.branch condition onTrue onFalse next))
    (hspelled : env.spells condition text) (htext : Condition text)
    (htrue : Written env s [.go onTrue] thenBody) (hfalse : Written env s [.go onFalse] elseBody) :
    Stated env s id (.branch condition onTrue onFalse next)
      (branchText text thenBody elseBody) := by
  obtain ⟨trueCode, htrueBlock, htrue⟩ := htrue
  obtain ⟨falseCode, hfalseBlock, hfalse⟩ := hfalse
  refine ⟨_, .one (.branch htext htrueBlock hfalseBlock), fun method hmono rest code' hrest => ?_⟩
  exact .branch hn hspelled (htrue.mono hmono) (hfalse.mono hmono) hrest

theorem stated_sequence {outputs : List (Option NodeId)} {texts : List String}
    (hn : env.graph.get? id = some (.sequence outputs))
    (hwritten : WrittenParts env s (outputs.map .go) texts) :
    Stated env s id (.sequence outputs) (Code.lines texts) := by
  obtain ⟨codes, hblocks, hlowered⟩ := hwritten
  refine ⟨_, .lines hblocks, fun method hmono rest code' hrest => .sequence hn ?_⟩
  cases hrest with
  | nowhere hrest => exact (hlowered.mono hmono).append hrest

end Stated

namespace Emit

/-- Statements can be emitted: nothing waits here, and no value is due. -/
structure InVoid (env : Env Node) (base s : State) : Prop where
  callable : Callable env base s
  resumable : s.place.resumable = false
  void : s.place.returnType.isVoid = true

/-- An emission that succeeds without a diagnostic writes some work, if no value is due. -/
def Writes (env : Env Node) (base : State) (work : List Work) (x : Emit Node String) : Prop :=
  ∀ {s text s'}, InVoid env base s → x env s = (.ok text, s') → s'.diagnostics = [] →
    Written env s' work text

variable {α : Type} {env : Env Node} {base : State} {depth : Nat} {id : NodeId}

theorem InVoid.moves (h : InVoid env base s) (hmoves : Moves env s s') : InVoid env base s' where
  callable := h.callable.moves hmoves
  resumable := hmoves.place ▸ h.resumable
  void := hmoves.place ▸ h.void

theorem InVoid.run {x : Emit Node α} {r : Except GenError α} (h : InVoid env base s)
    (hx : Moving env env.sealed x) (hrun : x env s = (r, s')) : Moves env s s' := by
  have hmoves := hx s h.callable.frozen
  rwa [hrun] at hmoves

/-! ## Statements -/

section Statements

theorem moving_flow (env : Env Node) (depth : Nat) (target : Option NodeId) :
    Moving env env.sealed ((servicesAt depth).flow target) :=
  ((moving env env.sealed).level depth).1.flow target

theorem moving_flows (env : Env Node) (depth : Nat) (targets : List (Option NodeId)) :
    (moving env env.sealed).congruence.rel (leads targets) (flows (servicesAt depth) targets)
      (flows (servicesAt depth) targets) :=
  (moving env env.sealed).congruence.flows fun target _ => moving_flow env depth target

section

variable (h : ∀ target, Writes env base [.go target] ((servicesAt depth).flow target))
include h

/-- The chains of several ports are written one after the other. -/
theorem flows_run {targets : List (Option NodeId)} {texts : List String} (hs : InVoid env base s)
    (hrun : flows (servicesAt depth) targets env s = (.ok texts, s')) (hclean : s'.diagnostics = []) :
    WrittenParts env s' (targets.map .go) texts := by
  induction targets generalizing s texts with
  | nil =>
    cases hrun
    exact ⟨[], .nil, .done⟩
  | cons target targets ih =>
    obtain ⟨text, s₁, hfirst, hrest⟩ := bind_eq_ok_iff.1 hrun
    obtain ⟨texts, s₂, hrest, hend⟩ := bind_eq_ok_iff.1 hrest
    cases hend
    have hs₁ := hs.moves (hs.run (moving_flow env depth target) hfirst)
    have hext := (hs₁.run (moving_flows env depth targets) hrest).kept
    obtain ⟨code, hblock, hlowered⟩ := hext.written (h target hs hfirst (hext.clean hclean))
    obtain ⟨codes, hblocks, hlowereds⟩ := ih hs₁ hrest
    exact ⟨code :: codes, .cons hblock hblocks, hlowered.append hlowereds⟩

omit h in
/-- An own method without arguments is called by its name. -/
theorem ownCall_run {name : String} (services : Services Node) (id : NodeId)
    (h : n.ownCall? s.symbols.declNames = some name) :
    n.code services id env s = (.ok (name ++ "();"), s) := by
  unfold ownCall? at h
  split at h
  · rename_i step next
    obtain ⟨member, kind, type, params, args, typeArgs, reflected, decl⟩ := step
    split at h
    · rename_i hstep
      simp only [Bool.and_eq_true, decide_eq_true_eq, List.isEmpty_iff, Bool.not_eq_true'] at hstep
      obtain ⟨⟨⟨rfl, rfl⟩, rfl⟩, rfl⟩ := hstep
      -- a declared method goes by the name it was given, any other by its own
      have hname : (memberName ⟨member, .method, type, params, [], [], false, decl⟩ :
          Emit Node String) env s = (.ok name, s) := by
        cases decl with
        | none => cases h; rfl
        | some d =>
          have hknown : (declName? d : Emit Node (Option String)) env s = (.ok (some name), s) := by
            change (Except.ok (s.symbols.declNames.lookup d), s) = _
            rw [show s.symbols.declNames.lookup d = some name from h]
          unfold memberName
          dsimp only
          rw [bind_eq_of_ok hknown]
          rfl
      have hmethod : (applyMethod ⟨member, .method, type, params, [], [], false, decl⟩ .self
          (arguments services.output [] params) : Emit Node String) env s =
            (.ok (name ++ "" ++ "(" ++ joinText ", " [] ++ ")"), s) := by
        unfold applyMethod
        rw [bind_eq_of_ok hname]
        rfl
      have hterm : term services.output (.chain .self
          [⟨member, .method, type, params, [], [], false, decl⟩]) env s =
            (.ok (name ++ "" ++ "(" ++ joinText ", " [] ++ ")"), s) := by
        simp only [term, chainStart, fold, stepArgs, applyStep, List.length_singleton, pure_bind,
          map_eq_pure_bind, bind_assoc]
        rw [bind_eq_of_ok hmethod]
        rfl
      refine (bind_eq_of_ok hterm).trans ?_
      simp [pure_apply, Fragment.invoke, joinText, String.append_assoc]
    · cases h
  · cases h

/-- The statement of a node is written if the chains are that it leads into, and nothing is put
around it. -/
theorem code_run (hstraight : Straight env base.symbols.declNames)
    (hn : env.graph.get? id = some n) (hs : InVoid env base s)
    (hrun : n.code (servicesAt depth) id env s = (.ok text, s')) (hclean : s'.diagnostics = []) :
    Stated env s' id n text ∧ s'.splices = s.splices := by
  have hplain := hstraight.plain id n hn
  cases n with
  | sequence outputs =>
    obtain ⟨texts, s₁, hflows, hend⟩ := bind_eq_ok_iff.1 hrun
    cases hend
    exact ⟨stated_sequence hn (flows_run h hs hflows hclean),
      splices_eq (flows_leave depth outputs) hflows⟩
  | branch condition onTrue onFalse next =>
    obtain ⟨condition', s₁, hcondition, hrest⟩ := bind_eq_ok_iff.1 hrun
    obtain ⟨thenBody, s₂, hthen, hrest⟩ := bind_eq_ok_iff.1 hrest
    obtain ⟨elseBody, s₃, helse, hend⟩ := bind_eq_ok_iff.1 hrest
    cases hend
    have hterm : (moving env env.sealed).congruence.rel 0 (term (outputAt depth) condition)
        (term (outputAt depth) condition) :=
      (moving env env.sealed).congruence.term condition fun source _ port =>
        ((moving env env.sealed).level depth).1.output source port
    -- each part is emitted in a state that the one before has moved to
    have hs₁ := hs.moves (hs.run hterm hcondition)
    have hs₂ := hs₁.moves (hs₁.run (moving_flow env depth onTrue) hthen)
    have hext := (hs₂.run (moving_flow env depth onFalse) helse).kept
    obtain ⟨hexpression, hsplices⟩ := hstraight.conditions id condition onTrue onFalse next hn depth s
      condition' s₁ hs.callable.tidy hcondition
    refine ⟨stated_branch hn ⟨depth, s, s₁, hs.callable.tidy, hcondition⟩ hexpression
      (hext.written (h onTrue hs₁ hthen (hext.clean hclean))) (h onFalse hs₂ helse hclean), ?_⟩
    rw [splices_eq ((flow_leaves depth).2 false onFalse) helse,
      splices_eq ((flow_leaves depth).2 false onTrue) hthen, hsplices]
  | invoke call next =>
    obtain ⟨name, hname, hword⟩ := (Option.any_eq_true _ _).1 (hplain rfl)
    rw [← hs.callable.declNames] at hname
    rw [ownCall_run (servicesAt depth) id hname] at hrun
    cases hrun
    exact ⟨stated_call hn hname hword, rfl⟩
  | returnValue value =>
    have hvalue : value.isAssigned = false := by simpa [isPlain] using hplain rfl
    have hcode : (returnValue value).code (servicesAt depth) id env s = (.ok "return;", s) := by
      change returnText (servicesAt depth) value env s = _
      unfold returnText
      rw [get_bind]
      simp only [hs.resumable, hvalue, Bool.false_eq_true, if_false]
      rw [demand_bind, if_pos hs.void]
      rfl
    rw [hcode] at hrun
    cases hrun
    exact ⟨stated_return hn hvalue, rfl⟩
  | switch | forLoop | forEach | whileLoop | setValue | localVariable | wait | stateScope
  | stopUnit => cases hplain rfl
  | unitStatus | literal | member | operator | lambda => cases hrun

/-- Nothing is put around the statement of a plain node but its marks. -/
theorem statement_run (hstraight : Straight env base.symbols.declNames)
    (hn : env.graph.get? id = some n) (hs : InVoid env base s)
    (hrun : statement (servicesAt depth) id env s = (.ok text, s')) (hclean : s'.diagnostics = []) :
    Stated env s' id n text := by
  obtain ⟨own, s₁, hown, rfl, rfl⟩ := statement_eq_ok hn hrun
  have hinto : InVoid env base (intoStatement id s) :=
    ⟨hs.callable.around _ _ _ _ _, hs.resumable, hs.void⟩
  have hclean₁ : s₁.diagnostics = [] := hclean
  obtain ⟨hstated, hsplices⟩ := code_run h hstraight hn hinto hown hclean₁
  refine hstated.layout fun code hblock => Block.mark ?_ _ _
  rw [hsplices]
  simpa using Block.lines (.cons hblock .nil)

end

end Statements

/-! ## Calling a method -/

/-- The call of a method that gives no value is all that a shared node needs. -/
theorem written_sharedCall (hstraight : Straight env base.symbols.declNames)
    (hs : Callable env base s) (hn : env.graph.get? id = some n)
    (hshared : env.table.isShared id = true) {name : String} {type : Ty}
    (hm : s.shared.lookup id = some (name, type)) (hvoid : type.isVoid = true) :
    Written env s [.go (some id)] (sharedCall type name) := by
  have htext : sharedCall type name = name ++ "();" := by
    unfold sharedCall
    rw [if_pos hvoid]
    exact String.append_assoc
  have hname : s.voidMethod? id = some name := by
    unfold State.voidMethod?
    rw [hm]
    exact if_pos hvoid
  have hword : isWord name = true := by
    obtain hdeclared | ⟨names, rfl⟩ := hs.shared id n _ hn hm
    · exact absurd hdeclared (hstraight.undeclared id n hn)
    · exact isWord_methodName names id n
  refine ⟨[.call name], ?_, .call ?_ hshared hname .done⟩
  · rw [htext]
    exact .one (.call hword)
  · simp [Graph.contains, hn]

/-- A call goes on in the method of a shared node, whether it is entered now or known before. -/
theorem callShared_run (hstraight : Straight env base.symbols.declNames)
    (hn : env.graph.get? id = some n) (hshared : env.table.isShared id = true)
    (hs : InVoid env base s)
    (hrun : callShared (fun id => chainAt depth true (some id)) id env s = (.ok text, s')) :
    Written env s' [.go (some id)] text := by
  have hlevel := ((moving env env.sealed).level depth).2 true (some id)
  have hcallable := hs.callable.moves (hs.run (moving_callShared hlevel) hrun)
  obtain ⟨_, _, hcase⟩ | ⟨name, hknown, hcase⟩ |
    ⟨hnew, _, handle, symbols, names, ⟨⟩, hmethod, ⟨_, hcase⟩ | ⟨m, hm, hcase⟩⟩ :=
    callShared_cases id (some n) s
  · rw [hcase _ env hn] at hrun
    cases hrun
  · rw [hcase] at hrun
    cases hrun
    exact written_sharedCall hstraight hcallable hn hshared hknown hs.void
  · rw [hcase _ env hn] at hrun
    cases hrun
  · have hstart := hs.callable.intoShared hmethod hn hnew hm
    have hmoves := hlevel _ hstart.frozen
    rcases hinner : chainAt depth true (some id) env
      (s.intoShared id s.place.returnType symbols names m) with ⟨e | body, s₁⟩
    · rw [hcase _ env hn _ _ hinner] at hrun
      cases hrun
    · rw [hinner] at hmoves
      rw [hcase _ env hn _ _ hinner] at hrun
      cases hrun
      exact written_sharedCall hstraight hcallable hn hshared (hmoves.kept.shared lookup_cons_self)
        hs.void

/-! ## Chains -/

theorem moving_partsAt (env : Env Node) (depth steps : Nat) (inline : Bool) (seen : List NodeId)
    (target : Option NodeId) : Moving env env.sealed (partsAt depth steps inline seen target) := by
  let p := moving env env.sealed
  have hlevel := p.level depth
  exact p.chainParts (fun id => p.recover id (p.startUnit (hlevel.1.slot id)))
    (fun id => p.recover id (p.callShared (hlevel.2 true (some id))))
    (fun id => p.recover id (hlevel.1.statement id)) _ _ _ _

/-- Where nothing is reported nothing has failed. -/
theorem of_recover {x : Emit Node String} (hrun : recover id x env s = (.ok text, s'))
    (hclean : s'.diagnostics = []) : x env s = (.ok text, s') := by
  obtain ⟨text', s₁, hinner, hend⟩ | ⟨e, s₁, _, ⟨_, text', hend⟩ | ⟨_, hend⟩⟩ :=
    recover_cases id x env s <;> cases hrun.symm.trans hend
  · exact hinner
  · exact absurd hclean (append_ne_nil_of_right_ne_nil _ (by simp))

section Parts

variable {steps : Nat} {parts : List String} (hstraight : Straight env base.symbols.declNames)
  (h : ∀ target, Writes env base [.go target] ((servicesAt depth).flow target))
include hstraight h

/-- A node in place and the chain after it. -/
theorem inPlace_run (hn : env.graph.get? id = some n) {seen : List NodeId}
    (hrest : ∀ {s : State} {parts : List String}, InVoid env base s →
      partsAt depth steps false seen (NodeShape.next n) env s = (.ok parts, s') →
      WrittenParts env s' [.go (NodeShape.next n)] parts)
    (hs : InVoid env base s) (hrun : (do
      let text ← recover id (statement (servicesAt depth) id)
      let rest ← partsAt depth steps false seen (NodeShape.next n)
      return text :: rest : Emit Node (List String)) env s = (.ok parts, s'))
    (hclean : s'.diagnostics = []) : WrittenParts env s' [.here id] parts := by
  obtain ⟨text, s₁, hfirst, hrun⟩ := bind_eq_ok_iff.1 hrun
  obtain ⟨texts, s₂, hnext, hend⟩ := bind_eq_ok_iff.1 hrun
  cases hend
  have hstatement : Moving env env.sealed (recover id (statement (servicesAt depth) id)) :=
    (((moving env env.sealed).level depth).1.statement id).recover id
  have hs₁ := hs.moves (hs.run hstatement hfirst)
  have hext := (hs₁.run (moving_partsAt env depth steps false seen _) hnext).kept
  have hclean₁ := hext.clean hclean
  obtain ⟨code, hblock, hcode⟩ := statement_run h hstraight hn hs (of_recover hfirst hclean₁) hclean₁
  obtain ⟨codes, hblocks, hlowered⟩ := hrest hs₁ hnext
  refine ⟨code :: codes, .cons hblock hblocks, ?_⟩
  rw [hext.declNames] at hlowered ⊢
  exact hcode s'.voidMethod? (fun _ _ => hext.voidMethod?) [] _ hlowered

/-- A chain writes the nodes it goes through, up to a shared one. -/
theorem parts_run {seen : List NodeId} {target : Option NodeId} (hs : InVoid env base s)
    (hrun : partsAt depth steps false seen target env s = (.ok parts, s'))
    (hclean : s'.diagnostics = []) : WrittenParts env s' [.go target] parts := by
  induction steps generalizing seen target s parts with
  | zero => cases hrun
  | succ steps ih =>
    cases target with
    | none =>
      cases hrun
      exact ⟨[], .nil, .nowhere .done⟩
    | some id =>
      unfold partsAt at hrun
      rw [chainParts_some _ _ _ steps false seen id hs.callable.frozen] at hrun
      cases hn : env.graph.get? id with
      | none =>
        rw [hn] at hrun
        cases hrun
        exact ⟨[], .nil, .absent hn .done⟩
      | some n =>
        have hstate : id ∉ env.sealed.stateNodes := by
          rw [show env.sealed.stateNodes = [] from hstraight.stateless]
          exact not_mem_nil
        simp only [hn, hstate, true_and, if_false] at hrun
        split at hrun
        · rename_i hshared
          obtain ⟨text, s₁, hcall, hend⟩ := bind_eq_ok_iff.1 hrun
          cases hend
          obtain ⟨code, hblock, hlowered⟩ :=
            callShared_run hstraight hn hshared hs (of_recover hcall hclean)
          exact ⟨[code], .cons hblock .nil, by simpa using hlowered⟩
        · rename_i hshared
          split at hrun
          -- a second visit would fail
          · cases hrun
          · obtain ⟨codes, hblocks, hlowered⟩ :=
              inPlace_run hstraight h hn (fun hs hrun => ih hs hrun) hs hrun hclean
            exact ⟨codes, hblocks,
              .go (by simp [Graph.contains, hn]) (Bool.eq_false_of_not_eq_true hshared) hlowered⟩

omit hstraight h in
/-- A chain writes what its parts are. -/
theorem writes_chainAt {work : List Work} {inline : Bool} {target : Option NodeId}
    (hparts : ∀ {s parts s'}, InVoid env base s →
      partsAt depth (env.graph.size + 1) inline [] target env s = (.ok parts, s') →
      s'.diagnostics = [] → WrittenParts env s' work parts) :
    Writes env base work (chainAt (depth + 1) inline target) := by
  intro s text s' hs hrun hclean
  rw [chainAt_succ_apply] at hrun
  obtain ⟨parts, s₁, hrun, hend⟩ := bind_eq_ok_iff.1 hrun
  cases hend
  obtain ⟨codes, hblocks, hlowered⟩ := hparts hs hrun hclean
  exact ⟨codes.flatten, .lines hblocks, hlowered⟩

end Parts

section Levels

variable (hstraight : Straight env base.symbols.declNames)
include hstraight

/-- Every chain writes the nodes it goes through. -/
theorem writes_flow (depth : Nat) (target : Option NodeId) :
    Writes env base [.go target] (chainAt depth false target) := by
  induction depth generalizing target with
  | zero =>
    intro s text s' _ hrun
    cases hrun
  | succ depth ih => exact writes_chainAt (parts_run hstraight ih)

/-- A chain whose first node is written in place. -/
theorem writes_shared (depth : Nat) (hn : env.graph.get? id = some n) :
    Writes env base [.here id] (chainAt depth true (some id)) := by
  cases depth with
  | zero =>
    intro s text s' _ hrun
    cases hrun
  | succ depth =>
    refine writes_chainAt fun {s parts s'} hs hrun hclean => ?_
    have hflow (target : Option NodeId) :
        Writes env base [.go target] ((servicesAt depth).flow target) :=
      writes_flow hstraight depth target
    unfold partsAt at hrun
    rw [chainParts_some _ _ _ env.graph.size true [] id hs.callable.frozen] at hrun
    simp only [hn] at hrun
    exact inPlace_run hstraight hflow hn (fun hs hrun => parts_run hstraight hflow hs hrun hclean) hs
      hrun hclean

end Levels

end Emit

end FlowClass
