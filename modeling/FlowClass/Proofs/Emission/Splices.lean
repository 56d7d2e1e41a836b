import FlowClass.Proofs.Code.Jumps
import FlowClass.Proofs.Emission.Level
import FlowClass.Proofs.Emission.Preparation

/-!
# What is put around a statement

A value that is passed by reference is kept in a temporary: the splice of the statement that passes it
declares the temporary before the statement, and writes it back after it. Every emission is back
where it started but for the splice it stands in (`returning`), and chains leave even that alone
(`flow_leaves`): what is put around a statement comes from the terms of that statement.

A statement that has something put around it is no jump by its own words (`code_cases`). So nothing is
written back after a jump, with one exception: a value that is returned may pass something by reference, and
then the write-back comes after the `return` (`write_backs_after_return_only`).
-/

namespace FlowClass

open Code Fragment

namespace Emit

/-! ## Where emissions end -/

/-- To be back where it started is pervasive. -/
def returning : Pervasive fun _ => True :=
  (Lasting.situational (R := State.Back) {
    trans h h' := h.trans h'
    clerical {s s'} h := by
      obtain ⟨_, hplace, hreading, hsplices, hscopes⟩ := by
        simpa only [State.situation, Prod.mk.injEq] using h
      have hsplice : s'.splice = s.splice := congrArg (·.headD {}) hsplices
      exact ⟨hplace, hreading, hscopes, congrArg _ hsplices, congrArg _ hsplices,
        hsplice ▸ .refl _⟩
    placed h := ⟨rfl, h.reading, h.scopes, h.spliceDepth, h.spliceTail, h.splice⟩
    diagnosed _ _ _ := ⟨rfl, rfl, rfl, rfl, rfl, .refl _⟩ }).pervasive
    (fun hx env s => (hx.quiet.frame env s).toBack)
    fun {_ _ _ _ _ b} hy _ _ hx env s => by
      subst hy
      exact b.back (hx env _)

/-- Whatever is emitted, whether it succeeds or fails, is back where it started: the place, the outputs
that are being read, the loops around and the splices are what they were, except that the innermost
splice may have got more at its ends. -/
theorem context_restored (depth : Nat) (env : Env Node) (s : State) :
    (∀ target, s.Back ((servicesAt depth).flow target env s).2) ∧
    (∀ target type, s.Back (nested (servicesAt depth) target type env s).2) ∧
    (∀ t, s.Back (term (servicesAt depth).output t env s).2) ∧
    (∀ target value op, s.Back (store (servicesAt depth).output target value op env s).2) ∧
    (∀ id port, s.Back ((servicesAt depth).output id port env s).2) ∧
    (∀ id, s.Back ((servicesAt depth).slot id env s).2) ∧
    ∀ e, s.Back (entry e env s).2 := by
  obtain ⟨hflow, houtput, hslot⟩ := (returning.level depth).1
  have hread (ids : List NodeId) : ∀ id ∈ ids, ∀ port, returning.congruence.rel 0
      ((servicesAt depth).output id port) ((servicesAt depth).output id port) :=
    fun id _ port => houtput id port
  refine ⟨fun target => hflow target env s,
    fun target type => returning.nested type (hflow target) env s,
    fun t => returning.congruence.term t (hread _) env s,
    fun target value op => returning.congruence.store target value op (hread _) env s,
    fun id port => houtput id port env s, fun id => hslot id env s, fun e => ?_⟩
  rw [entry_apply]
  obtain ⟨err, _, hrun⟩ | ⟨body, decl, place, _, _, _, hrun⟩ :=
    entryWith_cases env.graph.classDecl e s
  · rw [hrun _ env rfl]
    exact (State.Frame.refl s).toBack
  · rw [hrun _ env rfl]
    refine (returning.bind (fun env' s' => ?_)
      fun _ _ _ => ⟨rfl, rfl, rfl, rfl, rfl, .refl _⟩ : returning.holds _) env s
    rw [withPlace_eq]
    exact (Bracket.place fun _ => place).back ((returning.level env.depth).2 false (some e.node) env' _)

/-- To leave the splices alone. -/
def leveling : Situational fun _ => True :=
  Lasting.situational (R := fun s s' => s'.splices = s.splices) {
    trans h h' := h'.trans h
    clerical h := congrArg (·.2.2.2.1) h
    placed h := h
    diagnosed _ _ _ := rfl }

/-- A statement has a splice of its own. -/
theorem statement_leaves (depth : Nat) (id : NodeId) :
    leveling.holds (statement (servicesAt depth) id) := by
  refine leveling.bind (leveling.nodeAt id) fun n => leveling.bind leveling.get fun _ =>
    leveling.bind (leveling.note rfl) fun _ => leveling.bind (fun env s => ?_) fun _ =>
      leveling.ofEnv (fun _ _ => rfl) fun _ _ => leveling.pure _
  rw [withSplice_apply]
  exact ((returning.level depth).1.code n id env _).spliceTail

theorem flow_leaves (depth : Nat) :
    (∀ id, leveling.holds (slotAt depth id : Emit Node Nat)) ∧
      ∀ inline target, leveling.holds (chainAt depth inline target : Emit Node String) := by
  induction depth with
  | zero => exact ⟨fun _ => leveling.cutOff, fun _ _ => leveling.cutOff⟩
  | succ depth ih =>
    refine ⟨fun id => ?_, fun inline target => ?_⟩
    · simp only [slotAt]
      exact leveling.referToUnit (ih.2 true (some id))
    · rw [chainAt]
      exact leveling.chain ih.1 (fun id => leveling.callShared (ih.2 true (some id)))
        (statement_leaves depth) inline target

theorem flows_leave (depth : Nat) (targets : List (Option NodeId)) :
    leveling.holds (Node.flows (servicesAt depth) targets) := by
  induction targets with
  | nil => exact leveling.pure _
  | cons target targets ih =>
    exact leveling.bind ((flow_leaves depth).2 false target) fun _ =>
      leveling.bind ih fun _ => leveling.pure _

theorem splices_eq {α : Type} {x : Emit Node α} (hx : leveling.holds x) {env : Env Node}
    {s s' : State} {a : α} (hrun : x env s = (.ok a, s')) : s'.splices = s.splices := by
  have hs := hx env s
  rwa [hrun] at hs

/-! ## The statements of nodes -/

/-- The expressions that a value is stored with. -/
def storeExpressions (target : Term) (read : Emit Node String) (upTo : Nat → Emit Node Current)
    (value : String) (op : AssignOp) : Emit Node (List String) := do
  match target with
  | .chain _ steps =>
    match steps.getLast? with
    | none => return []
    | some last =>
      if last.reflected && last.kind != .indexer then
        let owner ← currentTarget (← upTo (steps.length - 1))
        let name ← memberName last
        if op = .assign then return [value, owner, stringLiteral name]
        else
          let old ← read
          return [old, value, owner, stringLiteral name]
      else return [value, ← read]
  | _ => return [value, ← read]

/-- The expressions of a node's statement, as far as they can bear on its last line. -/
def expressions (services : Services Node) (id : NodeId) : Node → Emit Node (List String)
  | .branch condition onTrue onFalse _ => do
    let condition ← term services.output condition
    let _ ← services.flow onTrue
    let trimmed := Text.trim (← services.flow onFalse).toList
    -- an `if` stands behind `else` without braces
    return condition :: if isSingleIf trimmed then [String.ofList trimmed] else []
  | .switch value _ _ _ => do return [← term services.output value]
  | .forLoop start stop step _ _ => do
    let index ← nodeVariable id
    return [index, ← term services.output start, ← term services.output stop,
      ← Node.stepText services index step]
  | .forEach collection element _ _ => do
    let _ ← nodeVariable id
    return [← nameFor (.node id) Node.bindingName, ← typeText element,
      ← term services.output collection]
  | .whileLoop condition _ _ => do return [← term services.output condition]
  | .invoke call _ => do return [← term services.output call]
  | .setValue target value op _ => do
    storeExpressions target (term services.output target) (foldUpTo services.output target)
      (← term services.output value) op
  | .localVariable _ type value _ => do
    let name ← nodeVariable id
    let value ←
      if value.isAssigned then term services.output value
      else do pure ("default(" ++ (← typeText type) ++ ")")
    return [name, value]
  | .wait seconds _ => do
    Node.checkResumable
    if seconds.isAssigned then return [← term services.output seconds, ← typeText Node.waitType]
    else return []
  | .stopUnit target _ => do
    return [stopCall (← Node.targetSlot services target .stopWithoutUnit)]
  | _ => return []

/-- What an emission gives, if it succeeds. -/
def Gives {α : Type} (P : α → Prop) (x : Emit Node α) : Prop :=
  ∀ env s a s', x env s = (.ok a, s') → P a

/-- If the statement is emitted, so are the expressions before it, and if they are mild it is mild. -/
def Spells (x : Emit Node (List String)) (y : Emit Node String) : Prop :=
  ∀ env s own s', y env s = (.ok own, s') →
    ∃ es s₁, x env s = (.ok es, s₁) ∧ ((∀ e ∈ es, Mild e) → Mild own)

section Rules

variable {α β : Type} {P : α → Prop}

theorem Gives.pure {a : α} (h : P a) : Gives P (Pure.pure a : Emit Node α) := by
  intro env s a s' hrun
  cases hrun
  exact h

theorem Gives.bind {x : Emit Node β} {f : β → Emit Node α} (hf : ∀ b, Gives P (f b)) :
    Gives P (x >>= f) := by
  intro env s a s' hrun
  obtain ⟨b, s₁, _, hrest⟩ := bind_eq_ok_iff.1 hrun
  exact hf b env s₁ a s' hrest

theorem Gives.runtime {f : String → Emit Node α} (h : Gives P (f runtimeProperty)) :
    Gives P (Emit.runtime >>= f) := by
  intro env s a s' hrun
  obtain ⟨_, s₁, hruntime, hrest⟩ := bind_eq_ok_iff.1 hrun
  cases hruntime
  exact h env _ a s' hrest

theorem Spells.bind {p : Emit Node α} {f : α → Emit Node (List String)} {g : α → Emit Node String}
    (h : ∀ a, Spells (f a) (g a)) : Spells (p >>= f) (p >>= g) := by
  intro env s own s' hrun
  obtain ⟨a, s₁, ha, hrest⟩ := bind_eq_ok_iff.1 hrun
  obtain ⟨es, s₂, hes, hmild⟩ := h a env s₁ own s' hrest
  exact ⟨es, s₂, bind_eq_ok_iff.2 ⟨a, s₁, ha, hes⟩, hmild⟩

theorem Spells.done {es : List String} {y : Emit Node String}
    (h : Gives (fun own => (∀ e ∈ es, Mild e) → Mild own) y) : Spells (Pure.pure es) y :=
  fun env s own s' hrun => ⟨es, s, rfl, h env s own s' hrun⟩

theorem Spells.fail (x : Emit Node (List String)) (e : GenError) : Spells x (Emit.fail e) :=
  fun _ _ _ _ hrun => nomatch hrun

end Rules

/-- A value is stored by an assignment or a call. -/
theorem Spells.store (output : NodeId → UInt16 → Emit Node String) (target : Term) (value : String)
    (op : AssignOp) : Spells
      (storeExpressions target (term output target) (foldUpTo output target) value op)
      (Emit.store output target value op) := by
  have hassign (left : String) : Spells (Pure.pure [value, left])
      (Pure.pure (Fragment.assign left value op).text) :=
    .done (.pure fun h => .assign (h _ (.tail _ (.head _))) (h _ (.head _)) op)
  unfold Emit.store storeIn storeExpressions
  cases target with
  | «variable» ref =>
    rw [term]
    exact .bind hassign
  | output node port =>
    refine .bind fun left => .done (.bind fun _ => .pure fun h => ?_)
    exact .assign (h _ (.tail _ (.head _))) (h _ (.head _)) op
  | chain root steps =>
    unfold storeInChain
    dsimp only
    generalize steps.getLast? = last?
    cases last? with
    | none => exact .fail _ _
    | some last =>
      dsimp only
      by_cases hplace : (!isAssignable steps) = true
      · rw [if_pos hplace]
        exact .fail _ _
      rw [if_neg hplace]
      split
      · have hset {owner name old : String} (h : ∀ e ∈ [value, owner, name], Mild e)
            (hold : op ≠ .assign → Mild old) :
            Mild (assignByCall (runtimeProperty ++ ".SetValue") [owner, name] old value op).text :=
          .assignByCall (.fixed (by decide)) (h _ (.tail _ (.head _)))
            (h _ (.tail _ (.tail _ (.head _)))) (h _ (.head _)) op hold
        refine .bind fun _ => .bind fun owner => .bind fun name => ?_
        split
        · rename_i hassign
          exact .done (.bind fun old => .runtime (.pure fun h => hset h (absurd hassign)))
        · refine .bind fun old => .done (.runtime (.pure fun h => ?_))
          obtain ⟨hold, h⟩ := List.forall_mem_cons.1 h
          exact hset h fun _ => hold
      · exact .bind hassign
  | _ => exact .fail _ _

/-- A statement is spelled by its expressions, unless nothing is put around it or it returns a
value. -/
theorem code_cases {depth : Nat} {id : NodeId} {n : Node} {env : Env Node} {s s' : State}
    {own : String} (hrun : n.code (servicesAt depth) id env s = (.ok own, s')) :
    Spells (expressions (servicesAt depth) id n) (n.code (servicesAt depth) id) ∨
      s'.splices = s.splices ∨
      ∃ value text, n = .returnValue value ∧ own = (returnValue (some text)).text := by
  cases n with
  | sequence outputs =>
    exact .inr (.inl (splices_eq
      (leveling.bind (flows_leave depth outputs) fun _ => leveling.pure _) hrun))
  | stateScope body next => exact .inr (.inl (splices_eq ((flow_leaves depth).2 false body) hrun))
  | returnValue value =>
    change Node.returnText (servicesAt depth) value env s = _ at hrun
    unfold Node.returnText at hrun
    rw [get_bind] at hrun
    -- only a return with a value reads an expression
    split at hrun
    · rw [demand_bind] at hrun
      split at hrun <;> cases hrun
      exact .inr (.inl rfl)
    · split at hrun <;> rw [demand_bind] at hrun <;> split at hrun
      · obtain ⟨text, s₁, _, hend⟩ := bind_eq_ok_iff.1 hrun
        cases hend
        exact .inr (.inr ⟨value, text, rfl, rfl⟩)
      all_goals cases hrun
      exact .inr (.inl rfl)
  | branch condition onTrue onFalse next =>
    refine .inl (.bind fun c => .bind fun thenBody => .bind fun elseBody => .done (.pure fun h => ?_))
    obtain ⟨hc, helse⟩ := List.forall_mem_cons.1 h
    unfold Node.branchText
    split
    · exact .ifElse (.append (.fixed (by decide)) hc.operand) elseBody fun _ h => by cases h
    · refine .ifElse hc thenBody fun body hbody hsingle => ?_
      split at hbody <;> cases hbody
      rw [if_pos hsingle] at helse
      exact helse _ (.head _)
  | switch value cases default next =>
    exact .inl (.bind fun v => .done (.bind fun _ => .bind fun _ => .pure fun h =>
      .switch (h v (.head _)) _ _))
  | forLoop start stop step body next =>
    refine .inl (.bind fun index => .bind fun a => .bind fun b => .bind fun c => .done (.bind fun text =>
      .pure fun h => ?_))
    simp only [List.forall_mem_cons] at h
    obtain ⟨hindex, ha, hb, hc, -⟩ := h
    have hinit : Mild (index ++ " = " ++ a) := hindex.next (by decide) ha
    have htest : Mild (index ++ " < " ++ Code.operand b) := hindex.next (by decide) hb.operand
    have hopen := Mild.append (a := "for (") (.fixed (by decide)) hinit
    exact (((hopen.next (by decide) htest).next (by decide) hc).line (by decide)).braced text
  | forEach collection element body next =>
    refine .inl (.bind fun item => .bind fun binding => .bind fun type => .bind fun c => .done
      (.bind fun text => .pure fun h => ?_))
    simp only [List.forall_mem_cons] at h
    obtain ⟨hbinding, htype, hc, -⟩ := h
    have hopen := Mild.append (a := "foreach (") (.fixed (by decide)) htype
    exact (((hopen.next (by decide) hbinding).next (by decide) hc).line (by decide)).braced _
  | whileLoop condition body next =>
    exact .inl (.bind fun c => .done (.bind fun text => .pure fun h =>
      ((Mild.append (.fixed (by decide)) (h c (.head _))).line (by decide)).braced text))
  | invoke call next =>
    exact .inl (.bind fun c => .done (.pure fun h => (h c (.head _)).line (by decide)))
  | setValue target value op next => exact .inl (.bind fun v => .store _ target v op)
  | localVariable name type value next =>
    refine .inl (.bind fun left => ?_)
    split <;> exact .bind fun v => .done (.pure fun h =>
      .assign (h _ (.head _)) (h _ (.tail _ (.head _))) _)
  | wait seconds next =>
    refine .inl (.bind fun _ => ?_)
    unfold Node.yieldText
    split
    · refine .bind fun v => .bind fun type => .done (.pure fun h => ?_)
      simp only [List.forall_mem_cons] at h
      have hnew := Mild.append (a := "new ") (.fixed (by decide)) h.2.1
      exact (Mild.append (.fixed (by decide)) ((hnew.next (by decide) h.1).line (by decide))).line
        (by decide)
    · exact .done (.pure fun _ => .fixed (by decide))
  | stopUnit target next =>
    exact .inl (.bind fun slot => .done (.pure fun h => (h _ (.head _)).line (by decide)))
  | _ => cases hrun

/-- The statement of a node stands between what its splice declares and what it writes back. If
something is written back, the statement does not end with a jump unless one of its expressions looks
like one, or it is the return of a value. -/
theorem write_backs_after_return_only {depth : Nat} {id : NodeId} {n : Node} {env : Env Node}
    {s s' : State} {text : String} (hn : env.graph.get? id = some n)
    (hrun : statement (servicesAt depth) id env s = (.ok text, s')) :
    ∃ own s₁, n.code (servicesAt depth) id env (intoStatement id s) = (.ok own, s₁) ∧
      text = env.config.mark (.node id)
        (Code.lines (s₁.splice.enter ++ [own] ++ s₁.splice.exit.reverse)) ∧
      (s₁.splice.exit ≠ [] →
        (∃ es s₂, expressions (servicesAt depth) id n env (intoStatement id s) = (.ok es, s₂) ∧
          ((∀ e ∈ es, Mild e) → endsWithJump own = false)) ∨
        ∃ value given, n = .returnValue value ∧ own = (Fragment.returnValue (some given)).text) := by
  obtain ⟨own, s₁, hown, htext, _⟩ := statement_eq_ok hn hrun
  refine ⟨own, s₁, hown, htext, fun hexit => ?_⟩
  obtain hspells | hsame | hreturn := code_cases hown
  · obtain ⟨es, s₂, hes, hmild⟩ := hspells env _ own s₁ hown
    exact .inl ⟨es, s₂, hes, fun h => (hmild h).endsWithJump_eq_false⟩
  · -- an untouched splice is empty
    exact absurd (congrArg (fun splices => (splices.headD {}).exit) hsame) hexit
  · exact .inr hreturn

end Emit

/-- A call that takes a property by reference. -/
def takesProperty : Term :=
  .chain .self [Step.ofMethod "Compute" .int [⟨"x", .scalar .int, .byRef⟩]
    [.chain .self [Step.ofProperty "Prop" .int]]]

/-- A function that makes the call, and then returns what the call gives. -/
def passesProperty : Graph Node where
  name := "C"
  classDecl :=
    { name := "C"
      functions := [{ id := ⟨1⟩, name := "F", returnType := .int, entry := some ⟨1⟩ }] }
  nodes := [(⟨1⟩, .invoke takesProperty (some ⟨2⟩)), (⟨2⟩, .returnValue takesProperty)]

/-- After a call the property is written back, behind a statement that is no jump. -/
theorem passesProperty_writes_back : ∃ gen text s', Generation.start passesProperty {} = .ok gen ∧
    Emit.statement (Emit.servicesAt 1) ⟨1⟩ gen.env gen.state = (.ok text, s') ∧
    text = "int temp = Prop;\nCompute(ref temp);\nProp = temp;" ∧
    ∃ (own : String) (s₁ : State), s₁.splice.exit = ["Prop = temp;"] ∧ endsWithJump own = false ∧
      text = gen.env.config.mark (.node ⟨1⟩)
        (Code.lines (s₁.splice.enter ++ [own] ++ s₁.splice.exit.reverse)) := by
  obtain ⟨gen, _, hstart, _, htext, hexit, hcall⟩ : Generation.EndsWith passesProperty {} fun gen _ =>
      (Emit.statement (Emit.servicesAt 1) ⟨1⟩ gen.env gen.state).1 =
        .ok "int temp = Prop;\nCompute(ref temp);\nProp = temp;" ∧
      ((Node.invoke takesProperty (some ⟨2⟩)).code (Emit.servicesAt 1) ⟨1⟩ gen.env
        (Emit.intoStatement ⟨1⟩ gen.state)).2.splice.exit = ["Prop = temp;"] ∧
      (Emit.expressions (Emit.servicesAt 1) ⟨1⟩ (.invoke takesProperty (some ⟨2⟩)) gen.env
        (Emit.intoStatement ⟨1⟩ gen.state)).1 = .ok ["Compute(ref temp)"] := by decide +kernel
  obtain ⟨hgraph, _⟩ := Generation.start_eq hstart
  have hn : gen.env.graph.get? ⟨1⟩ = some (.invoke takesProperty (some ⟨2⟩)) := by
    rw [hgraph]
    rfl
  have hrun : Emit.statement (Emit.servicesAt 1) ⟨1⟩ gen.env gen.state = (.ok _, _) :=
    Prod.ext htext rfl
  obtain ⟨own, s₁, hown, hspliced, hstays⟩ := Emit.write_backs_after_return_only hn hrun
  rw [hown] at hexit
  obtain ⟨es, s₂, hes, hstays⟩ | ⟨_, _, hreturn, _⟩ :=
    hstays (by rw [hexit]; exact List.cons_ne_nil _ _)
  · refine ⟨gen, _, _, hstart, hrun, rfl, own, s₁, hexit, hstays ?_, hspliced⟩
    rw [hes] at hcall
    rw [Except.ok.inj hcall]
    exact List.forall_mem_singleton.2 (.fixed (by decide))
  · cases hreturn

/-- After the return of a value it is written back too late. -/
theorem passesProperty_writes_back_late : ∃ gen s, Generation.start passesProperty {} = .ok gen ∧
    Emit.bodies gen.env gen.state = (.ok (), s) ∧ some ("int temp = Prop;\nCompute(ref temp);\n" ++
      "Prop = temp;\nint temp1 = Prop;\nreturn Compute(ref temp1);\nProp = temp1;") ∈
        s.symbols.bodies.map Body.text ∧
    Code.endsWithJump "return Compute(ref temp1);" = true := by
  decide +kernel

end FlowClass
