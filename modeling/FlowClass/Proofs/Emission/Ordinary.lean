import FlowClass.Proofs.Emission.Quiet

/-!
# Ordinary steps

A step of a hook is *ordinary* if it is quiet, does not look at the graph or the options, and fails,
if it does, for a reason that a graph can be at fault for. Every operation of `Emit/Basic` and
`Emit/Term` that asks for no other node is ordinary, but one: reading the variable of a node relies on
the node having entered it.
-/

namespace FlowClass.Emit

variable {ν α β : Type} {x : Emit ν α}

/-- A quiet emission, the same in every environment, that fails with ordinary errors only. -/
structure Ordinary (x : Emit ν α) : Prop where
  quiet : Quiet x
  blind : ∀ env env' s, x env s = x env' s
  errors : ∀ env s e, (x env s).1 = .error e → e.isPlain = true

namespace Ordinary

/-! ## Sequencing -/

theorem of_ok (hx : Quiet x) (hblind : ∀ env env' s, x env s = x env' s)
    (h : ∀ env s, ∃ a, (x env s).1 = .ok a) : Ordinary x := by
  refine ⟨hx, hblind, fun env s e he => ?_⟩
  obtain ⟨a, ha⟩ := h env s
  rw [ha] at he
  cases he

theorem pure (a : α) : Ordinary (Pure.pure a : Emit ν α) :=
  of_ok (Quiet.pure a) (fun _ _ _ => rfl) fun _ _ => ⟨a, rfl⟩

theorem fail {e : GenError} (h : e.isPlain = true) : Ordinary (Emit.fail e : Emit ν α) := by
  refine ⟨Quiet.fail e, fun _ _ _ => rfl, fun env s e' he' => ?_⟩
  cases he'
  exact h

theorem get : Ordinary (Emit.get : Emit ν State) :=
  of_ok Quiet.get (fun _ _ _ => rfl) fun _ s => ⟨s, rfl⟩

theorem bind {f : α → Emit ν β} (hx : Ordinary x) (hf : ∀ a, Ordinary (f a)) :
    Ordinary (x >>= f) := by
  refine ⟨Quiet.bind hx.quiet fun a => (hf a).quiet, fun env env' s => ?_, fun env s e he => ?_⟩
  · rw [bind_apply, bind_apply, hx.blind env env' s]
    rcases x env' s with ⟨e | a, s'⟩
    · rfl
    · exact (hf a).blind env env' s'
  have herrors := hx.errors env s
  rw [bind_apply] at he
  rcases hrun : x env s with ⟨e' | a, s'⟩
  · rw [hrun] at he herrors
    cases he
    exact herrors e rfl
  · rw [hrun] at he
    exact (hf a).errors env s' e he

theorem map (f : α → β) (hx : Ordinary x) : Ordinary (f <$> x) := by
  rw [map_eq_pure_bind]
  exact bind hx fun a => pure (f a)

theorem demand {condition : Bool} {what : Misuse} (h : what.isOrdinary = true) :
    Ordinary (Emit.demand condition what : Emit ν Unit) := by
  unfold Emit.demand
  split
  · exact pure ()
  · exact fail h

theorem unresolved {what : Missing}
    (h : ∀ owner, (GenError.unresolved what owner).isPlain = true) :
    Ordinary (Emit.unresolved what : Emit ν α) :=
  bind get fun _ => fail (h _)

/-! ## Spelling -/

theorem typeText (type : Ty) : Ordinary (Emit.typeText type : Emit ν String) :=
  of_ok (Quiet.typeText type) (fun _ _ _ => rfl) fun _ _ => ⟨_, rfl⟩

theorem typeTexts (types : List Ty) : Ordinary (Emit.typeTexts types : Emit ν (List String)) :=
  of_ok (Quiet.typeTexts types) (fun _ _ _ => rfl) fun _ _ => ⟨_, rfl⟩

theorem literalText (literal : Literal) : Ordinary (Emit.literalText literal : Emit ν String) :=
  of_ok (Quiet.literalText literal) (fun _ _ _ => rfl) fun _ _ => ⟨_, rfl⟩

theorem literalTexts (literals : List Literal) :
    Ordinary (Emit.literalTexts literals : Emit ν (List String)) :=
  of_ok (Quiet.literalTexts literals) (fun _ _ _ => rfl) fun _ _ => ⟨_, rfl⟩

theorem runtime : Ordinary (Emit.runtime : Emit ν String) :=
  of_ok Quiet.runtime (fun _ _ _ => rfl) fun _ _ => ⟨_, rfl⟩

theorem declName? (decl : DeclId) : Ordinary (Emit.declName? decl : Emit ν (Option String)) :=
  bind get fun _ => pure _

theorem temporaryName : Ordinary (Emit.temporaryName : Emit ν String) :=
  of_ok Quiet.temporaryName (fun _ _ _ => rfl) fun _ _ => ⟨_, rfl⟩

theorem nameFor (node : NodeId) (text : String) :
    Ordinary (Emit.nameFor (.node node) text : Emit ν String) :=
  of_ok (Quiet.nameFor node text) (fun _ _ _ => rfl) fun _ _ => ⟨_, rfl⟩

/-! ## Variables -/

theorem variableName (handle : VariableHandle) :
    Ordinary (Emit.variableName handle : Emit ν String) := by
  refine ⟨Quiet.variableName handle, fun env env' s => ?_, fun env s e he => ?_⟩
  · unfold Emit.variableName
    simp only [bind_apply, Emit.get]
    cases s.symbols.useVariable handle s.place.body <;> rfl
  unfold Emit.variableName at he
  simp only [bind_apply, Emit.get] at he
  rcases huse : s.symbols.useVariable handle s.place.body with _ | ⟨name, symbols⟩
  · rw [huse] at he
    exact (unresolved fun _ => rfl).errors env s e he
  · rw [huse] at he
    cases he

theorem keyedVariable (key : SymbolKey) {what : Missing}
    (h : ∀ owner, (GenError.unresolved what owner).isPlain = true) :
    Ordinary (Emit.keyedVariable key what : Emit ν String) := by
  refine bind get fun s => ?_
  split
  · exact unresolved h
  · exact variableName _

theorem parameter (owner : DeclId) (index : UInt64) :
    Ordinary (Emit.parameter owner index : Emit ν String) := by
  refine ⟨Quiet.parameter owner index, fun env env' s => ?_, fun env s e he => ?_⟩
  · obtain ⟨_, _, hrun⟩ | ⟨_, _, _, _, _, ⟨_, hrun⟩ | ⟨_, hrun⟩⟩ := parameter_cases owner index s
    all_goals rw [hrun, hrun]
  obtain ⟨_, hplain, hrun⟩ | ⟨_, _, _, _, _, ⟨_, hrun⟩ | ⟨_, hrun⟩⟩ := parameter_cases owner index s
  all_goals
    rw [hrun] at he
    cases he
  exact hplain

theorem variableRef (ref : VarRef) : Ordinary (Emit.variableRef ref : Emit ν String) := by
  cases ref with
  | field decl | localOf function decl => exact keyedVariable _ fun _ => rfl
  | parameter owner index => exact parameter owner index
  | setterValue => exact bind get fun _ => bind (demand rfl) fun _ => pure _

/-! ## Splices and scopes -/

theorem splice (enter : String) (exit : Option String) :
    Ordinary (Emit.splice enter exit : Emit ν Unit) := by
  refine ⟨Quiet.splice enter exit, fun env env' s => ?_, fun env s e he => ?_⟩
  · unfold Emit.splice
    simp only [bind_apply, Emit.get]
    cases s.splices <;> rfl
  unfold Emit.splice at he
  simp only [bind_apply, Emit.get] at he
  rcases hs : s.splices with _ | ⟨top, rest⟩
  · rw [hs] at he
    cases he
    rfl
  · rw [hs] at he
    cases he

theorem inScope (node : NodeId) : Ordinary (Emit.inScope node : Emit ν Bool) :=
  bind get fun _ => pure _

/-! ## Pieces of terms -/

theorem selfText : Ordinary (Emit.selfText : Emit ν String) :=
  bind get fun _ => bind (demand rfl) fun _ => pure _

theorem currentValue (current : Current) :
    Ordinary (Emit.currentValue current : Emit ν String) := by
  cases current with
  | type text => exact pure _
  | value text => exact pure _
  | self => exact selfText

theorem currentTarget (current : Current) :
    Ordinary (Emit.currentTarget current : Emit ν String) := by
  cases current with
  | type text => exact pure _
  | value text => exact pure _
  | self => exact selfText

theorem memberName (step : Step) : Ordinary (Emit.memberName step : Emit ν String) := by
  unfold Emit.memberName
  split
  · exact pure _
  · refine bind (declName? _) fun name => ?_
    split
    · exact pure _
    · exact unresolved fun _ => rfl

theorem typeArgsText (args : List Ty) : Ordinary (Emit.typeArgsText args : Emit ν String) := by
  unfold Emit.typeArgsText
  split
  · exact pure _
  · exact bind (typeTexts _) fun _ => pure _

theorem applyMember (step : Step) (current : Current) :
    Ordinary (Emit.applyMember step current : Emit ν String) := by
  refine bind (memberName step) fun name => ?_
  split
  · refine bind (currentTarget current) fun _ => bind (typeText _) fun _ => ?_
    exact bind runtime fun _ => pure _
  · exact pure _

theorem leadingOperand (current : Current) :
    Ordinary (Emit.leadingOperand current : Emit ν (List String)) := by
  unfold Emit.leadingOperand
  split
  · exact pure _
  · exact bind (currentTarget _) fun _ => pure _

/-- An operator is refused for its operands or for want of a type. -/
theorem operatorText (op : Operator) (operands : List String) (cast : Option String) :
    Ordinary (Emit.operatorText op operands cast : Emit ν String) := by
  unfold Emit.operatorText Fragment.operator
  split
  · exact pure _
  · rename_i what hwhat
    refine fail ?_
    split at hwhat
    · cases hwhat
    · cases hwhat
    · split at hwhat
      · cases hwhat
      · cases hwhat
        rfl
    · cases hwhat
      rfl

theorem collectionText (kind : CollectionKind) (element : Ty) (items : List String) :
    Ordinary (Emit.collectionText kind element items : Emit ν String) := by
  cases kind with
  | array | list => exact bind (typeText _) fun _ => pure _

end Ordinary

end FlowClass.Emit
