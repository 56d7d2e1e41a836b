import Mathlib.Logic.Relation
import FlowClass.Emit.Node
import FlowClass.Emit.Prepare
import FlowClass.Proofs.Emission.Faults
import FlowClass.Proofs.Symbol.Naming
import FlowClass.Proofs.Symbol.Table

/-!
# Quiet emissions

Most steps of an emission only spell something: they give out names, bring in imports, enter or use
variables, and put code around the statement at hand. `State.Spells` says what one such step does to
the state, `State.Frame` what it leaves alone. An emission is *quiet* if it is made of spelling steps,
whether it succeeds or fails:

* quiet emissions are closed under sequencing (`Quiet.bind`);
* every operation of `Emit/Basic` that asks for no other node is quiet.

Proofs about whole emissions cite quietness and never open these operations.
-/

namespace FlowClass

open List

/-! ## Frames -/

/-- Every name by which code can refer to something is an identifier. -/
def State.Tidy (s : State) : Prop :=
  (∀ v ∈ s.symbols.vars, isName v.name = true) ∧ (∀ m ∈ s.symbols.methods, isName m.name = true) ∧
    (∀ d ∈ s.symbols.declNames, isName d.2 = true) ∧ (∀ p ∈ s.params, isName p.2.1 = true) ∧
    ∀ a ∈ s.names.aliases, isName a.2 = true

/-- The method of a shared node was entered, and is referred to. -/
abbrev State.callingShared (s : State) (id : NodeId) (type : Ty) (symbols : SymbolTable)
    (names : Names) (m : MethodSymbol) : State :=
  { s with
    symbols, names, shared := (id, (m.name, type)) :: s.shared
    journal := .refer (.shared id) s.place.body :: s.journal }

/-- The state in which the method is emitted. -/
abbrev State.intoShared (s : State) (id : NodeId) (type : Ty) (symbols : SymbolTable) (names : Names)
    (m : MethodSymbol) : State :=
  { s.callingShared id type symbols names m with place := s.place.toShared m.body type }

/-- The event says what a text refers to, and not which node is written. -/
def Event.isReference : Event → Bool
  | .mention .. => true
  | .refer .. => true
  | .parameter .. => true
  | .temporary .. => true
  | _ => false

/-- The innermost splice. -/
def State.splice (s : State) : Splice :=
  s.splices.headD {}

/-- The second splice puts more around its statement, at the ends of what the first one puts there. -/
structure Splice.Extends (a b : Splice) : Prop where
  enter : a.enter <+: b.enter
  exit : a.exit <+: b.exit

/-- An emission is back where it started; of the splices only the innermost may be extended. -/
structure State.Back (s s' : State) : Prop where
  place : s'.place = s.place
  reading : s'.reading = s.reading
  scopes : s'.scopes = s.scopes
  spliceDepth : s'.splices.length = s.splices.length
  spliceTail : s'.splices.tail = s.splices.tail
  splice : s.splice.Extends s'.splice

/-- What a spelling step leaves alone. -/
structure State.Frame (s s' : State) : Prop extends s.Back s' where
  units : s'.units = s.units
  classifier : s'.classifier = s.classifier
  shared : s'.shared = s.shared
  params : s'.params = s.params
  accessors : s'.accessors = s.accessors
  setups : s'.setups = s.setups
  diagnostics : s'.diagnostics = s.diagnostics
  methods : s'.symbols.methods = s.symbols.methods
  methodKeys : s'.symbols.methodKeys = s.symbols.methodKeys
  properties : s'.symbols.properties = s.symbols.properties
  constructors : s'.symbols.constructors = s.symbols.constructors
  declBodies : s'.symbols.declBodies = s.symbols.declBodies
  declNames : s'.symbols.declNames = s.symbols.declNames
  varNames : s.symbols.varNames <+: s'.symbols.varNames
  contributed : ∀ body, s.symbols.added body ⊆ s'.symbols.added body
  bodyTexts : s'.symbols.bodies.map Body.text = s.symbols.bodies.map Body.text
  tidy : s.Tidy → s'.Tidy
  /-- Nothing but references enters the journal. -/
  journal : ∃ new, s'.journal = new ++ s.journal ∧ ∀ e ∈ new, e.isReference = true

theorem Splice.Extends.refl (splice : Splice) : splice.Extends splice :=
  ⟨prefix_rfl, prefix_rfl⟩

theorem State.Back.trans {s s' s'' : State} (h : s.Back s') (h' : s'.Back s'') : s.Back s'' :=
  ⟨h'.place.trans h.place, h'.reading.trans h.reading, h'.scopes.trans h.scopes,
    h'.spliceDepth.trans h.spliceDepth, h'.spliceTail.trans h.spliceTail,
    h.splice.enter.trans h'.splice.enter, h.splice.exit.trans h'.splice.exit⟩

namespace State.Frame

theorem refl (s : State) : s.Frame s where
  place := rfl
  reading := rfl
  scopes := rfl
  units := rfl
  classifier := rfl
  shared := rfl
  params := rfl
  accessors := rfl
  setups := rfl
  diagnostics := rfl
  spliceDepth := rfl
  spliceTail := rfl
  splice := .refl _
  methods := rfl
  methodKeys := rfl
  properties := rfl
  constructors := rfl
  declBodies := rfl
  declNames := rfl
  varNames := prefix_rfl
  contributed := fun _ => Subset.refl _
  bodyTexts := rfl
  tidy := fun h => h
  journal := ⟨[], rfl, forall_mem_nil _⟩

theorem trans {s s' s'' : State} (h : s.Frame s') (h' : s'.Frame s'') : s.Frame s'' where
  toBack := h.toBack.trans h'.toBack
  units := h'.units.trans h.units
  classifier := h'.classifier.trans h.classifier
  shared := h'.shared.trans h.shared
  params := h'.params.trans h.params
  accessors := h'.accessors.trans h.accessors
  setups := h'.setups.trans h.setups
  diagnostics := h'.diagnostics.trans h.diagnostics
  methods := h'.methods.trans h.methods
  methodKeys := h'.methodKeys.trans h.methodKeys
  properties := h'.properties.trans h.properties
  constructors := h'.constructors.trans h.constructors
  declBodies := h'.declBodies.trans h.declBodies
  declNames := h'.declNames.trans h.declNames
  varNames := h.varNames.trans h'.varNames
  contributed := fun body => Subset.trans (h.contributed body) (h'.contributed body)
  bodyTexts := h'.bodyTexts.trans h.bodyTexts
  tidy := fun hs => h'.tidy (h.tidy hs)
  journal := by
    obtain ⟨new, hnew, href⟩ := h.journal
    obtain ⟨new', hnew', href'⟩ := h'.journal
    refine ⟨new' ++ new, ?_, forall_mem_append.2 ⟨href', href⟩⟩
    rw [hnew', hnew, append_assoc]

theorem keys {s s' : State} (h : s.Frame s') : s.symbols.keys <+: s'.symbols.keys := by
  simpa [SymbolTable.keys, SymbolTable.varNames, Function.comp_def] using h.varNames.map Prod.fst

theorem note (s : State) {e : Event} (he : e.isReference = true) :
    s.Frame { s with journal := e :: s.journal } :=
  { refl s with journal := ⟨[e], rfl, forall_mem_singleton.2 he⟩ }

end State.Frame

/-- The state after a variable was entered, unless it was known. -/
abbrev State.withVariable (s : State) (v : VariableSymbol) : State :=
  { s with
    symbols := (s.symbols.registerVariable s.names v).2.1
    names := (s.symbols.registerVariable s.names v).2.2 }

namespace State.Tidy

variable {s : State} {name : String}

theorem generate (h : s.Tidy) (text : String) :
    Tidy { s with names := (s.names.generate text).2 } := by
  obtain ⟨hvars, hmethods, hdecls, hparams, haliases⟩ := h
  refine ⟨hvars, hmethods, hdecls, hparams, ?_⟩
  rw [Names.aliases_generate]
  exact haliases

theorem nameFor (h : s.Tidy) (owner : SymbolKey) (text : String) :
    Tidy { s with names := (s.names.nameFor owner text).2 } := by
  unfold Names.nameFor
  split
  · exact h
  · obtain ⟨hvars, hmethods, hdecls, hparams, haliases⟩ := h.generate text
    exact ⟨hvars, hmethods, hdecls, hparams,
      forall_mem_cons.2 ⟨s.names.isName_generate text, haliases⟩⟩

/-- The name that an owner has for a text is an identifier. -/
theorem isName_nameFor (h : s.Tidy) (owner : SymbolKey) (text : String) :
    isName (s.names.nameFor owner text).1 = true := by
  unfold Names.nameFor
  split
  · rename_i name halias
    exact h.2.2.2.2 _ (mem_of_lookup halias)
  · exact s.names.isName_generate text

theorem nameDecl {t : SymbolTable} (h : ∀ d ∈ t.declNames, isName d.2 = true) (key : SymbolKey)
    (hname : isName name = true) : ∀ d ∈ (t.nameDecl key name).declNames, isName d.2 = true := by
  unfold SymbolTable.nameDecl
  split
  · exact forall_mem_cons.2 ⟨hname, h⟩
  · exact h

/-- A variable is entered under a new name. -/
theorem registerVariable (h : s.Tidy) (v : VariableSymbol) : Tidy (s.withVariable v) := by
  unfold State.withVariable SymbolTable.registerVariable
  split
  · exact h
  · obtain ⟨hvars, hmethods, hdecls, hparams, haliases⟩ := h.generate v.name
    have hgenerated := s.names.isName_generate v.name
    have hsame (key : SymbolKey) (name : String) :
        (s.symbols.nameDecl key name).vars = s.symbols.vars ∧
          (s.symbols.nameDecl key name).methods = s.symbols.methods := by
      unfold SymbolTable.nameDecl
      split <;> exact ⟨rfl, rfl⟩
    refine ⟨forall_mem_append.2 ⟨?_, forall_mem_singleton.2 hgenerated⟩, ?_,
      nameDecl hdecls v.key hgenerated, hparams, haliases⟩
    · rw [(hsame _ _).1]
      exact hvars
    · dsimp only
      rw [(hsame _ _).2]
      exact hmethods

/-- A use of a variable changes no name. -/
theorem useVariable (h : s.Tidy) {handle : VariableHandle} {body : BodyId} {symbols : SymbolTable}
    (huse : s.symbols.useVariable handle body = some (name, symbols)) :
    Tidy { s with symbols } := by
  obtain ⟨hvars, hmethods, hdecls, hparams, haliases⟩ := h
  obtain ⟨v, _, huse⟩ := Option.map_eq_some_iff.1 huse
  cases huse
  refine ⟨fun v hv => ?_, hmethods, hdecls, hparams, haliases⟩
  obtain ⟨i, hi⟩ := mem_iff_getElem?.1 hv
  rw [getElem?_modify] at hi
  obtain ⟨w, hw, hwv⟩ := Option.map_eq_some_iff.1 hi
  have hw := hvars w (mem_of_getElem? hw)
  rw [← hwv]
  split <;> exact hw

end State.Tidy

namespace State.Frame

/-- A variable that no declaration stands for changes nothing but the variables. -/
theorem registerVariable (s : State) {v : VariableSymbol} (h : v.isDeclared = false) :
    s.Frame (s.withVariable v) := by
  have htidy (hs : s.Tidy) := hs.registerVariable v
  have hnames := s.symbols.varNames_registerVariable s.names v
  revert htidy hnames
  unfold State.withVariable SymbolTable.registerVariable
  cases s.symbols.variableHandle? v.key with
  | some handle => exact fun _ _ => .refl s
  | none =>
    intro htidy hnames
    have hname (name : String) : s.symbols.nameDecl v.key name = s.symbols := by
      unfold VariableSymbol.isDeclared at h
      unfold SymbolTable.nameDecl
      split
      · rename_i id hkey
        rw [hkey] at h
        exact absurd h (by simp)
      · rfl
    simp only [hname] at htidy hnames ⊢
    exact { State.Frame.refl s with
      varNames := hnames
      tidy := htidy }

theorem contribute (s : State) (body : BodyId) (c : Contribution) :
    s.Frame { s with symbols := s.symbols.contribute body c } :=
  { refl s with
    bodyTexts := map_modify (fun b => by rfl) _ _
    contributed := s.symbols.added_contribute body c }

end State.Frame

/-! ## Steps -/

/-- The state after a parameter was copied from its body into a field, for another body. -/
def State.copied (s : State) (owner : DeclId) (index : Nat) (name : String) (type : Ty)
    (body : BodyId) : State :=
  let (handle, symbols, names) := s.symbols.registerVariable s.names
    { key := .param owner index, name, type, storage := .field }
  let field := ((symbols.variableAt? handle).map VariableSymbol.name).getD name
  { s with
    names
    symbols := symbols.contribute body ⟨Emit.copyPriority, field ++ " = " ++ name ++ ";"⟩
    journal := .parameter owner index field s.place.body :: .refer (.copy handle) s.place.body ::
      .refer (.copy handle) body :: s.journal }

/-- What one spelling step does to the state. -/
inductive State.Spells : State → State → Prop where
  | imports (s : State) (imports : Imports) : Spells s { s with imports }
  /-- A node asks for a name of its own. -/
  | ownName (s : State) (id : NodeId) (text : String) :
    Spells s { s with names := (s.names.nameFor (.node id) text).2 }
  | temporary (s : State) :
    Spells s { s with
      names := (s.names.generate "temp").2
      journal := .temporary (s.names.generate "temp").1 :: s.journal }
  /-- A node enters a variable of its own. -/
  | ownVariable (s : State) (id : NodeId) (name : String) (type : Ty) :
    Spells s (s.withVariable { key := .node id, name, type })
  | mention {s : State} {handle : VariableHandle} {name : String} {symbols : SymbolTable}
    (h : s.symbols.useVariable handle s.place.body = some (name, symbols)) :
    Spells s { s with symbols, journal := .mention handle s.place.body :: s.journal }
  | copy {s : State} {owner : DeclId} {index : Nat} {name : String} {type : Ty} {body : BodyId}
    (hparam : s.params.lookup (owner, index) = some (name, type))
    (hbody : s.symbols.declBody? owner = some body) (hother : body ≠ s.place.body) :
    Spells s (s.copied owner index name type body)
  /-- A parameter in its own body. -/
  | parameter {s : State} {owner : DeclId} {index : Nat} {name : String} {type : Ty}
    (hparam : s.params.lookup (owner, index) = some (name, type))
    (hbody : s.symbols.declBody? owner = some s.place.body) :
    Spells s { s with journal := .parameter owner index name s.place.body :: s.journal }
  | splice {s : State} {top : Splice} {rest : List Splice} (h : s.splices = top :: rest)
    {top' : Splice} (hmore : top.Extends top') : Spells s { s with splices := top' :: rest }
  | runtime (s : State) :
    Spells s { s with runtimeUsed := true, journal := .refer .runtime s.place.body :: s.journal }

namespace State.Spells

variable {s s' : State}

theorem frame (h : s.Spells s') : s.Frame s' := by
  cases h with
  | imports imports => exact { State.Frame.refl s with }
  | ownName id text =>
    exact { State.Frame.refl s with
      tidy := fun h => h.nameFor (.node id) text }
  | temporary =>
    exact { State.Frame.note s (e := .temporary (s.names.generate "temp").1) rfl with
      tidy := fun h => h.generate "temp" }
  | ownVariable id name type => exact .registerVariable s rfl
  | mention huse =>
    rename_i handle name symbols
    have htidy (hs : s.Tidy) := hs.useVariable huse
    have hnames := (SymbolTable.useVariable_same huse).2
    obtain ⟨v, _, huse⟩ := Option.map_eq_some_iff.1 huse
    cases huse
    exact { State.Frame.note s (e := .mention handle s.place.body) rfl with
      varNames := hnames ▸ prefix_rfl
      tidy := htidy }
  | copy hparam hbody hother =>
    exact ((State.Frame.registerVariable s rfl).trans (.contribute _ _ _)).trans
      (((State.Frame.note _ rfl).trans (.note _ rfl)).trans (.note _ rfl))
  | parameter hparam hbody => exact .note s rfl
  | splice hsplices hmore =>
    exact { State.Frame.refl s with
      spliceDepth := by simp [hsplices]
      spliceTail := by simp [hsplices]
      splice := by simpa [State.splice, hsplices] using hmore }
  | runtime => exact { State.Frame.note s (e := .refer .runtime s.place.body) rfl with }

theorem frames (h : Relation.ReflTransGen Spells s s') : s.Frame s' := by
  induction h with
  | refl => exact .refl s
  | tail _ hstep ih => exact ih.trans hstep.frame

end State.Spells

namespace Emit

variable {ν α β : Type}

/-- A parameter is not found, or is written by its own name in its body, or is copied into a field. -/
theorem parameter_cases (owner : DeclId) (index : UInt64) (s : State) :
    (∃ e : GenError, e.isPlain = true ∧
      ∀ env : Env ν, parameter owner index env s = (.error e, s)) ∨
    ∃ name type body, s.params.lookup (owner, index.toNat) = some (name, type) ∧
      s.symbols.declBody? owner = some body ∧
      ((body = s.place.body ∧ ∀ env : Env ν, parameter owner index env s =
          (.ok name, { s with journal := .parameter owner index.toNat name body :: s.journal })) ∨
        body ≠ s.place.body ∧ ∀ env : Env ν, parameter owner index env s =
          let entered := s.symbols.registerVariable s.names
            { key := .param owner index.toNat, name, type, storage := .field }
          (.ok (((entered.2.1.variableAt? entered.1).map VariableSymbol.name).getD name),
            s.copied owner index.toNat name type body)) := by
  unfold parameter
  simp only [bind_apply, Emit.get]
  rcases s.params.lookup (owner, index.toNat) with _ | ⟨name, type⟩
  · exact .inl ⟨_, rfl, fun _ => rfl⟩
  · dsimp only
    rcases s.symbols.declBody? owner with _ | body
    · exact .inl ⟨_, rfl, fun _ => rfl⟩
    · refine .inr ⟨name, type, body, rfl, rfl, ?_⟩
      dsimp only
      split
      · exact .inl ⟨‹_›, fun _ => rfl⟩
      · exact .inr ⟨‹_›, fun _ => rfl⟩

/-- The emission is made of spelling steps, also when it fails. -/
def Quiet (x : Emit ν α) : Prop :=
  ∀ env s, Relation.ReflTransGen State.Spells s (x env s).2

namespace Quiet

theorem frame {x : Emit ν α} (h : Quiet x) (env : Env ν) (s : State) : s.Frame (x env s).2 :=
  State.Spells.frames (h env s)

/-! ## Sequencing -/

theorem pure (a : α) : Quiet (Pure.pure a : Emit ν α) := fun _ _ => .refl

theorem fail (e : GenError) : Quiet (Emit.fail e : Emit ν α) := fun _ _ => .refl

theorem get : Quiet (Emit.get : Emit ν State) := fun _ _ => .refl

theorem env : Quiet (Emit.env : Emit ν (Env ν)) := fun _ _ => .refl

theorem bind {x : Emit ν α} {f : α → Emit ν β} (hx : Quiet x) (hf : ∀ a, Quiet (f a)) :
    Quiet (x >>= f) := by
  intro env s
  have hs := hx env s
  rw [bind_apply]
  rcases hrun : x env s with ⟨e | a, s'⟩
  · rw [hrun] at hs
    exact hs
  · rw [hrun] at hs
    exact hs.trans (hf a env s')

theorem demand (condition : Bool) (what : Misuse) :
    Quiet (Emit.demand condition what : Emit ν Unit) := by
  unfold Emit.demand
  split
  · exact pure ()
  · exact fail _

theorem unresolved (what : Missing) : Quiet (Emit.unresolved what : Emit ν α) :=
  bind get fun _ => fail _

/-! ## Spelling -/

theorem typeText (type : Ty) : Quiet (Emit.typeText type : Emit ν String) :=
  fun _ s => .single (.imports s _)

theorem typeTexts (types : List Ty) : Quiet (Emit.typeTexts types : Emit ν (List String)) :=
  fun _ s => .single (.imports s _)

theorem literalText (literal : Literal) : Quiet (Emit.literalText literal : Emit ν String) :=
  fun _ s => .single (.imports s _)

theorem literalTexts (literals : List Literal) :
    Quiet (Emit.literalTexts literals : Emit ν (List String)) :=
  fun _ s => .single (.imports s _)

theorem runtime : Quiet (Emit.runtime : Emit ν String) :=
  fun _ s => .single (.runtime s)

theorem temporaryName : Quiet (Emit.temporaryName : Emit ν String) :=
  fun _ s => .single (.temporary s)

theorem nameFor (node : NodeId) (text : String) :
    Quiet (Emit.nameFor (.node node) text : Emit ν String) :=
  fun _ s => .single (.ownName s node text)

/-! ## Variables -/

theorem variableName (handle : VariableHandle) :
    Quiet (Emit.variableName handle : Emit ν String) := by
  intro env s
  unfold Emit.variableName
  simp only [bind_apply, Emit.get]
  rcases huse : s.symbols.useVariable handle s.place.body with _ | ⟨name, symbols⟩
  · exact unresolved _ env s
  · exact .single (.mention huse)

theorem keyedVariable (key : SymbolKey) (what : Missing) :
    Quiet (Emit.keyedVariable key what : Emit ν String) := by
  refine bind get fun s => ?_
  split
  · exact unresolved what
  · exact variableName _

theorem nodeVariable (node : NodeId) : Quiet (Emit.nodeVariable node : Emit ν String) :=
  keyedVariable _ _

theorem parameter (owner : DeclId) (index : UInt64) :
    Quiet (Emit.parameter owner index : Emit ν String) := by
  intro env s
  obtain ⟨e, _, hrun⟩ | ⟨name, type, body, hparam, hbody, ⟨rfl, hrun⟩ | ⟨hother, hrun⟩⟩ :=
    parameter_cases owner index s
  · rw [hrun]
  · rw [hrun]
    exact .single (.parameter hparam hbody)
  · rw [hrun]
    exact .single (.copy hparam hbody hother)

/-! ## Splices -/

theorem splice (enter : String) (exit : Option String) :
    Quiet (Emit.splice enter exit : Emit ν Unit) := by
  intro env s
  unfold Emit.splice
  simp only [bind_apply, Emit.get]
  rcases hs : s.splices with _ | ⟨top, rest⟩
  · exact .refl
  · exact .single (.splice hs ⟨prefix_append _ _, prefix_append _ _⟩)

end Quiet

end Emit

end FlowClass
