import FlowClass.Proofs.Program.Owners

/-!
# Where the texts of bodies come from

In every state of a pass shared nodes can be called by the names that their methods have (`Callable`),
and what is known of declarations and shared nodes stays known (`Moves.kept`). Inside a body, a
text is given only to the method of a shared node: it is what the chain of the node came to when it
was reached (`Moves.bodyText?`).
-/

namespace FlowClass

open List State Option SymbolTable

variable {id : NodeId} {s : State} {m : MethodSymbol} {body : BodyId}

/-! ## What is kept of a body -/

/-- New bodies have no text. -/
theorem State.bodyText?_append {s' : State} {new : List Body}
    (hbodies : s'.symbols.bodies = s.symbols.bodies ++ new) (hnew : ∀ b ∈ new, b.text = none)
    (body : BodyId) : s'.bodyText? body = s.bodyText? body := by
  unfold bodyText? body?
  rw [hbodies]
  by_cases hlt : body.index < s.symbols.bodies.length
  · rw [getElem?_append_left hlt]
  · have hle := Nat.le_of_not_lt hlt
    rw [getElem?_eq_none hle, getElem?_append_right hle, bind_none,
      bind_eq_none_iff]
    exact fun b hb => hnew b (mem_of_getElem? hb)

theorem State.bodyText?_registerMethod {key : SymbolKey} {handle : MethodHandle}
    {symbols : SymbolTable} {names : Names}
    (hrun : s.symbols.registerMethod s.names (some key) m = .ok (handle, symbols, names))
    (body : BodyId) : bodyText? { s with symbols, names } body = s.bodyText? body := by
  obtain ⟨_, rfl, rfl⟩ | ⟨_, _, _, _, rfl, rfl⟩ | ⟨_, hadded⟩ := registerMethod_ok hrun
  · rfl
  · rfl
  · rw [addMethod_eq] at hadded
    cases hadded
    exact bodyText?_append rfl (by simp) body

theorem State.bodyText?_enterUnit (s : State) (id : NodeId) (body : BodyId) :
    (Emit.enterUnit id s).bodyText? body = s.bodyText? body := by
  unfold Emit.enterUnit
  obtain ⟨u, _, hknown⟩ | ⟨_, hnew⟩ := s.units.register_cases s.symbols id
  · rw [hknown]
    rfl
  · rw [hnew]
    exact bodyText?_append rfl (by simp) body

theorem State.bodyOf?_shared :
    s.bodyOf? (.shared id) = some body ↔ ∃ m, s.methodFor? id = some m ∧ m.body = body :=
  map_eq_some_iff

theorem State.Frame.bodyText? {s' : State} (h : s.Frame s') (body : BodyId) :
    s'.bodyText? body = s.bodyText? body := by
  have htext (s : State) : s.bodyText? body = ((s.symbols.bodies.map Body.text)[body.index]?).join := by
    unfold State.bodyText? body?
    rw [getElem?_map]
    cases s.symbols.bodies[body.index]? <;> rfl
  rw [htext, htext, h.bodyTexts]

theorem State.length_giveText (text : String) :
    (s.giveText body text).symbols.bodies.length = s.symbols.bodies.length :=
  length_modify ..

theorem State.bodyText_giveText_self (text : String)
    (h : body.index < s.symbols.bodies.length) :
    (s.giveText body text).bodyText? body = some text := by
  unfold bodyText? giveText body? setBodyText
  simp [h]

theorem State.bodyText_giveText {other : BodyId} (text : String) (h : other ≠ body) :
    (s.giveText body text).bodyText? other = s.bodyText? other := by
  have hindex : body.index ≠ other.index := fun heq => h (congrArg BodyId.mk heq.symm)
  unfold bodyText? giveText body? setBodyText
  simp [hindex]

/-- A text is given to a body that is there, or nothing happens. -/
theorem State.bodyText_giveText_or (s : State) (body other : BodyId) (text : String) :
    (s.giveText other text).bodyText? body = s.bodyText? body ∨
      body = other ∧ (s.giveText other text).bodyText? body = some text := by
  by_cases hsame : body = other
  · subst hsame
    by_cases hlt : body.index < s.symbols.bodies.length
    · exact .inr ⟨rfl, bodyText_giveText_self text hlt⟩
    · left
      have hnone := getElem?_eq_none (Nat.le_of_not_lt hlt)
      have hlength : (s.giveText body text).symbols.bodies.length = s.symbols.bodies.length :=
        length_giveText text
      have hnone' := getElem?_eq_none (hlength.trans_le (Nat.le_of_not_lt hlt))
      unfold bodyText? body?
      rw [hnone, hnone']
  · exact .inl (bodyText_giveText text hsame)

/-! ## Names that can be called -/

/-- A method with this base name has a name that was made from it, unless a declaration is called
so. -/
def ClassDecl.Supplies (c : ClassDecl) (base name : String) : Prop :=
  base ∈ c.methodNames ∨ ∃ names : Names, name = (names.generate base).1

theorem ClassDecl.Supplies.methodName {c : ClassDecl} {t : SymbolTable}
    (h : ∀ m ∈ t.methods, c.Supplies m.base m.name) (names : Names) (base : String) :
    c.Supplies base (t.methodName names base).1 := by
  unfold SymbolTable.methodName
  split
  · rename_i m hm
    have hbase : m.base = base := by simpa using find?_some hm
    exact hbase ▸ h m (mem_of_find?_eq_some hm)
  · exact .inr ⟨names, rfl⟩

/-- Shared nodes can be called: a method is known by a node exactly from when it was reached, and has
a name that was made for it. `base` is the state before any body was emitted. -/
structure Callable (env : Env Node) (base s : State) : Prop where
  frozen : s.classifier.frozen = some env.sealed
  declNames : s.symbols.declNames = base.symbols.declNames
  tidy : s.Tidy
  keys : ∀ id, s.shared.lookup id = none → s.symbols.methodKeys.lookup (.node id) = none
  methods : ∀ m ∈ s.symbols.methods, env.graph.classDecl.Supplies m.base m.name
  shared : ∀ id n entry, env.graph.get? id = some n → s.shared.lookup id = some entry →
    env.graph.classDecl.Supplies (n.methodBase id) entry.1

namespace Callable

variable {env : Env Node} {base s s' : State}

theorem same (h : Callable env base s) (hclassifier : s'.classifier = s.classifier)
    (hnames : s'.symbols.declNames = s.symbols.declNames) (htidy : s.Tidy → s'.Tidy)
    (hkeys : s'.symbols.methodKeys = s.symbols.methodKeys)
    (hmethods : s'.symbols.methods = s.symbols.methods) (hshared : s'.shared = s.shared) :
    Callable env base s' where
  frozen := hclassifier ▸ h.frozen
  declNames := hnames.trans h.declNames
  tidy := htidy h.tidy
  keys := by
    rw [hshared, hkeys]
    exact h.keys
  methods := hmethods ▸ h.methods
  shared := hshared ▸ h.shared

theorem around (h : Callable env base s) (place : Place) (reading : List (NodeId × UInt16))
    (splices : List Splice) (scopes : List NodeId) (journal : List Event) :
    Callable env base { s with place, reading, splices, scopes, journal } :=
  h.same rfl rfl (fun h => h) rfl rfl rfl

theorem enterUnit (h : Callable env base s) (id : NodeId) (units : StateUnits) (place : Place) :
    Callable env base { Emit.enterUnit id s with units, place } := by
  unfold Emit.enterUnit
  obtain ⟨u, _, hknown⟩ | ⟨_, hnew⟩ := s.units.register_cases s.symbols id
  · rw [hknown]
    exact h.same rfl rfl (fun h => h) rfl rfl rfl
  · rw [hnew]
    exact h.same rfl rfl (fun h => h) rfl rfl rfl

section Enter

variable {n : Node} {type : Ty} {handle : MethodHandle} {symbols : SymbolTable} {names : Names}
  (hmethod : s.symbols.registerMethod s.names (some (.node id))
    (Emit.sharedMethod s.place id n.title type) = .ok (handle, symbols, names))
include hmethod

/-- The method of a node that is reached for the first time has its name and its type. -/
theorem entered (h : Callable env base s) (hnew : s.shared.lookup id = none)
    (hm : symbols.method? handle = some m) :
    (∀ m ∈ symbols.methods, env.graph.classDecl.Supplies m.base m.name) ∧
      m.base = n.methodBase id ∧ m.returnType = type := by
  obtain ⟨hknown, _⟩ | ⟨other, hother, hbase, ⟨_, htype⟩, rfl, _⟩ | ⟨_, hadded⟩ :=
    registerMethod_ok hmethod
  · rw [Option.bind_some, h.keys id hnew] at hknown
    cases hknown
  · cases hother.symm.trans hm
    exact ⟨h.methods, hbase, htype⟩
  · rw [addMethod_eq] at hadded
    cases hadded
    cases getElem?_concat_length.symm.trans hm
    exact ⟨forall_mem_append.2 ⟨h.methods, forall_mem_singleton.2 (.methodName h.methods _ _)⟩,
      rfl, rfl⟩

theorem intoShared (h : Callable env base s) (hn : env.graph.get? id = some n)
    (hnew : s.shared.lookup id = none) (hm : symbols.method? handle = some m) :
    Callable env base (s.intoShared id type symbols names m) := by
  obtain ⟨hmethods, hbase, _⟩ := h.entered hmethod hnew hm
  refine ⟨h.frozen, (registerMethod_node hmethod).1.trans h.declNames,
    h.tidy.registerMethod hmethod, fun id' hid' => ?_, hmethods, fun id' n' entry hn' hentry => ?_⟩
  · have hne : id' ≠ id := fun heq => by
      rw [heq, State.intoShared, lookup_cons_self] at hid'
      cases hid'
    obtain ⟨_, rfl⟩ | ⟨_, hkeys, _⟩ := registerMethod_keyed hmethod
    · exact h.keys id' ((lookup_cons_of_ne hne _ _).symm.trans hid')
    · change symbols.methodKeys.lookup _ = none
      rw [hkeys, lookup_cons_of_ne (by simpa using hne)]
      exact h.keys id' ((lookup_cons_of_ne hne _ _).symm.trans hid')
  · by_cases heq : id' = id
    · subst heq
      cases hn.symm.trans hn'
      cases lookup_cons_self.symm.trans hentry
      exact hbase ▸ hmethods m (mem_of_getElem? hm)
    · exact h.shared id' n' entry hn' ((lookup_cons_of_ne heq _ _).symm.trans hentry)

end Enter

theorem moves (hmoves : Moves env s s') (h : Callable env base s) : Callable env base s' := by
  induction hmoves with
  | refl s => exact h
  | trans _ _ ih ih' => exact ih' (ih h)
  | spell hstep =>
    have hframe := hstep.frame
    exact h.same hframe.classifier hframe.declNames hframe.tidy hframe.methodKeys hframe.methods
      hframe.shared
  | nested type _ ih => exact (ih (h.around _ _ _ _ _)).around _ _ _ _ _
  | unit hstatic hbegin text _ ih =>
    exact (ih (h.enterUnit _ _ _)).same rfl rfl (fun h => h) rfl rfl rfl
  | unitAgain s hstatic => exact h.enterUnit _ _ _
  | shared hn hnew hmethod hm _ ih => exact (ih (h.intoShared hmethod hn hnew hm)).around _ _ _ _ _
  | sharedLost s hn hmethod hlost =>
    obtain ⟨rfl, rfl⟩ := registerMethod_lost hmethod hlost
    exact h
  | text hwrote _ ih => exact (ih h).same rfl rfl (fun h => h) rfl rfl rfl
  | _ => exact h.same rfl rfl (fun h => h) rfl rfl rfl

/-- Before any emission no node was reached. -/
theorem start (hprepared : Prepared env base) (hdeclared : Declared env.graph.classDecl base) :
    Callable env base base where
  frozen := hprepared.frozen
  declNames := rfl
  tidy := hdeclared.tidy
  keys id _ := by
    refine lookup_eq_none_iff.2 fun k hk => ?_
    obtain ⟨decl, hdecl⟩ := hdeclared.keys k hk
    simp [hdecl]
  methods m hm := .inl (hdeclared.bases m hm)
  shared id n entry _ hentry := by
    rw [show base.shared = [] from congrArg Ledger.shared hprepared.ledger] at hentry
    cases hentry

end Callable

/-! ## Where texts come from -/

/-- A chain came to the text, from a state in which shared nodes could be called. -/
def Emit.Ran (env : Env Node) (base s : State) (inline : Bool) (target : NodeId) (place : Place)
    (text : String) : Prop :=
  ∃ depth start last, Callable env base start ∧ start.place = place ∧
    chainAt depth inline (some target) env start = (.ok text, last) ∧ last.Kept s

/-- The chain of a shared node came to the text, for the body of its method. -/
def Emit.RanShared (env : Env Node) (base s : State) (id : NodeId) (body : BodyId)
    (text : String) : Prop :=
  ∃ m, ∃ place : Place, s.methodFor? id = some m ∧ m.body = body ∧
    s.shared.lookup id = some (m.name, m.returnType) ∧
    Ran env base s true id (place.toShared body m.returnType) text

section Moves

variable {env : Env Node} {base s s' : State} {text : String}

theorem Emit.Ran.mono {inline : Bool} {place : Place} (h : Ran env base s inline id place text)
    (hkept : s.Kept s') : Ran env base s' inline id place text := by
  obtain ⟨depth, start, last, hcallable, hplace, hrun, hlast⟩ := h
  exact ⟨depth, start, last, hcallable, hplace, hrun, hlast.trans hkept⟩

theorem Emit.RanShared.mono (h : RanShared env base s id body text) (hkept : s.Kept s') :
    RanShared env base s' id body text := by
  obtain ⟨m, place, hm, hbody, hentry, hran⟩ := h
  exact ⟨m, place, hkept.methodFor? hm, hbody, hkept.shared hentry, hran.mono hkept⟩

theorem Emit.Wrote.ran (h : Wrote env s s' id m text) (hs : Callable env base s) :
    RanShared env base (s'.giveText m.body text) id m.body text := by
  obtain ⟨hm, n, type, handle, symbols, names, depth, hn, hnew, hmethod, hentered, hrun⟩ := h
  obtain ⟨_, _, rfl⟩ := hs.entered hmethod hnew hentered
  have hstart := hs.intoShared hmethod hn hnew hentered
  have hmoves := ((moving env env.sealed).level depth).2 true (some id) _ hstart.frozen
  rw [hrun] at hmoves
  exact ⟨m, s.place, hm, rfl, hmoves.kept.shared lookup_cons_self, depth, _, _, hstart, rfl, hrun,
    { State.Kept.giveText s' m.body text with }⟩

/-- The text of a body stays what it is, unless it becomes the chain of a node that has the body. -/
theorem Moves.bodyText? (hmoves : Moves env s s') (hs : Callable env base s) (body : BodyId) :
    s'.bodyText? body = s.bodyText? body ∨
      ∃ id text, s'.bodyText? body = some text ∧ Emit.RanShared env base s' id body text := by
  induction hmoves with
  | trans hfirst hsecond ih ih' =>
    obtain hsame' | hnew := ih' (hs.moves hfirst)
    · rw [hsame']
      exact (ih hs).imp_right fun ⟨id, code, htext, hran⟩ =>
        ⟨id, code, htext, hran.mono hsecond.kept⟩
    · exact .inr hnew
  | spell hstep => exact .inl (hstep.frame.bodyText? body)
  | nested type _ ih =>
    refine (ih (hs.around _ _ _ _ _)).imp_right fun ⟨id, code, htext, hran⟩ => ?_
    exact ⟨id, code, htext, hran.mono { State.Kept.refl _ with }⟩
  | unit hstatic hbegin text _ ih =>
    refine (ih (hs.enterUnit _ _ _)).imp (fun hsame => hsame.trans (bodyText?_enterUnit _ _ body))
      fun ⟨id, code, htext, hran⟩ => ⟨id, code, htext, hran.mono { State.Kept.refl _ with }⟩
  | unitAgain s hstatic => exact .inl (bodyText?_enterUnit s _ body)
  | shared hn hnew hmethod hm _ ih =>
    refine (ih (hs.intoShared hmethod hn hnew hm)).imp
      (fun hsame => hsame.trans (bodyText?_registerMethod hmethod body))
      fun ⟨id, code, htext, hran⟩ => ⟨id, code, htext, hran.mono { State.Kept.refl _ with }⟩
  | sharedLost s hn hmethod hlost => exact .inl (bodyText?_registerMethod hmethod body)
  | text hwrote _ ih =>
    rename_i s' id m code _
    obtain hsame | ⟨rfl, hgiven⟩ := s'.bodyText_giveText_or body m.body code
    · rw [hsame]
      exact (ih hs).imp_right fun ⟨id, code, htext, hran⟩ =>
        ⟨id, code, htext, hran.mono (.giveText _ _ _)⟩
    · exact .inr ⟨id, code, hgiven, hwrote.ran hs⟩
  | _ => exact .inl rfl

end Moves

end FlowClass
