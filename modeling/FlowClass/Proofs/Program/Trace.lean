import FlowClass.Proofs.Program.BodyTexts
import FlowClass.Proofs.Program.Chains
import FlowClass.Proofs.Program.Identifiers

/-!
# The trace of an emitted body

A pass gives the body of every entry point its text, and the texts of a straight graph are read as
statements (`ReadsAs`). Executed, they invoke what the graph invokes when it is run from the entry
point, with one difference: the method of a shared node ends at a return, and the caller goes on. So
the emitted body may invoke more than the graph does, after its first return
(`emitted_trace_extends_reference`).
-/

namespace FlowClass

open Program List Emit Generation

variable {method : String → Option (List Stmt)} {code : List Stmt} {s : State}

/-- The names that the declarations of the class get. -/
def Generation.declNames (gen : Generation Node) : List (DeclId × String) :=
  (prepare gen.env gen.state).2.symbols.declNames

/-! ## Readings -/

/-- The type of the value that an entry point owes. -/
def ClassDecl.entryType? (c : ClassDecl) (e : EntryPoint) : Option Ty :=
  match e.kind, c.get e.owner with
  | .function, .ok (.function f) => some f.returnType
  | .getter, .ok (.property p) => some p.type
  | .setter, .ok (.property _) => some .void
  | .constructor, .ok (.constructor _) => some .void
  | .event, .ok (.event _) => some .void
  | _, _ => none

theorem ClassDecl.place_of_entryType {c : ClassDecl} {e : EntryPoint} {type : Ty}
    (h : c.entryType? e = some type) (body : BodyId) : ∃ decl place, c.get e.owner = .ok decl ∧
      entryPlace? c e body decl = some place ∧ place.returnType = type := by
  obtain ⟨owner, kind, node⟩ := e
  unfold entryType? at h
  split at h <;> cases h
  all_goals
    rename_i hkind hdecl
    cases hkind
    exact ⟨_, _, hdecl, rfl, rfl⟩

/-- The emitted texts, read as statements: `code` is the body of an entry point, and `method` are
the bodies of the methods that shared nodes have. -/
structure ReadsAs (env : Env Node) (s : State) (e : EntryPoint) (code : List Stmt)
    (method : String → Option (List Stmt)) : Prop where
  entry : ∃ body text, entryBody? s e = some body ∧ s.bodyText? body = some text ∧
    Spells text code
  /-- The branches of the code have the conditions of the graph. -/
  lowered : env.Lowers s.symbols.declNames s.voidMethod? [.go (some e.node)] code
  methods : ∀ id name, s.voidMethod? id = some name → ∃ symbol text body,
    s.methodFor? id = some symbol ∧ symbol.name = name ∧ symbol.params = [] ∧
    symbol.returnType.isVoid = true ∧ s.bodyText? symbol.body = some text ∧ Spells text body ∧
    method name = some body ∧ env.Lowers s.symbols.declNames s.voidMethod? [.here id] body
  others : ∀ name, (∀ id, s.voidMethod? id ≠ some name) → method name = none

theorem lookup_of_voidMethod {id : NodeId} {name : String} (h : s.voidMethod? id = some name) :
    ∃ type, s.shared.lookup id = some (name, type) ∧ type.isVoid = true := by
  obtain ⟨m, hm, hvoid⟩ := Option.bind_eq_some_iff.1 h
  split at hvoid
  · rename_i htype
    cases hvoid
    exact ⟨m.2, hm, htype⟩
  · cases hvoid

section Texts

variable {env : Env Node} {base : State} {body : BodyId} {text : String} {id : NodeId} {n : Node}
  (hstraight : Straight env base.symbols.declNames) (hclean : s.diagnostics = [])
include hstraight

include hclean in
/-- What an entry point without a value came to is the chain from its node on. -/
theorem Emit.Ran.written {place : Place} (h : Ran env base s false id place text)
    (hresumable : place.resumable = false) (hvoid : place.returnType.isVoid = true) :
    Written env s [.go (some id)] text := by
  obtain ⟨depth, start, last, hcallable, rfl, hrun, hext⟩ := h
  exact hext.written (writes_flow hstraight depth (some id) ⟨hcallable, hresumable, hvoid⟩ hrun
    (hext.clean hclean))

include hclean in
/-- What a shared node without a value came to is the node. -/
theorem Emit.RanShared.written (hn : env.graph.get? id = some n) {name : String} {type : Ty}
    (h : RanShared env base s id body text) (hentry : s.shared.lookup id = some (name, type))
    (hvoid : type.isVoid = true) : ∃ m, s.methodFor? id = some m ∧ m.name = name ∧
      m.returnType = type ∧ Written env s [.here id] text := by
  obtain ⟨m, place, hm, _, hknown, depth, start, last, hcallable, hplace, hrun, hext⟩ := h
  cases hknown.symm.trans hentry
  have hstart : InVoid env base start := ⟨hcallable, by rw [hplace]; rfl, by rw [hplace]; exact hvoid⟩
  exact ⟨m, hm, rfl, rfl,
    hext.written (writes_shared hstraight depth hn hstart hrun (hext.clean hclean))⟩

/-- No shared node merges with a declaration, so each text is the code of the one that has the
body. -/
theorem OwnCode.sole {done : List EntryPoint} (h : OwnCode env base done s)
    (hdeclared : Declared env.graph.classDecl base)
    (hentered : MethodsEntered env.graph.classDecl base) {o : BodyOwner}
    (hbody : s.bodyOf? o = some body) (htext : s.bodyText? body = some text) :
    o.Code env base s body text := by
  have hnone (id : NodeId) (owner : DeclId) : ¬ env.graph.Merges id owner := by
    rintro ⟨n, hn, hmem⟩
    refine hstraight.undeclared id n hn ?_
    obtain hfunction | hevent := mem_append.1 hmem
    · obtain ⟨f, hf, heq⟩ := mem_map.1 hfunction
      exact mem_append_left _ (mem_map.2 ⟨f, hf, congrArg (fun d => d.2.1) heq⟩)
    · obtain ⟨v, hv, heq⟩ := mem_map.1 hevent
      exact mem_append_right _ (mem_map.2 ⟨v, hv, congrArg (fun d => d.2.1) heq⟩)
  obtain ⟨o', ho'⟩ := h.emitted body text htext
  obtain rfl | hmerged := h.tenancy.owner_eq hdeclared hentered h.housed ho'.bodyOf? hbody
  · exact ho'
  · cases hmerged with
    | node hmerges | owner hmerges => exact absurd hmerges (hnone _ _)

variable {done : List EntryPoint} (h : OwnCode env base done s)
  (hdeclared : Declared env.graph.classDecl base)
  (hentered : MethodsEntered env.graph.classDecl base)
include hclean h hdeclared hentered

theorem OwnCode.written_entry (hids : env.graph.classDecl.declIds.Nodup) {e : EntryPoint}
    (he : e ∈ env.graph.classDecl.entryPoints) (hdone : e ∈ done)
    (hvoid : (env.graph.classDecl.entryType? e).any Ty.isVoid = true) :
    ∃ body text, entryBody? s e = some body ∧ s.bodyText? body = some text ∧
      Written env s [.go (some e.node)] text := by
  obtain ⟨body, text, howner, htext⟩ := h.filled e hdone
  have hbody := howner
  rw [EntryPoint.bodyOf?_bodyOwner] at hbody
  refine ⟨body, text, hbody, htext, ?_⟩
  cases h.sole hstraight hdeclared hentered howner htext with
  | shared ho _ => exact absurd ho.symm (e.bodyOwner_ne_shared _)
  | entry _ hbody' hdecl' hplace' hgives hran =>
    -- the text comes from the entry point that fills the body
    obtain ⟨type, htype, hvoid⟩ := (Option.any_eq_true _ _).1 hvoid
    obtain ⟨decl, place, hdecl, hplace, rfl⟩ := ClassDecl.place_of_entryType htype body
    obtain ⟨before, after, _, _, _, _, hentries, _⟩ := hgives
    rw [entryBody?_of_keeps h.tenancy.keeps] at hbody hbody'
    obtain rfl := hdeclared.entryPoint_eq hids he (hentries ▸ by simp) hbody hbody' hdecl hdecl'
      hplace hplace'
    cases hdecl.symm.trans hdecl'
    cases hplace.symm.trans hplace'
    exact hran.written hstraight hclean (resumable_of_entryPlace hplace) hvoid

theorem OwnCode.written_shared {name : String} (hname : s.voidMethod? id = some name) :
    ∃ symbol text, s.methodFor? id = some symbol ∧ symbol.name = name ∧ symbol.params = [] ∧
      symbol.returnType.isVoid = true ∧ s.bodyText? symbol.body = some text ∧
      Written env s [.here id] text := by
  obtain ⟨type, hlookup, hvoid⟩ := lookup_of_voidMethod hname
  obtain ⟨m, text, hm, htext⟩ := h.finished id (Option.isSome_iff_exists.2 ⟨_, hlookup⟩)
  obtain ⟨_, n, hn, hsignature⟩ := h.tenancy.methodFor?_eq_some hm
  cases h.sole hstraight hdeclared hentered (State.bodyOf?_shared.2 ⟨m, hm, rfl⟩) htext with
  | entry ho _ _ _ _ _ => exact absurd ho (EntryPoint.bodyOwner_ne_shared _ _)
  | shared ho hran =>
    cases ho
    obtain ⟨m', hm', hsame, htype, hwritten⟩ := hran.written hstraight hclean hn hlookup hvoid
    cases hm.symm.trans hm'
    exact ⟨m, text, hm, hsame, map_eq_nil_iff.1 (congrArg Prod.snd hsignature), htype ▸ hvoid, htext,
      hwritten⟩

end Texts

section Reading

variable {env : Env Node} {base s : State} {e : EntryPoint}

/-- The emitted statements execute as the graph runs with its shared nodes enclosed, to an end. -/
theorem ReadsAs.executes (h : ReadsAs env s e code method)
    (hdescribes : env.table.Describes env.graph) (hstate : env.table.stateNodes = [])
    (he : e ∈ env.graph.classDecl.entryPoints)
    (hown : ∀ id n name, env.graph.get? id = some n → n.ownCall? s.symbols.declNames = some name →
      ∀ id', s.voidMethod? id' ≠ some name) (ω : Stream' Bool) :
    ∃ acts left ω', Runs env.graph s.symbols.declNames env.table.isShared [.go (some e.node)] ω acts
        left ω' ∧ Executes method code ω acts left ω' := by
  have hmethods (id : NodeId) (name : String) (hname : s.voidMethod? id = some name) :
      ∃ code, method name = some code ∧
        env.Lowers s.symbols.declNames s.voidMethod? [.here id] code := by
    obtain ⟨_, _, body, _, _, _, _, _, _, hbody, hlowered⟩ := h.methods id name hname
    exact ⟨body, hbody, hlowered⟩
  have hbelow : ∀ w ∈ [Work.go (some e.node)],
      Lowered.Below env.graph env.table (2 * env.table.rank e.node + 2) w := by
    refine forall_mem_singleton.2 fun hexists => ⟨hdescribes.roots e ?_, Nat.lt_succ_self _⟩
    rw [hdescribes.entries]
    exact mem_filter.2 ⟨he, hexists⟩
  obtain ⟨acts, left, ω', hruns⟩ := Lowered.total hdescribes hstate
    (fun id name hname => (hmethods id name hname).imp fun _ hbody => hbody.2) h.lowered hbelow ω
  refine ⟨acts, left, ω', hruns, Lowered.executes hmethods (fun id n name hn hname => ?_) hruns
    h.lowered⟩
  exact h.others name (hown id n name hn hname)

end Reading

/-! ## Traces -/

namespace Program

/-- The methods that emitted statements invoke, for some outcomes of their conditions. -/
def EmittedTrace (method : String → Option (List Stmt)) (code : List Stmt) (ω : Stream' Bool)
    (trace : List String) : Prop :=
  ∃ acts left ω', Executes method code ω acts left ω' ∧ invoked acts = trace

/-- The methods that a graph invokes from a node on. A return ends the run, wherever it is. -/
def ReferenceTrace (g : Graph Node) (names : List (DeclId × String)) (start : NodeId)
    (ω : Stream' Bool) (trace : List String) : Prop :=
  ∃ acts left ω', Runs g names (fun _ => false) [.go (some start)] ω acts left ω' ∧
    invoked acts = trace

theorem emittedTrace_iff {ω ω' : Stream' Bool} {acts : List Act} {left : Bool}
    (h : Executes method code ω acts left ω') {trace : List String} :
    EmittedTrace method code ω trace ↔ trace = invoked acts := by
  constructor
  · rintro ⟨acts', left', ω'', h', rfl⟩
    rw [(h.unique h').1]
  · rintro rfl
    exact ⟨acts, left, ω', h, rfl⟩

theorem referenceTrace_iff {g : Graph Node} {names : List (DeclId × String)}
    {enclosed : NodeId → Bool} {start : NodeId} {ω ω' : Stream' Bool} {acts : List Act} {left : Bool}
    (h : Runs g names enclosed [.go (some start)] ω acts left ω') {trace : List String} :
    ReferenceTrace g names start ω trace ↔ trace = invoked (untilLeave acts) := by
  obtain ⟨left₁, ω₁, hplain⟩ := h.exists_plain
  constructor
  · rintro ⟨acts', left', ω'', h', rfl⟩
    rw [(hplain.unique h').1]
  · rintro rfl
    exact ⟨_, left₁, ω₁, hplain, rfl⟩

end Program

/-- The names that the class is called by are not those of its shared methods. -/
def State.SparesNames (s : State) (graph : Graph Node) (names : List (DeclId × String)) : Prop :=
  ∀ id n, graph.get? id = some n → ∀ id' m, s.shared.lookup id' = some m →
    n.ownCall? names ≠ some m.1

section Passes

variable {graph : Graph Node} {config : Config} {gen : Generation Node} {s : State}
  (hstart : start graph config = .ok gen)
  (hrun : bodies gen.env gen.state = (.ok (), s)) (hclean : s.diagnostics = [])
  (hstraight : Straight gen.env gen.declNames) (hown : s.SparesNames graph gen.declNames)
  {e : EntryPoint} (he : e ∈ graph.classDecl.entryPoints)

include hstart hrun in
theorem Generation.declNames_eq : s.symbols.declNames = gen.declNames := by
  obtain ⟨_, base, hprepare, _⟩ := bind_eq_ok_iff.1 hrun
  unfold declNames
  rw [hprepare]
  exact (ownCode hstart hprepare hrun).callable.declNames

include hstart hrun hclean hstraight he in
/-- The body of an entry point that owes no value can be read as statements. -/
theorem Generation.exists_readsAs (hvoid : (graph.classDecl.entryType? e).any Ty.isVoid = true) :
    ∃ code method, ReadsAs gen.env s e code method := by
  obtain ⟨_, base, hprepare, _⟩ := bind_eq_ok_iff.1 hrun
  have hids := nodup_declIds hstart
  have hinitial := prepare_initial hstart hprepare
  have hdeclared := Declared.prepared hids hinitial
  have hentered := MethodsEntered.prepared hids hinitial
  have hown := ownCode hstart hprepare hrun
  have hnamed := (named_of_bodies hstart hrun).1
  rw [← declNames_eq hstart hrun, hown.callable.declNames] at hstraight
  obtain rfl := (start_eq hstart).1
  obtain ⟨body, text, hbody, htext, code, hblock, hlowered⟩ :=
    hown.written_entry hstraight hclean hdeclared hentered hids he he hvoid
  have hmethods (id : NodeId) : ∃ body, ∀ name, s.voidMethod? id = some name → ∃ symbol text,
      s.methodFor? id = some symbol ∧ symbol.name = name ∧ symbol.params = [] ∧
      symbol.returnType.isVoid = true ∧ s.bodyText? symbol.body = some text ∧ Spells text body ∧
      gen.env.Lowers s.symbols.declNames s.voidMethod? [.here id] body := by
    cases hname : s.voidMethod? id with
    | none => exact ⟨[], fun _ h => by cases h⟩
    | some name =>
      obtain ⟨symbol, text, hsymbol, hsame, hparams, hreturn, htext, body, hblock, hlowered⟩ :=
        hown.written_shared hstraight hclean hdeclared hentered hname
      refine ⟨body, fun name' hname' => ⟨symbol, text, hsymbol, ?_, hparams, hreturn, htext,
        hblock.spells, hlowered⟩⟩
      cases hname'
      exact hsame
  choose bodyOf hbodyOf using hmethods
  -- a name belongs to one shared node
  have hunique (id id' : NodeId) (name : String) (h : s.voidMethod? id = some name)
      (h' : s.voidMethod? id' = some name) : id = id' := by
    obtain ⟨m, _, hm, hsame, hparams, _⟩ := hbodyOf id name h
    obtain ⟨m', _, hm', hsame', hparams', _⟩ := hbodyOf id' name h'
    obtain ⟨hmem, n, _, hsignature⟩ := hown.tenancy.methodFor?_eq_some hm
    obtain ⟨hmem', n', _, hsignature'⟩ := hown.tenancy.methodFor?_eq_some hm'
    obtain rfl := inj_on_of_nodup_map hnamed.nodup_overloads hmem hmem'
      (by rw [hsame, hsame', hparams, hparams'])
    exact Node.methodBase_injective (congrArg Prod.fst (hsignature.symm.trans hsignature'))
  classical
  refine ⟨code, fun name =>
    if h : ∃ id, s.voidMethod? id = some name then some (bodyOf h.choose) else none,
    ⟨⟨body, text, hbody, htext, hblock.spells⟩, hlowered, fun id name hname => ?_, fun name hnone => ?_⟩⟩
  · obtain ⟨symbol, text, hsymbol, hsame, hparams, hreturn, htext, hspells, hbody⟩ :=
      hbodyOf id name hname
    have hknown : ∃ id, s.voidMethod? id = some name := ⟨id, hname⟩
    refine ⟨symbol, text, bodyOf id, hsymbol, hsame, hparams, hreturn, htext, hspells, ?_, hbody⟩
    rw [dif_pos hknown, hunique _ id name hknown.choose_spec hname]
  · exact dif_neg fun ⟨id, hid⟩ => hnone id hid

include hstart hrun hstraight hown he in
/-- The statements come to an end, as the graph does with its shared nodes enclosed. -/
theorem Generation.exists_executes (hreads : ReadsAs gen.env s e code method) (ω : Stream' Bool) :
    ∃ acts left ω',
    Runs graph gen.declNames gen.env.table.isShared [.go (some e.node)] ω acts left ω' ∧
      Executes method code ω acts left ω' := by
  have hdeclNames := declNames_eq hstart hrun
  have hdescribes := describes hstart
  obtain ⟨rfl, _, _, _⟩ := start_eq hstart
  rw [← hdeclNames] at hown ⊢
  refine hreads.executes hdescribes hstraight.stateless he
    (fun id n name hn hname id' hmethod => ?_) ω
  obtain ⟨type, hlookup, _⟩ := lookup_of_voidMethod hmethod
  exact hown id n hn id' _ hlookup hname

end Passes

/-- The emitted body of an entry point that owes no value can be read as statements. Whatever the
conditions turn out to be, they invoke what the graph invokes from the entry point on, and then what
comes after the first return if a return in a shared node ends only that node. So the traces are the
same just if nothing is invoked then, as in a graph whose shared nodes lead to no return. -/
theorem emitted_trace_extends_reference {graph : Graph Node} {config : Config}
    {gen : Generation Node} {s : State} (hstart : Generation.start graph config = .ok gen)
    (hrun : Emit.bodies gen.env gen.state = (.ok (), s)) (hclean : s.diagnostics = [])
    (hstraight : Straight gen.env gen.declNames) (hown : s.SparesNames graph gen.declNames)
    {e : EntryPoint} (he : e ∈ graph.classDecl.entryPoints)
    (hvoid : (graph.classDecl.entryType? e).any Ty.isVoid = true) :
    (∃ code method, ReadsAs gen.env s e code method) ∧
      ∀ code method, ReadsAs gen.env s e code method → ∀ ω : Stream' Bool, ∃ acts left ω',
        Runs graph gen.declNames gen.env.table.isShared [.go (some e.node)] ω acts left ω' ∧
        (∀ trace, EmittedTrace method code ω trace ↔
          trace = invoked (untilLeave acts) ++ invoked (afterLeave acts)) ∧
        (∀ trace, ReferenceTrace graph gen.declNames e.node ω trace ↔
          trace = invoked (untilLeave acts)) ∧
        ((∃ trace, EmittedTrace method code ω trace ∧
            ReferenceTrace graph gen.declNames e.node ω trace) ↔ invoked (afterLeave acts) = []) ∧
        ((∀ id, gen.env.table.isShared id = true → ¬ LeadsToReturn graph id) →
          afterLeave acts = []) := by
  refine ⟨Generation.exists_readsAs hstart hrun hclean hstraight he hvoid,
    fun code method hreads ω => ?_⟩
  obtain ⟨acts, left, ω', hruns, hexecutes⟩ :=
    Generation.exists_executes hstart hrun hstraight hown he hreads ω
  have hemitted (trace : List String) : EmittedTrace method code ω trace ↔
      trace = invoked (untilLeave acts) ++ invoked (afterLeave acts) := by
    rw [emittedTrace_iff hexecutes, invoked_eq]
  have hreference (trace : List String) : ReferenceTrace graph gen.declNames e.node ω trace ↔
      trace = invoked (untilLeave acts) := referenceTrace_iff hruns
  refine ⟨acts, left, ω', hruns, hemitted, hreference, ?_, fun hfree => hruns.afterLeave_eq_nil hfree⟩
  simp only [hemitted, hreference, exists_eq_right, List.self_eq_append_right]

/-! ## Two graphs -/

/-- Decides that a pass over a straight graph with simple conditions reported nothing and gave its
shared methods names of their own. -/
def Generation.isStraight (gen : Generation Node) (s : State) : Bool :=
  gen.env.table.stateNodes.isEmpty && s.diagnostics.isEmpty && gen.env.graph.nodes.all fun (id, n) =>
    (!n.isFlow || n.isPlain gen.declNames) &&
    (match n with
      | .branch condition .. => condition.isSimple
      | _ => true) &&
    !gen.env.graph.classDecl.methodNames.contains (n.methodBase id) &&
    s.shared.all fun (_, m) => n.ownCall? gen.declNames != some m.1

theorem Generation.straight_of_isStraight {gen : Generation Node} (h : gen.isStraight s = true) :
    s.diagnostics = [] ∧ Straight gen.env gen.declNames ∧
      s.SparesNames gen.env.graph gen.declNames := by
  unfold isStraight at h
  simp only [Bool.and_eq_true, List.isEmpty_iff, List.all_eq_true] at h
  obtain ⟨⟨hstate, hclean⟩, hnodes⟩ := h
  have hnode {id : NodeId} {n : Node} (hn : gen.env.graph.get? id = some n) :=
    hnodes (id, n) (Graph.mem_of_get? hn)
  refine ⟨hclean, ⟨hstate, fun id n hn hflow => ?_, fun id condition _ _ _ hn => ?_,
    fun id n hn => ?_⟩, fun id n hn id' m hm => ?_⟩
  · have hplain := (hnode hn).1.1.1
    rwa [hflow, Bool.not_true] at hplain
  · exact gen.env.isExpression_of_isSimple (hnode hn).1.1.2
  · have hfree := (hnode hn).1.2
    simpa using hfree
  · have hname := (hnode hn).2 _ (mem_of_lookup hm)
    simpa using hname

/-- The entry point of the event of `startsAtOne`. -/
def startEntry : EntryPoint :=
  ⟨⟨1⟩, .event, ⟨1⟩⟩

/-- Both arms of a branch lead to one call, and an arm of a later branch returns. -/
def returnsLast : Graph Node where
  name := "C"
  classDecl := startsAtOne
  nodes :=
    [(⟨1⟩, .sequence [some ⟨2⟩, some ⟨3⟩]),
      (⟨2⟩, .branch (.literal (.bool true)) (some ⟨4⟩) (some ⟨4⟩) none),
      (⟨3⟩, .branch (.literal (.bool false)) (some ⟨5⟩) none (some ⟨6⟩)),
      (⟨4⟩, .invoke (ownCall "A") none),
      (⟨5⟩, .returnValue .unassigned),
      (⟨6⟩, .invoke (ownCall "B") none)]

/-- No other node leads to the return. -/
theorem mem_of_leadsToReturn_returnsLast {id : NodeId} (h : LeadsToReturn returnsLast id) :
    id ∈ [⟨1⟩, ⟨3⟩, (⟨5⟩ : NodeId)] := by
  obtain ⟨id', value, hpath, hreturn⟩ := h
  induction hpath using Relation.ReflTransGen.head_induction_on with
  | refl =>
    have hreturns : ∀ x ∈ returnsLast.nodes, (x.2 matches .returnValue _) = true →
        x.1 ∈ [⟨1⟩, ⟨3⟩, (⟨5⟩ : NodeId)] := by decide
    exact hreturns _ (Graph.mem_of_get? hreturn) rfl
  | @head x y hstep _ ih =>
    have hback : ∀ p ∈ returnsLast.nodes, ∀ y ∈ returnsLast.follows p.1,
        y ∈ [⟨1⟩, ⟨3⟩, (⟨5⟩ : NodeId)] → p.1 ∈ [⟨1⟩, ⟨3⟩, (⟨5⟩ : NodeId)] := by decide
    cases hx : returnsLast.get? x with
    | none => simp [Graph.follows, hx] at hstep
    | some n => exact hback _ (Graph.mem_of_get? hx) y hstep ih

/-- The node where the arms meet becomes a method, and the traces are still the same. -/
theorem returnsLast_same_trace : ∃ gen s code method,
    Generation.start returnsLast {} = .ok gen ∧ Emit.bodies gen.env gen.state = (.ok (), s) ∧
    s.shared.length = 1 ∧ ReadsAs gen.env s startEntry code method ∧
    ∀ ω : Stream' Bool, ∃ trace, EmittedTrace method code ω trace ∧
      ReferenceTrace returnsLast gen.declNames ⟨1⟩ ω trace := by
  obtain ⟨gen, s, hstart, hrun, hcheck, hshared, hplain⟩ : Generation.EndsWith returnsLast {}
      fun gen s => gen.isStraight s = true ∧ s.shared.length = 1 ∧
        ∀ id ∈ [⟨1⟩, ⟨3⟩, ⟨5⟩], gen.env.table.isShared id = false := by decide +kernel
  obtain ⟨hclean, hstraight, hown⟩ := Generation.straight_of_isStraight hcheck
  rw [(Generation.start_eq hstart).1] at hown
  have hentry : startEntry ∈ returnsLast.classDecl.entryPoints := by decide
  obtain ⟨⟨code, method, hreads⟩, htraces⟩ :=
    emitted_trace_extends_reference hstart hrun hclean hstraight hown hentry rfl
  refine ⟨gen, s, code, method, hstart, hrun, hshared, hreads, fun ω => ?_⟩
  obtain ⟨acts, _, _, _, _, _, hsame, hfree⟩ := htraces code method hreads ω
  refine hsame.2 ?_
  -- the one shared node is a call without a continuation
  rw [hfree fun id hid hleads => ?_]
  · rfl
  · have hnot := hplain id (mem_of_leadsToReturn_returnsLast hleads)
    rw [hid] at hnot
    cases hnot

/-- Both arms of a branch lead to one return. -/
def returnsFirst : Graph Node where
  name := "C"
  classDecl := startsAtOne
  nodes :=
    [(⟨1⟩, .branch (.literal (.bool true)) (some ⟨2⟩) (some ⟨2⟩) (some ⟨3⟩)),
      (⟨2⟩, .returnValue .unassigned),
      (⟨3⟩, .invoke (ownCall "A") none)]

/-- The return ends its own method only, and the emitted body goes on to a call that the graph never
comes to. -/
theorem returnsFirst_goes_on : ∃ gen s code method,
    Generation.start returnsFirst {} = .ok gen ∧ Emit.bodies gen.env gen.state = (.ok (), s) ∧
    ReadsAs gen.env s startEntry code method ∧
    ∀ ω : Stream' Bool, (∀ trace, EmittedTrace method code ω trace ↔ trace = ["A"]) ∧
      ∀ trace, ReferenceTrace returnsFirst gen.declNames ⟨1⟩ ω trace ↔ trace = [] := by
  obtain ⟨gen, s, hstart, hrun, hcheck, hshared, hplain⟩ : Generation.EndsWith returnsFirst {}
      fun gen s => gen.isStraight s = true ∧ gen.env.table.isShared ⟨2⟩ = true ∧
        ∀ id ∈ [⟨1⟩, ⟨3⟩], gen.env.table.isShared id = false := by decide +kernel
  obtain ⟨hclean, hstraight, hown⟩ := Generation.straight_of_isStraight hcheck
  rw [(Generation.start_eq hstart).1] at hown
  have hentry : startEntry ∈ returnsFirst.classDecl.entryPoints := by decide
  obtain ⟨code, method, hreads⟩ :=
    Generation.exists_readsAs hstart hrun hclean hstraight hentry rfl
  refine ⟨gen, s, code, method, hstart, hrun, hreads, fun ω => ?_⟩
  obtain ⟨acts, left, ω', hruns, hexecutes⟩ :=
    Generation.exists_executes hstart hrun hstraight hown hentry hreads ω
  -- the branch enters the shared node, and then comes the call
  have hexpected : Runs returnsFirst gen.declNames gen.env.table.isShared [.go (some ⟨1⟩)] ω
      ([.leave] ++ [.invoke "A"]) false ω.tail := by
    refine .go rfl (hplain _ (by decide)) (.branch rfl ?_)
    rw [ite_self]
    refine .enter rfl hshared (.leave rfl rfl) ?_
    exact .go rfl (hplain _ (by decide)) (.invoke rfl rfl (.nowhere .done))
  obtain ⟨rfl, _, _⟩ := hexpected.unique hruns
  exact ⟨fun trace => emittedTrace_iff hexecutes, fun trace => referenceTrace_iff hruns⟩

end FlowClass
