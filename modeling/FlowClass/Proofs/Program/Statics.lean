import FlowClass.Assembly
import FlowClass.Proofs.Program.Storage

/-!
# What static code refers to

Besides the members that a class declares there are those that generation adds: methods of shared
nodes, fields for locals and parameters that another body uses, and the runtime object with the units
that it runs. A member that is added is static or not once and for all, by the body that asked for it
first.

Static code never refers to a unit. It refers to another member of an instance exactly if it needs the
runtime object for a member that is hidden, or a parameter of another declaration, or a local that is
at home elsewhere too, or a shared node that code of an instance has reached before
(`static_references`).
-/

namespace FlowClass

open List SymbolTable State Option Subset

variable {c : ClassDecl} {body : BodyId} {s : State} {id : NodeId}

/-! ## References -/

/-- The member that an event refers to, and the body that it stands in. -/
def Event.reference? : Event → Option (Added × BodyId)
  | .refer member body => some (member, body)
  | _ => none

/-- The references to members that were added, the latest first. -/
def State.references (s : State) : List (Added × BodyId) :=
  s.journal.filterMap Event.reference?

theorem State.mem_references {member : Added} :
    (member, body) ∈ s.references ↔ .refer member body ∈ s.journal := by
  rw [references, mem_filterMap]
  constructor
  · rintro ⟨e, he, href⟩
    cases e with
    | refer member' body' =>
      cases href
      exact he
    | _ => cases href
  · exact fun hmem => ⟨_, hmem, rfl⟩

/-- The body that reached a shared node first. -/
def State.firstReference? (s : State) (id : NodeId) : Option BodyId :=
  (s.references.reverse.find? fun r => r.1 = .shared id).map Prod.snd

/-- What is known of a member that a body refers to. -/
def Added.Fits (s : State) (body : BodyId) : Added → Prop
  | .shared id => (s.shared.lookup id).isSome = true
  | .copy handle => ∃ owner index, s.symbols.keys[handle.index]? = some (.param owner index)
  | .unit _ => (body, false) ∈ s.bodies
  | .runtime => True

/-- A shared node has taken the method of a declaration, as both ask for one name and signature. -/
def State.Taken (s : State) : Prop :=
  ∃ id decl handle, s.symbols.methodKeys.lookup (.node id) = some handle ∧
    s.symbols.methodKeys.lookup (.decl decl) = some handle

theorem State.Taken.mono {s' : State} (h : s.Taken) (hkeys : ∀ {key handle},
    s.symbols.methodKeys.lookup key = some handle → s'.symbols.methodKeys.lookup key = some handle) :
    s'.Taken := by
  obtain ⟨id, decl, handle, hnode, hdecl⟩ := h
  exact ⟨id, decl, handle, hkeys hnode, hkeys hdecl⟩

/-- Members that are added belong to those who asked for them first. -/
structure Referred (s : State) : Prop where
  fits : ∀ r ∈ s.references, r.1.Fits s r.2
  bases : ∀ handle m, s.symbols.method? handle = some m →
    (∃ decl, s.symbols.methodKeys.lookup (.decl decl) = some handle) ∨
      ∃ (id : NodeId) (n : Node), (s.shared.lookup id).isSome = true ∧ m.base = n.methodBase id
  shared : ∀ id, (s.shared.lookup id).isSome = true → ∃ m first, s.methodFor? id = some m ∧
    s.firstReference? id = some first ∧ (first, m.modifiers.isStatic) ∈ s.bodies
  keys : ∀ id, s.shared.lookup id = none → s.symbols.methodKeys.lookup (.node id) = none

namespace Referred

variable {s s' : State}

theorem fits_mono {member : Added} (h : member.Fits s body)
    (hshared : ∀ id, (s.shared.lookup id).isSome = true → (s'.shared.lookup id).isSome = true)
    (hkeys : s.symbols.keys <+: s'.symbols.keys) (hbodies : s.bodies ⊆ s'.bodies) :
    member.Fits s' body := by
  cases member with
  | shared id => exact hshared id h
  | copy handle =>
    obtain ⟨owner, index, hkey⟩ := h
    obtain ⟨more, hmore⟩ := hkeys
    refine ⟨owner, index, ?_⟩
    rw [← hmore, List.getElem?_append_left (List.getElem?_eq_some_iff.1 hkey).1]
    exact hkey
  | unit id => exact hbodies h
  | runtime => trivial

theorem firstReference?_mono {first : BodyId} (h : s.firstReference? id = some first)
    {more : List (Added × BodyId)} (hreferences : s'.references = more ++ s.references) :
    s'.firstReference? id = some first := by
  obtain ⟨r, hr, rfl⟩ := map_eq_some_iff.1 h
  rw [firstReference?, hreferences, reverse_append, find?_append, hr]
  rfl

/-- The first reference to a node that no one referred to before. -/
theorem firstReference?_new (hnew : ∀ r ∈ s.references, r.1 ≠ .shared id)
    (hreferences : s'.references = (.shared id, body) :: s.references) :
    s'.firstReference? id = some body := by
  have hnone : s.references.reverse.find? (fun r => r.1 = .shared id) = none :=
    find?_eq_none.2 fun r hr => by simpa using hnew r (mem_reverse.1 hr)
  rw [firstReference?, hreferences, reverse_cons, find?_append, hnone]
  simp

/-- References that are in order, to members that are known. -/
theorem refer (h : Referred s) (more : List (Added × BodyId))
    (hreferences : s'.references = more ++ s.references) (hmore : ∀ r ∈ more, r.1.Fits s' r.2)
    (hshared : s'.shared = s.shared) (hmethods : s'.symbols.methods = s.symbols.methods)
    (hmethodKeys : s'.symbols.methodKeys = s.symbols.methodKeys)
    (hkeys : s.symbols.keys <+: s'.symbols.keys) (hbodies : s.bodies ⊆ s'.bodies) :
    Referred s' := by
  have hmethod : s'.symbols.method? = s.symbols.method? :=
    funext fun handle => congrArg (·[handle.index]?) hmethods
  constructor
  · rw [hreferences]
    refine forall_mem_append.2 ⟨hmore, fun r hr => ?_⟩
    exact fits_mono (h.fits r hr) (fun id hid => hshared ▸ hid) hkeys hbodies
  · rw [hmethod, hmethodKeys, hshared]
    exact h.bases
  · intro id hid
    obtain ⟨m, first, hm, hfirst, hmem⟩ := h.shared id (hshared ▸ hid)
    refine ⟨m, first, ?_, firstReference?_mono hfirst hreferences, hbodies hmem⟩
    rwa [methodFor?, hmethodKeys, hmethod]
  · rw [hmethodKeys, hshared]
    exact h.keys

/-- Nothing that matters for added members is changed. -/
theorem same (h : Referred s) (hbodies : s.bodies ⊆ s'.bodies)
    (hreferences : s'.references = s.references) (hshared : s'.shared = s.shared)
    (hmethods : s'.symbols.methods = s.symbols.methods)
    (hmethodKeys : s'.symbols.methodKeys = s.symbols.methodKeys)
    (hkeys : s.symbols.keys <+: s'.symbols.keys) : Referred s' :=
  h.refer [] hreferences (forall_mem_nil _) hshared hmethods hmethodKeys
    hkeys hbodies

theorem frame (h : Referred s) (hframe : s.Frame s')
    (hreferences : s'.references = s.references) : Referred s' :=
  h.same (hframe.bodies_eq ▸ refl _) hreferences hframe.shared hframe.methods
    hframe.methodKeys hframe.keys

end Referred

/-! ## Methods -/

section Methods

variable {s : State} {symbols : SymbolTable} {names : Names} {key : SymbolKey} {m : MethodSymbol}
  {handle : MethodHandle}
  (hrun : s.symbols.registerMethod s.names (some key) m = .ok (handle, symbols, names))
include hrun

theorem methodFor?_registerMethod {other : MethodSymbol} (hother : s.methodFor? id = some other) :
    methodFor? { s with symbols, names } id = some other := by
  obtain ⟨known, hknown, hmethod⟩ := bind_eq_some_iff.1 hother
  exact bind_eq_some_iff.2
    ⟨known, lookup_registerMethod hrun hknown, method?_registerMethod hrun hmethod⟩

end Methods

namespace Referred

variable {s s' : State}

/-- A declaration enters its method. -/
theorem declare (h : Referred s) {decl : DeclId} {m : MethodSymbol} {handle : MethodHandle}
    {symbols : SymbolTable} {names : Names}
    (hrun : s.symbols.registerMethod s.names (some (.decl decl)) m = .ok (handle, symbols, names))
    (hbodies : s.bodies ⊆ bodies { s with symbols, names }) :
    Referred { s with symbols, names } := by
  constructor
  · intro r hr
    exact fits_mono (h.fits r hr) (fun _ hid => hid)
      (keys_registerMethod hrun ▸ prefix_rfl) hbodies
  · intro known other hother
    have hold (hother : s.symbols.method? known = some other) :
        (∃ decl, symbols.methodKeys.lookup (.decl decl) = some known) ∨
          ∃ (id : NodeId) (n : Node), (s.shared.lookup id).isSome = true ∧
            other.base = n.methodBase id :=
      (h.bases known other hother).imp_left fun ⟨decl, hdecl⟩ =>
        ⟨decl, lookup_registerMethod hrun hdecl⟩
    -- the key was known, or it gets a method that was there, or a new one at the end
    obtain ⟨_, rfl⟩ | ⟨_, hkeys, ⟨hsame, _⟩ | ⟨rfl, name, hadded⟩⟩ :=
      registerMethod_keyed hrun
    · exact hold hother
    · exact hold ((congrArg (·[known.index]?) hsame).symm.trans hother)
    · have hother : symbols.methods[known.index]? = some other := hother
      rw [hadded, getElem?_append] at hother
      split at hother
      · exact hold hother
      · have hlast := (List.getElem?_eq_some_iff.1 hother).1
        have hknown : known = ⟨s.symbols.methods.length⟩ :=
          congrArg MethodHandle.mk (by simp only [length_singleton] at hlast; omega)
        exact .inl ⟨decl, by rw [hkeys, hknown, lookup_cons_self]⟩
  · intro id hid
    obtain ⟨m, first, hm, hfirst, hmem⟩ := h.shared id hid
    exact ⟨m, first, methodFor?_registerMethod hrun hm, hfirst, hbodies hmem⟩
  · intro id hid
    obtain ⟨_, rfl⟩ | ⟨_, hkeys, _⟩ := registerMethod_keyed hrun
    · exact h.keys id hid
    · rw [hkeys]
      exact h.keys id hid

section Shared

variable {id : NodeId} {n : Node} {type : Ty} {handle : MethodHandle} {symbols : SymbolTable}
  {names : Names} {m : MethodSymbol} (hnew : s.shared.lookup id = none)
  (hmethod : s.symbols.registerMethod s.names (some (.node id))
    (Emit.sharedMethod s.place id n.title type) = .ok (handle, symbols, names))
  (hm : symbols.method? handle = some m)
include hnew hmethod hm

/-- The first reference to a shared node takes the method of a declaration, or enters one that is
static if the body is. -/
theorem taken_or_entered (h : Referred s) :
    State.Taken { s with symbols, names } ∨
      m.modifiers.isStatic = s.place.isStatic ∧ m.base = n.methodBase id ∧
        symbols.methodKeys = (.node id, handle) :: s.symbols.methodKeys ∧
        symbols.methods = s.symbols.methods ++ [m] := by
  obtain ⟨hknown, _⟩ | ⟨_, hkeys, ⟨_, other, hother, hbase⟩ | ⟨rfl, name, hadded⟩⟩ :=
    registerMethod_keyed hmethod
  · rw [h.keys id hnew] at hknown
    cases hknown
  · obtain ⟨decl, hdecl⟩ | ⟨id', n', hshared, hother⟩ := h.bases handle other hother
    · refine .inl ⟨id, decl, handle, ?_, lookup_registerMethod hmethod hdecl⟩
      rw [hkeys, lookup_cons_self]
    · have hbase : n'.methodBase id' = n.methodBase id := hother.symm.trans hbase
      rw [Node.methodBase_injective hbase, hnew] at hshared
      cases hshared
  · rw [method?, hadded, getElem?_concat_length] at hm
    cases hm
    refine .inr ⟨?_, rfl, hkeys, hadded⟩
    unfold Emit.sharedMethod
    cases s.place.isStatic <;> rfl

theorem share (h : Referred s) (hplace : (s.place.body, s.place.isStatic) ∈ s.bodies)
    (hbodies : s.bodies ⊆ bodies { s with symbols, names }) (place : Place) :
    State.Taken { s with symbols, names } ∨
      m.modifiers.isStatic = s.place.isStatic ∧ Referred { s with
        symbols, names, shared := (id, (m.name, type)) :: s.shared, place
        journal := .refer (.shared id) s.place.body :: s.journal } := by
  refine (h.taken_or_entered hnew hmethod hm).imp_right fun ⟨hstatic, hbase, hkeys, hadded⟩ => ?_
  have hself : ((id, (m.name, type)) :: s.shared).lookup id = some (m.name, type) :=
    lookup_cons_self
  have hothers (id' : NodeId) (hne : id' ≠ id) :
      ((id, (m.name, type)) :: s.shared).lookup id' = s.shared.lookup id' :=
    lookup_cons_of_ne hne _ _
  have hshared (id' : NodeId) (hid : (s.shared.lookup id').isSome = true) :
      (((id, (m.name, type)) :: s.shared).lookup id').isSome = true :=
    (sublist_cons_self _ _).lookup_isSome hid
  refine ⟨hstatic, ⟨?_, fun known other hother => ?_, fun id' hid => ?_, fun id' hid => ?_⟩⟩
  · refine forall_mem_cons.2 ⟨?_, fun r hr => ?_⟩
    · exact isSome_iff_exists.2 ⟨_, hself⟩
    · exact fits_mono (h.fits r hr) hshared
        (keys_registerMethod hmethod ▸ prefix_rfl) hbodies
  · have hother : symbols.methods[known.index]? = some other := hother
    rw [hadded, getElem?_append] at hother
    split at hother
    · obtain ⟨decl, hdecl⟩ | ⟨id', n', hid, hbase⟩ := h.bases known other hother
      · exact .inl ⟨decl, lookup_registerMethod hmethod hdecl⟩
      · exact .inr ⟨id', n', hshared id' hid, hbase⟩
    · cases mem_singleton.1 (mem_of_getElem? hother)
      exact .inr ⟨id, n, isSome_iff_exists.2 ⟨_, hself⟩, hbase⟩
  · by_cases hsame : id' = id
    · subst hsame
      refine ⟨m, s.place.body, ?_, firstReference?_new (fun r hr heq => ?_) rfl,
        hbodies (hstatic ▸ hplace)⟩
      · exact bind_eq_some_iff.2 ⟨_, by rw [hkeys, lookup_cons_self], hm⟩
      · -- a node that someone referred to is known
        have hfits := h.fits r hr
        rw [heq, Added.Fits, hnew] at hfits
        cases hfits
    · obtain ⟨m', first, hm', hfirst, hmem⟩ := h.shared id' (hothers id' hsame ▸ hid)
      exact ⟨m', first, methodFor?_registerMethod hmethod hm',
        firstReference?_mono hfirst (singleton_append).symm, hbodies hmem⟩
  · have hne : id' ≠ id := fun heq => by
      rw [heq, hself] at hid
      cases hid
    rw [hkeys, lookup_cons_of_ne (by simpa using hne)]
    exact h.keys id' (hothers id' hne ▸ hid)

end Shared

theorem enterUnit (h : Referred s) (id : NodeId)
    (hbodies : s.bodies ⊆ (Emit.enterUnit id s).bodies) : Referred (Emit.enterUnit id s) := by
  have hkeys := Emit.symbols_enterUnit (f := SymbolTable.keys) (fun _ _ => rfl) id s
  exact h.same hbodies rfl rfl (Emit.symbols_enterUnit (fun _ _ => rfl) id s)
    (Emit.symbols_enterUnit (fun _ _ => rfl) id s) (hkeys ▸ prefix_rfl)

/-! ## Steps -/

theorem declaring (hids : c.declIds.Nodup) (h : Referred s) (hstep : Declaring c s s') :
    Referred s' := by
  have hbodies := (Builds.declaring hids hstep).subset
  have hvariable (v : VariableSymbol) : Referred (s.withVariable v) := by
    obtain ⟨hmethodKeys, hmethods, _⟩ := s.symbols.registerVariable_same s.names v
    exact h.same (Builds.registerVariable (c := c) s v).subset rfl rfl hmethods hmethodKeys
      (s.symbols.keys_prefix_registerVariable s.names v)
  cases hstep with
  | own id name type
  | field hd hkey hstorage
  | localOf hf hentered hd hkey hstorage hmodifiers => exact hvariable _
  | method hdecl hnew hbase hstatic hrun => exact h.declare hrun hbodies
  | _ => exact h.same hbodies rfl rfl rfl rfl prefix_rfl

theorem spell (h : Referred s) (hstep : s.Spells s') : Referred s' := by
  have hframe := hstep.frame
  cases hstep with
  | copy hparam hbody hother =>
    rename_i owner index name type body
    have hkey := s.symbols.key_registerVariable s.names
      { key := .param owner index, name, type, storage := .field }
    refine h.refer [(.copy _, s.place.body), (.copy _, body)] rfl ?_ hframe.shared hframe.methods
      hframe.methodKeys hframe.keys (hframe.bodies_eq ▸ refl _)
    exact forall_mem_cons.2 ⟨⟨owner, index, hkey⟩, forall_mem_singleton.2 ⟨owner, index, hkey⟩⟩
  | runtime =>
    exact h.refer [(.runtime, s.place.body)] rfl (forall_mem_singleton.2 trivial) rfl rfl rfl
      prefix_rfl (refl _)
  | _ => exact h.frame hframe rfl

end Referred

theorem State.Taken.declaring {s' : State} (h : s.Taken) (hstep : Declaring c s s') : s'.Taken := by
  have hkeep (hkeys : s'.symbols.methodKeys = s.symbols.methodKeys) : s'.Taken := by
    rwa [State.Taken, hkeys]
  cases hstep with
  | own id name type
  | field hd hkey hstorage => exact hkeep (s.symbols.registerVariable_same s.names _).1
  | localOf hf hentered hd hkey hstorage hmodifiers =>
    exact hkeep (s.symbols.registerVariable_same s.names _).1
  | method hdecl hnew hbase hstatic hrun => exact h.mono (lookup_registerMethod hrun)
  | _ => exact hkeep rfl

namespace Referred

variable {env : Env Node} {s s' : State}

/-- A move keeps references in order, unless a shared node takes the method of a declaration. -/
theorem moves (hmoves : Moves env s s') (h : Referred s)
    (hplace : (s.place.body, s.place.isStatic) ∈ s.bodies) : s'.Taken ∨ Referred s' := by
  induction hmoves with
  | refl s => exact .inr h
  | trans hfirst hsecond ih ih' =>
    have hplace' := hfirst.place.symm ▸ (Builds.moves (c := env.graph.classDecl) hfirst).subset hplace
    exact (ih h hplace).elim (fun htaken => .inl (htaken.mono hsecond.kept.lookup)) fun h' =>
      ih' h' hplace'
  | spell hstep => exact .inr (h.spell hstep)
  | note s he =>
    rename_i e
    refine .inr (h.same (refl _) ?_ rfl rfl rfl prefix_rfl)
    cases e with
    | refer member body => cases he
    | _ => rfl
  | nested type _ ih =>
    have hinner := ih (h.same (refl _) rfl rfl rfl rfl prefix_rfl) hplace
    exact hinner.imp_right fun h' => h'.same (refl _) rfl rfl rfl rfl prefix_rfl
  | unit hstatic hbegin text _ ih =>
    rename_i id _ _ _
    have hbegun := Builds.units (c := env.graph.classDecl) _ (StateUnits.outline_begin hbegin)
    have hentered := h.enterUnit id (Builds.enterUnit (c := env.graph.classDecl) _ _).subset
    have hinner := ih (hentered.same hbegun.subset rfl rfl rfl rfl prefix_rfl)
      (mem_bodies_begin hbegin)
    refine hinner.imp_right fun h' => h'.same ?_ rfl rfl rfl rfl prefix_rfl
    exact (Builds.units (c := env.graph.classDecl) _ (StateUnits.outline_finish _ _ text)).subset
  | unitAgain s hstatic =>
    rename_i id
    have hnoted := Builds.units (c := env.graph.classDecl) _
      (StateUnits.outline_noteReference (Emit.enterUnit id s).units id)
    have hentered := h.enterUnit id (Builds.enterUnit (c := env.graph.classDecl) _ _).subset
    exact .inr (hentered.same hnoted.subset rfl rfl rfl rfl prefix_rfl)
  | referToUnit s id hstatic =>
    have hfits : (s.place.body, false) ∈ s.bodies := hstatic ▸ hplace
    exact .inr (h.refer [(.unit id, s.place.body)] rfl (forall_mem_singleton.2 hfits) rfl rfl rfl
      prefix_rfl (refl _))
  | shared hn hnew hmethod hm hinner ih =>
    have hbodies := (Builds.shared (c := env.graph.classDecl) hmethod).subset
    -- the node takes a method that is there already, or gets one of its own
    obtain htaken | ⟨hstatic, hentered⟩ := h.share hnew hmethod hm hplace hbodies _
    · exact .inl (htaken.mono hinner.kept.lookup)
    · refine (ih hentered ?_).imp_right fun h' => h'.same (refl _) rfl rfl rfl rfl prefix_rfl
      rename_i s _ _ _ _ _ symbols names m
      have hmem := mem_bodies_method (s := { s with symbols, names }) hm
      exact hstatic ▸ hmem
  | sharedLost s hn hmethod hlost =>
    obtain ⟨rfl, rfl⟩ := registerMethod_lost hmethod hlost
    exact .inr h
  | referToShared s hknown =>
    rename_i id method
    have hfits : (s.shared.lookup id).isSome = true := isSome_iff_exists.2 ⟨_, hknown⟩
    exact .inr (h.refer [(.shared id, s.place.body)] rfl (forall_mem_singleton.2 hfits) rfl rfl
      rfl prefix_rfl (refl _))
  | text hwrote _ ih =>
    exact (ih h hplace).imp_right fun h' => h'.same (refl _) rfl rfl rfl rfl prefix_rfl
  | _ => exact .inr (h.same (refl _) rfl rfl rfl rfl prefix_rfl)

theorem filling (hc : env.graph.classDecl = c) (hstep : Filling env s s') (hhoused : Housed c s)
    (h : s.Taken ∨ Referred s) : s'.Taken ∨ Referred s' := by
  subst hc
  cases hstep with
  | emitted he hbody hdecl hplace hmoves =>
    obtain htaken | h := h
    · exact .inl (htaken.mono hmoves.kept.lookup)
    · rename_i place
      have hstart : Referred { s with place } := h.same (refl _) rfl rfl rfl rfl prefix_rfl
      refine (moves hmoves hstart (hhoused.entry hbody hdecl hplace)).imp_right fun h' => ?_
      exact h'.same (refl _) rfl rfl rfl rfl prefix_rfl
  | text body text => exact h.imp_right fun h => h.same (refl _) rfl rfl rfl rfl prefix_rfl

theorem reserved (env : Env Node) : Referred (Emit.reserved env (initial env)) := by
  constructor <;> simp [Emit.reserved, initial, newBody, method?,
    references]

end Referred

/-- When all bodies are emitted, references are in order, unless a shared node has taken the method of
a declaration. -/
theorem Generation.referred {graph : Graph Node} {config : Config} {gen : Generation Node}
    (hstart : start graph config = .ok gen) (hrun : Emit.bodies gen.env gen.state = (.ok (), s)) :
    s.Taken ∨ Referred s := by
  have hids := nodup_declIds hstart
  refine (invariant hstart hrun
    (P := fun s => Housed gen.env.graph.classDecl s ∧ (s.Taken ∨ Referred s))
    ⟨Housed.reserved gen.env, .inr (Referred.reserved gen.env)⟩ (fun s s' hstep hs => ?_)
    fun s s' hstep hs => ?_).2
  · exact ⟨(Builds.declaring hids hstep).housed hs.1,
      hs.2.imp (fun h => h.declaring hstep) fun h => h.declaring hids hstep⟩
  · exact ⟨(Builds.filling hstep).housed hs.1, Referred.filling rfl hstep hs.1 hs.2⟩

/-! ## Members of an instance -/

/-- The code of a body refers to a member of an instance that the class does not declare. -/
inductive State.RefersToInstance (c : ClassDecl) (s : State) (body : BodyId) : Prop where
  | runtime (h : .refer .runtime body ∈ s.journal)
  | unit {id : NodeId} (h : .refer (.unit id) body ∈ s.journal)
  /-- A parameter that was copied. -/
  | copy {handle : VariableHandle} {v : VariableSymbol} (h : .refer (.copy handle) body ∈ s.journal)
    (hv : s.symbols.variableAt? handle = some v) (hfield : v.storage = .field)
    (hstatic : v.modifiers.isStatic = false)
  /-- A local that became a field. -/
  | promoted {handle : VariableHandle} {v : VariableSymbol} (h : .mention handle body ∈ s.journal)
    (hv : s.symbols.variableAt? handle = some v) (hlocal : v.key.isField c = false)
    (hfield : v.storage = .field) (hstatic : v.modifiers.isStatic = false)
  | shared {id : NodeId} {m : MethodSymbol} (h : .refer (.shared id) body ∈ s.journal)
    (hm : s.methodFor? id = some m) (hstatic : m.modifiers.isStatic = false)

/-- A body belongs to a static member or to one of an instance. -/
theorem Housed.static_iff (h : Housed c s) {isStatic : Bool} (hmem : (body, isStatic) ∈ s.bodies) :
    (body, true) ∈ s.bodies ↔ isStatic = true := by
  refine ⟨fun htrue => ?_, fun htrue => htrue ▸ hmem⟩
  exact congrArg Prod.snd (inj_on_of_nodup_map h.distinct hmem htrue rfl)

/-- A parameter that was copied is a field of an instance. -/
theorem Stored.copy (h : Stored c s) {handle : VariableHandle} {owner : DeclId} {index : Nat}
    (hkey : s.symbols.keys[handle.index]? = some (.param owner index)) :
    ∃ v, s.symbols.variableAt? handle = some v ∧ v.storage = .field ∧
      v.modifiers.isStatic = false := by
  rw [SymbolTable.keys, getElem?_map] at hkey
  obtain ⟨v, hv, hkey⟩ := map_eq_some_iff.1 hkey
  have hmem := mem_of_getElem? hv
  refine ⟨v, hv, h.fields v hmem (by rw [hkey]; rfl), ?_⟩
  rw [(h.modified v hmem).2 fun d _ heq => by cases hkey.symm.trans heq]

/-- A local is a field of an instance exactly if a body that mentions it is not its only home. -/
theorem Stored.promoted_iff (hids : c.declIds.Nodup) (h : Stored c s) {handle : VariableHandle}
    {v : VariableSymbol} (hv : s.symbols.variableAt? handle = some v)
    (hlocal : v.key.isField c = false) (hbody : .mention handle body ∈ s.journal) :
    (v.storage = .field ∧ v.modifiers.isStatic = false) ↔
      ∃ home ∈ s.homes c handle v.key, home ≠ body := by
  have hfits := h.others handle v hv hlocal
  have hhome : body ∈ s.homes c handle v.key := mem_append_left _ (mem_mentions.2 hbody)
  constructor
  · rintro ⟨hfield, _⟩
    rw [hfield] at hfits
    obtain ⟨home, hmem, other, hother, hne⟩ := hfits
    by_cases hsame : home = body
    · exact ⟨other, hother, fun heq => hne (hsame.trans heq.symm)⟩
    · exact ⟨home, hmem, hsame⟩
  · rintro ⟨home, hmem, hne⟩
    have hplain : v.modifiers = {} := by
      refine (h.modified v (mem_of_getElem? hv)).2 fun d hd heq => ?_
      rw [heq, SymbolKey.isField, ClassDecl.functionOf?_field hids hd] at hlocal
      cases hlocal
    refine ⟨?_, by rw [hplain]⟩
    cases hstorage : v.storage with
    | field => rfl
    | unbound =>
      rw [hstorage] at hfits
      rw [hfits] at hhome
      cases hhome
    | localTo owner =>
      rw [hstorage] at hfits
      exact absurd ((hfits.2 home hmem).trans (hfits.2 body hhome).symm) hne

/-- Static code never refers to a unit. It refers to another member of an instance that the class does
not declare exactly if it needs the runtime object, a parameter of another declaration, a local that
is at home elsewhere too, or a shared node that was reached first by code of an instance. -/
theorem static_references {graph : Graph Node} {config : Config} {gen : Generation Node} {s : State}
    (hstart : Generation.start graph config = .ok gen)
    (hrun : Emit.bodies gen.env gen.state = (.ok (), s)) (hown : ¬ s.Taken) {body : BodyId}
    (hstatic : (body, true) ∈ s.bodies) :
    s.RefersToInstance graph.classDecl body ↔
      .refer .runtime body ∈ s.journal ∨
      (∃ handle, .refer (.copy handle) body ∈ s.journal) ∨
      (∃ handle v, .mention handle body ∈ s.journal ∧ s.symbols.variableAt? handle = some v ∧
        v.key.isField graph.classDecl = false ∧
        ∃ home ∈ s.homes graph.classDecl handle v.key, home ≠ body) ∨
      ∃ id first, .refer (.shared id) body ∈ s.journal ∧ s.firstReference? id = some first ∧
        (first, true) ∉ s.bodies := by
  have hreferred := (Generation.referred hstart hrun).resolve_left hown
  have hhoused := Generation.housed hstart hrun
  have hstored := Generation.stored hstart hrun
  have hids := Generation.nodup_declIds hstart
  rw [(Generation.start_eq hstart).1] at hhoused hstored hids
  have hfits (member : Added) (h : .refer member body ∈ s.journal) : member.Fits s body :=
    hreferred.fits _ (State.mem_references.2 h)
  constructor
  · rintro (hruntime | hunit | ⟨hcopy⟩ | ⟨hmention, hv, hlocal, hfield, hplain⟩ |
      ⟨hshared, hm, hinstance⟩)
    · exact .inl hruntime
    -- a unit is referred to by code of an instance only
    · cases (hhoused.static_iff (hfits _ hunit)).1 hstatic
    · exact .inr (.inl ⟨_, hcopy⟩)
    · exact .inr (.inr (.inl ⟨_, _, hmention, hv, hlocal,
        (hstored.promoted_iff hids hv hlocal hmention).1 ⟨hfield, hplain⟩⟩))
    · obtain ⟨m, first, hm', hfirst, hmem⟩ := hreferred.shared _ (hfits _ hshared)
      cases Option.some.inj (hm.symm.trans hm')
      refine .inr (.inr (.inr ⟨_, first, hshared, hfirst, fun htrue => ?_⟩))
      cases hinstance.symm.trans ((hhoused.static_iff hmem).1 htrue)
  · rintro (hruntime | ⟨handle, hcopy⟩ | ⟨handle, v, hmention, hv, hlocal, hhome⟩ |
      ⟨id, first, hshared, hfirst, hinstance⟩)
    · exact .runtime hruntime
    · obtain ⟨owner, index, hkey⟩ := hfits _ hcopy
      obtain ⟨v, hv, hfield, hplain⟩ := hstored.copy hkey
      exact .copy hcopy hv hfield hplain
    · obtain ⟨hfield, hplain⟩ := (hstored.promoted_iff hids hv hlocal hmention).2 hhome
      exact .promoted hmention hv hlocal hfield hplain
    · obtain ⟨m, first', hm, hfirst', hmem⟩ := hreferred.shared id (hfits _ hshared)
      cases Option.some.inj (hfirst.symm.trans hfirst')
      refine .shared hshared hm (Bool.eq_false_iff.2 fun htrue => ?_)
      exact hinstance ((hhoused.static_iff hmem).2 htrue)

/-- Two functions go on in the same node. -/
def meetsInNode (first second : Modifiers) : Graph Node where
  name := "C"
  classDecl :=
    { name := "C"
      functions :=
        [{ id := ⟨1⟩, name := "A", modifiers := first, entry := some ⟨1⟩ },
          { id := ⟨2⟩, name := "B", modifiers := second, entry := some ⟨2⟩ }] }
  nodes :=
    [(⟨1⟩, .invoke (ownCall "P") (some ⟨3⟩)), (⟨2⟩, .invoke (ownCall "Q") (some ⟨3⟩)),
      (⟨3⟩, .invoke (ownCall "R") none)]

/-- If the first function is static, so is the method that both go on in. -/
theorem staticFirst_refers_to_static : ∃ gen s,
    Generation.start (meetsInNode { isStatic := true } {}) {} = .ok gen ∧
    Emit.bodies gen.env gen.state = (.ok (), s) ∧ ¬ s.Taken ∧ (⟨1⟩, true) ∈ s.bodies ∧
    .refer (.shared ⟨3⟩) ⟨1⟩ ∈ s.journal ∧
    ¬ s.RefersToInstance (meetsInNode { isStatic := true } {}).classDecl ⟨1⟩ := by
  obtain ⟨gen, s, hstart, hrun, hreferences, hvars, hstatic, hkeys⟩ : Generation.EndsWith
      (meetsInNode { isStatic := true } {}) {} fun _ s =>
      s.references = [(.shared ⟨3⟩, ⟨2⟩), (.shared ⟨3⟩, ⟨1⟩)] ∧ s.symbols.vars = [] ∧
      (⟨1⟩, true) ∈ s.bodies ∧ s.symbols.methodKeys =
        [(.node ⟨3⟩, ⟨2⟩), (.decl ⟨2⟩, ⟨1⟩), (.decl ⟨1⟩, ⟨0⟩)] := by decide +kernel
  have hown : ¬ s.Taken := by
    rintro ⟨id, decl, handle, hnode, hdecl⟩
    have hnode := mem_of_lookup hnode
    have hdecl := mem_of_lookup hdecl
    simp only [hkeys, List.mem_cons, Prod.mk.injEq, reduceCtorEq, false_and, false_or, or_false,
      SymbolKey.decl.injEq, SymbolKey.node.injEq, List.not_mem_nil] at hnode hdecl
    obtain ⟨_, rfl⟩ := hnode
    simp at hdecl
  refine ⟨gen, s, hstart, hrun, hown, hstatic, ?_, fun h => ?_⟩
  · rw [← State.mem_references, hreferences]
    decide
  · rw [static_references hstart hrun hown hstatic] at h
    simp only [← State.mem_references, hreferences] at h
    obtain h | ⟨_, h⟩ | ⟨_, _, _, hv, _⟩ | ⟨id, first, h, hfirst, hnot⟩ := h
    · simp at h
    · simp at h
    · rw [SymbolTable.variableAt?, hvars] at hv
      cases hv
    · obtain rfl : id = ⟨3⟩ := by simpa using h
      rw [State.firstReference?, hreferences] at hfirst
      cases hfirst
      exact hnot hstatic

/-- The methods of the two functions if only the second is static. -/
def instanceFirstMethods : List String :=
  ["private void A() \x7b\n    P();\n    Invoke_3();\n\x7d",
    "private static void B() \x7b\n    Q();\n    Invoke_3();\n\x7d",
    "private void Invoke_3() \x7b\n    R();\n\x7d"]

/-- If the second function is static, it goes on in a method that is not. -/
theorem instanceFirst_refers_to_instance : ∃ gen s,
    Generation.start (meetsInNode {} { isStatic := true }) { header := false } = .ok gen ∧
    Emit.bodies gen.env gen.state = (.ok (), s) ∧ (⟨2⟩, true) ∈ s.bodies ∧
    s.RefersToInstance (meetsInNode {} { isStatic := true }).classDecl ⟨2⟩ ∧
    ((Assembly.parts gen.env.graph.classDecl gen.env.config s).run s.imports).1.methods =
      instanceFirstMethods := by
  obtain ⟨gen, s, hstart, hrun, hreference, hstatic, hmethod, hmethods⟩ : Generation.EndsWith
      (meetsInNode {} { isStatic := true }) { header := false } fun gen s =>
      (.shared ⟨3⟩, ⟨2⟩) ∈ s.references ∧ (⟨2⟩, true) ∈ s.bodies ∧
      (s.methodFor? ⟨3⟩).map (fun m => m.modifiers.isStatic) = some false ∧
      ((Assembly.parts gen.env.graph.classDecl gen.env.config s).run s.imports).1.methods =
        instanceFirstMethods := by decide +kernel
  obtain ⟨m, hm, hinstance⟩ := Option.map_eq_some_iff.1 hmethod
  exact ⟨gen, s, hstart, hrun, hstatic, .shared (State.mem_references.1 hreference) hm hinstance,
    hmethods⟩

end FlowClass
