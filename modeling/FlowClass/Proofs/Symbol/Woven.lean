import FlowClass.Proofs.Code.Spelling
import FlowClass.Proofs.Emission.Quiet

/-!
# Woven symbols

Names that are given out have no `#` in them, so a table of symbols stays free of it but for the
texts of bodies, which are woven. A marker of a symbol is one that is allowed.
-/

namespace FlowClass

open List

variable {m : MethodSymbol} {handle : MethodHandle} {t' : SymbolTable} {name : String}
  {names : Names}

/-! ## Names -/

theorem not_hash_of_isName (h : isName name = true) : '#' ∉ name.toList := by
  have hhash : (isNameChar '#' || '#' = '@') = false := by decide +kernel
  intro hmem
  have hname := all_eq_true.1 h '#' hmem
  rw [hhash] at hname
  cases hname

namespace Names

theorem not_hash_generate (n : Names) (text : String) : '#' ∉ (n.generate text).1.toList :=
  not_hash_of_isName (n.isName_generate text)

/-- No alias has a `#` in it. -/
def Hashless (n : Names) : Prop :=
  FlowClass.Hashless (n.aliases.map (·.2))

theorem Hashless.generate {n : Names} (h : n.Hashless) (text : String) :
    (n.generate text).2.Hashless := by
  unfold Hashless
  rw [aliases_generate]
  exact h

theorem Hashless.nameFor {n : Names} (h : n.Hashless) (owner : SymbolKey) (text : String) :
    '#' ∉ (n.nameFor owner text).1.toList ∧ (n.nameFor owner text).2.Hashless := by
  unfold Names.nameFor
  split
  · rename_i name hname
    exact ⟨h name (mem_map_of_mem (mem_of_lookup hname)), h⟩
  · exact ⟨n.not_hash_generate text, hashless_cons.2 ⟨n.not_hash_generate text, h.generate text⟩⟩

end Names

/-! ## Symbols -/

def VariableSymbol.strings (v : VariableSymbol) : List String :=
  v.name :: v.type.strings ++ v.default.toList.flatMap Literal.strings ++
    v.attributes.flatMap AttributeUse.strings

def ParamSymbol.strings (p : ParamSymbol) : List String :=
  p.name :: p.type.strings ++ p.default.toList.flatMap Literal.strings

def MethodSymbol.strings (m : MethodSymbol) : List String :=
  m.name :: m.returnType.strings ++ m.params.flatMap ParamSymbol.strings ++ m.typeParams ++
    m.attributes.flatMap AttributeUse.strings

def PropertySymbol.strings (p : PropertySymbol) : List String :=
  p.name :: p.type.strings ++ p.attributes.flatMap AttributeUse.strings

def ConstructorSymbol.strings (c : ConstructorSymbol) : List String :=
  c.params.flatMap ParamSymbol.strings

/-- The texts of a body are woven. -/
structure Body.Woven (ok : MarkerId → Prop) (b : Body) : Prop where
  text : ∀ text ∈ b.text, FlowClass.Woven ok text
  contributions : ∀ c ∈ b.contributions, FlowClass.Woven ok c.text

/-- The symbols have no `#` in their own strings, bodies are woven, and markers are allowed. -/
structure SymbolTable.Woven (ok : MarkerId → Prop) (t : SymbolTable) : Prop where
  vars : ∀ v ∈ t.vars, Hashless v.strings ∧ ∀ id ∈ v.marker, ok id
  methods : ∀ m ∈ t.methods, Hashless m.strings ∧ ∀ id ∈ m.marker, ok id
  properties : ∀ p ∈ t.properties, Hashless p.strings ∧ ok (.decl p.decl)
  constructors : ∀ c ∈ t.constructors, Hashless c.strings ∧ ∀ id ∈ c.decl, ok (.decl id)
  bodies : ∀ b ∈ t.bodies, b.Woven ok
  declNames : Hashless (t.declNames.map (·.2))

theorem forall_mem_modify {α : Type} {P : α → Prop} {f : α → α} (hf : ∀ a, P a → P (f a))
    {l : List α} (h : ∀ a ∈ l, P a) (i : Nat) : ∀ a ∈ l.modify i f, P a := by
  intro a ha
  obtain ⟨k, hk⟩ := mem_iff_getElem?.1 ha
  rw [getElem?_modify] at hk
  obtain ⟨b, hb, hbk⟩ := Option.map_eq_some_iff.1 hk
  have hPb := h b (mem_of_getElem? hb)
  split at hbk
  · rw [← hbk]
    exact hf b hPb
  · rw [← hbk]
    exact hPb

namespace SymbolTable.Woven

variable {ok : MarkerId → Prop} {t : SymbolTable}

theorem empty : (({} : SymbolTable)).Woven ok where
  vars := forall_mem_nil _
  methods := forall_mem_nil _
  properties := forall_mem_nil _
  constructors := forall_mem_nil _
  bodies := forall_mem_nil _
  declNames := hashless_nil

variable (h : t.Woven ok)
include h

theorem newBody : t.newBody.2.Woven ok := by
  refine { h with bodies := forall_mem_append.2 ⟨h.bodies, fun b hb => ?_⟩ }
  rw [mem_singleton.1 hb]
  exact ⟨fun _ htext => absurd htext (Option.not_mem_none _), forall_mem_nil _⟩

theorem setBodyText (body : BodyId) {text : String}
    (htext : FlowClass.Woven ok text) : (t.setBodyText body text).Woven ok :=
  { h with
    bodies := forall_mem_modify (fun b hb => { hb with
      text := fun other hother => by
        rw [← Option.some.inj hother]
        exact htext }) h.bodies body.index }

theorem contribute (body : BodyId) {c : Contribution}
    (hc : FlowClass.Woven ok c.text) : (t.contribute body c).Woven ok :=
  { h with
    bodies := forall_mem_modify (fun b hb => { hb with
      contributions := fun other hother => by
        obtain hold | rfl := mem_pushNew.1 hother
        · exact hb.contributions other hold
        · exact hc }) h.bodies body.index }

theorem nameDecl (key : SymbolKey) (hname : '#' ∉ name.toList) :
    (t.nameDecl key name).Woven ok := by
  unfold SymbolTable.nameDecl
  split
  · exact { h with declNames := hashless_cons.2 ⟨hname, h.declNames⟩ }
  · exact h

/-- A variable is entered under a name that was given out, and with what it was described by. -/
theorem registerVariable (names : Names) {v : VariableSymbol}
    (hv : Hashless v.strings) (hmarker : ∀ id ∈ v.marker, ok id) :
    (t.registerVariable names v).2.1.Woven ok := by
  unfold SymbolTable.registerVariable
  split
  · exact h
  · have hname := names.not_hash_generate v.name
    have hnamed := h.nameDecl v.key hname
    refine { hnamed with vars := forall_mem_append.2 ⟨hnamed.vars, fun w hw => ?_⟩ }
    rw [mem_singleton.1 hw]
    refine ⟨?_, hmarker⟩
    rw [VariableSymbol.strings, cons_append, cons_append, hashless_cons] at hv ⊢
    exact ⟨hname, hv.2⟩

theorem variableAt? {handle : VariableHandle} {v : VariableSymbol}
    (hv : t.variableAt? handle = some v) : '#' ∉ v.name.toList :=
  (hashless_cons.1 (h.vars v (mem_of_getElem? hv)).1).1

theorem useVariable {handle : VariableHandle} {body : BodyId}
    (huse : t.useVariable handle body = some (name, t')) : '#' ∉ name.toList ∧ t'.Woven ok := by
  obtain ⟨v, hv, hpair⟩ := Option.map_eq_some_iff.1 huse
  obtain ⟨rfl, rfl⟩ := Prod.mk.inj hpair
  refine ⟨h.variableAt? hv, { h with vars := ?_ }⟩
  exact forall_mem_modify (f := fun v => { v with storage := v.storage.usedBy body })
    (fun _ hw => hw) h.vars handle.index

theorem keyMethod (key : Option SymbolKey) (handle : MethodHandle) :
    (t.keyMethod key handle).Woven ok := by
  unfold SymbolTable.keyMethod
  split
  · exact { h with }
  · exact h

theorem methodName (names : Names) (base : String) : '#' ∉ (t.methodName names base).1.toList := by
  unfold SymbolTable.methodName
  split
  · rename_i m hm
    exact (hashless_cons.1 (h.methods m (mem_of_find?_eq_some hm)).1).1
  · exact names.not_hash_generate base

theorem enterMethod (hm : Hashless m.strings) (hmarker : ∀ id ∈ m.marker, ok id) :
    SymbolTable.Woven ok { t with methods := t.methods ++ [m] } := by
  refine { h with methods := forall_mem_append.2 ⟨h.methods, fun other hother => ?_⟩ }
  rw [mem_singleton.1 hother]
  exact ⟨hm, hmarker⟩

/-- A method is entered under the name of its overloads or a new one. -/
theorem addMethod (names : Names) (key : Option SymbolKey)
    (hm : Hashless m.strings) (hmarker : ∀ id ∈ m.marker, ok id) :
    (t.addMethod names key m).2.1.Woven ok := by
  have hname := h.methodName names m.base
  unfold SymbolTable.addMethod
  refine (enterMethod ?_ ?_ ?_).keyMethod key _
  · split
    · exact { h.newBody with declNames := hashless_cons.2 ⟨hname, h.declNames⟩ }
    · exact h.newBody
  · simp only [MethodSymbol.strings, cons_append, hashless_cons] at hm ⊢
    exact ⟨hname, hm.2⟩
  · exact hmarker

theorem registerMethod {key : Option SymbolKey} (hm : Hashless m.strings)
    (hmarker : ∀ id ∈ m.marker, ok id) {names' : Names}
    (hrun : t.registerMethod names key m = .ok (handle, t', names')) : t'.Woven ok := by
  obtain ⟨_, rfl, _⟩ | ⟨_, _, _, _, rfl, _⟩ | ⟨_, hcase⟩ := SymbolTable.registerMethod_ok hrun
  · exact h
  · exact h.keyMethod key _
  · have hadded := h.addMethod names key hm hmarker
    rwa [hcase] at hadded

theorem method? (hm : t.method? handle = some m) : '#' ∉ m.name.toList :=
  (hashless_cons.1 (h.methods m (mem_of_getElem? hm)).1).1

theorem registerProperty (names : Names) {p : PropertySymbol}
    (hp : Hashless p.strings) (hdecl : ok (.decl p.decl)) :
    (t.registerProperty names p).2.1.Woven ok := by
  unfold SymbolTable.registerProperty
  split
  · exact h
  · have hname := names.not_hash_generate p.name
    refine { h with
      declNames := hashless_cons.2 ⟨hname, h.declNames⟩
      properties := forall_mem_append.2 ⟨h.properties, fun q hq => ?_⟩ }
    rw [mem_singleton.1 hq]
    simp only [PropertySymbol.strings, cons_append, hashless_cons] at hp ⊢
    exact ⟨⟨hname, hp.2⟩, hdecl⟩

theorem modifyProperty (handle : PropertyHandle)
    {f : PropertySymbol → PropertySymbol}
    (hf : ∀ p, Hashless p.strings ∧ ok (.decl p.decl) →
      Hashless (f p).strings ∧ ok (.decl (f p).decl)) : (t.modifyProperty handle f).Woven ok :=
  { h with properties := forall_mem_modify hf h.properties handle.index }

theorem registerConstructor {decl : Option DeclId} (hdecl : ∀ id ∈ decl, ok (.decl id))
    {params : List ParamSymbol} (hparams : Hashless (params.flatMap ParamSymbol.strings))
    (modifiers : Modifiers) : (t.registerConstructor decl params modifiers).2.Woven ok := by
  have hnew (t' : SymbolTable) (h' : t'.Woven ok) (body : BodyId) :
      SymbolTable.Woven ok
        { t' with constructors := t'.constructors ++ [⟨decl, params, modifiers, body⟩] } := by
    refine { h' with constructors := forall_mem_append.2 ⟨h'.constructors, fun c hc => ?_⟩ }
    rw [mem_singleton.1 hc]
    exact ⟨hparams, hdecl⟩
  unfold SymbolTable.registerConstructor
  refine hnew _ ?_ _
  split
  · exact { h.newBody with }
  · exact h.newBody

end SymbolTable.Woven

theorem Names.Hashless.registerMethod {names' : Names} (h : names.Hashless) {t : SymbolTable}
    {key : Option SymbolKey} (hrun : t.registerMethod names key m = .ok (handle, t', names')) :
    names'.Hashless := by
  obtain ⟨_, _, rfl⟩ | ⟨_, _, _, _, _, rfl⟩ | ⟨_, hcase⟩ := SymbolTable.registerMethod_ok hrun
  · exact h
  · exact h
  · have hadded : (t.addMethod names key m).2.2.Hashless := by
      change (t.methodName names m.base).2.Hashless
      unfold SymbolTable.methodName
      split
      · exact h
      · exact h.generate m.base
    rwa [hcase] at hadded

theorem Names.Hashless.registerProperty (h : names.Hashless) (t : SymbolTable) (p : PropertySymbol) :
    (t.registerProperty names p).2.2.Hashless := by
  unfold SymbolTable.registerProperty
  split
  · exact h
  · exact h.generate p.name

/-! ## Units -/

/-- The texts of all units are woven. -/
def StateUnits.Woven (ok : MarkerId → Prop) (s : StateUnits) : Prop :=
  ∀ u ∈ s.units, FlowClass.Woven ok u.text

namespace StateUnits.Woven

variable {ok : MarkerId → Prop} {s : StateUnits}

variable (h : s.Woven ok)
include h

theorem modify (node : NodeId) {f : StateUnit → StateUnit}
    (hf : ∀ u, FlowClass.Woven ok u.text → FlowClass.Woven ok (f u).text) :
    (s.modify node f).Woven ok := by
  intro u hu
  obtain ⟨w, hw, rfl⟩ := mem_map.1 hu
  split
  · exact hf w (h w hw)
  · exact h w hw

theorem register {t : SymbolTable} (ht : t.Woven ok) (node : NodeId) :
    (s.register t node).2.1.Woven ok ∧ (s.register t node).2.2.Woven ok := by
  unfold StateUnits.register
  split
  · exact ⟨h, ht⟩
  · refine ⟨forall_mem_append.2 ⟨h, fun u hu => ?_⟩, ht.newBody⟩
    rw [mem_singleton.1 hu]
    exact .plain "" (by decide)

theorem begin {node : NodeId} {body : BodyId} {s' : StateUnits}
    (hbegin : s.begin node = some (body, s')) : s'.Woven ok := by
  unfold StateUnits.begin at hbegin
  split at hbegin
  · split at hbegin
    · cases hbegin
      exact h.modify node fun _ hu => hu
    · cases hbegin
  · cases hbegin

theorem noteReference (node : NodeId) : (s.noteReference node).Woven ok := by
  refine h.modify node fun u hu => ?_
  split
  · exact hu
  · exact hu

theorem finish (node : NodeId) {text : String} (htext : FlowClass.Woven ok text) :
    (s.finish node text).Woven ok :=
  h.modify node fun _ _ => htext

end StateUnits.Woven

end FlowClass
