import FlowClass.Proofs.Emission.WovenFlow

/-!
# The assembled file

Writing the members of a class out of a woven state gives a woven text, with a header before it that
has a directive in a line of its own. So extraction succeeds on every file that is assembled
(`Assembly.extractable_markedText`).
-/

namespace FlowClass

open List Option Modifiers Assembly

variable {ok : MarkerId → Prop} {config : Config}

namespace Modifiers

theorem hashless_join {texts : List String} (h : Hashless texts) :
    '#' ∉ (String.join texts).toList := by
  induction texts with
  | nil => decide
  | cons text texts ih =>
    rw [hashless_cons] at h
    rw [String.join_cons, String.toList_append, mem_append, not_or]
    exact ⟨h.1, ih h.2⟩

theorem not_hash_render (m : Modifiers) (hideOwn : Bool) : '#' ∉ (m.render hideOwn).toList := by
  have hif {b : Bool} {x y : List String} (hx : Hashless x) (hy : Hashless y) :
      Hashless (if b then x else y) := by
    split
    · exact hx
    · exact hy
  have haccess : '#' ∉ m.access.keyword.toList := by cases m.access <;> decide
  have hkeywords : Hashless m.keywords := by
    unfold keywords
    simp only [hashless_append]
    refine ⟨⟨⟨⟨⟨⟨hif ?_ (hif ?_ ?_), hif ?_ ?_⟩, hif ?_ ?_⟩, hif ?_ ?_⟩, hif ?_ ?_⟩, hif ?_ ?_⟩,
      hif ?_ ?_⟩ <;> decide
  have hall : Hashless ((if hideOwn && m.access = .ownClass then [] else [m.access.keyword]) ++
      m.keywords) := by
    refine hashless_append.2 ⟨?_, hkeywords⟩
    split
    · exact hashless_nil
    · exact hashless_cons.2 ⟨haccess, hashless_nil⟩
  refine hashless_join fun text htext => ?_
  obtain ⟨keyword, hkeyword, rfl⟩ := mem_map.1 htext
  have hblank := hall keyword hkeyword
  simp [hblank]

end Modifiers

theorem Woven.markText {text : String} (h : Woven ok text) {id : Option MarkerId}
    (hid : ∀ marker ∈ id, ok marker) (config : Config) :
    Woven ok (markText config id text) := by
  cases id with
  | none => exact h
  | some id => exact h.mark (hid id rfl) config

theorem SymbolTable.Woven.bodyText {symbols : SymbolTable} (h : symbols.Woven ok) (body : BodyId) :
    FlowClass.Woven ok (bodyText symbols body) := by
  unfold Assembly.bodyText
  cases htext : (symbols.body? body).bind Body.text with
  | none => exact .plain "" (by decide)
  | some text =>
    obtain ⟨b, hb, htext⟩ := bind_eq_some_iff.1 htext
    exact (h.bodies b (mem_of_getElem? hb)).text text htext

theorem SymbolTable.Woven.contribution {symbols : SymbolTable} (h : symbols.Woven ok)
    {body : BodyId} {c : Contribution} (hc : c ∈ contributions symbols body) :
    FlowClass.Woven ok c.text := by
  have hc := mem_sortBy.1 hc
  cases hb : symbols.body? body with
  | none =>
    rw [hb] at hc
    exact absurd hc not_mem_nil
  | some b =>
    rw [hb] at hc
    exact (h.bodies b (mem_of_getElem? hb)).contributions c hc

theorem Woven.unitBody {body : String} (h : Woven ok body) :
    Woven ok (FlowClass.unitBody body) := by
  unfold FlowClass.unitBody
  split
  · exact h
  · exact .lines (forall_mem_cons.2
      ⟨h, forall_mem_singleton.2 (.plain "yield break;" (by decide))⟩)

namespace Assembly

variable {α β : Type} {f : α → Writing β}

/-- The writing keeps the imports free of `#`, and what it gives has the property. -/
def Writes (P : α → Prop) (x : Writing α) : Prop :=
  ∀ i : Imports, Hashless i.spaces → P (x i).1 ∧ Hashless (x i).2.spaces

namespace Writes

section Rules

variable {P : α → Prop} {Q : β → Prop}

theorem pure {a : α} (ha : P a) : Writes P (Pure.pure a) :=
  fun _ hi => ⟨ha, hi⟩

theorem bind {x : Writing α} (hx : Writes P x) (hf : ∀ a, P a → Writes Q (f a)) :
    Writes Q (x >>= f) := by
  intro i hi
  obtain ⟨ha, hi'⟩ := hx i hi
  exact hf (x i).1 ha (x i).2 hi'

/-- What follows a choice is written in both of its branches. -/
theorem bindIte {p : Prop} [Decidable p] {x y : Writing α} (hxy : Writes P (if p then x else y))
    (hf : ∀ a, P a → Writes Q (f a)) : Writes Q (if p then x >>= f else y >>= f) := by
  split
  · rename_i hp
    rw [if_pos hp] at hxy
    exact hxy.bind hf
  · rename_i hp
    rw [if_neg hp] at hxy
    exact hxy.bind hf

theorem mapM {l : List α} (hf : ∀ a ∈ l, Writes Q (f a)) :
    Writes (fun bs => ∀ b ∈ bs, Q b) (l.mapM f) := by
  induction l with
  | nil => exact .pure (forall_mem_nil _)
  | cons a l ih =>
    rw [mapM_cons]
    exact .bind (hf a mem_cons_self) fun b hb =>
      .bind (ih fun c hc => hf c (mem_cons_of_mem _ hc)) fun bs hbs =>
        .pure (forall_mem_cons.2 ⟨hb, hbs⟩)

end Rules

variable (ok : MarkerId → Prop)

theorem typeName {type : Ty} (h : Hashless type.strings) :
    Writes ('#' ∉ ·.toList) (typeName type) :=
  fun i hi => type.hashless_text h i hi

theorem literal {l : Literal} (h : Hashless l.strings) : Writes (Woven ok) (literal l) :=
  fun i hi => l.woven_text h i hi

/-! ## Members -/

theorem attributeText {a : AttributeUse} (h : Hashless a.strings) :
    Writes (Woven ok) (attributeText a) := by
  rw [AttributeUse.strings, hashless_append] at h
  refine .bind (.typeName h.1) fun name hname => ?_
  have hshort : '#' ∉ (dropAttribute name).toList := by
    unfold dropAttribute
    dsimp only
    split
    · rename_i c rest hrest
      intro hmem
      rw [String.toList_ofList, mem_reverse] at hmem
      refine hname (mem_reverse.1 ?_)
      rw [Text.eq_append_of_dropLead hrest]
      exact mem_append_right _ hmem
    · exact hname
  split
  · exact .pure (.plain _ (by simp [hshort]))
  · refine .bind (.mapM fun l hl => .literal ok ?_) fun texts htexts => .pure ?_
    · rw [Literal.stringsOf_eq] at h
      exact h.2.of_mem_flatMap hl
    · have hhead : Woven ok ("[" ++ dropAttribute name ++ "(") := .plain _ (by simp [hshort])
      exact (hhead.append (.joinText (by decide) htexts)).append (.plain _ (by decide))

theorem attributes {attributes : List AttributeUse}
    (h : Hashless (attributes.flatMap AttributeUse.strings)) :
    Writes (fun texts => ∀ text ∈ texts, Woven ok text) (attributes.mapM Assembly.attributeText) :=
  .mapM fun _ ha => .attributeText ok (h.of_mem_flatMap ha)

theorem initialText {default : Option Literal}
    (h : Hashless (default.toList.flatMap Literal.strings)) :
    Writes (Woven ok) (initialText default) := by
  cases default with
  | none => exact .pure (.plain "" (by decide))
  | some l =>
    refine .bind (.literal ok (h.of_mem_flatMap (mem_toList.2 rfl))) fun text htext =>
      .pure ?_
    exact (Woven.plain " = " (by decide)).append htext

theorem field {v : VariableSymbol} (h : Hashless v.strings) (hmarker : ∀ id ∈ v.marker, ok id)
    (config : Config) : Writes (Woven ok) (Assembly.field config v) := by
  simp only [VariableSymbol.strings, hashless_append, cons_append, hashless_cons] at h
  obtain ⟨hname, ⟨htype, hdefault⟩, hattributes⟩ := h
  refine .bind (.attributes ok hattributes) fun attributes hattributes =>
    .bind (.typeName htype) fun type htype => .bind (.initialText ok hdefault)
      fun initial hinitial => .pure (.markText (.joinText (by decide) ?_) hmarker config)
  refine forall_mem_append.2 ⟨hattributes, forall_mem_singleton.2 ?_⟩
  have hhead : Woven ok (v.modifiers.render false ++ type ++ " " ++ v.name) :=
    .plain _ (by simp [not_hash_render, htype, hname])
  exact (hhead.append hinitial).append (.plain _ (by decide))

theorem params {ps : List ParamSymbol} (h : Hashless (ps.flatMap ParamSymbol.strings)) :
    Writes (Woven ok) (params ps) := by
  refine .bind (.mapM fun p hp => ?_) fun texts htexts => .pure (.joinText (by decide) htexts)
  have hp := h.of_mem_flatMap hp
  simp only [ParamSymbol.strings, hashless_append, cons_append, hashless_cons] at hp
  obtain ⟨hname, htype, hdefault⟩ := hp
  have hmark : '#' ∉ (if p.passing = .variadic then "params " else p.passing.callMark).toList := by
    cases p.passing <;> decide
  refine .bind (.typeName htype) fun type htype => .bind (.initialText ok hdefault)
    fun initial hinitial => .pure (Woven.append (.plain _ ?_) hinitial)
  simp [hmark, htype, hname]

theorem localDeclaration {v : VariableSymbol} (h : Hashless v.strings) :
    Writes (Woven ok) (localDeclaration v) := by
  simp only [VariableSymbol.strings, hashless_append, cons_append, hashless_cons] at h
  obtain ⟨hname, ⟨htype, hdefault⟩, _⟩ := h
  refine .bind (.typeName htype) fun type htype => ?_
  split
  · exact .pure (.declare (.plain _ htype) (.plain _ hname) fun _ h => absurd h (not_mem_none _))
  · rename_i l hl
    rw [hl] at hdefault
    refine .bind (.literal ok (hdefault.of_mem_flatMap (mem_toList.2 rfl)))
      fun text htext => .pure (.declare (.plain _ htype) (.plain _ hname) fun other hother => ?_)
    rw [← some.inj hother]
    exact htext

section Table

variable {ok} {symbols : SymbolTable} (hsymbols : symbols.Woven ok)
include hsymbols

theorem renderBody (body : BodyId) {text : String} (htext : Woven ok text) {returnType : Ty}
    (hreturn : Hashless returnType.strings) :
    Writes (Woven ok) (renderBody symbols body text returnType) := by
  have hcontributions (p : Contribution → Bool) (part : String)
      (hpart : part ∈ ((contributions symbols body).filter p).map Contribution.text) :
      Woven ok part := by
    obtain ⟨c, hc, rfl⟩ := mem_map.1 hpart
    exact hsymbols.contribution (mem_of_mem_filter hc)
  refine .bind (.mapM fun v hv => .localDeclaration ok
    (hsymbols.vars v (mem_of_mem_filter hv)).1) fun locals hlocals => ?_
  have hrendered := Woven.lines (forall_mem_append.2 ⟨forall_mem_append.2
    ⟨forall_mem_append.2 ⟨hlocals, hcontributions fun c => c.priority < 0⟩,
      forall_mem_singleton.2 htext⟩, hcontributions fun c => 0 ≤ c.priority⟩)
  dsimp only
  split
  · exact .pure hrendered
  · refine .bind (.typeName hreturn) fun type htype => .pure (.lines ?_)
    refine forall_mem_cons.2 ⟨hrendered, forall_mem_singleton.2 (.plain _ ?_)⟩
    simp [Fragment.returnValue, htype]

theorem accessor {keyword : String} (hkeyword : '#' ∉ keyword.toList) {returnType : Ty}
    (hreturn : Hashless returnType.strings) (body : Option BodyId) :
    Writes (fun texts => ∀ text ∈ texts, Woven ok text)
      (accessor symbols keyword returnType body) := by
  cases body with
  | none => exact .pure (forall_mem_nil _)
  | some body =>
    refine .bind (.renderBody hsymbols body (hsymbols.bodyText body) hreturn) fun text htext =>
      .pure (forall_mem_singleton.2 (Woven.append (.plain _ ?_) htext.braced))
    simp [hkeyword]

theorem property {p : PropertySymbol} (hp : p ∈ symbols.properties) (config : Config) :
    Writes (Woven ok) (Assembly.property config symbols p) := by
  obtain ⟨hstrings, hdecl⟩ := hsymbols.properties p hp
  simp only [PropertySymbol.strings, hashless_append, cons_append, hashless_cons] at hstrings
  obtain ⟨hname, htype, hattributes⟩ := hstrings
  refine .bind (.attributes ok hattributes) fun attributes hattributes =>
    .bind (.typeName htype) fun type hspelled =>
      .bind (.accessor hsymbols (by decide) htype p.getter) fun getter hgetter =>
        .bind (.accessor hsymbols (by decide) (by decide) p.setter) fun setter hsetter =>
          .pure (.mark (.joinText (by decide) ?_) hdecl config)
  refine forall_mem_append.2 ⟨hattributes, forall_mem_singleton.2 ?_⟩
  have hhead : Woven ok (p.modifiers.render false ++ type ++ " " ++ p.name ++ " ") :=
    .plain _ (by simp [not_hash_render, hspelled, hname])
  refine hhead.append ?_
  split
  · exact .plain _ (by decide)
  · exact (Woven.joinText (by decide) (forall_mem_append.2 ⟨hgetter, hsetter⟩)).braced

theorem constructor {c : ConstructorSymbol} (hc : c ∈ symbols.constructors) (config : Config)
    {className : String} (hclass : '#' ∉ className.toList) {setups : List String}
    (hsetups : ∀ setup ∈ setups, Woven ok setup) :
    Writes (Woven ok) (constructor config className symbols setups c) := by
  obtain ⟨hstrings, hdecl⟩ := hsymbols.constructors c hc
  refine .bind (.params ok hstrings) fun params hparams =>
    .bind (.renderBody hsymbols c.body (hsymbols.bodyText c.body) (by decide)) fun body hbody =>
      .pure (.markText ?_ (fun marker hmarker => ?_) config)
  · have hhead : Woven ok (c.modifiers.render false ++ className ++ "(") :=
      .plain _ (by simp [not_hash_render, hclass])
    refine ((hhead.append hparams).append (.plain ") " (by decide))).append (.braced ?_)
    split
    · exact hbody
    · exact .lines (forall_mem_append.2 ⟨hsetups, forall_mem_singleton.2 hbody⟩)
  · obtain ⟨id, hid, rfl⟩ := map_eq_some_iff.1 hmarker
    exact hdecl id hid

theorem constructors (config : Config) {className : String} (hclass : '#' ∉ className.toList)
    {setups : List String} (hsetups : ∀ setup ∈ setups, Woven ok setup) :
    Writes (fun texts => ∀ text ∈ texts, Woven ok text)
      (constructors config className symbols setups) := by
  unfold Assembly.constructors
  split
  · split
    · exact .pure (forall_mem_nil _)
    · have hhead : Woven ok (openToAll.render false ++ className ++ "() ") :=
        .plain _ (by simp [not_hash_render, hclass])
      exact .pure (forall_mem_singleton.2 (hhead.append (Woven.lines hsetups).braced))
  · exact .mapM fun c hc => .constructor hsymbols hc config hclass hsetups

theorem method {m : MethodSymbol} (hm : m ∈ symbols.methods) (config : Config) :
    Writes (Woven ok) (Assembly.method config symbols m) := by
  obtain ⟨hstrings, hmarker⟩ := hsymbols.methods m hm
  simp only [MethodSymbol.strings, hashless_append, cons_append, hashless_cons] at hstrings
  obtain ⟨hname, ⟨⟨hreturn, hparams⟩, htypeParams⟩, hattributes⟩ := hstrings
  have hgeneric : '#' ∉
      (if m.typeParams.isEmpty then "" else "<" ++ joinText ", " m.typeParams ++ ">").toList := by
    split
    · decide
    · have hsep : '#' ∉ ", ".toList := by decide
      simp [not_hash_joinText hsep htypeParams]
  refine .bind (.attributes ok hattributes) fun attributes hattributes =>
    .bind (.typeName hreturn) fun type htype => .bind (.params ok hparams) fun params hparams =>
      .bind (.renderBody hsymbols m.body (hsymbols.bodyText m.body) hreturn) fun body hbody =>
        .pure (.markText (.joinText (by decide) ?_) hmarker config)
  refine forall_mem_append.2 ⟨hattributes, forall_mem_singleton.2 ?_⟩
  refine Woven.append (.append (.append (.plain _ ?_) hparams) (.plain ") " (by decide)))
    hbody.braced
  simp only [String.toList_append, mem_append, not_or]
  exact ⟨⟨⟨⟨⟨m.modifiers.not_hash_render false, htype⟩, by decide⟩, hname⟩, hgeneric⟩, by decide⟩

/-! ## Units and the runtime object -/

theorem dispatcher {units : StateUnits} (hunits : units.Woven ok) :
    Writes (fun text => ∀ body ∈ text, Woven ok body) (dispatcher symbols units) := by
  unfold Assembly.dispatcher
  split
  · exact .pure fun _ h => absurd h (not_mem_none _)
  · refine .bind (.typeName (by decide)) fun enumerator henumerator =>
      .bind (.mapM (Q := fun body => Woven ok body.2) fun u hu => ?_) fun bodies hbodies =>
        .pure fun text htext => ?_
    · exact .bind (.renderBody hsymbols u.body (hunits u (mem_of_mem_filter hu)) (by decide))
        fun body hbody => .pure hbody
    · unfold dispatcherText at htext
      split at htext
      · cases htext
      · rw [← some.inj htext]
        refine Woven.append (.plain _ ?_) (.braced (.lines (forall_mem_cons.2
          ⟨(FlowClass.Woven.stable ok).switch (.plain "slot" (by decide)) ?_ ?_,
            forall_mem_singleton.2 (.plain "yield break;" (by decide))⟩)))
        · have hname : '#' ∉ dispatcherName.toList := by decide
          simp [henumerator, hname]
        · intro s hs
          obtain ⟨⟨slot, body⟩, hbody, rfl⟩ := mem_map.1 hs
          exact ⟨forall_mem_singleton.2 (.plain _ (Code.not_hash_number slot)),
            (hbodies _ hbody).unitBody⟩
        · exact fun _ h => absurd h (not_mem_none _)

theorem variableAccessors (c : ClassDecl) {getName setName : String} (hget : '#' ∉ getName.toList)
    (hset : '#' ∉ setName.toList) :
    Writes (fun texts => ∀ text ∈ texts, Woven ok text)
      (variableAccessors c symbols getName setName) := by
  have haccessible (v : VariableSymbol) (hv : v ∈ accessible symbols) : Hashless v.strings :=
    (hsymbols.vars v (mem_of_mem_filter (mem_of_mem_filter hv))).1
  have hswitch {sections : List SwitchSection}
      (h : ∀ s ∈ sections, (∀ label ∈ s.labels, Woven ok label) ∧ Woven ok s.body) :
      Woven ok (Fragment.switch "name" sections none).text :=
    (FlowClass.Woven.stable ok).switch (.plain "name" (by decide)) h
      fun _ h => absurd h (not_mem_none _)
  refine .bind (.mapM (Q := fun s => (∀ label ∈ s.labels, Woven ok label) ∧ Woven ok s.body)
    fun v hv => ?_) fun setCases hsetCases => .pure ?_
  · have hstrings := haccessible v hv
    simp only [VariableSymbol.strings, hashless_append, cons_append, hashless_cons] at hstrings
    obtain ⟨hname, ⟨htype, _⟩, _⟩ := hstrings
    refine .bind (.typeName htype) fun type htype => .pure
      ⟨forall_mem_singleton.2 (.stringLiteral _),
        (FlowClass.Woven.stable ok).assign (.plain _ hname) (.plain _ ?_) _⟩
    simp [htype]
  · refine forall_mem_cons.2 ⟨?_, forall_mem_singleton.2 ?_⟩
    · have hhead : Woven ok ("public object " ++ getName ++ "(string name) ") :=
        .plain _ (by simp [hget])
      refine hhead.append (.braced (.lines (forall_mem_cons.2
        ⟨hswitch fun s hs => ?_, forall_mem_singleton.2 (.plain _ (by decide))⟩)))
      obtain ⟨v, hv, rfl⟩ := mem_map.1 hs
      have hname := (hashless_cons.1 (haccessible v hv)).1
      refine ⟨forall_mem_singleton.2 (.stringLiteral _), .plain _ ?_⟩
      show '#' ∉ ("return " ++ v.name ++ ";").toList
      simp [hname]
    · have hhead : Woven ok ("public void " ++ setName ++ "(string name, object value) ") :=
        .plain _ (by simp [hset])
      exact hhead.append (hswitch hsetCases).braced

end Table

theorem runtimeTypeText (h : Hashless config.strings) :
    Writes ('#' ∉ ·.toList) (runtimeTypeText config) := by
  have hruntime : '#' ∉ config.runtimeType.toList := (hashless_cons.1 h).1
  unfold Assembly.runtimeTypeText
  split
  · exact .pure hruntime
  · rename_i space name hsplit
    unfold splitLastDot? at hsplit
    split at hsplit
    · cases hsplit
    · rename_i before after hdot
      cases hsplit
      have hparts : config.runtimeType.toList = after.reverse ++ ['.'] ++ before.reverse := by
        rw [← reverse_inj, Text.eq_append_of_cutAt hdot]
        simp
      rw [hparts] at hruntime
      simp only [mem_append, not_or] at hruntime
      obtain ⟨⟨hspace, _⟩, hname⟩ := hruntime
      refine .typeName (hashless_append.2 ⟨?_, hashless_cons.2 ⟨?_, hashless_nil⟩⟩)
      · unfold Ty.namespaceOf
        split
        · exact hashless_nil
        · exact hashless_cons.2 ⟨by rwa [String.toList_ofList], hashless_nil⟩
      · rwa [String.toList_ofList]

theorem runtimeMembers (h : Hashless config.strings) (hasDispatcher : Bool) :
    Writes (fun members => Woven ok members.1 ∧ Woven ok members.2)
      (runtimeMembers config hasDispatcher) := by
  refine .bind (.runtimeTypeText h) fun type htype => .pure ?_
  have hfield : '#' ∉ runtimeField.toList := by decide
  have hproperty : '#' ∉ runtimeProperty.toList := by decide
  have hdispatch : '#' ∉ (if hasDispatcher then dispatcherName else "null").toList := by
    cases hasDispatcher <;> decide
  refine ⟨.plain _ (by simp [htype, hfield]), Woven.append (.plain _ (by simp [htype, hproperty]))
    (.braced (.append (.plain _ (by decide)) (.braced (.lines ?_))))⟩
  refine forall_mem_cons.2 ⟨.ifElse (.plain _ (by decide)) (.plain _ ?_) ?_,
    forall_mem_singleton.2 (.plain _ (by decide))⟩
  · simp [htype, hfield, hdispatch]
  · exact fun _ h => absurd h (not_mem_none _)

/-! ## The whole class -/

theorem declaration {c : ClassDecl} (h : c.Hashless) : Writes (Woven ok) (declaration c) := by
  refine .bind (.mapM fun type htype => .typeName (h.parents type htype)) fun parents hparents =>
    .pure (.plain _ ?_)
  have hsep : '#' ∉ ", ".toList := by decide
  split
  · simp [not_hash_render, h.name]
  · simp [not_hash_render, h.name, not_hash_joinText hsep hparents]

end Writes

end Assembly

/-- All parts of the class are woven. -/
structure TypeParts.Woven (ok : MarkerId → Prop) (p : TypeParts) : Prop where
  attributes : ∀ text ∈ p.attributes, FlowClass.Woven ok text
  declaration : FlowClass.Woven ok p.declaration
  fields : ∀ text ∈ p.fields, FlowClass.Woven ok text
  properties : ∀ text ∈ p.properties, FlowClass.Woven ok text
  constructors : ∀ text ∈ p.constructors, FlowClass.Woven ok text
  methods : ∀ text ∈ p.methods, FlowClass.Woven ok text

theorem Assembly.Writes.parts {c : ClassDecl} (hc : c.Hashless) (hconfig : Hashless config.strings)
    {s : State} (hs : s.Woven ok) : Writes (TypeParts.Woven ok) (Assembly.parts c config s) := by
  -- the members for the runtime, and the accessors, are written only if asked for
  have hruntime (hasDispatcher : Bool) : Writes
      (fun runtime => ∀ members ∈ runtime, Woven ok members.1 ∧ Woven ok members.2)
      (if s.runtimeUsed then some <$> Assembly.runtimeMembers config hasDispatcher
        else Pure.pure none) := by
    split
    · refine .bind (.runtimeMembers ok hconfig hasDispatcher) fun members hmembers =>
        .pure fun other hother => ?_
      rw [← some.inj hother]
      exact hmembers
    · exact .pure fun _ h => absurd h (not_mem_none _)
  have hsetups (setup : String) (hsetup : setup ∈ s.setups.map (·.2)) : Woven ok setup := by
    obtain ⟨entry, hentry, rfl⟩ := mem_map.1 hsetup
    exact hs.setups entry hentry
  have haccessors : Writes (fun texts => ∀ text ∈ texts, Woven ok text)
      (if config.optimizeAccess then
        Assembly.variableAccessors c s.symbols (s.names.generate "GetVariable").1
          ((s.names.generate "GetVariable").2.generate "SetVariable").1
        else Pure.pure []) := by
    split
    · exact .variableAccessors hs.symbols c (Names.not_hash_generate _ _)
        (Names.not_hash_generate _ _)
    · exact .pure (forall_mem_nil _)
  refine .bind (.mapM fun a ha => .attributeText ok (hc.attributes a ha))
    fun attributes hattributes => .bind (.declaration ok hc) fun declaration hdeclaration =>
    .bind (.dispatcher hs.symbols hs.units) fun dispatcher hdispatcher =>
    .bindIte (hruntime dispatcher.isSome) fun runtime hruntime => ?_
  refine .bind (.mapM (Q := Woven ok) fun v hv => ?_) fun fields hfields =>
    .bind (.mapM fun p hp => .property hs.symbols hp config) fun properties hproperties =>
    .bind (.constructors hs.symbols config hc.name hsetups) fun constructors hconstructors =>
    .bind (.mapM fun m hm => .method hs.symbols hm config) fun methods hmethods =>
    .bindIte haccessors fun accessors haccessors => .pure ?_
  · have hv := hs.symbols.vars v (mem_of_mem_filter hv)
    exact .field ok hv.1 hv.2 config
  · exact {
      attributes := hattributes
      declaration := hdeclaration
      fields := forall_mem_append.2 ⟨hfields, fun text htext => by
        obtain ⟨members, hmembers, rfl⟩ := mem_map.1 htext
        exact (hruntime members (mem_toList.1 hmembers)).1⟩
      properties := forall_mem_append.2 ⟨hproperties, fun text htext => by
        obtain ⟨members, hmembers, rfl⟩ := mem_map.1 htext
        exact (hruntime members (mem_toList.1 hmembers)).2⟩
      constructors := hconstructors
      methods := forall_mem_append.2 ⟨forall_mem_append.2 ⟨hmethods, fun text htext =>
        hdispatcher text (mem_toList.1 htext)⟩, haccessors⟩ }

/-! ## The file -/

theorem TypeParts.Woven.typeText {p : TypeParts} (h : p.Woven ok) :
    FlowClass.Woven ok (typeText p) := by
  have hfields : ∀ text ∈ if p.fields.isEmpty then [] else [joinText "\n" p.fields],
      FlowClass.Woven ok text := by
    split
    · exact forall_mem_nil _
    · exact forall_mem_singleton.2 (.joinText (by decide) h.fields)
  have hbody := forall_mem_append.2 ⟨forall_mem_append.2 ⟨forall_mem_append.2
    ⟨hfields, h.properties⟩, h.constructors⟩, h.methods⟩
  refine .lines (forall_mem_append.2 ⟨h.attributes, forall_mem_singleton.2 ?_⟩)
  exact (h.declaration.append (.plain " " (by decide))).append
    (FlowClass.Woven.joinText (by decide) hbody).braced

namespace Marker

/-- Tokens in pairs, of identities that are allowed, in a text whose every `#` is guarded or starts a
line. -/
inductive Extractable (ok : MarkerId → Prop) (text : String) : Prop where
  | ofStrands (strands : List Strand) (hrender : text.toList = render strands)
    (hsettled : Settled strands) (hpaired : Paired (tokens strands))
    (hok : ∀ t ∈ tokens strands, ok t.2)

namespace Extractable

variable {ok : MarkerId → Prop} {text : String}

theorem ofWoven (h : Woven ok text) : Extractable ok text := by
  obtain ⟨strands, hrender, htame, hpaired, hok⟩ := h
  exact ⟨strands, hrender, htame.settled, hpaired, hok⟩

/-- A text without tokens may go before. -/
theorem behind {front : String} (hfront : Settled (front.toList.map .char)) (h : Woven ok text) :
    Extractable ok (front ++ text) := by
  obtain ⟨strands, hrender, htame, hpaired, hok⟩ := h
  have htokens : tokens (front.toList.map .char ++ strands) = tokens strands := by
    rw [tokens_append, tokens_chars, nil_append]
  refine ⟨front.toList.map .char ++ strands, ?_, hfront.append htame.settled, ?_, ?_⟩
  · rw [String.toList_append, render_append, render_chars, hrender]
  · rwa [htokens]
  · rwa [htokens]

/-- Extraction succeeds, what is left has no token in it, and spans are of allowed identities. -/
theorem extract (h : Extractable ok text) :
    ∃ (source : String) (map : SourceMap), (∀ order, Marker.extract order text = .ok (source, map)) ∧
      ¬ openMark <:+: source.toList ∧ ¬ closeMark <:+: source.toList ∧
      ∀ span ∈ map.spans, ok span.id := by
  obtain ⟨strands, hrender, hsettled, hpaired, hok⟩ := h
  obtain ⟨map, hextract, hspans⟩ := extract_eq hrender hsettled hpaired
  have hmarks {mark : List Char} (hmark : ['/', '*', '#'] <:+: mark) :
      ¬ mark <:+: (String.ofList (kept strands)).toList := by
    rw [String.toList_ofList]
    exact fun hinfix => hsettled.unmarked (hmark.trans hinfix)
  exact ⟨_, map, hextract, hmarks ⟨[], ['<'], rfl⟩, hmarks ⟨[], ['>'], rfl⟩, fun span hspan =>
    hok _ (hspans span hspan)⟩

end Extractable

end Marker

theorem Imports.hashless_sorted {i : Imports} (h : Hashless i.spaces) : Hashless i.sorted := by
  intro space hspace
  obtain hspace | hspace := mem_append.1 hspace
  · exact h space (mem_sortBy.1 (mem_of_mem_filter hspace))
  · exact h space (mem_sortBy.1 (mem_of_mem_filter hspace))

namespace Assembly

open Marker

theorem settled_header : Settled (header.toList.map .char) := by
  -- the directive after the comment is all that has a `#` in it
  let comment := header.toList.takeWhile (· ≠ '#')
  have hsplit : header.toList =
      comment.dropLast ++ (['\n', '#'] ++ "pragma warning disable".toList) := by
    decide +kernel
  have hcomment : '#' ∉ comment.dropLast := by decide +kernel
  rw [hsplit, map_append, map_append]
  exact (Tame.plain hcomment).settled.append
    (Settled.newLine.append (Tame.plain (by decide)).settled)

theorem extractable_joinText {texts : List String} (hne : texts ≠ [])
    (h : ∀ text ∈ texts, Woven ok text) (withHeader : Bool) : Extractable ok
      (joinText "\n\n" ((if withHeader then [header] else []) ++ texts) ++ "\n") := by
  have hrest : Woven ok (joinText "\n\n" texts ++ "\n") :=
    (Woven.joinText (by decide) h).append (.plain _ (by decide))
  cases withHeader with
  | false => exact .ofWoven hrest
  | true =>
    obtain ⟨text, rest, rfl⟩ := exists_cons_of_ne_nil hne
    have hsplit : joinText "\n\n" ([header] ++ text :: rest) ++ "\n" =
        header ++ ("\n\n" ++ (joinText "\n\n" (text :: rest) ++ "\n")) := by
      show header ++ "\n\n" ++ joinText "\n\n" (text :: rest) ++ "\n" = _
      simp only [String.append_assoc]
    rw [if_pos rfl, hsplit]
    exact .behind settled_header ((Woven.plain _ (by decide)).append hrest)

theorem extractable_fileText {types usings : List String} {space : Option String}
    (htypes : ∀ type ∈ types, Woven ok type) (husings : Hashless usings)
    (hspace : Hashless space.toList) (withHeader : Bool) :
    Extractable ok (fileText types usings space withHeader) := by
  have hjoined : Woven ok (joinText "\n\n" types) := .joinText (by decide) htypes
  unfold fileText
  dsimp only
  rw [append_assoc]
  refine extractable_joinText (append_ne_nil_of_right_ne_nil _ (cons_ne_nil _ _))
    (forall_mem_append.2 ⟨?_, forall_mem_singleton.2 ?_⟩) withHeader
  · split
    · exact forall_mem_nil _
    · refine forall_mem_singleton.2 (.joinText (by decide) fun text htext => ?_)
      obtain ⟨space, hmem, rfl⟩ := mem_map.1 htext
      have hname := husings space hmem
      exact .plain _ (by simp [hname])
  · split
    · exact hjoined
    · have hname := (hashless_cons.1 hspace).1
      split
      · exact hjoined
      · exact Woven.append (.plain _ (by simp [hname])) hjoined.braced

theorem extractable_markedText {g : Generation Node} (henv : g.env.Weavable ok)
    (hs : g.state.Woven ok) : Extractable ok (markedText g) := by
  have hclass := Graph.hashless_class henv.graph
  have hwritten := Writes.parts hclass henv.config hs g.state.imports hs.imports
  unfold markedText
  refine extractable_fileText (forall_mem_singleton.2 hwritten.1.typeText)
    (Imports.hashless_sorted hwritten.2) ?_ _
  have hconfig := henv.config
  rw [Config.strings, cons_append, hashless_cons, hashless_append] at hconfig
  unfold Env.space
  cases hspace : g.env.config.space with
  | none => exact hclass.space
  | some space =>
    rw [hspace] at hconfig
    exact hconfig.2.1

end Assembly

end FlowClass
