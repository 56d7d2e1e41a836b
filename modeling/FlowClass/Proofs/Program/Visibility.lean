import FlowClass.Assembly
import FlowClass.Proofs.Code.Context
import FlowClass.Proofs.Program.EntryBodies
import FlowClass.Proofs.Program.Storage

/-!
# Variables are declared where they are visible

Every body of a method, constructor or accessor is rendered, and so is every unit that has a case. A
rendered body starts with the declarations of its locals, and all of them stand in the file, as do the
declarations of the fields.

A body that mentions a variable belongs to a member or to a unit, so the variable is declared where
the mention can see it, with one exception: a unit without a case is not rendered, but its value is
written where the unit is started (`mentions_visible`).
-/

namespace FlowClass

open List State Assembly StandsIn

variable {v : VariableSymbol} {g : Generation Node} {body : BodyId} {P : String → Prop}
  {text : String} {inner : String}

/-! ## Bodies that mention variables -/

/-- Variables are mentioned in bodies of members and units. -/
def State.Rooted (s : State) : Prop :=
  ∀ handle body, .mention handle body ∈ s.journal → body ∈ s.bodies.map Prod.fst

namespace State.Rooted

variable {s s' : State}

theorem step (h : s.Rooted) (hbodies : s.bodies ⊆ s'.bodies)
    (hjournal : ∀ handle body, .mention handle body ∈ s'.journal →
      .mention handle body ∈ s.journal ∨ body ∈ s.bodies.map Prod.fst) : s'.Rooted := by
  intro handle body hmention
  have hold := (hjournal handle body hmention).elim (h handle body) id
  exact map_subset Prod.fst hbodies hold

theorem spell (h : s.Rooted) (hplace : s.place.body ∈ s.bodies.map Prod.fst)
    (hstep : s.Spells s') : s'.Rooted := by
  refine h.step (hstep.frame.bodies_eq ▸ Subset.refl _) fun handle body hmention => ?_
  cases hstep with
  | mention huse =>
    obtain hnew | hold := mem_cons.1 hmention
    · cases hnew
      exact .inr hplace
    · exact .inl hold
  | temporary | parameter hparam hbody | runtime => exact .inl (by simpa using hmention)
  | copy hparam hbody hother => exact .inl (by simpa [copied] using hmention)
  | _ => exact .inl hmention

theorem moves {env : Env Node} (hmoves : Moves env s s') (h : s.Rooted)
    (hplace : s.place.body ∈ s.bodies.map Prod.fst) : s'.Rooted := by
  induction hmoves with
  | refl s => exact h
  | trans hfirst _ ih ih' =>
    have hgrown := (Builds.moves (c := env.graph.classDecl) hfirst).subset
    refine ih' (ih h hplace) ?_
    rw [hfirst.place]
    exact map_subset Prod.fst hgrown hplace
  | spell hstep => exact h.spell hplace hstep
  | note s he =>
    refine h.step (Subset.refl _) fun handle body hmention => .inl ?_
    obtain rfl | hold := mem_cons.1 hmention
    · cases he
    · exact hold
  | nested type _ ih | text hwrote _ ih => exact ih h hplace
  | unit hstatic hbegin text _ ih =>
    have hentered := (Builds.enterUnit (c := env.graph.classDecl) _ _).trans
      (Builds.units _ (StateUnits.outline_begin hbegin))
    have hinner := ih (h.step hentered.subset fun handle body hmention => .inl ?_) ?_
    · refine hinner.step (Builds.units (c := env.graph.classDecl) _
        (StateUnits.outline_finish _ _ text)).subset fun handle body hmention => .inl hmention
    · simpa [Emit.enterUnit] using hmention
    · exact mem_map_of_mem (mem_bodies_begin hbegin)
  | unitAgain s hstatic =>
    rename_i id
    have hbuilds := (Builds.enterUnit (c := env.graph.classDecl) s id).trans
      (Builds.units _ (StateUnits.outline_noteReference _ id))
    refine h.step hbuilds.subset fun handle body hmention => .inl ?_
    simpa [Emit.enterUnit] using hmention
  | referToUnit s id hstatic | referToShared s hknown =>
    exact h.step (Subset.refl _) fun handle body hmention => .inl (by simpa using hmention)
  | shared hn hnew hmethod hm _ ih =>
    have hentered := Builds.shared (c := env.graph.classDecl) hmethod
    refine ih (h.step hentered.subset fun handle body hmention => .inl ?_) ?_
    · simpa using hmention
    · exact mem_map_of_mem (mem_bodies_method hm)
  | sharedLost s hn hmethod hlost =>
    exact h.step (Builds.shared (c := env.graph.classDecl) hmethod).subset
      fun handle body hmention => .inl hmention
  | _ => exact h

end State.Rooted

theorem Generation.rooted {graph : Graph Node} {config : Config} {gen : Generation Node} {s : State}
    (hstart : start graph config = .ok gen)
    (hrun : Emit.bodies gen.env gen.state = (.ok (), s)) : s.Rooted := by
  have hboth : Housed gen.env.graph.classDecl s ∧ s.Rooted := by
    refine invariant hstart hrun (P := fun s => Housed gen.env.graph.classDecl s ∧ s.Rooted)
      ⟨Housed.reserved gen.env, ?_⟩ (fun s s' hstep h => ?_)
      fun s s' hstep h => ⟨(Builds.filling hstep).housed h.1, ?_⟩
    · simp [Rooted, Emit.reserved, initial]
    · have hbuilds := Builds.declaring (nodup_declIds hstart) hstep
      refine ⟨hbuilds.housed h.1, h.2.step hbuilds.subset fun handle body hmention => .inl ?_⟩
      cases hstep <;> exact hmention
    · cases hstep with
      | emitted he hbody hdecl hplace hmoves =>
        have hin := mem_map_of_mem (f := Prod.fst) (h.1.entry hbody hdecl hplace)
        have hrooted := Rooted.moves hmoves (show Rooted _ from h.2) hin
        exact hrooted
      | text body text => exact h.2
  exact hboth.2

/-! ## Rendered bodies -/

/-- The bodies that are written into the file, with their emitted texts and what they return. -/
def State.rendered (s : State) : List (BodyId × String × Ty) :=
  s.symbols.methods.map (fun m => (m.body, bodyText s.symbols m.body, m.returnType)) ++
    s.symbols.constructors.map (fun k => (k.body, bodyText s.symbols k.body, .void)) ++
    s.symbols.properties.flatMap (fun p =>
      p.getter.toList.map (fun body => (body, bodyText s.symbols body, p.type)) ++
        p.setter.toList.map fun body => (body, bodyText s.symbols body, .void)) ++
    s.units.cases.map fun u => (u.body, u.text, .void)

theorem SymbolTable.map_memberBodies (t : SymbolTable) :
    t.memberBodies.map Prod.fst = t.methods.map MethodSymbol.body ++
      t.constructors.map ConstructorSymbol.body ++
      t.properties.flatMap fun p => p.getter.toList ++ p.setter.toList := by
  simp [memberBodies, map_flatMap, Function.comp_def]

theorem State.map_rendered (s : State) :
    s.rendered.map Prod.fst =
      s.symbols.memberBodies.map Prod.fst ++ s.units.cases.map StateUnit.body := by
  simp [rendered, SymbolTable.map_memberBodies, map_flatMap, Function.comp_def]

theorem State.map_bodies (s : State) :
    s.bodies.map Prod.fst =
      s.symbols.memberBodies.map Prod.fst ++ s.units.units.map StateUnit.body := by
  simp [bodies]

section Rendered

variable {c : ClassDecl} {s : State}

theorem Housed.nodup_rendered (h : Housed c s) : (s.rendered.map Prod.fst).Nodup := by
  have hbodies := h.distinct
  rw [map_bodies] at hbodies
  rw [map_rendered]
  exact hbodies.sublist (.append_left (filter_sublist.map _) _)

/-- A body is rendered, unless it belongs to a unit without a case. -/
theorem Housed.rendered_or_degenerate (h : Housed c s) (hbody : body ∈ s.bodies.map Prod.fst) :
    body ∈ s.rendered.map Prod.fst ∨
      body ∉ s.rendered.map Prod.fst ∧
        ∃ u ∈ s.units.units, u.body = body ∧ u.degenerate?.isSome = true := by
  have hbodies := h.distinct
  rw [map_bodies] at hbody hbodies
  rw [map_rendered]
  obtain hmember | hunit := mem_append.1 hbody
  · exact .inl (mem_append_left _ hmember)
  · obtain ⟨u, hu, rfl⟩ := mem_map.1 hunit
    cases hcase : u.degenerate? with
    | none =>
      refine .inl (mem_append_right _ (mem_map_of_mem ?_))
      exact mem_filter.2 ⟨hu, by rw [hcase]; rfl⟩
    | some value =>
      rw [nodup_append] at hbodies
      refine .inr ⟨fun hmem => ?_, u, hu, rfl, by rw [hcase]; rfl⟩
      obtain hmember | hother := mem_append.1 hmem
      · exact hbodies.2.2 _ hmember _ hunit rfl
      · -- units do not share bodies
        obtain ⟨u', hu', hsame⟩ := mem_map.1 hother
        obtain ⟨hu', hnone⟩ := mem_filter.1 hu'
        rw [inj_on_of_nodup_map hbodies.2.1 hu' hu hsame, hcase] at hnone
        cases hnone

end Rendered

/-! ## Declarations in the file -/

/-- A text that declares the variable: its modifiers, its type and its name, and the value that it
starts with. Type and value are spelled by the imports that there are. -/
def VariableSymbol.Starts (v : VariableSymbol) (modifiers text : String) : Prop :=
  ∃ i : Imports, text = modifiers ++ (typeName v.type i).1 ++ " " ++ v.name ++
    (initialText v.default (typeName v.type i).2).1 ++ ";"

theorem not_blank_semicolon (text : String) : blank (text ++ ";") = false :=
  blank_eq_false_iff.2 ⟨';', by simp [String.toList_append], by decide⟩

/-- A text with the property stands in the other one. -/
def Holding (P : String → Prop) (text : String) : Prop :=
  ∃ inner, P inner ∧ StandsIn inner text

/-- One of the texts holds a text with the property. -/
def SomeHolds (P : String → Prop) (texts : List String) : Prop :=
  ∃ text ∈ texts, Holding P text

/-- The rendered body declares the variable before its text. -/
def VariableSymbol.Opens (v : VariableSymbol) (text rendered : String) : Prop :=
  ∃ declaration earlier later following ending, v.Starts "" declaration ∧
    rendered = Code.lines (earlier ++ declaration :: (later ++ text :: following)) ++ ending

theorem VariableSymbol.Opens.not_blank {rendered : String} (h : v.Opens text rendered) :
    blank rendered = false := by
  obtain ⟨declaration, earlier, later, following, ending, ⟨i, hdeclaration⟩, rfl⟩ := h
  have hstands : StandsIn declaration
      (Code.lines (earlier ++ declaration :: (later ++ text :: following))) :=
    lines (.itself (hdeclaration ▸ not_blank_semicolon _)) (by simp)
  exact (hstands.before ending).not_blank

namespace Assembly

/-- Whatever the imports are, the text that is written has the property. -/
def Always {α : Type} (P : α → Prop) (x : Writing α) : Prop :=
  ∀ i : Imports, P (x i).1

namespace Always

variable {α β : Type} {P : α → Prop} {Q : β → Prop} {f : α → Writing β}

theorem pure {a : α} (h : P a) : Always P (Pure.pure a : Writing α) :=
  fun _ => h

theorem any (x : Writing α) : Always (fun _ => True) x :=
  fun _ => trivial

theorem bind {x : Writing α} (hx : Always P x) (hf : ∀ a, P a → Always Q (f a)) :
    Always Q (x >>= f) :=
  fun i => hf _ (hx i) _

theorem bindIte {p : Prop} [Decidable p] (x y : Writing α) (hf : ∀ a, Always Q (f a)) :
    Always Q (if p then x >>= f else y >>= f) := by
  split
  · exact .bind (.any x) fun a _ => hf a
  · exact .bind (.any y) fun a _ => hf a

/-- Of one member of a list. -/
theorem mapM {l : List α} {a : α} (ha : a ∈ l) (hf : Always Q (f a)) :
    Always (fun bs => ∃ b ∈ bs, Q b) (l.mapM f) := by
  induction l with
  | nil => exact absurd ha not_mem_nil
  | cons first rest ih =>
    rw [mapM_cons]
    obtain rfl | ha := mem_cons.1 ha
    · exact .bind hf fun b hb => .bind (.any _) fun bs _ => .pure ⟨b, mem_cons_self, hb⟩
    · exact .bind (.any _) fun b _ => .bind (ih ha) fun bs ⟨b', hb', hQ⟩ =>
        .pure ⟨b', mem_cons_of_mem _ hb', hQ⟩

end Always

theorem standsIn_markText {outer : String} (h : StandsIn inner outer) (config : Config)
    (id : Option MarkerId) : StandsIn inner (markText config id outer) := by
  cases id with
  | none => exact h
  | some id =>
    change StandsIn inner (config.mark id outer)
    unfold Config.mark
    split
    · exact (((h.after _).before _).before _).before _
    · exact h

/-! ## Members -/

theorem always_field (config : Config) (v : VariableSymbol) :
    Always (Holding (v.Starts (v.modifiers.render false))) (field config v) := by
  refine .bind (.any _) fun attributes _ i => ⟨_, ⟨i, rfl⟩, ?_⟩
  exact standsIn_markText (joinLast (.itself (not_blank_semicolon _)) "\n" _) config _

section Bodies

variable {P : String → Prop} (hsolid : ∀ rendered, P rendered → blank rendered = false)
  (config : Config) (symbols : SymbolTable)
include hsolid

theorem always_method {m : MethodSymbol}
    (h : Always P (renderBody symbols m.body (bodyText symbols m.body) m.returnType)) :
    Always (Holding P) (method config symbols m) := by
  refine .bind (.any _) fun attributes _ => .bind (.any _) fun returnType _ =>
    .bind (.any _) fun params _ => .bind h fun rendered hrendered => .pure ⟨rendered, hrendered, ?_⟩
  have hbody : StandsIn rendered (Code.braced rendered) :=
    (itself (hsolid rendered hrendered)).braced
  exact standsIn_markText ((hbody.after _).joinLast "\n" _) config _

theorem always_constructor (className : String) (setups : List String) {k : ConstructorSymbol}
    (h : Always P (renderBody symbols k.body (bodyText symbols k.body) .void)) :
    Always (Holding P) (constructor config className symbols setups k) := by
  refine .bind (.any _) fun params _ => .bind h fun rendered hrendered =>
    .pure ⟨rendered, hrendered, ?_⟩
  have hbody : StandsIn rendered rendered := .itself (hsolid rendered hrendered)
  refine standsIn_markText (after (braced ?_) _) config _
  split
  · exact hbody
  · exact hbody.lines (mem_append_right _ (mem_singleton_self _))

theorem always_accessor (keyword : String) {returnType : Ty}
    (h : Always P (renderBody symbols body (bodyText symbols body) returnType)) :
    Always (SomeHolds P) (accessor symbols keyword returnType (some body)) := by
  refine .bind h fun rendered hrendered =>
    .pure ⟨_, mem_singleton_self _, rendered, hrendered, ?_⟩
  exact (itself (hsolid rendered hrendered)).braced.after _

/-- An accessor stands in its property. -/
theorem always_property {p : PropertySymbol}
    (h : (∃ body ∈ p.getter, Always P (renderBody symbols body (bodyText symbols body) p.type)) ∨
      ∃ body ∈ p.setter, Always P (renderBody symbols body (bodyText symbols body) .void)) :
    Always (Holding P) (property config symbols p) := by
  have hlast (attributes : List String) (head : String) (accessors : List String)
      (haccessors : SomeHolds P accessors) :
      Holding P (config.mark (.decl p.decl) (joinText "\n" (attributes ++ [head ++
        if accessors.isEmpty then "\x7b get; set; \x7d"
        else Code.braced (joinText "\n" accessors)]))) := by
    obtain ⟨text, htext, inner, hinner, hstands⟩ := haccessors
    have hne : accessors.isEmpty = false := isEmpty_eq_false_iff_exists_mem.2 ⟨_, htext⟩
    have hbody := (hstands.joinText "\n" htext).braced
    rw [hne]
    exact ⟨inner, hinner, standsIn_markText ((hbody.after head).joinLast "\n" _) config (some _)⟩
  refine .bind (.any _) fun attributes _ => .bind (.any _) fun type _ => ?_
  obtain ⟨body, hbody, h⟩ | ⟨body, hbody, h⟩ := h
  · rw [hbody]
    refine .bind (always_accessor hsolid symbols "get" h) fun getter ⟨text, htext, hholding⟩ =>
      .bind (.any _) fun setter _ => .pure (hlast _ _ _ ⟨text, ?_, hholding⟩)
    exact mem_append_left _ htext
  · rw [hbody]
    refine .bind (.any _) fun getter _ => .bind (always_accessor hsolid symbols "set" h)
      fun setter ⟨text, htext, hholding⟩ => .pure (hlast _ _ _ ⟨text, ?_, hholding⟩)
    exact mem_append_right _ htext

/-- A unit with a case stands in the dispatcher. -/
theorem always_dispatcher {units : StateUnits} {u : StateUnit} (hu : u ∈ units.cases)
    (h : Always P (renderBody symbols u.body u.text .void)) :
    Always (fun text => SomeHolds P text.toList) (dispatcher symbols units) := by
  have hunits : units.units.isEmpty = false :=
    isEmpty_eq_false_iff_exists_mem.2 ⟨_, (mem_filter.1 hu).1⟩
  have hcase : Always (fun entry => P entry.2) (caseBody symbols u) :=
    .bind h fun rendered hrendered => .pure hrendered
  unfold dispatcher
  rw [hunits]
  refine .bind (.any _) fun enumerator _ => .bind (.mapM hu hcase)
    fun bodies ⟨entry, hentry, hrendered⟩ => .pure ?_
  obtain ⟨text, htext, hstands⟩ :=
    (itself (hsolid _ hrendered)).dispatcher enumerator hentry
  exact ⟨text, Option.mem_toList.2 htext, entry.2, hrendered, hstands⟩

end Bodies

/-! ## The whole file -/

/-- The members of a class. -/
def members (p : TypeParts) : List String :=
  p.fields ++ p.properties ++ p.constructors ++ p.methods

/-- Fields, properties, constructors, methods and the dispatcher are written. -/
theorem always_parts (c : ClassDecl) (config : Config) (s : State)
    (h : Always (SomeHolds P) (s.symbols.fields.mapM (field config)) ∨
      Always (SomeHolds P) (s.symbols.properties.mapM (property config s.symbols)) ∨
      Always (SomeHolds P) (constructors config c.name s.symbols (s.setups.map (·.2))) ∨
      Always (SomeHolds P) (s.symbols.methods.mapM (method config s.symbols)) ∨
      Always (fun text => SomeHolds P text.toList) (dispatcher s.symbols s.units)) :
    Always (fun p => SomeHolds P (members p)) (parts c config s) := by
  -- what is known of one of the five is used where it is written
  have hlist (x : Writing (List String)) :
      Always (fun texts => Always (SomeHolds P) x → SomeHolds P texts) x := fun i hx => hx i
  have hdispatcher : Always (fun text =>
      Always (fun text => SomeHolds P text.toList) (dispatcher s.symbols s.units) →
        SomeHolds P text.toList) (dispatcher s.symbols s.units) := fun i hx => hx i
  have hmore {texts texts' : List String} (hholds : SomeHolds P texts) (hsub : texts ⊆ texts') :
      SomeHolds P texts' :=
    let ⟨text, htext, hholding⟩ := hholds
    ⟨text, hsub htext, hholding⟩
  refine .bind (.any _) fun attributes _ => .bind (.any _) fun declaration _ =>
    .bind hdispatcher fun dispatcher hdispatcher => .bindIte _ _ fun runtime => ?_
  refine .bind (hlist _) fun fields hfields => .bind (hlist _) fun properties hproperties =>
    .bind (hlist _) fun constructors hconstructors => .bind (hlist _) fun methods hmethods =>
    .bindIte _ _ fun accessors => .pure ?_
  rcases h with h | h | h | h | h
  · exact hmore (hfields h) fun text htext => by simp [members, htext]
  · exact hmore (hproperties h) fun text htext => by simp [members, htext]
  · exact hmore (hconstructors h) fun text htext => by simp [members, htext]
  · exact hmore (hmethods h) fun text htext => by simp [members, htext]
  · exact hmore (hdispatcher h) fun text htext => by simp [members, htext]

theorem standsIn_typeText (h : StandsIn inner text) {p : TypeParts} (hmem : text ∈ members p) :
    StandsIn inner (typeText p) := by
  have hbody : StandsIn inner (joinText "\n\n"
      ((if p.fields.isEmpty then [] else [joinText "\n" p.fields]) ++ p.properties ++
        p.constructors ++ p.methods)) := by
    simp only [members, append_assoc] at hmem ⊢
    obtain hmem | hmem := mem_append.1 hmem
    · have hne : p.fields.isEmpty = false := isEmpty_eq_false_iff_exists_mem.2 ⟨_, hmem⟩
      rw [hne]
      exact (h.joinText "\n" hmem).joinText "\n\n" mem_cons_self
    · exact h.joinText "\n\n" (mem_append_right _ hmem)
  exact lines (hbody.braced.after _)
    (mem_append_right _ (mem_singleton_self _))

theorem standsIn_fileText (h : StandsIn inner text) (usings : List String) (space : Option String)
    (withHeader : Bool) : StandsIn inner (fileText [text] usings space withHeader) := by
  unfold fileText
  refine before (joinLast ?_ "\n\n" _) "\n"
  split
  · exact h
  · split
    · exact h
    · exact h.braced.after _

theorem holding_markedText (h : Always (fun p => SomeHolds P (members p))
      (parts g.env.graph.classDecl g.env.config g.state)) : Holding P (markedText g) := by
  obtain ⟨text, hmem, inner, hinner, hstands⟩ := h g.state.imports
  exact ⟨inner, hinner, standsIn_fileText (standsIn_typeText hstands hmem) _ _ _⟩

/-- Every field is declared in the file, with its first value. -/
theorem holding_starts (hv : v ∈ g.state.symbols.fields) :
    Holding (v.Starts (v.modifiers.render false)) (markedText g) :=
  holding_markedText (always_parts _ _ _ (.inl (.mapM hv (always_field _ v))))

/-- Every rendered body stands in the file. -/
theorem holding_rendered (hsolid : ∀ rendered, P rendered → blank rendered = false) {type : Ty}
    (hmem : (body, text, type) ∈ g.state.rendered)
    (h : Always P (renderBody g.state.symbols body text type)) : Holding P (markedText g) := by
  refine holding_markedText (always_parts _ _ _ ?_)
  simp only [rendered, mem_append, mem_map, mem_flatMap] at hmem
  obtain ((⟨m, hm, heq⟩ | ⟨k, hk, heq⟩) | ⟨p, hp, ⟨b, hb, heq⟩ | ⟨b, hb, heq⟩⟩) | ⟨u, hu, heq⟩ := hmem
  · cases heq
    exact .inr (.inr (.inr (.inl (.mapM hm (always_method hsolid _ _ h)))))
  · cases heq
    refine .inr (.inr (.inl ?_))
    have hne : g.state.symbols.constructors.isEmpty = false :=
      isEmpty_eq_false_iff_exists_mem.2 ⟨_, hk⟩
    unfold constructors
    rw [hne]
    exact .mapM hk (always_constructor hsolid _ _ _ _ h)
  · cases heq
    have hproperty := always_property hsolid g.env.config g.state.symbols
      (.inl ⟨_, Option.mem_toList.1 hb, h⟩)
    exact .inr (.inl (.mapM hp hproperty))
  · cases heq
    have hproperty := always_property hsolid g.env.config g.state.symbols
      (.inr ⟨_, Option.mem_toList.1 hb, h⟩)
    exact .inr (.inl (.mapM hp hproperty))
  · cases heq
    exact .inr (.inr (.inr (.inr (always_dispatcher hsolid _ hu h))))

/-! ## Locals -/

theorem always_localDeclaration (v : VariableSymbol) :
    Always (v.Starts "") (localDeclaration v) := by
  intro i
  refine ⟨i, ?_⟩
  have hdeclare (value : Option String) (initial : String)
      (h : initial = (value.map (" = " ++ ·)).getD "") (type : String) :
      (Fragment.declare type v.name value).text = "" ++ type ++ " " ++ v.name ++ initial ++ ";" := by
    subst h
    cases value <;> simp [Fragment.declare, String.append_assoc]
  unfold localDeclaration
  cases v.default with
  | none => exact hdeclare none "" rfl _
  | some l => exact hdeclare (some _) _ rfl _

/-- A local is declared at the head of its body. -/
theorem always_renderBody {symbols : SymbolTable} (hv : v ∈ symbols.localsOf body) (text : String)
    (returnType : Ty) : Always (v.Opens text) (renderBody symbols body text returnType) := by
  refine .bind (.mapM hv (always_localDeclaration v)) fun locals ⟨declaration, hmem, hlocal⟩ => ?_
  obtain ⟨earlier, later, rfl⟩ := append_of_mem hmem
  have hopens (before after : List String) (ending : String) : v.Opens text
      (Code.lines (earlier ++ declaration :: later ++ before ++ [text] ++ after) ++ ending) := by
    refine ⟨declaration, earlier, later ++ before, after, ending, hlocal, ?_⟩
    simp only [append_assoc, cons_append, nil_append]
  dsimp only
  generalize ((contributions symbols body).filter fun c => c.priority < 0).map
    Contribution.text = before
  generalize ((contributions symbols body).filter fun c => 0 ≤ c.priority).map
    Contribution.text = after
  have hplain := hopens before after ""
  rw [String.append_empty] at hplain
  split
  · exact .pure hplain
  · refine .bind (.any _) fun type _ => .pure ?_
    -- the body is not blank, so the value that it returns stands below it
    have hvalue : blank (Fragment.returnValue (some ("default(" ++ type ++ ")"))).text = false :=
      not_blank_semicolon _
    rw [Code.lines_pair hplain.not_blank hvalue, String.append_assoc]
    exact hopens before after _

end Assembly

/-- The variable is declared at the head of a body that stands in the file. -/
def VariableSymbol.DeclaredIn (v : VariableSymbol) (g : Generation Node) (body : BodyId) : Prop :=
  ∃ text type, (body, text, type) ∈ g.state.rendered ∧
    Holding (v.Opens text) (markedText g)

/-- A local is declared at the head of its body. -/
theorem declaredIn_of_rendered (hv : v ∈ g.state.symbols.vars)
    (hstorage : v.storage = .localTo body) (hbody : body ∈ g.state.rendered.map Prod.fst) :
    v.DeclaredIn g body := by
  obtain ⟨⟨_, text, type⟩, hmem, rfl⟩ := mem_map.1 hbody
  have hlocal : v ∈ g.state.symbols.localsOf _ :=
    mem_filter.2 ⟨hv, decide_eq_true hstorage⟩
  exact ⟨text, type, hmem, holding_rendered (fun _ h => h.not_blank) hmem
    (always_renderBody hlocal text type)⟩

/-- No body is rendered twice, and every variable that is mentioned is declared as a field or at the
head of the one body that mentions it, unless that body belongs to a unit without a case. -/
theorem mentions_visible {graph : Graph Node} {config : Config} {gen : Generation Node} {s : State}
    (hstart : Generation.start graph config = .ok gen)
    (hrun : Emit.bodies gen.env gen.state = (.ok (), s)) :
    (s.rendered.map Prod.fst).Nodup ∧
      ∀ handle body, .mention handle body ∈ s.journal →
        ∃ v, s.symbols.variableAt? handle = some v ∧
          (v.storage = .field ∧
              Holding (v.Starts (v.modifiers.render false)) (Assembly.markedText ⟨gen.env, s⟩) ∨
            v.storage = .localTo body ∧
              (∀ other, .mention handle other ∈ s.journal → other = body) ∧
              (v.DeclaredIn ⟨gen.env, s⟩ body ∨
                body ∉ s.rendered.map Prod.fst ∧
                  ∃ u ∈ s.units.units, u.body = body ∧ u.degenerate?.isSome = true)) := by
  have hhoused := Generation.housed hstart hrun
  have hstored := Generation.stored hstart hrun
  refine ⟨hhoused.nodup_rendered, fun handle body hmention => ?_⟩
  have hin := State.mem_mentions.2 hmention
  have hknown := hstored.known handle (List.ne_nil_of_mem hin)
  obtain ⟨v, hv⟩ : ∃ v, s.symbols.variableAt? handle = some v :=
    ⟨_, List.getElem?_eq_getElem hknown⟩
  have hmem : v ∈ s.symbols.vars := List.mem_of_getElem? hv
  have hfield (hstorage : v.storage = .field) :
      Holding (v.Starts (v.modifiers.render false)) (Assembly.markedText ⟨gen.env, s⟩) :=
    Assembly.holding_starts (List.mem_filter.2 ⟨hmem, decide_eq_true hstorage⟩)
  refine ⟨v, hv, ?_⟩
  cases hkey : v.key.isField gen.env.graph.classDecl with
  | true => exact .inl ⟨hstored.fields v hmem hkey, hfield (hstored.fields v hmem hkey)⟩
  | false =>
    have hfits := hstored.others handle v hv hkey
    cases hstorage : v.storage with
    | field => exact .inl ⟨rfl, hfield hstorage⟩
    -- a variable that is mentioned has a home
    | unbound =>
      rw [hstorage] at hfits
      exact absurd (List.mem_append_left _ hin) (hfits ▸ List.not_mem_nil)
    | localTo home =>
      rw [hstorage] at hfits
      have hsame : ∀ other, .mention handle other ∈ s.journal → other = home := fun other hother =>
        hfits.2 other (List.mem_append_left _ (State.mem_mentions.2 hother))
      obtain rfl := hsame body hmention
      refine .inr ⟨rfl, hsame, ?_⟩
      have hbody := Generation.rooted hstart hrun handle body hmention
      exact (hhoused.rendered_or_degenerate hbody).imp_left fun hrendered =>
        declaredIn_of_rendered hmem hstorage hrendered

/-- One variable is still needed after the wait, the other one is not. -/
def usesAfterWait : Graph Node where
  name := "C"
  classDecl := startsAtOne
  nodes :=
    [(⟨1⟩, .localVariable "x" .int (.literal (.integer 1 .int)) (some ⟨2⟩)),
      (⟨2⟩, .localVariable "y" .int (.output ⟨1⟩ 0) (some ⟨3⟩)),
      (⟨3⟩, .wait .unassigned (some ⟨4⟩)),
      (⟨4⟩, .invoke (.chain .self [Step.ofMethod "Take" .void
        [{ name := "value", type := .int }] [.output ⟨1⟩ 0]]) none)]

/-- The first is declared as a field, the second at the head of its only body. -/
theorem usesAfterWait_visible : ∃ gen s,
    Generation.start usesAfterWait {} = .ok gen ∧ Emit.bodies gen.env gen.state = (.ok (), s) ∧
    (∃ v, s.symbols.variableAt? ⟨0⟩ = some v ∧
      Holding (v.Starts (v.modifiers.render false)) (Assembly.markedText ⟨gen.env, s⟩)) ∧
    ∃ v body, s.symbols.variableAt? ⟨1⟩ = some v ∧ .mention ⟨1⟩ body ∈ s.journal ∧
      v.DeclaredIn ⟨gen.env, s⟩ body := by
  obtain ⟨gen, s, hstart, hrun, hfirst, hsecond, hmention, hmention', hrendered⟩ :
      Generation.EndsWith usesAfterWait {} fun _ s =>
        (s.symbols.variableAt? ⟨0⟩).map VariableSymbol.storage = some .field ∧
        (s.symbols.variableAt? ⟨1⟩).map VariableSymbol.storage = some (.localTo ⟨3⟩) ∧
        .mention ⟨0⟩ ⟨2⟩ ∈ s.journal ∧ .mention ⟨1⟩ ⟨3⟩ ∈ s.journal ∧
        ⟨3⟩ ∈ s.rendered.map Prod.fst := by decide +kernel
  obtain ⟨_, hvisible⟩ := mentions_visible hstart hrun
  refine ⟨gen, s, hstart, hrun, ?_, ?_⟩
  · obtain ⟨v, hv, ⟨_, hfield⟩ | ⟨hlocal, _⟩⟩ := hvisible ⟨0⟩ ⟨2⟩ hmention
    · exact ⟨v, hv, hfield⟩
    · simp [hv, hlocal] at hfirst
  · obtain ⟨v, hv, ⟨hfield, _⟩ | ⟨_, _, hdeclared | ⟨hnot, _⟩⟩⟩ := hvisible ⟨1⟩ ⟨3⟩ hmention'
    · simp [hv, hfield] at hsecond
    · exact ⟨v, ⟨3⟩, hv, hmention', hdeclared⟩
    · exact absurd hrendered hnot

/-- The time to wait for is a variable that nothing else mentions. -/
def waitsByVariable : Graph Node where
  name := "C"
  classDecl := startsAtOne
  nodes :=
    [(⟨1⟩, .wait (.output ⟨2⟩ 0) none),
      (⟨2⟩, .localVariable "x" (.scalar .float) .unassigned none)]

/-- Its class, in which nothing declares `x`. -/
def waitsByVariableParts : TypeParts where
  declaration := "public class C"
  fields := ["private FlowRuntime __runtime;"]
  properties :=
    ["private FlowRuntime __rt \x7b\n    get \x7b\n        if (__runtime == null) \x7b\n" ++
      "            __runtime = new FlowRuntime(this, null);\n        \x7d\n" ++
      "        return __runtime;\n    \x7d\n\x7d"]
  methods := ["private void Start() \x7b\n    __rt.Run(0, new WaitForSeconds(x));\n\x7d"]

/-- The variable belongs to a body that is not rendered, and no member declares it. -/
theorem waitsByVariable_undeclared : ∃ gen s body,
    Generation.start waitsByVariable { header := false } = .ok gen ∧
    Emit.bodies gen.env gen.state = (.ok (), s) ∧ .mention ⟨0⟩ body ∈ s.journal ∧
    s.symbols.vars.map (fun v => (v.name, v.storage)) = [("x", .localTo body)] ∧
    body ∉ s.rendered.map Prod.fst ∧
    ((Assembly.parts gen.env.graph.classDecl gen.env.config s).run s.imports).1 =
      waitsByVariableParts := by
  obtain ⟨gen, s, hstart, hrun, hends⟩ : Generation.EndsWith waitsByVariable { header := false }
      fun gen s => .mention ⟨0⟩ ⟨2⟩ ∈ s.journal ∧
      s.symbols.vars.map (fun v => (v.name, v.storage)) = [("x", .localTo ⟨2⟩)] ∧
      ⟨2⟩ ∉ s.rendered.map Prod.fst ∧
      ((Assembly.parts gen.env.graph.classDecl gen.env.config s).run s.imports).1 =
        waitsByVariableParts := by decide +kernel
  exact ⟨gen, s, ⟨2⟩, hstart, hrun, hends⟩

end FlowClass
