import FlowClass.Proofs.Emission.UnitCalls
import FlowClass.Proofs.Symbol.Woven

/-!
# Emission weaves

Whatever is emitted for a graph without `#` in its strings is woven, and everything that ends up in
the file later on (bodies, units, splices, symbols) is kept woven from the first step to the last,
through failures as well.

An emission *weaves* if it keeps the state woven and gives results of a certain kind. Weaving is
closed under sequencing and under all brackets; terms weave if the outputs they read do, and the hooks
of a node weave if what they ask for does.
-/

namespace FlowClass

open List

/-- The value of a degenerate unit is woven: it is what its text leaves without the markers. -/
theorem Woven.yielded {ok : MarkerId → Prop} {text value : String} (h : Woven ok text)
    (hyields : YieldsOnly text value) : Woven ok value := by
  obtain ⟨strands, htext, htame, _, _⟩ := h
  obtain ⟨before, lead, trail, after, hstrip, hblank⟩ := hyields
  simp only [all_append, Bool.and_eq_true] at hblank
  have hsplit : Marker.kept strands = (before ++ "yield return ".toList ++ lead) ++
      (value.toList ++ (trail ++ [';'] ++ after)) := by
    rw [← Marker.strip_toList htext htame.unmarked, hstrip]
    simp only [append_assoc]
  have hkept := htame.kept
  rw [hsplit, map_append] at hkept
  have hguards : (before ++ "yield return ".toList ++ lead).any Marker.isGuard = false := by
    rw [any_append, any_append, Marker.not_guard_of_blank hblank.1.1.1,
      Marker.not_guard_of_blank hblank.1.1.2]
    decide
  have hrest := hkept.dropChars hguards
  rw [map_append] at hrest
  exact .ofTame hrest.of_append

/-! ## Woven states -/

/-- All texts of the state are woven, and its names have no `#` in them. -/
structure State.Woven (ok : MarkerId → Prop) (s : State) : Prop where
  names : s.names.Hashless
  imports : Hashless s.imports.spaces
  symbols : s.symbols.Woven ok
  units : s.units.Woven ok
  splices : ∀ splice ∈ s.splices, ∀ text ∈ splice.enter ++ splice.exit, FlowClass.Woven ok text
  params : ∀ p ∈ s.params, '#' ∉ p.2.1.toList ∧ Hashless p.2.2.strings
  shared : ∀ m ∈ s.shared, '#' ∉ m.2.1.toList
  setups : ∀ setup ∈ s.setups, FlowClass.Woven ok setup.2
  returnType : Hashless s.place.returnType.strings

namespace Emit

variable {α β : Type}

/-- The emission keeps the state woven, and what it gives has the property. -/
def Weaves (ok : MarkerId → Prop) (env : Env Node) (P : α → Prop) (x : Emit Node α) : Prop :=
  ∀ s, s.Woven ok → (x env s).2.Woven ok ∧ ∀ a, (x env s).1 = .ok a → P a

namespace Weaves

variable {ok : MarkerId → Prop} {env : Env Node} {P : α → Prop} {Q : β → Prop} {x : Emit Node α}

theorem imp {P' : α → Prop} (hx : Weaves ok env P x) (h : ∀ a, P a → P' a) : Weaves ok env P' x :=
  fun s hs => ⟨(hx s hs).1, fun a ha => h a ((hx s hs).2 a ha)⟩

theorem pure {a : α} (ha : P a) : Weaves ok env P (Pure.pure a) := by
  intro s hs
  refine ⟨hs, fun b hb => ?_⟩
  rw [← Except.ok.inj hb]
  exact ha

theorem fail (e : GenError) : Weaves ok env P (Emit.fail e) :=
  fun _ hs => ⟨hs, fun _ ha => by cases ha⟩

theorem bind (hx : Weaves ok env P x) {f : α → Emit Node β}
    (hf : ∀ a, P a → Weaves ok env Q (f a)) : Weaves ok env Q (x >>= f) := by
  intro s hs
  obtain ⟨hs', hresult⟩ := hx s hs
  rw [bind_apply]
  revert hs' hresult
  rcases x env s with ⟨_ | a, s'⟩
  · intro hs' _
    exact ⟨hs', fun _ h => by cases h⟩
  · intro hs' hresult
    exact hf a (hresult a rfl) s' hs'

theorem map (hx : Weaves ok env P x) {f : α → β} (hf : ∀ a, P a → Q (f a)) :
    Weaves ok env Q (f <$> x) := by
  rw [map_eq_pure_bind]
  exact hx.bind fun a ha => .pure (hf a ha)

theorem get : Weaves ok env (State.Woven ok) Emit.get := by
  intro s hs
  refine ⟨hs, fun a ha => ?_⟩
  rw [← Except.ok.inj ha]
  exact hs

theorem env_eq : Weaves ok env (· = env) Emit.env :=
  fun _ hs => ⟨hs, fun _ ha => (Except.ok.inj ha).symm⟩

theorem modify {f : State → State} (hf : ∀ s, s.Woven ok → (f s).Woven ok) :
    Weaves ok env (fun _ => True) (Emit.modify f) :=
  fun s hs => ⟨hf s hs, fun _ _ => trivial⟩

theorem note (e : Event) : Weaves ok env (fun _ => True) (Emit.note e) :=
  .modify fun _ hs => { hs with }

theorem refer (member : Added) : Weaves ok env (fun _ => True) (Emit.refer member : Emit Node Unit) :=
  fun _ hs => ⟨{ hs with }, fun _ _ => trivial⟩

theorem attempt (hx : Weaves ok env P x) :
    Weaves ok env (fun result => ∀ a, result = .ok a → P a) (Emit.attempt x) := by
  intro s hs
  obtain ⟨hs', hresult⟩ := hx s hs
  refine ⟨hs', fun result heq => ?_⟩
  rw [← Except.ok.inj heq]
  exact hresult

theorem ofExcept {result : Except GenError α} (h : ∀ a, result = .ok a → P a) :
    Weaves ok env P (Emit.ofExcept result) := by
  cases result with
  | error e => exact .fail e
  | ok a => exact .pure (h a rfl)

theorem demand (condition : Bool) (what : Misuse) :
    Weaves ok env (fun _ => True) (Emit.demand condition what) := by
  unfold Emit.demand
  split
  · exact .pure trivial
  · exact .fail _

theorem unresolved (what : Missing) : Weaves ok env P (Emit.unresolved what) :=
  .bind .get fun _ _ => .fail _

/-! ## Brackets -/

section

variable (hx : Weaves ok env P x)
include hx

theorem withPlace {place : Place}
    (hplace : Hashless place.returnType.strings) : Weaves ok env P (Emit.withPlace place x) := by
  refine .bind .get fun before hbefore => .bind (.modify fun s hs => ?_) fun _ _ =>
    .bind hx.attempt fun result hresult => .bind (.modify fun s hs => ?_) fun _ _ =>
      .ofExcept hresult
  · exact { hs with returnType := hplace }
  · exact { hs with returnType := hbefore.returnType }

theorem atPlace {change : Place → Place}
    (hchange : ∀ place, Hashless place.returnType.strings →
      Hashless (change place).returnType.strings) : Weaves ok env P (Emit.atPlace change x) :=
  .bind .get fun _ hs => hx.withPlace (hchange _ hs.returnType)

theorem withScope (id : NodeId) : Weaves ok env P (Emit.withScope id x) := by
  refine .bind (.modify fun s hs => ?_) fun _ _ => .bind hx.attempt fun _ hresult =>
    .bind (.modify fun s hs => ?_) fun _ _ => .ofExcept hresult
  · exact { hs with }
  · exact { hs with }

theorem withReading (id : NodeId) (port : UInt16) :
    Weaves ok env P (Emit.withReading id port x) := by
  refine .bind (.modify fun s hs => ?_) fun _ _ => .bind hx.attempt fun _ hresult =>
    .bind (.modify fun s hs => ?_) fun _ _ => .ofExcept hresult
  · exact { hs with }
  · exact { hs with }

end

/-- What was put around a statement is woven like the statement itself. -/
theorem withSplice {x : Emit Node String} (hx : Weaves ok env (Woven ok) x) :
    Weaves ok env (Woven ok) (Emit.withSplice x) := by
  refine .bind (.modify fun s hs => ?_) fun _ _ => .bind hx.attempt fun result hresult =>
    .bind .get fun inner hinner => .bind (.modify fun s hs => ?_) fun _ _ =>
      .bind (.ofExcept hresult) fun text htext => .pure (.lines fun part hpart => ?_)
  · refine { hs with splices := forall_mem_cons.2 ⟨fun _ h => ?_, hs.splices⟩ }
    exact absurd h not_mem_nil
  · exact { hs with splices := fun splice hmem => hs.splices splice (mem_of_mem_tail hmem) }
  · have haround (text : String) (h : text ∈ (inner.splices.headD {}).enter ++
        (inner.splices.headD {}).exit) : Woven ok text := by
      cases hsplices : inner.splices with
      | nil =>
        rw [hsplices] at h
        exact absurd h not_mem_nil
      | cons splice rest =>
        rw [hsplices] at h
        exact hinner.splices splice (by rw [hsplices]; exact mem_cons_self) text h
    rw [mem_append, mem_append, mem_singleton, mem_reverse] at hpart
    obtain (hpart | rfl) | hpart := hpart
    · exact haround part (mem_append_left _ hpart)
    · exact htext
    · exact haround part (mem_append_right _ hpart)

theorem splice {enter : String} (henter : Woven ok enter) {exit : Option String}
    (hexit : ∀ text ∈ exit, Woven ok text) :
    Weaves ok env (fun _ => True) (Emit.splice enter exit : Emit Node Unit) := by
  refine .bind .get fun inner hinner => ?_
  split
  · exact .fail _
  · rename_i top rest hsplices
    refine .modify fun s hs => { hs with splices := ?_ }
    have htop := hinner.splices top (by rw [hsplices]; exact mem_cons_self)
    refine forall_mem_cons.2 ⟨fun text htext => ?_, fun splice hmem =>
      hinner.splices splice (by rw [hsplices]; exact mem_cons_of_mem _ hmem)⟩
    simp only [mem_append, mem_singleton, Option.mem_toList] at htext htop
    obtain (h | rfl) | (h | h) := htext
    · exact htop text (.inl h)
    · exact henter
    · exact htop text (.inr h)
    · exact hexit text h

theorem inScope (id : NodeId) : Weaves ok env (fun _ => True) (Emit.inScope id : Emit Node Bool) :=
  .bind .get fun _ _ => .pure trivial

/-! ## Names, types and literals -/

theorem typeText {type : Ty} (h : Hashless type.strings) :
    Weaves ok env ('#' ∉ ·.toList) (Emit.typeText type : Emit Node String) := by
  intro s hs
  obtain ⟨htext, himports⟩ := type.hashless_text h s.imports hs.imports
  refine ⟨{ hs with imports := himports }, fun text heq => ?_⟩
  rw [← Except.ok.inj heq]
  exact htext

theorem typeTexts {types : List Ty} (h : Hashless (Ty.stringsOf types)) :
    Weaves ok env Hashless (Emit.typeTexts types : Emit Node (List String)) := by
  intro s hs
  obtain ⟨htexts, himports⟩ := Ty.hashless_texts types h s.imports hs.imports
  refine ⟨{ hs with imports := himports }, fun texts heq => ?_⟩
  rw [← Except.ok.inj heq]
  exact htexts

theorem literalText {l : Literal} (h : Hashless l.strings) :
    Weaves ok env (Woven ok) (Emit.literalText l : Emit Node String) := by
  intro s hs
  obtain ⟨htext, himports⟩ := @Literal.woven_text ok l h s.imports hs.imports
  refine ⟨{ hs with imports := himports }, fun text heq => ?_⟩
  rw [← Except.ok.inj heq]
  exact htext

theorem literalTexts {ls : List Literal} (h : Hashless (Literal.stringsOf ls)) :
    Weaves ok env (fun texts => ∀ text ∈ texts, Woven ok text)
      (Emit.literalTexts ls : Emit Node (List String)) := by
  intro s hs
  obtain ⟨htexts, himports⟩ := @Literal.woven_texts ok ls h s.imports hs.imports
  refine ⟨{ hs with imports := himports }, fun texts heq => ?_⟩
  rw [← Except.ok.inj heq]
  exact htexts

theorem generateName (text : String) :
    Weaves ok env ('#' ∉ ·.toList) (Emit.generateName text : Emit Node String) := by
  intro s hs
  refine ⟨{ hs with names := hs.names.generate text }, fun name heq => ?_⟩
  rw [← Except.ok.inj heq]
  exact s.names.not_hash_generate text

theorem nameFor (owner : SymbolKey) (text : String) :
    Weaves ok env ('#' ∉ ·.toList) (Emit.nameFor owner text : Emit Node String) := by
  intro s hs
  obtain ⟨hname, hnames⟩ := hs.names.nameFor owner text
  refine ⟨{ hs with names := hnames }, fun name heq => ?_⟩
  rw [← Except.ok.inj heq]
  exact hname

theorem temporaryName : Weaves ok env ('#' ∉ ·.toList) (Emit.temporaryName : Emit Node String) :=
  .bind (.generateName _) fun _ hname => .bind (.note _) fun _ _ => .pure hname

theorem declName? (decl : DeclId) :
    Weaves ok env (fun name => Hashless name.toList)
      (Emit.declName? decl : Emit Node (Option String)) := by
  refine .bind .get fun s hs => .pure fun name hname => ?_
  exact hs.symbols.declNames name
    (mem_map_of_mem (f := Prod.snd) (mem_of_lookup (Option.mem_toList.1 hname)))

theorem runtime : Weaves ok env ('#' ∉ ·.toList) (Emit.runtime : Emit Node String) := by
  have hname : '#' ∉ runtimeProperty.toList := by decide
  refine .bind (.modify fun s hs => ?_) fun _ _ => .bind (.refer _) fun _ _ => .pure hname
  exact { hs with }

/-! ## Classification -/

theorem isState (id : NodeId) : Weaves ok env (fun _ => True) (Emit.isState id : Emit Node Bool) :=
  fun _ hs => ⟨{ hs with }, fun _ _ => trivial⟩

theorem sealNodes : Weaves ok env (fun _ => True) (Emit.sealNodes : Emit Node Unit) :=
  fun _ hs => ⟨{ hs with }, fun _ _ => trivial⟩

/-! ## Variables -/

theorem registerVariable {v : VariableSymbol} (hv : Hashless v.strings)
    (hmarker : ∀ id ∈ v.marker, ok id) :
    Weaves ok env (fun _ => True) (Emit.registerVariable v : Emit Node VariableHandle) := by
  intro s hs
  refine ⟨{ hs with names := ?_, symbols := hs.symbols.registerVariable s.names hv hmarker },
    fun _ _ => trivial⟩
  change (s.symbols.registerVariable s.names v).2.2.Hashless
  unfold SymbolTable.registerVariable
  split
  · exact hs.names
  · exact hs.names.generate v.name

theorem variableName (handle : VariableHandle) :
    Weaves ok env ('#' ∉ ·.toList) (Emit.variableName handle : Emit Node String) := by
  refine .bind .get fun s hs => ?_
  split
  · exact .unresolved _
  · rename_i name symbols huse
    obtain ⟨hname, hsymbols⟩ := hs.symbols.useVariable huse
    refine .bind (.modify fun s hs => ?_) fun _ _ => .bind (.note _) fun _ _ => .pure hname
    exact { hs with symbols := hsymbols }

theorem keyedVariable (key : SymbolKey) (what : Missing) :
    Weaves ok env ('#' ∉ ·.toList) (Emit.keyedVariable key what : Emit Node String) := by
  refine .bind .get fun s _ => ?_
  split
  · exact .unresolved _
  · exact .variableName _

theorem nodeVariable (id : NodeId) :
    Weaves ok env ('#' ∉ ·.toList) (Emit.nodeVariable id : Emit Node String) :=
  .keyedVariable _ _

/-- A parameter comes from a list of hash-free names; outside its body it is copied to a field. -/
theorem parameter (owner : DeclId) (index : UInt64) :
    Weaves ok env ('#' ∉ ·.toList) (Emit.parameter owner index : Emit Node String) := by
  refine .bind .get fun s hs => ?_
  split
  · exact .unresolved _
  · rename_i name type hparam
    obtain ⟨hname, htype⟩ := hs.params _ (mem_of_lookup hparam)
    split
    · exact .unresolved _
    · split
      · exact .bind (.note _) fun _ _ => .pure hname
      · refine .bind (.registerVariable ?_ ?_) fun handle _ => .bind .get fun s' hs' => ?_
        · simp [VariableSymbol.strings, hname, htype]
        · exact fun _ h => absurd h (Option.not_mem_none _)
        · have hfield : '#' ∉ (((s'.symbols.variableAt? handle).map VariableSymbol.name).getD
              name).toList := by
            cases hv : s'.symbols.variableAt? handle with
            | none => exact hname
            | some v => exact hs'.symbols.variableAt? hv
          refine .bind (.modify fun s hs => ?_) fun _ _ => .bind (.note _) fun _ _ =>
            .bind (.refer _) fun _ _ => .bind (.note _) fun _ _ => .pure hfield
          refine { hs with symbols := hs.symbols.contribute _ (.plain _ ?_) }
          simp [hname, hfield]

theorem variableRef (ref : VarRef) :
    Weaves ok env ('#' ∉ ·.toList) (Emit.variableRef ref : Emit Node String) := by
  cases ref with
  | field decl | localOf function decl => exact .keyedVariable _ _
  | parameter owner index => exact .parameter owner index
  | setterValue =>
    have hvalue : '#' ∉ "value".toList := by decide
    exact .bind .get fun _ _ => .bind (.demand _ _) fun _ _ => .pure hvalue

end Weaves

end Emit

end FlowClass
