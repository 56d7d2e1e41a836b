import FlowClass.Proofs.Program.Finishing
import FlowClass.Proofs.Program.Visibility

/-!
# Whose code a body holds

In a pass that succeeds, the text of every rendered body is the code of its owner: of a declaration or
an accessor it is what its entry point came to, and of a shared node it is the chain of the node.
Only a shared node and a declaration that merge have one body between them, which holds the code of
one of the two; the code of the other is lost (`bodies_hold_own_code`).

No body has a text before emission. Then the entry points are emitted one after the other, and each
keeps all texts the code of their owners (`OwnCode.entry`).
-/

namespace FlowClass

open List Emit Generation

variable {env : Env Node} {body : BodyId} {s : State} {text : String} {s' : State}

/-! ## Code -/

/-- What has the body that an entry point fills. -/
def EntryPoint.bodyOwner (e : EntryPoint) : BodyOwner :=
  if e.kind = .getter ∨ e.kind = .setter then .accessor e.owner e.kind else .decl e.owner

theorem EntryPoint.bodyOf?_bodyOwner (e : EntryPoint) (s : State) :
    s.bodyOf? e.bodyOwner = entryBody? s e := by
  obtain ⟨owner, kind, node⟩ := e
  cases kind <;> rfl

theorem EntryPoint.bodyOwner_ne_shared (e : EntryPoint) (id : NodeId) : e.bodyOwner ≠ .shared id := by
  unfold bodyOwner
  split <;> simp

/-- An entry point comes to the text: its chain does, after the entry points before it. -/
def Emit.EntryGives (env : Env Node) (base : State) (e : EntryPoint) (body : BodyId)
    (text : String) : Prop :=
  ∃ before after s decl place s', env.graph.classDecl.entryPoints = before ++ e :: after ∧
    before.forM entry env base = (.ok (), s) ∧ env.graph.classDecl.get e.owner = .ok decl ∧
    entryPlace? env.graph.classDecl e body decl = some place ∧
    chainAt env.depth false (some e.node) env { s with place } = (.ok text, s')

/-- The text is the code of an owner that has the body: an entry point came to it after those before
it, or the chain of a shared node from where the node was reached. What was known there is known
still. -/
inductive BodyOwner.Code (env : Env Node) (base s : State) (body : BodyId) (text : String)
    (o : BodyOwner) : Prop where
  | entry {e : EntryPoint} {decl : Decl} {place : Place} (ho : e.bodyOwner = o)
    (hbody : entryBody? s e = some body) (hdecl : env.graph.classDecl.get e.owner = .ok decl)
    (hplace : entryPlace? env.graph.classDecl e body decl = some place)
    (hgives : EntryGives env base e body text) (hran : Ran env base s false e.node place text)
  | shared {id : NodeId} (ho : .shared id = o) (hran : RanShared env base s id body text)

namespace BodyOwner.Code

variable {base : State} {o : BodyOwner} (h : o.Code env base s body text)
include h

theorem mono (hkept : s.Kept s') : o.Code env base s' body text := by
  cases h with
  | entry ho hbody hdecl hplace hgives hran =>
    exact .entry ho ((entryBody?_of_keeps hkept.keeps _).trans hbody) hdecl hplace hgives (hran.mono hkept)
  | shared ho hran => exact .shared ho (hran.mono hkept)

theorem bodyOf? : s.bodyOf? o = some body := by
  cases h with
  | entry ho hbody _ _ _ _ => exact ho ▸ (EntryPoint.bodyOf?_bodyOwner _ s).trans hbody
  | shared ho hran =>
    subst ho
    obtain ⟨m, _, hm, hsame, _⟩ := hran
    exact State.bodyOf?_shared.2 ⟨m, hm, hsame⟩

end BodyOwner.Code

/-! ## Before any emission -/

/-- No declaration gives a text to a body. -/
theorem Declaring.bodyText? {c : ClassDecl} (h : Declaring c s s') (body : BodyId) :
    s'.bodyText? body = s.bodyText? body := by
  have hvariable (v : VariableSymbol) : (s.withVariable v).bodyText? body = s.bodyText? body := by
    obtain ⟨_, _, _, hbodies, _⟩ := s.symbols.registerVariable_same s.names v
    exact State.bodyText?_append (hbodies.trans (append_nil _).symm) (by simp) body
  cases h with
  | method hdecl hnew hbase hstatic hrun => exact State.bodyText?_registerMethod hrun body
  | property hp hnew =>
    exact State.bodyText?_append rfl (fun b hb => by rw [eq_of_mem_replicate hb]) body
  | constructor hk hnew params => exact State.bodyText?_append rfl (by simp) body
  | param owner index p => rfl
  | classify classifier => rfl
  | _ => exact hvariable _

/-- When the members are entered, no body has a text. -/
theorem State.bodyText?_of_prepare (hids : env.graph.classDecl.declIds.Nodup)
    (hrun : prepare env (State.initial env) = (.ok (), s)) (body : BodyId) :
    s.bodyText? body = none := by
  have hsteps := (exists_declaring hids hrun).steps
  clear hrun
  induction hsteps with
  | refl =>
    refine Option.bind_eq_none_iff.2 fun b hb => ?_
    have hmem : b ∈ [({} : Body)] := mem_of_getElem? hb
    rw [mem_singleton.1 hmem]
  | tail _ hstep ih => exact (hstep.bodyText? body).trans ih

/-! ## Entry points -/

/-- What is done for the rest of a list is done after what succeeded for the first part. -/
theorem Emit.forM_append_of_ok {α : Type} {f : α → Emit Node Unit} {l : List α}
    (h : l.forM f env s = (.ok (), s')) (l' : List α) :
    (l ++ l').forM f env s = l'.forM f env s' := by
  induction l generalizing s with
  | nil =>
    cases h
    rfl
  | cons a l ih =>
    obtain ⟨_, s₁, hfirst, hrest⟩ := bind_eq_ok_iff.1 h
    exact (bind_eq_of_ok hfirst).trans (ih hrest)

/-- All texts so far are the code of their owners. The entry points in `done` have been emitted. -/
structure OwnCode (env : Env Node) (base : State) (done : List EntryPoint) (s : State) : Prop where
  tenancy : Tenancy env base s
  housed : Housed env.graph.classDecl s
  callable : Callable env base s
  emitted : ∀ body text, s.bodyText? body = some text →
    ∃ o : BodyOwner, o.Code env base s body text
  filled : ∀ e ∈ done, ∃ body text, s.bodyOf? e.bodyOwner = some body ∧
    s.bodyText? body = some text
  finished : ∀ id, (s.shared.lookup id).isSome = true → s.HasText id

namespace OwnCode

variable {env : Env Node} {base s s' : State} {done rest : List EntryPoint} {e : EntryPoint}

/-- Emission inside a body keeps what was there, and adds chains of shared nodes. -/
theorem moves (h : OwnCode env base done s) (hmoves : Moves env s s') (hfinished : s.Completes s') :
    OwnCode env base done s' where
  tenancy := h.tenancy.moves hmoves
  housed := (Builds.moves hmoves).housed h.housed
  callable := h.callable.moves hmoves
  emitted body text htext := by
    obtain hsame | ⟨id, text', htext', hran⟩ := hmoves.bodyText? h.callable body
    · obtain ⟨o, ho⟩ := h.emitted body text (hsame ▸ htext)
      exact ⟨o, ho.mono hmoves.kept⟩
    · cases htext.symm.trans htext'
      exact ⟨.shared id, .shared rfl hran⟩
  filled e he := by
    obtain ⟨body, text, hbody, htext⟩ := h.filled e he
    rw [EntryPoint.bodyOf?_bodyOwner, ← entryBody?_of_keeps hmoves.kept.keeps,
      ← EntryPoint.bodyOf?_bodyOwner] at hbody
    obtain hsame | ⟨_, text', htext', _⟩ := hmoves.bodyText? h.callable body
    · exact ⟨body, text, hbody, hsame.trans htext⟩
    · exact ⟨body, text', hbody, htext'⟩
  finished id hid := by
    cases hknown : s.shared.lookup id with
    | none => exact hfinished id hknown hid
    | some method =>
      exact (h.finished id (Option.isSome_iff_exists.2 ⟨_, hknown⟩)).moves hmoves h.callable

theorem atPlace (h : OwnCode env base done s) (place : Place) :
    OwnCode env base done { s with place } := by
  refine ⟨h.tenancy.around _ _ _, (Builds.around s _ _ _).housed h.housed,
    h.callable.around _ _ _ _ _, fun body text htext => ?_, h.filled, h.finished⟩
  obtain ⟨o, ho⟩ := h.emitted body text htext
  exact ⟨o, ho.mono { State.Kept.refl s with }⟩

/-- A body of an owner is given its code. -/
theorem giveText (h : OwnCode env base done s) (hcode : e.bodyOwner.Code env base s body text)
    (hlt : body.index < s.symbols.bodies.length) :
    OwnCode env base (done ++ [e]) (s.giveText body text) where
  tenancy := h.tenancy.giveText body text
  housed :=
    have hbuilds : Builds env.graph.classDecl s (s.giveText body text) :=
      .same (State.length_giveText text) rfl rfl rfl
    hbuilds.housed h.housed
  callable := h.callable.same rfl rfl (fun h => h) rfl rfl rfl
  emitted body' text' htext := by
    have hstays {o : BodyOwner} {body' : BodyId} {text' : String}
        (ho : o.Code env base s body' text') :
        o.Code env base (s.giveText body text) body' text' :=
      ho.mono (.giveText s body text)
    obtain hsame | ⟨rfl, hgiven⟩ := s.bodyText_giveText_or body' body text
    · obtain ⟨o, ho⟩ := h.emitted body' text' (hsame ▸ htext)
      exact ⟨o, hstays ho⟩
    · cases htext.symm.trans hgiven
      exact ⟨e.bodyOwner, hstays hcode⟩
  filled := by
    refine forall_mem_append.2 ⟨fun e' he' => ?_, forall_mem_singleton.2 ?_⟩
    · obtain ⟨body', text', hbody', htext'⟩ := h.filled e' he'
      obtain hsame | ⟨_, hgiven⟩ := s.bodyText_giveText_or body' body text
      · exact ⟨body', text', hbody', hsame.trans htext'⟩
      · exact ⟨body', text, hbody', hgiven⟩
    · exact ⟨body, text, hcode.bodyOf?, State.bodyText_giveText_self text hlt⟩
  finished id hid := (h.finished id hid).giveText s.place body text

/-- One entry point: its chain is emitted at its place, and is the code of its body. -/
theorem entry (hdeclared : Declared env.graph.classDecl base) (h : OwnCode env base done s)
    (hentries : env.graph.classDecl.entryPoints = done ++ e :: rest)
    (hdone : done.forM entry env base = (.ok (), s)) (hrun : entry e env s = (.ok (), s'))
    (hregular : s'.Regular) : OwnCode env base (done ++ [e]) s' := by
  obtain ⟨body, decl, place, text, s₁, hbody, hdecl, hplace, hchain, rfl⟩ := entry_ok hrun
  have hfinishing : Emit.Finishing env base (chainAt env.depth false (some e.node)) :=
    ((finishing env base).level env.depth).2 false (some e.node)
  have hplaced := h.atPlace place
  have hmoves := hfinishing.1 { s with place } hplaced.callable.frozen
  have hcompletes := hfinishing.2 { s with place } hplaced.callable hplaced.housed
  rw [hchain] at hmoves hcompletes
  have hemitted := hplaced.moves hmoves
    (hcompletes ⟨hregular.uncut, hregular.onward⟩ fun e he => by cases he)
  refine (hemitted.atPlace s.place).giveText (.entry rfl ?_ hdecl hplace
    ⟨done, rest, s, decl, place, s₁, hentries, hdone, hdecl, hplace, hchain⟩
    ⟨env.depth, _, s₁, hplaced.callable, rfl, hchain, { State.Kept.refl s₁ with }⟩) ?_
  · exact (entryBody?_of_keeps hmoves.kept.keeps e).trans hbody
  · rw [entryBody?_of_keeps h.tenancy.keeps] at hbody
    exact (hdeclared.entryBody_lt hbody).trans_le hemitted.tenancy.longer

/-- By the entry points that are left. -/
theorem entries (hdeclared : Declared env.graph.classDecl base) (h : OwnCode env base done s)
    (hentries : env.graph.classDecl.entryPoints = done ++ rest)
    (hdone : done.forM Emit.entry env base = (.ok (), s))
    (hrun : rest.forM Emit.entry env s = (.ok (), s')) (hregular : s'.Regular) :
    OwnCode env base env.graph.classDecl.entryPoints s' := by
  induction rest generalizing done s with
  | nil =>
    cases hrun
    rw [hentries, append_nil]
    exact h
  | cons e rest ih =>
    obtain ⟨_, s₁, hfirst, hothers⟩ := bind_eq_ok_iff.1 hrun
    have hentries' : env.graph.classDecl.entryPoints = (done ++ [e]) ++ rest := by
      rw [hentries, append_assoc]
      rfl
    have hdone' : (done ++ [e]).forM Emit.entry env base = (.ok (), s₁) := by
      rw [forM_append_of_ok hdone]
      exact bind_eq_of_ok hfirst
    have hlater : Emit.Fills env env.sealed (rest.forM Emit.entry) := Emit.fills_entries fun e' he' =>
      hentries' ▸ mem_append_right _ he'
    have hframe := fills_entry (hentries ▸ mem_append_right _ mem_cons_self) s h.callable.frozen
    rw [hfirst] at hframe
    have hsteps := hlater s₁
      ((congrArg Classifier.frozen (Filling.kept hframe).classifier).trans h.callable.frozen)
    rw [hothers] at hsteps
    have hown := h.entry hdeclared hentries hdone hfirst (hregular.before (Filling.kept hsteps))
    exact ih hown hentries' hdone' hothers

end OwnCode

/-! ## Rendered bodies -/

/-- The texts of members are rendered. -/
theorem State.mem_rendered (hbody : body ∈ s.symbols.memberBodies.map Prod.fst)
    (htext : s.bodyText? body = some text) : ∃ type, (body, text, type) ∈ s.rendered := by
  have hcode : Assembly.bodyText s.symbols body = text := by
    have hsome : (s.symbols.body? body).bind Body.text = some text := htext
    rw [Assembly.bodyText, hsome]
    rfl
  rw [SymbolTable.map_memberBodies, mem_append, mem_append] at hbody
  subst hcode
  unfold State.rendered
  obtain (hmethod | hconstructor) | hproperty := hbody
  · obtain ⟨m, hm, rfl⟩ := mem_map.1 hmethod
    exact ⟨m.returnType, mem_append_left _ (mem_append_left _ (mem_append_left _
      (mem_map.2 ⟨m, hm, rfl⟩)))⟩
  · obtain ⟨k, hk, rfl⟩ := mem_map.1 hconstructor
    exact ⟨.void, mem_append_left _ (mem_append_left _ (mem_append_right _
      (mem_map.2 ⟨k, hk, rfl⟩)))⟩
  · obtain ⟨p, hp, hown⟩ := mem_flatMap.1 hproperty
    obtain hgetter | hsetter := mem_append.1 hown
    · exact ⟨p.type, mem_append_left _ (mem_append_right _ (mem_flatMap.2
        ⟨p, hp, mem_append_left _ (mem_map.2 ⟨body, hgetter, rfl⟩)⟩))⟩
    · exact ⟨.void, mem_append_left _ (mem_append_right _ (mem_flatMap.2
        ⟨p, hp, mem_append_right _ (mem_map.2 ⟨body, hsetter, rfl⟩)⟩))⟩

/-- Every body but those of units belongs to a member. -/
theorem OwnCode.mem_memberBodies {base : State} {done : List EntryPoint}
    (hdeclared : Declared env.graph.classDecl base) (h : OwnCode env base done s) {o : BodyOwner}
    (ho : ∀ id, o ≠ .unit id) (hbody : s.bodyOf? o = some body) :
    body ∈ s.symbols.memberBodies.map Prod.fst := by
  have hold (hkind : o.IsDeclared) (hmem : body ∈ s.bodies.map Prod.fst) :
      body ∈ s.symbols.memberBodies.map Prod.fst := by
    rw [State.map_bodies] at hmem
    refine (mem_append.1 hmem).resolve_right fun hunit => ?_
    have hlow := h.tenancy.declared_lt hdeclared hkind hbody
    have hhigh := h.tenancy.units body hunit
    omega
  cases o with
  | unit id => exact absurd rfl (ho id)
  | shared id =>
    obtain ⟨m, hm, rfl⟩ := State.bodyOf?_shared.1 hbody
    rw [SymbolTable.map_memberBodies]
    exact mem_append_left _ (mem_append_left _
      (mem_map_of_mem (h.tenancy.methodFor?_eq_some hm).1))
  | decl id =>
    have hmem : (id, body) ∈ s.symbols.declBodies := h.tenancy.keeps.bodies ▸ h.tenancy.decl_mem hbody
    obtain ⟨decl, _, hin⟩ := h.housed.decls _ hmem
    exact hold (.inl ⟨id, rfl⟩) (mem_map_of_mem hin)
  | accessor id kind =>
    have hmem : ((id, kind), body) ∈ s.accessors :=
      h.tenancy.keeps.accessors ▸ h.tenancy.accessor_mem hbody
    obtain ⟨decl, _, hin⟩ := h.housed.accessors _ hmem
    exact hold (.inr ⟨id, kind, rfl⟩) (mem_map_of_mem hin)

/-! ## A whole pass -/

section Pass

variable {graph : Graph Node} {config : Config} {gen : Generation Node} {base s : State}
  (hstart : start graph config = .ok gen)
  (hprepare : prepare gen.env gen.state = (.ok (), base))
include hstart hprepare

theorem Generation.prepare_initial :
    prepare gen.env (State.initial gen.env) = (.ok (), base) :=
  (start_eq hstart).2.2.2 ▸ hprepare

theorem Generation.tenancy_prepared :
    Tenancy gen.env base base ∧ Housed gen.env.graph.classDecl base := by
  have hids := nodup_declIds hstart
  have hinitial := prepare_initial hstart hprepare
  have hprepared := prepared hstart hprepare
  refine ⟨.start (congrArg Ledger.units hprepared.ledger) (Declared.prepared hids hinitial), ?_⟩
  have hsteps := (exists_declaring hids hinitial).steps
  clear hprepare hinitial hprepared
  induction hsteps with
  | refl => exact Housed.reserved gen.env
  | tail _ hstep ih => exact (Builds.declaring hids hstep).housed ih

/-- Whether the pass succeeds or not, members have bodies of their own. -/
theorem Generation.tenancy {result : Except GenError Unit}
    (hrun : bodies gen.env gen.state = (result, s)) :
    Tenancy gen.env base s ∧ Housed gen.env.graph.classDecl s := by
  have hentries : (result, s) =
      gen.env.graph.classDecl.entryPoints.forM entry gen.env base := by
    rw [← hrun, bodies, bind_eq_of_ok hprepare, env_bind]
  have hfills : Emit.Fills gen.env gen.env.sealed
      (gen.env.graph.classDecl.entryPoints.forM entry) := fills_entries fun _ he => he
  have hsteps := hfills base (prepared hstart hprepare).frozen
  rw [← hentries] at hsteps
  have hbefore := tenancy_prepared hstart hprepare
  clear hrun hentries hfills
  dsimp only at hsteps
  induction hsteps with
  | refl => exact hbefore
  | tail _ hstep ih => exact ⟨.filling hstep ih.1, (Builds.filling hstep).housed ih.2⟩

/-- A pass that succeeds ends with all texts the code of their owners. -/
theorem Generation.ownCode (hrun : bodies gen.env gen.state = (.ok (), s)) :
    OwnCode gen.env base gen.env.graph.classDecl.entryPoints s := by
  have hids := nodup_declIds hstart
  have hregular : s.Regular := by
    have hcontained := contained hstart
    have huncut := (emission_never_cut_off hstart).2.2.1
    rw [hrun] at hcontained huncut
    refine ⟨huncut, fun d hd id => ?_⟩
    obtain ⟨e, ⟨hordinary, _⟩, htells⟩ := hcontained.reports d hd
    exact GenError.not_tells_of_isOrdinary hordinary htells (.inr ⟨id, rfl⟩)
  rw [bodies, bind_eq_of_ok hprepare, env_bind] at hrun
  have hprepared := prepared hstart hprepare
  have hinitial := prepare_initial hstart hprepare
  have hbefore : OwnCode gen.env base [] base := by
    obtain ⟨htenancy, hhoused⟩ := tenancy_prepared hstart hprepare
    refine ⟨htenancy, hhoused, .start hprepared (Declared.prepared hids hinitial),
      fun body text htext => ?_, forall_mem_nil _, fun id hid => ?_⟩
    · rw [State.bodyText?_of_prepare hids hinitial] at htext
      cases htext
    · rw [show base.shared = [] from congrArg Ledger.shared hprepared.ledger] at hid
      cases hid
  exact hbefore.entries (Declared.prepared hids hinitial) rfl rfl hrun hregular

/-- Two owners have one body exactly if they merge. If the pass succeeds, what is rendered for an entry
point or a shared node is its own code, or the code of the one that it merges with. -/
theorem bodies_hold_own_code {result : Except GenError Unit}
    (hrun : Emit.bodies gen.env gen.state = (result, s)) :
    (∀ o o' body body', s.bodyOf? o = some body → s.bodyOf? o' = some body' →
      (body = body' ↔ o = o' ∨ BodyOwner.Merged graph o o')) ∧
    (result = .ok () → ∀ o,
      (∃ e ∈ graph.classDecl.entryPoints, o = e.bodyOwner) ∨
        (∃ id, (s.shared.lookup id).isSome = true ∧ o = .shared id) →
      ∃ body o' text type, s.bodyOf? o = some body ∧ (o' = o ∨ BodyOwner.Merged graph o' o) ∧
        o'.Code gen.env base s body text ∧ (body, text, type) ∈ s.rendered) := by
  have hids := nodup_declIds hstart
  have hinitial := prepare_initial hstart hprepare
  have hdeclared := Declared.prepared hids hinitial
  have hentered := MethodsEntered.prepared hids hinitial
  obtain ⟨htenancy, hhoused⟩ := tenancy hstart hprepare hrun
  obtain rfl := (start_eq hstart).1
  refine ⟨fun o o' body body' hbody hbody' => ⟨?_, ?_⟩, fun hok o ho => ?_⟩
  · rintro rfl
    exact htenancy.owner_eq hdeclared hentered hhoused hbody hbody'
  · rintro (rfl | hmerged)
    · exact Option.some.inj (hbody.symm.trans hbody')
    · cases hmerged with
      | node h => exact htenancy.body_eq hentered hids h hbody hbody'
      | owner h => exact (htenancy.body_eq hentered hids h hbody' hbody).symm
  · subst hok
    have hown := ownCode hstart hprepare hrun
    have hknown : ∃ body text, s.bodyOf? o = some body ∧ s.bodyText? body = some text := by
      obtain ⟨e, he, rfl⟩ | ⟨id, hid, rfl⟩ := ho
      · exact hown.filled e he
      · obtain ⟨m, text, hm, htext⟩ := hown.finished id hid
        exact ⟨m.body, text, State.bodyOf?_shared.2 ⟨m, hm, rfl⟩, htext⟩
    have hnotUnit (id : NodeId) : o ≠ .unit id := by
      obtain ⟨e, _, rfl⟩ | ⟨_, _, rfl⟩ := ho
      · unfold EntryPoint.bodyOwner
        split <;> simp
      · simp
    obtain ⟨body, text, hbody, htext⟩ := hknown
    -- the text is the code of some owner, which has the same body
    obtain ⟨o', hcode⟩ := hown.emitted body text htext
    obtain ⟨type, hrendered⟩ :=
      State.mem_rendered (hown.mem_memberBodies hdeclared hnotUnit hbody) htext
    exact ⟨body, o', text, type, hbody,
      htenancy.owner_eq hdeclared hentered hhoused hcode.bodyOf? hbody, hcode, hrendered⟩

end Pass

/-- Two functions go on in the same node, and there is a third one. -/
def meetsBeside (third : String) : Graph Node where
  name := "C"
  classDecl :=
    { name := "C"
      functions :=
        [{ id := ⟨1⟩, name := "A", entry := some ⟨1⟩ }, { id := ⟨2⟩, name := "B", entry := some ⟨2⟩ },
          { id := ⟨3⟩, name := third, entry := some ⟨4⟩ }] }
  nodes :=
    [(⟨1⟩, .invoke (ownCall "P") (some ⟨3⟩)), (⟨2⟩, .invoke (ownCall "Q") (some ⟨3⟩)),
      (⟨3⟩, .invoke (ownCall "R") none), (⟨4⟩, .invoke (ownCall "S") none)]

/-- The shared node and the third function have bodies of their own, with their own code. -/
theorem besideOther_hold_own_code : ∃ gen base s body body' text text' type type',
    start (meetsBeside "D") {} = .ok gen ∧
    Emit.prepare gen.env gen.state = (.ok (), base) ∧
    Emit.bodies gen.env gen.state = (.ok (), s) ∧
    s.bodyOf? (.shared ⟨3⟩) = some body ∧ s.bodyOf? (.decl ⟨3⟩) = some body' ∧ body ≠ body' ∧
    (BodyOwner.shared ⟨3⟩).Code gen.env base s body text ∧ (body, text, type) ∈ s.rendered ∧
    (BodyOwner.decl ⟨3⟩).Code gen.env base s body' text' ∧ (body', text', type') ∈ s.rendered := by
  obtain ⟨gen, s, hstart, hrun, hshared⟩ : Generation.EndsWith (meetsBeside "D") {} fun _ s =>
      (s.shared.lookup ⟨3⟩).isSome = true := by decide +kernel
  obtain ⟨_, base, hprepare, _⟩ := Emit.bind_eq_ok_iff.1 hrun
  obtain ⟨hdistinct, hcode⟩ := bodies_hold_own_code hstart hprepare hrun
  -- the names that are made for nodes are those of no functions
  have hfree (id : NodeId) (owner : DeclId) : ¬ (meetsBeside "D").Merges id owner := by
    rintro ⟨n, hn, hmem⟩
    have hnames : ∀ node ∈ (meetsBeside "D").nodes, ∀ m ∈ (meetsBeside "D").classDecl.methods,
        m.2.1 ≠ node.2.methodBase node.1 := by decide +kernel
    exact hnames _ (Graph.mem_of_get? hn) _ hmem rfl
  have hentry : (⟨⟨3⟩, .function, ⟨4⟩⟩ : EntryPoint) ∈ (meetsBeside "D").classDecl.entryPoints := by
    decide +kernel
  obtain ⟨body, o, text, type, hbody, ho, hown, hrendered⟩ :=
    hcode rfl (.shared ⟨3⟩) (.inr ⟨⟨3⟩, hshared, rfl⟩)
  obtain ⟨body', o', text', type', hbody', ho', hown', hrendered'⟩ :=
    hcode rfl (.decl ⟨3⟩) (.inl ⟨_, hentry, rfl⟩)
  obtain rfl : o = .shared ⟨3⟩ := ho.resolve_right fun hmerged => by
    cases hmerged with
    | owner h => exact hfree _ _ h
  obtain rfl : o' = .decl ⟨3⟩ := ho'.resolve_right fun hmerged => by
    cases hmerged with
    | node h => exact hfree _ _ h
  refine ⟨gen, base, s, body, body', text, text', type, type', hstart, hprepare, hrun, hbody, hbody',
    fun heq => ?_, hown, hrendered, hown', hrendered'⟩
  obtain hsame | hmerged := (hdistinct _ _ _ _ hbody hbody').1 heq
  · cases hsame
  · cases hmerged with
    | node h => exact hfree _ _ h

/-- The methods if the third function has the name that is made for the node. -/
def takenNameMethods : List String :=
  ["private void A() \x7b\n    P();\n    Invoke_3();\n\x7d",
    "private void B() \x7b\n    Q();\n    Invoke_3();\n\x7d",
    "private void Invoke_3() \x7b\n    S();\n\x7d"]

/-- The node that is called `R` merges with the third function, and its code is lost. -/
theorem besideNamesake_loses_code : ∃ gen s body,
    start (meetsBeside "Invoke_3") { header := false } = .ok gen ∧
    Emit.bodies gen.env gen.state = (.ok (), s) ∧
    s.bodyOf? (.shared ⟨3⟩) = some body ∧ s.bodyOf? (.decl ⟨3⟩) = some body ∧
    s.bodyText? body = some "S();" ∧
    ((Assembly.parts gen.env.graph.classDecl gen.env.config s).run s.imports).1.methods =
      takenNameMethods := by
  obtain ⟨gen, s, hstart, hrun, hends⟩ : Generation.EndsWith (meetsBeside "Invoke_3")
      { header := false } fun gen s =>
      s.bodyOf? (.shared ⟨3⟩) = some ⟨3⟩ ∧ s.bodyOf? (.decl ⟨3⟩) = some ⟨3⟩ ∧
      s.bodyText? ⟨3⟩ = some "S();" ∧
      ((Assembly.parts gen.env.graph.classDecl gen.env.config s).run s.imports).1.methods =
        takenNameMethods := by decide +kernel
  exact ⟨gen, s, ⟨3⟩, hstart, hrun, hends⟩

end FlowClass
