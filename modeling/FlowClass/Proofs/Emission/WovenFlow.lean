import FlowClass.Proofs.Emission.Orderly
import FlowClass.Proofs.Emission.WovenTerms
import FlowClass.Proofs.Model.Declarations

/-!
# A whole pass weaves

Chains, outputs, units and shared methods weave at every depth, and so do the preparation of a class
and the bodies of its entry points. Markers carry the identities of nodes in the table and of
declarations of the class.
-/

namespace FlowClass

open List Option ClassDecl
open FlowClass.Graph (hashless_node hashless_class)

variable {chain : NodeId → Emit Node String} {id : NodeId} {e : EntryPoint}

/-- The graph and the configuration have no `#` in their strings, and the identities of the nodes in
the table and of the declarations of the class are allowed. -/
structure Env.Weavable (ok : MarkerId → Prop) (env : Env Node) : Prop where
  describes : env.table.Describes env.graph
  nodes : ∀ id ∈ env.table.ids, ok (.node id)
  decls : ∀ id ∈ env.graph.classDecl.declIds, ok (.decl id)
  graph : Hashless env.graph.strings
  config : Hashless env.config.strings

namespace Emit

/-- What hooks may ask for weaves, as long as they ask for nodes of the table. -/
structure WovenServices (ok : MarkerId → Prop) (env : Env Node) (services : Services Node) :
    Prop where
  flow : ∀ target, (∀ id, target = some id → Known env id) →
    Weaves ok env (Woven ok) (services.flow target)
  output : ∀ id port, Known env id → Weaves ok env (Woven ok) (services.output id port)
  slot : ∀ id, Known env id → Weaves ok env (fun _ => True) (services.slot id)

namespace Weaves

variable {ok : MarkerId → Prop} {env : Env Node} {α : Type}

/-! ## Failures -/

theorem recordFailure (id : NodeId) (e : GenError) :
    Weaves ok env (Woven ok) (Emit.recordFailure id e : Emit Node String) := by
  refine .bind .env_eq fun _ _ => .bind .get fun _ _ => .bind (.modify fun s hs => ?_) fun _ _ =>
    .pure (.placeholder _)
  exact { hs with }

/-- A failed node leaves a comment or fails; the state is woven either way. -/
theorem recover {x : Emit Node String} (hx : Weaves ok env (Woven ok) x) (id : NodeId) :
    Weaves ok env (Woven ok) (Emit.recover id x) := by
  refine .bind hx.attempt fun result hresult => ?_
  split
  · exact .pure (hresult _ rfl)
  · refine .bind .env_eq fun _ _ => ?_
    split
    · exact .recordFailure _ _
    · exact .bind .get fun _ _ => .fail _

theorem cutOff {P : α → Prop} : Weaves ok env P (Emit.cutOff : Emit Node α) :=
  .bind (.note _) fun _ _ => .fail _

/-! ## Units -/

theorem registerUnit (id : NodeId) :
    Weaves ok env (fun _ => True) (Emit.registerUnit id : Emit Node Nat) := by
  intro s hs
  obtain ⟨hunits, hsymbols⟩ := hs.units.register hs.symbols id
  exact ⟨{ hs with units := hunits, symbols := hsymbols }, fun _ _ => trivial⟩

theorem beginUnit (id : NodeId) :
    Weaves ok env (fun _ => True) (Emit.beginUnit id : Emit Node (Option BodyId)) := by
  intro s hs
  refine ⟨?_, fun _ _ => trivial⟩
  unfold Emit.beginUnit
  split
  · rename_i body units hbegin
    exact { hs with units := hs.units.begin hbegin }
  · exact hs

theorem finishUnit (id : NodeId) {text : String} (htext : Woven ok text) :
    Weaves ok env (fun _ => True) (Emit.finishUnit id text : Emit Node Unit) :=
  .modify fun _ hs => { hs with units := hs.units.finish id htext }

theorem emitUnit (hchain : Weaves ok env (Woven ok) (chain id)) (body : BodyId) :
    Weaves ok env (fun _ => True) (Emit.emitUnit chain id body) := by
  have hbody : Weaves ok env (Woven ok) (Emit.atPlace (Place.toUnit body) (chain id)) :=
    .atPlace hchain fun _ _ => hashless_nil
  refine .bind hbody.attempt fun result hresult => ?_
  split
  · exact .finishUnit id (hresult _ rfl)
  · -- a unit that fails is left empty
    exact .bind (.finishUnit id (.plain "" (by decide))) fun _ _ => .fail _

theorem unitSlot (hchain : Weaves ok env (Woven ok) (chain id)) :
    Weaves ok env (fun _ => True) (Emit.unitSlot chain id) := by
  refine .bind (.note _) fun _ _ => .bind (.isState id) fun _ _ => .bind (.demand _ _) fun _ _ =>
    .bind .get fun _ _ => .bind (.demand _ _) fun _ _ => .bind (.modify fun s hs => ?_) fun _ _ =>
      .bind (.registerUnit id) fun slot _ => .bind (.beginUnit id) fun started _ => ?_
  · exact { hs with }
  · split
    · exact .bind (.emitUnit hchain _) fun _ _ => .pure trivial
    · refine .bind (.modify fun s hs => ?_) fun _ _ => .pure trivial
      exact { hs with units := hs.units.noteReference id }

/-- The call that starts a unit has a slot in it, and the value of a degenerate one. -/
theorem startUnit {slot : NodeId → Emit Node Nat} (hslot : Weaves ok env (fun _ => True) (slot id)) :
    Weaves ok env (Woven ok) (Emit.startUnit slot id) := by
  refine .bind hslot fun slot _ => .bind .get fun s hs => .bind (.note _) fun _ _ => .pure ?_
  have hcall : Woven ok (runCall slot ((s.units.get? id).bind StateUnit.degenerate?)) := by
    cases hvalue : (s.units.get? id).bind StateUnit.degenerate? with
    | none => exact .slot (by decide) (by decide) slot
    | some value =>
      obtain ⟨u, hu, hdegenerate⟩ := bind_eq_some_iff.1 hvalue
      have htext := hs.units u (mem_of_find?_eq_some hu)
      have hyield : singleYield? u.text = some value := by
        unfold StateUnit.degenerate? at hdegenerate
        split at hdegenerate
        · exact hdegenerate
        · cases hdegenerate
      have hvalue := htext.yielded (yieldsOnly_of_singleYield? hyield)
      exact ((Woven.slot (by decide) (by decide) slot).append hvalue).append (.plain _ (by decide))
  split
  · exact hcall.between (by decide) (by decide)
  · exact hcall.append (.plain _ (by decide))

/-! ## Shared nodes -/

theorem registerShared (id : NodeId) (title : String) {returnType : Ty}
    (htype : Hashless returnType.strings) :
    Weaves ok env (fun method => '#' ∉ method.1.toList)
      (Emit.registerShared id title returnType : Emit Node (String × BodyId)) := by
  intro s hs
  unfold Emit.registerShared
  dsimp only
  split
  · exact ⟨hs, fun _ h => by cases h⟩
  · rename_i handle symbols names hrun
    have hsymbols : symbols.Woven ok := by
      refine hs.symbols.registerMethod ?_ (fun _ h => absurd h (not_mem_none _)) hrun
      simp [MethodSymbol.strings, htype]
    have hnames := hs.names.registerMethod hrun
    split
    · exact ⟨{ hs with symbols := hsymbols, names := hnames }, fun _ h => by cases h⟩
    · rename_i m hm
      have hname := hsymbols.method? hm
      refine ⟨{ hs with symbols := hsymbols, names := hnames, shared := ?_ }, fun method h => ?_⟩
      · exact forall_mem_cons.2 ⟨hname, hs.shared⟩
      · rw [← Except.ok.inj h]
        exact hname

theorem nodeAt (id : NodeId) :
    Weaves ok env (fun n => env.graph.get? id = some n) (Emit.nodeAt id : Emit Node Node) := by
  refine .bind .env_eq fun e he => ?_
  rw [he]
  unfold Graph.node
  cases hn : env.graph.get? id with
  | none => exact .fail _
  | some n => exact .pure rfl

theorem emitShared (hchain : Weaves ok env (Woven ok) (chain id)) {returnType : Ty}
    (htype : Hashless returnType.strings) :
    Weaves ok env ('#' ∉ ·.toList) (Emit.emitShared chain id returnType) := by
  refine .bind (.nodeAt id) fun n _ => .bind (.registerShared id _ htype) fun method hname =>
    .bind (.refer _) fun _ _ => .bind (.atPlace hchain fun _ _ => htype) fun text htext =>
      .bind (.modify fun s hs => ?_) fun _ _ => .pure hname
  exact { hs with symbols := hs.symbols.setBodyText _ htext }

theorem callShared (hchain : Weaves ok env (Woven ok) (chain id)) :
    Weaves ok env (Woven ok) (Emit.callShared chain id) := by
  refine .bind .get fun s hs => ?_
  have hname : Weaves ok env ('#' ∉ ·.toList)
      (Emit.sharedName chain id s.place.returnType) := by
    refine .bind .get fun s' hs' => ?_
    split
    · rename_i name type hlookup
      have hmem := mem_of_lookup hlookup
      exact .bind (.demand _ _) fun _ _ => .bind (.refer _) fun _ _ => .pure (hs'.shared _ hmem)
    · exact .emitShared hchain hs.returnType
  refine .bind hname fun name hname => .pure ?_
  split
  · exact .plain _ (by simp [Fragment.invoke, hname])
  · exact .plain _ (by simp [Fragment.returnValue, hname])

/-! ## Statements and outputs -/

section Nodes

variable (h : env.Weavable ok) {services : Services Node}
  (hservices : WovenServices ok env services)
include h hservices

theorem statement (hid : id ∈ env.table.ids) :
    Weaves ok env (Woven ok) (Emit.statement services id) := by
  refine .bind (.nodeAt id) fun n hn => .bind .get fun _ _ => .bind (.note _) fun _ _ => ?_
  have hcode : Weaves ok env (Woven ok) (n.code services id) :=
    .code (hashless_node h.graph hn) id
      (fun source hsource port => hservices.output source port
        (known_source h.describes hid hn hsource))
      (fun target htarget => hservices.slot target (known_reference h.describes hid hn htarget))
      fun target htarget => hservices.flow target (known_follows h.describes hid hn (.inl htarget))
  exact .bind (.withSplice hcode) fun text htext => .bind .env_eq fun _ _ =>
    .pure (htext.mark (h.nodes id hid) _)

theorem value (hid : id ∈ env.table.ids) {n : Node} (hn : env.graph.get? id = some n)
    (port : UInt16) : Weaves ok env (Woven ok) (n.value services id port) := by
  unfold Node.value
  split
  · refine .mainValue (hashless_node h.graph hn) id
      (fun source hsource port => hservices.output source port
        (known_source h.describes hid hn hsource))
      (fun target htarget => hservices.slot target (known_reference h.describes hid hn htarget))
      (fun target hbody => ?_) (hservices.flow none fun _ hnone => by cases hnone)
    refine hservices.flow (some target) fun y hy => ?_
    rw [← some.inj hy]
    exact known_lambdaBody h.describes hid hn hbody
  · exact .otherValue n id port

theorem readOutput (hid : Known env id) (port : UInt16) :
    Weaves ok env (Woven ok) (Emit.readOutput services id port) := by
  refine .bind .get fun s _ => ?_
  split
  · exact .fail _
  · refine .bind .env_eq fun e he => ?_
    rw [he]
    cases hn : env.graph.get? id with
    | none => exact .unresolved _
    | some n =>
      have hid : id ∈ env.table.ids := hid (by simp [Graph.contains, hn])
      refine .bind .get fun _ _ => .bind (.note _) fun _ _ =>
        .bind (.withReading (.value h hservices hid hn port) id port) fun text htext =>
          .bind .env_eq fun _ _ => .pure (htext.mark (h.nodes id hid) _)

end Nodes

/-! ## Chains -/

theorem chainParts (h : env.Weavable ok) {unit shared inPlace : NodeId → Emit Node String}
    (hunit : ∀ id ∈ env.table.ids, Weaves ok env (Woven ok) (unit id))
    (hshared : ∀ id ∈ env.table.ids, Weaves ok env (Woven ok) (shared id))
    (hinPlace : ∀ id ∈ env.table.ids, Weaves ok env (Woven ok) (inPlace id)) (steps : Nat)
    (inline : Bool) (seen : List NodeId) {target : Option NodeId}
    (htarget : ∀ id, target = some id → Known env id) :
    Weaves ok env (fun texts => ∀ text ∈ texts, Woven ok text)
      (Emit.chainParts unit shared inPlace steps inline seen target) := by
  induction steps generalizing inline seen target with
  | zero => exact .cutOff
  | succ steps ih =>
    cases target with
    | none => exact .pure (forall_mem_nil _)
    | some id =>
      refine .bind .env_eq fun e he => ?_
      rw [he]
      cases hn : env.graph.get? id with
      | none => exact .pure (forall_mem_nil _)
      | some n =>
        have hid : id ∈ env.table.ids := htarget id rfl (by simp [Graph.contains, hn])
        -- whether the node is state is asked only if it is not written in line
        have hstate {rest : Bool → Emit Node (List String)}
            (hrest : ∀ state, Weaves ok env (fun texts => ∀ text ∈ texts, Woven ok text)
              (rest state)) :
            Weaves ok env (fun texts => ∀ text ∈ texts, Woven ok text)
              (if inline then Pure.pure false >>= rest else Emit.isState id >>= rest) := by
          split
          · exact .bind (.pure (P := fun _ => True) trivial) fun state _ => hrest state
          · exact .bind (.isState id) fun state _ => hrest state
        refine hstate fun state => ?_
        dsimp only
        split
        · exact .bind ((hunit id hid).recover id) fun _ htext =>
            .pure (forall_mem_singleton.2 htext)
        · refine .bind .env_eq fun e he => ?_
          split
          · exact .bind ((hshared id hid).recover id) fun _ htext =>
              .pure (forall_mem_singleton.2 htext)
          · split
            · exact .fail _
            · refine .bind ((hinPlace id hid).recover id) fun _ htext => ?_
              refine .bind (ih false (id :: seen) (known_follows h.describes hid hn (.inr rfl)))
                fun _ hrest => .pure (forall_mem_cons.2 ⟨htext, hrest⟩)

end Weaves

/-- All emissions at a depth weave. -/
structure WovenLevel (ok : MarkerId → Prop) (env : Env Node) (depth : Nat) : Prop where
  services : WovenServices ok env (servicesAt depth)
  body : ∀ id, Known env id → Weaves ok env (Woven ok) (chainAt depth true (some id))

theorem wovenLevel {ok : MarkerId → Prop} {env : Env Node} (h : env.Weavable ok) (depth : Nat) :
    WovenLevel ok env depth := by
  induction depth with
  | zero => exact ⟨⟨fun _ _ => .cutOff, fun _ _ _ => .cutOff, fun _ _ => .cutOff⟩, fun _ _ => .cutOff⟩
  | succ depth ih =>
    have hchain (inline : Bool) {target : Option NodeId}
        (htarget : ∀ id, target = some id → Known env id) :
        Weaves ok env (Woven ok) (chainAt (depth + 1) inline target) := by
      refine .bind .env_eq fun _ _ => .bind (.chainParts h ?_ ?_ ?_ _ inline [] htarget)
        fun _ htexts => .pure (.lines htexts)
      · exact fun id hid => .startUnit (ih.services.slot id fun _ => hid)
      · exact fun id hid => .callShared (ih.body id fun _ => hid)
      · exact fun id hid => .statement h ih.services hid
    refine ⟨⟨fun target htarget => hchain false htarget, fun id port hid => ?_, fun id hid => ?_⟩,
      fun id hid => hchain true fun y hy => some.inj hy ▸ hid⟩
    · change Weaves ok env (Woven ok) (outputAt (depth + 1) id port)
      exact .readOutput h ih.services hid port
    · change Weaves ok env (fun _ => True) (slotAt (depth + 1) id)
      exact .bind (.unitSlot (ih.body id hid)) fun _ _ => .bind (.refer _) fun _ _ => .pure trivial

/-! ## Entry points -/

/-- What a body is to return is hash-free like the declaration it belongs to. -/
theorem hashless_entryPlace {c : ClassDecl} (h : c.Hashless) {body : BodyId} {decl : Decl}
    (hdecl : decl.Belongs c) {place : Place} (hplace : entryPlace? c e body decl = some place) :
    Hashless place.returnType.strings := by
  unfold entryPlace? at hplace
  split at hplace
  · rename_i f _
    cases hplace
    have hf := h.functions f hdecl
    simp only [FunctionDecl.strings, hashless_append, cons_append, hashless_cons] at hf
    exact hf.2.1.1.1.1
  · rename_i p _
    cases hplace
    have hp := h.properties p hdecl
    simp only [PropertyDecl.strings, hashless_append, cons_append, hashless_cons] at hp
    exact hp.2.1
  · cases hplace
    exact hashless_nil
  · cases hplace
    exact hashless_nil
  · cases hplace
    exact hashless_nil
  · cases hplace

namespace Weaves

variable {ok : MarkerId → Prop} {env : Env Node} {α : Type} (h : env.Weavable ok)

theorem forM {f : α → Emit Node Unit} {l : List α}
    (hf : ∀ a ∈ l, Weaves ok env (fun _ => True) (f a)) :
    Weaves ok env (fun _ => True) (l.forM f) := by
  induction l with
  | nil => exact .pure trivial
  | cons a l ih =>
    exact .bind (hf a mem_cons_self) fun _ _ => ih fun b hb => hf b (mem_cons_of_mem _ hb)

include h

theorem entryWith {flow : Option NodeId → Emit Node String}
    (hflow : Weaves ok env (Woven ok) (flow (some e.node))) :
    Weaves ok env (fun _ => True) (Emit.entryWith flow e) := by
  intro s hs
  obtain ⟨err, _, hrun⟩ | ⟨body, decl, place, _, hdecl, hplace, hrun⟩ :=
    entryWith_cases env.graph.classDecl e s
  · rw [hrun flow env rfl]
    exact (.fail err : Weaves ok env (fun _ : Unit => True) _) s hs
  · have hreturn := hashless_entryPlace (hashless_class h.graph)
      (belongs_of_get hdecl) hplace
    rw [hrun flow env rfl]
    refine Weaves.bind (.withPlace hflow hreturn) (fun text htext => .modify fun s hs => ?_) s hs
    exact { hs with symbols := hs.symbols.setBodyText _ htext }

theorem entry (he : e ∈ env.graph.classDecl.entryPoints) :
    Weaves ok env (fun _ => True) (Emit.entry e) := by
  have hknown : Known env e.node := h.describes.mem_of_entryPoint he
  have hflow : Weaves ok env (Woven ok) (chainAt env.depth false (some e.node)) :=
    (wovenLevel h env.depth).services.flow (some e.node) fun id hid =>
      some.inj hid ▸ hknown
  intro s hs
  exact entryWith h hflow s hs

/-! ## Preparation -/

theorem reserveNames : Weaves ok env (fun _ => True) (Emit.reserveNames : Emit Node Unit) := by
  have hclass := hashless_class h.graph
  have hconfig := h.config
  simp only [Config.strings, hashless_append, cons_append, hashless_cons] at hconfig
  have hadd (usings : List String) (husings : Hashless usings) (i : Imports)
      (hi : Hashless i.spaces) : Hashless (usings.foldl Imports.add i).spaces := by
    induction usings generalizing i with
    | nil => exact hi
    | cons space usings ih =>
      rw [hashless_cons] at husings
      exact ih husings.2 _ (Imports.hashless_add hi husings.1)
  refine .bind .env_eq fun env' henv => .modify fun s hs => ?_
  rw [henv]
  refine { hs with names := ?_, imports := ?_ }
  · exact hs.names
  · exact hadd _ (hashless_append.2 ⟨hclass.usings, hconfig.2.2⟩) _ hs.imports

omit h in
/-- Parameters keep their types and defaults, under names that were given out. -/
theorem registerParams {owner : DeclId} {ps : List ParamDecl}
    (hps : Hashless (ps.flatMap ParamDecl.strings)) (index : Nat) :
    Weaves ok env (fun params => Hashless (params.flatMap ParamSymbol.strings))
      (Emit.registerParams owner index ps : Emit Node (List ParamSymbol)) := by
  induction ps generalizing index with
  | nil => exact .pure hashless_nil
  | cons p ps ih =>
    rw [flatMap_cons, hashless_append, ParamDecl.strings, cons_append, hashless_cons,
      hashless_append] at hps
    refine .bind (.nameFor _ _) fun name hname => .bind (.modify fun s hs => ?_) fun _ _ =>
      .bind (ih hps.2 (index + 1)) fun rest hrest => .pure ?_
    · exact { hs with params := forall_mem_cons.2 ⟨⟨hname, hps.1.2.1⟩, hs.params⟩ }
    · rw [flatMap_cons, hashless_append, ParamSymbol.strings, cons_append, hashless_cons,
        hashless_append]
      exact ⟨⟨hname, hps.1.2⟩, hrest⟩

omit h in
theorem registerMethod {key : SymbolKey} {m : MethodSymbol} (hm : Hashless m.strings)
    (hmarker : ∀ id ∈ m.marker, ok id) :
    Weaves ok env (fun _ => True) (Emit.registerMethod key m : Emit Node Unit) := by
  intro s hs
  refine ⟨?_, fun _ _ => trivial⟩
  unfold Emit.registerMethod
  split
  · rename_i symbols names hrun
    exact { hs with
      symbols := hs.symbols.registerMethod hm hmarker hrun
      names := hs.names.registerMethod hrun }
  · exact hs

theorem declareVariable {v : VariableDecl} (hv : v ∈ env.graph.classDecl.fields) :
    Weaves ok env (fun _ => True) (Emit.declareVariable v : Emit Node Unit) := by
  refine .bind (.registerVariable ?_ fun id hid => ?_) fun _ _ => .pure trivial
  · exact (hashless_class h.graph).fields v hv
  rw [← some.inj hid]
  refine h.decls v.id ?_
  simp only [declIds, mem_append]
  exact .inl (.inl (.inl (.inl (mem_map_of_mem hv))))

omit h in
theorem declareLocal {function : DeclId} {v : VariableDecl} (hv : Hashless v.strings) :
    Weaves ok env (fun _ => True) (Emit.declareLocal function v : Emit Node Unit) := by
  rw [VariableDecl.strings, hashless_append] at hv
  refine .bind .get fun s _ => .bind (.registerVariable ?_ fun _ hid => ?_) fun _ _ => .pure trivial
  · rw [VariableSymbol.strings, hashless_append]
    exact ⟨hv.1, hashless_nil⟩
  · exact absurd hid (not_mem_none _)

theorem declareFunction {f : FunctionDecl} (hf : f ∈ env.graph.classDecl.functions) :
    Weaves ok env (fun _ => True) (Emit.declareFunction f : Emit Node Unit) := by
  have hstrings := (hashless_class h.graph).functions f hf
  simp only [FunctionDecl.strings, hashless_append, cons_append, hashless_cons] at hstrings
  obtain ⟨hname, ⟨⟨⟨hreturn, hparams⟩, htypeParams⟩, hlocals⟩, hattributes⟩ := hstrings
  refine .bind (.registerParams hparams 0) fun params hparams =>
    .bind (.registerMethod ?_ fun id hid => ?_) fun _ _ => .forM fun v hv =>
      .declareLocal (hlocals.of_mem_flatMap hv)
  · simp only [MethodSymbol.strings, hashless_append, cons_append, hashless_cons]
    exact ⟨by decide, ⟨⟨hreturn, hparams⟩, htypeParams⟩, hattributes⟩
  · rw [← some.inj hid]
    refine h.decls f.id ?_
    simp only [declIds, mem_append, mem_flatMap]
    exact .inl (.inl (.inl (.inr ⟨f, hf, mem_cons_self⟩)))

omit h in
theorem accessorBody (decl : DeclId) (kind : EntryKind) (node : Option NodeId) :
    Weaves ok env (fun _ => True) (Emit.accessorBody decl kind node : Emit Node (Option BodyId)) := by
  cases node with
  | none => exact .pure trivial
  | some _ => exact fun s hs => ⟨{ hs with symbols := hs.symbols.newBody }, fun _ _ => trivial⟩

theorem declareProperty {p : PropertyDecl} (hp : p ∈ env.graph.classDecl.properties) :
    Weaves ok env (fun _ => True) (Emit.declareProperty p : Emit Node Unit) := by
  have hstrings := (hashless_class h.graph).properties p hp
  simp only [PropertyDecl.strings, hashless_append, cons_append, hashless_cons] at hstrings
  have hdecl : ok (.decl p.id) := by
    refine h.decls p.id ?_
    simp only [declIds, mem_append]
    exact .inl (.inl (.inr (mem_map_of_mem hp)))
  have hsymbol : Hashless (PropertySymbol.strings
      { decl := p.id, name := p.name, type := p.type, modifiers := p.modifiers }) := by
    simp only [PropertySymbol.strings, hashless_append, cons_append, hashless_cons]
    exact ⟨hstrings.1, hstrings.2.1, hashless_nil⟩
  refine .bind .get fun s hs => .bind (.modify fun s' hs' => ?_) fun _ _ =>
    .bind (.accessorBody _ _ _) fun _ _ => .bind (.accessorBody _ _ _) fun _ _ =>
      .modify fun s' hs' => ?_
  · exact { hs' with
      symbols := hs.symbols.registerProperty s.names hsymbol hdecl
      names := hs.names.registerProperty s.symbols _ }
  · refine { hs' with symbols := hs'.symbols.modifyProperty _ fun q hq => ?_ }
    simp only [PropertySymbol.strings, hashless_append, cons_append, hashless_cons] at hq ⊢
    exact ⟨⟨hq.1.1, hq.1.2.1, hstrings.2.2⟩, hq.2⟩

theorem declareConstructor {k : ConstructorDecl} (hk : k ∈ env.graph.classDecl.constructors) :
    Weaves ok env (fun _ => True) (Emit.declareConstructor k : Emit Node Unit) := by
  have hstrings := (hashless_class h.graph).constructors k hk
  have hdecl : ∀ id ∈ some k.id, ok (.decl id) := by
    intro id hid
    rw [← some.inj hid]
    refine h.decls k.id ?_
    simp only [declIds, mem_append]
    exact .inl (.inr (mem_map_of_mem hk))
  refine .bind (.registerParams hstrings 0) fun params hparams => .modify fun s hs => ?_
  exact { hs with symbols := hs.symbols.registerConstructor hdecl hparams k.modifiers }

theorem declareEvent {e : EventDecl} (he : e ∈ env.graph.classDecl.events) :
    Weaves ok env (fun _ => True) (Emit.declareEvent e : Emit Node Unit) := by
  have hstrings := (hashless_class h.graph).events e he
  rw [EventDecl.strings, hashless_cons] at hstrings
  refine .bind (.registerParams hstrings.2 0) fun params hparams =>
    .registerMethod ?_ fun id hid => ?_
  · simp only [MethodSymbol.strings, hashless_append, cons_append, hashless_cons]
    exact ⟨by decide, ⟨⟨hashless_nil, hparams⟩, hashless_nil⟩, hashless_nil⟩
  · rw [← some.inj hid]
    refine h.decls e.id ?_
    simp only [declIds, mem_append]
    exact .inr (mem_map_of_mem he)

/-- Nodes register variables of their own, with the types they name. -/
theorem setUpNode (id : NodeId) :
    Weaves ok env (fun _ => True) (Emit.setUpNode id : Emit Node Unit) := by
  have hregister {v : VariableSymbol} (hv : Hashless v.strings) (hmarker : v.marker = none) :
      Weaves ok env (fun _ => True) (do let _ ← Emit.registerVariable v : Emit Node Unit) := by
    refine .bind (.registerVariable hv fun id hid => ?_) fun _ _ => .pure trivial
    rw [hmarker] at hid
    exact absurd hid (not_mem_none _)
  intro s hs
  cases hn : env.graph.get? id with
  | none =>
    rw [setUpNode_of_none hn]
    exact ⟨hs, fun _ _ => trivial⟩
  | some n =>
    rw [setUpNode_of_some hn]
    have hstrings := hashless_node h.graph hn
    revert s
    change Weaves ok env (fun _ => True) (n.setUp id : Emit Node Unit)
    cases n with
    | forLoop start stop step body next =>
      refine hregister ?_ rfl
      simp [VariableSymbol.strings, Node.indexName, Ty.int, Ty.strings]
    | forEach collection element body next =>
      rw [Node.strings, hashless_append] at hstrings
      refine hregister ?_ rfl
      simp [VariableSymbol.strings, Node.itemName, hstrings.2]
    | localVariable name type value next =>
      rw [Node.strings, cons_append, hashless_cons, hashless_append] at hstrings
      refine hregister ?_ rfl
      simp [VariableSymbol.strings, hstrings.1, hstrings.2.1]
    | _ => exact .pure trivial

theorem prepare : Weaves ok env (fun _ => True) (Emit.prepare : Emit Node Unit) := by
  have hdeclarations : Weaves ok env (fun _ => True) (registerDeclarations : Emit Node Unit) := by
    refine .bind (reserveNames h) fun _ _ => .bind .env_eq fun env' henv => ?_
    rw [henv]
    exact .bind (.forM fun _ hv => declareVariable h hv) fun _ _ =>
      .bind (.forM fun _ hf => declareFunction h hf) fun _ _ =>
        .bind (.forM fun _ hp => declareProperty h hp) fun _ _ =>
          .bind (.forM fun _ hk => declareConstructor h hk) fun _ _ =>
            .forM fun _ he => declareEvent h he
  exact .bind hdeclarations fun _ _ => .bind .env_eq fun _ _ =>
    .bind (.forM fun id _ => setUpNode h id) fun _ _ => .sealNodes

end Weaves

end Emit

/-- Nothing was emitted yet. -/
theorem State.Woven.initial {ok : MarkerId → Prop} (env : Env Node) :
    (State.initial env).Woven ok where
  names := hashless_nil
  imports := hashless_nil
  symbols := SymbolTable.Woven.empty.newBody
  units := forall_mem_nil _
  splices := forall_mem_nil _
  params := forall_mem_nil _
  shared := forall_mem_nil _
  setups := forall_mem_nil _
  returnType := hashless_nil

end FlowClass
