import FlowClass.Proofs.Model.Declarations
import FlowClass.Proofs.Program.Method

/-!
# Rosters

Entering the declarations of a class names its members and makes bodies for its callables. Two
functions or events with one name and signature are one method, and only the first of them gets the
name and the body; `ClassDecl.repeats` lists the others.

A roster lists declarations by what is entered for them. `Enrolled` says what there is after those of
a roster were entered, and each way to enter a declaration adds its own to the roster.
-/

namespace FlowClass

open List SymbolTable Prod

variable {id : DeclId} {m : DeclId × Signature} {handle : MethodHandle}

/-! ## Parameters -/

/-- The parameters of a declaration, by their places. -/
def ParamDecl.keys (owner : DeclId) (ps : List ParamDecl) : List (DeclId × Nat) :=
  (List.range' 0 ps.length).map fun index => (owner, index)

/-- The parameters of functions, constructors and events. -/
def ClassDecl.paramKeys (c : ClassDecl) : List (DeclId × Nat) :=
  c.functions.flatMap (fun f => ParamDecl.keys f.id f.params) ++
    c.constructors.flatMap (fun k => ParamDecl.keys k.id k.params) ++
    c.events.flatMap (fun e => ParamDecl.keys e.id e.params)

theorem ParamDecl.fst_of_mem_keys {owner : DeclId} {ps : List ParamDecl} {key : DeclId × Nat}
    (h : key ∈ keys owner ps) : key.1 = owner := by
  obtain ⟨index, _, rfl⟩ := mem_map.1 h
  rfl

/-- Parameters of different declarations are different. -/
theorem ParamDecl.nodup_flatMap_keys {α : Type} {l : List α} {id : α → DeclId}
    {params : α → List ParamDecl} (h : (l.map id).Nodup) :
    (l.flatMap fun a => keys (id a) (params a)).Nodup := by
  have hpairs : l.Pairwise fun a b => id a ≠ id b := pairwise_map.1 h
  refine nodup_flatMap.2 ⟨fun a _ => ?_, hpairs.imp fun {a b} hne => ?_⟩
  · refine List.Nodup.map (fun i j hij => ?_) (nodup_range' _)
    exact (Prod.mk.inj hij).2
  · intro key ha hb
    exact hne ((fst_of_mem_keys ha).symm.trans (fst_of_mem_keys hb))

theorem FunctionDecl.ids_sublist (fs : List FunctionDecl) :
    (fs.map FunctionDecl.id).Sublist (fs.flatMap FunctionDecl.ids) := by
  induction fs with
  | nil => exact .slnil
  | cons f fs ih => exact .cons_cons f.id (ih.trans (sublist_append_right _ _))

theorem ClassDecl.nodup_paramKeys {c : ClassDecl} (h : c.declIds.Nodup) : c.paramKeys.Nodup := by
  have howner {α : Type} {l : List α} {id : α → DeclId} {params : α → List ParamDecl}
      {key : DeclId × Nat} (hkey : key ∈ l.flatMap fun a => ParamDecl.keys (id a) (params a)) :
      key.1 ∈ l.map id := by
    obtain ⟨a, ha, hkey⟩ := mem_flatMap.1 hkey
    rw [ParamDecl.fst_of_mem_keys hkey]
    exact mem_map_of_mem ha
  simp only [declIds, nodup_append, mem_append] at h
  obtain ⟨⟨⟨⟨_, hfunctions, _⟩, _⟩, hconstructors, hapart⟩, hevents, hapart'⟩ := h
  have hids := FunctionDecl.ids_sublist c.functions
  refine nodup_append.2 ⟨nodup_append.2 ⟨ParamDecl.nodup_flatMap_keys
    (hfunctions.sublist hids), ParamDecl.nodup_flatMap_keys hconstructors, ?_⟩,
    ParamDecl.nodup_flatMap_keys hevents, ?_⟩
  · rintro key hfunction _ hconstructor rfl
    exact hapart _ (.inl (.inr (hids.subset (howner hfunction)))) _ (howner hconstructor) rfl
  · rintro key hkey _ hevent rfl
    rcases mem_append.1 hkey with hkey | hkey
    · exact hapart' _ (.inl (.inl (.inr (hids.subset (howner hkey))))) _ (howner hevent) rfl
    · exact hapart' _ (.inr (howner hkey)) _ (howner hevent) rfl

/-- The declarations that have a body of their own. -/
def ClassDecl.owners (c : ClassDecl) : List DeclId :=
  c.functions.map FunctionDecl.id ++ c.constructors.map ConstructorDecl.id ++
    c.events.map EventDecl.id

/-! ## Signatures -/

/-- A name with the types and modifiers of parameters. -/
abbrev Signature := String × List (Ty × Passing)

def ParamDecl.signature (ps : List ParamDecl) : List (Ty × Passing) :=
  ps.map fun p => (p.type, p.passing)

def MethodSymbol.signature (m : MethodSymbol) : Signature :=
  (m.base, ParamSymbol.signature m.params)

def FunctionDecl.method (f : FunctionDecl) : DeclId × Signature :=
  (f.id, f.name, ParamDecl.signature f.params)

def EventDecl.method (e : EventDecl) : DeclId × Signature :=
  (e.id, e.name, ParamDecl.signature e.params)

namespace ClassDecl

/-- The functions and events with their signatures. -/
def methods (c : ClassDecl) : List (DeclId × Signature) :=
  c.functions.map FunctionDecl.method ++ c.events.map EventDecl.method

/-- The signatures of functions and events. -/
def signatures (c : ClassDecl) : List Signature :=
  c.methods.map snd

/-- The fields, and the locals of functions. -/
def varIds (c : ClassDecl) : List DeclId :=
  c.fields.map VariableDecl.id ++ c.functions.flatMap fun f => f.locals.map VariableDecl.id

/-- The declarations that code can refer to by a name of their own. -/
def named (c : ClassDecl) : List DeclId :=
  c.varIds ++ c.properties.map PropertyDecl.id ++ c.methods.map fst

theorem map_fst_methods (c : ClassDecl) : c.methods.map fst =
    c.functions.map FunctionDecl.id ++ c.events.map EventDecl.id := by
  simp [methods, FunctionDecl.method, EventDecl.method, Function.comp_def]

theorem declIds_perm (c : ClassDecl) :
    c.declIds.Perm (c.named ++ c.constructors.map ConstructorDecl.id) := by
  have hlocals (fs : List FunctionDecl) : (fs.flatMap FunctionDecl.ids).Perm
      (fs.map FunctionDecl.id ++ fs.flatMap fun f => f.locals.map VariableDecl.id) := by
    induction fs with
    | nil => exact .refl _
    | cons f fs ih =>
      refine .cons f.id ?_
      show (f.locals.map VariableDecl.id ++ fs.flatMap FunctionDecl.ids).Perm
        (fs.map FunctionDecl.id ++ (f.locals.map VariableDecl.id ++ _))
      refine (ih.append_left _).trans ?_
      rw [← append_assoc, ← append_assoc]
      exact perm_append_comm.append_right _
  refine perm_iff_count.2 fun id => ?_
  have hcount := (hlocals c.functions).count_eq id
  simp only [declIds, named, varIds, map_fst_methods, count_append] at hcount ⊢
  omega

end ClassDecl

/-! ## Rosters -/

/-- Declarations, by what is entered for them. -/
structure Roster where
  varIds : List DeclId := []
  methods : List (DeclId × Signature) := []
  properties : List PropertyDecl := []
  constructors : List DeclId := []
  params : List (DeclId × Nat) := []

def ClassDecl.roster (c : ClassDecl) : Roster :=
  ⟨c.varIds, c.methods, c.properties, c.constructors.map ConstructorDecl.id, c.paramKeys⟩

namespace Roster

instance : Append Roster where
  append r r' := ⟨r.varIds ++ r'.varIds, r.methods ++ r'.methods, r.properties ++ r'.properties,
    r.constructors ++ r'.constructors, r.params ++ r'.params⟩

theorem append_def (r r' : Roster) : r ++ r' = ⟨r.varIds ++ r'.varIds, r.methods ++ r'.methods,
    r.properties ++ r'.properties, r.constructors ++ r'.constructors, r.params ++ r'.params⟩ := rfl

theorem append_assoc (r r' r'' : Roster) : r ++ r' ++ r'' = r ++ (r' ++ r'') := by
  simp only [append_def, List.append_assoc]

/-- What is entered for the members of a list. -/
def ofList {α : Type} (as : List α) (roster : α → Roster) : Roster :=
  ⟨as.flatMap fun a => (roster a).varIds, as.flatMap fun a => (roster a).methods,
    as.flatMap fun a => (roster a).properties, as.flatMap fun a => (roster a).constructors,
    as.flatMap fun a => (roster a).params⟩

/-- Those that get a body. -/
def owners (r : Roster) : List DeclId :=
  r.methods.map fst ++ r.constructors

def ids (r : Roster) : List DeclId :=
  r.varIds ++ r.properties.map PropertyDecl.id ++ r.owners

theorem owners_withParams (r : Roster) (params : List (DeclId × Nat)) :
    (r ++ { params }).owners = r.owners := by
  simp only [owners, append_def, append_nil]

theorem owners_withVars (r : Roster) (varIds : List DeclId) :
    (r ++ { varIds }).owners = r.owners := by
  simp only [owners, append_def, append_nil]

theorem ids_append_perm (r r' : Roster) : (r ++ r').ids.Perm (r.ids ++ r'.ids) := by
  refine perm_iff_count.2 fun id => ?_
  simp only [ids, owners, append_def, map_append, count_append]
  omega

variable {r r' : Roster} (h : (r ++ r').ids.Nodup)
include h

theorem nodup_left : r.ids.Nodup :=
  ((ids_append_perm r r').nodup_iff.1 h).of_append_left

theorem not_mem_ids (hid : id ∈ r'.ids) : id ∉ r.ids := fun hmem =>
  (nodup_append.1 ((ids_append_perm r r').nodup_iff.1 h)).2.2 id hmem id hid rfl

theorem not_mem_owners (hid : id ∈ r'.ids) : id ∉ r.owners := fun hmem =>
  not_mem_ids h hid (mem_append_right _ hmem)

theorem not_mem_properties (hid : id ∈ r'.ids) :
    id ∉ r.properties.map PropertyDecl.id := fun hmem =>
  not_mem_ids h hid (mem_append_left _ (mem_append_right _ hmem))

end Roster

def FunctionDecl.roster (f : FunctionDecl) : Roster :=
  { params := ParamDecl.keys f.id f.params } ++
    ({ methods := [f.method] } ++ { varIds := f.locals.map VariableDecl.id })

def ConstructorDecl.roster (k : ConstructorDecl) : Roster :=
  { params := ParamDecl.keys k.id k.params } ++ { constructors := [k.id] }

def EventDecl.roster (e : EventDecl) : Roster :=
  { params := ParamDecl.keys e.id e.params } ++ { methods := [e.method] }

section Fresh

variable {r : Roster}

theorem FunctionDecl.not_mem_owners {f : FunctionDecl} (h : (r ++ f.roster).ids.Nodup) :
    f.id ∉ r.owners :=
  Roster.not_mem_owners h (by
    simp [Roster.ids, Roster.owners, FunctionDecl.roster, FunctionDecl.method, Roster.append_def])

theorem ConstructorDecl.not_mem_owners {k : ConstructorDecl} (h : (r ++ k.roster).ids.Nodup) :
    k.id ∉ r.owners :=
  Roster.not_mem_owners h (by
    simp [Roster.ids, Roster.owners, ConstructorDecl.roster, Roster.append_def])

theorem EventDecl.not_mem_owners {e : EventDecl} (h : (r ++ e.roster).ids.Nodup) :
    e.id ∉ r.owners :=
  Roster.not_mem_owners h (by
    simp [Roster.ids, Roster.owners, EventDecl.roster, EventDecl.method, Roster.append_def])

end Fresh

theorem ClassDecl.nodup_roster {c : ClassDecl} (h : c.declIds.Nodup) : c.roster.ids.Nodup := by
  have hperm := c.declIds_perm.nodup_iff.1 h
  rwa [ClassDecl.named, append_assoc] at hperm

/-! ## Repeated methods -/

/-- The methods whose signature is seen before, or is that of an earlier one. -/
def repeatedMethods (seen : List Signature) : List (DeclId × Signature) → List DeclId
  | [] => []
  | m :: ms =>
    if m.2 ∈ seen then m.1 :: repeatedMethods (m.2 :: seen) ms else repeatedMethods (m.2 :: seen) ms

/-- The functions and events that have the signature of an earlier one. -/
def ClassDecl.repeats (c : ClassDecl) : List DeclId :=
  repeatedMethods [] c.methods

/-- The method is there, and is the first with its signature. -/
def IsFirst (methods : List (DeclId × Signature)) (id : DeclId) : Prop :=
  id ∈ methods.map fst ∧ id ∉ repeatedMethods [] methods

theorem repeatedMethods_subset (seen : List Signature) (ms : List (DeclId × Signature)) :
    repeatedMethods seen ms ⊆ ms.map fst := by
  induction ms generalizing seen with
  | nil => exact Subset.refl _
  | cons m ms ih =>
    unfold repeatedMethods
    split
    · exact cons_subset_cons _ (ih _)
    · exact subset_cons_of_subset _ (ih _)

theorem repeatedMethods_append (seen : List Signature) (ms : List (DeclId × Signature))
    (m : DeclId × Signature) :
    repeatedMethods seen (ms ++ [m]) = repeatedMethods seen ms ++
      if m.2 ∈ seen ∨ m.2 ∈ ms.map snd then [m.1] else [] := by
  induction ms generalizing seen with
  | nil => simp [repeatedMethods]
  | cons first ms ih =>
    have hmore : m.2 ∈ first.2 :: seen ∨ m.2 ∈ ms.map snd ↔
        m.2 ∈ seen ∨ m.2 ∈ (first :: ms).map snd := by
      simp only [mem_cons, map_cons]
      tauto
    simp only [cons_append, repeatedMethods, ih, hmore]
    split <;> rfl

/-- A method that repeats an earlier one changes nothing. -/
theorem isFirst_append_of_mem {methods : List (DeclId × Signature)}
    (hid : m.1 ∉ methods.map fst) (hmem : m.2 ∈ methods.map snd) (id : DeclId) :
    IsFirst (methods ++ [m]) id ↔ IsFirst methods id := by
  rw [IsFirst, repeatedMethods_append, if_pos (.inr hmem)]
  simp only [map_append, map_cons, map_nil, mem_append, mem_singleton,
    not_or]
  constructor
  · rintro ⟨hin | rfl, hnot, hne⟩
    · exact ⟨hin, hnot⟩
    · exact absurd rfl hne
  · rintro ⟨hin, hnot⟩
    exact ⟨.inl hin, hnot, fun heq => hid (heq ▸ hin)⟩

theorem isFirst_append_of_not_mem {methods : List (DeclId × Signature)}
    (hid : m.1 ∉ methods.map fst) (hnew : m.2 ∉ methods.map snd) (id : DeclId) :
    IsFirst (methods ++ [m]) id ↔ IsFirst methods id ∨ id = m.1 := by
  have hseen : ¬(m.2 ∈ ([] : List Signature) ∨ m.2 ∈ methods.map snd) := by simp [hnew]
  have hnot : m.1 ∉ repeatedMethods [] methods := fun h => hid (repeatedMethods_subset _ _ h)
  rw [IsFirst, repeatedMethods_append, if_neg hseen, append_nil, map_append,
    mem_append]
  constructor
  · rintro ⟨hin | hin, hfirst⟩
    · exact .inl ⟨hin, hfirst⟩
    · exact .inr (mem_singleton.1 hin)
  · rintro (⟨hin, hfirst⟩ | rfl)
    · exact ⟨.inl hin, hfirst⟩
    · exact ⟨.inr mem_cons_self, hnot⟩

/-- Every method with a signature that is seen before is repeated. -/
theorem mem_repeatedMethods {seen : List Signature} {ms : List (DeclId × Signature)} (hm : m ∈ ms)
    (hseen : m.2 ∈ seen) : m.1 ∈ repeatedMethods seen ms := by
  induction ms generalizing seen with
  | nil => cases hm
  | cons first ms ih =>
    unfold repeatedMethods
    obtain rfl | hrest := mem_cons.1 hm
    · rw [if_pos hseen]
      exact mem_cons_self
    · have hlater := ih hrest (mem_cons_of_mem first.2 hseen)
      split
      · exact mem_cons_of_mem _ hlater
      · exact hlater

/-- There is one method that is the first with a signature. -/
theorem eq_of_not_repeated {seen : List Signature} {ms : List (DeclId × Signature)}
    {m' : DeclId × Signature} (hm : m ∈ ms) (hm' : m' ∈ ms) (hsame : m.2 = m'.2)
    (hfirst : m.1 ∉ repeatedMethods seen ms) (hfirst' : m'.1 ∉ repeatedMethods seen ms) :
    m = m' := by
  induction ms generalizing seen with
  | nil => cases hm
  | cons first ms ih =>
    have hrest {id : DeclId} (h : id ∉ repeatedMethods seen (first :: ms)) :
        id ∉ repeatedMethods (first.2 :: seen) ms := by
      intro hmem
      refine h ?_
      unfold repeatedMethods
      split
      · exact mem_cons_of_mem _ hmem
      · exact hmem
    obtain rfl | hlater := mem_cons.1 hm <;> obtain rfl | hlater' := mem_cons.1 hm'
    · rfl
    · exact absurd (mem_repeatedMethods hlater' (mem_cons.2 (.inl hsame.symm))) (hrest hfirst')
    · exact absurd (mem_repeatedMethods hlater (mem_cons.2 (.inl hsame))) (hrest hfirst)
    · exact ih hlater hlater' (hrest hfirst) (hrest hfirst')

namespace ClassDecl

variable {c : ClassDecl} {id : DeclId}

theorem repeats_subset (c : ClassDecl) : c.repeats ⊆ c.methods.map fst :=
  repeatedMethods_subset _ _

/-- Nothing is repeated if signatures differ. -/
theorem repeats_eq_nil (h : c.signatures.Nodup) : c.repeats = [] := by
  have hnone (seen : List Signature) (ms : List (DeclId × Signature))
      (hnodup : (ms.map snd).Nodup) (hapart : ∀ m ∈ ms, m.2 ∉ seen) :
      repeatedMethods seen ms = [] := by
    induction ms generalizing seen with
    | nil => rfl
    | cons m ms ih =>
      rw [map_cons, nodup_cons] at hnodup
      obtain ⟨hfirst, hrest⟩ := forall_mem_cons.1 hapart
      rw [repeatedMethods, if_neg hfirst]
      refine ih _ hnodup.2 fun other hother hmem => ?_
      obtain heq | hseen := mem_cons.1 hmem
      · exact hnodup.1 (heq ▸ mem_map_of_mem hother)
      · exact hrest other hother hseen
  exact hnone [] c.methods h fun _ _ => not_mem_nil

/-- Only functions and events can repeat one another. -/
theorem not_mem_repeats (hids : c.declIds.Nodup)
    (h : id ∈ c.varIds ++ c.properties.map PropertyDecl.id ∨
      id ∈ c.constructors.map ConstructorDecl.id) : id ∉ c.repeats := by
  intro hid
  have hnodup := (declIds_perm c).nodup_iff.1 hids
  rw [named, append_assoc, nodup_append] at hnodup
  have hmethod := c.repeats_subset hid
  obtain hname | hconstructor := h
  · exact hnodup.2.2 _ hname _ (mem_append_left _ hmethod) rfl
  · exact (nodup_append.1 hnodup.2.1).2.2 _ hmethod _ hconstructor rfl

end ClassDecl

/-! ## What is entered -/

/-- The state after a property was entered, with a body for each accessor. -/
def State.withProperty (s : State) (p : PropertyDecl) : State :=
  let (name, names) := s.names.generate p.name
  let getter : Option BodyId := p.getter.map fun _ => ⟨s.symbols.bodies.length⟩
  let setter : Option BodyId :=
    p.setter.map fun _ => ⟨s.symbols.bodies.length + getter.toList.length⟩
  { s with
    names
    symbols :=
      { s.symbols with
        bodies :=
          s.symbols.bodies ++ List.replicate (getter.toList.length + setter.toList.length) {}
        declNames := (p.id, name) :: s.symbols.declNames
        properties := s.symbols.properties ++
          [{ decl := p.id, name, type := p.type, modifiers := p.modifiers
             attributes := p.attributes, getter, setter }] }
    accessors :=
      setter.toList.map (fun body => ((p.id, .setter), body)) ++
        getter.toList.map (fun body => ((p.id, .getter), body)) ++ s.accessors }

namespace SymbolTable

/-- The declarations that methods or bodies were made for. -/
def owners (t : SymbolTable) : List DeclId :=
  t.declBodies.map fst ++ t.methodKeys.filterMap fun entry => entry.1.decl?

theorem owners_registerVariable (t : SymbolTable) (names : Names) (v : VariableSymbol) :
    (t.registerVariable names v).2.1.owners = t.owners := by
  obtain ⟨hkeys, _, hbodies, _⟩ := t.registerVariable_same names v
  rw [owners, owners, hkeys, hbodies]

theorem owners_subset_registerMethod {t t' : SymbolTable} {names names' : Names}
    {key : Option SymbolKey} {m : MethodSymbol}
    (h : t.registerMethod names key m = .ok (handle, t', names')) : t.owners ⊆ t'.owners := by
  have hmore (hbodies : t.declBodies ⊆ t'.declBodies) (hkeys : t.methodKeys ⊆ t'.methodKeys) :
      t.owners ⊆ t'.owners :=
    append_subset.2 ⟨subset_append_of_subset_left _ (map_subset _ hbodies),
      subset_append_of_subset_right _ (filterMap_subset _ hkeys)⟩
  obtain ⟨_, rfl, _⟩ | ⟨_, _, _, _, rfl, _⟩ | ⟨_, hadded⟩ := registerMethod_ok h
  · exact Subset.refl _
  · cases key with
    | none => exact Subset.refl _
    | some key => exact hmore (Subset.refl _) (subset_cons_self _ _)
  · rw [addMethod_eq] at hadded
    cases hadded
    exact hmore (subset_append_right _ _) (subset_append_right _ _)

/-- A method for a declaration makes it an owner, and no other. -/
theorem owners_registerMethod {t t' : SymbolTable} {names names' : Names} {m : MethodSymbol}
    (h : t.registerMethod names (some (.decl id)) m = .ok (handle, t', names')) (owner : DeclId) :
    owner ∈ t'.owners ↔ owner = id ∨ owner ∈ t.owners := by
  obtain ⟨hkey, rfl, _⟩ | ⟨_, _, _, _, rfl, _⟩ | ⟨_, hadded⟩ := registerMethod_ok h
  · refine ⟨.inr, fun hor => hor.elim (fun heq => mem_append_right _ ?_) fun hold => hold⟩
    exact mem_filterMap.2 ⟨_, mem_of_lookup hkey, heq ▸ rfl⟩
  · simp only [owners, keyMethod, filterMap_cons, SymbolKey.decl?, mem_append,
      mem_cons]
    tauto
  · rw [addMethod_eq] at hadded
    cases hadded
    simp only [owners, Option.toList_some, Option.bind_some, map_cons, map_nil,
      singleton_append, filterMap_cons, SymbolKey.decl?, mem_append, mem_cons]
    tauto

end SymbolTable

/-- These declarations were entered, and no others. -/
structure Enrolled (r : Roster) (s : State) : Prop where
  names : ∀ id, (s.symbols.declName? id).isSome = true ↔
    id ∈ r.varIds ∨ id ∈ r.properties.map PropertyDecl.id ∨ IsFirst r.methods id
  bodies : ∀ id, (s.symbols.declBody? id).isSome = true ↔
    id ∈ r.constructors ∨ IsFirst r.methods id
  accessors : ∀ p ∈ r.properties, ∀ e ∈ p.entryPoints,
    (s.accessors.lookup (e.owner, e.kind)).isSome = true
  vars : ∀ id, .decl id ∈ s.symbols.keys ↔ id ∈ r.varIds
  owners : ∀ id, id ∈ s.symbols.owners ↔ id ∈ r.owners
  signatures : ∀ sig, sig ∈ s.symbols.methods.map MethodSymbol.signature ↔
    sig ∈ r.methods.map snd
  decls : s.symbols.properties.map PropertySymbol.decl = r.properties.map PropertyDecl.id
  owned : ∀ m ∈ s.symbols.methods, ∃ id, s.symbols.declBody? id = some m.body ∧
    (id, m.signature) ∈ r.methods

theorem isSome_lookup_cons_iff {α β : Type} [DecidableEq α] (l : List (α × β)) (key : α) (value : β)
    (a : α) :
    (((key, value) :: l).lookup a).isSome = true ↔ a = key ∨ (l.lookup a).isSome = true := by
  rw [lookup_cons]
  split
  · rename_i heq
    simp [eq_of_beq heq]
  · rename_i hne
    simp [ne_of_beq_false hne]

namespace Enrolled

variable {r : Roster} {s s' : State}

variable (h : Enrolled r s)
include h

theorem same (hsymbols : s'.symbols = s.symbols)
    (haccessors : s'.accessors = s.accessors) : Enrolled r s' := by
  exact ⟨hsymbols ▸ h.names, hsymbols ▸ h.bodies, haccessors ▸ h.accessors, hsymbols ▸ h.vars,
    hsymbols ▸ h.owners, hsymbols ▸ h.signatures, hsymbols ▸ h.decls, hsymbols ▸ h.owned⟩

theorem withParams (params : List (DeclId × Nat)) : Enrolled (r ++ { params }) s := by
  simp only [Roster.append_def, append_nil]
  exact ⟨h.names, h.bodies, h.accessors, h.vars, h.owners, h.signatures, h.decls, h.owned⟩

/-- A variable is known, or gets a name. -/
theorem registerVariable {v : VariableSymbol} (hkey : v.key = .decl id) :
    Enrolled (r ++ { varIds := [id] }) (s.withVariable v) := by
  simp only [Roster.append_def, append_nil]
  obtain ⟨_, hmethods, hbodies, _, hproperties, _⟩ := s.symbols.registerVariable_same s.names v
  refine ⟨fun other => ?_, fun other => ?_, h.accessors, fun other => ?_,
    (s.symbols.owners_registerVariable s.names v).symm ▸ h.owners, hmethods ▸ h.signatures,
    hproperties ▸ h.decls, ?_⟩
  · have hnames : ((s.symbols.registerVariable s.names v).2.1.declName? other).isSome = true ↔
        other = id ∨ (s.symbols.declName? other).isSome = true := by
      unfold SymbolTable.registerVariable
      split
      · rename_i handle hhandle
        have hknown : SymbolKey.decl id ∈ s.symbols.keys := by
          rw [← hkey, ← variableHandle?_isSome, hhandle]
          rfl
        refine ⟨.inr, fun hor => hor.elim (fun heq => ?_) fun hsome => hsome⟩
        rw [heq, h.names]
        exact .inl ((h.vars id).1 hknown)
      · rw [hkey]
        exact isSome_lookup_cons_iff _ _ _ _
    rw [hnames, h.names, mem_append, mem_singleton]
    tauto
  · have hsame := h.bodies other
    unfold declBody? at hsame ⊢
    rwa [hbodies]
  · rw [keys_registerVariable, hkey, mem_append, mem_singleton, ← h.vars]
    split
    · rename_i hknown
      exact ⟨.inl, fun hor => hor.elim (fun hold => hold) fun heq => heq ▸ hknown⟩
    · rw [mem_append, mem_singleton, SymbolKey.decl.injEq]
  · unfold declBody?
    rw [hmethods, hbodies]
    exact h.owned

/-- A variable that a node enters has no part in declarations. -/
theorem ownVariable (id : NodeId) (name : String) (type : Ty) :
    Enrolled r (s.withVariable { key := .node id, name, type }) := by
  unfold State.withVariable SymbolTable.registerVariable
  split
  · exact h
  · refine ⟨h.names, h.bodies, h.accessors, fun other => ?_, h.owners, h.signatures, h.decls, h.owned⟩
    rw [← h.vars]
    simp [SymbolTable.keys, nameDecl]

/-- Only a method that is the first with its signature gets a name and a body. -/
theorem registerMethod {m : MethodSymbol} {symbols : SymbolTable} {names : Names}
    (hid : id ∉ r.owners)
    (hrun : s.symbols.registerMethod s.names (some (.decl id)) m = .ok (handle, symbols, names)) :
    Enrolled (r ++ { methods := [(id, m.signature)] }) { s with symbols, names } := by
  simp only [Roster.append_def, append_nil]
  have howners (i : DeclId) :
      i ∈ symbols.owners ↔ i ∈ (r.methods ++ [(id, m.signature)]).map fst ++ r.constructors := by
    rw [owners_registerMethod hrun, h.owners, Roster.owners]
    simp only [map_append, map_cons, map_nil, mem_append, mem_singleton]
    tauto
  have hnone : id ∉ s.symbols.owners := mt (h.owners id).1 hid
  replace hid : id ∉ r.methods.map fst := fun hmem => hid (mem_append_left _ hmem)
  obtain ⟨hkey, _⟩ | ⟨other, hother, hbase, ⟨hparams, _⟩, rfl, rfl⟩ | ⟨hnew, hadded⟩ :=
    registerMethod_ok hrun
  · -- only the methods entered so far have keys, and none of them has this identity
    refine absurd (mem_append_right _ ?_) hnone
    exact mem_filterMap.2 ⟨_, mem_of_lookup hkey, rfl⟩
  · have hknown : m.signature ∈ r.methods.map snd := by
      have hsame : other.signature = m.signature := Prod.ext hbase hparams
      rw [← hsame, ← h.signatures]
      exact mem_map_of_mem (mem_of_getElem? hother)
    have hfirst := isFirst_append_of_mem (m := (id, m.signature)) hid hknown
    refine ⟨fun i => ?_, fun i => ?_, h.accessors, h.vars, howners, fun sig => ?_, h.decls,
      fun known hknown => ?_⟩
    · rw [hfirst]
      exact h.names i
    · rw [hfirst]
      exact h.bodies i
    · rw [map_append, mem_append, map_cons, map_nil, mem_singleton,
        ← h.signatures]
      refine ⟨.inl, fun hor => hor.elim (fun hmem => hmem) fun heq => ?_⟩
      exact heq ▸ (h.signatures _).2 hknown
    · obtain ⟨owner, hbody, hmem⟩ := h.owned known hknown
      exact ⟨owner, hbody, mem_append_left _ hmem⟩
  · have hnot : m.signature ∉ r.methods.map snd := by
      rw [← h.signatures, mem_map]
      rintro ⟨other, hother, hsame⟩
      exact hnew other hother (congrArg fst hsame) (congrArg snd hsame)
    have hfirst := isFirst_append_of_not_mem (m := (id, m.signature)) hid hnot
    cases hadded
    refine ⟨fun i => ?_, fun i => ?_, h.accessors, h.vars, howners, fun sig => ?_, h.decls,
      forall_mem_append.2 ⟨fun known hknown => ?_, forall_mem_singleton.2 ?_⟩⟩
    · refine (isSome_lookup_cons_iff s.symbols.declNames _ _ _).trans ?_
      rw [hfirst, ← declName?, h.names i]
      tauto
    · refine (isSome_lookup_cons_iff s.symbols.declBodies _ _ _).trans ?_
      rw [hfirst, ← declBody?, h.bodies i]
      tauto
    · show sig ∈ (s.symbols.methods ++ _).map MethodSymbol.signature ↔ _
      rw [map_append, map_append, mem_append, mem_append, h.signatures]
      rfl
    · obtain ⟨owner, hbody, hmem⟩ := h.owned known hknown
      have hne : owner ≠ id := fun heq => hid (heq ▸ mem_map_of_mem hmem)
      exact ⟨owner, (lookup_cons_of_ne hne _ _).trans hbody, mem_append_left _ hmem⟩
    · exact ⟨id, lookup_cons_self, mem_append_right _ mem_cons_self⟩

/-- A property gets a name, and a body for each accessor. -/
theorem withProperty (p : PropertyDecl) :
    Enrolled (r ++ { properties := [p] }) (s.withProperty p) := by
  simp only [Roster.append_def, append_nil]
  refine ⟨fun id => ?_, h.bodies, fun q hq e he => ?_, h.vars, h.owners, h.signatures, ?_,
    h.owned⟩
  · refine (isSome_lookup_cons_iff s.symbols.declNames _ _ _).trans ?_
    rw [← declName?, h.names id, map_append, mem_append, map_cons,
      map_nil, mem_singleton]
    tauto
  · unfold State.withProperty
    obtain hold | hown := mem_append.1 hq
    · have hsome := h.accessors q hold e he
      cases p.getter <;> cases p.setter
      · exact hsome
      · exact (sublist_cons_self _ _).lookup_isSome hsome
      · exact (sublist_cons_self _ _).lookup_isSome hsome
      · exact ((sublist_cons_self _ _).cons _).lookup_isSome hsome
    · obtain rfl := mem_singleton.1 hown
      obtain hgetter | hsetter := mem_append.1 he
      · obtain ⟨node, hnode, rfl⟩ := mem_map.1 hgetter
        rw [Option.mem_toList.1 hnode]
        cases q.setter <;> simp
      · obtain ⟨node, hnode, rfl⟩ := mem_map.1 hsetter
        rw [Option.mem_toList.1 hnode]
        simp
  · show (s.symbols.properties ++ [_]).map PropertySymbol.decl = _
    rw [map_append, map_append, h.decls]
    rfl

theorem registerConstructor (hid : id ∉ r.owners) (params : List ParamSymbol)
    (modifiers : Modifiers) : Enrolled (r ++ { constructors := [id] })
      { s with symbols := (s.symbols.registerConstructor (some id) params modifiers).2 } := by
  simp only [Roster.append_def, append_nil]
  refine ⟨h.names, fun other => ?_, h.accessors, h.vars, fun other => ?_, h.signatures, h.decls,
    fun m hm => ?_⟩
  · refine (isSome_lookup_cons_iff s.symbols.declBodies _ _ _).trans ?_
    rw [← SymbolTable.declBody?, h.bodies other, mem_append, mem_singleton]
    tauto
  · have hold := h.owners other
    simp only [SymbolTable.owners, SymbolTable.registerConstructor, map_cons, Roster.owners, mem_append,
      mem_cons] at hold ⊢
    tauto
  · obtain ⟨owner, hbody, hmem⟩ := h.owned m hm
    have hne : owner ≠ id := fun heq =>
      hid (mem_append_left _ (heq ▸ mem_map_of_mem hmem))
    exact ⟨owner, (lookup_cons_of_ne hne _ _).trans hbody, hmem⟩

end Enrolled

end FlowClass
