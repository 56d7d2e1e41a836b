import FlowClass.Proofs.Document.Restoring

/-!
# Types, literals and terms are restored

Each decoder gives back what the JSON value was written for. The decoders of recursive types carry
fuel, of which there is more than the value has levels. The floating-point numbers in a literal have
to be finite: the others have no JSON number.
-/

namespace FlowClass

open Decoder List Json Literal

/-! ## Names and identities -/

theorem NodeId.restores (id : NodeId) : Restores NodeId.decode id.toJson id :=
  (Restores.uint32 id.val).map NodeId.mk

theorem DeclId.restores (id : DeclId) : Restores DeclId.decode id.toJson id :=
  (Restores.uint32 id.val).map DeclId.mk

theorem Operator.restores (op : Operator) : Restores Operator.decode op.toJson op :=
  .oneOf (by cases op <;> rfl)

theorem AssignOp.restores (op : AssignOp) : Restores AssignOp.decode op.toJson op :=
  .oneOf (by cases op <;> rfl)

theorem Scalar.restores (s : Scalar) : Restores Scalar.decode s.toJson s :=
  .oneOf (by cases s <;> rfl)

theorem TypeSort.restores (s : TypeSort) : Restores TypeSort.decode s.toJson s :=
  .oneOf (by cases s <;> rfl)

theorem Access.restores (a : Access) : Restores Access.decode a.toJson a :=
  .oneOf (by cases a <;> rfl)

theorem StepKind.restores (k : StepKind) : Restores StepKind.decode k.toJson k :=
  .oneOf (by cases k <;> rfl)

theorem Passing.restores (p : Passing) : Restores Passing.decode p.toJson p :=
  .oneOf (by cases p <;> rfl)

theorem CollectionKind.restores (k : CollectionKind) :
    Restores CollectionKind.decode k.toJson k := by
  cases k with
  | array | list => exact .oneOf rfl

theorem UnitQuery.restores (q : UnitQuery) : Restores UnitQuery.decode q.toJson q :=
  .oneOf (by cases q <;> rfl)

theorem NodeId.restores_option (o : Option NodeId) :
    ∀ id ∈ o, Restores NodeId.decode id.toJson id ∧ id.toJson ≠ .null :=
  fun id _ => ⟨id.restores, fun h => by cases h⟩

theorem DeclId.restores_option (o : Option DeclId) :
    ∀ id ∈ o, Restores DeclId.decode id.toJson id ∧ id.toJson ≠ .null :=
  fun id _ => ⟨id.restores, fun h => by cases h⟩

theorem restores_optionalText (o : Option String) :
    ∀ s ∈ o, Restores Decoder.text (text s) s ∧ text s ≠ .null :=
  fun s _ => ⟨.text s, fun h => by cases h⟩

/-! ## Types -/

namespace Ty

theorem toJsons_eq (ts : List Ty) : Ty.toJsons ts = ts.map Ty.toJson := by
  induction ts with
  | nil => rfl
  | cons t ts ih => rw [Ty.toJsons, ih, map_cons]

mutual

theorem restores_fuel : (t : Ty) → ∀ fuel, t.toJson.depth ≤ fuel →
    Restores (Ty.decodeFuel (fuel + 1)) t.toJson t
  | .void => fun _ _ => fun _ _ => rfl
  | .scalar s => fun _ _ => .carried (fun _ => rfl) s.restores
  | .named space name args sort => fun fuel h => by
    rw [Ty.toJson, toJsons_eq] at h ⊢
    rw [depth_tagged] at h
    have hargs : ∀ arg ∈ args, Restores (Ty.decodeFuel fuel) arg.toJson arg := fun arg harg =>
      restores_args args arg harg fuel
        (Nat.lt_trans (depth_lt_item (.tail _ (.tail _ (.head _))) harg) h)
    refine .carried (f := id) (fun _ => (Option.map_id_apply).symm)
      (.record (by simp) fun given hgiven => ?_)
    rw [hgiven.optional "namespace" rfl (restores_optionalText space),
      hgiven.required "name" rfl (.text name), hgiven.list "generics" rfl hargs,
      hgiven.withDefault "kind" rfl sort.restores]
    rfl
  | .array element rank => fun fuel h => by
    rw [Ty.toJson, depth_tagged] at h
    have helement : Restores (Ty.decodeFuel fuel) element.toJson element :=
      .ofFuel (restores_fuel element) (Nat.lt_trans (depth_lt_object (.head _)) h)
    refine .fields (fun _ _ => rfl) (by simp) fun given hgiven => ?_
    rw [hgiven.required "element" rfl helement, hgiven.required "rank" rfl (.uint8 rank)]
    rfl
  | .nullable inner => fun fuel h => by
    rw [Ty.toJson, depth_tagged] at h
    exact .carried (fun _ => rfl) (.ofFuel (restores_fuel inner) h)
  | .typeParam name => fun _ _ => .carried (fun _ => rfl) (.text name)
  | .generated name => fun _ _ => .carried (fun _ => rfl) (.text name)

theorem restores_args : (ts : List Ty) → ∀ t ∈ ts, ∀ fuel, t.toJson.depth < fuel →
    Restores (Ty.decodeFuel fuel) t.toJson t
  | [] => fun _ h => by cases h
  | first :: ts => forall_mem_cons.2
    ⟨fun _ hfuel => .ofFuel (restores_fuel first) hfuel, restores_args ts⟩

end

theorem restores (t : Ty) : Restores Ty.decode t.toJson t :=
  fun r hr => restores_fuel t r.levels hr r hr

theorem restores_option (o : Option Ty) :
    ∀ t ∈ o, Restores Ty.decode t.toJson t ∧ t.toJson ≠ .null := by
  refine fun t _ => ⟨t.restores, fun h => ?_⟩
  cases t <;> cases h

mutual

@[simp] theorem isReadable_toJson : (t : Ty) → t.toJson.isReadable = true
  | .void => rfl
  | .scalar _ => rfl
  | .named _ _ args _ => by
    simp [Ty.toJson, isReadable_toJsons args, TypeSort.toJson, Option.all_map]
  | .array element rank => by simp [Ty.toJson, isReadable_toJson element]
  | .nullable inner => by simp [Ty.toJson, isReadable_toJson inner]
  | .typeParam _ => rfl
  | .generated _ => rfl

theorem isReadable_toJsons : (ts : List Ty) → (Ty.toJsons ts).all isReadable = true
  | [] => rfl
  | t :: ts => by simp [Ty.toJsons, isReadable_toJson t, isReadable_toJsons ts]

end

end Ty

/-! ## Modifiers -/

theorem Modifiers.restores (m : Modifiers) : Restores Modifiers.decode m.toJson m := by
  refine .object (by simp) fun given hgiven => ?_
  rw [hgiven.withDefault "visibility" rfl m.access.restores,
    hgiven.withDefault "is_static" rfl (.bool m.isStatic),
    hgiven.withDefault "is_abstract" rfl (.bool m.isAbstract),
    hgiven.withDefault "is_virtual" rfl (.bool m.isVirtual),
    hgiven.withDefault "is_override" rfl (.bool m.isOverride),
    hgiven.withDefault "is_sealed" rfl (.bool m.isSealed),
    hgiven.withDefault "is_readonly" rfl (.bool m.isReadonly),
    hgiven.withDefault "is_const" rfl (.bool m.isConst),
    hgiven.withDefault "is_partial" rfl (.bool m.isPartial)]
  rfl

/-! ## Literals -/

mutual

/-- The floating-point numbers in a literal. -/
def Literal.reals : Literal → List Double
  | .float value => [value]
  | .double value => [value]
  | .struct _ components => components
  | .array _ items => realsOf items
  | .list _ items => realsOf items
  | _ => []

def Literal.realsOf : List Literal → List Double
  | [] => []
  | l :: ls => reals l ++ realsOf ls

end

/-- Every floating-point number in a list is finite. -/
def AllFinite (reals : List Double) : Prop :=
  ∀ d ∈ reals, d.isFinite = true

theorem allFinite_append {reals reals' : List Double} :
    AllFinite (reals ++ reals') ↔ AllFinite reals ∧ AllFinite reals' :=
  forall_mem_append

theorem AllFinite.part {α : Type} {f : α → List Double} {as : List α} (h : AllFinite (as.flatMap f))
    {a : α} (ha : a ∈ as) : AllFinite (f a) :=
  fun d hd => h d (mem_flatMap.2 ⟨a, ha, hd⟩)

namespace Literal

theorem toJsons_eq (ls : List Literal) : toJsons ls = ls.map toJson := by
  induction ls with
  | nil => rfl
  | cons l ls ih => rw [toJsons, ih, map_cons]

mutual

theorem restores_fuel : (l : Literal) → AllFinite l.reals → ∀ fuel, l.toJson.depth ≤ fuel →
    Restores (decodeFuel (fuel + 1)) l.toJson l
  | .null => fun _ _ _ => fun _ _ => rfl
  | .bool b => fun _ _ _ => .carried (fun _ => rfl) (.bool b)
  | .char c => fun _ _ _ => .carried (fun _ => rfl) (.char c)
  | .string s => fun _ _ _ => .carried (fun _ => rfl) (.text s)
  | .integer value type => fun _ _ _ => by
    refine .fields (fun _ _ => rfl) (by simp) fun given hgiven => ?_
    rw [hgiven.required "value" rfl (.int64 value), hgiven.required "ty" rfl type.restores]
    rfl
  | .unsigned value type => fun _ _ _ => by
    refine .fields (fun _ _ => rfl) (by simp) fun given hgiven => ?_
    rw [hgiven.required "value" rfl (.uint64 value), hgiven.required "ty" rfl type.restores]
    rfl
  | .float value | .double value => fun hfinite _ _ =>
    .carried (fun _ => rfl) (.double (hfinite value (.head _)))
  | .decimal digits => fun _ _ _ => .carried (fun _ => rfl) (.text digits)
  | .enumMember type member => fun _ _ _ => by
    refine .fields (fun _ _ => rfl) (by simp) fun given hgiven => ?_
    rw [hgiven.required "ty" rfl type.restores, hgiven.required "variant" rfl (.text member)]
    rfl
  | .struct type components => fun hfinite _ _ => by
    refine .fields (fun _ _ => rfl) (by simp) fun given hgiven => ?_
    rw [hgiven.required "ty" rfl type.restores,
      hgiven.required "components" rfl (.list fun d hd => .double (hfinite d hd))]
    rfl
  | .array element items | .list element items => fun hfinite fuel h => by
    rw [toJson, toJsons_eq] at h ⊢
    rw [depth_tagged] at h
    have hitems : ∀ l ∈ items, Restores (decodeFuel fuel) l.toJson l := fun l hl =>
      restores_items items hfinite l hl fuel
        (Nat.lt_trans (depth_lt_listed (.tail _ (.head _)) hl) h)
    refine .fields (fun _ _ => rfl) (by simp) fun given hgiven => ?_
    rw [hgiven.required "element" rfl element.restores, hgiven.required "items" rfl (.list hitems)]
    rfl
  | .default type => fun _ _ _ => .carried (fun _ => rfl) type.restores

theorem restores_items : (ls : List Literal) → AllFinite (realsOf ls) → ∀ l ∈ ls, ∀ fuel,
    l.toJson.depth < fuel → Restores (decodeFuel fuel) l.toJson l
  | [] => fun _ _ h => by cases h
  | first :: ls => fun hfinite => forall_mem_cons.2
    ⟨fun _ hfuel => .ofFuel (restores_fuel first (allFinite_append.1 hfinite).1) hfuel,
      restores_items ls (allFinite_append.1 hfinite).2⟩

end

theorem restores (l : Literal) (h : AllFinite l.reals) : Restores decode l.toJson l :=
  fun r hr => restores_fuel l h r.levels hr r hr

theorem restores_option {o : Option Literal} (h : AllFinite (o.toList.flatMap reals)) :
    ∀ l ∈ o, Restores decode l.toJson l ∧ l.toJson ≠ .null := by
  rintro l rfl
  refine ⟨l.restores (h.part (mem_singleton.2 rfl)), fun hnull => ?_⟩
  cases l <;> cases hnull

mutual

@[simp] theorem isReadable_toJson (l : Literal) : l.toJson.isReadable = true := by
  cases l with
  | array _ items | list _ items => simpa [toJson] using isReadable_toJsons items
  | _ => simp [toJson, Scalar.toJson]

theorem isReadable_toJsons (ls : List Literal) : ∀ j ∈ toJsons ls, j.isReadable = true := by
  cases ls with
  | nil => simp [toJsons]
  | cons l ls => simpa [toJsons, isReadable_toJson l] using isReadable_toJsons ls

end

end Literal

/-! ## Terms -/

theorem VarRef.restores (ref : VarRef) : Restores VarRef.decode ref.toJson ref := by
  cases ref with
  | field decl => exact .carried (fun _ => rfl) decl.restores
  | localOf function decl =>
    refine .fields (fun _ _ => rfl) (by simp) fun given hgiven => ?_
    rw [hgiven.required "function" rfl function.restores, hgiven.required "variable" rfl decl.restores]
    rfl
  | parameter owner index =>
    refine .fields (fun _ _ => rfl) (by simp) fun given hgiven => ?_
    rw [hgiven.required "owner" rfl owner.restores, hgiven.required "index" rfl (.uint64 index)]
    rfl
  | setterValue => exact fun _ _ => rfl

@[simp] theorem VarRef.isReadable_toJson (ref : VarRef) : ref.toJson.isReadable = true := by
  cases ref <;> simp [VarRef.toJson, DeclId.toJson]

theorem Param.restores (p : Param) : Restores Param.decode p.toJson p := by
  refine .object (by simp) fun given hgiven => ?_
  rw [hgiven.required "name" rfl (.text p.name), hgiven.required "ty" rfl p.type.restores,
    hgiven.withDefault "modifier" rfl p.passing.restores]
  rfl

mutual

/-- The floating-point numbers in a term. -/
def Term.reals : Term → List Double
  | .literal value => value.reals
  | .collection _ _ items => Term.realsOf items
  | .chain root steps => ChainRoot.reals root ++ Step.realsOf steps
  | _ => []

def ChainRoot.reals : ChainRoot → List Double
  | .ofValue value => Term.reals value
  | _ => []

def Step.reals : Step → List Double
  | ⟨_, _, _, _, args, _, _, _⟩ => Term.realsOf args

def Term.realsOf : List Term → List Double
  | [] => []
  | t :: ts => Term.reals t ++ Term.realsOf ts

def Step.realsOf : List Step → List Double
  | [] => []
  | s :: ss => Step.reals s ++ Step.realsOf ss

end

namespace Term

theorem toJsons_eq (ts : List Term) : Term.toJsons ts = ts.map Term.toJson := by
  induction ts with
  | nil => rfl
  | cons t ts ih => rw [Term.toJsons, ih, map_cons]

theorem stepJsons_eq (ss : List Step) : Step.toJsons ss = ss.map Step.toJson := by
  induction ss with
  | nil => rfl
  | cons s ss ih => rw [Step.toJsons, ih, map_cons]

mutual

theorem restores_fuel : (t : Term) → AllFinite t.reals → ∀ fuel, t.toJson.depth ≤ fuel →
    Restores (Term.decodeFuel (fuel + 1)) t.toJson t
  | .unassigned => fun _ _ _ => fun _ _ => rfl
  | .literal value => fun hfinite _ _ =>
    .carried (fun _ => rfl) (value.restores hfinite)
  | .variable ref => fun _ _ _ => .carried (fun _ => rfl) ref.restores
  | .typeOf type => fun _ _ _ => .carried (fun _ => rfl) type.restores
  | .self => fun _ _ _ => fun _ _ => rfl
  | .output node port => fun _ _ _ => by
    refine .fields (fun _ _ => rfl) (by simp) fun given hgiven => ?_
    rw [hgiven.required "node" rfl node.restores, hgiven.required "port" rfl (.uint16 port)]
    rfl
  | .collection kind element items => fun hfinite fuel h => by
    rw [Term.toJson, toJsons_eq] at h ⊢
    rw [depth_tagged] at h
    have hitems : ∀ t ∈ items, Restores (Term.decodeFuel fuel) t.toJson t := fun t ht =>
      restores_items items hfinite t ht fuel
        (Nat.lt_trans (depth_lt_listed (.tail _ (.tail _ (.head _))) ht) h)
    refine .fields (fun _ _ => rfl) (by simp) fun given hgiven => ?_
    rw [hgiven.required "kind" rfl kind.restores, hgiven.required "element" rfl element.restores,
      hgiven.required "items" rfl (.list hitems)]
    rfl
  | .chain root steps => fun hfinite fuel h => by
    rw [Term.toJson, stepJsons_eq] at h ⊢
    rw [depth_tagged] at h
    have hroot : Restores (ChainRoot.decodeWith (Term.decodeFuel fuel)) root.toJson root :=
      restores_root root (allFinite_append.1 hfinite).1 fuel
        (Nat.le_of_lt (Nat.lt_trans (depth_lt_object (.head _)) h))
    have hsteps : ∀ s ∈ steps, Restores (Step.decodeWith (Term.decodeFuel fuel)) s.toJson s :=
      fun s hs => restores_steps steps (allFinite_append.1 hfinite).2 s hs fuel
        (Nat.le_of_lt (Nat.lt_trans (depth_lt_listed (.tail _ (.head _)) hs) h))
    refine .fields (fun _ _ => rfl) (by simp) fun given hgiven => ?_
    rw [hgiven.required "root" rfl hroot, hgiven.required "items" rfl (.list hsteps)]
    rfl

theorem restores_root : (root : ChainRoot) → AllFinite root.reals → ∀ fuel, root.toJson.depth ≤ fuel →
    Restores (ChainRoot.decodeWith (Term.decodeFuel fuel)) root.toJson root
  | .ofType type => fun _ _ _ => .carried (fun _ => rfl) type.restores
  | .ofValue value => fun hfinite fuel h => by
    rw [ChainRoot.toJson, depth_tagged] at h
    exact .carried (fun _ => rfl) (.ofFuel (restores_fuel value hfinite) h)
  | .self => fun _ _ _ => fun _ _ => rfl

theorem restores_step : (s : Step) → AllFinite s.reals → ∀ fuel, s.toJson.depth ≤ fuel →
    Restores (Step.decodeWith (Term.decodeFuel fuel)) s.toJson s
  | ⟨name, kind, type, params, args, typeArgs, reflected, decl⟩ => fun hfinite fuel h => by
    rw [Step.toJson, toJsons_eq] at h ⊢
    have hargs : ∀ arg ∈ args, Restores (Term.decodeFuel fuel) arg.toJson arg := fun arg harg =>
      restores_items args hfinite arg harg fuel (Nat.lt_of_lt_of_le
        (depth_lt_item (.tail _ (.tail _ (.tail _ (.tail _ (.head _))))) harg) h)
    refine .record (by simp) fun given hgiven => ?_
    rw [hgiven.required "name" rfl (.text name), hgiven.required "kind" rfl kind.restores,
      hgiven.required "value_type" rfl type.restores, hgiven.list "params" rfl fun p _ => p.restores,
      hgiven.list "args" rfl hargs, hgiven.list "generic_args" rfl fun t _ => t.restores,
      hgiven.withDefault "reflected" rfl (.bool reflected),
      hgiven.optional "decl" rfl (DeclId.restores_option decl)]
    rfl

theorem restores_items : (ts : List Term) → AllFinite (realsOf ts) → ∀ t ∈ ts, ∀ fuel,
    t.toJson.depth < fuel → Restores (Term.decodeFuel fuel) t.toJson t
  | [] => fun _ _ h => by cases h
  | first :: ts => fun hfinite => forall_mem_cons.2
    ⟨fun _ hfuel => .ofFuel (restores_fuel first (allFinite_append.1 hfinite).1) hfuel,
      restores_items ts (allFinite_append.1 hfinite).2⟩

theorem restores_steps : (ss : List Step) → AllFinite (Step.realsOf ss) → ∀ s ∈ ss, ∀ fuel,
    s.toJson.depth ≤ fuel → Restores (Step.decodeWith (Term.decodeFuel fuel)) s.toJson s
  | [] => fun _ _ h => by cases h
  | first :: ss => fun hfinite => forall_mem_cons.2
    ⟨restores_step first (allFinite_append.1 hfinite).1,
      restores_steps ss (allFinite_append.1 hfinite).2⟩

end

theorem restores (t : Term) (h : AllFinite t.reals) : Restores Term.decode t.toJson t :=
  fun r hr => restores_fuel t h r.levels hr r hr

mutual

@[simp] theorem isReadable_toJson (t : Term) : t.toJson.isReadable = true := by
  cases t with
  | collection kind _ items =>
    cases kind <;> simpa [Term.toJson, CollectionKind.toJson] using isReadable_toJsons items
  | chain root steps =>
    simpa [Term.toJson, isReadable_rootJson root] using isReadable_stepJsons steps
  | _ => simp [Term.toJson, NodeId.toJson]

theorem isReadable_rootJson (root : ChainRoot) : root.toJson.isReadable = true := by
  cases root with
  | ofValue value => simp [ChainRoot.toJson, isReadable_toJson value]
  | _ => simp [ChainRoot.toJson]

theorem isReadable_stepJson (s : Step) : s.toJson.isReadable = true := by
  obtain ⟨_, _, _, _, args, _, _, _⟩ := s
  simpa [Step.toJson, StepKind.toJson, Param.toJson, Passing.toJson, DeclId.toJson, Option.all_map]
    using isReadable_toJsons args

theorem isReadable_toJsons (ts : List Term) : ∀ j ∈ Term.toJsons ts, j.isReadable = true := by
  cases ts with
  | nil => simp [Term.toJsons]
  | cons t ts => simpa [Term.toJsons, isReadable_toJson t] using isReadable_toJsons ts

theorem isReadable_stepJsons (ss : List Step) : ∀ j ∈ Step.toJsons ss, j.isReadable = true := by
  cases ss with
  | nil => simp [Step.toJsons]
  | cons s ss => simpa [Step.toJsons, isReadable_stepJson s] using isReadable_stepJsons ss

end

end Term

end FlowClass
