import FlowClass.Model.Graph
import Mathlib.Data.List.Nodup

/-!
# Looking up declarations

A class has one list of declarations (`ClassDecl.decls`), in the order in which it is searched. What is
found under an identity is the first declaration of that list that has it, so in a valid class, where
no two declarations share an identity, each one is found under its own, and nothing else is found
(`ClassDecl.find?_eq_some_iff`).
-/

namespace FlowClass

open List

namespace Decl

/-- The declaration is one of the class, or a local of one of its functions. -/
def Belongs (c : ClassDecl) : Decl → Prop
  | .variable v => v ∈ c.fields
  | .localOf f v => f ∈ c.functions ∧ v ∈ f.locals
  | .function f => f ∈ c.functions
  | .property p => p ∈ c.properties
  | .constructor k => k ∈ c.constructors
  | .event e => e ∈ c.events

def id : Decl → DeclId
  | .variable v => v.id
  | .localOf _ v => v.id
  | .function f => f.id
  | .property p => p.id
  | .constructor k => k.id
  | .event e => e.id

end Decl

namespace ClassDecl

variable {c : ClassDecl} {id : DeclId} {decl : Decl}

/-- All declarations of a class, each function before its locals. -/
def decls (c : ClassDecl) : List Decl :=
  c.fields.map .variable ++ (c.functions.flatMap (fun f => .function f :: f.locals.map (.localOf f)) ++
    (c.properties.map .property ++ (c.constructors.map .constructor ++ c.events.map .event)))

theorem mem_decls : decl ∈ c.decls ↔ decl.Belongs c := by
  cases decl <;> simp [decls, Decl.Belongs]

theorem map_id_decls (c : ClassDecl) : c.decls.map Decl.id = c.declIds := by
  have hids (f : FunctionDecl) :
      (Decl.function f :: f.locals.map (Decl.localOf f)).map Decl.id = f.ids := by
    simp [FunctionDecl.ids, Decl.id]
  simp only [decls, declIds, map_append, map_map, map_flatMap, hids, append_assoc]
  rfl

theorem find?_eq (c : ClassDecl) (id : DeclId) : c.find? id = c.decls.find? (·.id = id) := by
  have hfunction (f : FunctionDecl) : f.find? id =
      (Decl.function f :: f.locals.map (Decl.localOf f)).find? (·.id = id) := by
    rw [FunctionDecl.find?, find?_cons, find?_map]
    by_cases hid : f.id = id
    · simp [hid, Decl.id]
    · simp only [hid, Decl.id, if_false, decide_false]
      rfl
  simp only [find?, decls, find?_append, find?_map, find?_flatMap, hfunction]
  rfl

theorem belongs_of_get (h : c.get id = .ok decl) : decl.Belongs c := by
  unfold get at h
  split at h
  · rename_i found hfound
    cases h
    exact mem_decls.1 (mem_of_find?_eq_some (c.find?_eq id ▸ hfound))
  · cases h

/-! ## Identities that are not shared -/

theorem firstRepeated_eq_none_iff {α : Type} [DecidableEq α] {seen l : List α} :
    firstRepeated seen l = none ↔ l.Nodup ∧ ∀ a ∈ l, a ∉ seen := by
  induction l generalizing seen with
  | nil => simp [firstRepeated]
  | cons a l ih =>
    rw [firstRepeated]
    split
    · rename_i hseen
      exact iff_of_false (Option.some_ne_none a) fun h => h.2 a mem_cons_self hseen
    · rename_i hseen
      rw [ih, nodup_cons, forall_mem_cons]
      simp only [mem_cons, not_or]
      refine ⟨fun ⟨hnodup, hfresh⟩ => ⟨⟨fun ha => (hfresh a ha).1 rfl, hnodup⟩, hseen, ?_⟩,
        fun ⟨⟨ha, hnodup⟩, _, hfresh⟩ => ⟨hnodup, fun b hb => ⟨?_, hfresh b hb⟩⟩⟩
      · exact fun b hb => (hfresh b hb).2
      · rintro rfl
        exact ha hb

/-- A class is valid if no two of its declarations share an identity. -/
theorem validate_eq_ok_iff : c.validate = .ok () ↔ c.declIds.Nodup := by
  unfold validate
  split
  · rename_i id hid
    refine iff_of_false (fun h => by cases h) fun hnodup => ?_
    rw [firstRepeated_eq_none_iff.2 ⟨hnodup, by simp⟩] at hid
    cases hid
  · rename_i hnone
    exact iff_of_true rfl (firstRepeated_eq_none_iff.1 hnone).1

theorem nodup_declIds (h : c.validate = .ok ()) : c.declIds.Nodup :=
  validate_eq_ok_iff.1 h

/-! ## Each one is found -/

theorem find?_eq_none_iff : c.find? id = none ↔ id ∉ c.declIds := by
  rw [find?_eq, List.find?_eq_none, ← map_id_decls]
  simp

section Found

variable (hnodup : c.declIds.Nodup)
include hnodup

/-- Exactly the declaration with an identity is found under it. -/
theorem find?_eq_some_iff : c.find? id = some decl ↔ decl.Belongs c ∧ decl.id = id := by
  rw [find?_eq, ← mem_decls]
  constructor
  · intro h
    exact ⟨mem_of_find?_eq_some h, by simpa using find?_some h⟩
  · rintro ⟨hmem, rfl⟩
    obtain ⟨found, hfound⟩ : ∃ found, c.decls.find? (·.id = decl.id) = some found :=
      Option.isSome_iff_exists.1 (find?_isSome.2 ⟨decl, hmem, by simp⟩)
    have hid : found.id = decl.id := by simpa using find?_some hfound
    rw [← map_id_decls] at hnodup
    rw [hfound, inj_on_of_nodup_map hnodup (mem_of_find?_eq_some hfound) hmem hid]

theorem get_of_belongs (decl : Decl) (h : decl.Belongs c) : c.get decl.id = .ok decl := by
  rw [get, (find?_eq_some_iff hnodup).2 ⟨h, rfl⟩]

end Found

end ClassDecl

end FlowClass
