import FlowClass.Proofs.Program.Registration

/-!
# Declarations and their entry points

A class is valid if no two of its declarations share an identity. Then a lookup finds exactly the
declarations of the class, each under its own identity, and so the owner of an entry point is a
declaration that such an entry point belongs to: it is never refused for its declaration
(`ClassDecl.declarations_found`).
-/

namespace FlowClass

/-- The declaration can have an entry point of this kind. -/
def EntryKind.Expects : EntryKind → Decl → Prop
  | .function, .function _ => True
  | .getter, .property _ => True
  | .setter, .property _ => True
  | .constructor, .constructor _ => True
  | .event, .event _ => True
  | _, _ => False

namespace Emit

variable {env : Env Node} {e : EntryPoint}

/-- There is a place in a declaration for exactly the entry points it can have. -/
theorem entryPlace?_isSome (c : ClassDecl) (e : EntryPoint) (body : BodyId) (decl : Decl) :
    (entryPlace? c e body decl).isSome = true ↔ e.kind.Expects decl := by
  obtain ⟨owner, kind, node⟩ := e
  cases kind <;> cases decl <;> simp [entryPlace?, EntryKind.Expects]

/-- The declaration of an entry point fits, so nothing but a missing body is wrong with the class. -/
theorem entry_ne_mismatch (hids : env.graph.classDecl.declIds.Nodup)
    (he : e ∈ env.graph.classDecl.entryPoints) (s : State) (kind : EntryKind) (name : String) :
    (entry e env s).1 ≠ .error (.invalid (.entryMismatch kind name)) := by
  intro hfailed
  cases hbody : entryBody? s e with
  | none =>
    rw [entry_apply] at hfailed
    unfold entryWith at hfailed
    rw [get_bind, hbody] at hfailed
    cases hfailed
  | some body => exact entry_ne_invalid hids he hbody (fun _ h => by cases h) hfailed

end Emit

namespace ClassDecl

/-- The declarations of a class are its fields, its functions with their locals, its properties,
constructors and events, and it is valid exactly if their identities are pairwise different. In a
valid class exactly the declaration with an identity is found under it, and nothing where there is
none. Every entry point is then owned by a declaration that can have it, so none is ever refused for
not matching its declaration. -/
theorem declarations_found (c : ClassDecl) :
    (∀ decl, decl ∈ c.decls ↔ decl.Belongs c) ∧
    (c.validate = .ok () ↔ (c.decls.map Decl.id).Nodup) ∧
    (c.validate = .ok () →
      (∀ id decl, c.find? id = some decl ↔ decl.Belongs c ∧ decl.id = id) ∧
      (∀ id, c.find? id = none ↔ ∀ decl : Decl, decl.Belongs c → decl.id ≠ id) ∧
      ∀ e ∈ c.entryPoints,
        (∃ decl, c.get e.owner = .ok decl ∧ decl.Belongs c ∧ decl.id = e.owner ∧
          e.kind.Expects decl ∧ ∀ body, (Emit.entryPlace? c e body decl).isSome = true) ∧
        ∀ (env : Env Node) s kind name, env.graph.classDecl = c →
          (Emit.entry e env s).1 ≠ .error (.invalid (.entryMismatch kind name))) := by
  refine ⟨fun _ => mem_decls, by rw [validate_eq_ok_iff, map_id_decls], fun hvalid => ?_⟩
  have hids := nodup_declIds hvalid
  refine ⟨fun _ _ => find?_eq_some_iff hids, fun id => ?_, fun e he => ⟨?_, ?_⟩⟩
  · rw [find?_eq_none_iff, ← map_id_decls, List.mem_map]
    simp only [mem_decls]
    exact ⟨fun h decl hdecl hid => h ⟨decl, hdecl, hid⟩, fun h ⟨decl, hdecl, hid⟩ => h decl hdecl hid⟩
  · obtain ⟨decl, place, hget, hplace⟩ := Emit.exists_entryPlace hids he ⟨0⟩
    have hfound : c.find? e.owner = some decl := by
      unfold get at hget
      split at hget <;> cases hget
      assumption
    have hexpects := (Emit.entryPlace?_isSome c e ⟨0⟩ decl).1 (by rw [hplace]; rfl)
    exact ⟨decl, hget, belongs_of_get hget, ((find?_eq_some_iff hids).1 hfound).2, hexpects,
      fun body => (Emit.entryPlace?_isSome c e body decl).2 hexpects⟩
  · rintro env s kind name rfl
    exact Emit.entry_ne_mismatch hids he s kind name

end ClassDecl

end FlowClass
