import FlowClass.Proofs.Model.Declarations

/-!
# Identities of nodes

However a graph was built, its nodes are listed once each in the order in which they came in, and the
next identity is one more than the largest (`Graph.Numbered`). Both follow from the nodes alone, so a
graph that is stored comes back as it was, and goes on with the same identities
(`Graph.identities_fresh_and_stored`).
-/

namespace FlowClass

open List NodeId

/-! ## The next identity -/

/-- One more than the largest of the identities, or zero if there is none. -/
def IsNext (ids : List NodeId) (next : UInt32) : Prop :=
  ids = [] ∧ next = 0 ∨
    ∃ id ∈ ids, next.toNat = id.val.toNat + 1 ∧ ∀ other ∈ ids, other.val.toNat ≤ id.val.toNat

/-- There is an identity behind this one. -/
def NodeId.Fits (id : NodeId) : Prop :=
  id.val.toNat < 4294967295

namespace IsNext

variable {ids : List NodeId} {next next' : UInt32} {id : NodeId}

theorem lt (h : IsNext ids next) (hid : id ∈ ids) : id.val.toNat < next.toNat := by
  obtain ⟨rfl, _⟩ | ⟨last, _, hnext, hle⟩ := h
  · exact absurd hid not_mem_nil
  · have := hle id hid
    omega

theorem fits (h : IsNext ids next) (hid : id ∈ ids) : id.Fits := by
  have hlt := h.lt hid
  have hnext := next.toNat_lt
  unfold Fits
  omega

/-- The nodes leave no choice. -/
theorem eq (h : IsNext ids next) (h' : IsNext ids next') : next' = next := by
  obtain ⟨rfl, rfl⟩ | ⟨id, hid, hnext, hle⟩ := h
  · obtain ⟨_, rfl⟩ | ⟨_, hid, _⟩ := h'
    · rfl
    · exact absurd hid not_mem_nil
  · obtain ⟨rfl, _⟩ | ⟨id', hid', hnext', hle'⟩ := h'
    · exact absurd hid not_mem_nil
    · have := hle id' hid'
      have := hle' id hid
      exact UInt32.toNat.inj (by omega)

/-- Another node moves the next identity behind its own. -/
theorem concat (h : IsNext ids next) (hfits : id.Fits)
    (hle : next ≤ id.val + 1 → next' = id.val + 1) (hgt : ¬next ≤ id.val + 1 → next' = next) :
    IsNext (ids ++ [id]) next' := by
  have hsucc : (id.val + 1).toNat = id.val.toNat + 1 := by
    unfold Fits at hfits
    rw [UInt32.toNat_add, UInt32.toNat_one]
    omega
  by_cases hlast : next ≤ id.val + 1
  · rw [hle hlast]
    rw [UInt32.le_iff_toNat_le, hsucc] at hlast
    refine .inr ⟨id, by simp, hsucc, forall_mem_append.2 ⟨fun other hother => ?_, by simp⟩⟩
    have := h.lt hother
    omega
  · rw [hgt hlast]
    rw [UInt32.le_iff_toNat_le, hsucc] at hlast
    obtain ⟨_, rfl⟩ | ⟨last, hmem, hnext, hall⟩ := h
    · exact absurd (Nat.zero_le _) hlast
    · refine .inr ⟨last, by simp [hmem], hnext, forall_mem_append.2 ⟨hall, ?_⟩⟩
      exact forall_mem_singleton.2 (by omega)

end IsNext

/-! ## Calls -/

/-- What can be done to a graph. -/
inductive GraphCall (ν : Type) where
  | add (n : ν)
  | insert (id : NodeId) (n : ν)
  | replace (id : NodeId) (n : ν)

namespace Graph

variable {ν μ : Type} {g g' : Graph ν} {used : List NodeId} {id : NodeId}

/-- Whether a call succeeds, and the graph that is there after it. -/
def call (g : Graph ν) : GraphCall ν → Except GraphError Unit × Graph ν
  | .add n => (.ok (), (g.add n).2)
  | .insert id n => g.insert id n
  | .replace id n => ((g.replace id n).1.map fun _ => (), (g.replace id n).2)

/-- The node that a call puts in. -/
def entered (g : Graph ν) : GraphCall ν → List NodeId
  | .add n => [(g.add n).1]
  | .insert id _ => if g.contains id then [] else [id]
  | .replace _ _ => []

/-- The identities that a call gives out or is given have one behind them. -/
def Allows (g : Graph ν) : GraphCall ν → Prop
  | .add _ => Fits ⟨g.nextId⟩
  | .insert id _ => id.Fits
  | .replace _ _ => True

/-- The graph was built by calls, in which the given nodes came in one after the other. -/
inductive Built : {ν : Type} → List NodeId → Graph ν → Prop where
  | empty {ν : Type} (name : String) (c : ClassDecl) : Built [] (Graph.empty name c : Graph ν)
  | call {ν : Type} {used : List NodeId} {g : Graph ν} (c : GraphCall ν) (h : g.Allows c) :
    Built used g → Built (used ++ g.entered c) (g.call c).2
  | map {ν μ : Type} {used : List NodeId} {g : Graph ν} (f : ν → μ) :
    Built used g → Built used (g.mapNodes f)

/-- The nodes came in one after the other, and the next identity is behind them all. -/
structure Numbered (used : List NodeId) (g : Graph ν) : Prop where
  ids : g.ids = used
  nodup : used.Nodup
  next : IsNext used g.nextId

theorem contains_iff : g.contains id = true ↔ id ∈ g.ids := by
  rw [contains, get?, Option.isSome_map, find?_isSome, ids, mem_map]
  simp

theorem insert_eq (n : ν) : g.insert id n =
    if id ∈ g.ids then (.error (.duplicateNode id), g)
    else (.ok (), { g with
      nodes := g.nodes ++ [(id, n)]
      nextId := if g.nextId ≤ id.val + 1 then id.val + 1 else g.nextId }) := by
  rw [insert]
  simp only [contains_iff]
  rfl

theorem call_replace (n : ν) : g.call (.replace id n) =
    if id ∈ g.ids then
      (.ok (), { g with nodes := g.nodes.map fun entry => if entry.1 = id then (id, n) else entry })
    else (.error (.nodeNotFound id), g) := by
  have hfound : g.contains id = true ↔ _ := contains_iff
  rw [contains] at hfound
  rw [call, replace]
  cases hget : g.get? id with
  | none => rw [if_neg fun h => by simp [hget] at hfound; exact hfound h]; rfl
  | some old => rw [if_pos (hfound.1 (hget ▸ rfl))]; rfl

/-- A call that fails leaves the graph as it is. -/
theorem call_of_error {c : GraphCall ν} {e : GraphError} (h : (g.call c).1 = .error e) :
    (g.call c).2 = g := by
  cases c with
  | add n => cases h
  | insert id n =>
    rw [show g.call (.insert id n) = _ from insert_eq n] at h ⊢
    split at h
    · rename_i hknown
      rw [if_pos hknown]
    · cases h
  | replace id n =>
    rw [call_replace] at h ⊢
    split at h
    · cases h
    · rename_i hknown
      rw [if_neg hknown]

namespace Numbered

section

variable (h : Numbered used g)
include h

/-- A node with an identity that was not there comes in last. -/
theorem concat (hnew : id ∉ used) (hfits : id.Fits) (n : ν) (hids : g'.nodes = g.nodes ++ [(id, n)])
    (hnext : g'.nextId = if g.nextId ≤ id.val + 1 then id.val + 1 else g.nextId) :
    Numbered (used ++ [id]) g' where
  ids := by rw [Graph.ids, hids, map_append, ← h.ids]; rfl
  nodup := nodup_append.2 ⟨h.nodup, nodup_singleton id, by
    rintro a ha b hb rfl
    exact hnew (mem_singleton.1 hb ▸ ha)⟩
  next := h.next.concat hfits (fun hle => by rw [hnext, if_pos hle])
    fun hgt => by rw [hnext, if_neg hgt]

theorem next_not_mem : ⟨g.nextId⟩ ∉ used := fun hmem => Nat.lt_irrefl _ (h.next.lt hmem)

theorem call (c : GraphCall ν) (hallows : g.Allows c) :
    Numbered (used ++ g.entered c) (g.call c).2 := by
  cases c with
  | add n =>
    refine h.concat h.next_not_mem hallows n rfl ?_
    have hle : g.nextId ≤ g.nextId + 1 := by
      rw [UInt32.le_iff_toNat_le, UInt32.toNat_add, UInt32.toNat_one]
      have : g.nextId.toNat < 2 ^ 32 - 1 := hallows
      omega
    exact (if_pos hle).symm
  | insert id n =>
    rw [show g.call (.insert id n) = _ from insert_eq n, entered]
    simp only [contains_iff]
    by_cases hknown : id ∈ g.ids
    · rw [if_pos hknown, if_pos hknown, append_nil]
      exact h
    · rw [if_neg hknown, if_neg hknown]
      exact h.concat (h.ids ▸ hknown) hallows n rfl rfl
  | replace id n =>
    rw [call_replace, entered, append_nil]
    by_cases hknown : id ∈ g.ids
    · rw [if_pos hknown]
      refine { h with ids := ?_ }
      rw [← h.ids, Graph.ids, map_map, Graph.ids]
      refine map_congr_left fun entry _ => ?_
      dsimp only [Function.comp_apply]
      split
      · rename_i hid
        exact hid.symm
      · rfl
    · rw [if_neg hknown]
      exact h

theorem map (f : ν → μ) : Numbered used (g.mapNodes f) :=
  { h with ids := h.ids ▸ by simp [Graph.ids, mapNodes] }

end

/-- However it was built, a graph is numbered. -/
theorem built {ν : Type} {used : List NodeId} {g : Graph ν} (h : Built used g) : Numbered used g := by
  induction h with
  | empty name c => exact ⟨rfl, nodup_nil, .inl ⟨rfl, rfl⟩⟩
  | call c hallows _ ih => exact ih.call c hallows
  | map f _ ih => exact ih.map f

end Numbered

/-! ## Documents -/

/-- Nodes are put in one after the other, unless one of them is there already. -/
theorem insertAll_cases (g : Graph ν) (hnodup : g.ids.Nodup) (entries : List (NodeId × ν)) :
    (¬(g.ids ++ entries.map Prod.fst).Nodup ∧ ∃ e, g.insertAll entries = .error e) ∨
      (g.ids ++ entries.map Prod.fst).Nodup ∧ ∃ next, g.insertAll entries =
        .ok { g with nodes := g.nodes ++ entries, nextId := next } ∧
        (IsNext g.ids g.nextId → (∀ e ∈ entries, e.1.Fits) →
          IsNext (g.ids ++ entries.map Prod.fst) next) := by
  induction entries generalizing g with
  | nil => exact .inr ⟨by simpa using hnodup, g.nextId, by simp [insertAll], by simp⟩
  | cons e entries ih =>
    obtain ⟨id, n⟩ := e
    rw [insertAll, insert_eq]
    by_cases hknown : id ∈ g.ids
    · rw [if_pos hknown]
      refine .inl ⟨fun h => ?_, _, rfl⟩
      exact (nodup_append.1 h).2.2 id hknown id (by simp) rfl
    · rw [if_neg hknown]
      have hids : ({ g with
          nodes := g.nodes ++ [(id, n)]
          nextId := if g.nextId ≤ id.val + 1 then id.val + 1 else g.nextId } : Graph ν).ids =
          g.ids ++ [id] := by simp [ids]
      have hall : g.ids ++ ((id, n) :: entries).map Prod.fst =
          g.ids ++ [id] ++ entries.map Prod.fst := by simp
      have hconcat : (g.ids ++ [id]).Nodup := nodup_append.2 ⟨hnodup, nodup_singleton id, by
        rintro a ha b hb rfl
        exact hknown (mem_singleton.1 hb ▸ ha)⟩
      have hrest := ih _ (hids ▸ hconcat)
      rw [hids] at hrest
      rw [hall]
      refine hrest.imp_right fun ⟨hnodup, next, hrun, hnext⟩ =>
        ⟨hnodup, next, hrun.trans ?_, fun hg hfits => ?_⟩
      · rw [append_assoc]
        rfl
      · obtain ⟨hid, hrest⟩ := forall_mem_cons.1 hfits
        exact hnext (hg.concat hid (fun hle => if_pos hle) fun hgt => if_neg hgt) hrest

end Graph

namespace Document

variable {ν : Type}

/-- A document has no graph exactly if two declarations or two nodes of it share an identity. -/
theorem toGraph_eq_error_iff (d : Document ν) : (∃ e, d.toGraph = .error e) ↔
    ¬d.classDecl.declIds.Nodup ∨ ¬(d.nodes.map Prod.fst).Nodup := by
  rw [toGraph]
  cases hvalid : d.classDecl.validate with
  | error e =>
    refine iff_of_true ⟨e, rfl⟩ (.inl fun hnodup => ?_)
    rw [ClassDecl.validate_eq_ok_iff.2 hnodup] at hvalid
    cases hvalid
  | ok u =>
    rw [or_iff_right (not_not.2 (ClassDecl.validate_eq_ok_iff.1 hvalid))]
    obtain ⟨hrepeated, hrun⟩ | ⟨hnodup, next, hrun, _⟩ :=
      (Graph.empty d.name d.classDecl).insertAll_cases nodup_nil d.nodes
    · exact iff_of_true hrun hrepeated
    · refine iff_of_false ?_ (not_not.2 hnodup)
      rintro ⟨e, he⟩
      cases he.symm.trans hrun

/-- A numbered graph comes back from its document. -/
theorem toGraph_ofGraph {used : List NodeId} {g : Graph ν} (h : g.Numbered used)
    (hvalid : g.classDecl.validate = .ok ()) : (ofGraph g).toGraph = .ok g := by
  obtain ⟨hrepeated, _⟩ | ⟨_, next, hrun, hnext⟩ :=
    (Graph.empty g.name g.classDecl).insertAll_cases nodup_nil g.nodes
  · exact absurd (h.ids.symm ▸ h.nodup : g.ids.Nodup) hrepeated
  · have hfits (e : NodeId × ν) (he : e ∈ g.nodes) : e.1.Fits :=
      h.next.fits (h.ids ▸ mem_map_of_mem he)
    have hnext : IsNext used next := h.ids ▸ hnext (.inl ⟨rfl, rfl⟩) hfits
    rw [toGraph, ofGraph]
    rw [hvalid]
    rw [hrun, ← hnext.eq h.next]
    rfl

end Document

/-- However a graph was built, with identities that have one behind them: the next identity is one
more than the largest, so that an added node gets one that was never in the graph; an `insert` fails
for a node that is there and a `replace` for one that is not, and the graph stays as it is; the nodes
are listed once each in the order in which they came in; and if the class is valid the graph comes back
from its document, with its next identity. A document has no graph exactly if two of its declarations
or two of its nodes share an identity. -/
theorem Graph.identities_fresh_and_stored {ν : Type} {used : List NodeId} {g : Graph ν}
    (h : Built used g) :
    IsNext used g.nextId ∧ (∀ n, (g.add n).1 ∉ used) ∧
    (∀ id n, (∃ e, (g.call (.insert id n)).1 = .error e) ↔ id ∈ used) ∧
    (∀ id n, (∃ e, (g.call (.replace id n)).1 = .error e) ↔ id ∉ used) ∧
    (∀ c e, (g.call c).1 = .error e → (g.call c).2 = g) ∧ g.ids = used ∧ used.Nodup ∧
    (g.classDecl.validate = .ok () → (Document.ofGraph g).toGraph = .ok g) ∧
    ∀ d : Document ν, (∃ e, d.toGraph = .error e) ↔
      ¬d.classDecl.declIds.Nodup ∨ ¬(d.nodes.map Prod.fst).Nodup := by
  have hnumbered := Numbered.built h
  refine ⟨hnumbered.next, fun n => hnumbered.next_not_mem, fun id n => ?_, fun id n => ?_,
    fun c e => call_of_error, hnumbered.ids, hnumbered.nodup, Document.toGraph_ofGraph hnumbered,
    Document.toGraph_eq_error_iff⟩
  · rw [show g.call (.insert id n) = _ from insert_eq n, ← hnumbered.ids]
    by_cases hknown : id ∈ g.ids <;> simp [hknown]
  · rw [call_replace, ← hnumbered.ids]
    by_cases hknown : id ∈ g.ids <;> simp [hknown]

/-- A node with a chosen identity, one that is refused, and one behind the first. -/
def Graph.lettered : Graph String :=
  (((Graph.empty "G" { name := "G" }).call (.insert ⟨7⟩ "a")).2.call (.insert ⟨7⟩ "b")).2.call
    (.add "c") |>.2

/-- They are numbered 7 and 8, and come back from the document. -/
theorem Graph.lettered_comes_back : Built [⟨7⟩, ⟨8⟩] lettered ∧ lettered.nextId = 9 ∧
    (lettered.add "d").1 ∉ [⟨7⟩, ⟨8⟩] ∧ (Document.ofGraph lettered).toGraph = .ok lettered := by
  have hseven : Fits ⟨7⟩ := by simp [Fits]
  have height : Fits ⟨8⟩ := by simp [Fits]
  have hbuilt : Built [⟨7⟩, ⟨8⟩] lettered :=
    .call (.add "c") (by exact height) (.call (.insert ⟨7⟩ "b") hseven
      (.call (.insert ⟨7⟩ "a") hseven (.empty "G" { name := "G" })))
  obtain ⟨_, hfresh, _, _, _, _, _, hstored, _⟩ := identities_fresh_and_stored hbuilt
  exact ⟨hbuilt, rfl, hfresh "d", hstored rfl⟩

end FlowClass
