import FlowClass.Proofs.Marker.Strands

/-!
# Marked texts

A `Forest` is a text some parts of which are marked, and parts of these again. Rendered, each marked
part stands between its two tokens. Extraction inverts rendering: it gives the leaves back and, for
every marked part, the place that the part has among them (`extract_render`).

Leaves may have anything in them but the start of a token. That is asked of each leaf together with
the leaves right behind it, since two leaves can spell the start of a token that neither of them has
in it (`splitStart_not_extracted`).
-/

namespace FlowClass

open List Position

variable {p q : Position}

/-! ## Places -/

namespace Position

/-- The place behind a text: one more than the line feeds, and one more than the characters behind
the last of them. -/
def after (before : List Char) : Position :=
  ⟨before.count '\n' + 1, (before.reverse.takeWhile (· ≠ '\n')).length + 1⟩

theorem advance_after (before : List Char) (c : Char) :
    (after before).advance c = after (before ++ [c]) := by
  unfold after advance
  by_cases hc : c = '\n'
  · subst hc
    simp
  · simp [hc]

theorem le_iff : p.le q = true ↔ p.line < q.line ∨ p.line = q.line ∧ p.column ≤ q.column := by
  simp [le]

theorem lt_iff : p.lt q = true ↔ p.line < q.line ∨ p.line = q.line ∧ p.column < q.column := by
  rw [lt, Bool.not_eq_true', ← Bool.not_eq_true, le_iff]
  omega

theorem ext_iff : p = q ↔ p.line = q.line ∧ p.column = q.column := by
  cases p
  cases q
  simp

end Position

/-- Spans are ranked by their places. -/
theorem SourceSpan.ranks_le : Ranks SourceSpan.le where
  total a b := by
    simp only [SourceSpan.le, Bool.or_eq_true, Bool.and_eq_true, beq_iff_eq, lt_iff,
      le_iff, ext_iff]
    omega
  trans a b c := by
    simp only [SourceSpan.le, Bool.or_eq_true, Bool.and_eq_true, beq_iff_eq, lt_iff,
      le_iff, ext_iff]
    omega

namespace Marker

/-! ## Forests -/

/-- Texts and marked parts, one behind the other. -/
inductive Forest where
  | nil
  /-- A leaf, and what is behind it. -/
  | text (leaf : String) (rest : Forest)
  /-- A marked part, and what is behind it. -/
  | marked (id : MarkerId) (inner rest : Forest)

/-- A marked part of a forest. -/
structure Part where
  id : MarkerId
  /-- The marked parts it stands in. -/
  depth : Nat
  /-- The leaves before it. -/
  before : List Char
  /-- Its own leaves. -/
  inside : List Char

/-- The identity of a part, with the places where its text starts and ends. -/
def Part.span (p : Part) : SourceSpan :=
  ⟨p.id, .after p.before, .after (p.before ++ p.inside)⟩

namespace Forest

/-- The text with tokens around each marked part. -/
def render : Forest → String
  | nil => ""
  | text leaf rest => leaf ++ rest.render
  | marked id inner rest => wrap id inner.render ++ rest.render

/-- The leaves, joined. -/
def plain : Forest → List Char
  | nil => []
  | text leaf rest => leaf.toList ++ rest.plain
  | marked _ inner rest => inner.plain ++ rest.plain

def leaves : Forest → List String
  | nil => []
  | text leaf rest => leaf :: rest.leaves
  | marked _ inner rest => inner.leaves ++ rest.leaves

/-- The leaves up to the first marked part, joined. -/
def firstRun : Forest → List Char
  | text leaf rest => leaf.toList ++ rest.firstRun
  | _ => []

/-- Each leaf, joined with the leaves right behind it. -/
def runs : Forest → List (List Char)
  | nil => []
  | text leaf rest => (leaf.toList ++ rest.firstRun) :: rest.runs
  | marked _ inner rest => inner.runs ++ rest.runs

/-- The marked parts in the order in which they start, an outer one before those in it. -/
def parts (depth : Nat) (before : List Char) : Forest → List Part
  | nil => []
  | text leaf rest => rest.parts depth (before ++ leaf.toList)
  | marked id inner rest =>
    ⟨id, depth, before, inner.plain⟩ ::
      (inner.parts (depth + 1) before ++ rest.parts depth (before ++ inner.plain))

end Forest

/-- The text has the start of no token in it. -/
def Tokenless (s : List Char) : Prop :=
  ¬ openMark <:+: s ∧ ¬ closeMark <:+: s

instance (s : List Char) : Decidable (Tokenless s) :=
  inferInstanceAs (Decidable (_ ∧ _))

namespace Forest

/-! ## Rendering -/

def strands : Forest → List Strand
  | nil => []
  | text leaf rest => leaf.toList.map .char ++ rest.strands
  | marked id inner rest => .token true id :: (inner.strands ++ .token false id :: rest.strands)

theorem render_strands (f : Forest) : f.render.toList = Marker.render f.strands := by
  induction f with
  | nil => rfl
  | text leaf rest ih => rw [render, strands, String.toList_append, render_append, render_chars, ih]
  | marked id inner rest ihinner ihrest =>
    rw [render, strands, String.toList_append, toList_wrap, render_cons, render_append, render_cons,
      ihinner, ihrest]
    simp only [append_assoc]

theorem lead_chars_append (s : List Char) (b : List Strand) :
    lead (s.map .char ++ b) = s ++ lead b := by
  induction s with
  | nil => rfl
  | cons c s ih => exact congrArg (c :: ·) ih

theorem lead_strands (f : Forest) : lead f.strands = f.firstRun := by
  induction f with
  | nil => rfl
  | text leaf rest ih => rw [strands, lead_chars_append, ih, firstRun]
  | marked id inner rest => rfl

theorem clear_chars {s : List Char} {b : List Strand} (h : Tokenless (s ++ lead b)) (hb : Clear b) :
    Clear (s.map .char ++ b) := by
  induction s with
  | nil => exact hb
  | cons c s ih =>
    refine ⟨?_, ih ⟨fun hopen => h.1 ?_, fun hclose => h.2 ?_⟩⟩
    · rw [show lead (_ :: _) = c :: s ++ lead b from lead_chars_append (c :: s) b,
        tokenStart?_eq_none_iff]
      exact ⟨fun hopen => h.1 hopen.isInfix, fun hclose => h.2 hclose.isInfix⟩
    · exact hopen.trans (suffix_cons c _).isInfix
    · exact hclose.trans (suffix_cons c _).isInfix

/-- A token ends the run before it. -/
theorem clear_token {a b : List Strand} (ha : Clear a) (opening : Bool) (id : MarkerId)
    (hb : Clear b) : Clear (a ++ .token opening id :: b) := by
  have hlead (a : List Strand) : lead (a ++ .token opening id :: b) = lead a := by
    induction a with
    | nil => rfl
    | cons x a ih =>
      cases x with
      | char c => exact congrArg (c :: ·) ih
      | token opening' id' => rfl
  induction a with
  | nil => exact ⟨rfl, hb⟩
  | cons x a ih =>
    refine ⟨?_, ih ha.2⟩
    rw [show lead (_ :: _) = lead (x :: a) from hlead (x :: a)]
    exact ha.1

theorem clear_strands {f : Forest} (h : ∀ run ∈ f.runs, Tokenless run) : Clear f.strands := by
  induction f with
  | nil => trivial
  | text leaf rest ih =>
    rw [runs, forall_mem_cons] at h
    exact clear_chars (by rw [lead_strands]; exact h.1) (ih h.2)
  | marked id inner rest ihinner ihrest =>
    rw [runs, forall_mem_append] at h
    exact ⟨rfl, clear_token (ihinner h.1) false id (ihrest h.2)⟩

/-! ## Extraction -/

/-- The spans in the order in which they end, an inner one before those it is in. -/
def closings (before : List Char) : Forest → List SourceSpan
  | nil => []
  | text leaf rest => rest.closings (before ++ leaf.toList)
  | marked id inner rest =>
    inner.closings before ++
      ⟨id, .after before, .after (before ++ inner.plain)⟩ :: rest.closings (before ++ inner.plain)

theorem closings_perm (f : Forest) (depth : Nat) (before : List Char) :
    (f.closings before).Perm ((f.parts depth before).map Part.span) := by
  induction f generalizing depth before with
  | nil => exact .refl _
  | text leaf rest ih => exact ih depth _
  | marked id inner rest ihinner ihrest =>
    rw [closings, parts, map_cons, map_append]
    exact perm_middle.trans (((ihinner (depth + 1) before).append (ihrest depth _)).cons _)

end Forest

/-- An extraction that has kept a text. -/
def Extraction.amid (before : List Char) (opened : List (MarkerId × Position))
    (closed : List SourceSpan) : Extraction :=
  ⟨before.reverse, .after before, opened, closed⟩

section Runs

variable (before : List Char) (opened : List (MarkerId × Position)) (closed : List SourceSpan)
  (ps : List Piece)

theorem run_chars (s : List Char) :
    (Extraction.amid before opened closed).run ((s.map Strand.char).map Strand.piece ++ ps) =
      (Extraction.amid (before ++ s) opened closed).run ps := by
  induction s generalizing before with
  | nil => rw [append_nil]; rfl
  | cons c s ih =>
    have hstep : (Extraction.amid before opened closed).step (.char c) =
        .ok (.amid (before ++ [c]) opened closed) := by
      simp [Extraction.step, Extraction.amid, advance_after]
    rw [map_cons, map_cons, cons_append, Extraction.run, Strand.piece, hstep]
    dsimp only
    rw [ih, append_assoc, singleton_append]

/-- A forest is taken in as a whole: its leaves are kept, and its spans are closed. -/
theorem run_forest (f : Forest) :
    (Extraction.amid before opened closed).run (f.strands.map Strand.piece ++ ps) =
      (Extraction.amid (before ++ f.plain) opened ((f.closings before).reverse ++ closed)).run ps := by
  induction f generalizing before opened closed ps with
  | nil => rw [Forest.plain, append_nil]; rfl
  | text leaf rest ih =>
    rw [Forest.strands, Forest.plain, Forest.closings, map_append, append_assoc, run_chars,
      ih, append_assoc]
  | marked id inner rest ihinner ihrest =>
    have hopen : (Extraction.amid before opened closed).step (.token true id.text.toList) =
        .ok (.amid before ((id, .after before) :: opened) closed) := step_open _ id
    have hclose : (Extraction.amid (before ++ inner.plain) ((id, .after before) :: opened)
        ((inner.closings before).reverse ++ closed)).step (.token false id.text.toList) =
        .ok (.amid (before ++ inner.plain) opened
          (⟨id, .after before, .after (before ++ inner.plain)⟩ ::
            ((inner.closings before).reverse ++ closed))) := step_close rfl
    -- the token on top of the open ones is that of the part itself when its inner forest is done
    rw [Forest.strands, map_cons, cons_append, Extraction.run, Strand.piece, hopen]
    dsimp only
    rw [map_append, append_assoc, ihinner, map_cons, cons_append, Extraction.run,
      Strand.piece, hclose]
    dsimp only
    rw [ihrest, Forest.plain, Forest.closings, append_assoc]
    simp

end Runs

/-- Extraction gives the leaves, and the spans sorted from the order in which they end. -/
theorem extract_forest {f : Forest} (h : ∀ run ∈ f.runs, Tokenless run) (order : List MarkerId) :
    extract order f.render =
      .ok (String.ofList f.plain, { spans := sortBy SourceSpan.le (f.closings []) }) := by
  have hrun := run_forest [] [] [] [] f
  rw [append_nil, append_nil, nil_append] at hrun
  have hstart : ({} : Extraction) = .amid [] [] [] := rfl
  refine extract_ok_iff.2 ⟨.amid f.plain [] (f.closings []).reverse, ?_, rfl, ?_⟩
  · rw [f.render_strands, pieces_render (Forest.clear_strands h), hstart, hrun, Extraction.run]
  · simp [Extraction.amid]

/-- Extraction inverts marking: it gives the leaves back, and for every marked part its identity and
the places where its text starts and ends. Spans that start first stand first, and of those that
start together the one that ends last. -/
theorem extract_render (f : Forest) (h : ∀ run ∈ f.runs, Tokenless run) :
    ∃ map : SourceMap, (∀ order, extract order f.render = .ok (String.ofList f.plain, map)) ∧
      map.spans.Perm ((f.parts 0 []).map Part.span) ∧
      map.spans.Pairwise fun a b =>
        a.start.lt b.start = true ∨ a.start = b.start ∧ b.stop.le a.stop = true := by
  refine ⟨_, extract_forest h, (perm_sortBy _).trans (f.closings_perm 0 []), ?_⟩
  refine (SourceSpan.ranks_le.ascending_sortBy _).imp fun hle => ?_
  simpa [SourceSpan.le] using hle

/-- A part that starts like a token once its marker is gone, and holds a part of the same identity. -/
def joinedStart : Forest :=
  .text "/*" (.marked (.node ⟨1⟩) (.text "#<\n" (.marked (.node ⟨1⟩) .nil (.text "*/" .nil))) .nil)

theorem joinedStart_extracted :
    (∀ run ∈ joinedStart.runs, Tokenless run) ∧
    ∃ map : SourceMap, (∀ order, extract order joinedStart.render = .ok ("/*#<\n*/", map)) ∧
      map.spans.Perm [⟨.node ⟨1⟩, ⟨1, 3⟩, ⟨2, 3⟩⟩, ⟨.node ⟨1⟩, ⟨2, 1⟩, ⟨2, 1⟩⟩] := by
  have hruns : ∀ run ∈ joinedStart.runs, Tokenless run := by decide
  obtain ⟨map, hextract, hspans, _⟩ := extract_render joinedStart hruns
  exact ⟨hruns, map, hextract, hspans⟩

/-- Two leaves that spell a token together. -/
def splitStart : Forest :=
  .text "/*#" (.text "<n1*/" .nil)

/-- It is not enough that no leaf has the start of a token in it. -/
theorem splitStart_not_extracted :
    (∀ leaf ∈ splitStart.leaves, Tokenless leaf.toList) ∧
    ∀ order map, extract order splitStart.render ≠ .ok (String.ofList splitStart.plain, map) := by
  have hleft : (Extraction.run {} (pieces splitStart.render.toList)).map (·.opened.length) = .ok 1 := by
    rfl
  refine ⟨by decide, fun order map hok => ?_⟩
  obtain ⟨e, hrun, hopened, _⟩ := extract_ok_iff.1 hok
  rw [hrun, Except.map, hopened] at hleft
  cases hleft

end Marker

end FlowClass
