import FlowClass.Proofs.Marker.Forest

/-!
# The innermost span

The marked parts that cover a place stand in each other, so they are a chain from the outermost to
the deepest one. Extraction closes them the other way round and sorts them by their ranges. What is
found for the place is the last of them: it has the range of the deepest part. Where several parts
have that same range, sorting leaves them in the order in which they were closed, and the last of
them is the outermost (`spanAt_deepest`).
-/

namespace FlowClass

open List

variable {text : List Char} {p q : Position}

namespace Position

theorem le_refl (p : Position) : p.le p = true :=
  le_iff.2 (by omega)

theorem le_trans {r : Position} (hpq : p.le q = true) (hqr : q.le r = true) : p.le r = true := by
  rw [le_iff] at hpq hqr ⊢
  omega

theorem le_of_lt (h : p.lt q = true) : p.le q = true := by
  rw [lt_iff] at h
  rw [le_iff]
  omega

theorem lt_of_lt_of_le {r : Position} (hpq : p.lt q = true) (hqr : q.le r = true) :
    p.lt r = true := by
  rw [lt_iff] at hpq ⊢
  rw [le_iff] at hqr
  omega

theorem not_le_of_lt (h : p.lt q = true) : ¬ q.le p = true := by
  rw [lt_iff] at h
  rw [le_iff]
  omega

theorem lt_advance (p : Position) (c : Char) : p.lt (p.advance c) = true := by
  rw [lt_iff, advance]
  split
  · exact .inl (Nat.lt_succ_self _)
  · exact .inr ⟨rfl, Nat.lt_succ_self _⟩

theorem after_le_append (before s : List Char) :
    (after before).le (after (before ++ s)) = true := by
  induction s generalizing before with
  | nil => rw [append_nil]; exact le_refl _
  | cons c s ih =>
    have hstep := lt_advance (after before) c
    rw [advance_after] at hstep
    have hrest := ih (before ++ [c])
    rw [append_assoc, singleton_append] at hrest
    exact le_trans (le_of_lt hstep) hrest

theorem after_lt_append (before : List Char) (c : Char) (s : List Char) :
    (after before).lt (after (before ++ c :: s)) = true := by
  have hstep := lt_advance (after before) c
  rw [advance_after] at hstep
  have hrest := after_le_append (before ++ [c]) s
  rw [append_assoc, singleton_append] at hrest
  exact lt_of_lt_of_le hstep hrest

/-- The places in a text are in the order of its characters. -/
theorem after_le_iff {a b : List Char} (ha : a <+: text) (hb : b <+: text) :
    (after a).le (after b) = true ↔ a.length ≤ b.length := by
  by_cases hle : a.length ≤ b.length
  · obtain ⟨s, rfl⟩ := prefix_of_prefix_length_le ha hb hle
    exact iff_of_true (after_le_append a s) hle
  · obtain ⟨s, rfl⟩ := prefix_of_prefix_length_le hb ha (Nat.le_of_not_le hle)
    obtain ⟨c, s, rfl⟩ := exists_cons_of_ne_nil (show s ≠ [] by rintro rfl; simp at hle)
    exact iff_of_false (not_le_of_lt (after_lt_append b c s)) hle

theorem after_lt_iff {a b : List Char} (ha : a <+: text) (hb : b <+: text) :
    (after a).lt (after b) = true ↔ a.length < b.length := by
  rw [lt, Bool.not_eq_true', ← Bool.not_eq_true, after_le_iff hb ha, Nat.not_le]

end Position

namespace Marker

variable {f : Forest} {a b : Part}

/-! ## Parts that cover a place -/

namespace Part

/-- The place is that of one of the part's characters. -/
def Covers (part : Part) (p : Position) : Prop :=
  ∃ u c v, part.inside = u ++ c :: v ∧ p = .after (part.before ++ u)

/-- The two parts start at one place and end at one place. -/
def SameRange (a b : Part) : Prop :=
  a.span.start = b.span.start ∧ a.span.stop = b.span.stop

/-- The second part stands deeper, and not outside the range of the first. -/
structure Around (a b : Part) : Prop where
  depth : a.depth < b.depth
  start : a.span.start.le b.span.start = true
  stop : b.span.stop.le a.span.stop = true

theorem le_iff : SourceSpan.le a.span b.span = true ↔
    a.span.start.lt b.span.start = true ∨
      a.span.start = b.span.start ∧ b.span.stop.le a.span.stop = true := by
  simp [SourceSpan.le]

theorem SameRange.le (h : SameRange a b) : SourceSpan.le a.span b.span = true := by
  rw [le_iff, h.2]
  exact .inr ⟨h.1, Position.le_refl _⟩

theorem Around.le (h : Around a b) : SourceSpan.le a.span b.span = true := by
  have hstart := Position.le_iff.1 h.start
  rw [le_iff, Position.lt_iff, Position.ext_iff]
  by_cases hsame : a.span.start.line = b.span.start.line ∧ a.span.start.column = b.span.start.column
  · exact .inr ⟨hsame, h.stop⟩
  · exact .inl (by omega)

/-- A part that is around another one comes after it only with the same range. -/
theorem Around.sameRange (h : Around a b) (hle : SourceSpan.le b.span a.span = true) :
    SameRange b a := by
  have hstart := h.start
  have hstop := h.stop
  rw [le_iff] at hle
  unfold SameRange
  simp only [Position.lt_iff, Position.le_iff, Position.ext_iff] at hle hstart hstop ⊢
  omega

end Part

namespace Forest

variable {depth : Nat} {before : List Char} {part : Part}

section

variable (h : part ∈ f.parts depth before)
include h

/-- A part lies in the text of its forest. -/
theorem mem_parts : depth ≤ part.depth ∧ before <+: part.before ∧
      part.before ++ part.inside <+: before ++ f.plain := by
  induction f generalizing depth before with
  | nil => cases h
  | text leaf rest ih =>
    obtain ⟨hdepth, hbefore, hinside⟩ := ih h
    refine ⟨hdepth, (prefix_append _ _).trans hbefore, ?_⟩
    rwa [plain, ← append_assoc]
  | marked id inner rest ihinner ihrest =>
    rw [plain, ← append_assoc]
    obtain rfl | h := mem_cons.1 h
    · exact ⟨Nat.le_refl _, prefix_rfl, prefix_append _ _⟩
    · obtain h | h := mem_append.1 h
      · obtain ⟨hdepth, hbefore, hinside⟩ := ihinner h
        exact ⟨Nat.le_of_succ_le hdepth, hbefore, hinside.trans (prefix_append _ _)⟩
      · obtain ⟨hdepth, hbefore, hinside⟩ := ihrest h
        exact ⟨hdepth, (prefix_append _ _).trans hbefore, hinside⟩

theorem start_le_of_mem : (Position.after before).le part.span.start = true := by
  obtain ⟨s, hs⟩ := (mem_parts h).2.1
  rw [Part.span, ← hs]
  exact Position.after_le_append before s

theorem stop_le_of_mem : part.span.stop.le (.after (before ++ f.plain)) = true := by
  obtain ⟨s, hs⟩ := (mem_parts h).2.2
  rw [Part.span, ← hs]
  exact Position.after_le_append _ s

end

/-- The parts that cover a place, from the outermost on. -/
def covering (p : Position) (depth : Nat) (before : List Char) (f : Forest) : List Part :=
  (f.parts depth before).filter (·.span.covers p)

section Marked

variable {p : Position} {inner rest : Forest} {id : MarkerId}

/-- What is behind a marked part covers no place in it. -/
theorem covering_behind (h : (Part.span ⟨id, depth, before, inner.plain⟩).covers p = true) :
    rest.covering p depth (before ++ inner.plain) = [] := by
  rw [SourceSpan.covers, Bool.and_eq_true] at h
  refine filter_eq_nil_iff.2 fun part hpart hcovers => ?_
  rw [SourceSpan.covers, Bool.and_eq_true] at hcovers
  exact Position.not_le_of_lt h.2 (Position.le_trans (start_le_of_mem hpart) hcovers.1)

/-- What is inside a marked part covers no place outside it. -/
theorem covering_inside (h : ¬ (Part.span ⟨id, depth, before, inner.plain⟩).covers p = true) :
    inner.covering p (depth + 1) before = [] := by
  refine filter_eq_nil_iff.2 fun part hpart hcovers => h ?_
  rw [SourceSpan.covers, Bool.and_eq_true] at hcovers ⊢
  exact ⟨Position.le_trans (start_le_of_mem hpart) hcovers.1,
    Position.lt_of_lt_of_le hcovers.2 (stop_le_of_mem hpart)⟩

theorem covering_marked (p : Position) (depth : Nat) (before : List Char) (id : MarkerId)
    (inner rest : Forest) :
    (marked id inner rest).covering p depth before =
      if (Part.span ⟨id, depth, before, inner.plain⟩).covers p = true then
        ⟨id, depth, before, inner.plain⟩ :: inner.covering p (depth + 1) before
      else rest.covering p depth (before ++ inner.plain) := by
  have hsplit : (marked id inner rest).covering p depth before =
      if (Part.span ⟨id, depth, before, inner.plain⟩).covers p = true then
        ⟨id, depth, before, inner.plain⟩ ::
          (inner.covering p (depth + 1) before ++ rest.covering p depth (before ++ inner.plain))
      else inner.covering p (depth + 1) before ++ rest.covering p depth (before ++ inner.plain) := by
    rw [covering, parts, filter_cons, filter_append]
    rfl
  rw [hsplit]
  split
  · rename_i hcovers
    rw [covering_behind hcovers, append_nil]
  · rename_i hcovers
    rw [covering_inside hcovers, nil_append]

end Marked

/-- The parts that cover a place stand in each other. -/
theorem pairwise_covering (p : Position) (depth : Nat) (before : List Char) (f : Forest) :
    (f.covering p depth before).Pairwise Part.Around := by
  induction f generalizing depth before with
  | nil => exact List.Pairwise.nil
  | text leaf rest ih => exact ih depth _
  | marked id inner rest ihinner ihrest =>
    rw [covering_marked]
    split
    · refine pairwise_cons.2 ⟨fun part hpart => ?_, ihinner _ _⟩
      have hmem := (mem_filter.1 hpart).1
      exact ⟨(mem_parts hmem).1, start_le_of_mem hmem, stop_le_of_mem hmem⟩
    · exact ihrest _ _

/-- They are closed from the deepest on. -/
theorem filter_closings (p : Position) (depth : Nat) (before : List Char) (f : Forest) :
    (f.closings before).filter (·.covers p) =
      ((f.covering p depth before).map Part.span).reverse := by
  induction f generalizing depth before with
  | nil => rfl
  | text leaf rest ih => exact ih depth _
  | marked id inner rest ihinner ihrest =>
    have hspan : (⟨id, .after before, .after (before ++ inner.plain)⟩ : SourceSpan) =
        Part.span ⟨id, depth, before, inner.plain⟩ := rfl
    rw [closings, filter_append, filter_cons, ihinner (depth + 1), ihrest depth,
      covering_marked, hspan]
    split
    · rename_i hcovers
      rw [covering_behind hcovers, map_cons, reverse_cons]
      rfl
    · rename_i hcovers
      rw [covering_inside hcovers]
      rfl

end Forest

/-! ## The last of a chain -/

/-- Of parts in each other, sorted from the order in which they are closed, the last has the range of
the deepest, and is the outermost with that range. -/
theorem getLast?_sorted {chain : List Part} (h : chain.Pairwise Part.Around) {deepest : Part}
    (hlast : chain.getLast? = some deepest) :
    ∃ found ∈ chain, (sortBy SourceSpan.le (chain.map Part.span).reverse).getLast? =
        some found.span ∧
      found.SameRange deepest ∧
      (∀ part ∈ chain, SourceSpan.le part.span found.span = true) ∧
      ∀ part ∈ chain, part.SameRange deepest → part = found ∨ found.depth < part.depth := by
  -- a part that is put in deepest of all is closed first, so it comes to the front of what is sorted
  induction chain using List.reverseRecOn generalizing deepest with
  | nil => cases hlast
  | append_singleton outer d ih =>
    obtain rfl : d = deepest := by simpa using hlast
    obtain ⟨houter, _, haround⟩ := pairwise_append.1 h
    have hrefl : SourceSpan.le d.span d.span = true := Part.SameRange.le ⟨rfl, rfl⟩
    rw [map_append, reverse_append]
    simp only [forall_mem_append, forall_mem_singleton]
    cases hprev : outer.getLast? with
    | none =>
      obtain rfl := getLast?_eq_none_iff.1 hprev
      exact ⟨d, mem_cons_self, rfl, ⟨rfl, rfl⟩, ⟨nofun, hrefl⟩, nofun, fun _ => .inl rfl⟩
    | some above =>
      obtain ⟨found, hmem, hfound, hrange, htop, hfirst⟩ := ih houter hprev
      have hd (part : Part) (hpart : part ∈ outer) : part.Around d :=
        haround part hpart d mem_cons_self
      have hsorted := SourceSpan.ranks_le.getLast?_sortBy_cons d.span hfound
      by_cases hle : SourceSpan.le d.span found.span = true
      · -- the ranges are the same, and the part further out stays the last
        rw [if_pos hle] at hsorted
        have hsame := (hd found hmem).sameRange hle
        refine ⟨found, mem_append_left _ hmem, hsorted, ⟨hsame.1.symm, hsame.2.symm⟩,
          ⟨htop, hle⟩, fun part hpart hpartRange => ?_, fun _ => .inr (hd found hmem).depth⟩
        exact hfirst part hpart
          ⟨hpartRange.1.trans (hsame.1.trans hrange.1), hpartRange.2.trans (hsame.2.trans hrange.2)⟩
      · -- the new part exceeds all others, so none of them has its range
        rw [if_neg hle] at hsorted
        refine ⟨d, mem_append_right _ mem_cons_self, hsorted, ⟨rfl, rfl⟩,
          ⟨fun part hpart => (hd part hpart).le, hrefl⟩, fun part hpart hpartRange => ?_,
          fun _ => .inl rfl⟩
        have hback : SourceSpan.le d.span part.span = true :=
          Part.SameRange.le ⟨hpartRange.1.symm, hpartRange.2.symm⟩
        exact absurd (SourceSpan.ranks_le.trans _ _ _ hback (htop part hpart)) hle

/-! ## Finding the part -/

/-- At the place of a character, a span covers the place just when its part has the character. -/
theorem Part.covers_iff {part : Part} {q : List Char} (hq : q <+: text)
    (hpart : part.before ++ part.inside <+: text) :
    part.span.covers (.after q) = true ↔ part.Covers (.after q) := by
  have hbefore := (prefix_append part.before part.inside).trans hpart
  constructor
  · intro h
    rw [SourceSpan.covers, Bool.and_eq_true, Part.span] at h
    have hstart := (Position.after_le_iff hbefore hq).1 h.1
    have hstop := (Position.after_lt_iff hq hpart).1 h.2
    obtain ⟨u, rfl⟩ := prefix_of_prefix_length_le hbefore hq hstart
    obtain ⟨w, hw⟩ := prefix_of_prefix_length_le hq hpart (Nat.le_of_lt hstop)
    rw [append_assoc, append_cancel_left_eq] at hw
    obtain ⟨c, v, rfl⟩ := exists_cons_of_ne_nil
      (show w ≠ [] by rintro rfl; simp [← hw] at hstop)
    exact ⟨u, c, v, hw.symm, rfl⟩
  · rintro ⟨u, c, v, hinside, hplace⟩
    rw [hplace, SourceSpan.covers, Bool.and_eq_true, Part.span, hinside, ← append_assoc]
    exact ⟨Position.after_le_append part.before u,
      Position.after_lt_append (part.before ++ u) c v⟩

/-- At a place in some marked part there is one deepest part with that place in it. What is found is
a span of its range: that of the outermost part with the same range. -/
theorem spanAt_deepest (f : Forest) (h : ∀ run ∈ f.runs, Tokenless run) (p : Position)
    (hp : ∃ part ∈ f.parts 0 [], part.Covers p) :
    ∃ map deepest found, (∀ order, extract order f.render = .ok (String.ofList f.plain, map)) ∧
      (deepest ∈ f.parts 0 [] ∧ deepest.Covers p ∧
        ∀ part ∈ f.parts 0 [], part.Covers p → part = deepest ∨ part.depth < deepest.depth) ∧
      (found ∈ f.parts 0 [] ∧ found.Covers p ∧ found.SameRange deepest ∧
        ∀ part ∈ f.parts 0 [], part.Covers p → part.SameRange deepest →
          part = found ∨ found.depth < part.depth) ∧
      SourceMap.spanAt map p = some found.span := by
  obtain ⟨part, hpart, u, c, v, hinside, rfl⟩ := hp
  have hplace : part.before ++ u <+: f.plain := by
    have hmem := (Forest.mem_parts hpart).2.2
    rw [hinside, ← List.append_assoc] at hmem
    exact (List.prefix_append _ _).trans hmem
  -- all places that matter are those of prefixes of the plain text
  generalize hq : part.before ++ u = q at hplace
  have hcovering (part : Part) : part ∈ f.covering (.after q) 0 [] ↔
      part ∈ f.parts 0 [] ∧ part.Covers (.after q) := by
    rw [Forest.covering, List.mem_filter]
    exact and_congr_right fun hmem => Part.covers_iff hplace (Forest.mem_parts hmem).2.2
  have hchain := f.pairwise_covering (.after q) 0 []
  have hsome := (hcovering part).2 ⟨hpart, u, c, v, hinside, by rw [hq]⟩
  cases hlast : (f.covering (.after q) 0 []).getLast? with
  | none =>
    rw [List.getLast?_eq_none_iff.1 hlast] at hsome
    cases hsome
  | some deepest =>
    obtain ⟨found, hmem, hfound, hrange, _, hfirst⟩ := getLast?_sorted hchain hlast
    obtain ⟨outer, houter⟩ := List.getLast?_eq_some_iff.1 hlast
    refine ⟨_, deepest, found, extract_forest h, ⟨?_, ?_, ?_⟩, ⟨?_, ?_, hrange, ?_⟩, ?_⟩
    · exact ((hcovering deepest).1 (List.mem_of_getLast? hlast)).1
    · exact ((hcovering deepest).1 (List.mem_of_getLast? hlast)).2
    · intro part hpart hcovers
      have hin := (hcovering part).2 ⟨hpart, hcovers⟩
      rw [houter] at hin hchain
      obtain hin | hin := List.mem_append.1 hin
      · exact .inr ((List.pairwise_append.1 hchain).2.2 part hin deepest List.mem_cons_self).depth
      · exact .inl (List.mem_singleton.1 hin)
    · exact ((hcovering found).1 hmem).1
    · exact ((hcovering found).1 hmem).2
    · exact fun part hpart hcovers => hfirst part ((hcovering part).2 ⟨hpart, hcovers⟩)
    · rw [SourceMap.spanAt, SourceSpan.ranks_le.filter_sortBy, f.filter_closings _ 0]
      exact hfound

/-- A part whose whole text is a part of its own, and a part right behind it. -/
def nestedAlike : Forest :=
  .text "a" (.marked (.node ⟨1⟩) (.marked (.node ⟨2⟩) (.text "\nx" .nil) .nil)
    (.marked (.node ⟨3⟩) (.text "y" .nil) .nil))

theorem nestedAlike_spanAt :
    (∀ run ∈ nestedAlike.runs, Tokenless run) ∧
    (∃ part ∈ nestedAlike.parts 0 [], part.Covers ⟨2, 1⟩) ∧
    ∃ map deepest found, (∀ order, extract order nestedAlike.render = .ok ("a\nxy", map)) ∧
      (deepest ∈ nestedAlike.parts 0 [] ∧ deepest.Covers ⟨2, 1⟩ ∧
        ∀ part ∈ nestedAlike.parts 0 [], part.Covers ⟨2, 1⟩ →
          part = deepest ∨ part.depth < deepest.depth) ∧
      (found ∈ nestedAlike.parts 0 [] ∧ found.Covers ⟨2, 1⟩ ∧ found.SameRange deepest ∧
        ∀ part ∈ nestedAlike.parts 0 [], part.Covers ⟨2, 1⟩ → part.SameRange deepest →
          part = found ∨ found.depth < part.depth) ∧
      SourceMap.spanAt map ⟨2, 1⟩ = some found.span := by
  have hruns : ∀ run ∈ nestedAlike.runs, Tokenless run := by decide
  have hcovered : ∃ part ∈ nestedAlike.parts 0 [], part.Covers ⟨2, 1⟩ :=
    ⟨⟨.node ⟨1⟩, 0, ['a'], ['\n', 'x']⟩, List.mem_cons_self, ['\n'], 'x', [], rfl, rfl⟩
  exact ⟨hruns, hcovered, spanAt_deepest nestedAlike hruns ⟨2, 1⟩ hcovered⟩

/-- A deeper part with the place in it is passed over where a part around it has the same range. -/
theorem nestedAlike_outer_found :
    ∃ map inner, (∀ order, extract order nestedAlike.render = .ok ("a\nxy", map)) ∧
      inner ∈ nestedAlike.parts 0 [] ∧ inner.Covers ⟨2, 1⟩ ∧ inner.depth = 1 ∧
      inner.id = .node ⟨2⟩ ∧
      (map.spanAt ⟨2, 1⟩).map (·.id) = some (.node ⟨1⟩) :=
  ⟨_, ⟨.node ⟨2⟩, 1, ['a'], ['\n', 'x']⟩, extract_forest (by decide),
    List.mem_cons_of_mem _ List.mem_cons_self, ⟨['\n'], 'x', [], rfl, rfl⟩, rfl, rfl, by decide⟩

end Marker

end FlowClass
