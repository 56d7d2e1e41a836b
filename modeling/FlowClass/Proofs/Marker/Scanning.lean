import FlowClass.Marker.Basic
import FlowClass.Proofs.Text.Splitting
import Mathlib.Data.List.Infix

/-!
# Scanning for tokens

Two scans look for the tokens of a text: `Marker.pieces` tries every character, `Marker.strip` goes
from one `/*#` to the next. They find the same tokens (`strip_toList_eq`), whatever comments, halves
of tokens and stars and slashes the text has in it.

The fuel of either scan is the length of the text. `pieces_char`, `pieces_token` and `pieces_broken`
say what a step does without it.
-/

namespace FlowClass

open List Text

namespace Text

variable {p s a b : List Char}

theorem dropLead_eq_none_iff : dropLead p s = none ↔ ¬ p <+: s := by
  rw [← startsWith_iff, startsWith, Option.not_isSome_iff_eq_none]

theorem cutAt_eq_none_iff (hp : p ≠ []) : cutAt p s = none ↔ ¬ p <:+: s := by
  induction s with
  | nil => simp [cutAt, hp]
  | cons c s ih =>
    rw [cutAt, infix_cons_iff, not_or, ← ih, ← dropLead_eq_none_iff]
    cases dropLead p (c :: s) <;> simp

/-- A text is cut where the pattern occurs first. -/
theorem cutAt_eq_some_iff (hp : p ≠ []) :
    cutAt p s = some (a, b) ↔ s = a ++ p ++ b ∧ ¬ p <:+: a ++ p.dropLast := by
  have hpos : 0 < p.length := length_pos_iff.2 hp
  constructor
  · intro h
    refine ⟨eq_append_of_cutAt h, ?_⟩
    induction s generalizing a with
    | nil => simp [cutAt, hp] at h
    | cons c s ih =>
      rw [cutAt] at h
      split at h
      · cases h
        intro hinfix
        have hle := hinfix.length_le
        rw [nil_append, length_dropLast] at hle
        omega
      · rename_i hlead
        obtain ⟨⟨front, back⟩, hcut, hpair⟩ := Option.map_eq_some_iff.1 h
        cases hpair
        rw [cons_append, infix_cons_iff, not_or]
        refine ⟨fun hfirst => dropLead_eq_none_iff.1 hlead (hfirst.trans ?_), ih hcut⟩
        rw [eq_append_of_cutAt hcut, append_assoc]
        exact (prefix_cons_inj c).2
          ((prefix_append_right_inj front).2
            (( dropLast_prefix p).trans (prefix_append p b)))
  · rintro ⟨rfl, hfirst⟩
    induction a with
    | nil =>
      obtain ⟨c, q, rfl⟩ := exists_cons_of_ne_nil hp
      have hlead := dropLead_append (c :: q) b
      rw [cons_append] at hlead
      rw [nil_append, cons_append, cutAt, hlead]
    | cons c a ih =>
      rw [cons_append, infix_cons_iff, not_or] at hfirst
      have hlead : dropLead p (c :: (a ++ p ++ b)) = none := by
        rw [dropLead_eq_none_iff]
        intro hprefix
        -- the pattern would end before the place where it occurs first
        refine hfirst.1 (prefix_of_prefix_length_le hprefix ?_ ?_)
        · rw [append_assoc]
          exact (prefix_cons_inj c).2 ((prefix_append_right_inj a).2
            (( dropLast_prefix p).trans (prefix_append p b)))
        · rw [length_cons, length_append, length_dropLast]
          omega
      rw [cons_append, cons_append, cutAt, hlead]
      rw [ih hfirst.2]
      rfl

end Text

namespace Marker

variable {s rest label : List Char} {opening : Bool}

/-- What an opening or a closing token starts with. -/
def startMark (opening : Bool) : List Char :=
  if opening then openMark else closeMark

theorem leadMark_prefix_startMark (opening : Bool) : leadMark <+: startMark opening := by
  cases opening <;> decide

theorem tokenStart?_eq_none_iff : tokenStart? s = none ↔ ¬ openMark <+: s ∧ ¬ closeMark <+: s := by
  unfold tokenStart?
  rw [← dropLead_eq_none_iff, ← dropLead_eq_none_iff]
  cases dropLead openMark s <;> simp

theorem tokenStart?_eq_some_iff :
    tokenStart? s = some (opening, rest) ↔ s = startMark opening ++ rest := by
  unfold tokenStart?
  constructor
  · intro h
    split at h
    · rename_i hopen
      cases h
      exact eq_append_of_dropLead hopen
    · obtain ⟨_, hclose, heq⟩ := Option.map_eq_some_iff.1 h
      cases heq
      exact eq_append_of_dropLead hclose
  · rintro rfl
    cases opening with
    | true => simp [startMark, dropLead_append]
    | false =>
      have hclose : dropLead closeMark (closeMark ++ rest) = some rest :=
        dropLead_append closeMark rest
      simp only [startMark, Bool.false_eq_true, if_false, hclose]
      rfl

/-- Either token starts with the same three characters. -/
theorem tokenStart?_eq_none (h : ¬ leadMark <+: s) : tokenStart? s = none :=
  tokenStart?_eq_none_iff.2
    ⟨fun hopen => h ((leadMark_prefix_startMark true).trans hopen),
      fun hclose => h ((leadMark_prefix_startMark false).trans hclose)⟩

theorem tokenStart?_cons {c : Char} (h : c ≠ '/') (s : List Char) : tokenStart? (c :: s) = none :=
  tokenStart?_eq_none fun hlead => h (cons_prefix_cons.1 hlead).1.symm

/-! ## Steps of the scan -/

theorem length_of_token (hstart : tokenStart? s = some (opening, rest)) {label rest' : List Char}
    (hcut : cutAt endMark rest = some (label, rest')) : rest'.length + 6 ≤ s.length := by
  rw [tokenStart?_eq_some_iff.1 hstart, eq_append_of_cutAt hcut]
  have hmark : (startMark opening).length = 4 := by cases opening <;> rfl
  simp only [length_append, hmark, show endMark.length = 2 from rfl]
  omega

/-- More fuel than characters makes no difference. -/
theorem piecesFuel_eq {fuel : Nat} (h : s.length ≤ fuel) : piecesFuel fuel s = pieces s := by
  have hany (fuel fuel' : Nat) (s : List Char) (h : s.length ≤ fuel) (h' : s.length ≤ fuel') :
      piecesFuel fuel s = piecesFuel fuel' s := by
    induction fuel generalizing fuel' s with
    | zero =>
      obtain rfl := length_eq_zero_iff.1 (Nat.le_zero.1 h)
      cases fuel' <;> rfl
    | succ fuel ih =>
      cases s with
      | nil => cases fuel' <;> rfl
      | cons c s =>
        obtain ⟨fuel', rfl⟩ := Nat.exists_eq_succ_of_ne_zero (Nat.ne_zero_of_lt h')
        rw [length_cons, Nat.succ_le_succ_iff] at h h'
        rw [piecesFuel, piecesFuel]
        split
        · rw [ih fuel' s h h']
        · rename_i opening rest hstart
          split
          · rfl
          · rename_i label rest' hcut
            have hlength := length_of_token hstart hcut
            rw [length_cons] at hlength
            rw [ih fuel' rest' (by omega) (by omega)]
  exact hany fuel s.length s h (Nat.le_refl _)

theorem pieces_char {c : Char} (h : tokenStart? (c :: s) = none) :
    pieces (c :: s) = .char c :: pieces s := by
  rw [pieces, length_cons, piecesFuel, h]
  rfl

theorem pieces_token (hstart : tokenStart? s = some (opening, rest)) {rest' : List Char}
    (hcut : cutAt endMark rest = some (label, rest')) :
    pieces s = .token opening label :: pieces rest' := by
  have hlength := length_of_token hstart hcut
  cases s with
  | nil => cases opening <;> cases tokenStart?_eq_some_iff.1 hstart
  | cons c s =>
    rw [length_cons] at hlength
    rw [pieces, length_cons, piecesFuel, hstart]
    dsimp only
    rw [hcut, ← piecesFuel_eq (show rest'.length ≤ s.length by omega)]

theorem pieces_broken (hstart : tokenStart? s = some (opening, rest))
    (hcut : cutAt endMark rest = none) : pieces s = [.broken s] := by
  cases s with
  | nil => cases opening <;> cases tokenStart?_eq_some_iff.1 hstart
  | cons c s =>
    rw [pieces, length_cons, piecesFuel, hstart]
    dsimp only
    rw [hcut]

/-! ## Stripping -/

/-- What a piece leaves behind when tokens are dropped. -/
def Piece.plain : Piece → List Char
  | .char c => [c]
  | .token .. => []
  | .broken rest => rest

theorem plain_chars (s : List Char) : (s.map Piece.char).flatMap Piece.plain = s := by
  induction s with
  | nil => rfl
  | cons c s ih => rw [map_cons, flatMap_cons, ih, Piece.plain, singleton_append]

/-- Up to the first `/*#` there are only characters. -/
theorem pieces_before {before : List Char} (h : ¬ leadMark <:+: before ++ leadMark.dropLast)
    (rest : List Char) :
    pieces (before ++ (leadMark ++ rest)) = before.map .char ++ pieces (leadMark ++ rest) := by
  induction before with
  | nil => rfl
  | cons c before ih =>
    rw [cons_append, infix_cons_iff, not_or] at h
    have hstart : tokenStart? (c :: (before ++ (leadMark ++ rest))) = none := by
      refine tokenStart?_eq_none fun hlead => h.1 (prefix_of_prefix_length_le hlead ?_ ?_)
      · exact (prefix_cons_inj c).2 ((prefix_append_right_inj before).2
          (( dropLast_prefix leadMark).trans (prefix_append leadMark rest)))
      · simp [leadMark]
    rw [cons_append, pieces_char hstart, ih h.2]
    rfl

theorem pieces_eq_chars (h : ¬ leadMark <:+: s) : pieces s = s.map .char := by
  induction s with
  | nil => rfl
  | cons c s ih =>
    rw [infix_cons_iff, not_or] at h
    rw [pieces_char (tokenStart?_eq_none h.1), ih h.2]
    rfl

/-- A `/*#` that starts no token is three characters. -/
theorem pieces_lead (h : tokenStart? (leadMark ++ rest) = none) :
    pieces (leadMark ++ rest) = leadMark.map .char ++ pieces rest := by
  have hstar : tokenStart? ('*' :: '#' :: rest) = none := tokenStart?_cons (by decide) _
  have hhash : tokenStart? ('#' :: rest) = none := tokenStart?_cons (by decide) _
  have hslash : tokenStart? ('/' :: '*' :: '#' :: rest) = none := h
  change pieces ('/' :: '*' :: '#' :: rest) = _
  rw [pieces_char hslash, pieces_char hstar, pieces_char hhash]
  rfl

theorem stripFuel_eq {fuel : Nat} (h : s.length ≤ fuel) :
    stripFuel fuel s = (pieces s).flatMap Piece.plain := by
  induction fuel generalizing s with
  | zero =>
    obtain rfl := length_eq_zero_iff.1 (Nat.le_zero.1 h)
    rfl
  | succ fuel ih =>
    have hlead : leadMark ≠ [] := by decide
    rw [stripFuel]
    split
    · rename_i hcut
      rw [pieces_eq_chars ((cutAt_eq_none_iff hlead).1 hcut), plain_chars]
    · rename_i before rest hcut
      obtain ⟨rfl, hfirst⟩ := (cutAt_eq_some_iff hlead).1 hcut
      simp only [length_append, show leadMark.length = 3 from rfl] at h
      have hpieces : pieces (before ++ leadMark ++ rest) = _ :=
        (congrArg pieces (append_assoc ..)).trans (pieces_before hfirst rest)
      rw [hpieces, flatMap_append, plain_chars]
      split
      · rename_i hstart
        rw [pieces_lead hstart, flatMap_append, plain_chars, ih (by omega), append_assoc]
      · rename_i opening inside hstart
        split
        · rename_i hend
          rw [pieces_broken hstart hend, append_assoc]
          simp [Piece.plain]
        · rename_i label behind hend
          have hlength := length_of_token hstart hend
          rw [length_append, show leadMark.length = 3 from rfl] at hlength
          rw [pieces_token hstart hend, ih (by omega)]
          rfl

/-- The two scans find the same tokens. -/
theorem strip_toList_eq (text : String) :
    (strip text).toList = (pieces text.toList).flatMap Piece.plain := by
  rw [strip, String.toList_ofList, stripFuel_eq (Nat.le_refl _)]

/-- What comes before the first slash is kept. -/
theorem prefix_strip {text : String} {p : List Char} (h : p <+: text.toList) (hp : '/' ∉ p) :
    p <+: (strip text).toList := by
  obtain ⟨s, htext⟩ := h
  rw [strip_toList_eq, ← htext]
  clear htext
  induction p with
  | nil => exact nil_prefix
  | cons c p ih =>
    simp only [mem_cons, not_or] at hp
    rw [cons_append, pieces_char (tokenStart?_cons (Ne.symm hp.1) _), flatMap_cons]
    exact (prefix_cons_inj c).2 (ih hp.2)

end Marker

end FlowClass
