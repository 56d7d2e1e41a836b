import FlowClass.Proofs.Marker.Balance
import FlowClass.Proofs.Symbol.Naming
import Mathlib.Data.List.Basic

/-!
# Woven texts

A text with markers is a list of *strands*: characters that are meant as characters, and tokens that
are meant as tokens. Cutting its characters into pieces gives the strands back as long as no
character sequence of the text itself looks like the start of a token, and for that it is enough to
look at each `#` of the text (`pieces_render`).

`Tame` says where a `#` may stand: behind a quote or a slash of the same line, with no `/*` just
before it. That is a condition on each `#` and its own line, so it survives everything that code is
put together with.
-/

namespace FlowClass.Marker

open List MarkerId

variable {strands : List Strand} {s : List Char} {c : Char}

/-- A character or a token of a text. -/
inductive Strand where
  | char (c : Char)
  | token (opening : Bool) (id : MarkerId)

namespace Strand

def text : Strand → List Char
  | .char c => [c]
  | .token opening id => startMark opening ++ id.text.toList ++ endMark

/-- The piece that the strand should be cut into. -/
def piece : Strand → Piece
  | .char c => .char c
  | .token opening id => .token opening id.text.toList

theorem text_pos (x : Strand) : 0 < x.text.length := by
  cases x with
  | char c => exact Nat.one_pos
  | token opening id =>
    simp only [text, endMark, length_append, length_cons]
    omega

def char? : Strand → Option Char
  | .char c => some c
  | .token .. => none

def token? : Strand → Option (Bool × MarkerId)
  | .char _ => none
  | .token opening id => some (opening, id)

end Strand

def render (strands : List Strand) : List Char :=
  strands.flatMap Strand.text

/-- The characters that are no part of a token. -/
def kept (strands : List Strand) : List Char :=
  strands.filterMap Strand.char?

def tokens (strands : List Strand) : List (Bool × MarkerId) :=
  strands.filterMap Strand.token?

section Lists

variable (a b : List Strand) (s : List Char)

@[simp] theorem render_append : render (a ++ b) = render a ++ render b :=
  flatMap_append

@[simp] theorem kept_append : kept (a ++ b) = kept a ++ kept b :=
  filterMap_append

@[simp] theorem tokens_append : tokens (a ++ b) = tokens a ++ tokens b :=
  filterMap_append

@[simp] theorem render_cons (x : Strand) : render (x :: a) = x.text ++ render a :=
  flatMap_cons

@[simp] theorem render_chars : render (s.map .char) = s := by
  induction s with
  | nil => rfl
  | cons c s ih => simp [Strand.text, ih]

@[simp] theorem kept_chars : kept (s.map .char) = s := by
  induction s with
  | nil => rfl
  | cons c s ih =>
    rw [map_cons, kept, filterMap_cons]
    exact congrArg (c :: ·) ih

@[simp] theorem tokens_chars : tokens (s.map .char) = [] := by
  induction s with
  | nil => rfl
  | cons c s ih =>
    rw [map_cons, tokens, filterMap_cons]
    exact ih

/-- A kept character is a strand, and splits the strands where it splits the characters. -/
theorem exists_of_kept {u v : List Char} (h : kept strands = u ++ c :: v) :
    ∃ a b, strands = a ++ .char c :: b ∧ kept a = u ∧ kept b = v := by
  obtain ⟨a, rest, rfl, ha, hrest⟩ := filterMap_eq_append_iff.1 h
  obtain ⟨skipped, x, b, rfl, hskipped, hx, hb⟩ := filterMap_eq_cons_iff.1 hrest
  have hchar : x = .char c := by
    cases x with
    | char d => exact congrArg Strand.char (Option.some.inj hx)
    | token opening id => cases hx
  refine ⟨a ++ skipped, b, by rw [hchar, append_assoc], ?_, hb⟩
  rw [kept_append, show kept a = u from ha, show kept skipped = [] from
    filterMap_eq_nil_iff.2 hskipped, append_nil]

end Lists

theorem toList_wrap (id : MarkerId) (text : String) :
    (wrap id text).toList =
      (Strand.token true id).text ++ text.toList ++ (Strand.token false id).text := by
  simp [wrap, String.toList_append, Strand.text, startMark, openMark, closeMark, endMark]

/-! ## The texts of identities -/

theorem isDigit_number {n : Nat} (hc : c ∈ (toString n).toList) : c.isDigit = true := by
  rw [Nat.toString_eq_ofList_toDigits, String.toList_ofList] at hc
  exact Nat.isDigit_of_mem_toDigits (by decide) (by decide) hc

/-- A number is read back from its digits. -/
theorem natural?_toString (n : Nat) : Text.natural? (toString n).toList = some n := by
  have hdigits : (toString n).toList.all Char.isDigit = true :=
    all_eq_true.2 fun c hc => isDigit_number hc
  have hvalue : (toString n).toList.foldl (fun n c => 10 * n + (c.toNat - '0'.toNat)) 0 = n := by
    rw [Nat.toString_eq_ofList_toDigits, String.toList_ofList]
    exact Nat.ofDigitChars_ten_toDigits
  have hne : (toString n).toList ≠ [] := by
    intro hnil
    rw [Nat.toString_eq_ofList_toDigits, String.toList_ofList] at hnil
    exact Nat.toDigits_ne_nil hnil
  cases hlist : (toString n).toList with
  | nil => exact absurd hlist hne
  | cons c s =>
    rw [hlist] at hdigits hvalue
    have hplus : c ≠ '+' := by
      rintro rfl
      simp at hdigits
    unfold Text.natural?
    split
    · rename_i hcase
      exact absurd (List.cons.inj hcase).1 hplus
    · rw [if_neg (by simp [hdigits]), hvalue]

theorem number?_toString (n : UInt32) : number? (toString n.toNat).toList = some n := by
  unfold number?
  rw [natural?_toString, Option.bind_some, if_pos n.toNat_lt, UInt32.ofNat_toNat]

theorem parse_text (id : MarkerId) : parse id.text.toList = .ok id := by
  cases id with
  | node id =>
    rw [toList_node, parse, tail_cons, number?_toString]
    rfl
  | decl id =>
    rw [toList_decl, parse, tail_cons, number?_toString]
    rfl

/-- The text of an identity has letters and digits in it, and nothing else. -/
theorem not_mem_text (hc : c.isDigit = false) (hn : c ≠ 'n') (hd : c ≠ 'd') (id : MarkerId) :
    c ∉ id.text.toList := by
  have hnumber (n : Nat) : c ∉ (toString n).toList := fun hmem => by
    rw [isDigit_number hmem] at hc
    cases hc
  cases id with
  | node id => exact toList_node id ▸ not_mem_cons_of_ne_of_not_mem hn (hnumber _)
  | decl id => exact toList_decl id ▸ not_mem_cons_of_ne_of_not_mem hd (hnumber _)

/-! ## Cutting -/

theorem cutAt_endMark {label : List Char} (h : '*' ∉ label) (rest : List Char) :
    Text.cutAt endMark (label ++ (endMark ++ rest)) = some (label, rest) := by
  induction label with
  | nil => rfl
  | cons c label ih =>
    have hc : '*' ≠ c := fun heq => h (heq ▸ mem_cons_self)
    have hno : Text.dropLead endMark (c :: (label ++ (endMark ++ rest))) = none := by
      simp [endMark, Text.dropLead, hc]
    rw [cons_append, Text.cutAt, hno]
    rw [ih fun hmem => h (mem_cons_of_mem c hmem)]
    rfl

/-- The characters up to the first token. -/
def lead : List Strand → List Char
  | .char c :: strands => c :: lead strands
  | _ => []

theorem lead_prefix_kept (strands : List Strand) : lead strands <+: kept strands := by
  induction strands with
  | nil => exact nil_prefix
  | cons x strands ih =>
    cases x with
    | char c => exact (prefix_cons_inj c).2 ih
    | token opening id => exact nil_prefix

/-- A token starts with a slash, so it cannot end what characters before it have begun. -/
theorem prefix_lead {p : List Char} (hp : '/' ∉ p) (h : p <+: render strands) :
    p <+: lead strands := by
  induction strands generalizing p with
  | nil => exact h
  | cons x strands ih =>
    cases p with
    | nil => exact nil_prefix
    | cons d p =>
      rw [mem_cons, not_or] at hp
      cases x with
      | char c =>
        obtain ⟨rfl, hrest⟩ := cons_prefix_cons.1 h
        exact (prefix_cons_inj d).2 (ih hp.2 hrest)
      | token opening id =>
        refine absurd ?_ hp.1
        cases opening <;> exact (cons_prefix_cons.1 h).1.symm

/-- No token starts in a run of characters, if the run is taken by itself. -/
def Clear : List Strand → Prop
  | [] => True
  | x :: strands => tokenStart? (lead (x :: strands)) = none ∧ Clear strands

theorem Clear.tokenStart?_char (h : Clear (.char c :: strands)) :
    tokenStart? (c :: render strands) = none := by
  have hnone := h.1
  rw [tokenStart?_eq_none_iff] at hnone ⊢
  refine ⟨fun hopen => hnone.1 ?_, fun hclose => hnone.2 ?_⟩
  · obtain ⟨rfl, hrest⟩ := cons_prefix_cons.1 hopen
    exact (prefix_cons_inj _).2 (prefix_lead (by decide) hrest)
  · obtain ⟨rfl, hrest⟩ := cons_prefix_cons.1 hclose
    exact (prefix_cons_inj _).2 (prefix_lead (by decide) hrest)

/-- Cutting a text gives the strands it was made of. -/
theorem pieces_render (h : Clear strands) : pieces (render strands) = strands.map Strand.piece := by
  induction strands with
  | nil => rfl
  | cons x strands ih =>
    rw [render_cons, map_cons, ← ih h.2]
    cases x with
    | char c => exact pieces_char h.tokenStart?_char
    | token opening id =>
      have hlabel : '*' ∉ id.text.toList := not_mem_text (by decide) (by decide) (by decide) id
      refine pieces_token (tokenStart?_eq_some_iff.2 ?_) (cutAt_endMark hlabel _)
      rw [Strand.text, append_assoc, append_assoc]

/-- Nothing among the characters looks like the start of a token, even with the tokens gone. -/
def Unmarked (strands : List Strand) : Prop :=
  ¬ leadMark <:+: kept strands

theorem Unmarked.clear (h : Unmarked strands) : Clear strands := by
  induction strands with
  | nil => trivial
  | cons x strands ih =>
    refine ⟨tokenStart?_eq_none fun hlead => h ?_, ih fun hmarked => h (hmarked.trans ?_)⟩
    · exact (hlead.trans (lead_prefix_kept (x :: strands))).isInfix
    · cases x with
      | char c => exact (suffix_cons c _).isInfix
      | token opening id => exact infix_rfl

theorem strip_toList {text : String} (htext : text.toList = render strands) (h : Unmarked strands) :
    (strip text).toList = kept strands := by
  rw [strip_toList_eq, htext, pieces_render h.clear]
  clear htext h
  induction strands with
  | nil => rfl
  | cons x strands ih =>
    rw [map_cons, flatMap_cons, ih]
    cases x <;> rfl

/-! ## Where a `#` may stand -/

/-- What stands before any `#` of the text has the property. -/
def BeforeHash (P : List Strand → Prop) (strands : List Strand) : Prop :=
  ∀ a b, strands = a ++ .char '#' :: b → P a

/-- Quotes and the slash that a comment starts with. -/
def isGuard (c : Char) : Bool :=
  c = '"' || c = '\'' || c = '/'

/-- The text goes on behind a guard of the same line, with no token in between and no `/*` just
before. -/
def Guarded (before : List Strand) : Prop :=
  ∃ (front : List Strand) (g : Char) (line : List Char),
    before = front ++ .char g :: line.map .char ∧ isGuard g = true ∧ '\n' ∉ line ∧
      ¬ ['/', '*'] <:+ g :: line

/-- Every `#` of the text is guarded. -/
def Tame : List Strand → Prop :=
  BeforeHash Guarded

/-- Every `#` of the text is guarded or the first character of its line. -/
def Settled : List Strand → Prop :=
  BeforeHash fun before => Guarded before ∨ ∃ front, before = front ++ [.char '\n']

section Hashes

variable {P Q : List Strand → Prop} {x y strands : List Strand}

theorem BeforeHash.imp (hPQ : ∀ before, P before → Q before) (h : BeforeHash P strands) :
    BeforeHash Q strands :=
  fun a b heq => hPQ a (h a b heq)

theorem BeforeHash.append (hP : ∀ front before, P before → P (front ++ before))
    (hx : BeforeHash P x) (hy : BeforeHash P y) : BeforeHash P (x ++ y) := by
  intro a b heq
  obtain ⟨mid, rfl, hmid⟩ | ⟨mid, rfl, hmid⟩ := append_eq_append_iff.1 heq
  · exact hP x mid (hy mid b hmid)
  · cases mid with
    | nil =>
      have hfirst := hP a [] (hy [] b hmid.symm)
      rwa [append_nil] at hfirst
    | cons c mid =>
      rw [cons_append, List.cons.injEq] at hmid
      exact hx a mid (by rw [hmid.1])

theorem BeforeHash.of_append (h : BeforeHash P (x ++ y)) : BeforeHash P x := by
  rintro a b rfl
  exact h a (b ++ y) (by rw [append_assoc, cons_append])

/-- A prefix may be dropped if it has no part in the property. -/
theorem BeforeHash.drop (hP : ∀ before, P (x ++ before) → P before) (h : BeforeHash P (x ++ y)) :
    BeforeHash P y := by
  rintro a b rfl
  exact hP a (h (x ++ a) b (by rw [append_assoc]))

theorem BeforeHash.of_not_mem (h : '#' ∉ kept strands) : BeforeHash P strands := by
  rintro a b rfl
  refine absurd ?_ h
  rw [kept_append, mem_append]
  exact .inr mem_cons_self

end Hashes

theorem Guarded.behind {before : List Strand} (front : List Strand) (h : Guarded before) :
    Guarded (front ++ before) := by
  obtain ⟨front', g, line, rfl, hg⟩ := h
  exact ⟨front ++ front', g, line, by rw [append_assoc], hg⟩

/-- A guard stands after any stretch of text that has no guard in its last line. -/
theorem Guarded.of_append {x before : List Strand} (h : Guarded (x ++ before))
    (hx : ∀ front g line, x = front ++ .char g :: List.map .char line → isGuard g = true →
      '\n' ∈ line) : Guarded before := by
  obtain ⟨front, g, line, heq, hg, hline, hopen⟩ := h
  obtain ⟨mid, rfl, hmid⟩ | ⟨mid, rfl, hmid⟩ := append_eq_append_iff.1 heq
  · exact ⟨mid, g, line, hmid, hg, hline, hopen⟩
  · cases mid with
    | nil => exact ⟨[], g, line, hmid.symm, hg, hline, hopen⟩
    | cons c mid =>
      rw [cons_append, List.cons.injEq] at hmid
      obtain ⟨rfl, hmid⟩ := hmid
      obtain ⟨l₁, l₂, rfl, hl₁, _⟩ := map_eq_append_iff.1 hmid
      -- the guard stands in `x`, so its line ends there
      have hmem := hx front g l₁ (by rw [hl₁]) hg
      exact absurd (mem_append_left l₂ hmem) hline

namespace Tame

variable {x y strands : List Strand}

theorem settled (h : Tame strands) : Settled strands :=
  BeforeHash.imp (fun _ => .inl) h

theorem append (hx : Tame x) (hy : Tame y) : Tame (x ++ y) :=
  BeforeHash.append (fun front _ h => h.behind front) hx hy

theorem nil : Tame [] :=
  BeforeHash.of_not_mem not_mem_nil

theorem token (opening : Bool) (id : MarkerId) : Tame [.token opening id] :=
  BeforeHash.of_not_mem not_mem_nil

theorem plain (h : '#' ∉ s) : Tame (s.map .char) :=
  BeforeHash.of_not_mem (by rwa [kept_chars])

/-- What a guard opens is tame as long as the line lasts. -/
theorem guarded {g : Char} (hg : isGuard g = true) (hline : '\n' ∉ s)
    (hopen : ¬ ['/', '*', '#'] <:+: g :: s) : Tame ((g :: s).map .char) := by
  intro a b heq
  obtain ⟨l₁, l₂, hsplit, rfl, hl₂⟩ := map_eq_append_iff.1 heq
  obtain ⟨c, l₃, rfl, hc, _⟩ := map_eq_cons_iff.1 hl₂
  obtain rfl : c = '#' := Strand.char.inj hc
  cases l₁ with
  | nil =>
    obtain rfl := (List.cons.inj hsplit).1
    cases hg
  | cons d line =>
    obtain ⟨rfl, rfl⟩ := List.cons.inj hsplit
    refine ⟨[], g, line, rfl, hg, fun hmem => hline (mem_append_left _ hmem), ?_⟩
    rintro ⟨front, hfront⟩
    refine hopen ⟨front, l₃, ?_⟩
    rw [hsplit, ← hfront]
    simp

/-- A line is tame by itself. -/
theorem line (h : Tame (x ++ .char '\n' :: y)) : Tame y := by
  rw [← singleton_append, ← append_assoc] at h
  refine BeforeHash.drop (fun before hbefore => hbefore.of_append ?_) h
  intro front g line heq hg
  -- what is dropped ends with a line feed, and so does the line of any guard in it
  have hlast := congrArg List.getLast? heq
  rw [getLast?_concat, getLast?_append_cons] at hlast
  cases line with
  | nil =>
    obtain rfl : '\n' = g := by simpa using hlast
    cases hg
  | cons d line =>
    rw [map_cons, getLast?_cons_cons, ← map_cons, getLast?_map] at hlast
    obtain ⟨c, hc, hchar⟩ := Option.map_eq_some_iff.1 hlast.symm
    rw [← Strand.char.inj hchar]
    exact mem_of_getLast? hc

/-- Characters that are no guards may be dropped from the front. -/
theorem dropChars (hs : s.any isGuard = false) (h : Tame (s.map .char ++ y)) : Tame y := by
  refine BeforeHash.drop (fun before hbefore => hbefore.of_append ?_) h
  intro front g line heq hg
  obtain ⟨l₁, l₂, rfl, _, hl₂⟩ := map_eq_append_iff.1 heq
  obtain ⟨c, l₃, rfl, hc, _⟩ := map_eq_cons_iff.1 hl₂
  rw [← Strand.char.inj hc] at hg
  simp [hg] at hs

/-- Dropping the tokens leaves a tame text. -/
theorem kept (h : Tame strands) : Tame ((kept strands).map .char) := by
  intro a b heq
  obtain ⟨u, l₂, hsplit, rfl, hl₂⟩ := map_eq_append_iff.1 heq
  obtain ⟨c, v, rfl, hc, _⟩ := map_eq_cons_iff.1 hl₂
  obtain rfl : c = '#' := Strand.char.inj hc
  obtain ⟨before, after, rfl, rfl, _⟩ := exists_of_kept hsplit
  obtain ⟨front, g, line, rfl, hguard⟩ := h before after rfl
  refine ⟨(Marker.kept front).map .char, g, line, ?_, hguard⟩
  rw [kept_append, map_append]
  refine congrArg (_ ++ ·) ?_
  rw [show Strand.char g :: List.map Strand.char line = (g :: line).map Strand.char from rfl,
    kept_chars]

end Tame

theorem Settled.append {x y : List Strand} (hx : Settled x) (hy : Settled y) : Settled (x ++ y) := by
  refine BeforeHash.append (fun front before h => ?_) hx hy
  obtain h | ⟨line, rfl⟩ := h
  · exact .inl (h.behind front)
  · exact .inr ⟨front ++ line, (append_assoc ..).symm⟩

/-- A `#` may start a line. -/
theorem Settled.newLine : Settled [.char '\n', .char '#'] := by
  intro a b heq
  cases a with
  | nil => cases heq
  | cons x a =>
    obtain ⟨rfl, heq⟩ := List.cons.inj heq
    cases a with
    | nil => exact .inr ⟨[], rfl⟩
    | cons y a => simp at heq

/-- A settled text has nothing in it that looks like a token and is none. -/
theorem Settled.unmarked (h : Settled strands) : Unmarked strands := by
  rintro ⟨u, v, hinfix⟩
  have hsplit : kept strands = (u ++ ['/', '*']) ++ '#' :: v := by
    rw [← hinfix]
    simp [leadMark]
  obtain ⟨before, after, rfl, hbefore, _⟩ := exists_of_kept hsplit
  have hsuffix : ['/', '*'] <:+ kept before := ⟨u, hbefore.symm⟩
  have hlast {s : List Char} {c : Char} (hs : ['/', '*'] <:+ s ++ [c]) : '*' = c := by
    have hlast := hs.getLast (by simp)
    rwa [getLast_concat] at hlast
  obtain ⟨front, g, line, rfl, hg, _, hopen⟩ | ⟨front, rfl⟩ := h before after rfl
  · have hkept : kept (front ++ .char g :: line.map .char) = kept front ++ g :: line := by
      rw [kept_append, ← map_cons (f := Strand.char), kept_chars]
    rw [hkept] at hsuffix
    cases line with
    | nil =>
      -- the guard itself stands before, and it is no star
      rw [← hlast hsuffix] at hg
      cases hg
    | cons c line =>
      have hlength : ['/', '*'].length ≤ (g :: c :: line).length := by simp
      exact hopen (suffix_of_suffix_length_le hsuffix (suffix_append _ _) hlength)
  · rw [kept_append] at hsuffix
    cases hlast hsuffix

theorem Tame.unmarked (h : Tame strands) : Unmarked strands :=
  h.settled.unmarked

/-! ## Tokens in pairs -/

/-- The identities still open after some tokens, innermost first, if every closing token belongs to
the innermost open one. -/
def openAfter : List MarkerId → List (Bool × MarkerId) → Option (List MarkerId)
  | opened, [] => some opened
  | opened, (true, id) :: rest => openAfter (id :: opened) rest
  | [], (false, _) :: _ => none
  | id :: opened, (false, other) :: rest => if id = other then openAfter opened rest else none

/-- The tokens are nested pairs. -/
def Paired (tokens : List (Bool × MarkerId)) : Prop :=
  openAfter [] tokens = some []

theorem openAfter_append (opened : List MarkerId) (x y : List (Bool × MarkerId)) :
    openAfter opened (x ++ y) = (openAfter opened x).bind (openAfter · y) := by
  fun_induction openAfter opened x with
  | case1 opened => rfl
  | case2 opened id rest ih => rw [cons_append, openAfter, ih]
  | case3 other rest => rfl
  | case4 opened other rest ih => rw [cons_append, openAfter, if_pos rfl, ih]
  | case5 id opened other rest hne =>
    rw [cons_append, openAfter, if_neg hne]
    rfl

/-- What is open further out plays no part. -/
theorem openAfter_outer {opened opened' : List MarkerId} {x : List (Bool × MarkerId)}
    (h : openAfter opened x = some opened') (outer : List MarkerId) :
    openAfter (opened ++ outer) x = some (opened' ++ outer) := by
  fun_induction openAfter opened x with
  | case1 opened => rw [openAfter, Option.some.inj h]
  | case2 opened id rest ih =>
    rw [openAfter]
    exact ih h
  | case3 other rest => cases h
  | case4 opened other rest ih =>
    rw [cons_append, openAfter, if_pos rfl]
    exact ih h
  | case5 id opened other rest hne => cases h

namespace Paired

variable {x y : List (Bool × MarkerId)}

theorem nil : Paired [] := rfl

theorem append (hx : Paired x) (hy : Paired y) : Paired (x ++ y) := by
  unfold Paired
  rw [openAfter_append, show openAfter [] x = some [] from hx]
  exact hy

theorem wrap (hx : Paired x) (id : MarkerId) : Paired ((true, id) :: (x ++ [(false, id)])) := by
  unfold Paired
  have hinner : openAfter [id] x = some [id] := openAfter_outer hx [id]
  rw [openAfter, openAfter_append, hinner, Option.bind_some, openAfter, if_pos rfl, openAfter]

end Paired

/-! ## Extraction -/

theorem step_open (e : Extraction) (id : MarkerId) :
    e.step (.token true id.text.toList) = .ok { e with opened := (id, e.position) :: e.opened } := by
  simp only [Extraction.step, parse_text, if_true]

theorem step_close {e : Extraction} {id : MarkerId} {start : Position}
    {rest : List (MarkerId × Position)} (h : e.opened = (id, start) :: rest) :
    e.step (.token false id.text.toList) =
      .ok { e with opened := rest, closed := ⟨id, start, e.position⟩ :: e.closed } := by
  have htake : takeOpen id e.opened = some (start, rest) := by rw [h, takeOpen, if_pos rfl]
  simp only [Extraction.step, parse_text, Bool.false_eq_true, if_false, htake]

/-- Extraction takes in every strand: characters are kept, and what is open follows the tokens. -/
theorem run_strands {e : Extraction} {opened : List MarkerId}
    (h : openAfter (e.opened.map Prod.fst) (tokens strands) = some opened) :
    ∃ e', e.run (strands.map Strand.piece) = .ok e' ∧ e'.kept = (kept strands).reverse ++ e.kept ∧
      e'.opened.map Prod.fst = opened ∧
      ∀ span ∈ e'.closed, span ∈ e.closed ∨ (false, span.id) ∈ tokens strands := by
  induction strands generalizing e with
  | nil => exact ⟨e, rfl, rfl, Option.some.inj h, fun _ => .inl⟩
  | cons x strands ih =>
    cases x with
    | char c =>
      obtain ⟨e', hrun, hkept, hopened, hclosed⟩ :=
        ih (e := { e with kept := c :: e.kept, position := e.position.advance c }) h
      refine ⟨e', hrun, ?_, hopened, hclosed⟩
      rw [hkept, show kept (.char c :: strands) = c :: kept strands from rfl, reverse_cons,
        append_assoc, singleton_append]
    | token opening id =>
      rw [map_cons, Extraction.run, Strand.piece]
      cases opening with
      | true =>
        rw [step_open]
        obtain ⟨e', hrun, hkept, hopened, hclosed⟩ :=
          ih (e := { e with opened := (id, e.position) :: e.opened }) h
        exact ⟨e', hrun, hkept, hopened, fun span hspan =>
          (hclosed span hspan).imp_right (mem_cons_of_mem _)⟩
      | false =>
        change openAfter (e.opened.map Prod.fst) ((false, id) :: tokens strands) = some opened at h
        cases hstack : e.opened with
        | nil =>
          -- paired tokens close nothing that is not open
          rw [hstack] at h
          cases h
        | cons entry rest =>
          obtain ⟨other, start⟩ := entry
          rw [hstack, map_cons, openAfter] at h
          split at h
          · rename_i heq
            obtain rfl : other = id := heq
            rw [step_close hstack]
            obtain ⟨e', hrun, hkept, hopened, hclosed⟩ :=
              ih (e := { e with opened := rest, closed := ⟨other, start, e.position⟩ :: e.closed }) h
            refine ⟨e', hrun, hkept, hopened, fun span hspan => ?_⟩
            obtain hmem | hmem := hclosed span hspan
            · obtain rfl | hmem := mem_cons.1 hmem
              · exact .inr mem_cons_self
              · exact .inl hmem
            · exact .inr (mem_cons_of_mem _ hmem)
          · cases h

/-- Extraction succeeds on a settled text of paired tokens. It keeps what the tokens leave, and each
span belongs to a token. -/
theorem extract_eq {text : String} (htext : text.toList = render strands) (h : Settled strands)
    (hpaired : Paired (tokens strands)) :
    ∃ map : SourceMap, (∀ order, extract order text = .ok (String.ofList (kept strands), map)) ∧
      ∀ span ∈ map.spans, (false, span.id) ∈ tokens strands := by
  obtain ⟨e, hrun, hkept, hopened, hclosed⟩ := run_strands (e := {}) hpaired
  refine ⟨{ spans := sortBy SourceSpan.le e.closed.reverse }, fun order => ?_, fun span hspan => ?_⟩
  · refine extract_ok_iff.2 ⟨e, ?_, map_eq_nil_iff.1 hopened, ?_⟩
    · rw [htext, pieces_render h.unmarked.clear, hrun]
    · rw [hkept, append_nil, reverse_reverse]
  · have hmem := hclosed span (mem_reverse.1 (mem_sortBy.1 hspan))
    exact hmem.resolve_left not_mem_nil

end FlowClass.Marker
