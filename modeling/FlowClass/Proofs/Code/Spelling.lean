import FlowClass.Proofs.Code.Weaving
import FlowClass.Proofs.Model.Strings
import Mathlib.Data.List.Chain

/-!
# Spelled texts are woven

String and character literals are woven whatever is in them, and so is the comment that stands for a
failed node. Types and all other literals have no `#` in them if their strings have none.
-/

namespace FlowClass

open Marker List Literal Ty

variable {s : List Char} {c : Char}

/-! ## Quoted text -/

/-- The two characters do not open a comment. -/
def Apart (a b : Char) : Prop :=
  ¬ (a = '/' ∧ b = '*')

theorem Apart.of_left {a b : Char} (h : a ≠ '/') : Apart a b :=
  fun hopen => h hopen.1

theorem Apart.of_right {a b : Char} (h : b ≠ '*') : Apart a b :=
  fun hopen => h hopen.2

theorem not_infix_of_apart (h : s.IsChain Apart) : ¬ ['/', '*', '#'] <:+: s := by
  intro hinfix
  have hpart := List.IsChain.infix h hinfix
  have hopen := (isChain_cons_cons.1 hpart).1
  exact hopen ⟨rfl, rfl⟩

theorem Woven.ofGuard {ok : MarkerId → Prop} {g : Char} (hg : isGuard g = true) (hline : '\n' ∉ s)
    (hopen : ¬ ['/', '*', '#'] <:+: g :: s) : Woven ok (String.ofList (g :: s)) :=
  .ofTame (by rw [String.toList_ofList]; exact .guarded hg hline hopen)

namespace Code

/-- The characters that escapes are made of. -/
def isEscapeChar (c : Char) : Bool :=
  c.isAlphanum || c = '\\' || c = '"' || c = '\''

/-- What stands for a character in its place. -/
structure Escape (s : List Char) : Prop where
  ne_nil : s ≠ []
  chars : ∀ d ∈ s, isEscapeChar d = true

theorem Escape.not_mem (h : Escape s) (hc : isEscapeChar c = false) : c ∉ s := by
  intro hmem
  rw [h.chars c hmem] at hc
  cases hc

theorem Escape.unicode (c : Char) : Escape (unicodeEscape c) := by
  have hdigits : (List.range 16).all (fun d => isEscapeChar (hexDigit d)) = true := by decide
  have hdigit (n : Nat) : isEscapeChar (hexDigit (n % 16)) = true :=
    all_eq_true.1 hdigits (n % 16) (mem_range.2 (Nat.mod_lt n (by decide)))
  have hmarks : isEscapeChar '\\' = true ∧ isEscapeChar 'u' = true := by decide
  exact ⟨cons_ne_nil _ _, by simp [unicodeEscape, hexDigits, hdigit, hmarks]⟩

/-- What stands after a backslash, and the character that is meant. -/
def shortEscapes : List (Char × Char) :=
  [('"', '"'), ('\'', '\''), ('\\', '\\'), ('n', '\n'), ('r', '\r'), ('t', '\t'), ('0', '\x00')]

theorem of_mem_shortEscapes {e c : Char} (h : (e, c) ∈ shortEscapes) :
    isEscapeChar e = true ∧ (Text.isControl c || isEscapeChar c) = true ∧
      shortEscapes.lookup e = some c ∧ e ≠ 'u' ∧ c.toNat < 65536 := by
  simp only [shortEscapes, mem_cons, Prod.mk.injEq, not_mem_nil, or_false] at h
  rcases h with h | h | h | h | h | h | h <;> obtain ⟨rfl, rfl⟩ := h <;> decide

/-- A character is written as it is, by one character after a backslash, or by its number. -/
theorem escaped_cases {quote : Char} (hquote : quote = '"' ∨ quote = '\'') (c : Char) :
    (escaped quote c = [c] ∧ c ≠ quote ∧ c ≠ '\\' ∧ Text.isControl c = false) ∨
    (∃ e, escaped quote c = ['\\', e] ∧ (e, c) ∈ shortEscapes) ∨
    (escaped quote c = unicodeEscape c ∧ Text.isControl c = true) := by
  have hshort {d e : Char} (hc : c = d) (hmem : (e, d) ∈ shortEscapes) :
      ∃ e', ['\\', e] = ['\\', e'] ∧ (e', c) ∈ shortEscapes :=
    ⟨e, rfl, hc ▸ hmem⟩
  unfold escaped
  split_ifs with hc hbackslash hline hreturn htab hnull hcontrol
  · refine .inr (.inl (hshort rfl ?_))
    obtain rfl | rfl := hquote <;> rw [hc] <;> decide
  · exact .inr (.inl (hshort hbackslash (by decide)))
  · exact .inr (.inl (hshort hline (by decide)))
  · exact .inr (.inl (hshort hreturn (by decide)))
  · exact .inr (.inl (hshort htab (by decide)))
  · exact .inr (.inl (hshort hnull (by decide)))
  · exact .inr (.inr ⟨rfl, hcontrol⟩)
  · exact .inl ⟨rfl, hc, hbackslash, Bool.eq_false_iff.2 hcontrol⟩

/-- What is not written as it is stands for a control character or for one that escapes need. -/
theorem escaped_or {quote : Char} (hquote : quote = '"' ∨ quote = '\'') (c : Char) :
    (escaped quote c = [c] ∧ Text.isControl c = false) ∨
    (Escape (escaped quote c) ∧ (Text.isControl c || isEscapeChar c) = true) := by
  have hmark : isEscapeChar '\\' = true := by decide
  obtain ⟨heq, _, _, hc⟩ | ⟨e, heq, hmem⟩ | ⟨heq, hc⟩ := escaped_cases hquote c <;> rw [heq]
  · exact .inl ⟨rfl, hc⟩
  · obtain ⟨he, hc, _⟩ := of_mem_shortEscapes hmem
    exact .inr ⟨⟨cons_ne_nil _ _, by simp [hmark, he]⟩, hc⟩
  · exact .inr ⟨.unicode c, by rw [hc, Bool.true_or]⟩

/-- An escape keeps apart what stands before it and what follows. -/
theorem Escape.isChain {rest : List Char} (h : Escape s)
    (hrest : ∀ x, x ≠ '/' → (x :: rest).IsChain Apart) (c : Char) :
    (c :: (s ++ rest)).IsChain Apart := by
  induction s generalizing c with
  | nil => exact absurd rfl h.ne_nil
  | cons x s ih =>
    have hchar := h.chars x mem_cons_self
    have hx : x ≠ '/' ∧ x ≠ '*' := by
      constructor <;> rintro rfl <;> cases hchar
    refine isChain_cons_cons.2 ⟨.of_right hx.2, ?_⟩
    cases s with
    | nil => exact hrest x hx.1
    | cons y s => exact ih ⟨cons_ne_nil _ _, fun d hd => h.chars d (mem_cons_of_mem x hd)⟩ x

/-- Nothing inside a string literal opens a comment, with whatever stands before it. -/
theorem isChain_stringBody {slash : Bool} (hc : c = '/' → slash = true) (s : List Char) :
    (c :: (stringBody slash s ++ ['"'])).IsChain Apart := by
  induction s generalizing slash c with
  | nil => exact isChain_pair.2 (.of_right (by decide))
  | cons d s ih =>
    have hrest (x : Char) (hx : x ≠ '/') :
        (x :: (stringBody (d = '/') s ++ ['"'])).IsChain Apart :=
      ih fun heq => absurd heq hx
    rw [stringBody, append_assoc]
    split
    · -- a star after a slash is written as an escape
      exact (Escape.unicode d).isChain hrest c
    · rename_i hstar
      obtain ⟨hplain, _⟩ | ⟨hescape, hd⟩ := escaped_or (.inl rfl) d
      · rw [hplain]
        refine isChain_cons_cons.2 ⟨fun hopen => hstar ?_, ih fun heq => by simp [heq]⟩
        simp [hc hopen.1, hopen.2]
      · exact hescape.isChain hrest c

/-- A character that escapes do not need is in a string literal if it is in the string, and is no
control character. -/
theorem mem_stringBody (hc : isEscapeChar c = false) (hstar : c ≠ '*') (slash : Bool)
    (s : List Char) : c ∈ stringBody slash s ↔ c ∈ s ∧ Text.isControl c = false := by
  induction s generalizing slash with
  | nil => simp [stringBody]
  | cons d s ih =>
    rw [stringBody, mem_append, ih, mem_cons, or_and_right]
    refine or_congr_left ?_
    split
    · rename_i hd
      rw [Bool.and_eq_true, decide_eq_true_eq] at hd
      exact iff_of_false ((Escape.unicode d).not_mem hc) fun h => hstar (h.1.trans hd.2)
    · obtain ⟨hplain, hd⟩ | ⟨hescape, hd⟩ := escaped_or (.inl rfl) d
      · rw [hplain, mem_singleton]
        exact ⟨fun h => ⟨h, h ▸ hd⟩, And.left⟩
      · refine iff_of_false (hescape.not_mem hc) ?_
        rintro ⟨rfl, hcontrol⟩
        rw [hc, hcontrol] at hd
        cases hd

end Code

namespace Woven

variable {ok : MarkerId → Prop}

theorem stringLiteral (s : String) : Woven ok (Code.stringLiteral s) := by
  refine .ofGuard rfl ?_ (not_infix_of_apart (Code.isChain_stringBody (by decide) _))
  simp [Code.mem_stringBody (c := '\n') rfl (by decide), Text.isControl]

theorem charLiteral (c : Char) : Woven ok (Code.charLiteral c) := by
  have hquote (x : Char) : [x, '\''].IsChain Apart := isChain_pair.2 (.of_right (by decide))
  obtain ⟨hplain, hc⟩ | ⟨hescape, _⟩ := Code.escaped_or (.inr rfl) c
  · refine .ofGuard rfl ?_ (not_infix_of_apart ?_)
    · have hline : '\n' ≠ c := by
        rintro rfl
        cases hc
      simp [hplain, hline]
    · rw [hplain]
      exact isChain_cons_cons.2 ⟨.of_left (by decide), hquote c⟩
  · refine .ofGuard rfl ?_ (not_infix_of_apart (hescape.isChain (fun x _ => hquote x) _))
    simp [hescape.not_mem (c := '\n') (by decide)]

end Woven

/-! ## Comments -/

namespace Fragment

theorem part_cons (c : Char) (s : List Char) : ∃ rest, part (c :: s) = c :: rest := by
  cases s with
  | nil => exact ⟨[], rfl⟩
  | cons d s =>
    rw [part]
    split <;> exact ⟨_, rfl⟩

/-- The two characters neither open nor close a comment. -/
def Clear (a b : Char) : Prop :=
  Apart a b ∧ Apart b a

theorem isChain_part (s : List Char) : (part s).IsChain Clear := by
  fun_induction part s with
  | case1 => exact .nil
  | case2 c => exact .singleton c
  | case3 c d s htouch ih =>
    obtain ⟨rest, hrest⟩ := part_cons d s
    rw [hrest] at ih ⊢
    refine isChain_cons_cons.2 ⟨⟨.of_right (by decide), .of_left (by decide)⟩, ?_⟩
    exact isChain_cons_cons.2 ⟨⟨.of_left (by decide), .of_right (by decide)⟩, ih⟩
  | case4 c d s htouch ih =>
    obtain ⟨rest, hrest⟩ := part_cons d s
    rw [hrest] at ih ⊢
    refine isChain_cons_cons.2 ⟨⟨fun hopen => htouch ?_, fun hclose => htouch ?_⟩, ih⟩
    · simp [hopen.1, hopen.2]
    · simp [hclose.1, hclose.2]

/-- The message of a comment: stars and slashes do not touch, and no line ends. -/
def message (s : List Char) : List Char :=
  (part s).map fun c => if c = '\n' then ' ' else c

theorem toList_placeholder (text : String) : (placeholder text).text.toList =
    '/' :: '*' :: ' ' :: (message text.toList ++ [' ', '*', '/']) := by
  simp [placeholder, message, String.toList_append]

/-- Taking line feeds out brings no slash and star together. -/
theorem isChain_message (s : List Char) : (message s).IsChain Clear := by
  have hkeeps {c d : Char} (hd : d ≠ ' ') (heq : (if c = '\n' then ' ' else c) = d) : c = d := by
    split at heq
    · exact absurd heq.symm hd
    · exact heq
  have hapart {a b : Char} (h : Apart a b) :
      Apart (if a = '\n' then ' ' else a) (if b = '\n' then ' ' else b) :=
    fun hopen => h ⟨hkeeps (by decide) hopen.1, hkeeps (by decide) hopen.2⟩
  rw [message, isChain_map]
  exact (isChain_part s).imp fun a b hclear => ⟨hapart hclear.1, hapart hclear.2⟩

theorem not_newline_message (s : List Char) : '\n' ∉ message s := by
  rw [message, mem_map]
  rintro ⟨c, _, hc⟩
  split at hc
  · cases hc
  · contradiction

/-- Neither the message nor the blanks around it touch the star that closes the comment. -/
theorem isChain_inside (s : List Char) : (' ' :: (message s ++ [' ', '*'])).IsChain Clear := by
  have hblank (c : Char) : Clear ' ' c ∧ Clear c ' ' := by
    simp [Clear, Apart]
  have hend : [' ', '*'].IsChain Clear := isChain_pair.2 (hblank '*').1
  refine isChain_cons.2 ⟨fun c _ => (hblank c).1, isChain_append.2 ⟨isChain_message s, hend, ?_⟩⟩
  rintro c _ d hd
  cases hd
  exact (hblank c).2

/-- Inside a comment no other one opens, and a blank follows its own start. -/
theorem not_infix_placeholder (text : String) :
    ¬ ['/', '*', '#'] <:+: (placeholder text).text.toList := by
  rw [toList_placeholder]
  intro hinfix
  obtain ⟨rest, hrest⟩ | hinfix := infix_cons_iff.1 hinfix
  · simp at hrest
  · refine not_infix_of_apart ?_ hinfix
    have hinside := (isChain_inside text.toList).imp fun _ _ hclear => hclear.1
    refine isChain_cons.2 ⟨fun c _ => .of_left (by decide), ?_⟩
    rw [show ' ' :: (message text.toList ++ [' ', '*', '/']) =
      ' ' :: (message text.toList ++ [' ', '*']) ++ ['/'] by simp]
    refine isChain_append.2 ⟨hinside, .singleton _, fun c _ d hd => .of_right ?_⟩
    cases hd
    decide

end Fragment

/-- The comment in place of a failed node is woven, whatever it says. -/
theorem Woven.placeholder {ok : MarkerId → Prop} (text : String) :
    Woven ok (Fragment.placeholder text).text := by
  have hopen := Fragment.not_infix_placeholder text
  rw [Fragment.toList_placeholder] at hopen
  rw [← String.ofList_toList (s := (Fragment.placeholder text).text), Fragment.toList_placeholder]
  exact .ofGuard rfl (by simp [Fragment.not_newline_message]) hopen

/-! ## Types -/

theorem not_hash_joinText {sep : String} (hsep : '#' ∉ sep.toList) {texts : List String}
    (h : Hashless texts) : '#' ∉ (joinText sep texts).toList := by
  induction texts with
  | nil => exact not_mem_nil
  | cons text texts ih =>
    rw [hashless_cons] at h
    cases texts with
    | nil => exact h.1
    | cons next texts =>
      change '#' ∉ (text ++ sep ++ joinText sep (next :: texts)).toList
      rw [String.toList_append, String.toList_append, mem_append, mem_append]
      exact not_or.2 ⟨not_or.2 ⟨h.1, hsep⟩, ih h.2⟩

theorem Imports.hashless_add {i : Imports} (hi : Hashless i.spaces) {space : String}
    (hspace : '#' ∉ space.toList) : Hashless (i.add space).spaces := by
  unfold add pushNew
  split
  · exact hi
  · dsimp only
    split
    · exact hi
    · exact hashless_append.2 ⟨hi, hashless_cons.2 ⟨hspace, hashless_nil⟩⟩

/-- A type is spelled with its own names, and brings in its own namespace. -/
theorem Imports.hashless_qualify {i : Imports} (hi : Hashless i.spaces) {space : Option String}
    {name : String} (hspace : Hashless space.toList) (hname : '#' ∉ name.toList) :
    '#' ∉ (i.qualify space name).1.toList ∧ Hashless (i.qualify space name).2.spaces := by
  cases space with
  | none => exact ⟨hname, hi⟩
  | some space =>
    have hspace : '#' ∉ space.toList := hspace space mem_cons_self
    have hfull : '#' ∉ (inFull space name).toList := by
      simp [inFull, String.toList_append, hspace, hname]
    unfold qualify
    dsimp only
    split
    · exact ⟨hname, hi⟩
    · split
      · exact ⟨hfull, hi⟩
      · split
        · split
          · exact ⟨hname, hi⟩
          · exact ⟨hfull, hi⟩
        · refine ⟨hname, ?_⟩
          exact hashless_add (i := { i with claimed := (headOf name, space) :: i.claimed }) hi hspace

mutual

theorem Ty.hashless_text : (t : Ty) → Hashless t.strings → (i : Imports) → Hashless i.spaces →
    '#' ∉ (t.text i).1.toList ∧ Hashless (t.text i).2.spaces
  | .void, _, i, hi => by
    have hvoid : '#' ∉ "void".toList := by decide
    rw [text]
    exact ⟨hvoid, hi⟩
  | .scalar s, _, i, hi => by
    have hkeyword : '#' ∉ s.keyword.toList := by cases s <;> decide
    rw [text]
    exact ⟨hkeyword, hi⟩
  | .named space name args sort, h, i, hi => by
    rw [strings, hashless_append, hashless_cons] at h
    obtain ⟨hbase, hi⟩ := i.hashless_qualify hi h.1 h.2.1
    obtain ⟨hargs, hi⟩ := hashless_texts args h.2.2 _ hi
    rw [text]
    dsimp only
    split
    · rename_i heq
      rw [heq] at hi
      exact ⟨hbase, hi⟩
    · rename_i heq
      rw [heq] at hi hargs
      exact ⟨by simp [hbase, not_hash_joinText _ hargs], hi⟩
  | .array element rank, h, i, hi => by
    obtain ⟨helement, hi⟩ := hashless_text element h i hi
    rw [text]
    exact ⟨by simp [helement, mem_replicate], hi⟩
  | .nullable inner, h, i, hi => by
    obtain ⟨hinner, hi⟩ := hashless_text inner h i hi
    rw [text]
    exact ⟨by simp [hinner], hi⟩
  | .typeParam name, h, i, hi => by
    rw [text]
    exact ⟨(hashless_cons.1 h).1, hi⟩
  | .generated name, h, i, hi => by
    rw [text]
    exact ⟨(hashless_cons.1 h).1, hi⟩

theorem Ty.hashless_texts : (ts : List Ty) → Hashless (stringsOf ts) → (i : Imports) →
    Hashless i.spaces → Hashless (texts ts i).1 ∧ Hashless (texts ts i).2.spaces
  | [], _, i, hi => by
    rw [texts]
    exact ⟨hashless_nil, hi⟩
  | t :: ts, h, i, hi => by
    rw [stringsOf, hashless_append] at h
    obtain ⟨htext, hi⟩ := hashless_text t h.1 i hi
    obtain ⟨htexts, hi⟩ := hashless_texts ts h.2 _ hi
    rw [texts]
    exact ⟨hashless_cons.2 ⟨htext, htexts⟩, hi⟩

end

/-! ## Numbers -/

namespace Decimal

/-- Every digit is a decimal one. -/
def Numeral (d : Decimal) : Prop :=
  ∀ c ∈ d.digits, c.isDigit = true

theorem numeral_scaled (c : Nat) (shift : Int) : (scaled c shift).Numeral := by
  intro d hd
  have hmem := (dropWhile_suffix _).subset (mem_reverse.1 hd)
  exact Nat.isDigit_of_mem_toDigits (by decide) (by decide) (mem_reverse.1 hmem)

theorem numeral_onGrid {r : RoundingInterval} {shift : Int} {d : Decimal}
    (h : onGrid r shift = some d) : d.Numeral := by
  unfold onGrid at h
  dsimp only at h
  split at h <;> cases h <;> exact numeral_scaled _ _

theorem numeral_firstHit (r : RoundingInterval) (grids : Nat) (shift : Int) :
    (firstHit r grids shift).Numeral := by
  induction grids generalizing shift with
  | zero => exact forall_mem_nil _
  | succ grids ih =>
    rw [firstHit]
    split
    · rename_i hhit
      exact numeral_onGrid hhit
    · exact ih (shift - 1)

theorem not_hash_positional {d : Decimal} (h : d.Numeral) : '#' ∉ d.positional := by
  have hdigits : '#' ∉ d.digits := fun hmem => absurd (h '#' hmem) (by decide)
  have htake (n : Nat) : '#' ∉ d.digits.take n := fun hmem => hdigits (mem_of_mem_take hmem)
  have hdrop (n : Nat) : '#' ∉ d.digits.drop n := fun hmem => hdigits (mem_of_mem_drop hmem)
  unfold positional
  split
  · simp [hdigits]
  · dsimp only
    split <;> simp [hdigits, htake, hdrop]

end Decimal

theorem BinaryFormat.not_hash_positionalText (f : BinaryFormat) (negative : Bool) (m : Nat)
    (q : Int) : '#' ∉ (f.positionalText negative m q).toList := by
  have hsize : '#' ∉ (Decimal.shortest f m q).positional :=
    Decimal.not_hash_positional (Decimal.numeral_firstHit _ _ _)
  unfold positionalText
  rw [String.toList_ofList]
  split <;> split <;> simp [hsize]

namespace Code

theorem not_hash_realText (f : BinaryFormat) {type suffix : String} (htype : '#' ∉ type.toList)
    (hsuffix : '#' ∉ suffix.toList) (value : BinaryValue) :
    '#' ∉ (realText f type suffix value).toList := by
  cases value with
  | notANumber => simp [realText, htype]
  | infinite negative => cases negative <;> simp [realText, htype]
  | finite negative m q =>
    simp [realText, hsuffix, BinaryFormat.not_hash_positionalText]

theorem not_hash_structConstant {name constant : String} {components : List Double}
    (h : structConstant? name components = some constant) : '#' ∉ constant.toList := by
  have hall : Hashless (structConstants.map fun entry => entry.2.2) := by decide
  obtain ⟨entry, hfind, rfl⟩ := Option.map_eq_some_iff.1 h
  exact hall _ (mem_map_of_mem (mem_of_find?_eq_some hfind))

theorem not_hash_structText {type : Ty} {name : String} (hname : '#' ∉ name.toList)
    (components : List Double) : '#' ∉ (structText type name components).toList := by
  unfold structText
  split
  · rename_i constant hconstant
    obtain ⟨simple, _, hconstant⟩ := Option.bind_eq_some_iff.1 hconstant
    simp [hname, not_hash_structConstant hconstant]
  · have hitems : Hashless (components.map floatText) := by
      intro text htext
      obtain ⟨d, _, rfl⟩ := mem_map.1 htext
      exact not_hash_realText _ (by decide) (by decide) _
    simp [hname, not_hash_joinText _ hitems]

theorem not_hash_integerMarks (unsigned : Bool) (type : Scalar) :
    '#' ∉ (integerMarks unsigned type).1.toList ∧ '#' ∉ (integerMarks unsigned type).2.toList := by
  cases type <;> cases unsigned <;> decide

theorem not_hash_number (n : Nat) : '#' ∉ (toString n).toList :=
  fun hmem => absurd (isDigit_number hmem) (by decide)

theorem not_hash_integer (i : Int) : '#' ∉ (toString i).toList := by
  cases i with
  | ofNat n => exact not_hash_number n
  | negSucc n =>
    change '#' ∉ ("-" ++ toString (n + 1)).toList
    rw [String.toList_append, mem_append]
    exact not_or.2 ⟨by decide, not_hash_number _⟩

end Code

/-! ## Literals -/

section Literals

variable {ok : MarkerId → Prop}

theorem Woven.arrayText {element : String} (helement : '#' ∉ element.toList) {items : List String}
    (h : ∀ item ∈ items, Woven ok item) : Woven ok (Code.arrayText element items) := by
  unfold Code.arrayText
  split
  · exact .plain _ (by simp [helement])
  · exact ((plain _ (by simp [helement])).append (.joinText (by decide) h)).append
      (.plain _ (by decide))

theorem Woven.listText {name : String} (hname : '#' ∉ name.toList) {items : List String}
    (h : ∀ item ∈ items, Woven ok item) : Woven ok (Code.listText name items) := by
  unfold Code.listText
  split
  · exact .plain _ (by simp [hname])
  · exact ((plain _ (by simp [hname])).append (.joinText (by decide) h)).append
      (.plain _ (by decide))

theorem Ty.hashless_listOf {element : Ty} (h : Hashless element.strings) :
    Hashless (listOf element).strings := by
  have hstrings : (listOf element).strings =
      ["System.Collections.Generic", "List"] ++ element.strings := by
    simp [listOf, generic, namespaceOf, strings, stringsOf]
  rw [hstrings]
  exact hashless_append.2 ⟨by decide, h⟩

mutual

/-- A literal is woven: strings and characters by their quotes, all else for want of a `#`. -/
theorem Literal.woven_text : (l : Literal) → Hashless l.strings → (i : Imports) →
    Hashless i.spaces → Woven ok (l.text i).1 ∧ Hashless (l.text i).2.spaces
  | .null, _, i, hi => by
    rw [text]
    exact ⟨.plain "null" (by decide), hi⟩
  | .bool true, _, i, hi => by
    rw [text]
    exact ⟨.plain "true" (by decide), hi⟩
  | .bool false, _, i, hi => by
    rw [text]
    exact ⟨.plain "false" (by decide), hi⟩
  | .char c, _, i, hi => by
    rw [text]
    exact ⟨.charLiteral c, hi⟩
  | .string s, _, i, hi => by
    rw [text]
    exact ⟨.stringLiteral s, hi⟩
  | .integer value type, _, i, hi => by
    obtain ⟨hbefore, hafter⟩ := Code.not_hash_integerMarks false type
    rw [text]
    exact ⟨.between (.plain _ (Code.not_hash_integer _)) hbefore hafter, hi⟩
  | .unsigned value type, _, i, hi => by
    obtain ⟨hbefore, hafter⟩ := Code.not_hash_integerMarks true type
    rw [text]
    exact ⟨.between (.plain _ (Code.not_hash_number _)) hbefore hafter, hi⟩
  | .float value, _, i, hi => by
    rw [text]
    exact ⟨.plain _ (Code.not_hash_realText _ (by decide) (by decide) _), hi⟩
  | .double value, _, i, hi => by
    rw [text]
    exact ⟨.plain _ (Code.not_hash_realText _ (by decide) (by decide) _), hi⟩
  | .decimal digits, h, i, hi => by
    rw [text]
    exact ⟨.plain _ (by simp [(hashless_cons.1 h).1]), hi⟩
  | .enumMember type member, h, i, hi => by
    rw [strings, hashless_append, hashless_cons] at h
    obtain ⟨htype, hi⟩ := type.hashless_text h.1 i hi
    rw [text]
    exact ⟨.plain _ (by simp [htype, h.2.1]), hi⟩
  | .struct type components, h, i, hi => by
    obtain ⟨htype, hi⟩ := type.hashless_text h i hi
    rw [text]
    exact ⟨.plain _ (Code.not_hash_structText htype components), hi⟩
  | .array element items, h, i, hi => by
    rw [strings, hashless_append] at h
    obtain ⟨hitems, hi⟩ := woven_texts items h.2 i hi
    obtain ⟨helement, hi⟩ := element.hashless_text h.1 _ hi
    rw [text]
    exact ⟨.arrayText helement hitems, hi⟩
  | .list element items, h, i, hi => by
    rw [strings, hashless_append] at h
    obtain ⟨hitems, hi⟩ := woven_texts items h.2 i hi
    obtain ⟨hname, hi⟩ := (listOf element).hashless_text (hashless_listOf h.1) _ hi
    rw [text]
    exact ⟨.listText hname hitems, hi⟩
  | .default type, h, i, hi => by
    obtain ⟨htype, hi⟩ := type.hashless_text h i hi
    rw [text]
    exact ⟨.plain _ (by simp [htype]), hi⟩

theorem Literal.woven_texts : (ls : List Literal) → Hashless (stringsOf ls) →
    (i : Imports) → Hashless i.spaces →
    (∀ text ∈ (texts ls i).1, Woven ok text) ∧ Hashless (texts ls i).2.spaces
  | [], _, i, hi => by
    rw [texts]
    exact ⟨forall_mem_nil _, hi⟩
  | l :: ls, h, i, hi => by
    rw [stringsOf, hashless_append] at h
    obtain ⟨htext, hi⟩ := woven_text l h.1 i hi
    obtain ⟨htexts, hi⟩ := woven_texts ls h.2 _ hi
    rw [texts]
    exact ⟨forall_mem_cons.2 ⟨htext, htexts⟩, hi⟩

end

end Literals

end FlowClass
