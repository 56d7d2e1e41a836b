import FlowClass.Proofs.Code.Spelling

/-!
# Quoted text and comments read back

A reader takes a string literal apart: it ends at the first quote that is not escaped, and its escapes
stand for the characters of the string (`Code.stringLiteral_read_back`). Two of the characters that end
a line are no control characters, so they are not escaped (`Code.literals_on_one_line`). A comment in
place of a failed node ends where its own end is (`Fragment.placeholder_one_comment`).
-/

namespace FlowClass

open List

namespace Code

/-! ## A reader of string literals -/

def hexValue? (c : Char) : Option Nat :=
  if '0' ≤ c ∧ c ≤ '9' then some (c.toNat - '0'.toNat)
  else if 'A' ≤ c ∧ c ≤ 'F' then some (c.toNat - 'A'.toNat + 10)
  else none

/-- The character with a number of four hexadecimal digits. -/
def hexChar? (a b c d : Char) : Option Char := do
  let n := 4096 * (← hexValue? a) + 256 * (← hexValue? b) + 16 * (← hexValue? c) + (← hexValue? d)
  if n.isValidChar then some (Char.ofNat n) else none

/-- The characters up to the first quote that is not escaped, and what stands behind it. -/
def readBody? : List Char → Option (List Char × List Char)
  | [] => none
  | '"' :: s => some ([], s)
  | '\\' :: 'u' :: a :: b :: c :: d :: s => do
    let char ← hexChar? a b c d
    let (chars, rest) ← readBody? s
    return (char :: chars, rest)
  | '\\' :: e :: s => do
    let char ← shortEscapes.lookup e
    let (chars, rest) ← readBody? s
    return (char :: chars, rest)
  | c :: s => do
    let (chars, rest) ← readBody? s
    return (c :: chars, rest)

/-- A string literal at the start of a text, and the rest of the text. -/
def readString? (text : List Char) : Option (List Char × List Char) :=
  match text with
  | '"' :: s => readBody? s
  | _ => none

theorem hexValue_hexDigit (n : Nat) : hexValue? (hexDigit (n % 16)) = some (n % 16) := by
  have hdigits : (List.range 16).all (fun d => hexValue? (hexDigit d) = some d) = true := by decide
  simpa using all_eq_true.1 hdigits (n % 16) (mem_range.2 (Nat.mod_lt n (by decide)))

/-- A number of four digits is read back. -/
theorem hexChar_hexDigits {c : Char} (hc : c.toNat < 65536) :
    ∃ a b d e, hexDigits 4 c.toNat = [a, b, d, e] ∧ hexChar? a b d e = some c := by
  refine ⟨_, _, _, _, rfl, ?_⟩
  have hsum : 4096 * (c.toNat / 16 / 16 / 16 % 16) + 256 * (c.toNat / 16 / 16 % 16) +
      16 * (c.toNat / 16 % 16) + c.toNat % 16 = c.toNat := by omega
  simp only [hexChar?, hexValue_hexDigit, Option.bind_eq_bind, Option.bind_some, hsum]
  rw [if_pos (show c.toNat.isValidChar from c.valid), Char.ofNat_toNat]

theorem readBody_unicode {c : Char} (hc : c.toNat < 65536) {s chars rest : List Char}
    (h : readBody? s = some (chars, rest)) :
    readBody? (unicodeEscape c ++ s) = some (c :: chars, rest) := by
  obtain ⟨a, b, d, e, hdigits, hchar⟩ := hexChar_hexDigits hc
  simp [unicodeEscape, hdigits, readBody?, hchar, h]

theorem readBody_short {c e : Char} (he : (e, c) ∈ shortEscapes) {s chars rest : List Char}
    (h : readBody? s = some (chars, rest)) :
    readBody? ('\\' :: e :: s) = some (c :: chars, rest) := by
  obtain ⟨-, -, hlookup, hu, -⟩ := of_mem_shortEscapes he
  rw [readBody?]
  · simp [hlookup, h]
  · exact fun _ _ _ _ _ heq _ => hu heq

theorem toNat_lt_of_control {c : Char} (h : Text.isControl c = true) : c.toNat < 65536 := by
  simp [Text.isControl] at h
  omega

/-- The inside of a string literal is read up to its own closing quote, whatever follows. -/
theorem readBody_stringBody (slash : Bool) (s rest : List Char) :
    readBody? (stringBody slash s ++ '"' :: rest) = some (s, rest) := by
  induction s generalizing slash with
  | nil => simp [stringBody, readBody?]
  | cons c s ih =>
    have hread := ih (c = '/')
    rw [stringBody, append_assoc]
    split
    · rename_i hstar
      rw [Bool.and_eq_true, decide_eq_true_eq] at hstar
      exact readBody_unicode (by rw [hstar.2]; decide) hread
    · obtain ⟨heq, hquote, hbackslash, _⟩ | ⟨e, heq, he⟩ | ⟨heq, hc⟩ :=
        escaped_cases (.inl rfl) c <;> rw [heq]
      · simp [readBody?, hbackslash, hread]
      · exact readBody_short he hread
      · exact readBody_unicode (toNat_lt_of_control hc) hread

/-- A string literal stands between quotes without a line break, opens no comment, and is read up to
its last character as the string that it was written for. So it tells strings apart. -/
theorem stringLiteral_read_back (s : String) :
    (∃ body, (stringLiteral s).toList = '"' :: (body ++ ['"']) ∧ '\r' ∉ body ∧ '\n' ∉ body) ∧
    ¬ ['/', '*'] <:+: (stringLiteral s).toList ∧
    (∀ rest, readString? ((stringLiteral s).toList ++ rest) = some (s.toList, rest)) ∧
    ∀ t, stringLiteral t = stringLiteral s → t = s := by
  have htext (s : String) : (stringLiteral s).toList = '"' :: (stringBody false s.toList ++ ['"']) :=
    String.toList_ofList
  have hread (s : String) (rest : List Char) :
      readString? ((stringLiteral s).toList ++ rest) = some (s.toList, rest) := by
    rw [htext, cons_append, append_assoc]
    exact readBody_stringBody false s.toList rest
  refine ⟨⟨_, htext s, ?_, ?_⟩, ?_, hread s, fun t hsame => ?_⟩
  · simp [mem_stringBody (c := '\r') rfl (by decide), Text.isControl]
  · simp [mem_stringBody (c := '\n') rfl (by decide), Text.isControl]
  · rw [htext]
    intro hopen
    have hpair := List.IsChain.infix (isChain_stringBody (by decide) s.toList) hopen
    exact isChain_pair.1 hpair ⟨rfl, rfl⟩
  · have hboth := (hread t []).symm.trans (hsame ▸ hread s [])
    exact String.toList_inj.1 (congrArg Prod.fst (Option.some.inj hboth))

/-! ## Lines and units -/

/-- The characters that end a line. -/
def lineEnds : List Char := ['\r', '\n', '\x85', '\u2028', '\u2029']

def OnOneLine (text : String) : Prop :=
  ∀ c ∈ lineEnds, c ∉ text.toList

/-- How many units of sixteen bits a character is. -/
def utf16Units (c : Char) : Nat :=
  if c.toNat < 65536 then 1 else 2

/-- What may stand between the quotes of a character literal: one escape, or one character that is a
single unit. -/
def isCharBody : List Char → Bool
  | [c] => c ≠ '\'' && c ≠ '\\' && utf16Units c = 1
  | ['\\', e] => (shortEscapes.lookup e).isSome
  | ['\\', 'u', a, b, c, d] => (hexChar? a b c d).isSome
  | _ => false

/-- What is written for a character may stand in a character literal if the character is one unit. -/
theorem isCharBody_escaped (c : Char) : isCharBody (escaped '\'' c) = true ↔ utf16Units c = 1 := by
  obtain ⟨heq, hquote, hbackslash, _⟩ | ⟨e, heq, he⟩ | ⟨heq, hc⟩ :=
    escaped_cases (.inr rfl) c <;> rw [heq]
  · simp [isCharBody, hquote, hbackslash]
  · obtain ⟨-, -, hlookup, -, hsize⟩ := of_mem_shortEscapes he
    exact iff_of_true (by simp [isCharBody, hlookup]) (if_pos hsize)
  · have hsize := toNat_lt_of_control hc
    obtain ⟨a, b, d, e, hdigits, hchar⟩ := hexChar_hexDigits hsize
    refine iff_of_true ?_ (if_pos hsize)
    rw [unicodeEscape, hdigits, isCharBody, hchar]
    rfl

theorem mem_charLiteral {c d : Char} (hd : isEscapeChar d = false) :
    d ∈ (charLiteral c).toList ↔ c = d ∧ Text.isControl d = false := by
  have hquote : d ≠ '\'' := by
    rintro rfl
    cases hd
  rw [charLiteral, String.toList_ofList, mem_cons, mem_append, mem_singleton]
  simp only [hquote, false_or, or_false]
  obtain ⟨heq, hc⟩ | ⟨hescape, hc⟩ := escaped_or (.inr rfl) c
  · rw [heq, mem_singleton, eq_comm]
    exact ⟨fun h => ⟨h, h ▸ hc⟩, And.left⟩
  · refine iff_of_false (hescape.not_mem hd) ?_
    rintro ⟨rfl, hcontrol⟩
    rw [hd, hcontrol] at hc
    cases hc

/-- A string literal stays on its line if the string has no line or paragraph separator, and only then:
these two end a line and are no control characters. So it is with a character literal, which holds one
escape, or its character, and this is a single unit or two. -/
theorem literals_on_one_line (s : String) (c : Char) :
    (OnOneLine (stringLiteral s) ↔ '\u2028' ∉ s.toList ∧ '\u2029' ∉ s.toList) ∧
    (OnOneLine (charLiteral c) ↔ c ≠ '\u2028' ∧ c ≠ '\u2029') ∧
    ∃ body, (charLiteral c).toList = '\'' :: (body ++ ['\'']) ∧
      (isCharBody body = true ↔ utf16Units c = 1) := by
  have hall : lineEnds.all (fun d => !isEscapeChar d && d != '*' && d != '"') = true := by decide
  have hends (d : Char) (hd : d ∈ lineEnds) : isEscapeChar d = false ∧ d ≠ '*' ∧ d ≠ '"' := by
    simpa [and_assoc] using all_eq_true.1 hall d hd
  have hstring (d : Char) (hd : d ∈ lineEnds) :
      d ∈ (stringLiteral s).toList ↔ d ∈ s.toList ∧ Text.isControl d = false := by
    obtain ⟨hescape, hstar, hquote⟩ := hends d hd
    simp [stringLiteral, hquote, mem_stringBody hescape hstar]
  have hchar (d : Char) (hd : d ∈ lineEnds) :
      d ∈ (charLiteral c).toList ↔ c = d ∧ Text.isControl d = false :=
    mem_charLiteral (hends d hd).1
  refine ⟨?_, ?_, _, String.toList_ofList, isCharBody_escaped c⟩
  · rw [OnOneLine, forall₂_congr fun d hd => not_congr (hstring d hd)]
    simp [lineEnds, Text.isControl]
  · rw [OnOneLine, forall₂_congr fun d hd => not_congr (hchar d hd)]
    simp [lineEnds, Text.isControl]

/-- The separators are written as they are, and so is a character of two units. -/
theorem separators_break_lines :
    ¬ OnOneLine (stringLiteral "\u2028") ∧ ¬ OnOneLine (charLiteral '\u2029') ∧
      charLiteral '😀' = "'😀'" ∧ isCharBody ['😀'] = false :=
  ⟨fun h => h '\u2028' (by decide) (by decide), fun h => h '\u2029' (by decide) (by decide),
    by decide, by decide⟩

end Code

/-! ## Comments -/

namespace Fragment

/-- A blank is put between the two characters wherever they touch, from left to right. -/
def replacePair (a b : Char) : List Char → List Char
  | c :: d :: s =>
    if c = a ∧ d = b then c :: ' ' :: d :: replacePair a b s else c :: replacePair a b (d :: s)
  | s => s

theorem replacePair_cons {a b : Char} (hab : a ≠ b) (c d : Char) (s : List Char) :
    replacePair a b (c :: d :: s) =
      if c = a ∧ d = b then c :: ' ' :: replacePair a b (d :: s)
      else c :: replacePair a b (d :: s) := by
  rw [replacePair]
  split
  · rename_i htouch
    have hskip : replacePair a b (d :: s) = d :: replacePair a b s := by
      cases s with
      | nil => rfl
      | cons e s => rw [replacePair, if_neg fun h => hab (h.1.symm.trans htouch.2)]
    rw [hskip]
  · rfl

theorem replacePair_head (a b c : Char) (s : List Char) :
    ∃ rest, replacePair a b (c :: s) = c :: rest := by
  cases s with
  | nil => exact ⟨[], rfl⟩
  | cons d s =>
    rw [replacePair]
    split <;> exact ⟨_, rfl⟩

/-- Both replacements are made at once: the second one takes nothing apart that the first put there,
and joins nothing. -/
theorem part_eq_replaced (s : List Char) :
    part s = replacePair '/' '*' (replacePair '*' '/' s) := by
  have hne : '*' ≠ '/' := by decide
  induction s with
  | nil => rfl
  | cons c s ih =>
    cases s with
    | nil => rfl
    | cons d s =>
      obtain ⟨rest, hrest⟩ := replacePair_head '*' '/' d s
      rw [hrest] at ih
      rw [part, replacePair_cons hne, hrest, ih]
      by_cases htouch : c = '*' ∧ d = '/'
      · obtain ⟨rfl, rfl⟩ := htouch
        simp [replacePair_cons hne.symm]
      · rw [if_neg htouch, replacePair_cons hne.symm]
        simp [htouch]

/-- The comment in place of a failed node starts and ends as a comment and has no line break. Between
its ends stands the message with blanks put in, where no comment starts or ends: so there is no marker
in it, and it ends where its own end is. -/
theorem placeholder_one_comment (text : String) :
    ∃ inside, (placeholder text).text.toList = ['/', '*'] ++ inside ++ ['*', '/'] ∧
      inside = ' ' :: ((replacePair '/' '*' (replacePair '*' '/' text.toList)).map
        (fun c => if c = '\n' then ' ' else c) ++ [' ']) ∧
      '\n' ∉ (placeholder text).text.toList ∧ ¬ ['/', '*'] <:+: inside ∧ ¬ ['*', '/'] <:+: inside ∧
      ¬ Marker.leadMark <:+: (placeholder text).text.toList ∧
      Text.cutAt ['*', '/'] (inside ++ ['*', '/']) = some (inside, []) := by
  have hpart : ' ' :: (message text.toList ++ [' ']) <:+: ' ' :: (message text.toList ++ [' ', '*']) :=
    ⟨[], ['*'], by simp⟩
  have hclear {a b : Char} (h : [a, b] <:+: ' ' :: (message text.toList ++ [' ', '*'])) : Clear a b := by
    have hpair := List.IsChain.infix (isChain_inside text.toList) h
    exact isChain_pair.1 hpair
  refine ⟨' ' :: (message text.toList ++ [' ']), ?_, ?_, ?_, fun h => ?_, fun h => ?_,
    not_infix_placeholder text, (Text.cutAt_eq_some_iff (by decide)).2 ⟨by simp, ?_⟩⟩
  · rw [toList_placeholder]
    simp
  · rw [message, part_eq_replaced]
  · simp [toList_placeholder, not_newline_message]
  · exact (hclear (h.trans hpart)).1 ⟨rfl, rfl⟩
  · exact (hclear (h.trans hpart)).2 ⟨rfl, rfl⟩
  · have hclosed : ¬ ['*', '/'] <:+: ' ' :: (message text.toList ++ [' ', '*']) := fun h =>
      (hclear h).2 ⟨rfl, rfl⟩
    simpa using hclosed

end Fragment

end FlowClass
