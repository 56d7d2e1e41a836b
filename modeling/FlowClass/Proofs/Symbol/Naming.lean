import FlowClass.Symbol.Name
import Mathlib.Data.List.Nodup

/-!
# Generated names

A generated name is new (`Names.generate_not_mem`), and it has nothing but the characters of
identifiers in it (`Names.isName_generate`).
-/

namespace FlowClass

open List

/-- Nothing but characters of identifiers, and the mark that escapes a reserved word. -/
def isName (name : String) : Bool :=
  name.toList.all fun c => isNameChar c || c = '@'

theorem mem_of_lookup {α β : Type} [BEq α] [LawfulBEq α] {l : List (α × β)} {a : α} {b : β}
    (h : l.lookup a = some b) : (a, b) ∈ l := by
  obtain ⟨before, after, rfl, _⟩ := lookup_eq_some_iff.1 h
  exact mem_append_right _ mem_cons_self

theorem lookup_cons_of_ne {α β : Type} [DecidableEq α] {a key : α} (h : a ≠ key) (value : β)
    (l : List (α × β)) : ((key, value) :: l).lookup a = l.lookup a := by
  rw [lookup_cons, beq_false_of_ne h]

theorem toString_injective {m n : Nat} (h : toString m = toString n) : m = n := by
  rw [Nat.toString_eq_ofList_toDigits, Nat.toString_eq_ofList_toDigits] at h
  have hdigits : Nat.toDigits 10 m = Nat.toDigits 10 n := String.ofList_injective h
  rw [← Nat.ofDigitChars_ten_toDigits (n := m), hdigits, Nat.ofDigitChars_ten_toDigits]

theorem exists_of_isDigit {c : Char} (h : c.isDigit = true) :
    ∃ n ∈ List.range 10, c = Char.ofNat (48 + n) := by
  simp only [Char.isDigit, Bool.and_eq_true, decide_eq_true_eq, ge_iff_le, UInt32.le_iff_toNat_le]
    at h
  have hge : 48 ≤ c.toNat := h.1
  have hle : c.toNat ≤ 57 := h.2
  refine ⟨c.toNat - 48, mem_range.2 (by omega), ?_⟩
  rw [Nat.add_sub_cancel' hge, Char.ofNat_toNat]

theorem isNameChar_of_digit {c : Char} (h : c.isDigit = true) : isNameChar c = true := by
  have hdigits : ∀ n ∈ List.range 10, isNameChar (Char.ofNat (48 + n)) = true := by decide +kernel
  obtain ⟨n, hn, rfl⟩ := exists_of_isDigit h
  exact hdigits n hn

theorem isBlank_of_nameChar {c : Char} (h : isNameChar c = true) : Text.isBlank c = false := by
  have hblanks : ∀ n ∈ List.range' 0x09 5 ++ [0x20, 0x85, 0xA0, 0x1680] ++ List.range' 0x2000 11 ++
      [0x2028, 0x2029, 0x202F, 0x205F, 0x3000], isNameChar (Char.ofNat n) = false := by
    decide +kernel
  refine Bool.eq_false_iff.2 fun hblank => ?_
  have hc := hblanks c.toNat (by
    simp [Text.isBlank] at hblank
    simp
    omega)
  rw [Char.ofNat_toNat, h] at hc
  cases hc

theorem isNameChar_underscore : isNameChar '_' = true := by
  simp [isNameChar]

theorem isName_append {a b : String} (ha : isName a = true) (hb : isName b = true) :
    isName (a ++ b) = true := by
  unfold isName at *
  rw [String.toList_append, all_append, ha, hb]
  rfl

theorem isName_number (n : Nat) : isName (toString n) = true := by
  unfold isName
  rw [Nat.toString_eq_ofList_toDigits, String.toList_ofList, all_eq_true]
  intro c hc
  simp [isNameChar_of_digit (Nat.isDigit_of_mem_toDigits (by decide) (by decide) hc)]

/-- What an identifier for a text starts with, unless it is escaped. -/
def identifierStart (text : String) : Char :=
  match Text.trim text.toList with
  | [] => '_'
  | c :: _ => if isNameChar c && !c.isDigit then c else '_'

theorem isNameChar_identifierStart (text : String) : isNameChar (identifierStart text) = true := by
  unfold identifierStart
  split
  · exact isNameChar_underscore
  · split
    · simp_all
    · exact isNameChar_underscore

theorem isLetter_of_keyword {name : String} (h : isKeyword name = true) {c : Char} {s : List Char}
    (hname : name.toList = c :: s) : Text.isLetter c = true := by
  have hall : ∀ w ∈ keywords, w.toList.head?.any Text.isLetter = true := by decide +kernel
  simpa [hname] using hall name (by simpa [isKeyword] using h)

/-- What is made of a text is no reserved word, and goes on with characters of identifiers. -/
theorem identifierOf_shape (text : String) : isKeyword (identifierOf text) = false ∧
    ∃ c s, (identifierOf text).toList = c :: s ∧ (∀ d ∈ s, isNameChar d = true) ∧
      (c = identifierStart text ∨ c = '@' ∧ Text.isLetter (identifierStart text) = true) := by
  have hstart := isNameChar_identifierStart text
  have hname : ∃ s, identifierOf text =
      (let name := String.ofList (identifierStart text :: s)
      if isKeyword name then "@" ++ name else name) ∧ ∀ d ∈ s, isNameChar d = true := by
    have hmap (s : List Char) : ∀ d ∈ s.map fun c => if isNameChar c then c else '_',
        isNameChar d = true := by
      refine forall_mem_map.2 fun c _ => ?_
      split
      · assumption
      · exact isNameChar_underscore
    unfold identifierOf identifierStart
    cases Text.trim text.toList with
    | nil => exact ⟨[], by decide +kernel, by simp⟩
    | cons c s =>
      rw [map_cons]
      by_cases hc : isNameChar c = true
      · cases hdigit : c.isDigit
        · exact ⟨_, by simp [hc, hdigit], hmap s⟩
        · exact ⟨_, by simp [hc, hdigit], forall_mem_cons.2 ⟨hc, hmap s⟩⟩
      · exact ⟨_, by simp [hc], hmap s⟩
  obtain ⟨s, heq, hs⟩ := hname
  rw [heq]
  dsimp only
  split
  · rename_i hkeyword
    refine ⟨Bool.eq_false_iff.2 fun h => ?_, '@', identifierStart text :: s, by simp,
      forall_mem_cons.2 ⟨hstart, hs⟩, .inr ⟨rfl, isLetter_of_keyword hkeyword String.toList_ofList⟩⟩
    have hat : Text.isLetter '@' = false := by decide +kernel
    have hmark : Text.isLetter '@' = true :=
      isLetter_of_keyword h (by rw [String.toList_append]; rfl)
    cases hat.symm.trans hmark
  · rename_i hother
    exact ⟨Bool.eq_false_iff.2 hother, _, s, String.toList_ofList, hs, .inl rfl⟩

theorem isName_identifierOf (text : String) : isName (identifierOf text) = true := by
  obtain ⟨-, c, s, hname, hs, hc⟩ := identifierOf_shape text
  have hfirst : isNameChar c = true ∨ c = '@' := by
    rcases hc with rfl | ⟨rfl, -⟩
    · exact .inl (isNameChar_identifierStart text)
    · exact .inr rfl
  rw [isName, hname, all_cons, all_eq_true.2 fun d hd => by simp [hs d hd]]
  simpa using hfirst

namespace Names

/-- The numbers tried are taken, or the one found is free. -/
theorem freshSuffix_cases (used : List String) (base : String) (fuel k : Nat) :
    base ++ toString (freshSuffix used base fuel k) ∉ used ∨
      ∀ i < fuel, base ++ toString (k + i) ∈ used := by
  induction fuel generalizing k with
  | zero => exact .inr fun i hi => absurd hi (Nat.not_lt_zero i)
  | succ fuel ih =>
    rw [freshSuffix]
    split
    · rename_i htaken
      refine (ih (k + 1)).imp_right fun h i hi => ?_
      cases i with
      | zero => simpa using htaken
      | succ i =>
        have hi := h i (Nat.lt_of_succ_lt_succ hi)
        rwa [Nat.add_right_comm, Nat.add_assoc] at hi
    · rename_i hfree
      exact .inl (by simpa using hfree)

/-- Of more numbers than there are names one is free. -/
theorem freshSuffix_not_mem (used : List String) (base : String) (k : Nat) :
    base ++ toString (freshSuffix used base (used.length + 1) k) ∉ used := by
  refine (freshSuffix_cases used base (used.length + 1) k).resolve_right fun htaken => ?_
  have hinjective : Function.Injective fun i => base ++ toString (k + i) := fun i j h =>
    Nat.add_left_cancel (toString_injective ((String.append_right_inj base).1 h))
  have hnodup := (nodup_range (n := used.length + 1)).map hinjective
  have hsubset : (List.range (used.length + 1)).map (fun i => base ++ toString (k + i)) ⊆ used := by
    intro name hname
    obtain ⟨i, hi, rfl⟩ := mem_map.1 hname
    exact htaken i (mem_range.1 hi)
  have hle := hnodup.length_le_of_subset hsubset
  rw [length_map, length_range] at hle
  omega

variable (n : Names) (text : String)

/-- A generated name was not taken. -/
theorem generate_not_mem : (n.generate text).1 ∉ n.used := by
  unfold generate
  dsimp only
  split
  · exact freshSuffix_not_mem _ _ _
  · rename_i hfree
    simpa using hfree

theorem used_generate : (n.generate text).2.used = (n.generate text).1 :: n.used := by
  unfold generate
  dsimp only
  split <;> rfl

theorem aliases_generate : (n.generate text).2.aliases = n.aliases := by
  unfold generate
  dsimp only
  split <;> rfl

/-- The name for a text of an owner stays its name. -/
theorem mem_aliases_nameFor (owner : SymbolKey) :
    ((owner, text), (n.nameFor owner text).1) ∈ (n.nameFor owner text).2.aliases := by
  unfold nameFor
  split
  · rename_i name halias
    exact mem_of_lookup halias
  · exact mem_cons_self

/-- A generated name is the identifier of its text, with a number after it or not. -/
theorem generate_eq : (n.generate text).1 = identifierOf text ∨
    ∃ k : Nat, (n.generate text).1 = identifierOf text ++ toString k := by
  unfold generate
  dsimp only
  split
  · exact .inr ⟨_, rfl⟩
  · exact .inl rfl

theorem isName_generate : isName (n.generate text).1 = true := by
  rcases generate_eq n text with h | ⟨k, h⟩
  · rw [h]
    exact isName_identifierOf text
  · rw [h]
    exact isName_append (isName_identifierOf text) (isName_number k)

end Names

end FlowClass
