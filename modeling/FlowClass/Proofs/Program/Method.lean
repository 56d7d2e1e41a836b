import FlowClass.Proofs.Emission.Preparation
import FlowClass.Proofs.Program.Layout

/-!
# The methods of shared nodes

A shared node asks for a method named after its title and its number. No other node asks for that name
(`methodBase_injective`), and what is made from it can be called (`isWord_methodName`).
-/

namespace FlowClass

open List String

variable {name : String} {c : Char}

/-- The name that is asked for, for the method of a node. -/
def Node.methodBase (id : NodeId) (n : Node) : String :=
  s!"{n.title}_{id}"

/-- The names of the declared methods. -/
def ClassDecl.methodNames (c : ClassDecl) : List String :=
  c.functions.map FunctionDecl.name ++ c.events.map EventDecl.name

/-! ## Names -/

theorem Node.toList_methodBase (id : NodeId) (n : Node) :
    (n.methodBase id).toList = n.title.toList ++ '_' :: Nat.toDigits 10 id.val.toNat := by
  change (n.title ++ "_" ++ toString id.val.toNat).toList = _
  rw [Nat.toString_eq_ofList_toDigits]
  simp [toList_append]

/-- Nodes that ask for the same name are the same. -/
theorem Node.methodBase_injective {id id' : NodeId} {n n' : Node}
    (h : n.methodBase id = n'.methodBase id') : id = id' := by
  have hlist := congrArg toList h
  rw [toList_methodBase, toList_methodBase] at hlist
  have htitle (n : Node) : ∀ c ∈ n.title.toList, (c != '_') = true := by
    have hall : n.title.toList.all (· != '_') = true := by
      cases n <;> (dsimp only [title]; decide)
    exact all_eq_true.1 hall
  -- what stands after the first underscore is the number
  have hdrop := congrArg (List.dropWhile (· != '_')) hlist
  rw [dropWhile_append_of_pos (htitle n), dropWhile_append_of_pos (htitle n')] at hdrop
  have hdigits : Nat.toDigits 10 id.val.toNat = Nat.toDigits 10 id'.val.toNat := by
    simpa using hdrop
  have hval : id.val.toNat = id'.val.toNat :=
    calc
      id.val.toNat = Nat.ofDigitChars 10 (Nat.toDigits 10 id.val.toNat) 0 :=
        Nat.ofDigitChars_ten_toDigits.symm
      _ = Nat.ofDigitChars 10 (Nat.toDigits 10 id'.val.toNat) 0 := by rw [hdigits]
      _ = id'.val.toNat := Nat.ofDigitChars_ten_toDigits
  cases id
  cases id'
  exact congrArg NodeId.mk (UInt32.toNat_inj.1 hval)

namespace Program

open Code

theorem isWordChar_of_nameChar (h : isNameChar c = true) : isWordChar c = true := by
  have hne (d : Char) (hd : isNameChar d = false) : c ≠ d := fun heq => by
    rw [heq, hd] at h
    cases h
  have hblank := isBlank_of_nameChar h
  have hmarks : ['"', '\'', '\x7b', '\x7d', '(', ')', ';'].all (fun d => !isNameChar d) = true := by
    decide +kernel
  have hmark (d : Char) (hd : d ∈ ['"', '\'', '\x7b', '\x7d', '(', ')', ';']) : c ≠ d :=
    hne d (by simpa using all_eq_true.1 hmarks d hd)
  simp [isWordChar, isInert, hblank, hmark '"' (by simp), hmark '\'' (by simp),
    hmark '\x7b' (by simp), hmark '\x7d' (by simp), hmark '(' (by simp), hmark ')' (by simp),
    hmark ';' (by simp)]

theorem isWordChar_of_isName (h : isName name = true) : ∀ c ∈ name.toList, isWordChar c = true := by
  intro c hc
  have hchar := all_eq_true.1 h c hc
  rw [Bool.or_eq_true, decide_eq_true_eq] at hchar
  rcases hchar with hchar | rfl
  · exact isWordChar_of_nameChar hchar
  · decide

/-- A name can stand in the parentheses of an `if`. -/
theorem Condition.of_isName (h : isName name = true) : Condition name := by
  have hword := isWordChar_of_isName h
  refine ⟨.of_inert (all_eq_true.2 fun c hc => isWordChar_inert (hword c hc)), ?_⟩
  revert hword
  generalize name.toList = s
  intro hword
  induction s with
  | nil => rfl
  | cons c s ih =>
    obtain ⟨hc, hs⟩ := forall_mem_cons.1 hword
    simp only [isWordChar, isInert, Bool.and_eq_true, bne_iff_ne] at hc
    simp [balancedFrom, Quoting.step, hc, ih hs]

/-- A text that starts with a character that is no blank keeps it at its head. -/
theorem trim_cons (h : Text.isBlank c = false) (s : List Char) :
    ∃ s', Text.trim (c :: s) = c :: s' := by
  have hstart : Text.trimStart (c :: s) = c :: s := by
    rw [Text.trimStart, dropWhile_cons_of_neg (by simp [h])]
  rw [Text.trim, hstart, Text.trimEnd, reverse_cons, dropWhile_append]
  split
  · rw [dropWhile_cons_of_neg (by simp [h])]
    exact ⟨[], rfl⟩
  · exact ⟨(s.reverse.dropWhile Text.isBlank).reverse, by rw [reverse_append]; rfl⟩

/-- An identifier starts as its text does, or with a mark that was put before it. -/
theorem identifierOf_head {text : String} {s : List Char} (htext : text.toList = c :: s)
    (hc : isNameChar c = true) : ∃ d s', (identifierOf text).toList = d :: s' ∧
      (d = c ∨ d = '_' ∨ d = '@') := by
  obtain ⟨s', hs'⟩ := trim_cons (isWordChar_not_blank (isWordChar_of_nameChar hc)) s
  have hstart : identifierStart text = c ∨ identifierStart text = '_' := by
    rw [identifierStart, htext, hs']
    exact ite_eq_or_eq _ _ _
  obtain ⟨-, d, rest, hname, -, rfl | ⟨rfl, -⟩⟩ := identifierOf_shape text
  · exact ⟨_, rest, hname, hstart.imp_right .inl⟩
  · exact ⟨_, rest, hname, .inr (.inr rfl)⟩

theorem isWord_of_head {s : List Char} (hname : isName name = true) (htext : name.toList = c :: s)
    (hc : c ≠ 'e') : isWord name = true := by
  have hchars : name.toList.all isWordChar = true := all_eq_true.2 (isWordChar_of_isName hname)
  have helse : Text.startsWith "else".toList (c :: s) = false := by
    change Text.startsWith ['e', 'l', 's', 'e'] (c :: s) = false
    rw [startsWith_cons, beq_eq_false_iff_ne.2 hc.symm, Bool.false_and]
  rw [htext] at hchars
  simp only [isWord, htext, hchars, helse]
  rfl

/-- The name of the method of a shared node can be called. -/
theorem isWord_methodName (names : Names) (id : NodeId) (n : Node) :
    isWord (names.generate (n.methodBase id)).1 = true := by
  have htitle : n.title.toList.head?.any (fun c => isNameChar c && c != 'e') = true := by
    cases n <;> (dsimp only [Node.title]; decide +kernel)
  obtain ⟨c, hc, hfirst⟩ := (Option.any_eq_true _ _).1 htitle
  obtain ⟨s, hs⟩ := head?_eq_some_iff.1 hc
  rw [Bool.and_eq_true, bne_iff_ne] at hfirst
  obtain ⟨hc, hne⟩ := hfirst
  have hbase : (n.methodBase id).toList = c :: (s ++ '_' :: Nat.toDigits 10 id.val.toNat) := by
    rw [Node.toList_methodBase, hs]
    rfl
  obtain ⟨d, s', hd, hhead⟩ := identifierOf_head hbase hc
  have hde : d ≠ 'e' := by
    rcases hhead with rfl | rfl | rfl
    · exact hne
    · decide
    · decide
  have hname := names.isName_generate (n.methodBase id)
  rcases names.generate_eq (n.methodBase id) with h | ⟨k, h⟩
  · exact isWord_of_head hname (by rw [h]; exact hd) hde
  · exact isWord_of_head hname (by rw [h, toList_append, hd]; rfl) hde

end Program

end FlowClass
