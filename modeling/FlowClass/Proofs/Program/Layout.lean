import FlowClass.Proofs.Program.Execution
import FlowClass.Proofs.Program.Scan
import FlowClass.Emit.Node

/-!
# Texts that spell statements

`Spells` reads the text of a body as statements. It is a grammar of whole texts: calls, returns and
`if`s below each other, where what hangs on an `if` is in braces, or is a single `if` after `else`.

A body is laid out as a *block* of *pieces*, one for each statement or marked group of statements.
Blocks are closed under everything that emission does with texts (`Block.lines`, `Block.mark`,
`Piece.branch`), and every block is spelled as it was meant (`Block.spells`). The one delicate case
is an `else` without braces, which is only right before a block with a single piece (`Block.single`).
-/

namespace FlowClass.Program

open Code List Text

variable {text : String} {c : Char} {s : List Char}

/-! ## The grammar -/

/-- No parenthesis is closed that was not opened, and none stays open, outside of literals. -/
def balancedFrom : Quoting → Nat → List Char → Bool
  | .outside, depth, [] => depth == 0
  | .inside .., _, [] => false
  | .outside, depth, c :: s =>
    if c = '(' then balancedFrom .outside (depth + 1) s
    else if c = ')' then depth != 0 && balancedFrom .outside (depth - 1) s
    else balancedFrom (Quoting.outside.step c) depth s
  | .inside quote escaped, depth, c :: s =>
    balancedFrom ((Quoting.inside quote escaped).step c) depth s

/-- A text that can stand in the parentheses of an `if`. -/
structure Condition (text : String) : Prop where
  closed : Closed text.toList
  balanced : balancedFrom .outside 0 text.toList = true

/-- A character of a name. -/
def isWordChar (c : Char) : Bool :=
  !isBlank c && isInert c && c != '(' && c != ')' && c != ';'

/-- A name that a call may start with. One that starts with `else` would be read together with an
`if` before it. -/
def isWord (name : String) : Bool :=
  !name.toList.isEmpty && name.toList.all isWordChar &&
    !startsWith "else".toList name.toList

/-- `Spells text code`: the text is read as the statements. -/
inductive Spells : String → List Stmt → Prop where
  | blank {text : String} (h : blank text = true) : Spells text []
  | call {name : String} (h : isWord name = true) : Spells (name ++ "();") [.call name]
  | leave : Spells "return;" [.leave]
  | thenNext {above under : String} {code code' : List Stmt} :
    Spells above code → Spells under code' → Spells (above ++ "\n" ++ under) (code ++ code')
  | ifThen {condition body : String} {code : List Stmt} (h : Condition condition) :
    Spells body code →
    Spells ("if (" ++ condition ++ ") " ++ braced body) [.branch condition code []]
  | ifNot {condition body : String} {code : List Stmt} (h : Condition condition) :
    Spells body code →
    Spells ("if (" ++ ("!" ++ operand condition) ++ ") " ++ braced body)
      [.branch condition [] code]
  | ifElse {condition body other : String} {code code' : List Stmt} (h : Condition condition) :
    Spells body code → Spells other code' →
    Spells ("if (" ++ condition ++ ") " ++ braced body ++ (" else " ++ braced other))
      [.branch condition code code']
  | elseIf {condition condition' body other : String} {code onTrue onFalse : List Stmt}
    (h : Condition condition) (hother : startsWith "if (".toList other.toList = true) :
    Spells body code → Spells other [.branch condition' onTrue onFalse] →
    Spells ("if (" ++ condition ++ ") " ++ braced body ++ (" else " ++ other))
      [.branch condition code [.branch condition' onTrue onFalse]]
  | marked {id : MarkerId} {text : String} {code : List Stmt} :
    Spells text code → Spells (Marker.wrap id text) code

/-! ## Pieces -/

/-- A text ends with a closing brace. -/
def EndsBlock (text : String) : Prop :=
  ∃ s, text.toList = s ++ ['\x7d']

theorem EndsBlock.append (h : EndsBlock text) (before : String) : EndsBlock (before ++ text) := by
  obtain ⟨s, hs⟩ := h
  exact ⟨before.toList ++ s, by rw [String.toList_append, hs, append_assoc]⟩

/-- A text that can be put below others: nothing hangs over at its ends. -/
structure Piece (text : String) (code : List Stmt) : Prop where
  spells : Spells text code
  closed : Closed text.toList
  trimmed : Trimmed text.toList
  notElse : ∀ rest, startsWith "else".toList (text.toList ++ rest) = false
  /-- What starts with an `if` is an `if`. -/
  isIf : ∀ rest, startsWith "if (".toList (text.toList ++ rest) = true →
    (∃ condition onTrue onFalse, code = [.branch condition onTrue onFalse]) ∧ EndsBlock text

theorem startsWith_cons {p : Char} {ps : List Char} :
    startsWith (p :: ps) (c :: s) = (p == c && startsWith ps s) := by
  unfold startsWith
  rw [dropLead]
  split <;> simp [*]

theorem isWordChar_not_blank (h : isWordChar c = true) : isBlank c = false := by
  simp only [isWordChar, Bool.and_eq_true, Bool.not_eq_true'] at h
  exact h.1.1.1.1

theorem isWordChar_inert (h : isWordChar c = true) : isInert c = true := by
  simp only [isWordChar, Bool.and_eq_true, Bool.not_eq_true'] at h
  exact h.1.1.1.2

/-- What a text starts with ends before a character that does not occur in it. -/
theorem startsWith_of_stop {p rest : List Char} (hc : c ∉ p)
    (h : startsWith p (s ++ c :: rest) = true) : startsWith p s = true := by
  rw [startsWith_iff] at h ⊢
  obtain hshort | ⟨_ | ⟨d, q⟩, rfl⟩ := prefix_or_prefix_of_prefix h (prefix_append s (c :: rest))
  · exact hshort
  · simp
  · obtain ⟨rfl, _⟩ := cons_prefix_cons.1 ((prefix_append_right_inj s).1 h)
    simp at hc

theorem Piece.call {name : String} (h : isWord name = true) : Piece (name ++ "();") [.call name] := by
  have hword := h
  simp only [isWord, Bool.and_eq_true, Bool.not_eq_true', all_eq_true] at hword
  obtain ⟨⟨hsome, hchars⟩, helse⟩ := hword
  have htext : (name ++ "();").toList = name.toList ++ ['(', ')', ';'] := String.toList_append
  refine ⟨.call h, ?_, ⟨?_, ';', by simp [htext], rfl⟩, fun rest => ?_, fun rest hif => ?_⟩
  · rw [htext]
    refine Closed.append (.of_inert ?_) (.of_inert rfl)
    exact all_eq_true.2 fun c hc => isWordChar_inert (hchars c hc)
  · rw [htext]
    cases hname : name.toList with
    | nil => simp [hname] at hsome
    | cons c s =>
      rw [hname] at hchars
      exact ⟨c, rfl, isWordChar_not_blank (hchars c mem_cons_self)⟩
  · refine Bool.eq_false_iff.2 fun hstart => ?_
    rw [htext, append_assoc] at hstart
    rw [startsWith_of_stop (by decide) hstart] at helse
    cases helse
  · -- the third character would be a blank of the name
    rw [htext, append_assoc] at hif
    have hlead : ['i', 'f', ' '] <+: name.toList ++ '(' :: _ :=
      (prefix_append _ ['(']).trans (startsWith_iff.1 hif)
    have hstart := startsWith_iff.1 (startsWith_of_stop (by decide) (startsWith_iff.2 hlead))
    have hblank := isWordChar_not_blank (hchars ' ' (hstart.subset (by simp)))
    cases hblank

theorem Piece.leave : Piece "return;" [.leave] where
  spells := .leave
  closed := .of_inert rfl
  trimmed := ⟨⟨'r', rfl, rfl⟩, ';', rfl, rfl⟩
  notElse _ := rfl
  isIf _ h := nomatch h

/-! ## Blocks -/

/-- Pieces below each other. -/
inductive Block : String → List Stmt → Prop where
  | nothing : Block "" []
  | one {text : String} {code : List Stmt} : Piece text code → Block text code
  | more {text rest : String} {code code' : List Stmt} (hrest : rest ≠ "") :
    Piece text code → Block rest code' → Block (text ++ "\n" ++ rest) (code ++ code')

namespace Block

variable {text rest : String} {code code' : List Stmt}

theorem toList_below (text rest : String) :
    (text ++ "\n" ++ rest).toList = text.toList ++ '\n' :: rest.toList := by
  simp [String.toList_append]

section

variable (h : Block text code)
include h

theorem spells : Spells text code := by
  induction h with
  | nothing => exact .blank rfl
  | one hpiece => exact hpiece.spells
  | more _ hpiece _ ih => exact .thenNext hpiece.spells ih

theorem closed : Closed text.toList := by
  induction h with
  | nothing => exact .nil
  | one hpiece => exact hpiece.closed
  | more _ hpiece _ ih =>
    rw [toList_below]
    have hfeed : Closed ['\n'] := .of_inert (by decide)
    exact hpiece.closed.append (hfeed.append ih)

theorem trimmed (hne : text ≠ "") : Trimmed text.toList := by
  induction h with
  | nothing => exact absurd rfl hne
  | one hpiece => exact hpiece.trimmed
  | more hrest hpiece _ ih =>
    rw [toList_below]
    exact hpiece.trimmed.below (ih hrest)

theorem notElse (hne : text ≠ "") (end' : List Char) :
    startsWith "else".toList (text.toList ++ end') = false := by
  cases h with
  | nothing => exact absurd rfl hne
  | one hpiece => exact hpiece.notElse end'
  | more _ hpiece _ =>
    rw [toList_below, append_assoc]
    exact hpiece.notElse _

theorem trim_eq : trim text.toList = text.toList := by
  by_cases hne : text = ""
  · rw [hne]
    rfl
  · exact (h.trimmed hne).trim_eq

theorem blank_iff : blank text = true ↔ text = "" := by
  refine ⟨fun hblank => ?_, fun heq => by rw [heq]; rfl⟩
  by_contra hne
  exact Bool.false_ne_true ((h.trimmed hne).not_blank.symm.trans hblank)

end

theorem eq_nil (h : Block "" code) : code = [] := by
  generalize htext : "" = text at h
  cases h with
  | nothing => rfl
  | one hpiece =>
    obtain ⟨c, hs, _⟩ := hpiece.trimmed.first
    rw [← htext] at hs
    cases hs
  | more _ hpiece _ =>
    have hlist := congrArg String.toList htext
    rw [toList_below] at hlist
    simp at hlist

/-- Only a single piece is laid out after an `else` without braces. -/
theorem single (h : Block text code) (hsingle : isSingleIf text.toList = true) :
    (∃ condition onTrue onFalse, code = [.branch condition onTrue onFalse]) ∧
      EndsBlock text := by
  have hif : startsWith "if (".toList text.toList = true := (Bool.and_eq_true_iff.1 hsingle).1
  cases h with
  | nothing => cases hif
  | one hpiece => exact hpiece.isIf [] (by rwa [append_nil])
  | more hrest hpiece hblock =>
    rw [toList_below] at hif hsingle
    obtain ⟨s, hs⟩ := (hpiece.isIf _ hif).2
    have hclosed := hpiece.closed
    have helse := hblock.notElse hrest []
    rw [append_nil] at helse
    rw [hs] at hclosed
    rw [hs, append_assoc, singleton_append,
      not_isSingleIf hclosed (hblock.trimmed hrest) helse] at hsingle
    cases hsingle

/-! ## Lines -/

theorem append (h : Block text code) (h' : Block rest code') (hne : text ≠ "") (hne' : rest ≠ "") :
    Block (text ++ "\n" ++ rest) (code ++ code') := by
  induction h with
  | nothing => exact absurd rfl hne
  | one hpiece => exact .more hne' hpiece h'
  | @more text next _ _ hnext hpiece _ ih =>
    have hassoc : text ++ "\n" ++ next ++ "\n" ++ rest = text ++ "\n" ++ (next ++ "\n" ++ rest) := by
      simp only [String.append_assoc]
    rw [hassoc, append_assoc]
    refine .more (fun heq => ?_) hpiece (ih hnext)
    have hlist := congrArg String.toList heq
    rw [toList_below] at hlist
    simp at hlist

theorem lines_eq_empty {parts : List String} (h : Code.lines parts = "") :
    (parts.filter fun part => !blank part) = [] := by
  unfold Code.lines at h
  cases hparts : parts.filter fun part => !blank part with
  | nil => rfl
  | cons next rest =>
    have hnext : blank next = false := by
      have hmem : next ∈ parts.filter fun part => !blank part := hparts ▸ mem_cons_self
      simpa using (mem_filter.1 hmem).2
    rw [hparts] at h
    have hempty : next = "" := by
      cases rest with
      | nil => exact h
      | cons next' rest =>
        have hlist := congrArg String.toList h
        simp [joinText, String.toList_append] at hlist
    rw [hempty] at hnext
    cases hnext

theorem lines_cons (part : String) (parts : List String) :
    Code.lines (part :: parts) =
      if blank part then Code.lines parts
      else if Code.lines parts = "" then part
      else part ++ "\n" ++ Code.lines parts := by
  cases hblank : blank part with
  | true => simp [Code.lines, hblank]
  | false =>
    simp only [Bool.false_eq_true, if_false]
    split
    · rename_i hempty
      unfold Code.lines
      rw [filter_cons_of_pos (by simp [hblank]), lines_eq_empty hempty]
      rfl
    · rename_i hne
      unfold Code.lines at hne ⊢
      rw [filter_cons_of_pos (by simp [hblank])]
      cases hparts : parts.filter fun part => !blank part with
      | nil => exact absurd (by rw [hparts]; rfl) hne
      | cons next rest => rfl

/-- Blocks below each other, without the empty ones. -/
theorem lines {texts : List String} {codes : List (List Stmt)} (h : List.Forall₂ Block texts codes) :
    Block (Code.lines texts) codes.flatten := by
  induction h with
  | nil => exact .nothing
  | @cons text code texts codes hblock _ ih =>
    rw [flatten_cons, lines_cons]
    by_cases hne : text = ""
    · subst hne
      rw [hblock.eq_nil]
      exact ih
    · rw [if_neg (mt hblock.blank_iff.1 hne)]
      split
      · rename_i hempty
        rw [hempty] at ih
        rwa [ih.eq_nil, append_nil]
      · rename_i hrest
        exact hblock.append ih hne hrest

end Block

/-! ## Markers -/

theorem inert_number (n : Nat) : (toString n).toList.all isInert = true := by
  rw [Nat.toString_eq_ofList_toDigits, String.toList_ofList, all_eq_true]
  intro c hc
  have hdigit := Nat.isDigit_of_mem_toDigits (by decide) (by decide) hc
  have hne (d : Char) (hd : d.isDigit = false) : c ≠ d := fun heq => by
    rw [heq, hd] at hdigit
    cases hdigit
  simp [isInert, hne '"' rfl, hne '\'' rfl, hne '\x7b' rfl, hne '\x7d' rfl]

theorem inert_markerId (id : MarkerId) : id.text.toList.all isInert = true := by
  cases id with
  | node id =>
    rw [MarkerId.toList_node, all_cons, inert_number]
    rfl
  | decl id =>
    rw [MarkerId.toList_decl, all_cons, inert_number]
    rfl

theorem Piece.marked {code : List Stmt} (h : Block text code) (id : MarkerId) :
    Piece (Marker.wrap id text) code := by
  have htext : (Marker.wrap id text).toList = '/' :: (['*', '#', '<'] ++ id.text.toList ++
      ['*', '/'] ++ text.toList ++ ['/', '*', '#', '>'] ++ id.text.toList ++ ['*'] ++ ['/']) := by
    simp [Marker.wrap, String.toList_append]
  have hid : Closed id.text.toList := .of_inert (inert_markerId id)
  refine ⟨.marked h.spells, ?_, ⟨⟨'/', by rw [htext]; rfl, rfl⟩, '/',
    by rw [htext, ← cons_append, getLast?_concat], rfl⟩, fun rest => ?_, fun rest hif => ?_⟩
  · have hopen : Closed ['/', '*', '#', '<'] := .of_inert (by decide)
    have hclose : Closed ['/', '*', '#', '>'] := .of_inert (by decide)
    have hend : Closed ['*', '/'] := .of_inert (by decide)
    have hall := hopen.append (hid.append (hend.append (h.closed.append
      (hclose.append (hid.append hend)))))
    simpa [htext] using hall
  · rw [htext]
    rfl
  · rw [htext] at hif
    cases hif

theorem Block.mark {code : List Stmt} (h : Block text code) (config : Config) (id : MarkerId) :
    Block (config.mark id text) code := by
  unfold Config.mark
  split
  · exact .one (.marked h id)
  · exact h

/-! ## Branches -/

theorem endsBlock_braced (body : String) : EndsBlock (braced body) := by
  unfold braced
  split
  · exact ⟨['\x7b'], rfl⟩
  · exact ⟨("\x7b\n" ++ indent 1 body ++ "\n").toList, by simp [String.toList_append]⟩

section Branch

variable {condition body other : String} {code code' : List Stmt}

/-- The text of an `if`. -/
theorem Piece.ofIf {text : String} {onTrue onFalse : List Stmt}
    (hspells : Spells text [.branch condition onTrue onFalse]) (hclosed : Closed text.toList)
    (hfirst : ∃ rest, text = "if (" ++ rest) (hlast : EndsBlock text) :
    Piece text [.branch condition onTrue onFalse] := by
  obtain ⟨rest, rfl⟩ := hfirst
  have hlist : ("if (" ++ rest).toList = 'i' :: ('f' :: ' ' :: '(' :: rest.toList) := by
    simp [String.toList_append]
  obtain ⟨s, hs⟩ := hlast
  refine ⟨hspells, hclosed, ⟨⟨'i', by rw [hlist]; rfl, rfl⟩, '\x7d', by simp [hs], rfl⟩, fun _ => ?_,
    fun _ _ => ⟨⟨_, _, _, rfl⟩, s, hs⟩⟩
  rw [hlist]
  rfl

theorem Piece.ifThen (hcondition : Condition condition) (hbody : Block body code) :
    Piece ("if (" ++ condition ++ ") " ++ braced body) [.branch condition code []] :=
  .ofIf (.ifThen hcondition hbody.spells) (stable_closed.ifThen hcondition.closed hbody.closed)
    ⟨condition ++ (") " ++ braced body), by simp only [String.append_assoc]⟩
    (.append (endsBlock_braced body) _)

theorem Piece.ifNot (hcondition : Condition condition) (hbody : Block body code) :
    Piece ("if (" ++ ("!" ++ operand condition) ++ ") " ++ braced body)
      [.branch condition [] code] := by
  have hnot := stable_closed.append (stable_closed.fixed "!" rfl)
    (stable_closed.operand hcondition.closed)
  exact .ofIf (.ifNot hcondition hbody.spells) (stable_closed.ifThen hnot hbody.closed)
    ⟨"!" ++ operand condition ++ (") " ++ braced body), by simp only [String.append_assoc]⟩
    (.append (endsBlock_braced body) _)

theorem closed_else (hfirst : Closed body.toList) (hother : Closed other.toList) :
    Closed (body ++ (" else " ++ other)).toList :=
  stable_closed.append hfirst (stable_closed.append (stable_closed.fixed _ rfl) hother)

variable (hcondition : Condition condition)
include hcondition

variable (hbody : Block body code)
include hbody

variable (hother : Block other code')
include hother

theorem Piece.ifElse :
    Piece ("if (" ++ condition ++ ") " ++ braced body ++ (" else " ++ braced other))
      [.branch condition code code'] :=
  .ofIf (.ifElse hcondition hbody.spells hother.spells)
    (closed_else (stable_closed.ifThen hcondition.closed hbody.closed)
      (stable_closed.braced hother.closed))
    ⟨condition ++ (") " ++ (braced body ++ (" else " ++ braced other))), by
      simp only [String.append_assoc]⟩
    (.append (.append (endsBlock_braced other) _) _)

/-- Without braces the other body has to be a single `if`. -/
theorem Piece.elseIf (hsingle : isSingleIf other.toList = true) :
    Piece ("if (" ++ condition ++ ") " ++ braced body ++ (" else " ++ other))
      [.branch condition code code'] := by
  obtain ⟨⟨condition', onTrue, onFalse, rfl⟩, hlast⟩ := hother.single hsingle
  exact .ofIf (.elseIf hcondition (Bool.and_eq_true_iff.1 hsingle).1 hbody.spells hother.spells)
    (closed_else (stable_closed.ifThen hcondition.closed hbody.closed) hother.closed)
    ⟨condition ++ (") " ++ (braced body ++ (" else " ++ other))), by
      simp only [String.append_assoc]⟩
    (.append (.append hlast _) _)

theorem Piece.elseText (hne : other ≠ "") :
    Piece ("if (" ++ condition ++ ") " ++ braced body ++ Fragment.elseText other)
      [.branch condition code code'] := by
  unfold Fragment.elseText
  rw [if_neg (mt hother.blank_iff.1 hne)]
  simp only [hother.trim_eq, String.ofList_toList]
  split
  · rename_i hsingle
    exact .elseIf hcondition hbody hother hsingle
  · exact .ifElse hcondition hbody hother

/-- The statement of a branch node. -/
theorem Piece.branch :
    Piece (Node.branchText condition body other) [.branch condition code code'] := by
  unfold Node.branchText Fragment.ifElse
  by_cases hothers : other = ""
  · subst hothers
    rw [hother.eq_nil]
    simpa using Piece.ifThen hcondition hbody
  · by_cases hbodies : body = ""
    · subst hbodies
      rw [hbody.eq_nil]
      simpa [hothers] using Piece.ifNot hcondition hother
    · simpa [hothers, hbodies] using Piece.elseText hcondition hbody hother hothers

end Branch

end FlowClass.Program
