import FlowClass.Code.Fragment
import FlowClass.Proofs.Marker.Scanning

/-!
# Texts that end with no jump

Whether a text ends by leaving is read off its last line. A text is *mild* if that line begins with no
jump, however it goes on. Statements that are no jumps are mild if the expressions in them are: their
last line is a closing brace, or it begins with a word of their own or inside an expression.
-/

namespace FlowClass.Code

open List Text

variable {a b : String} {s t : List Char}

/-! ## The last line -/

/-- What comes after the last line feed. -/
def lastLine (s : List Char) : List Char :=
  (s.reverse.takeWhile (· ≠ '\n')).reverse

theorem lastLine_line (s : List Char) (h : '\n' ∉ t) : lastLine (s ++ t) = lastLine s ++ t := by
  have hall : ∀ c ∈ t.reverse, decide (c ≠ '\n') = true := fun c hc =>
    decide_eq_true fun heq => h (heq ▸ mem_reverse.1 hc)
  rw [lastLine, reverse_append, takeWhile_append_of_pos hall, reverse_append, reverse_reverse, lastLine]

theorem lastLine_break (s t : List Char) : lastLine (s ++ '\n' :: t) = lastLine t := by
  rw [lastLine, reverse_append, reverse_cons, append_assoc, takeWhile_append]
  split
  · rename_i hall
    rw [lastLine, ( takeWhile_prefix _).eq_of_length hall]
    simp
  · rfl

theorem lastLine_lines (s : List Char) (h : '\n' ∈ t) : lastLine (s ++ t) = lastLine t := by
  obtain ⟨u, v, rfl⟩ := append_of_mem h
  rw [← append_assoc, lastLine_break, lastLine_break]

theorem getLast?_splitOn (s : List Char) : (Text.splitOn '\n' s).getLast? = some (lastLine s) := by
  by_cases h : '\n' ∈ s
  · obtain ⟨first, rest, hs, hfirst⟩ := eq_append_cons_of_mem h
    rw [hs, splitOn_append hfirst, getLast?_cons, getLast?_splitOn rest, lastLine_break]
    rfl
  · rw [splitOn_line h, ← nil_append s, lastLine_line [] h]
    rfl
termination_by s.length
decreasing_by rw [hs]; simp; omega

/-- The line begins with a jump. -/
def leaves (line : List Char) : Bool :=
  jumpStarts.any fun start => startsWith start.toList (trim (Marker.strip (String.ofList line)).toList)

theorem endsWithJump_eq (h : (lastLine a.toList).all isBlank = false) :
    endsWithJump a = leaves (lastLine a.toList) := by
  unfold endsWithJump textLines
  dsimp only
  rw [getLast?_splitOn]
  cases hline : lastLine a.toList with
  | nil => rw [hline] at h; cases h
  | cons c line =>
    rw [reverse_append, reverse_singleton, singleton_append,
      find?_cons_of_pos (by rw [← hline, h]; rfl)]
    rfl

/-! ## Mild texts -/

/-- The last line is not blank, and begins with no jump however it goes on. -/
def Mild (text : String) : Prop :=
  (lastLine text.toList).all isBlank = false ∧
    ∀ rest, '\n' ∉ rest → leaves (lastLine text.toList ++ rest) = false

/-- The text begins differently from all jumps. -/
def isFirm (s : List Char) : Bool :=
  s.head?.any (!isBlank ·) && !s.contains '/' &&
    jumpStarts.all fun start => !startsWith start.toList s && !startsWith s start.toList

namespace Mild

theorem endsWithJump_eq_false (h : Mild a) : endsWithJump a = false := by
  rw [endsWithJump_eq h.1, ← append_nil (lastLine _)]
  exact h.2 [] not_mem_nil

theorem line (h : Mild a) (hb : '\n' ∉ b.toList) : Mild (a ++ b) := by
  rw [Mild, String.toList_append, lastLine_line _ hb]
  refine ⟨by rw [all_append, h.1, Bool.false_and], fun rest hrest => ?_⟩
  rw [append_assoc]
  exact h.2 _ (by simp [hb, hrest])

/-- A text with lines of its own may stand behind anything. -/
theorem below (a : String) (h : Mild b) (hb : '\n' ∈ b.toList) : Mild (a ++ b) := by
  rwa [Mild, String.toList_append, lastLine_lines _ hb]

theorem append (ha : Mild a) (hb : Mild b) : Mild (a ++ b) := by
  by_cases hline : '\n' ∈ b.toList
  · exact hb.below a hline
  · exact ha.line hline

theorem fixed (h : isFirm (lastLine a.toList) = true) : Mild a := by
  rw [Mild]
  generalize lastLine a.toList = p at h ⊢
  simp only [isFirm, Bool.and_eq_true, Option.any_eq_true, Bool.not_eq_true', all_eq_true] at h
  obtain ⟨⟨⟨c, hhead, hc⟩, hslash⟩, hstarts⟩ := h
  obtain ⟨p', rfl⟩ := head?_eq_some_iff.1 hhead
  refine ⟨by rw [all_cons, hc, Bool.false_and], fun rest _ => ?_⟩
  -- the markers that are dropped come behind, and so do the blanks
  have hlead : c :: p' <+: (String.ofList (c :: p' ++ rest)).toList := by simp
  obtain ⟨behind, hstrip⟩ := Marker.prefix_strip hlead (by simpa using hslash)
  have htrim : trim (c :: p' ++ behind) <+: c :: p' ++ behind := by
    rw [trim, trimStart, cons_append, dropWhile_cons_of_neg (by simp [hc]), trimEnd]
    exact reverse_suffix.1 (by rw [reverse_reverse]; exact dropWhile_suffix _)
  rw [leaves, any_eq_false]
  intro start hstart hbegins
  rw [← hstrip, startsWith_iff] at hbegins
  obtain ⟨hlong, hshort⟩ := hstarts start hstart
  obtain hlead | hlead := prefix_or_prefix_of_prefix (hbegins.trans htrim) (prefix_append _ _)
  · rw [startsWith_iff.2 hlead] at hlong
    cases hlong
  · rw [startsWith_iff.2 hlead] at hshort
    cases hshort

theorem next (ha : Mild a) {sep : String} (hsep : '\n' ∉ sep.toList) (hb : Mild b) :
    Mild (a ++ sep ++ b) :=
  (ha.line hsep).append hb

theorem operand (h : Mild a) : Mild (operand a) := by
  unfold Code.operand
  split
  · exact h
  · exact ((fixed (by decide)).append h).line (by decide)

theorem assign (ha : Mild a) (hb : Mild b) (op : AssignOp) : Mild (Fragment.assign a b op).text :=
  (((ha.line (by decide)).line (by cases op <;> decide)).next (by decide) hb).line (by decide)

/-- What is combined with another value is read first. -/
theorem assignByCall {setter owner name old : String} (hsetter : Mild setter) (howner : Mild owner)
    (hname : Mild name) (h : Mild a) (op : AssignOp) (hold : op ≠ .assign → Mild old) :
    Mild (Fragment.assignByCall setter [owner, name] old a op).text := by
  have hcall (value : String) (hvalue : Mild value) :
      Mild (setter ++ "(" ++ (owner ++ ", " ++ (name ++ ", " ++ value)) ++ ");") :=
    (hsetter.next (by decide) (howner.next (by decide) (hname.next (by decide) hvalue))).line
      (by decide)
  cases op with
  | assign => exact hcall a h
  | _ =>
    exact hcall _ (((hold (by decide)).operand.line (by decide)).line (by decide) |>.next (by decide)
      h.operand)

/-- A closing brace on a line of its own. -/
theorem closed (a : String) : Mild (a ++ "\n\x7d") :=
  .below a (.fixed (by decide)) (by decide)

theorem braced (h : Mild a) (body : String) : Mild (a ++ braced body) := by
  unfold Code.braced
  split
  · exact h.line (by decide)
  · rw [← String.append_assoc]
    exact .closed _

/-- Behind `else` a single `if` stands without braces. -/
theorem ifElse (h : Mild a) (thenBody : String) {elseBody : Option String}
    (helse : ∀ body ∈ elseBody, isSingleIf (trim body.toList) = true →
      Mild (String.ofList (trim body.toList))) : Mild (Fragment.ifElse a thenBody elseBody).text := by
  have hthen : Mild ("if (" ++ a ++ ") " ++ Code.braced thenBody) :=
    (((fixed (by decide)).append h).line (by decide)).braced thenBody
  cases elseBody with
  | none => exact hthen.line (by decide)
  | some body =>
    unfold Fragment.ifElse Option.elim Fragment.elseText
    dsimp only
    split
    · exact hthen.line (by decide)
    · split
      · rename_i hsingle
        rw [← String.append_assoc]
        exact hthen.next (by decide) (helse body rfl hsingle)
      · rw [← String.append_assoc]
        exact (hthen.line (by decide)).braced body

theorem switch (h : Mild a) (sections : List SwitchSection) (rest : Option String) :
    Mild (Fragment.switch a sections rest).text := by
  unfold Fragment.switch
  dsimp only
  split
  · exact (((fixed (by decide)).append h).line (by decide)).line (by decide)
  · exact .closed _

end Mild

end FlowClass.Code
