import FlowClass.Proofs.Program.Layout

/-!
# What stands in an else

The body of an `else` is laid out without braces if the test for a single `if` takes it for one.
The test looks at characters. It is right about statements of texts that close what they open
(`else_keeps_statements`), as long as none but the first starts with the letters `else`, and comments
have no quotation marks and braces in them (`else_loses_statements`).
-/

namespace FlowClass.Program

open Code List Fragment Text

/-- An expression that a statement can start with. -/
structure Opening (text : String) : Prop where
  closed : Closed text.toList
  first : ∃ c, text.toList.head? = some c ∧ isBlank c = false
  notIf : startsWith "if (".toList text.toList = false

/-- Statements below each other. -/
def stacked (fs : List Fragment) : String :=
  Code.lines (fs.map text)

/-- No statement is read as the `else` of the one before it. -/
def NoElse (fs : List Fragment) : Prop :=
  ∀ f ∈ fs.tail, startsWith "else".toList f.text.toList = false

/-- Statements that the builders make of texts that close what they open. The body of an `else` is
made of such statements. -/
inductive Built : Fragment → Prop where
  | invoke {call : String} (h : Opening call) : Built (.invoke call)
  | assign {left right : String} (hleft : Opening left) (hright : Closed right.toList)
    (op : AssignOp) : Built (.assign left right op)
  | ifThen {condition body : String} (hcondition : Closed condition.toList)
    (hbody : Closed body.toList) : Built (.ifElse condition body none)
  | ifElse {condition body : String} {fs : List Fragment} (hcondition : Closed condition.toList)
    (hbody : Closed body.toList) (hfs : ∀ f ∈ fs, Built f) (helse : NoElse fs) :
    Built (.ifElse condition body (some (stacked fs)))
  | switch {value : String} {sections : List SwitchSection} {default : Option String}
    (hvalue : Closed value.toList)
    (hsections : ∀ s ∈ sections, (∀ label ∈ s.labels, Closed label.toList) ∧ Closed s.body.toList)
    (hdefault : ∀ body ∈ default, Closed body.toList) : Built (.switch value sections default)
  | forLoop {init condition step body : String} (hinit : Closed init.toList)
    (hcondition : Closed condition.toList) (hstep : Closed step.toList)
    (hbody : Closed body.toList) : Built (.forLoop init condition step body)
  | forEach {type name collection body : String} (htype : Closed type.toList)
    (hname : Closed name.toList) (hcollection : Closed collection.toList)
    (hbody : Closed body.toList) : Built (.forEach type name collection body)
  | whileLoop {condition body : String} (hcondition : Closed condition.toList)
    (hbody : Closed body.toList) : Built (.whileLoop condition body)
  | returnValue {value : Option String} (h : ∀ text ∈ value, Closed text.toList) :
    Built (.returnValue value)
  | placeholder {text : String} (h : text.toList.all isInert = true) : Built (.placeholder text)

/-! ## Statements below each other -/

/-- What the test for a single `if` relies on. -/
structure Part (f : Fragment) : Prop where
  closed : Closed f.text.toList
  trimmed : Trimmed f.text.toList
  isIf : startsWith "if (".toList f.text.toList = true →
    (∃ condition body other, f = .ifElse condition body other) ∧ EndsBlock f.text

/-- Texts below each other start as the first of them does. -/
theorem startsWith_joinText {p : List Char} (hp : '\n' ∉ p) {text : String} {texts : List String}
    (h : startsWith p (joinText "\n" (text :: texts)).toList = true) :
    startsWith p text.toList = true := by
  cases texts with
  | nil => exact h
  | cons next texts =>
    have hlist : (joinText "\n" (text :: next :: texts)).toList =
        text.toList ++ '\n' :: (joinText "\n" (next :: texts)).toList := Block.toList_below _ _
    rw [hlist] at h
    exact startsWith_of_stop hp h

section Parts

variable {f : Fragment} {fs : List Fragment}

theorem lines_parts (h : ∀ f ∈ fs, Part f) : stacked fs = joinText "\n" (fs.map text) := by
  unfold stacked Code.lines
  rw [filter_eq_self.2]
  intro text htext
  obtain ⟨f, hf, rfl⟩ := mem_map.1 htext
  rw [blank, (h f hf).trimmed.not_blank]
  rfl

theorem trimmed_parts (h : ∀ f ∈ fs, Part f) (hne : fs ≠ []) :
    Trimmed (joinText "\n" (fs.map text)).toList := by
  induction fs with
  | nil => exact absurd rfl hne
  | cons f fs ih =>
    rw [forall_mem_cons] at h
    cases fs with
    | nil => exact h.1.trimmed
    | cons g fs =>
      have hlist := Block.toList_below f.text (joinText "\n" ((g :: fs).map text))
      exact hlist ▸ h.1.trimmed.below (ih h.2 (cons_ne_nil g fs))

/-- Only an `if` without other statements is taken for a single `if`. -/
theorem eq_nil_of_isSingleIf (hf : Part f) (hfs : ∀ g ∈ fs, Part g) (helse : NoElse (f :: fs))
    (hsingle : isSingleIf (joinText "\n" ((f :: fs).map text)).toList = true) :
    fs = [] ∧ (∃ condition body other, f = .ifElse condition body other) ∧ EndsBlock f.text := by
  have hstart := startsWith_joinText (by decide) (Bool.and_eq_true_iff.1 hsingle).1
  obtain ⟨hif, s, hs⟩ := hf.isIf hstart
  refine ⟨?_, hif, s, hs⟩
  cases fs with
  | nil => rfl
  | cons g fs =>
    have hnext : startsWith "else".toList (joinText "\n" ((g :: fs).map text)).toList =
        false := Bool.eq_false_iff.2 fun hnext => Bool.false_ne_true
      ((helse g mem_cons_self).symm.trans (startsWith_joinText (by decide) hnext))
    have hlist : (joinText "\n" ((f :: g :: fs).map text)).toList =
        s ++ '\x7d' :: '\n' :: (joinText "\n" ((g :: fs).map text)).toList := by
      refine (Block.toList_below _ _).trans ?_
      rw [hs, append_assoc]
      rfl
    have hnot := not_isSingleIf (hs ▸ hf.closed) (trimmed_parts hfs (cons_ne_nil g fs)) hnext
    rw [hlist, hnot] at hsingle
    cases hsingle

/-- The three ways in which the body of an `else` is laid out. -/
theorem elseText_parts (h : ∀ f ∈ fs, Part f) (helse : NoElse fs) :
    (fs = [] ∧ elseText (stacked fs) = "") ∨
    (∃ f, fs = [f] ∧ (∃ condition body other, f = .ifElse condition body other) ∧
      EndsBlock f.text ∧ elseText (stacked fs) = " else " ++ f.text) ∨
    fs ≠ [] ∧ elseText (stacked fs) = " else " ++ braced (stacked fs) := by
  cases fs with
  | nil => exact .inl ⟨rfl, rfl⟩
  | cons f fs =>
    right
    have htrimmed := trimmed_parts h (cons_ne_nil f fs)
    rw [lines_parts h, elseText, blank, htrimmed.not_blank]
    simp only [Bool.false_eq_true, if_false, htrimmed.trim_eq, String.ofList_toList]
    split
    · rename_i hsingle
      rw [forall_mem_cons] at h
      obtain ⟨rfl, hif, hlast⟩ := eq_nil_of_isSingleIf h.1 h.2 helse hsingle
      exact .inl ⟨f, rfl, hif, hlast, rfl⟩
    · exact .inr ⟨cons_ne_nil f fs, rfl⟩

end Parts

/-! ## The builders -/

namespace Part

theorem invoke {call : String} (h : Opening call) : Part (.invoke call) := by
  have htext : (Fragment.invoke call).text.toList = call.toList ++ [';'] := String.toList_append
  obtain ⟨c, hs, hc⟩ := h.first
  refine ⟨stable_closed.append h.closed (stable_closed.fixed _ rfl),
    ⟨⟨c, by simp [htext, hs], hc⟩, ';', by simp [htext], rfl⟩, fun hif => ?_⟩
  rw [htext] at hif
  exact absurd (startsWith_of_stop (by decide) hif) (Bool.eq_false_iff.1 h.notIf)

theorem assign {left right : String} (hleft : Opening left) (hright : Closed right.toList)
    (op : AssignOp) : Part (.assign left right op) := by
  have htext : (Fragment.assign left right op).text.toList =
      left.toList ++ ' ' :: (op.symbol.toList ++ ' ' :: (right.toList ++ [';'])) := by
    simp [Fragment.assign, String.toList_append]
  obtain ⟨c, hs, hc⟩ := hleft.first
  refine ⟨stable_closed.assign hleft.closed hright op, ⟨⟨c, by simp [htext, hs], hc⟩, ';', ?_, rfl⟩,
    fun hif => ?_⟩
  · exact (congrArg _ String.toList_append).trans getLast?_concat
  · -- the text would be `if`, and go on with a parenthesis after the blank
    obtain ⟨s, hlist⟩ := head?_eq_some_iff.1 hs
    have hnot := hleft.notIf
    rw [htext, hlist] at hif
    rw [hlist] at hnot
    change startsWith ['i', 'f', ' ', '('] _ = true at hif
    change startsWith ['i', 'f', ' ', '('] _ = false at hnot
    rcases s with _ | ⟨d, _ | ⟨e, _ | ⟨g, s⟩⟩⟩ <;>
      simp only [cons_append, nil_append, startsWith_cons] at hif hnot
    · simp at hif
    · cases op <;> simp [AssignOp.symbol, startsWith_cons] at hif
    · simp at hif
    · exact absurd (hnot.symm.trans hif) Bool.false_ne_true

/-- A statement that is no `if`, by its first character. -/
theorem of_first {f : Fragment} (hclosed : Closed f.text.toList)
    (hfirst : ∃ c, f.text.toList.head? = some c ∧ isBlank c = false ∧ c ≠ 'i')
    (hlast : ∃ c, f.text.toList.getLast? = some c ∧ isBlank c = false) : Part f := by
  obtain ⟨c, hs, hc, hne⟩ := hfirst
  refine ⟨hclosed, ⟨⟨c, hs, hc⟩, hlast⟩, fun hif => ?_⟩
  obtain ⟨s, hlist⟩ := head?_eq_some_iff.1 hs
  have hlead : ('i' == c) = true := by
    rw [hlist] at hif
    exact (Bool.and_eq_true_iff.1 (startsWith_cons.symm.trans hif)).1
  exact absurd (beq_iff_eq.1 hlead).symm hne

theorem ifElse {condition body : String} {other : Option String}
    (hclosed : Closed (ifElse condition body other).text.toList)
    (hlast : EndsBlock (ifElse condition body other).text) :
    Part (.ifElse condition body other) := by
  obtain ⟨s, hs⟩ := hlast
  refine ⟨hclosed, ⟨⟨'i', ?_, rfl⟩, '\x7d', by rw [hs, getLast?_concat], rfl⟩,
    fun _ => ⟨⟨_, _, _, rfl⟩, s, hs⟩⟩
  simp [Fragment.ifElse, String.toList_append]

theorem placeholder {text : String} (h : text.toList.all isInert = true) :
    Part (.placeholder text) := by
  have hinner : ∀ c ∈ part text.toList, isInert c = true := by
    generalize text.toList = s at h
    fun_induction part s with
    | case1 => exact forall_mem_nil _
    | case2 c => exact all_eq_true.1 h
    | case3 c d s _ ih =>
      rw [all_cons, Bool.and_eq_true] at h
      exact forall_mem_cons.2 ⟨h.1, forall_mem_cons.2 ⟨rfl, ih h.2⟩⟩
    | case4 c d s _ ih =>
      rw [all_cons, Bool.and_eq_true] at h
      exact forall_mem_cons.2 ⟨h.1, ih h.2⟩
  have hclosed : Closed (String.ofList ((part text.toList).map
      fun c => if c = '\n' then ' ' else c)).toList := by
    rw [String.toList_ofList]
    refine .of_inert (all_eq_true.2 (forall_mem_map.2 fun c hc => ?_))
    split
    · rfl
    · exact hinner c hc
  refine of_first (stable_closed.append (stable_closed.append (stable_closed.fixed _ rfl) hclosed)
    (stable_closed.fixed _ rfl)) ⟨'/', ?_, rfl, by decide⟩ ⟨'/', ?_, rfl⟩
  all_goals simp [Fragment.placeholder, String.toList_append, getLast?_cons]

end Part

theorem Built.part {f : Fragment} (h : Built f) : Part f := by
  have hends (head : String) (body : String) :
      ∃ c, (head ++ braced body).toList.getLast? = some c ∧ isBlank c = false := by
    obtain ⟨s, hs⟩ := (endsBlock_braced body).append head
    exact ⟨'\x7d', by rw [hs, getLast?_concat], rfl⟩
  induction h with
  | invoke h => exact .invoke h
  | assign hleft hright op => exact .assign hleft hright op
  | @ifThen condition body hcondition hbody =>
    have hhead := stable_closed.ifThen hcondition hbody
    have hlast := (endsBlock_braced body).append ("if (" ++ condition ++ ") ")
    refine .ifElse ?_ ?_
    · simpa [Fragment.ifElse] using hhead
    · simpa [Fragment.ifElse] using hlast
  | @ifElse condition body fs hcondition hbody hfs helse ih =>
    have hhead := stable_closed.ifThen hcondition hbody
    have hother : Closed (stacked fs).toList :=
      stable_closed.lines (forall_mem_map.2 fun f hf => (ih f hf).closed)
    have hlayout : let text := "if (" ++ condition ++ ") " ++ braced body ++
          Fragment.elseText (stacked fs)
        Closed text.toList ∧ EndsBlock text := by
      -- no `else`, one chained to an `if`, or one with braces
      obtain ⟨_, hnone⟩ | ⟨f, rfl, _, hlast, hchained⟩ | ⟨_, hbraced⟩ := elseText_parts ih helse
      · rw [hnone, String.append_empty]
        exact ⟨hhead, (endsBlock_braced body).append _⟩
      · rw [hchained]
        exact ⟨closed_else hhead (ih f mem_cons_self).closed, (hlast.append " else ").append _⟩
      · rw [hbraced]
        exact ⟨closed_else hhead (stable_closed.braced hother),
          ((endsBlock_braced _).append " else ").append _⟩
    exact .ifElse hlayout.1 hlayout.2
  | @switch value sections default hvalue hsections hdefault =>
    refine .of_first (stable_closed.switch hvalue hsections hdefault) ⟨'s', ?_, rfl, by decide⟩
      ⟨'\x7d', ?_, rfl⟩
    all_goals
      unfold Fragment.switch
      dsimp only
      split <;> simp [String.toList_append, getLast?_cons]
  | forLoop hinit hcondition hstep hbody =>
    refine .of_first (stable_closed.forLoop hinit hcondition hstep hbody) ⟨'f', ?_, rfl, by decide⟩
      (hends _ _)
    simp [Fragment.forLoop, String.toList_append]
  | forEach htype hname hcollection hbody =>
    refine .of_first (stable_closed.forEach htype hname hcollection hbody) ⟨'f', ?_, rfl, by decide⟩
      (hends _ _)
    simp [Fragment.forEach, String.toList_append]
  | whileLoop hcondition hbody =>
    refine .of_first (stable_closed.whileLoop hcondition hbody) ⟨'w', ?_, rfl, by decide⟩ (hends _ _)
    simp [Fragment.whileLoop, String.toList_append]
  | @returnValue value h =>
    cases value with
    | none => exact .of_first (.of_inert rfl) ⟨'r', rfl, rfl, by decide⟩ ⟨';', rfl, rfl⟩
    | some value =>
      refine .of_first (stable_closed.between (h value rfl) rfl rfl) ⟨'r', ?_, rfl, by decide⟩
        ⟨';', ?_, rfl⟩
      all_goals simp [Fragment.returnValue, String.toList_append, getLast?_cons]
  | placeholder h => exact .placeholder h

/-- Unless the body of an `else` is a single `if`, with its else chain, all its statements stand in
the braces of the `else`. -/
theorem else_keeps_statements (condition body : String) {fs : List Fragment}
    (hfs : ∀ f ∈ fs, Built f) (helse : NoElse fs) :
    let text := (Fragment.ifElse condition body (some (stacked fs))).text
    let head := "if (" ++ condition ++ ") " ++ braced body
    (fs = [] ∧ text = head) ∨
    (∃ condition' body' other, fs = [.ifElse condition' body' other] ∧
      text = head ++ (" else " ++ (Fragment.ifElse condition' body' other).text)) ∨
    fs ≠ [] ∧ text = head ++ (" else " ++ braced (stacked fs)) := by
  intro text head
  have htext : text = head ++ Fragment.elseText (stacked fs) := rfl
  rw [htext]
  obtain ⟨hnil, hnone⟩ | ⟨f, rfl, ⟨condition', body', other, rfl⟩, _, hchained⟩ | ⟨hne, hbraced⟩ :=
    elseText_parts (fun f hf => (hfs f hf).part) helse
  · rw [hnone]
    exact .inl ⟨hnil, String.append_empty⟩
  · rw [hchained]
    exact .inr (.inl ⟨condition', body', other, rfl, rfl⟩)
  · rw [hbraced]
    exact .inr (.inr ⟨hne, rfl⟩)

/-- An `if`, and an assignment of a literal with a brace in it. -/
theorem else_keeps_assignment :
    (Fragment.ifElse "a" "" (some (stacked [.ifElse "b" "" none,
      .assign "x" "\"\x7d\"" .assign]))).text =
      "if (a) \x7b\x7d else \x7b\n    if (b) \x7b\x7d\n    x = \"\x7d\";\n\x7d" := by
  have hx : Opening "x" := ⟨.of_inert (by decide), ⟨'x', rfl, rfl⟩, by decide⟩
  have hliteral : Closed "\"\x7d\"".toList := fun depth => by
    simp [scanStep, Quoting.step, braceShift]
  have hfs : ∀ f ∈ [Fragment.ifElse "b" "" none, .assign "x" "\"\x7d\"" .assign], Built f :=
    List.forall_mem_cons.2 ⟨.ifThen (.of_inert (by decide)) .nil,
      List.forall_mem_singleton.2 (.assign hx hliteral .assign)⟩
  have hnoElse : NoElse [Fragment.ifElse "b" "" none, .assign "x" "\"\x7d\"" .assign] :=
    List.forall_mem_singleton.2 (by decide)
  obtain ⟨hnil, _⟩ | ⟨_, _, _, hsingle, _⟩ | ⟨_, htext⟩ := else_keeps_statements "a" "" hfs hnoElse
  · cases hnil
  · cases congrArg List.length hsingle
  · rw [htext]
    decide

/-- A name that starts with the letters `else`, and comments with apostrophes, mislead the test:
statements are left outside of the `else`. -/
theorem else_loses_statements :
    (Fragment.ifElse "a" "" (some (stacked [.ifElse "b" "" none,
        .assign "elseCount" "1" .assign, .ifElse "c" "" none]))).text =
      "if (a) \x7b\x7d else if (b) \x7b\x7d\nelseCount = 1;\nif (c) \x7b\x7d" ∧
    (Fragment.ifElse "a" "" (some (stacked [.ifElse "b" "/* it's */" none, .invoke "z()",
        .ifElse "c" "/* it's */" none]))).text =
      "if (a) \x7b\x7d else if (b) \x7b\n    /* it's */\n\x7d\nz();\n" ++
        "if (c) \x7b\n    /* it's */\n\x7d" := by
  decide

end FlowClass.Program
