import FlowClass.Proofs.Code.Stable
import FlowClass.Proofs.Text.Splitting

/-!
# Texts that close what they open

A scan over emitted code knows whether it is inside a literal, and how deep in braces it is. A text
is *closed* if it ends its scan where it started. Closed texts can be put together in any way that
code is laid out: one below the other, indented, in braces.

Only a single `if` is laid out after an `else` without braces. On closed texts the test for that
cannot be misled by what follows the `if` (`Code.not_isSingleIf`).
-/

namespace FlowClass.Code

open List Text

variable {q : Quoting} {s : List Char} {t : List Char}

/-- One character further. -/
def scanStep (state : Quoting × Int) (c : Char) : Quoting × Int :=
  (state.1.step c, if state.1 = .outside then state.2 + braceShift c else state.2)

def scan (state : Quoting × Int) (s : List Char) : Quoting × Int :=
  s.foldl scanStep state

@[simp] theorem scan_nil (state : Quoting × Int) : scan state [] = state := rfl

@[simp] theorem scan_cons (state : Quoting × Int) (c : Char) (s : List Char) :
    scan state (c :: s) = scan (scanStep state c) s := rfl

theorem scan_append (state : Quoting × Int) (s t : List Char) :
    scan state (s ++ t) = scan (scan state s) t :=
  foldl_append

/-- A scan ends where it started: outside literals, and as deep as before. -/
def Closed (s : List Char) : Prop :=
  ∀ depth, scan (.outside, depth) s = (.outside, depth)

theorem Closed.nil : Closed [] := fun _ => rfl

theorem Closed.append (hs : Closed s) (ht : Closed t) : Closed (s ++ t) := by
  intro depth
  rw [scan_append, hs depth, ht depth]

/-- A character that a scan passes without notice. -/
def isInert (c : Char) : Bool :=
  c != '"' && c != '\'' && c != '\x7b' && c != '\x7d'

theorem scanStep_of_inert {c : Char} (h : isInert c = true) (depth : Int) :
    scanStep (.outside, depth) c = (.outside, depth) := by
  simp only [isInert, Bool.and_eq_true, bne_iff_ne, ne_eq] at h
  obtain ⟨⟨⟨hdouble, hsingle⟩, hopen⟩, hclose⟩ := h
  simp [scanStep, Quoting.step, braceShift, hdouble, hsingle, hopen, hclose]

theorem Closed.of_inert (h : s.all isInert = true) : Closed s := by
  intro depth
  induction s with
  | nil => rfl
  | cons c s ih =>
    rw [all_cons, Bool.and_eq_true] at h
    rw [scan_cons, scanStep_of_inert h.1, ih h.2]

/-- A closed text in braces. -/
theorem Closed.braces (h : Closed s) : Closed ('\x7b' :: (s ++ ['\x7d'])) := by
  intro depth
  have hopen : scanStep (.outside, depth) '\x7b' = (.outside, depth + 1) := by
    simp [scanStep, Quoting.step, braceShift]
  have hclose : scanStep (.outside, depth + 1) '\x7d' = (.outside, depth) :=
    congrArg (Prod.mk _) (Int.add_neg_cancel_right depth 1)
  rw [scan_cons, hopen, scan_append, h, scan_cons, hclose, scan_nil]

/-! ## Indentation -/

/-- Literals are opened by quotation marks only. -/
def Valid : Quoting → Prop
  | .outside => True
  | .inside quote _ => quote = '"' ∨ quote = '\''

/-- The next character is not taken as it is. -/
def Fresh : Quoting → Prop
  | .outside => True
  | .inside quote escaped => (quote = '"' ∨ quote = '\'') ∧ escaped = false

theorem Valid.step (h : Valid q) (c : Char) : Valid (q.step c) := by
  cases q with
  | outside =>
    simp only [Quoting.step]
    split
    · rename_i hc
      simpa [Valid] using hc
    · trivial
  | inside quote escaped =>
    cases escaped with
    | true => exact h
    | false =>
      simp only [Quoting.step]
      split
      · exact h
      · split
        · trivial
        · exact h

theorem Valid.scan (state : Quoting × Int) (h : Valid state.1) (s : List Char) :
    Valid (Code.scan state s).1 := by
  induction s generalizing state with
  | nil => exact h
  | cons c s ih => exact ih _ (h.step c)

/-- After a line feed nothing is escaped. -/
theorem Valid.fresh (h : Valid q) : Fresh (q.step '\n') := by
  cases q with
  | outside => simp [Quoting.step, Fresh]
  | inside quote escaped =>
    cases escaped with
    | true => exact ⟨h, rfl⟩
    | false =>
      rcases h with rfl | rfl <;> simp [Quoting.step, Fresh]

theorem Fresh.valid (h : Fresh q) : Valid q := by
  cases q with
  | outside => trivial
  | inside quote escaped => exact h.1

theorem scanStep_blank (h : Fresh q) (depth : Int) {c : Char} (hc : isBlank c = true) :
    scanStep (q, depth) c = (q, depth) := by
  have hne : ∀ d : Char, isBlank d = false → c ≠ d := fun d hd heq => by
    rw [heq, hd] at hc
    cases hc
  have hdouble := hne '"' (by decide)
  have hsingle := hne '\'' (by decide)
  have hslash := hne '\\' (by decide)
  cases q with
  | outside =>
    refine scanStep_of_inert ?_ depth
    simp [isInert, hdouble, hsingle, hne '\x7b' (by decide), hne '\x7d' (by decide)]
  | inside quote escaped =>
    obtain ⟨hquote, rfl⟩ := h
    rcases hquote with rfl | rfl <;> simp [scanStep, Quoting.step, hdouble, hsingle, hslash]

theorem scan_blanks (h : Fresh q) (depth : Int) (hs : s.all isBlank = true) :
    scan (q, depth) s = (q, depth) := by
  induction s with
  | nil => rfl
  | cons c s ih =>
    rw [all_cons, Bool.and_eq_true] at hs
    rw [scan_cons, scanStep_blank h depth hs.1, ih hs.2]

theorem scan_indentLine (h : Fresh q) (depth : Int) {margin : List Char}
    (hmargin : margin.all isBlank = true) (line : List Char) :
    scan (q, depth) (indentLine margin line) = scan (q, depth) line := by
  unfold indentLine
  split
  · rename_i hblank
    rw [scan_nil, scan_blanks h depth hblank]
  · rw [scan_append, scan_blanks h depth hmargin]

theorem scan_indentLines (h : Fresh q) (depth : Int) {margin : List Char}
    (hmargin : margin.all isBlank = true) (ls : List (List Char)) :
    scan (q, depth) (joinWith ['\n'] (ls.map (indentLine margin))) =
      scan (q, depth) (joinWith ['\n'] ls) := by
  induction ls generalizing q depth with
  | nil => rfl
  | cons line ls ih =>
    cases ls with
    | nil => exact scan_indentLine h depth hmargin line
    | cons next ls =>
      simp only [map_cons, joinWith, append_assoc, singleton_append]
      rw [scan_append, scan_append, scan_indentLine h depth hmargin, scan_cons, scan_cons]
      have hvalid : Valid (scan (q, depth) line).1 := Valid.scan (q, depth) h.valid line
      exact ih hvalid.fresh _

theorem Closed.indent {text : String} (h : Closed text.toList) (levels : Nat) :
    Closed (Code.indent levels text).toList := by
  intro depth
  cases levels with
  | zero => exact h depth
  | succ levels =>
    have hmargin : (List.replicate (levels + 1) indentStep).flatten.all isBlank = true := by
      rw [all_flatten, all_eq_true]
      intro step hstep
      rw [eq_of_mem_replicate hstep]
      decide
    unfold Code.indent
    rw [String.toList_ofList, scan_indentLines (q := .outside) trivial depth hmargin,
      joinWith_splitOn, h depth]

/-- Closing what is opened is stable. -/
theorem stable_closed : Stable fun s => Closed s.toList where
  fixed s hs := .of_inert (all_eq_true.2 fun c hc =>
    (Bool.and_eq_true_iff.1 (all_eq_true.1 hs c hc)).1)
  append {s t} hs ht := by
    rw [String.toList_append]
    exact hs.append ht
  indent h := h.indent 1
  nothing := Closed.nil.braces
  enclosed h := by
    have hfeed : Closed ['\n'] := .of_inert (by decide)
    have hbraces := (hfeed.append (h.append hfeed)).braces
    simpa [String.toList_append] using hbraces

/-! ## Single ifs -/

theorem trimStart_append (h : trimStart t ≠ []) : trimStart (s ++ t) ≠ [] := by
  unfold trimStart at h ⊢
  rw [dropWhile_append]
  split
  · exact h
  · rename_i hs
    exact append_ne_nil_of_left_ne_nil (fun hnil => hs (by rw [hnil]; rfl)) t

/-- A chain of blocks goes on after a part of it, as the scan of the part ends. -/
theorem blocksChain_append (ht : trimStart t ≠ []) {depth : Int}
    (h : blocksChain q depth (s ++ t) = true) :
    blocksChain (scan (q, depth) s).1 (scan (q, depth) s).2 t = true := by
  induction s generalizing q depth with
  | nil => exact h
  | cons c s ih =>
    rw [scan_cons]
    cases q with
    | inside quote escaped =>
      rw [cons_append, blocksChain] at h
      exact ih h
    | outside =>
      rw [cons_append, blocksChain] at h
      dsimp only at h
      split at h
      · rename_i hclose
        have hrest : (trimStart (s ++ t)).isEmpty = false := by
          simpa using trimStart_append ht
        simp only [hrest, Bool.false_eq_true, if_false] at h
        split at h
        · obtain rfl : c = '\x7d' := of_decide_eq_true (Bool.and_eq_true_iff.1 hclose).1
          exact ih h
        · cases h
      · exact ih h

/-- The closing brace of a closed text is outside of literals and ends a block. -/
theorem scan_before_close (h : Closed (s ++ ['\x7d'])) : scan (.outside, 0) s = (.outside, 1) := by
  have hend := h 0
  rw [scan_append, scan_cons, scan_nil] at hend
  have hvalid : Valid (scan (.outside, 0) s).1 := Valid.scan (.outside, 0) trivial s
  rcases hscan : scan (.outside, 0) s with ⟨q, depth⟩
  rw [hscan] at hend hvalid
  cases q with
  | outside =>
    have hdepth : depth + braceShift '\x7d' = 0 := congrArg Prod.snd hend
    have hshift : braceShift '\x7d' = -1 := rfl
    rw [hshift] at hdepth
    rw [show depth = 1 by omega]
  | inside quote escaped =>
    have hquoting : (Quoting.inside quote escaped).step '\x7d' = .outside := congrArg Prod.fst hend
    cases escaped with
    | true => cases hquoting
    | false => rcases hvalid with rfl | rfl <;> cases hquoting

/-- An `if` that something else than `else` follows is not taken for a single `if`. -/
theorem not_isSingleIf (hs : Closed (s ++ ['\x7d'])) (ht : Trimmed t)
    (helse : startsWith "else".toList t = false) :
    isSingleIf (s ++ '\x7d' :: '\n' :: t) = false := by
  refine Bool.eq_false_iff.2 fun hsingle => ?_
  have hchain := (Bool.and_eq_true_iff.1 hsingle).2
  have hrest := blocksChain_append (by simp [trimStart, isBlank]) hchain
  rw [scan_before_close hs] at hrest
  have hblank : trimStart ('\n' :: t) = t := ht.trimStart_eq
  obtain ⟨c, hc, _⟩ := ht.first
  obtain ⟨rest, rfl⟩ := head?_eq_some_iff.1 hc
  rw [blocksChain] at hrest
  simp [braceShift, hblank] at hrest helse
  exact Bool.false_ne_true (helse.symm.trans hrest.1)

end FlowClass.Code
