import FlowClass.Proofs.Emission.Run
import FlowClass.Proofs.Symbol.Requests

/-!
# Names that can be assigned

An output of a node can be assigned if its text is an identifier, and what it reads is often a name
that was given out. A name is no reserved word, and it is an identifier unless its text starts with a
numeral that is neither a letter nor a digit (`Names.names_accepted`).
-/

namespace FlowClass

open List

/-- The text starts with a numeral that is neither a letter nor one of the ten digits. -/
def startsWithNumeral (text : String) : Bool :=
  (Text.trim text.toList).head?.any fun c => Text.isNumeral c && !Text.isLetter c && !c.isDigit

/-- What holds of a name that was made of a text. -/
structure NameOf (text name : String) : Prop where
  not_keyword : isKeyword name = false
  chars : ∃ c s, name.toList = c :: s ∧ ∀ d ∈ s, isNameChar d = true
  identifier : isIdentifier name = !startsWithNumeral text

theorem identifierStart_accepted (text : String) {d : Char} (hd : d = identifierStart text) :
    (Text.isLetter d || d = '_' || d = '@') = !startsWithNumeral text := by
  have hmarks : ['_', '@'].all (fun d => !Text.isNumeral d) = true := by decide +kernel
  rw [identifierStart] at hd
  rw [startsWithNumeral]
  cases htrim : Text.trim text.toList with
  | nil =>
    rw [htrim] at hd
    subst hd
    rfl
  | cons c s =>
    rw [htrim] at hd
    dsimp only [head?_cons, Option.any_some] at hd ⊢
    by_cases hletter : Text.isLetter c = true
    · split at hd <;> simp [hd, hletter]
    by_cases hnumeral : Text.isNumeral c = true
    · have hc : ∀ m ∈ ['_', '@'], c ≠ m := by
        rintro m hm rfl
        simpa [hnumeral] using all_eq_true.1 hmarks c hm
      by_cases hdigit : c.isDigit = true
      · rw [if_neg (by simp [hdigit])] at hd
        simp [hd, hdigit]
      · rw [if_pos (by simp [isNameChar, Text.isLetterOrNumeral, hnumeral, hdigit])] at hd
        simp [hd, hletter, hnumeral, hdigit, hc]
    · have hstart : d = '_' := by
        rw [hd]
        simp +contextual [isNameChar, Text.isLetterOrNumeral, hletter, hnumeral]
      simp [hstart, hnumeral]

theorem NameOf.ofStart {text name : String} (hkeyword : isKeyword name = false) {c : Char}
    {s : List Char} (hname : name.toList = c :: s) (hs : ∀ d ∈ s, isNameChar d = true)
    (hc : c = identifierStart text ∨ c = '@' ∧ Text.isLetter (identifierStart text) = true) :
    NameOf text name := by
  refine ⟨hkeyword, ⟨c, s, hname, hs⟩, ?_⟩
  have hall : (s.all fun d => isNameChar d || d = '.') = true :=
    all_eq_true.2 fun d hd => by simp [hs d hd]
  rw [isIdentifier, hname]
  dsimp only
  rw [hall, Bool.and_true]
  rcases hc with hc | ⟨rfl, hletter⟩
  · exact identifierStart_accepted text hc
  · rw [← identifierStart_accepted text rfl, hletter]
    simp

theorem isKeyword_numbered (name : String) (k : Nat) : isKeyword (name ++ toString k) = false := by
  have hall : ∀ w ∈ keywords, w.toList.all (fun c => !c.isDigit) = true := by decide +kernel
  refine Bool.eq_false_iff.2 fun h => ?_
  have hword := hall _ (by simpa [isKeyword] using h)
  obtain ⟨c, s, hdigits⟩ := exists_cons_of_ne_nil (Nat.toDigits_ne_nil (n := k) (b := 10))
  have hc : c.isDigit = true :=
    Nat.isDigit_of_mem_toDigits (by decide) (by decide) (hdigits ▸ mem_cons_self)
  simp [hdigits, hc] at hword

/-- The text that a call asks for a name for. -/
def NameCall.text? : NameCall → Option String
  | .reserve _ => none
  | .generate text => some text
  | .nameFor _ text => some text

namespace Names

theorem nameOf_generate (n : Names) (text : String) : NameOf text (n.generate text).1 := by
  obtain ⟨hkeyword, c, s, hname, hs, hc⟩ := identifierOf_shape text
  obtain h | ⟨k, h⟩ := n.generate_eq text <;> rw [h]
  · exact .ofStart hkeyword hname hs hc
  · refine .ofStart (s := s ++ Nat.toDigits 10 k) (isKeyword_numbered _ k) (by simp [hname])
      (forall_mem_append.2 ⟨hs, fun d hd => ?_⟩) hc
    exact isNameChar_of_digit (Nat.isDigit_of_mem_toDigits (by decide) (by decide) hd)

/-- What an owner gets for a text was generated from it, the first time that it asked. -/
theorem nameOf_nameFor (owner : SymbolKey) (text : String) (before : List NameCall) :
    NameOf text (answer before (.nameFor owner text)) := by
  obtain ⟨name, hknown, hrun⟩ | ⟨_, hrun⟩ := (after before).nameFor_cases owner text
  · have hmem := ((follows before).aliased owner text).1 (hknown ▸ rfl)
    obtain ⟨later, earlier, hbefore⟩ := append_of_mem hmem
    have hshorter : earlier.length < before.length := by
      simp only [hbefore, length_append, length_cons]
      omega
    have halias := alias?_after owner text earlier later
    rw [← hbefore, hknown] at halias
    rw [answer, call, hrun, Option.some.inj halias]
    exact nameOf_nameFor owner text earlier
  · rw [answer, call, hrun]
    exact (after before).nameOf_generate text
termination_by before.length

theorem nameOf_answer (before : List NameCall) {c : NameCall} {text : String}
    (hc : c.text? = some text) : NameOf text (answer before c) := by
  cases c with
  | reserve name => cases hc
  | generate other =>
    cases hc
    exact (after before).nameOf_generate text
  | nameFor owner other =>
    cases hc
    exact nameOf_nameFor owner text before

/-- A name that is asked for, after any calls, is no reserved word and goes on with characters of
identifiers. It is an identifier unless its text starts with a numeral that is neither a letter nor a
digit. An output that reads it is accepted where something is assigned just then. -/
theorem names_accepted {ν : Type} (before : List NameCall) {c : NameCall} {text : String}
    (hc : c.text? = some text) {env : Env ν} {s s' : State} {read : Emit ν String} {written : String}
    (hread : read env s = (.ok written, s')) (hname : Marker.strip written = answer before c)
    (node : NodeId) (port : UInt16) (upTo : Nat → Emit ν Current) :
    NameOf text (answer before c) ∧
    (∀ param, Emit.passAssignable param (.output node port) read upTo env s =
      (if startsWithNumeral text then .error (.invalid (.argument param.passing.callMark param.name))
        else .ok (param.passing.callMark ++ written), s')) ∧
    ∀ value op, Emit.storeIn (.output node port) read upTo value op env s =
      (if startsWithNumeral text then .error (.invalid (.targetText written))
        else .ok (Fragment.assign written value op).text, s') := by
  have hshape := nameOf_answer before hc
  have haccept (what : String → Misuse) (use : String → String) :
      (do
        let text ← read
        Emit.demand (isIdentifier (Marker.strip text)) (what text)
        return use text : Emit ν String) env s =
      (if startsWithNumeral text then .error (.invalid (what written))
        else .ok (use written), s') := by
    rw [Emit.bind_eq_of_ok hread, Emit.demand_bind, hname, hshape.identifier]
    cases startsWithNumeral text <;> rfl
  exact ⟨hshape, fun _ => haccept _ _, fun _ _ => haccept _ _⟩

/-- A reserved word that was asked for before is escaped, numbered and accepted. -/
theorem keyword_accepted :
    answer [.generate "out"] (.nameFor (.node ⟨1⟩) "out") = "@out1" ∧
    ∀ (env : Env Unit) (s : State) (value : String) (op : AssignOp),
      Emit.storeIn (.output ⟨1⟩ 0) (pure "@out1") (fun _ => pure .self) value op env s =
        (.ok (Fragment.assign "@out1" value op).text, s) := by
  have hname : answer [.generate "out"] (.nameFor (.node ⟨1⟩) "out") = "@out1" := by decide +kernel
  have hstrip : Marker.strip "@out1" = "@out1" := by decide +kernel
  have hcall : (NameCall.nameFor (.node ⟨1⟩) "out").text? = some "out" := rfl
  refine ⟨hname, fun env s value op => ?_⟩
  exact (names_accepted [.generate "out"] hcall (Emit.pure_apply _ env s) (hstrip.trans hname.symm)
    ⟨1⟩ 0 _).2.2 value op

/-- A name that starts with a superscript is no identifier. -/
theorem superscript_refused : isIdentifier (answer [] (.generate "²")) = false := by
  decide +kernel

end Names

end FlowClass
