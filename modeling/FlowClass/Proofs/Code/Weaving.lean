import FlowClass.Emit.Basic
import FlowClass.Proofs.Code.Stable
import FlowClass.Proofs.Marker.Strands
import Mathlib.Data.List.Induction

/-!
# Putting woven texts together

A text is *woven* if it is made of tame strands whose tokens are nested pairs. Everything that code
is laid out with makes woven texts of woven texts: they can be put below each other, indented,
enclosed in braces or markers, and trimmed.
-/

namespace FlowClass

open Marker List

variable {strands : List Strand}

/-- Made of tame strands, with markers in nested pairs, each of an identity that is allowed. -/
inductive Woven (ok : MarkerId → Prop) (text : String) : Prop where
  | ofStrands (strands : List Strand) (hrender : text.toList = render strands)
    (htame : Tame strands) (hpaired : Paired (tokens strands))
    (hok : ∀ t ∈ tokens strands, ok t.2)

namespace Woven

variable {ok : MarkerId → Prop} {text text' : String}

theorem ofTame (h : Tame (text.toList.map .char)) : Woven ok text :=
  ⟨text.toList.map .char, (render_chars _).symm, h, by rw [tokens_chars]; exact .nil, by
    rw [tokens_chars]
    exact forall_mem_nil _⟩

theorem plain (text : String) (h : '#' ∉ text.toList) : Woven ok text :=
  .ofTame (.plain h)

theorem append (h : Woven ok text) (h' : Woven ok text') : Woven ok (text ++ text') := by
  obtain ⟨a, ha, htame, hpaired, hok⟩ := h
  obtain ⟨b, hb, htame', hpaired', hok'⟩ := h'
  refine ⟨a ++ b, ?_, htame.append htame', ?_, ?_⟩
  · rw [String.toList_append, ha, hb, render_append]
  · rw [tokens_append]
    exact hpaired.append hpaired'
  · rw [tokens_append]
    intro t ht
    exact (mem_append.1 ht).elim (hok t) (hok' t)

/-- Anything done to the strands is fine as long as it leaves them tame and keeps the tokens. -/
theorem respin (h : Woven ok text)
    (hspin : ∀ strands, text.toList = render strands → Tame strands →
      ∃ strands', text'.toList = render strands' ∧ Tame strands' ∧ tokens strands' = tokens strands) :
    Woven ok text' := by
  obtain ⟨strands, htext, htame, hpaired, hok⟩ := h
  obtain ⟨strands', htext', htame', htokens⟩ := hspin strands htext htame
  exact ⟨strands', htext', htame', htokens ▸ hpaired, htokens ▸ hok⟩

theorem wrap (h : Woven ok text) {id : MarkerId} (hid : ok id) : Woven ok (Marker.wrap id text) := by
  obtain ⟨strands, htext, htame, hpaired, hok⟩ := h
  have htokens : tokens (.token true id :: (strands ++ [.token false id])) =
      (true, id) :: (tokens strands ++ [(false, id)]) :=
    congrArg ((true, id) :: ·) (tokens_append strands [.token false id])
  refine ⟨.token true id :: (strands ++ [.token false id]), ?_, ?_, ?_, ?_⟩
  · rw [toList_wrap, htext, render_cons, render_append, ← append_assoc]
    simp [render]
  · exact (Tame.token true id).append (htame.append (.token false id))
  · rw [htokens]
    exact hpaired.wrap id
  · rw [htokens]
    intro t ht
    simp only [mem_cons, mem_append, not_mem_nil, or_false] at ht
    obtain rfl | ht | rfl := ht
    · exact hid
    · exact hok t ht
    · exact hid

theorem mark (h : Woven ok text) {id : MarkerId} (hid : ok id) (config : Config) :
    Woven ok (config.mark id text) := by
  unfold Config.mark
  split
  · exact h.wrap hid
  · exact h

end Woven

/-! ## Blanks -/

namespace Marker

/-- A token starts with a slash, so blanks at the front are characters. -/
theorem exists_of_blank_front {before rest : List Char} (h : render strands = before ++ rest)
    (hbefore : before.all Text.isBlank = true) :
    ∃ strands', strands = before.map .char ++ strands' ∧ render strands' = rest := by
  induction before generalizing strands with
  | nil => exact ⟨strands, rfl, h⟩
  | cons c before ih =>
    rw [all_cons, Bool.and_eq_true] at hbefore
    cases strands with
    | nil => cases h
    | cons x strands =>
      cases x with
      | char d =>
        obtain ⟨rfl, hfront⟩ := List.cons.inj h
        obtain ⟨strands', rfl, hrest⟩ := ih hfront hbefore.2
        exact ⟨strands', rfl, hrest⟩
      | token opening id =>
        have hslash : '/' = c := by cases opening <;> exact (List.cons.inj h).1
        rw [← hslash] at hbefore
        cases hbefore.1

/-- A token ends with a slash as well. -/
theorem exists_of_blank_back {rest after : List Char} (h : render strands = rest ++ after)
    (hafter : after.all Text.isBlank = true) :
    ∃ strands', strands = strands' ++ after.map .char ∧ render strands' = rest := by
  induction after using List.reverseRecOn generalizing strands with
  | nil => exact ⟨strands, (append_nil _).symm, by rw [h, append_nil]⟩
  | append_singleton after c ih =>
    rw [all_append, Bool.and_eq_true] at hafter
    rw [← append_assoc] at h
    cases strands using List.reverseRecOn with
    | nil => simp [render] at h
    | append_singleton strands x =>
      have htext : render [x] = x.text := append_nil _
      rw [render_append, htext] at h
      cases x with
      | char d =>
        obtain ⟨hback, hd⟩ := append_inj' h rfl
        obtain ⟨strands', rfl, hrest⟩ := ih hback hafter.1
        refine ⟨strands', ?_, hrest⟩
        rw [map_append, append_assoc, ← (List.cons.inj hd).1]
        rfl
      | token opening id =>
        have hslash : '/' = c := by
          have hlast := congrArg List.getLast? h
          rw [Strand.text, show endMark = ['*'] ++ ['/'] from rfl, ← append_assoc,
            ← append_assoc, getLast?_concat, getLast?_concat] at hlast
          exact Option.some.inj hlast
        rw [← hslash] at hafter
        cases hafter.2

theorem not_guard_of_blank {s : List Char} (h : s.all Text.isBlank = true) :
    s.any isGuard = false := by
  rw [any_eq_false]
  intro c hc hguard
  have hblank := all_eq_true.1 h c hc
  simp only [isGuard, Bool.or_eq_true, decide_eq_true_eq] at hguard
  obtain (rfl | rfl) | rfl := hguard <;> cases hblank

end Marker

/-- Blanks may be taken off at both ends. -/
theorem Woven.trim {ok : MarkerId → Prop} {text : String} (h : Woven ok text) :
    Woven ok (String.ofList (Text.trim text.toList)) := by
  refine h.respin fun strands htext htame => ?_
  obtain ⟨before, after, hsplit, hbefore, hafter⟩ := Text.trim_split text.toList
  rw [htext, append_assoc] at hsplit
  obtain ⟨inner, rfl, hinner⟩ := exists_of_blank_front hsplit hbefore
  obtain ⟨core, rfl, hcore⟩ := exists_of_blank_back hinner hafter
  refine ⟨core, ?_, (htame.dropChars (not_guard_of_blank hbefore)).of_append, ?_⟩
  · rw [String.toList_ofList, htext, hcore]
  · simp

/-! ## Lines -/

namespace Marker

theorem not_newline_of_render (h : Strand.char '\n' ∉ strands) : '\n' ∉ render strands := by
  intro hmem
  obtain ⟨x, hx, hc⟩ := mem_flatMap.1 hmem
  cases x with
  | char c =>
    obtain rfl := mem_singleton.1 hc
    exact h hx
  | token opening id =>
    have hlabel : '\n' ∉ id.text.toList := not_mem_text (by decide) (by decide) (by decide) id
    cases opening <;> simp [Strand.text, startMark, openMark, closeMark, endMark, hlabel] at hc

/-- A line moved to the right, or emptied if it is blank, keeps its tokens. -/
theorem exists_indentLine {margin : List Char} (hmargin : '#' ∉ margin) (h : Tame strands) :
    ∃ strands', Code.indentLine margin (render strands) = render strands' ∧ Tame strands' ∧
      tokens strands' = tokens strands := by
  unfold Code.indentLine
  split
  · rename_i hblank
    -- a blank line has no tokens to lose
    obtain ⟨rest, hchars, hrest⟩ := exists_of_blank_front (append_nil _).symm hblank
    have hnil : rest = [] := by
      cases rest with
      | nil => rfl
      | cons x rest =>
        have hlength := congrArg List.length hrest
        have hpos := x.text_pos
        rw [render_cons, length_append, length_nil] at hlength
        omega
    refine ⟨[], rfl, .nil, ?_⟩
    rw [hchars, hnil, append_nil, tokens_chars]
    rfl
  · exact ⟨margin.map .char ++ strands, by simp, (Tame.plain hmargin).append h, by simp⟩

/-- Moving the lines of a text to the right keeps its tokens. -/
theorem exists_indent {margin : List Char} (hmargin : '#' ∉ margin) (h : Tame strands) :
    ∃ strands', Text.joinWith ['\n'] ((Text.splitOn '\n' (render strands)).map
        (Code.indentLine margin)) = render strands' ∧
      Tame strands' ∧ tokens strands' = tokens strands := by
  -- by the number of strands: the first line comes off with the line feed that ends it
  induction hlength : strands.length using Nat.strongRecOn generalizing strands with
  | _ length ih =>
    by_cases hline : Strand.char '\n' ∈ strands
    · obtain ⟨first, rest, rfl, hfirst⟩ := eq_append_cons_of_mem hline
      obtain ⟨first', hfirstText, hfirstTame, hfirstTokens⟩ :=
        exists_indentLine hmargin (BeforeHash.of_append h : Tame first)
      obtain ⟨rest', hrestText, hrestTame, hrestTokens⟩ := ih rest.length (by
        rw [← hlength, length_append, length_cons]
        omega) h.line rfl
      refine ⟨first' ++ (.char '\n' :: rest'), ?_, ?_, ?_⟩
      · rw [render_append, render_cons, Strand.text, singleton_append,
          Text.splitOn_append (not_newline_of_render hfirst), map_cons, Text.joinWith_cons,
          hfirstText, hrestText]
        · simp [Strand.text]
        · simpa using Text.splitOn_ne_nil (render rest)
      · exact hfirstTame.append ((Tame.plain (s := ['\n']) (by decide)).append hrestTame)
      · rw [tokens_append, tokens_append, hfirstTokens]
        exact congrArg (tokens first ++ ·) hrestTokens
    · rw [Text.splitOn_line (not_newline_of_render hline)]
      exact exists_indentLine hmargin h

end Marker

/-! ## Statements and operators -/

namespace Woven

variable {ok : MarkerId → Prop} {text : String}

theorem indent (h : Woven ok text) (levels : Nat) : Woven ok (Code.indent levels text) := by
  cases levels with
  | zero => exact h
  | succ levels =>
    have hmargin : '#' ∉ (List.replicate (levels + 1) Code.indentStep).flatten := by
      simp [Code.indentStep]
    refine h.respin fun strands htext htame => ?_
    obtain ⟨strands', htext', htame', htokens⟩ := exists_indent hmargin htame
    refine ⟨strands', ?_, htame', htokens⟩
    rw [Code.indent, String.toList_ofList, htext, htext']

theorem isFixed_hash {s : List Char} (h : s.all Code.isFixed = true) : '#' ∉ s := fun hmem =>
  absurd (all_eq_true.1 h '#' hmem) Bool.false_ne_true

theorem stable (ok : MarkerId → Prop) : Code.Stable (Woven ok) where
  fixed s hs := .plain s (isFixed_hash hs)
  append h h' := h.append h'
  indent h := h.indent 1
  nothing := .plain _ (by decide)
  enclosed h := ((plain _ (by decide)).append h).append (.plain _ (by decide))

theorem between (h : Woven ok text) {before after : String} (hbefore : '#' ∉ before.toList)
    (hafter : '#' ∉ after.toList) : Woven ok (before ++ text ++ after) :=
  ((plain before hbefore).append h).append (.plain after hafter)

theorem joinText {sep : String} {texts : List String} (hsep : '#' ∉ sep.toList)
    (h : ∀ text ∈ texts, Woven ok text) : Woven ok (joinText sep texts) :=
  (stable ok).joinText (.plain sep hsep) h

theorem lines {parts : List String} (h : ∀ part ∈ parts, Woven ok part) :
    Woven ok (Code.lines parts) :=
  (stable ok).lines h

theorem braced (h : Woven ok text) : Woven ok (Code.braced text) :=
  (stable ok).braced h

theorem operand (h : Woven ok text) : Woven ok (Code.operand text) :=
  (stable ok).operand h

theorem elseText (h : Woven ok text) : Woven ok (Fragment.elseText text) := by
  unfold Fragment.elseText
  split
  · exact .plain _ (by decide)
  · dsimp only
    split
    · exact (plain _ (by decide)).append h.trim
    · exact (plain _ (by decide)).append h.braced

section Fragments

variable {condition body value name type : String}

theorem ifElse (hcondition : Woven ok condition) (hbody : Woven ok body) {other : Option String}
    (hother : ∀ body ∈ other, Woven ok body) :
    Woven ok (Fragment.ifElse condition body other).text := by
  refine ((stable ok).ifThen hcondition hbody).append ?_
  cases other with
  | none => exact .plain "" (by decide)
  | some body => exact (hother body rfl).elseText

theorem lambda {params : List String} (hparams : ∀ param ∈ params, Woven ok param)
    (hbody : Woven ok body) : Woven ok (Fragment.lambda params (.statements body)).text := by
  have hlist : Woven ok ("(" ++ FlowClass.joinText ", " params ++ ")") :=
    (joinText (by decide) hparams).between (by decide) (by decide)
  unfold Fragment.lambda
  refine (append ?_ (.plain _ (by decide))).append hbody.braced
  split
  · split
    · exact hlist
    · exact hparams _ mem_cons_self
  · exact hlist

theorem assignByCall {setter current : String} {args : List String} (hsetter : Woven ok setter)
    (hargs : ∀ arg ∈ args, Woven ok arg) (hcurrent : Woven ok current) (hvalue : Woven ok value)
    (op : AssignOp) : Woven ok (Fragment.assignByCall setter args current value op).text := by
  have hcall (last : String) (hlast : Woven ok last) :
      Woven ok (setter ++ "(" ++ FlowClass.joinText ", " (args ++ [last]) ++ ");") := by
    refine ((hsetter.append (.plain _ (by decide))).append (.joinText (by decide) ?_)).append
      (.plain _ (by decide))
    intro arg harg
    obtain harg | harg := mem_append.1 harg
    · exact hargs arg harg
    · rw [mem_singleton.1 harg]
      exact hlast
  unfold Fragment.assignByCall
  cases hop : op.combining with
  | none => exact hcall value hvalue
  | some combine =>
    have hsymbol : '#' ∉ combine.symbol.toList := by cases combine <;> decide
    refine hcall _ ?_
    have hleft := ((hcurrent.operand.append (.plain " " (by decide))).append
      (.plain _ hsymbol)).append (.plain " " (by decide))
    exact hleft.append hvalue.operand

theorem declare {value : Option String} (htype : Woven ok type) (hname : Woven ok name)
    (hvalue : ∀ text ∈ value, Woven ok text) : Woven ok (Fragment.declare type name value).text := by
  have hhead := (htype.append (.plain " " (by decide))).append hname
  cases value with
  | none => exact hhead.append (.plain _ (by decide))
  | some text =>
    exact ((hhead.append (.plain _ (by decide))).append (hvalue text rfl)).append (.plain _ (by decide))

theorem operator {op : Operator} {operands : List String} {cast : Option String}
    {fragment : Fragment} (h : Fragment.operator op operands cast = .ok fragment)
    (hoperands : ∀ text ∈ operands, Woven ok text) (hcast : ∀ type ∈ cast, Woven ok type) :
    Woven ok fragment.text := by
  have hsymbol : '#' ∉ op.symbol.toList := by cases op <;> decide
  unfold Fragment.operator at h
  split at h
  · rename_i a b _
    cases h
    have ha := (hoperands a mem_cons_self).operand
    have hb := (hoperands b (mem_cons_of_mem _ mem_cons_self)).operand
    have hleft := ((((plain "(" (by decide)).append ha).append (.plain " " (by decide))).append
      (.plain _ hsymbol)).append (.plain " " (by decide))
    exact (hleft.append hb).append (.plain _ (by decide))
  · rename_i a _
    cases h
    exact (plain _ hsymbol).append (hoperands a mem_cons_self).operand
  · rename_i a _
    cases cast with
    | none => cases h
    | some type =>
      cases h
      have hhead : Woven ok ("((" ++ type ++ ")") := (hcast type rfl).between (by decide) (by decide)
      exact (hhead.append (hoperands a mem_cons_self).operand).append (.plain _ (by decide))
  · cases h

end Fragments

end Woven

end FlowClass
