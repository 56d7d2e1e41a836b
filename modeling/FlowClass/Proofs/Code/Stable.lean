import FlowClass.Code.Fragment

/-!
# Properties of texts that building keeps

A property of texts is *stable* if fixed texts have it, and texts keep it when they are joined,
indented and put in braces. Then every text has it that a builder makes of texts that have it.
-/

namespace FlowClass.Code

open List Fragment

/-- A character of the fixed texts that builders put around their parts. -/
def isFixed (c : Char) : Bool :=
  c != '"' && c != '\'' && c != '\x7b' && c != '\x7d' && c != '#'

/-- A property that texts keep when code is laid out. -/
structure Stable (P : String → Prop) : Prop where
  fixed : ∀ s : String, s.toList.all isFixed = true → P s
  append : ∀ {s t : String}, P s → P t → P (s ++ t)
  indent : ∀ {s : String}, P s → P (Code.indent 1 s)
  nothing : P "\x7b\x7d"
  enclosed : ∀ {s : String}, P s → P ("\x7b\n" ++ s ++ "\n\x7d")

namespace Stable

variable {P : String → Prop} (p : Stable P) {text condition body value name type : String}
include p

/-! ## Layout -/

theorem between (h : P text) {before after : String} (hbefore : before.toList.all isFixed = true)
    (hafter : after.toList.all isFixed = true) : P (before ++ text ++ after) :=
  p.append (p.append (p.fixed before hbefore) h) (p.fixed after hafter)

theorem joinText {sep : String} (hsep : P sep) {texts : List String} (h : ∀ text ∈ texts, P text) :
    P (joinText sep texts) := by
  induction texts with
  | nil => exact p.fixed "" rfl
  | cons text texts ih =>
    rw [forall_mem_cons] at h
    cases texts with
    | nil => exact h.1
    | cons next texts => exact p.append (p.append h.1 hsep) (ih h.2)

theorem lines {parts : List String} (h : ∀ part ∈ parts, P part) : P (Code.lines parts) :=
  p.joinText (p.fixed _ rfl) fun part hpart => h part ((mem_filter.1 hpart).1)

theorem braced (h : P text) : P (Code.braced text) := by
  unfold Code.braced
  split
  · exact p.nothing
  · exact p.enclosed (p.indent h)

theorem operand (h : P text) : P (Code.operand text) := by
  unfold Code.operand
  split
  · exact h
  · exact p.between h rfl rfl

/-! ## Statements -/

theorem sectionText (hbody : P body) {head : String} (hhead : P head) :
    P (sectionText head body) := by
  have hleft : P (sectionBody body) := by
    unfold sectionBody
    split
    · exact hbody
    · exact p.lines (forall_mem_cons.2 ⟨hbody, forall_mem_singleton.2 (p.fixed _ rfl)⟩)
  exact p.append (p.append hhead (p.fixed _ rfl)) (p.indent hleft)

theorem ifThen (hcondition : P condition) (hbody : P body) :
    P ("if (" ++ condition ++ ") " ++ Code.braced body) :=
  p.append (p.between hcondition rfl rfl) (p.braced hbody)

theorem switch (hvalue : P value) {sections : List SwitchSection}
    (hsections : ∀ s ∈ sections, (∀ label ∈ s.labels, P label) ∧ P s.body)
    {default : Option String} (hdefault : ∀ body ∈ default, P body) :
    P (switch value sections default).text := by
  have hhead : P ("switch (" ++ value ++ ") ") := p.between hvalue rfl rfl
  unfold Fragment.switch
  dsimp only
  split
  · exact p.append hhead (p.nothing)
  · rw [String.append_assoc, String.append_assoc, ← @String.append_assoc "\x7b\n"]
    refine p.append hhead (p.enclosed (p.indent (p.joinText (p.fixed _ rfl) fun text htext => ?_)))
    obtain htext | htext := mem_append.1 htext
    · obtain ⟨s, hs, rfl⟩ := mem_map.1 htext
      obtain ⟨hlabels, hbody⟩ := hsections s (mem_filter.1 hs).1
      refine p.sectionText hbody (p.joinText (p.fixed _ rfl) fun text htext => ?_)
      obtain ⟨label, hlabel, rfl⟩ := mem_map.1 htext
      exact p.between (hlabels label hlabel) rfl rfl
    · obtain ⟨body, hbody, rfl⟩ := mem_map.1 htext
      exact p.sectionText (hdefault body (Option.mem_toList.1 hbody)) (p.fixed _ rfl)

theorem forLoop {init step : String} (hinit : P init) (hcondition : P condition) (hstep : P step)
    (hbody : P body) : P (forLoop init condition step body).text := by
  have hinit : P ("for (" ++ init ++ "; ") := p.between hinit rfl rfl
  have hcondition := p.append (p.append hinit hcondition) (p.fixed "; " rfl)
  exact p.append (p.append (p.append hcondition hstep) (p.fixed _ rfl)) (p.braced hbody)

theorem forEach {collection : String} (htype : P type) (hname : P name) (hcollection : P collection)
    (hbody : P body) : P (forEach type name collection body).text := by
  have htype : P ("foreach (" ++ type ++ " ") := p.between htype rfl rfl
  have hname := p.append (p.append htype hname) (p.fixed " in " rfl)
  exact p.append (p.append (p.append hname hcollection) (p.fixed _ rfl)) (p.braced hbody)

theorem whileLoop (hcondition : P condition) (hbody : P body) :
    P (whileLoop condition body).text :=
  p.append (p.between hcondition rfl rfl) (p.braced hbody)

theorem assign {left right : String} (hleft : P left) (hright : P right) (op : AssignOp) :
    P (assign left right op).text := by
  have hsymbol : P op.symbol := p.fixed _ (by cases op <;> rfl)
  have hleft := p.append (p.append (p.append hleft (p.fixed " " rfl)) hsymbol) (p.fixed " " rfl)
  exact p.append (p.append hleft hright) (p.fixed _ rfl)

end Stable

end FlowClass.Code
