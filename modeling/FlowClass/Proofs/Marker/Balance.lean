import FlowClass.Marker.SourceMap
import FlowClass.Proofs.Marker.Scanning
import FlowClass.Proofs.Order.Sorting

/-!
# Balanced texts

Extraction takes a text just when its tokens are balanced: each of them ends and names an identity,
and the tokens of an identity pair up like brackets (`Balanced`). Tokens of different identities may
overlap. What is taken keeps the characters outside the tokens, as stripping does, and has a span for
every opening token (`extract_iff_balanced`).

The tokens themselves are those of `Cut`, which says how a text falls into pieces from left to right
without saying how they are looked for.
-/

namespace FlowClass

open List

variable {ps : List Piece} {opened : List (MarkerId × Position)} {p : Piece} {e e' : Extraction}

namespace Marker

/-! ## Cutting a text -/

/-- A text falls into characters and tokens: a token starts wherever its first characters stand
outside a token, and runs to the first `*/` behind them. -/
inductive Cut : List Char → List Piece → Prop where
  | nil : Cut [] []
  | char {c : Char} {s : List Char} {ps : List Piece} (hopen : ¬ openMark <+: c :: s)
      (hclose : ¬ closeMark <+: c :: s) (hrest : Cut s ps) : Cut (c :: s) (.char c :: ps)
  | token (opening : Bool) {label s : List Char} {ps : List Piece}
      (hend : ¬ endMark <:+: label ++ ['*']) (hrest : Cut s ps) :
      Cut (startMark opening ++ (label ++ endMark ++ s)) (.token opening label :: ps)
  | broken (opening : Bool) {s : List Char} (hend : ¬ endMark <:+: s) :
      Cut (startMark opening ++ s) [.broken (startMark opening ++ s)]

theorem endMark_ne_nil : endMark ≠ [] := by decide

/-- There is one way to cut a text. -/
theorem Cut.eq_pieces {s : List Char} (h : Cut s ps) : ps = pieces s := by
  induction h with
  | nil => rfl
  | char hopen hclose _ ih => rw [pieces_char (tokenStart?_eq_none_iff.2 ⟨hopen, hclose⟩), ih]
  | token opening hend _ ih =>
    rw [pieces_token (tokenStart?_eq_some_iff.2 rfl)
      ((Text.cutAt_eq_some_iff endMark_ne_nil).2 ⟨rfl, hend⟩), ih]
  | broken opening hend =>
    rw [pieces_broken (tokenStart?_eq_some_iff.2 rfl) ((Text.cutAt_eq_none_iff endMark_ne_nil).2 hend)]

/-- Every text can be cut. -/
theorem cut_pieces (s : List Char) : Cut s (pieces s) := by
  induction hlen : s.length using Nat.strongRecOn generalizing s with
  | ind n ih =>
    subst hlen
    cases hstart : tokenStart? s with
    | none =>
      cases s with
      | nil => exact .nil
      | cons c s =>
        obtain ⟨hopen, hclose⟩ := tokenStart?_eq_none_iff.1 hstart
        rw [pieces_char hstart]
        exact .char hopen hclose (ih _ (Nat.lt_succ_self _) s rfl)
    | some start =>
      obtain ⟨opening, inside⟩ := start
      cases hcut : Text.cutAt endMark inside with
      | none =>
        rw [pieces_broken hstart hcut, tokenStart?_eq_some_iff.1 hstart]
        exact .broken opening ((Text.cutAt_eq_none_iff endMark_ne_nil).1 hcut)
      | some halves =>
        obtain ⟨label, rest⟩ := halves
        have hlength := length_of_token hstart hcut
        obtain ⟨hinside, hend⟩ := (Text.cutAt_eq_some_iff endMark_ne_nil).1 hcut
        rw [pieces_token hstart hcut, tokenStart?_eq_some_iff.1 hstart, hinside]
        exact .token opening hend (ih _ (by omega) rest rfl)

theorem cut_iff {s : List Char} : Cut s ps ↔ ps = pieces s :=
  ⟨Cut.eq_pieces, fun h => h ▸ cut_pieces s⟩

/-! ## Balance -/

/-- A token of the identity that opens, or one that closes. -/
def Piece.isToken (opening : Bool) (id : MarkerId) : Piece → Bool
  | .token opening' label => opening' == opening && (MarkerId.parse label).toOption == some id
  | _ => false

def Piece.isOpening : Piece → Bool
  | .token opening _ => opening
  | _ => false

def openings (id : MarkerId) (ps : List Piece) : Nat :=
  ps.countP (Piece.isToken true id)

def closings (id : MarkerId) (ps : List Piece) : Nat :=
  ps.countP (Piece.isToken false id)

/-- The piece is no token that does not end, or that names no identity. -/
def Piece.Sound : Piece → Prop
  | .char _ => True
  | .token _ label => ∃ id, MarkerId.parse label = .ok id
  | .broken _ => False

/-- Tokens that pair up, where some are open before the first piece. -/
structure BalancedFrom (opened : MarkerId → Nat) (ps : List Piece) : Prop where
  sound : ∀ p ∈ ps, p.Sound
  /-- No token closes what is not open. -/
  prefixes : ∀ id q, q <+: ps → closings id q ≤ opened id + openings id q
  /-- Nothing is left open. -/
  whole : ∀ id, closings id ps = opened id + openings id ps

/-- Every token ends and names an identity, and the tokens of each identity pair up. -/
structure Balanced (ps : List Piece) : Prop where
  sound : ∀ p ∈ ps, p.Sound
  prefixes : ∀ id q, q <+: ps → closings id q ≤ openings id q
  whole : ∀ id, closings id ps = openings id ps

theorem balanced_iff : Balanced ps ↔ BalancedFrom (fun _ => 0) ps := by
  constructor
  · intro h
    exact ⟨h.sound, by simpa using h.prefixes, by simpa using h.whole⟩
  · intro h
    exact ⟨h.sound, by simpa using h.prefixes, by simpa using h.whole⟩

section Counting

variable (id : MarkerId) (p : Piece) (ps : List Piece)

theorem openings_cons : openings id (p :: ps) = openings id [p] + openings id ps := by
  simp only [openings, countP_cons, countP_nil]
  omega

theorem closings_cons : closings id (p :: ps) = closings id [p] + closings id ps := by
  simp only [closings, countP_cons, countP_nil]
  omega

end Counting

/-- The first piece changes what is open. -/
theorem balancedFrom_cons {opened opened' : MarkerId → Nat}
    (hopened : ∀ id, opened' id + closings id [p] = opened id + openings id [p]) :
    BalancedFrom opened (p :: ps) ↔ p.Sound ∧ BalancedFrom opened' ps := by
  constructor
  · intro h
    have hsound := forall_mem_cons.1 h.sound
    refine ⟨hsound.1, hsound.2, fun id q hq => ?_, fun id => ?_⟩
    · have hprefix := h.prefixes id (p :: q) ((prefix_cons_inj p).2 hq)
      rw [openings_cons, closings_cons] at hprefix
      have := hopened id
      omega
    · have hwhole := h.whole id
      rw [openings_cons, closings_cons] at hwhole
      have := hopened id
      omega
  · rintro ⟨hsound, h⟩
    refine ⟨forall_mem_cons.2 ⟨hsound, h.sound⟩, fun id q hq => ?_, fun id => ?_⟩
    · -- the empty prefix says nothing, and any other one starts with the piece
      obtain rfl | ⟨rest, rfl, hrest⟩ := prefix_cons_iff.1 hq
      · exact Nat.zero_le _
      · rw [openings_cons, closings_cons]
        have := h.prefixes id rest hrest
        have := hopened id
        omega
    · rw [openings_cons, closings_cons]
      have := h.whole id
      have := hopened id
      omega

/-! ## Extraction -/

/-- The open tokens of an identity. -/
def held (id : MarkerId) (opened : List (MarkerId × Position)) : Nat :=
  opened.countP (·.1 == id)

theorem eq_nil_of_held (h : ∀ id, held id opened = 0) : opened = [] := by
  cases opened with
  | nil => rfl
  | cons entry rest =>
    have := h entry.1
    simp [held] at this

theorem takeOpen_eq_none {id : MarkerId} (h : takeOpen id opened = none) : held id opened = 0 := by
  induction opened with
  | nil => rfl
  | cons entry rest ih =>
    rw [takeOpen] at h
    split at h
    · cases h
    · rename_i hother
      rw [Option.map_eq_none_iff] at h
      rw [held, countP_cons_of_neg (by simpa using hother)]
      exact ih h

theorem takeOpen_eq_some {id : MarkerId} {rest : List (MarkerId × Position)} {start : Position}
    (h : takeOpen id opened = some (start, rest)) : opened.Perm ((id, start) :: rest) := by
  induction opened generalizing rest with
  | nil => cases h
  | cons entry opened ih =>
    rw [takeOpen] at h
    split at h
    · rename_i hsame
      cases h
      rw [← hsame]
    · obtain ⟨⟨q, rest'⟩, htake, hpair⟩ := Option.map_eq_some_iff.1 h
      cases hpair
      exact ((ih htake).cons entry).trans (.swap _ _ _)

/-- What taking in a piece does. -/
structure Taken (e : Extraction) (p : Piece) (e' : Extraction) : Prop where
  sound : p.Sound
  kept : e'.kept.reverse = e.kept.reverse ++ p.plain
  held : ∀ id, held id e'.opened + closings id [p] = held id e.opened + openings id [p]
  spans : e'.closed.length + e'.opened.length =
    e.closed.length + e.opened.length + [p].countP Piece.isOpening

theorem taken_of_step (h : e.step p = .ok e') : Taken e p e' := by
  cases p with
  | char c =>
    cases h
    exact ⟨trivial, reverse_cons, fun _ => rfl, rfl⟩
  | broken rest => cases h
  | token opening label =>
    cases hparse : MarkerId.parse label with
    | error reason => simp [Extraction.step, hparse] at h
    | ok id =>
      have htoken (opening' : Bool) (other : MarkerId) :
          Piece.isToken opening' other (.token opening label) =
            (opening == opening' && id == other) := by
        simp [Piece.isToken, hparse, Except.toOption]
      simp only [Extraction.step, hparse] at h
      cases opening with
      | true =>
        cases h
        refine ⟨⟨id, hparse⟩, by simp [Piece.plain], fun other => ?_, ?_⟩
        · simp [closings, openings, Marker.held, htoken, countP_cons]
        · simp [Piece.isOpening]
          omega
      | false =>
        cases htake : takeOpen id e.opened with
        | none => simp [htake] at h
        | some taken =>
          obtain ⟨start, rest⟩ := taken
          simp only [htake, Bool.false_eq_true, if_false] at h
          cases h
          have hperm := takeOpen_eq_some htake
          refine ⟨⟨id, hparse⟩, by simp [Piece.plain], fun other => ?_, ?_⟩
          · rw [Marker.held, Marker.held, hperm.countP_eq]
            simp [closings, openings, htoken, countP_cons]
          · rw [hperm.length_eq]
            simp [Piece.isOpening]
            omega

/-- A sound piece is refused only where it closes what is not open. -/
theorem refused_of_step {err : MarkerError} (h : e.step p = .error err) (hsound : p.Sound) :
    ∃ id, held id e.opened + openings id [p] < closings id [p] := by
  cases p with
  | char c => cases h
  | broken rest => exact hsound.elim
  | token opening label =>
    obtain ⟨id, hparse⟩ := hsound
    simp only [Extraction.step, hparse] at h
    cases opening with
    | true => cases h
    | false =>
      cases htake : takeOpen id e.opened with
      | none =>
        refine ⟨id, ?_⟩
        rw [takeOpen_eq_none htake]
        simp [openings, closings, Piece.isToken, hparse, Except.toOption]
      | some taken => simp [htake] at h

theorem run_cons_ok : e.run (p :: ps) = .ok e' ↔ ∃ e₁, e.step p = .ok e₁ ∧ e₁.run ps = .ok e' := by
  rw [Extraction.run]
  cases e.step p <;> simp

/-- A run takes its pieces in and leaves nothing open just when they pair up with what is open. -/
theorem run_ok_iff (e : Extraction) (ps : List Piece) :
    (∃ e', e.run ps = .ok e' ∧ e'.opened = []) ↔ BalancedFrom (held · e.opened) ps := by
  induction ps generalizing e with
  | nil =>
    constructor
    · rintro ⟨e', h, hnil⟩
      cases h
      rw [hnil]
      exact ⟨nofun, fun id q hq => by simp [prefix_nil.1 hq, held, closings], fun _ => rfl⟩
    · intro h
      exact ⟨e, rfl, eq_nil_of_held fun id => (h.whole id).symm⟩
  | cons p ps ih =>
    simp only [run_cons_ok]
    cases hstep : e.step p with
    | error err =>
      -- the prefix of one piece shows that more is closed than is open
      refine iff_of_false (fun ⟨e', ⟨e₁, hcontra, _⟩, _⟩ => by cases hcontra) fun h => ?_
      obtain ⟨id, hlt⟩ := refused_of_step hstep (h.sound p mem_cons_self)
      have := h.prefixes id [p] ((prefix_cons_inj p).2 nil_prefix)
      omega
    | ok e₁ =>
      have htaken := taken_of_step hstep
      rw [balancedFrom_cons htaken.held, ← ih e₁]
      constructor
      · rintro ⟨e', ⟨_, hok, hrun⟩, hnil⟩
        cases hok
        exact ⟨htaken.sound, e', hrun, hnil⟩
      · rintro ⟨_, e', hrun, hnil⟩
        exact ⟨e', ⟨e₁, rfl, hrun⟩, hnil⟩

theorem run_kept (h : e.run ps = .ok e') :
    e'.kept.reverse = e.kept.reverse ++ ps.flatMap Piece.plain ∧
      e'.closed.length + e'.opened.length =
        e.closed.length + e.opened.length + ps.countP Piece.isOpening := by
  induction ps generalizing e with
  | nil =>
    cases h
    exact ⟨(append_nil _).symm, rfl⟩
  | cons p ps ih =>
    obtain ⟨e₁, hstep, hrun⟩ := run_cons_ok.1 h
    have htaken := taken_of_step hstep
    obtain ⟨hkept, hspans⟩ := ih hrun
    constructor
    · rw [hkept, htaken.kept, flatMap_cons, append_assoc]
    · have hone := htaken.spans
      rw [countP_cons, countP_nil] at hone
      rw [hspans, countP_cons]
      omega

theorem firstOpen?_eq_none_iff {order : List MarkerId} {opened : List (MarkerId × Position)} :
    firstOpen? order opened = none ↔ opened = [] := by
  rw [firstOpen?, Option.or_eq_none_iff, head?_eq_none_iff, and_iff_right_iff_imp]
  rintro rfl
  exact findSome?_eq_none_iff.2 fun _ _ => rfl

/-- The order decides which open token is named, and nothing else. -/
theorem extract_ok_iff {order : List MarkerId} {text : String} {result : String × SourceMap} :
    extract order text = .ok result ↔
      ∃ e : Extraction, Extraction.run {} (pieces text.toList) = .ok e ∧ e.opened = [] ∧
        result =
          (String.ofList e.kept.reverse, { spans := sortBy SourceSpan.le e.closed.reverse }) := by
  unfold extract
  cases Extraction.run {} (pieces text.toList) with
  | error err => simp
  | ok e =>
    cases hfirst : firstOpen? order e.opened with
    | none =>
      have hopened := firstOpen?_eq_none_iff.1 hfirst
      rw [hopened] at hfirst
      simp [hfirst, hopened, eq_comm]
    | some first =>
      have hopened : e.opened ≠ [] := fun hnil => by
        rw [firstOpen?_eq_none_iff.2 hnil] at hfirst
        cases hfirst
      simp [hfirst, hopened]

/-- In any two orders the same is extracted, or the same is wrong, except that other tokens may be
named that are left open. -/
theorem extract_alike (order order' : List MarkerId) (text : String) :
    extract order text = extract order' text ∨
      ∃ id p id' p', extract order text = .error (unclosed id p) ∧
        extract order' text = .error (unclosed id' p') := by
  unfold extract
  cases Extraction.run {} (pieces text.toList) with
  | error err => exact .inl rfl
  | ok e =>
    dsimp only
    cases hfirst : firstOpen? order e.opened with
    | none =>
      rw [firstOpen?_eq_none_iff.2 (firstOpen?_eq_none_iff.1 hfirst)]
      exact .inl rfl
    | some first =>
      cases hfirst' : firstOpen? order' e.opened with
      | none =>
        rw [firstOpen?_eq_none_iff.2 (firstOpen?_eq_none_iff.1 hfirst')] at hfirst
        cases hfirst
      | some first' => exact .inr ⟨_, _, _, _, rfl, rfl⟩

/-- Extraction takes the balanced texts and no others. It keeps what stripping keeps, and finds a
span for each opening token. -/
theorem extract_iff_balanced (order : List MarkerId) (text : String) :
    ∃ ps, (∀ qs, Cut text.toList qs ↔ qs = ps) ∧
      ((∃ result, extract order text = .ok result) ↔ Balanced ps) ∧
      ∀ clean map, extract order text = .ok (clean, map) →
        clean = strip text ∧ map.spans.length = ps.countP Piece.isOpening := by
  refine ⟨pieces text.toList, fun qs => cut_iff, ?_, fun clean map hextract => ?_⟩
  · rw [balanced_iff, show (fun _ => 0) = (held · ({} : Extraction).opened) from rfl, ← run_ok_iff]
    constructor
    · rintro ⟨result, hextract⟩
      obtain ⟨e, hrun, hnil, _⟩ := extract_ok_iff.1 hextract
      exact ⟨e, hrun, hnil⟩
    · rintro ⟨e, hrun, hnil⟩
      exact ⟨_, extract_ok_iff.2 ⟨e, hrun, hnil, rfl⟩⟩
  · obtain ⟨e, hrun, hnil, hresult⟩ := extract_ok_iff.1 hextract
    cases hresult
    obtain ⟨hkept, hspans⟩ := run_kept hrun
    constructor
    · rw [hkept, ← String.toList_inj, String.toList_ofList, strip_toList_eq]
      rfl
    · rw [hnil] at hspans
      rw [(perm_sortBy _).length_eq, List.length_reverse]
      simpa using hspans

end Marker

end FlowClass
