import FlowClass.Proofs.Symbol.Naming

/-!
# Requests for names

Names are reserved, generated and asked for by owners in any order. The search for a number starts
where the last one for the same identifier ended, and all numbers below are taken (`Names.Counted`),
so it finds the smallest number that makes the name new. A name that an owner has asked for stays its
name (`Names.smallest_fresh_name`).
-/

namespace FlowClass

open List

/-- What the names of a class are asked for. -/
inductive NameCall where
  | reserve (name : String)
  | generate (text : String)
  | nameFor (owner : SymbolKey) (text : String)
deriving DecidableEq

/-- The text that a call makes a new name of. An owner that asks again gets no new name. -/
def NameCall.newText? (before : List NameCall) : NameCall → Option String
  | .reserve _ => none
  | .generate text => some text
  | .nameFor owner text => if .nameFor owner text ∈ before then none else some text

namespace Names

/-- The name that a call reserves or returns, and the names after it. -/
def call (n : Names) : NameCall → String × Names
  | .reserve name => (name, n.reserve name)
  | .generate text => n.generate text
  | .nameFor owner text => n.nameFor owner text

/-- The names after some calls, of which the latest comes first. -/
def after : List NameCall → Names
  | [] => {}
  | c :: before => ((after before).call c).2

/-- The name that a call after others reserves or returns. -/
def answer (before : List NameCall) (c : NameCall) : String :=
  ((after before).call c).1

/-- One of the calls has reserved or returned the name. -/
def Taken : List NameCall → String → Prop
  | [], _ => False
  | c :: before, name => answer before c = name ∨ Taken before name

/-- The identifier if it is free, else the identifier with the smallest number that makes it so. -/
def SmallestFree (taken : String → Prop) (base name : String) : Prop :=
  ¬taken base ∧ name = base ∨
    taken base ∧ ∃ k : Nat, 1 ≤ k ∧ name = base ++ toString k ∧ ¬taken name ∧
      ∀ j : Nat, 1 ≤ j → j < k → taken (base ++ toString j)

variable {n : Names} {before : List NameCall} {c : NameCall} {text : String}

/-! ## The search -/

/-- The first number that a search tries. -/
def firstTry (n : Names) (base : String) : Nat :=
  (n.suffixes.lookup base).getD 1

/-- A search passes over taken numbers only. -/
theorem mem_of_freshSuffix {used : List String} {base : String} {fuel k : Nat} :
    k ≤ freshSuffix used base fuel k ∧
      ∀ j, k ≤ j → j < freshSuffix used base fuel k → base ++ toString j ∈ used := by
  induction fuel generalizing k with
  | zero => exact ⟨Nat.le_refl k, fun j hj hlt => absurd hlt (Nat.not_lt.2 hj)⟩
  | succ fuel ih =>
    rw [freshSuffix]
    split
    · rename_i htaken
      refine ⟨Nat.le_of_succ_le ih.1, fun j hj hlt => ?_⟩
      obtain rfl | hj := Nat.eq_or_lt_of_le hj
      · exact contains_iff_mem.1 htaken
      · exact ih.2 j hj hlt
    · exact ⟨Nat.le_refl k, fun j hj hlt => absurd hlt (Nat.not_lt.2 hj)⟩

/-- The identifier itself is given out, or the number that a search finds is put behind it. -/
theorem generate_cases (n : Names) (text : String) :
    (identifierOf text ∉ n.used ∧
      n.generate text = (identifierOf text, { n with used := identifierOf text :: n.used })) ∨
    identifierOf text ∈ n.used ∧ ∃ k, n.firstTry (identifierOf text) ≤ k ∧
      (∀ j : Nat, n.firstTry (identifierOf text) ≤ j → j < k →
        identifierOf text ++ toString j ∈ n.used) ∧
      n.generate text = (identifierOf text ++ toString k,
        { n with
          used := (identifierOf text ++ toString k) :: n.used
          suffixes := (identifierOf text, k + 1) :: n.suffixes }) := by
  unfold generate
  dsimp only
  split
  · rename_i htaken
    exact .inr ⟨contains_iff_mem.1 htaken, _, mem_of_freshSuffix.1, mem_of_freshSuffix.2, rfl⟩
  · rename_i hfree
    exact .inl ⟨fun h => hfree (contains_iff_mem.2 h), rfl⟩

/-- The numbers that a search leaves out are taken. -/
def Counted (n : Names) : Prop :=
  ∀ base, 1 ≤ n.firstTry base ∧
    ∀ j : Nat, 1 ≤ j → j < n.firstTry base → base ++ toString j ∈ n.used

namespace Counted

variable (h : n.Counted)
include h

theorem taking (name : String) : Counted { n with used := name :: n.used } := fun base =>
  ⟨(h base).1, fun j hj hlt => mem_cons_of_mem _ ((h base).2 j hj hlt)⟩

theorem taken_below {base : String} {k : Nat}
    (hsearch : ∀ j : Nat, n.firstTry base ≤ j → j < k → base ++ toString j ∈ n.used) (j : Nat)
    (hj : 1 ≤ j) (hlt : j < k) : base ++ toString j ∈ n.used :=
  (Nat.lt_or_ge j (n.firstTry base)).elim ((h base).2 j hj) fun hge => hsearch j hge hlt

/-- The next search for an identifier starts behind the number that this one found. -/
theorem generate (text : String) : (n.generate text).2.Counted := by
  obtain ⟨_, hrun⟩ | ⟨_, k, _, hsearch, hrun⟩ := n.generate_cases text <;> rw [hrun]
  · exact h.taking _
  · intro base
    obtain ⟨hfirst, hbelow⟩ := h.taking (identifierOf text ++ toString k) base
    rw [firstTry, lookup_cons]
    by_cases hbase : base = identifierOf text
    · rw [hbase, beq_self_eq_true]
      refine ⟨Nat.le_add_left 1 k, fun j hj hlt => ?_⟩
      obtain rfl | hlt := Nat.eq_or_lt_of_le (Nat.le_of_lt_succ hlt)
      · exact mem_cons_self
      · exact mem_cons_of_mem _ (h.taken_below hsearch j hj hlt)
    · rw [beq_false_of_ne hbase]
      exact ⟨hfirst, hbelow⟩

/-- The search from where the last one ended finds the smallest number of all. -/
theorem smallestFree (text : String) :
    SmallestFree (· ∈ n.used) (identifierOf text) (n.generate text).1 := by
  have hnew := n.generate_not_mem text
  obtain ⟨hfree, hrun⟩ | ⟨htaken, k, hk, hsearch, hrun⟩ := n.generate_cases text
  · rw [hrun]
    exact .inl ⟨hfree, rfl⟩
  · rw [hrun] at hnew ⊢
    exact .inr ⟨htaken, k, Nat.le_trans (h _).1 hk, rfl, hnew, h.taken_below hsearch⟩

end Counted

/-! ## Calls -/

/-- A known name is found, or one is generated and kept. -/
theorem nameFor_cases (n : Names) (owner : SymbolKey) (text : String) :
    (∃ name, n.alias? owner text = some name ∧ n.nameFor owner text = (name, n)) ∨
      n.alias? owner text = none ∧
        n.nameFor owner text = ((n.generate text).1, { (n.generate text).2 with
          aliases := ((owner, text), (n.generate text).1) :: n.aliases }) := by
  unfold nameFor
  split
  · rename_i name hname
    exact .inl ⟨name, hname, rfl⟩
  · rename_i hnone
    exact .inr ⟨hnone, by rw [← aliases_generate n text]⟩

/-- What the names know of the calls that were made. -/
structure Follows (n : Names) (calls : List NameCall) : Prop where
  used : ∀ name, name ∈ n.used ↔ Taken calls name
  counted : n.Counted
  aliased : ∀ owner text, (n.alias? owner text).isSome = true ↔ .nameFor owner text ∈ calls
  aliases : ∀ owner text name, n.alias? owner text = some name → name ∈ n.used

namespace Follows

/-- A call that takes a name, which is the alias of an owner that asked for it. -/
theorem taking (h : Follows n before) {n' : Names} (hcounted : n'.Counted)
    (hused : n'.used = answer before c :: n.used)
    (halias : ∀ owner text, n'.alias? owner text =
      if c = .nameFor owner text then some (answer before c) else n.alias? owner text) :
    Follows n' (c :: before) where
  used name := by rw [hused, mem_cons, h.used, Taken, eq_comm]
  counted := hcounted
  aliased owner text := by
    rw [halias, mem_cons, ← h.aliased]
    split
    · rename_i hsame
      exact iff_of_true rfl (.inl hsame.symm)
    · rename_i hother
      exact (or_iff_right (Ne.symm hother)).symm
  aliases owner text name hname := by
    rw [hused]
    rw [halias] at hname
    split at hname
    · cases hname
      exact mem_cons_self
    · exact mem_cons_of_mem _ (h.aliases owner text name hname)

/-- Every call is followed. -/
theorem call (h : Follows (after before) before) (c : NameCall) :
    Follows (after (c :: before)) (c :: before) := by
  rw [after]
  cases c with
  | reserve name => exact h.taking (h.counted.taking name) rfl fun _ _ => rfl
  | generate text =>
    refine h.taking (h.counted.generate text) (used_generate _ text) fun owner text' => ?_
    rw [alias?, Names.call, aliases_generate]
    rfl
  | nameFor owner text =>
    have hanswer : answer before (.nameFor owner text) = ((after before).nameFor owner text).1 := rfl
    rw [Names.call]
    obtain ⟨name, hknown, hrun⟩ | ⟨hnew, hrun⟩ := (after before).nameFor_cases owner text
    · rw [hrun] at hanswer ⊢
      have hmem := (h.aliased owner text).1 (hknown ▸ rfl)
      refine { h with used := fun other => ?_, aliased := fun owner' text' => ?_ }
      · rw [Taken, hanswer, h.used, iff_or_self]
        rintro rfl
        exact (h.used _).1 (h.aliases owner text _ hknown)
      · rw [h.aliased, mem_cons, iff_or_self]
        rintro ⟨⟩
        exact hmem
    · rw [hrun] at hanswer ⊢
      refine h.taking (h.counted.generate text) ?_ fun owner' text' => ?_
      · rw [hanswer]
        exact used_generate _ text
      · rw [alias?, lookup_cons, hanswer]
        by_cases hsame : owner' = owner ∧ text' = text
        · rw [hsame.1, hsame.2, beq_self_eq_true, if_pos rfl]
        · rw [beq_false_of_ne (by simpa using hsame), if_neg]
          · rfl
          · rintro ⟨⟩
            exact hsame ⟨rfl, rfl⟩

end Follows

theorem follows : (calls : List NameCall) → Follows (after calls) calls
  | [] =>
    { used := fun _ => iff_of_false not_mem_nil id
      counted := fun _ => ⟨Nat.le_refl 1, fun _ hj hlt => absurd hlt (Nat.not_lt.2 hj)⟩
      aliased := fun _ _ => by simp [after, alias?]
      aliases := fun _ _ _ h => by cases h }
  | c :: before => (follows before).call c

/-- The name of an owner is found again after any calls. -/
theorem alias?_after (owner : SymbolKey) (text : String) (before later : List NameCall) :
    (after (later ++ .nameFor owner text :: before)).alias? owner text =
      some (answer before (.nameFor owner text)) := by
  induction later with
  | nil =>
    rw [nil_append, after, answer, call]
    obtain ⟨name, hknown, hrun⟩ | ⟨_, hrun⟩ := (after before).nameFor_cases owner text
    · rw [hrun, hknown]
    · rw [hrun, alias?, lookup_cons_self]
  | cons c later ih =>
    rw [cons_append, after]
    cases c with
    | reserve name => exact ih
    | generate other =>
      rw [alias?, call, aliases_generate]
      exact ih
    | nameFor other text' =>
      rw [call]
      obtain ⟨name, _, hrun⟩ | ⟨hnew, hrun⟩ :=
        (after (later ++ .nameFor owner text :: before)).nameFor_cases other text' <;> rw [hrun]
      · exact ih
      · have hne : (owner, text) ≠ (other, text') := by
          rintro ⟨⟩
          rw [ih] at hnew
          cases hnew
        rw [alias?, lookup_cons, beq_false_of_ne hne]
        exact ih

theorem smallestFree_answer (hnew : c.newText? before = some text) :
    SmallestFree (Taken before) (identifierOf text) (answer before c) := by
  have hfollows := follows before
  have h := hfollows.counted.smallestFree text
  rw [show (· ∈ (after before).used) = Taken before from funext fun _ => propext (hfollows.used _)] at h
  cases c with
  | reserve name => cases hnew
  | generate other =>
    cases hnew
    exact h
  | nameFor owner other =>
    rw [NameCall.newText?] at hnew
    split at hnew
    · cases hnew
    · rename_i hfirst
      cases hnew
      obtain ⟨name, hknown, _⟩ | ⟨_, hrun⟩ := (after before).nameFor_cases owner text
      · exact absurd ((hfollows.aliased owner text).1 (hknown ▸ rfl)) hfirst
      · rw [answer, call, hrun]
        exact h

theorem taken_append {earlier : List NameCall} (later : List NameCall) :
    Taken (later ++ c :: earlier) (answer earlier c) := by
  induction later with
  | nil => exact .inl rfl
  | cons _ _ ih => exact .inr ih

/-- A call that makes a new name returns the identifier of its text if no call before it reserved or
returned that, and else the identifier with the smallest number that makes it new; a search for a
number ends. So the name differs from all that were reserved or returned before. An owner that asks
for a text again gets the same name, whatever was asked for in between. The latest call comes first. -/
theorem smallest_fresh_name (before : List NameCall) (c : NameCall) :
    (∀ text, c.newText? before = some text →
      SmallestFree (Taken before) (identifierOf text) (answer before c)) ∧
    (∀ base, ∃ k : Nat, (after before).firstTry base ≤ k ∧
      base ++ toString k ∉ (after before).used) ∧
    (∀ later other earlier, before = later ++ other :: earlier →
      (c.newText? before).isSome = true → answer before c ≠ answer earlier other) ∧
    ∀ owner text later earlier, c = .nameFor owner text → before = later ++ c :: earlier →
      answer before c = answer earlier c := by
  refine ⟨fun text => smallestFree_answer, fun base => ?_, ?_, ?_⟩
  · exact ⟨_, mem_of_freshSuffix.1, freshSuffix_not_mem _ base _⟩
  · rintro later other earlier rfl hnew hsame
    obtain ⟨text, htext⟩ := Option.isSome_iff_exists.1 hnew
    obtain ⟨hfree, heq⟩ | ⟨_, k, _, _, hfree, _⟩ := smallestFree_answer htext
    · exact hfree (heq ▸ hsame ▸ taken_append later)
    · exact hfree (hsame ▸ taken_append later)
  · rintro owner text later earlier rfl rfl
    have hknown := alias?_after owner text earlier later
    obtain ⟨name, hname, hrun⟩ | ⟨hnone, _⟩ := nameFor_cases (after _) owner text
    · rw [answer, call, hrun]
      exact Option.some.inj (hname.symm.trans hknown)
    · cases hnone.symm.trans hknown

/-- Names that end in digits stand in the way of numbers. -/
def digitCalls : List NameCall :=
  [.reserve "x3", .generate "x", .generate "x1", .nameFor (.node ⟨1⟩) "x", .reserve "x1"]

/-- The third `x` is `x4`: `x1` and `x3` are reserved, and `x2` was given out. -/
theorem digitCalls_next : (NameCall.generate "x").newText? digitCalls = some "x" ∧
    answer digitCalls (.generate "x") = "x4" ∧
    answer digitCalls (.nameFor (.node ⟨1⟩) "x") = "x" ∧
    SmallestFree (Taken digitCalls) "x" "x4" := by
  have hbase : identifierOf "x" = "x" := by decide +kernel
  have hname : answer digitCalls (.generate "x") = "x4" := by decide +kernel
  have hnew : (NameCall.generate "x").newText? digitCalls = some "x" := rfl
  have hfree := (smallest_fresh_name digitCalls (.generate "x")).1 "x" hnew
  rw [hbase, hname] at hfree
  exact ⟨hnew, hname, by decide +kernel, hfree⟩

end Names

end FlowClass
