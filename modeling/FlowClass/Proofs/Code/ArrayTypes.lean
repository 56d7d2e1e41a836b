import FlowClass.Code.LiteralText
import FlowClass.Proofs.Text.Splitting

/-!
# Array types as they are read

In the generated language an array type is a name with rank specifiers behind it, and the leftmost
specifier belongs to the outermost array. The text of a type has them the other way round: each
array puts its specifier behind the text of its element. So the text of a type stands for its
mirror image, which is the type itself only if its ranks are the same from both ends; and an empty
array can only be created if its elements are no arrays.
-/

namespace FlowClass

open List

namespace Ty

/-- The type inside all arrays. -/
def core : Ty → Ty
  | .array element _ => element.core
  | t => t

/-- The ranks of the arrays around the core, from the outermost. -/
def ranks : Ty → List UInt8
  | .array element rank => rank :: element.ranks
  | _ => []

/-- The type with arrays of the given ranks around it, from the outermost. -/
def inArrays (t : Ty) (ranks : List UInt8) : Ty :=
  ranks.foldr (fun rank element => .array element rank) t

/-- The type whose ranks stand in the opposite order. -/
def mirrored (t : Ty) : Ty :=
  t.core.inArrays t.ranks.reverse

/-- The type that a name without arguments stands for. -/
def ofName (name : List Char) : Ty :=
  ((Scalar.all.find? (·.keyword.toList == name)).map .scalar).getD (.typeParam (.ofList name))

/-- A type of scalars, type parameters and arrays with at least one dimension. -/
inductive Arrayed : Ty → Prop
  | scalar (s : Scalar) : Arrayed (.scalar s)
  | typeParam {name : String} : (∀ s : Scalar, s.keyword ≠ name) → '[' ∉ name.toList →
      ' ' ∉ name.toList → Arrayed (.typeParam name)
  | array {element : Ty} {rank : UInt8} : Arrayed element → 1 ≤ rank.toNat →
      Arrayed (.array element rank)

end Ty

/-- Reads rank specifiers; inside one, the number is that of its dimensions so far. -/
def readRanks : Option Nat → List Char → Option (List UInt8)
  | none, [] => some []
  | none, '[' :: s => readRanks (some 1) s
  | some n, ',' :: s => readRanks (some (n + 1)) s
  | some n, ']' :: s => (readRanks none s).map (n.toUInt8 :: ·)
  | _, _ => none

/-- Reads a name and the rank specifiers behind it. -/
def readType (s : List Char) : Option Ty :=
  (readRanks none (s.dropWhile (· != '['))).map (Ty.ofName (s.takeWhile (· != '['))).inArrays

/-- Reads the size of an array in brackets, and what follows. -/
def readSize : List Char → Option (List Char)
  | '[' :: c :: s => if c.isDigit then Text.dropLead [']'] (s.dropWhile Char.isDigit) else none
  | _ => none

/-- The type of the array that an expression creates: either the first specifier has a size in it,
or the items follow in braces. -/
def readCreation (s : List Char) : Option Ty := do
  let s ← Text.dropLead "new ".toList s
  let specifiers := s.dropWhile (· != '[')
  let name := s.takeWhile (· != '[')
  if let some rest := readSize specifiers then
    return (Ty.ofName name).inArrays (1 :: (← readRanks none rest))
  else if (specifiers.dropWhile (· != ' ')).take 2 = " \x7b".toList ∧
      specifiers.getLast? = some '\x7d' then
    readType (s.takeWhile (· != ' '))
  else none

/-- The specifier of an array. -/
def specifier (rank : UInt8) : List Char :=
  '[' :: replicate (rank.toNat - 1) ',' ++ [']']

section Reading

variable {name : List Char} {ranks : List UInt8}

theorem readRanks_some (n k : Nat) (s : List Char) :
    readRanks (some n) (replicate k ',' ++ ']' :: s) =
      (readRanks none s).map ((n + k).toUInt8 :: ·) := by
  induction k generalizing n with
  | zero => rfl
  | succ k ih =>
    rw [replicate_succ, cons_append, readRanks, ih, Nat.add_right_comm]
    rfl

theorem readRanks_specifiers (h : ∀ rank ∈ ranks, 1 ≤ rank.toNat) :
    readRanks none (ranks.flatMap specifier) = some ranks := by
  induction ranks with
  | nil => rfl
  | cons rank ranks ih =>
    have hrank : 1 + (rank.toNat - 1) = rank.toNat := by
      have := h rank mem_cons_self
      omega
    rw [flatMap_cons, specifier, append_assoc, singleton_append, cons_append, readRanks,
      readRanks_some, ih fun r hr => h r (mem_cons_of_mem _ hr), hrank]
    simp

/-- The name ends where the first specifier starts. -/
theorem cut_name (hname : '[' ∉ name) (ranks : List UInt8) {s : List Char}
    (hs : ranks = [] → s.takeWhile (· != '[') = []) :
    (name ++ (ranks.flatMap specifier ++ s)).takeWhile (· != '[') = name ∧
      (name ++ (ranks.flatMap specifier ++ s)).dropWhile (· != '[') =
        ranks.flatMap specifier ++ s := by
  have hall : ∀ c ∈ name, (c != '[') = true := by
    intro c hc
    rw [bne_iff_ne]
    rintro rfl
    exact hname hc
  rw [takeWhile_append_of_pos hall, dropWhile_append_of_pos hall]
  cases ranks with
  | nil =>
    have hsplit := takeWhile_append_dropWhile (p := (· != '[')) (l := s)
    rw [hs rfl, nil_append] at hsplit
    simp [hs rfl, hsplit]
  | cons rank ranks => simp [specifier]

theorem readType_specifiers (hname : '[' ∉ name) (h : ∀ rank ∈ ranks, 1 ≤ rank.toNat) :
    readType (name ++ ranks.flatMap specifier) = some ((Ty.ofName name).inArrays ranks) := by
  obtain ⟨htake, hdrop⟩ := cut_name (s := []) hname ranks fun _ => rfl
  rw [append_nil] at htake hdrop
  rw [readType, htake, hdrop, readRanks_specifiers h]
  rfl

/-- A specifier in front hides the size. -/
theorem readSize_specifiers (h : ranks ≠ []) (s : List Char) :
    readSize (ranks.flatMap specifier ++ s) = none := by
  cases ranks with
  | nil => exact absurd rfl h
  | cons rank ranks =>
    rw [flatMap_cons, append_assoc, specifier]
    cases rank.toNat - 1 <;> rfl

theorem readCreation_empty (hname : '[' ∉ name) :
    readCreation ("new ".toList ++ (name ++ (ranks.flatMap specifier ++ "[0]".toList))) =
      if ranks = [] then some (.array (Ty.ofName name) 1) else none := by
  obtain ⟨htake, hdrop⟩ := cut_name (s := "[0]".toList) hname ranks fun _ => rfl
  unfold readCreation
  rw [Text.dropLead_append]
  simp only [Option.bind_eq_bind, Option.bind_some, htake, hdrop]
  by_cases hranks : ranks = []
  · rw [hranks]
    rfl
  · have hlast : (ranks.flatMap specifier ++ "[0]".toList).getLast? = some ']' := by
      rw [getLast?_append]
      rfl
    rw [readSize_specifiers hranks, hlast, if_neg hranks]
    simp

theorem readCreation_items (hname : '[' ∉ name) (hblank : ' ' ∉ name)
    (h : ∀ rank ∈ ranks, 1 ≤ rank.toNat) (hranks : ranks ≠ []) {items : List Char}
    (hitems : items.getLast? = some '\x7d') :
    readCreation ("new ".toList ++ (name ++ (ranks.flatMap specifier ++ ' ' :: '\x7b' :: items))) =
      some ((Ty.ofName name).inArrays ranks) := by
  obtain ⟨_, hdrop⟩ := cut_name (s := ' ' :: '\x7b' :: items) hname ranks fun h => absurd h hranks
  have hspecifiers : ∀ c ∈ ranks.flatMap specifier, (c != ' ') = true := by
    intro c hc
    obtain ⟨rank, -, hc⟩ := mem_flatMap.1 hc
    simp only [specifier, mem_cons, mem_append, mem_replicate, not_mem_nil, or_false] at hc
    obtain (rfl | ⟨-, rfl⟩) | rfl := hc <;> rfl
  have hall : ∀ c ∈ name ++ ranks.flatMap specifier, (c != ' ') = true := by
    refine forall_mem_append.2 ⟨fun c hc => ?_, hspecifiers⟩
    rw [bne_iff_ne]
    rintro rfl
    exact hblank hc
  unfold readCreation
  rw [Text.dropLead_append]
  simp only [Option.bind_eq_bind, Option.bind_some, hdrop, readSize_specifiers hranks]
  rw [dropWhile_append_of_pos hspecifiers, if_pos ⟨rfl, by simp [getLast?_cons, hitems]⟩,
    ← append_assoc, takeWhile_append_of_pos hall, ← readType_specifiers hname h]
  simp

end Reading

namespace Ty

theorem core_eq {t : Ty} (h : t.ranks = []) : t.core = t := by
  cases t with
  | array => cases h
  | _ => rfl

namespace Arrayed

variable {t : Ty}

theorem ranks_pos (h : t.Arrayed) : ∀ rank ∈ t.ranks, 1 ≤ rank.toNat := by
  induction h with
  | scalar s => simp [ranks]
  | typeParam => simp [ranks]
  | array _ hrank ih => simpa [ranks] using ⟨hrank, ih⟩

/-- The name of the core is read as the core, and ends before a bracket or a blank. -/
theorem core_text (h : t.Arrayed) (i : Imports) :
    ofName (t.core.text i).1.toList = t.core ∧ '[' ∉ (t.core.text i).1.toList ∧
      ' ' ∉ (t.core.text i).1.toList := by
  induction h with
  | scalar s =>
    have hkeyword : ofName s.keyword.toList = .scalar s ∧ '[' ∉ s.keyword.toList ∧
        ' ' ∉ s.keyword.toList := by cases s <;> decide
    simpa only [core, text] using hkeyword
  | @typeParam name hkeyword hbracket hblank =>
    refine ⟨?_, hbracket, hblank⟩
    have hnone : Scalar.all.find? (·.keyword.toList == name.toList) = none := by
      simpa [String.toList_inj] using fun s _ => hkeyword s
    simp [core, text, ofName, hnone]
  | array _ _ ih => exact ih

/-- Each array puts its specifier behind those of its element. -/
theorem text_eq (h : t.Arrayed) (i : Imports) :
    (t.text i).1.toList = (t.core.text i).1.toList ++ t.ranks.reverse.flatMap specifier := by
  induction h with
  | scalar s | typeParam => simp [core, ranks]
  | @array element rank _ _ ih => simp [text, core, ranks, ih, specifier]

end Arrayed

end Ty

/-- The text of a type is read as its mirror image, and so is the creation of an array with items;
one without items can only be read if the elements are no arrays. -/
theorem array_texts_mirrored {t : Ty} (h : t.Arrayed) (i : Imports) (items : List String) :
    readType (t.text i).1.toList = some t.mirrored ∧
      readCreation (Code.arrayText (t.text i).1 items).toList =
        if items = [] then if t.ranks = [] then some (.array t 1) else none
        else some (Ty.mirrored (.array t 1)) := by
  obtain ⟨hcore, hbracket, hblank⟩ := h.core_text i
  have hpos {t : Ty} (h : t.Arrayed) : ∀ rank ∈ t.ranks.reverse, 1 ≤ rank.toNat := fun rank hr =>
    h.ranks_pos rank (mem_reverse.1 hr)
  constructor
  · rw [h.text_eq i, readType_specifiers hbracket (hpos h), hcore]
    rfl
  by_cases hitems : items = []
  · have htext : (Code.arrayText (t.text i).1 items).toList = "new ".toList ++
        ((t.core.text i).1.toList ++ (t.ranks.reverse.flatMap specifier ++ "[0]".toList)) := by
      simp [Code.arrayText, hitems, h.text_eq i]
    rw [htext, readCreation_empty hbracket, hcore]
    by_cases hranks : t.ranks = []
    · simp [hranks, hitems, Ty.core_eq hranks]
    · simp [hranks, hitems]
  · have htext : (Code.arrayText (t.text i).1 items).toList = "new ".toList ++
        ((t.core.text i).1.toList ++ ((Ty.array t 1).ranks.reverse.flatMap specifier ++
          ' ' :: '\x7b' :: (' ' :: (joinText ", " items).toList ++ " \x7d".toList))) := by
      simp [Code.arrayText, hitems, h.text_eq i, Ty.ranks, specifier]
    have hlast : (' ' :: (joinText ", " items).toList ++ " \x7d".toList).getLast? = some '\x7d' := by
      rw [getLast?_append]
      rfl
    have hone : 1 ≤ (1 : UInt8).toNat := by decide
    have hread := readCreation_items hbracket hblank (hpos (.array h hone))
      (by simp [Ty.ranks]) hlast
    rw [htext, hread, hcore, if_neg hitems]
    rfl

/-- Arrays of tables of integers. -/
def tables : Ty :=
  .array (.array (.scalar .int) 2) 1

theorem tables_arrayed : tables.Arrayed := by
  have htable : (Ty.array (.scalar .int) 2).Arrayed := .array (.scalar .int) (by decide)
  exact .array htable (by decide)

theorem tables_as_mirrored :
    tables.Arrayed ∧ readType (tables.text {}).1.toList = some tables.mirrored ∧
      readCreation (Code.arrayText (tables.text {}).1 []).toList = none :=
  ⟨tables_arrayed, (array_texts_mirrored tables_arrayed {} []).1,
    (array_texts_mirrored tables_arrayed {} []).2⟩

/-- The text of the type stands for tables of arrays; arrays of tables are written differently. -/
theorem tables_read_as_others :
    (tables.text {}).1 = "int[,][]" ∧
      readType "int[,][]".toList = some (.array (.array (.scalar .int) 1) 2) ∧
      readType "int[][,]".toList = some tables ∧
      Code.arrayText "int[]" [] = "new int[][0]" ∧ readCreation "new int[][0]".toList = none ∧
      readCreation "new int[0][]".toList = some (.array (.array (.scalar .int) 1) 1) := by
  decide

end FlowClass
