import FlowClass.Document.Decode

/-!
# Decoders that read back what was written

A decoder *restores* a value from a JSON value if it gives the value as soon as it may open as many
levels as the JSON value has. Numbers, texts, lists, choices and the fields of records are restored
here one by one; a record is described by its entries (`Json.members`), which are its fields in order
with nothing for those that are left out.
-/

namespace FlowClass

open List Option Json

variable {j : Json} {name : String} {names : List String} {r : Reading}

/-! ## Depth -/

namespace Json

theorem depth_lt_array {items : List Json} (h : j ∈ items) :
    j.depth < (array items).depth := by
  rw [depth]
  induction items with
  | nil => cases h
  | cons first items ih =>
    rw [depthItems]
    obtain rfl | h := mem_cons.1 h
    · omega
    · have := ih h
      omega

theorem depth_lt_object {members : List (String × Json)} (h : (name, j) ∈ members) :
    j.depth < (object members).depth := by
  rw [depth]
  induction members with
  | nil => cases h
  | cons first members ih =>
    rw [depthMembers]
    obtain rfl | h := mem_cons.1 h
    · dsimp only
      omega
    · have := ih h
      omega

@[simp] theorem depth_tagged (name : String) (payload : Json) :
    (tagged name payload).depth = payload.depth + 1 := by
  simp [tagged, depth, depthMembers, Nat.add_comm]

/-! ## Readability -/

@[simp] theorem isReadable_array (items : List Json) :
    (array items).isReadable = items.all isReadable := by
  rw [isReadable]
  induction items with
  | nil => rfl
  | cons j items ih => rw [isReadableItems, ih, all_cons]

@[simp] theorem isReadable_object (members : List (String × Json)) :
    (object members).isReadable = members.all (·.2.isReadable) := by
  rw [isReadable]
  induction members with
  | nil => rfl
  | cons m members ih => rw [isReadableMembers, ih, all_cons]

section Parts

variable {α : Type} (name : String) (f : α → Json)

@[simp] theorem isReadable_tagged (payload : Json) :
    (tagged name payload).isReadable = payload.isReadable := by
  simp [tagged]

@[simp] theorem isReadable_text (s : String) : (text s).isReadable = true :=
  rfl

@[simp] theorem isReadable_bool (b : Bool) : (bool b).isReadable = true :=
  rfl

@[simp] theorem isReadable_ofNat (n : Nat) : (ofNat n).isReadable = true :=
  rfl

@[simp] theorem isReadable_ofUInt64 (n : UInt64) : (ofUInt64 n).isReadable = true :=
  rfl

@[simp] theorem isReadable_ofInt64 (n : Int64) : (ofInt64 n).isReadable = true := by
  unfold ofInt64
  split <;> rfl

@[simp] theorem isReadable_ofDouble (d : Double) : (ofDouble d).isReadable = true := by
  unfold ofDouble
  split <;> rfl

@[simp] theorem isReadable_ofOption (o : Option α) :
    (ofOption f o).isReadable = o.all fun a => (f a).isReadable := by
  cases o <;> rfl

@[simp] theorem isReadable_ofList (as : List α) :
    (ofList f as).isReadable = as.all fun a => (f a).isReadable := by
  simp [ofList, Function.comp_def]

@[simp] theorem isReadable_nonempty (items : List Json) :
    (nonempty items).all isReadable = items.all isReadable := by
  cases items <;> simp [nonempty]

@[simp] theorem isReadable_ofEntries (entries : List (String × Option Json)) :
    (ofEntries entries).isReadable = entries.all (·.2.all isReadable) := by
  rw [ofEntries, isReadable_object]
  induction entries with
  | nil => rfl
  | cons entry entries ih =>
    obtain ⟨_, _ | _⟩ := entry <;> simp [members, ← ih]

end Parts

end Json

/-! ## Restoring -/

namespace Decoder

variable {α β : Type} {d : Decoder α} {a : α}

/-- The decoder gives the value of `j` whenever it may open all of it. -/
def Restores (d : Decoder α) (j : Json) (a : α) : Prop :=
  ∀ r : Reading, j.depth ≤ r.levels → d r j = some a

theorem enter_of_lt {n : Nat} (h : n < r.levels) :
    ∃ inner, enter r = some inner ∧ n ≤ inner.levels ∧ inner.insideNode = r.insideNode := by
  obtain ⟨levels, insideNode⟩ := r
  cases levels with
  | zero => cases h
  | succ levels => exact ⟨_, rfl, Nat.le_of_lt_succ h, rfl⟩

namespace Restores

/-- A decoder with more fuel than the value has levels. -/
theorem ofFuel {d : Nat → Decoder α} (h : ∀ fuel, j.depth ≤ fuel → Restores (d (fuel + 1)) j a)
    {fuel : Nat} (hfuel : j.depth < fuel) : Restores (d fuel) j a := by
  cases fuel with
  | zero => exact absurd hfuel (Nat.not_lt_zero _)
  | succ fuel => exact h fuel (Nat.le_of_lt_succ hfuel)

/-! ### Plain values -/

protected theorem text (s : String) : Restores Decoder.text (.text s) s :=
  fun _ _ => rfl

protected theorem bool (b : Bool) : Restores Decoder.bool (.bool b) b :=
  fun _ _ => rfl

protected theorem char (c : Char) : Restores Decoder.char (.text (String.singleton c)) c :=
  fun _ _ => by simp [Decoder.char]

theorem natBelow {bound n : Nat} (hn : n < bound) (hbound : bound ≤ UInt64.size) :
    Restores (Decoder.natBelow bound) (.ofNat n) n := by
  intro _ _
  have hmod : (UInt64.ofNat n).toNat = n := UInt64.toNat_ofNat_of_lt' (Nat.lt_of_lt_of_le hn hbound)
  simp only [ofNat, Decoder.natBelow, hmod, hn, if_true]

protected theorem map (f : α → β) (h : Restores d j a) : Restores (d.map f) j (f a) :=
  fun r hr => by rw [Decoder.map, h r hr, map_some]

protected theorem uint64 (n : UInt64) : Restores Decoder.uint64 (.ofUInt64 n) n :=
  fun _ _ => rfl

protected theorem uint32 (n : UInt32) : Restores Decoder.uint32 (.ofNat n.toNat) n := by
  have h := (natBelow n.toNat_lt (by decide)).map UInt32.ofNat
  rwa [UInt32.ofNat_toNat] at h

protected theorem uint16 (n : UInt16) : Restores Decoder.uint16 (.ofNat n.toNat) n := by
  have h := (natBelow n.toNat_lt (by decide)).map UInt16.ofNat
  rwa [UInt16.ofNat_toNat] at h

protected theorem uint8 (n : UInt8) : Restores Decoder.uint8 (.ofNat n.toNat) n := by
  have h := (natBelow n.toNat_lt (by decide)).map UInt8.ofNat
  rwa [UInt8.ofNat_toNat] at h

/-- A number that is not negative is written as a natural number. -/
protected theorem int64 (n : Int64) : Restores Decoder.int64 (.ofInt64 n) n := by
  unfold ofInt64
  split
  · exact fun _ _ => rfl
  · rename_i hneg
    intro _ _
    have hmsb : n.toBitVec.msb = false := by
      rw [Int64.lt_iff_toBitVec_slt] at hneg
      simpa [BitVec.slt_zero_eq_msb] using hneg
    have hsmall : 2 * n.toUInt64.toNat < UInt64.size := by
      have hlt := BitVec.toNat_lt_of_msb_false hmsb
      change 2 * n.toBitVec.toNat < 2 ^ 64
      omega
    rw [Decoder.int64, if_pos hsmall, Int64.toInt64_toUInt64]

protected theorem double {d : Double} (h : d.isFinite = true) :
    Restores Decoder.double (.ofDouble d) d := by
  rw [ofDouble, if_pos h]
  exact fun _ _ => rfl

/-! ### Choices, options and lists -/

/-- A choice is found under the name it is written as. -/
theorem oneOf {names : List (String × α)} (h : names.find? (·.1 == name) = some (name, a)) :
    Restores (Decoder.oneOf names) (.text name) a := by
  intro _ _
  simp only [Decoder.oneOf, Decoder.variant, bind_some, h]
  rfl

protected theorem optional {f : α → Json} {o : Option α}
    (h : ∀ a ∈ o, Restores d (f a) a ∧ f a ≠ .null) :
    Restores (Decoder.optional d) (.ofOption f o) o := by
  cases o with
  | none => exact fun _ _ => rfl
  | some a =>
    obtain ⟨ha, hnull⟩ := h a rfl
    intro r hr
    rw [ofOption, Decoder.optional, ha r hr, map_some]
    exact hnull

theorem all {f : β → Option α} {g : α → β} {as : List α} (h : ∀ a ∈ as, f (g a) = some a) :
    Decoder.all f (as.map g) = some as := by
  induction as with
  | nil => rfl
  | cons a as ih =>
    rw [map_cons, Decoder.all, h a mem_cons_self,
      ih fun b hb => h b (mem_cons_of_mem _ hb)]

protected theorem list {f : α → Json} {as : List α} (h : ∀ a ∈ as, Restores d (f a) a) :
    Restores (Decoder.list d) (.ofList f as) as := by
  intro r hr
  obtain ⟨inner, henter, hinner, -⟩ :=
    enter_of_lt (n := r.levels - 1) (r := r) (by rw [ofList, depth] at hr; omega)
  rw [ofList, Decoder.list, henter, bind_some]
  refine all fun a ha => h a ha inner ?_
  have := depth_lt_array (mem_map_of_mem (f := f) ha)
  rw [ofList] at hr
  omega

end Restores

/-! ## Variants -/

theorem variant_tagged {payload : Json} (h : (tagged name payload).depth ≤ r.levels) :
    ∃ inner : Reading, variant r (.tagged name payload) = some ⟨inner, name, some payload⟩ ∧
      payload.depth ≤ inner.levels := by
  rw [depth_tagged] at h
  obtain ⟨inner, henter, hinner, -⟩ := enter_of_lt (Nat.lt_of_succ_le h)
  refine ⟨inner, ?_, hinner⟩
  rw [tagged, variant, henter, map_some]

/-! ## Records -/

end Decoder

/-- The entries of a record with all its fields. -/
def Json.entries (members : List (String × Json)) : List (String × Option Json) :=
  members.map fun m => (m.1, some m.2)

namespace Json

variable {α : Type}

theorem members_some (name : String) (j : Json) (entries : List (String × Option Json)) :
    members ((name, some j) :: entries) = (name, j) :: members entries :=
  rfl

theorem ofEntries_entries (ms : List (String × Json)) : ofEntries (entries ms) = .object ms := by
  rw [ofEntries]
  congr 1
  induction ms with
  | nil => rfl
  | cons m ms ih => exact congrArg (m :: ·) ih

theorem names_entries (ms : List (String × Json)) : (entries ms).map (·.1) = ms.map (·.1) :=
  map_map

theorem mem_members {entries : List (String × Option Json)} :
    (name, j) ∈ members entries ↔ (name, some j) ∈ entries := by
  rw [members, mem_filterMap]
  constructor
  · rintro ⟨⟨_, o⟩, hmem, ho⟩
    obtain ⟨_, rfl, heq⟩ := map_eq_some_iff.1 ho
    cases heq
    exact hmem
  · exact fun hmem => ⟨_, hmem, rfl⟩

theorem names_members (entries : List (String × Option Json)) :
    ((members entries).map (·.1)).Sublist (entries.map (·.1)) := by
  induction entries with
  | nil => exact .slnil
  | cons entry entries ih =>
    obtain ⟨name, o⟩ := entry
    cases o with
    | some j => exact ih.cons_cons name
    | none => exact ih.cons name

theorem depth_lt_entry {entries : List (String × Option Json)} (h : (name, some j) ∈ entries) :
    j.depth < (ofEntries entries).depth :=
  depth_lt_object (mem_members.2 h)

/-- The items of a list that is a field. -/
theorem depth_lt_item {f : α → Json} {a : α} {as : List α} {entries : List (String × Option Json)}
    (h : (name, nonempty (as.map f)) ∈ entries) (ha : a ∈ as) :
    (f a).depth < (ofEntries entries).depth := by
  cases as with
  | nil => cases ha
  | cons first as => exact Nat.lt_trans (depth_lt_array (mem_map_of_mem ha)) (depth_lt_entry h)

/-- The items of a list that is always written. -/
theorem depth_lt_listed {f : α → Json} {a : α} {as : List α} {members : List (String × Json)}
    (h : (name, ofList f as) ∈ members) (ha : a ∈ as) : (f a).depth < (object members).depth :=
  Nat.lt_trans (depth_lt_array (mem_map_of_mem ha)) (depth_lt_object h)

/-- A field is found if it is not left out. -/
theorem find?_members {entries : List (String × Option Json)} (h : (entries.map (·.1)).Nodup)
    (name : String) :
    ((members entries).find? (·.1 == name)).map (·.2) = (entries.lookup name).join := by
  induction entries with
  | nil => rfl
  | cons entry entries ih =>
    obtain ⟨first, o⟩ := entry
    rw [map_cons, nodup_cons] at h
    rw [lookup_cons]
    by_cases hname : name = first
    · subst hname
      rw [beq_self_eq_true]
      cases o with
      | some j => rw [members_some, find?_cons_of_pos (by simp)]; rfl
      | none =>
        have hnone : (members entries).find? (·.1 == name) = none := by
          refine find?_eq_none.2 fun m hm heq => h.1 ?_
          rw [← eq_of_beq heq]
          exact mem_map_of_mem (f := (·.1)) (mem_members.1 hm)
        exact congrArg (Option.map (·.2)) hnone
    · rw [beq_eq_false_iff_ne.2 hname, ← ih h.2]
      cases o with
      | some j =>
        rw [members_some, find?_cons_of_neg]
        simpa using Ne.symm hname
      | none => rfl

end Json

namespace Decoder

theorem distinctNames_of_nodup (names : List String) {members : List (String × Json)}
    (h : (members.map (·.1)).Nodup) : distinctNames names members = true := by
  induction members with
  | nil => rfl
  | cons m members ih =>
    obtain ⟨name, j⟩ := m
    rw [map_cons, nodup_cons] at h
    have hnew : members.any (·.1 == name) = false := by
      refine any_eq_false.2 fun m hm heq => h.1 ?_
      rw [← eq_of_beq heq]
      exact mem_map_of_mem (f := (·.1)) hm
    rw [distinctNames, hnew, ih h.2, Bool.and_false]
    rfl

/-- What was read of a record with the given entries. -/
structure Record.Holds (given : Record) (entries : List (String × Option Json)) : Prop where
  named : given.positional = false
  found : ∀ name, given.find? name = (entries.lookup name).join
  fits : ∀ name j, given.find? name = some j → j.depth ≤ given.reading.levels

theorem record_members (names : List String) {entries : List (String × Option Json)}
    (hnodup : (entries.map (·.1)).Nodup) (hdepth : (ofEntries entries).depth ≤ r.levels) :
    ∃ given, record names r (.ofEntries entries) = some given ∧ given.Holds entries := by
  rw [ofEntries] at hdepth
  obtain ⟨inner, henter, hinner, -⟩ :=
    enter_of_lt (n := r.levels - 1) (r := r) (by rw [depth] at hdepth; omega)
  have hnames := hnodup.sublist (names_members entries)
  refine ⟨⟨inner, members entries, false⟩, ?_, rfl, find?_members hnodup, ?_⟩
  · rw [ofEntries, record, henter, bind_some, if_pos (distinctNames_of_nodup names hnames)]
  · intro name j hj
    obtain ⟨m, hm, rfl⟩ := map_eq_some_iff.1 hj
    have hlt : m.2.depth < (object (members entries)).depth :=
      depth_lt_object (mem_of_find?_eq_some hm)
    dsimp only
    omega

namespace Record.Holds

variable {α : Type} {given : Record} {entries : List (String × Option Json)} (name : String)
  {d : Decoder α} {f : α → Json}

variable (h : given.Holds entries) {o : Option α}
include h

theorem find?_eq {o : Option Json} (hname : entries.lookup name = some o) :
    given.find? name = o := by
  rw [h.found, hname, join_some]

section

variable (hname : entries.lookup name = some (some j))
include hname

theorem required {a : α} (ha : Restores d j a) : given.required name d = some a := by
  have hfind := h.find?_eq name hname
  rw [Record.required, hfind, bind_some, ha _ (h.fits name j hfind)]

theorem withDefault {a default : α} (ha : Restores d j a) :
    given.withDefault name default d = some a := by
  have hfind := h.find?_eq name hname
  rw [Record.withDefault, hfind]
  exact ha _ (h.fits name j hfind)

theorem nullable (ho : Restores (Decoder.optional d) j o) : given.nullable name d = some o := by
  have hfind := h.find?_eq name hname
  rw [Record.nullable, hfind]
  exact ho _ (h.fits name j hfind)

end

/-- An optional field that is left out when there is nothing in it. -/
theorem optional (hname : entries.lookup name = some (o.map f))
    (ho : ∀ a ∈ o, Restores d (f a) a ∧ f a ≠ .null) : given.optional name d = some o := by
  cases o with
  | none => rw [Record.optional, Record.withDefault, h.find?_eq name hname]; rfl
  | some a => exact h.withDefault name hname (.optional (f := f) ho)

/-- A list that is left out when it is empty. -/
theorem list {as : List α}
    (hname : entries.lookup name = some (nonempty (as.map f))) (has : ∀ a ∈ as, Restores d (f a) a) :
    given.list name d = some as := by
  cases as with
  | nil => rw [Record.list, Record.withDefault, h.find?_eq name hname]; rfl
  | cons a as => exact h.withDefault name hname (.list has)

/-- An optional field that is always written. -/
theorem option (hname : entries.lookup name = some (some (.ofOption f o)))
    (ho : ∀ a ∈ o, Restores d (f a) a ∧ f a ≠ .null) : given.optional name d = some o :=
  h.withDefault name hname (.optional ho)

/-- A list that is always written. -/
theorem items {as : List α}
    (hname : entries.lookup name = some (some (.ofList f as))) (has : ∀ a ∈ as, Restores d (f a) a) :
    given.list name d = some as :=
  h.withDefault name hname (.list has)

end Record.Holds

/-! ## Decoders of records and variants -/

namespace Restores

variable {α β : Type} {a : α}

/-- A decoder that opens a record restores what it makes of the fields. -/
theorem record {k : Record → Option α} {entries : List (String × Option Json)}
    (hnodup : (entries.map (·.1)).Nodup) (hk : ∀ given, given.Holds entries → k given = some a) :
    Restores (fun r j => (Decoder.record names r j).bind k) (.ofEntries entries) a := by
  intro r hr
  obtain ⟨given, hopen, hgiven⟩ := record_members names hnodup hr
  exact bind_eq_some_iff.2 ⟨given, hopen, hk given hgiven⟩

/-- A record with all its fields. -/
theorem object {k : Record → Option α} {members : List (String × Json)}
    (hnodup : (members.map (·.1)).Nodup)
    (hk : ∀ given, given.Holds (entries members) → k given = some a) :
    Restores (fun r j => (Decoder.record names r j).bind k) (.object members) a := by
  rw [← ofEntries_entries]
  exact record (names_entries members ▸ hnodup) hk

section Variants

variable {k : Variant → Option α} {name : String}

/-- A variant with one value. -/
theorem carried {payload : Json} {e : Decoder β} {b : β} {f : β → α}
    (hk : ∀ inner, k ⟨inner, name, some payload⟩ = (e inner payload).map f)
    (h : Restores e payload b) :
    Restores (fun r j => (variant r j).bind k) (.tagged name payload) (f b) := by
  intro r hr
  obtain ⟨inner, hopen, hinner⟩ := variant_tagged hr
  exact bind_eq_some_iff.2 ⟨_, hopen, by rw [hk, h inner hinner, map_some]⟩

/-- A variant with fields. -/
theorem fields {m : Record → Option α} {members : List (String × Json)}
    (hk : ∀ inner j, k ⟨inner, name, some j⟩ = (Decoder.record names inner j).bind m)
    (hnodup : (members.map (·.1)).Nodup)
    (hm : ∀ given, given.Holds (entries members) → m given = some a) :
    Restores (fun r j => (variant r j).bind k) (.tagged name (.object members)) a :=
  carried (f := id) (fun inner => by rw [hk, Option.map_id_fun, id]) (object hnodup hm)

end Variants

end Restores

end Decoder

end FlowClass
