import FlowClass.Proofs.Symbol.Table

/-!
# Uses of variables

A sequence of calls enters variables in a table and uses them in bodies (`SymbolTable.calls`). Where a
variable lives after it follows from the bodies that used the variable (`variableAt?_calls` and
`Storage.Fits`): neither the order nor the number of the uses matters (`Storage.usedByAll_congr`).
-/

namespace FlowClass

open List Storage

variable {storage : Storage} {homes : List BodyId} {t : SymbolTable × Names}
  {handle : VariableHandle}

/-! ## Storage -/

namespace Storage

/-- Where a variable with the given homes lives. -/
def Fits (homes : List BodyId) : Storage → Prop
  | .unbound => homes = []
  | .localTo body => body ∈ homes ∧ ∀ home ∈ homes, home = body
  | .field => ∃ home ∈ homes, ∃ other ∈ homes, home ≠ other

section

variable (h : storage.Fits homes)
include h

theorem Fits.usedBy (body : BodyId) : (storage.usedBy body).Fits (body :: homes) := by
  cases storage with
  | unbound =>
    cases h
    exact ⟨mem_cons_self, fun _ hhome => mem_singleton.1 hhome⟩
  | localTo owner =>
    rw [usedBy]
    by_cases hsame : owner = body
    · rw [if_pos hsame]
      exact ⟨mem_cons_of_mem _ h.1, forall_mem_cons.2 ⟨hsame.symm, h.2⟩⟩
    · rw [if_neg hsame]
      exact ⟨owner, mem_cons_of_mem _ h.1, body, mem_cons_self, hsame⟩
  | field =>
    obtain ⟨home, hhome, other, hmem, hne⟩ := h
    exact ⟨home, mem_cons_of_mem _ hhome, other, mem_cons_of_mem _ hmem, hne⟩

theorem Fits.congr {homes' : List BodyId} (hsame : homes' = homes) : storage.Fits homes' :=
  hsame ▸ h

theorem Fits.localTo_iff {body : BodyId} :
    storage = .localTo body ↔ body ∈ homes ∧ ∀ home ∈ homes, home = body := by
  refine ⟨fun hlocal => by rw [hlocal] at h; exact h, fun ⟨hmem, hall⟩ => ?_⟩
  cases storage with
  | unbound =>
    rw [Fits] at h
    rw [h] at hmem
    cases hmem
  | localTo owner => rw [hall owner h.1]
  | field =>
    obtain ⟨home, hhome, other, hother, hne⟩ := h
    exact absurd ((hall home hhome).trans (hall other hother).symm) hne

theorem Fits.field_iff : storage = .field ↔ ∃ home ∈ homes, ∃ other ∈ homes, home ≠ other := by
  refine ⟨fun hfield => by rw [hfield] at h; exact h, fun ⟨home, hhome, other, hother, hne⟩ => ?_⟩
  cases storage with
  | unbound =>
    rw [Fits] at h
    rw [h] at hhome
    cases hhome
  | localTo owner => exact absurd ((h.2 home hhome).trans (h.2 other hother).symm) hne
  | field => rfl

/-- Homes leave no choice. -/
theorem Fits.eq {homes' : List BodyId} {storage' : Storage}
    (h' : storage'.Fits homes') (hsame : ∀ body, body ∈ homes' ↔ body ∈ homes) :
    storage' = storage := by
  cases storage with
  | unbound =>
    obtain rfl : homes = [] := h
    obtain rfl := eq_nil_iff_forall_not_mem.2 fun body hmem =>
      not_mem_nil ((hsame body).1 hmem)
    cases storage' with
    | unbound => rfl
    | localTo body => exact absurd h'.1 not_mem_nil
    | field =>
      obtain ⟨home, hhome, _⟩ := h'
      exact absurd hhome not_mem_nil
  | localTo body =>
    exact h'.localTo_iff.2 ⟨(hsame _).2 h.1, fun home hhome => h.2 home ((hsame _).1 hhome)⟩
  | field =>
    obtain ⟨home, hhome, other, hother, hne⟩ := h
    exact h'.field_iff.2 ⟨home, (hsame _).2 hhome, other, (hsame _).2 hother, hne⟩

/-- Where a variable lives after some uses. -/
def usedByAll (storage : Storage) (users : List BodyId) : Storage :=
  users.foldl (fun storage body => storage.usedBy body) storage

theorem Fits.usedByAll (users : List BodyId) :
    (storage.usedByAll users).Fits (users.reverse ++ homes) := by
  induction users generalizing storage homes with
  | nil => exact h
  | cons body users ih => exact (ih (h.usedBy body)).congr (by simp)

end

theorem usedByAll_field (users : List BodyId) : field.usedByAll users = .field := by
  induction users with
  | nil => rfl
  | cons body users ih => exact ih

/-- It matters which bodies use a variable, and nothing else. -/
theorem usedByAll_congr (storage : Storage) {users users' : List BodyId}
    (h : ∀ body, body ∈ users' ↔ body ∈ users) :
    storage.usedByAll users' = storage.usedByAll users := by
  have hfits (homes : List BodyId) (hstorage : storage.Fits homes) :
      storage.usedByAll users' = storage.usedByAll users :=
    (hstorage.usedByAll users).eq (hstorage.usedByAll users') (by simp [h])
  cases storage with
  | unbound => exact hfits [] rfl
  | localTo body => exact hfits [body] ⟨by simp, by simp⟩
  | field => rw [usedByAll_field, usedByAll_field]

/-- A variable that is used has a place. -/
theorem usedByAll_ne_unbound {users : List BodyId} (h : users ≠ []) :
    storage.usedByAll users ≠ .unbound := by
  obtain ⟨users, body, rfl⟩ := eq_nil_or_concat users |>.resolve_left h
  rw [usedByAll, concat_eq_append, foldl_append]
  show usedBy body _ ≠ .unbound
  unfold usedBy
  split
  · exact nofun
  · split <;> exact nofun
  · exact nofun

end Storage

/-! ## Calls -/

/-- A call of the table of symbols that concerns variables. -/
inductive VariableCall where
  | register (v : VariableSymbol)
  | use (handle : VariableHandle) (body : BodyId)

/-- The body from which a call uses a variable. -/
def VariableCall.userOf? (handle : VariableHandle) : VariableCall → Option BodyId
  | .register _ => none
  | .use other body => if other = handle then some body else none

/-- The bodies that use a variable, in order. -/
def VariableHandle.users (handle : VariableHandle) (cs : List VariableCall) : List BodyId :=
  cs.filterMap (VariableCall.userOf? handle)

def VariableSymbol.usedBy (v : VariableSymbol) (body : BodyId) : VariableSymbol :=
  { v with storage := v.storage.usedBy body }

namespace SymbolTable

/-- The table and the names after a call; a use of a variable that is not there does nothing. -/
def call (t : SymbolTable × Names) : VariableCall → SymbolTable × Names
  | .register v => (t.1.registerVariable t.2 v).2
  | .use handle body => (((t.1.useVariable handle body).map Prod.snd).getD t.1, t.2)

def calls (t : SymbolTable × Names) (cs : List VariableCall) : SymbolTable × Names :=
  cs.foldl call t

def withUse (t : SymbolTable) (handle : VariableHandle) (body : BodyId) : SymbolTable :=
  { t with vars := t.vars.modify handle.index (·.usedBy body) }

theorem keys_withUse (t : SymbolTable) (handle : VariableHandle) (body : BodyId) :
    (t.withUse handle body).keys = t.keys :=
  map_modify (g := VariableSymbol.key) (fun v => by rfl) _ _

theorem call_use (t : SymbolTable × Names) (handle : VariableHandle) (body : BodyId) :
    call t (.use handle body) = (t.1.withUse handle body, t.2) := by
  rw [call, useVariable, variableAt?]
  by_cases hknown : handle.index < t.1.vars.length
  · rw [getElem?_eq_getElem hknown]
    rfl
  · have hunknown := Nat.le_of_not_lt hknown
    have hsame : t.1.withUse handle body = t.1 := by rw [withUse, modify_eq_self hunknown]
    rw [hsame, getElem?_eq_none hunknown]
    rfl

/-! ## One variable -/

theorem variableAt?_call {w : VariableSymbol} (hw : t.1.variableAt? handle = some w)
    (c : VariableCall) : (call t c).1.variableAt? handle =
      some { w with storage := w.storage.usedByAll (handle.users [c]) } := by
  cases c with
  | register v =>
    have hlt := (List.getElem?_eq_some_iff.1 hw).1
    rw [call]
    obtain hsame | ⟨declNames, hnew⟩ := t.1.registerVariable_cases t.2 v
    · rw [hsame]
      exact hw
    · rw [hnew]
      exact (getElem?_append_left hlt).trans hw
  | use other body =>
    rw [variableAt?] at hw
    rw [call_use, variableAt?, withUse, getElem?_modify, hw]
    by_cases hsame : other = handle
    · simp [VariableHandle.users, VariableCall.userOf?, hsame, VariableSymbol.usedBy,
        usedByAll]
    · have hindex : other.index ≠ handle.index := fun h => hsame (by cases other; cases h; rfl)
      simp [VariableHandle.users, VariableCall.userOf?, hsame, hindex, usedByAll]

/-- Calls move a variable to where its users say, and change nothing else of it. -/
theorem variableAt?_calls {w : VariableSymbol} (hw : t.1.variableAt? handle = some w)
    (cs : List VariableCall) : (calls t cs).1.variableAt? handle =
      some { w with storage := w.storage.usedByAll (handle.users cs) } := by
  induction cs generalizing t w with
  | nil => exact hw
  | cons c cs ih =>
    refine (ih (variableAt?_call hw c)).trans ?_
    rw [VariableHandle.users, VariableHandle.users, usedByAll, usedByAll,
      ← foldl_append, ← filterMap_append]
    rfl

/-! ## One key -/

theorem variableHandle?_eq (t : SymbolTable) (key : SymbolKey) :
    t.variableHandle? key = (t.keys.findIdx? (· = key)).map VariableHandle.mk := by
  rw [variableHandle?, keys, findIdx?_map]
  rfl

/-- The handle of a key stays. -/
theorem variableHandle?_call {key : SymbolKey} (h : t.1.variableHandle? key = some handle)
    (c : VariableCall) : (call t c).1.variableHandle? key = some handle := by
  have hkeys : t.1.keys <+: (call t c).1.keys := by
    cases c with
    | register v => exact t.1.keys_prefix_registerVariable t.2 v
    | use other body =>
      rw [call_use]
      exact (t.1.keys_withUse other body).symm ▸ prefix_rfl
  obtain ⟨later, hlater⟩ := hkeys
  rw [variableHandle?_eq] at h ⊢
  obtain ⟨i, hi, hhandle⟩ := Option.map_eq_some_iff.1 h
  rw [← hlater, findIdx?_append, hi, Option.some_or, Option.map_some, hhandle]

theorem variableHandle?_calls {key : SymbolKey} (h : t.1.variableHandle? key = some handle)
    (cs : List VariableCall) : (calls t cs).1.variableHandle? key = some handle := by
  induction cs generalizing t with
  | nil => exact h
  | cons c cs ih => exact ih (variableHandle?_call h c)

theorem variableHandle?_registerVariable (t : SymbolTable) (names : Names) (v : VariableSymbol) :
    (t.registerVariable names v).2.1.variableHandle? v.key = some (t.registerVariable names v).1 := by
  by_cases hknown : v.key ∈ t.keys
  · obtain ⟨handle, hhandle⟩ := Option.isSome_iff_exists.1 (variableHandle?_isSome.2 hknown)
    rw [registerVariable, hhandle]
    exact hhandle
  · obtain ⟨declNames, hnew⟩ := registerVariable_new hknown names
    have hnone : t.keys.findIdx? (· = v.key) = none :=
      findIdx?_eq_none_iff.2 fun key hkey => decide_eq_false fun h => hknown (h ▸ hkey)
    rw [hnew, variableHandle?_eq, keys, map_append, findIdx?_append, ← keys, hnone]
    simp [keys]

end SymbolTable

open SymbolTable

/-- Where a variable lives after any calls follows from the bodies that used it, and from where it
lived before, and from nothing else: the uses may come in another order. A key keeps its handle,
whatever is entered under it later, and a new variable starts as it is described. A variable that is
used is a field, or a local of one body. -/
theorem storage_follows_uses (t : SymbolTable × Names) (cs : List VariableCall)
    (handle : VariableHandle) (w : VariableSymbol) (hw : t.1.variableAt? handle = some w) :
    (∃ storage, (calls t cs).1.variableAt? handle = some { w with storage } ∧
      (w.storage = .unbound →
        (storage = .unbound ↔ handle.users cs = []) ∧
        (∀ body, storage = .localTo body ↔
          body ∈ handle.users cs ∧ ∀ user ∈ handle.users cs, user = body) ∧
        (storage = .field ↔ ∃ user ∈ handle.users cs, ∃ other ∈ handle.users cs, user ≠ other)) ∧
      (∀ body, w.storage = .localTo body →
        (storage = .field ↔ ∃ user ∈ handle.users cs, user ≠ body) ∧
        (storage = .localTo body ↔ ∀ user ∈ handle.users cs, user = body)) ∧
      (w.storage = .field → storage = .field) ∧
      (handle.users cs ≠ [] →
        ({ w with storage } ∈ (calls t cs).1.fields ∧
          ∀ body, { w with storage } ∉ (calls t cs).1.localsOf body) ∨
        { w with storage } ∉ (calls t cs).1.fields ∧
          ∃ body, ∀ other, { w with storage } ∈ (calls t cs).1.localsOf other ↔ other = body)) ∧
    (∀ cs', (∀ body, body ∈ handle.users cs' ↔ body ∈ handle.users cs) →
      (calls t cs').1.variableAt? handle = (calls t cs).1.variableAt? handle) ∧
    ∀ v, let entered := (calls t cs).1.registerVariable (calls t cs).2 v
      (v.key ∉ (calls t cs).1.keys → entered.2.1.variableAt? entered.1 =
        some { v with name := ((calls t cs).2.generate v.name).1 }) ∧
      ∀ cs' v', v'.key = v.key →
        (calls entered.2 cs').1.registerVariable (calls entered.2 cs').2 v' =
          (entered.1, calls entered.2 cs') := by
  refine ⟨⟨_, variableAt?_calls hw cs, fun hunbound => ?_, fun body hlocal => ?_, fun hfield => ?_,
    fun hused => ?_⟩, fun cs' hsame => ?_, fun v => ⟨fun hnew => ?_, fun cs' v' hkey => ?_⟩⟩
  · have hfits := (show w.storage.Fits [] from hunbound ▸ rfl).usedByAll (handle.users cs)
    refine ⟨⟨fun h => ?_, fun h => ?_⟩, fun body => ?_, ?_⟩
    · exact not_imp_not.1 Storage.usedByAll_ne_unbound h
    · rw [h]
      exact hunbound
    · simpa using hfits.localTo_iff
    · simpa using hfits.field_iff
  -- a local counts as used by the body it is in
  · have hfits := (show w.storage.Fits [body] from hlocal ▸ ⟨by simp, by simp⟩).usedByAll
      (handle.users cs)
    refine ⟨hfits.field_iff.trans ⟨?_, ?_⟩, hfits.localTo_iff.trans (by simp [or_imp])⟩
    · rintro ⟨user, huser, other, hother, hne⟩
      by_contra hall
      simp only [not_exists, not_and, not_not] at hall
      simp only [List.mem_append, List.mem_reverse, List.mem_singleton] at huser hother
      have hbody (user : BodyId) (h : user ∈ handle.users cs ∨ user = body) : user = body :=
        h.elim (hall user) id
      exact hne ((hbody user huser).trans (hbody other hother).symm)
    · rintro ⟨user, huser, hne⟩
      exact ⟨user, by simp [huser], body, by simp, hne⟩
  · rw [hfield, Storage.usedByAll_field]
  · have hmem := List.mem_of_getElem? (variableAt?_calls hw cs)
    have hplace : w.storage.usedByAll _ ≠ _ := Storage.usedByAll_ne_unbound hused
    simp only [fields, localsOf, List.mem_filter, hmem, true_and, decide_eq_true_eq]
    cases hstorage : w.storage.usedByAll (handle.users cs) with
    | unbound => exact absurd hstorage hplace
    | localTo body => simp [eq_comm]
    | field => simp
  · rw [variableAt?_calls hw, variableAt?_calls hw, w.storage.usedByAll_congr hsame]
  · obtain ⟨declNames, hentered⟩ := registerVariable_new hnew (calls t cs).2
    rw [hentered]
    exact List.getElem?_concat_length
  · have hhandle := variableHandle?_calls
      ((calls t cs).1.variableHandle?_registerVariable (calls t cs).2 v) cs'
    rw [registerVariable, hkey, hhandle]

/-- A variable without a place. -/
def waiting : VariableSymbol := { key := .node ⟨1⟩, name := "x", type := .void }

/-- Two bodies use it, and it becomes a field. -/
theorem waiting_used_twice :
    let t : SymbolTable × Names := ({ vars := [waiting] }, {})
    t.1.variableAt? ⟨0⟩ = some waiting ∧
      (calls t [.use ⟨0⟩ ⟨1⟩, .use ⟨0⟩ ⟨2⟩]).1.variableAt? ⟨0⟩ =
        some { waiting with storage := .field } := by
  intro t
  obtain ⟨⟨storage, hlast, hunbound, _⟩, _⟩ :=
    storage_follows_uses t [.use ⟨0⟩ ⟨1⟩, .use ⟨0⟩ ⟨2⟩] ⟨0⟩ waiting rfl
  have hfield : storage = .field :=
    (hunbound rfl).2.2.2 ⟨⟨1⟩, by decide, ⟨2⟩, by decide, by decide⟩
  exact ⟨rfl, hfield ▸ hlast⟩

end FlowClass
