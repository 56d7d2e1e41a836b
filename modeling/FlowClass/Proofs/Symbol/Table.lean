import FlowClass.Symbol.Table
import FlowClass.Proofs.Model.Ports
import Mathlib.Data.List.Basic

/-!
# Entering symbols

What entering a variable, a method or a property does to the table of symbols, and what it leaves
alone. Each operation has one lemma that lists its outcomes.
-/

namespace FlowClass

open List ParamSymbol

variable {handle : MethodHandle} {t t' : SymbolTable} {m : MethodSymbol} {key : Option SymbolKey}
  {names names' : Names}

/-- The declaration that a key stands for. -/
def SymbolKey.decl? : SymbolKey → Option DeclId
  | .decl id => some id
  | _ => none

/-- A change of one member that a function does not see. -/
theorem map_modify {α β : Type} {f : α → α} {g : α → β} (h : ∀ a, g (f a) = g a) (l : List α)
    (i : Nat) : (l.modify i f).map g = l.map g := by
  apply ext_getElem?
  intro j
  rw [getElem?_map, getElem?_map, getElem?_modify]
  cases l[j]? with
  | none => rfl
  | some a =>
    simp only [Option.map_eq_map, Option.map_some]
    split
    · rw [h a]
    · rfl

namespace SymbolTable

/-! ## Variables -/

/-- The keys under which variables are entered, in order. -/
def keys (t : SymbolTable) : List SymbolKey :=
  t.vars.map VariableSymbol.key

/-- The variables, each with its key and its name. -/
def varNames (t : SymbolTable) : List (SymbolKey × String) :=
  t.vars.map fun v => (v.key, v.name)

theorem variableHandle?_isSome {key : SymbolKey} :
    (t.variableHandle? key).isSome = true ↔ key ∈ t.keys := by
  simp only [variableHandle?, Option.isSome_map, findIdx?_isSome, any_eq_true, keys,
    mem_map, decide_eq_true_eq]

theorem keys_nameDecl (t : SymbolTable) (key : SymbolKey) (name : String) :
    (t.nameDecl key name).keys = t.keys := by
  unfold nameDecl
  split <;> rfl

/-- A variable is entered once, after the others. -/
theorem keys_registerVariable (t : SymbolTable) (names : Names) (v : VariableSymbol) :
    (t.registerVariable names v).2.1.keys = if v.key ∈ t.keys then t.keys else t.keys ++ [v.key] := by
  unfold registerVariable
  cases hhandle : t.variableHandle? v.key with
  | some handle =>
    have hmem : v.key ∈ t.keys := variableHandle?_isSome.1 (by rw [hhandle]; rfl)
    rw [if_pos hmem]
  | none =>
    have hmem : v.key ∉ t.keys := fun h => by
      have hsome := variableHandle?_isSome.2 h
      rw [hhandle] at hsome
      cases hsome
    rw [if_neg hmem, ← keys_nameDecl t v.key (names.generate v.name).1]
    simp [keys]

theorem keys_prefix_registerVariable (t : SymbolTable) (names : Names) (v : VariableSymbol) :
    t.keys <+: (t.registerVariable names v).2.1.keys := by
  rw [keys_registerVariable]
  split
  · exact prefix_rfl
  · exact prefix_append _ _

/-- The handle of a variable leads to its key. -/
theorem key_registerVariable (t : SymbolTable) (names : Names) (v : VariableSymbol) :
    (t.registerVariable names v).2.1.keys[(t.registerVariable names v).1.index]? = some v.key := by
  unfold registerVariable
  cases hhandle : t.variableHandle? v.key with
  | some handle =>
    obtain ⟨i, hi, rfl⟩ := Option.map_eq_some_iff.1 hhandle
    obtain ⟨hlt, hkey, _⟩ := findIdx?_eq_some_iff_getElem.1 hi
    simp [keys, hlt, of_decide_eq_true hkey]
  | none => simp [keys]

/-- A use of a variable changes nothing but where variables live. -/
theorem useVariable_same {handle : VariableHandle} {body : BodyId} {name : String}
    (h : t.useVariable handle body = some (name, t')) :
    t' = { t with vars := t'.vars } ∧ t'.varNames = t.varNames := by
  obtain ⟨v, _, h⟩ := Option.map_eq_some_iff.1 h
  cases h
  exact ⟨rfl, map_modify (fun v => by rfl) _ _⟩

/-- A new variable is entered after the others, under a new name. -/
theorem registerVariable_new {v : VariableSymbol} (hnew : v.key ∉ t.keys) (names : Names) :
    ∃ declNames, t.registerVariable names v =
      (⟨t.vars.length⟩,
        { t with declNames, vars := t.vars ++ [{ v with name := (names.generate v.name).1 }] },
        (names.generate v.name).2) := by
  have hnone : t.variableHandle? v.key = none :=
    Option.not_isSome_iff_eq_none.1 (mt variableHandle?_isSome.1 hnew)
  rw [registerVariable, hnone]
  cases hkey : v.key <;> simp only [nameDecl] <;> exact ⟨_, rfl⟩

/-- A variable is known, or it is entered under a new name after the others. -/
theorem registerVariable_cases (t : SymbolTable) (names : Names) (v : VariableSymbol) :
    (t.registerVariable names v).2 = (t, names) ∨
      ∃ declNames, (t.registerVariable names v).2 =
        ({ t with declNames, vars := t.vars ++ [{ v with name := (names.generate v.name).1 }] },
          (names.generate v.name).2) := by
  by_cases hknown : v.key ∈ t.keys
  · obtain ⟨handle, hhandle⟩ := Option.isSome_iff_exists.1 (variableHandle?_isSome.2 hknown)
    rw [registerVariable, hhandle]
    exact .inl rfl
  · obtain ⟨declNames, hnew⟩ := registerVariable_new hknown names
    exact .inr ⟨declNames, congrArg Prod.snd hnew⟩

theorem varNames_registerVariable (t : SymbolTable) (names : Names) (v : VariableSymbol) :
    t.varNames <+: (t.registerVariable names v).2.1.varNames := by
  obtain hsame | ⟨declNames, hnew⟩ := t.registerVariable_cases names v
  · exact hsame ▸ prefix_rfl
  · rw [hnew]
    exact (prefix_append _ _).map _

/-- A variable has no part in methods, properties and bodies. -/
theorem registerVariable_same (t : SymbolTable) (names : Names) (v : VariableSymbol) :
    (t.registerVariable names v).2.1.methodKeys = t.methodKeys ∧
      (t.registerVariable names v).2.1.methods = t.methods ∧
      (t.registerVariable names v).2.1.declBodies = t.declBodies ∧
      (t.registerVariable names v).2.1.bodies = t.bodies ∧
      (t.registerVariable names v).2.1.properties = t.properties ∧
      (t.registerVariable names v).2.1.constructors = t.constructors := by
  obtain hsame | ⟨declNames, hnew⟩ := t.registerVariable_cases names v
  · rw [hsame]
    exact ⟨rfl, rfl, rfl, rfl, rfl, rfl⟩
  · rw [hnew]
    exact ⟨rfl, rfl, rfl, rfl, rfl, rfl⟩

/-! ## Contributions -/

/-- The code that was contributed to a body. -/
def added (t : SymbolTable) (body : BodyId) : List Contribution :=
  ((t.body? body).map Body.contributions).getD []

theorem mem_added {body : BodyId} {c : Contribution} :
    c ∈ t.added body ↔ ∃ b, t.body? body = some b ∧ c ∈ b.contributions := by
  unfold added
  cases t.body? body <;> simp

/-- New bodies come after the others. -/
theorem added_append {new : List Body} (h : t'.bodies = t.bodies ++ new) (body : BodyId) :
    t.added body ⊆ t'.added body := by
  intro c hc
  obtain ⟨b, hb, hc⟩ := mem_added.1 hc
  refine mem_added.2 ⟨b, ?_, hc⟩
  rw [body?, h, getElem?_append_left (List.getElem?_eq_some_iff.1 hb).1]
  exact hb

theorem added_setBodyText (t : SymbolTable) (body : BodyId) (text : String) (other : BodyId) :
    (t.setBodyText body text).added other = t.added other := by
  unfold added body? setBodyText
  rw [← getElem?_map, ← getElem?_map, map_modify fun _ => by rfl]

theorem body?_contribute (t : SymbolTable) (home : BodyId) (c : Contribution) (body : BodyId) :
    (t.contribute home c).body? body = (t.body? body).map fun b =>
      if home.index = body.index then { b with contributions := pushNew b.contributions c } else b := by
  simp only [body?, contribute, getElem?_modify]
  rfl

/-- What was contributed stays. -/
theorem added_contribute (t : SymbolTable) (home : BodyId) (c : Contribution) (body : BodyId) :
    t.added body ⊆ (t.contribute home c).added body := by
  intro c' hc
  obtain ⟨b, hb, hc⟩ := mem_added.1 hc
  rw [mem_added, body?_contribute, hb]
  refine ⟨_, rfl, ?_⟩
  split
  · exact mem_pushNew.2 (.inl hc)
  · exact hc

theorem mem_added_contribute (t : SymbolTable) {home : BodyId} (c : Contribution)
    (hhome : home.index < t.bodies.length) : c ∈ (t.contribute home c).added home := by
  rw [mem_added, body?_contribute, body?, getElem?_eq_getElem hhome, Option.map_some, if_pos rfl]
  exact ⟨_, rfl, mem_pushNew.2 (.inr rfl)⟩

/-! ## Methods -/

/-- A method is refused, known by its key, merged with one of the same signature, or entered. -/
theorem registerMethod_cases (t : SymbolTable) (names : Names) (key : Option SymbolKey)
    (m : MethodSymbol) :
    t.registerMethod names key m = .error (.methodReturnTypes m.base) ∨
      (∃ handle, (key.bind fun k => t.methodKeys.lookup k) = some handle ∧
        t.registerMethod names key m = .ok (handle, t, names)) ∨
      (∃ handle other, t.method? handle = some other ∧ other.base = m.base ∧
        (signature other.params = signature m.params ∧ other.returnType = m.returnType) ∧
        t.registerMethod names key m = .ok (handle, t.keyMethod key handle, names)) ∨
      (∀ other ∈ t.methods, other.base = m.base →
        signature other.params ≠ signature m.params) ∧
        t.registerMethod names key m = .ok (t.addMethod names key m) := by
  unfold registerMethod
  split
  · rename_i handle hkey
    exact .inr (.inl ⟨handle, hkey, rfl⟩)
  · dsimp only
    split
    · rename_i index other hindex hfind
      split
      · rename_i htype
        have hsame := find?_some hfind
        simp only [Bool.and_eq_true, decide_eq_true_eq] at hsame
        rw [find?_eq_bind_findIdx?_getElem?, hindex] at hfind
        exact .inr (.inr (.inl ⟨⟨index⟩, other, hfind, hsame.1, ⟨hsame.2, htype⟩, rfl⟩))
      · exact .inl rfl
    · rename_i hnone
      refine .inr (.inr (.inr ⟨fun other hother hbase hparams => ?_, rfl⟩))
      have hany : t.methods.any (fun other => other.base = m.base &&
          signature other.params = signature m.params) = true :=
        any_eq_true.2 ⟨other, hother, by simp [hbase, hparams]⟩
      obtain ⟨found, hfound⟩ :=
        Option.isSome_iff_exists.1 (find?_isSome.2 (any_eq_true.1 hany))
      obtain ⟨index, hindex⟩ := Option.isSome_iff_exists.1 (findIdx?_isSome.trans hany)
      exact hnone index found hindex hfound

/-- A method is entered after the others, with a new body. -/
theorem addMethod_eq (t : SymbolTable) (names : Names) (key : Option SymbolKey) (m : MethodSymbol) :
    t.addMethod names key m =
      (⟨t.methods.length⟩,
        { t with
          bodies := t.bodies ++ [{}]
          methods := t.methods ++
            [{ m with name := (t.methodName names m.base).1, body := ⟨t.bodies.length⟩ }]
          methodKeys := key.toList.map (fun key => (key, ⟨t.methods.length⟩)) ++ t.methodKeys
          declNames := (key.bind SymbolKey.decl?).toList.map
            (fun id => (id, (t.methodName names m.base).1)) ++ t.declNames
          declBodies := (key.bind SymbolKey.decl?).toList.map
            (fun id => (id, ⟨t.bodies.length⟩)) ++ t.declBodies },
        (t.methodName names m.base).2) := by
  cases key with
  | none => rfl
  | some key => cases key <;> rfl

/-- A method that is not refused is known by its key, merged with one of the same signature, or
entered. -/
theorem registerMethod_ok (h : t.registerMethod names key m = .ok (handle, t', names')) :
    ((key.bind fun k => t.methodKeys.lookup k) = some handle ∧ t' = t ∧ names' = names) ∨
      (∃ other, t.method? handle = some other ∧ other.base = m.base ∧
        (signature other.params = signature m.params ∧ other.returnType = m.returnType) ∧
        t' = t.keyMethod key handle ∧ names' = names) ∨
      (∀ other ∈ t.methods, other.base = m.base →
        signature other.params ≠ signature m.params) ∧
        t.addMethod names key m = (handle, t', names') := by
  obtain hrun | ⟨_, hkey, hrun⟩ | ⟨_, other, hother, hbase, hparams, hrun⟩ | ⟨hnew, hrun⟩ :=
    t.registerMethod_cases names key m <;> rw [hrun] at h
  · cases h
  · cases h
    exact .inl ⟨hkey, rfl, rfl⟩
  · cases h
    exact .inr (.inl ⟨other, hother, hbase, hparams, rfl, rfl⟩)
  · exact .inr (.inr ⟨hnew, Except.ok.inj h⟩)

/-- No method that is entered is lost. -/
theorem registerMethod_lost {key : SymbolKey}
    (h : t.registerMethod names (some key) m = .ok (handle, t', names'))
    (hlost : t'.method? handle = none) : t' = t ∧ names' = names := by
  obtain ⟨_, hsame⟩ | ⟨other, hother, _, _, rfl, _⟩ | ⟨_, hadded⟩ := registerMethod_ok h
  · exact hsame
  · cases hother.symm.trans hlost
  · rw [addMethod_eq] at hadded
    cases hadded
    cases getElem?_concat_length.symm.trans hlost

/-- The key of a method is known, or gets the handle of one that is there or that is entered. -/
theorem registerMethod_keyed {key : SymbolKey}
    (h : t.registerMethod names (some key) m = .ok (handle, t', names')) :
    (t.methodKeys.lookup key = some handle ∧ t' = t) ∨
      t.methodKeys.lookup key = none ∧ t'.methodKeys = (key, handle) :: t.methodKeys ∧
        ((t'.methods = t.methods ∧ ∃ other, t.method? handle = some other ∧ other.base = m.base) ∨
          handle = ⟨t.methods.length⟩ ∧ ∃ name, t'.methods =
            t.methods ++ [{ m with name, body := ⟨t.bodies.length⟩ }]) := by
  cases hkey : t.methodKeys.lookup key with
  | some known =>
    rw [registerMethod, Option.bind_some, hkey] at h
    cases h
    exact .inl ⟨rfl, rfl⟩
  | none =>
    refine .inr ⟨rfl, ?_⟩
    obtain ⟨hknown, _, _⟩ | ⟨other, hother, hbase, _, rfl, _⟩ | ⟨_, hadded⟩ := registerMethod_ok h
    · rw [Option.bind_some, hkey] at hknown
      cases hknown
    · exact ⟨rfl, .inl ⟨rfl, other, hother, hbase⟩⟩
    · rw [addMethod_eq] at hadded
      cases hadded
      exact ⟨rfl, .inr ⟨rfl, _, rfl⟩⟩

section

variable (h : t.registerMethod names key m = .ok (handle, t', names'))
include h

/-- A method has no part in variables, properties and constructors. -/
theorem registerMethod_same :
    t'.vars = t.vars ∧ t'.properties = t.properties ∧ t'.constructors = t.constructors := by
  obtain ⟨_, rfl, _⟩ | ⟨_, _, _, _, rfl, _⟩ | ⟨_, hadded⟩ := registerMethod_ok h
  · exact ⟨rfl, rfl, rfl⟩
  · cases key <;> exact ⟨rfl, rfl, rfl⟩
  · rw [addMethod_eq] at hadded
    cases hadded
    exact ⟨rfl, rfl, rfl⟩

/-- Only a method that is entered for a declaration makes a body for it. -/
theorem declBodies_registerMethod :
    t'.declBodies = t.declBodies ∨
      t'.declBodies = (key.bind SymbolKey.decl?).toList.map (fun id => (id, ⟨t.bodies.length⟩)) ++
        t.declBodies := by
  obtain ⟨_, rfl, _⟩ | ⟨_, _, _, _, rfl, _⟩ | ⟨_, hadded⟩ := registerMethod_ok h
  · exact .inl rfl
  · cases key <;> exact .inl rfl
  · rw [addMethod_eq] at hadded
    cases hadded
    exact .inr rfl

theorem keys_registerMethod : t'.keys = t.keys :=
  congrArg (List.map VariableSymbol.key) (registerMethod_same h).1

end

/-! ## Properties -/

theorem keys_registerProperty (t : SymbolTable) (names : Names) (p : PropertySymbol) :
    (t.registerProperty names p).2.1.keys = t.keys := by
  unfold registerProperty
  split <;> rfl

end SymbolTable

end FlowClass
