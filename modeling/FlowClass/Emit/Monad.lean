import FlowClass.Emit.State

/-!
# Emission

An emission reads the environment, changes the state and gives a result or an error. The state is
kept when it fails: names that were given out stay given out.
-/

namespace FlowClass

/-- An emission over a graph with nodes of type `ν`. -/
def Emit (ν α : Type) : Type :=
  Env ν → State → Except GenError α × State

namespace Emit

variable {ν α β : Type}

instance : Monad (Emit ν) where
  pure a := fun _ s => (.ok a, s)
  bind x f := fun env s =>
    match x env s with
    | (.ok a, s) => f a env s
    | (.error e, s) => (.error e, s)

def fail (e : GenError) : Emit ν α := fun _ s => (.error e, s)

def env : Emit ν (Env ν) := fun env s => (.ok env, s)

def get : Emit ν State := fun _ s => (.ok s, s)

def modify (f : State → State) : Emit ν Unit := fun _ s => (.ok (), f s)

/-- The outcome of an emission as a result. -/
def attempt (x : Emit ν α) : Emit ν (Except GenError α) := fun env s =>
  match x env s with
  | (result, s) => (.ok result, s)

def ofExcept : Except GenError α → Emit ν α
  | .ok a => pure a
  | .error e => fail e

/-- Fails with a misuse unless the condition holds. -/
def demand (condition : Bool) (what : Misuse) : Emit ν Unit :=
  if condition then pure () else fail (.invalid what)

/-- Fails in the name of the declaration being emitted. -/
def unresolved (what : Missing) : Emit ν α := do
  fail (.unresolved what (← get).place.ownerName)

/-- Writes an event into the journal. -/
def note (e : Event) : Emit ν Unit :=
  modify fun s => { s with journal := e :: s.journal }

theorem pure_apply (a : α) (env : Env ν) (s : State) : (pure a : Emit ν α) env s = (.ok a, s) :=
  rfl

theorem bind_apply (x : Emit ν α) (f : α → Emit ν β) (env : Env ν) (s : State) :
    (x >>= f) env s =
      match x env s with
      | (.ok a, s) => f a env s
      | (.error e, s) => (.error e, s) :=
  rfl

instance : LawfulMonad (Emit ν) :=
  LawfulMonad.mk' (Emit ν)
    (fun x => by
      funext env s
      change (x >>= fun a => pure (id a)) env s = _
      simp only [bind_apply]
      rcases x env s with ⟨_ | _, _⟩ <;> rfl)
    (fun _ _ => rfl)
    (fun x f g => by
      funext env s
      simp only [bind_apply]
      rcases x env s with ⟨_ | _, _⟩ <;> rfl)

end Emit

end FlowClass
