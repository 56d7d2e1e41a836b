import FlowClass.Proofs.Emission.Preparation

/-!
# The same emission in another environment

An emission is steady if it runs the same in two environments. What looks at no environment is, and
so is what is put together from steady parts.

A preparation looks at the class, the imports that the options ask for, the table, and the nodes of
the table, and at nothing else of its environment (`Steady.prepare`).
-/

namespace FlowClass.Emit

variable {α β : Type} {env env' : Env Node} {x : Emit Node α}

/-- The emission is the same in both environments. -/
def Steady (env env' : Env Node) (x : Emit Node α) : Prop :=
  ∀ s, x env s = x env' s

theorem bind_eq_bind {y : Emit Node α} {f g : α → Emit Node β} {s : State} (hx : x env s = y env' s)
    (hf : ∀ a s, f a env s = g a env' s) : (x >>= f) env s = (y >>= g) env' s := by
  rw [bind_apply, bind_apply, ← hx]
  rcases x env s with ⟨e | a, s'⟩
  · rfl
  · exact hf a s'

namespace Steady

theorem ordinary (hx : Ordinary x) : Steady env env' x :=
  hx.blind env env'

theorem bind {f : α → Emit Node β} (hx : Steady env env' x) (hf : ∀ a, Steady env env' (f a)) :
    Steady env env' (x >>= f) :=
  fun s => bind_eq_bind (hx s) hf

theorem demand (condition : Bool) (what : Misuse) :
    Steady env env' (Emit.demand condition what) := by
  unfold Emit.demand
  split <;> exact fun _ => rfl

theorem forM {f : α → Emit Node Unit} {as : List α} (hf : ∀ a ∈ as, Steady env env' (f a)) :
    Steady env env' (as.forM f) := by
  induction as with
  | nil => exact fun _ => rfl
  | cons a as ih =>
    exact bind (hf a List.mem_cons_self) fun _ => ih fun b hb => hf b (List.mem_cons_of_mem _ hb)

theorem registerParams (owner : DeclId) (index : Nat) (ps : List ParamDecl) :
    Steady env env' (Emit.registerParams owner index ps) := by
  induction ps generalizing index with
  | nil => exact fun _ => rfl
  | cons p ps ih =>
    exact bind (fun _ => rfl) fun _ => bind (fun _ => rfl) fun _ => bind (ih _) fun _ _ => rfl

theorem accessorBody (decl : DeclId) (kind : EntryKind) (node : Option NodeId) :
    Steady env env' (Emit.accessorBody decl kind node) := by
  cases node with
  | none | some _ => exact fun _ => rfl

/-- Entering declarations does not look at the environment. -/
theorem declarations (c : ClassDecl) :
    Steady env env' (do
      c.fields.forM declareVariable
      c.functions.forM declareFunction
      c.properties.forM declareProperty
      c.constructors.forM declareConstructor
      c.events.forM declareEvent) := by
  refine bind (forM fun _ _ _ => rfl) fun _ => bind (forM fun f _ => ?_) fun _ =>
    bind (forM fun p _ => ?_) fun _ => bind (forM fun c _ => ?_) fun _ => forM fun e _ => ?_
  · exact bind (registerParams _ _ _) fun _ => bind (fun _ => rfl) fun _ => forM fun _ _ _ => rfl
  · exact bind (fun _ => rfl) fun _ => bind (fun _ => rfl) fun _ => bind (accessorBody _ _ _)
      fun _ => bind (accessorBody _ _ _) fun _ _ => rfl
  · exact bind (registerParams _ _ _) fun _ _ => rfl
  · exact bind (registerParams _ _ _) fun _ _ => rfl

theorem registerDeclarations (hclass : env'.graph.classDecl = env.graph.classDecl)
    (husings : env'.config.usings = env.config.usings) :
    Steady env env' Emit.registerDeclarations := by
  have hreserve : Steady env env' reserveNames := fun s => by
    simp only [reserveNames, env_bind, hclass, husings]
    rfl
  refine bind hreserve fun _ s => ?_
  rw [env_bind, env_bind, hclass]
  exact declarations env.graph.classDecl s

/-- A node of the library that exists in both is set up without a failure. -/
theorem setUpNode {id : NodeId} (hnode : env'.graph.get? id = env.graph.get? id) :
    Steady env env' (Emit.setUpNode id) := by
  intro s
  cases hn : env.graph.get? id with
  | none => rw [setUpNode_of_none hn, setUpNode_of_none (hnode.trans hn)]
  | some n =>
    rw [setUpNode_of_some hn, setUpNode_of_some (hnode.trans hn)]
    cases n <;> rfl

theorem prepare (hclass : env'.graph.classDecl = env.graph.classDecl)
    (husings : env'.config.usings = env.config.usings) (htable : env'.table = env.table)
    (hnodes : ∀ id ∈ env.table.ids, env'.graph.get? id = env.graph.get? id) :
    Steady env env' Emit.prepare := by
  have hseal : Steady env env' sealNodes := fun s => by
    simp only [sealNodes, htable]
  refine bind (registerDeclarations hclass husings) fun _ s => ?_
  rw [env_bind, env_bind, htable]
  exact bind (forM fun id hid => setUpNode (hnodes id hid)) (fun _ => hseal) s

end Steady

end FlowClass.Emit
