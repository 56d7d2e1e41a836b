import FlowClass.Proofs.Analysis.Flow
import Mathlib.Data.Stream.Defs

/-!
# Running a graph and running its code

Two ways to run the statements of a graph. `Runs` follows the graph itself: a call is noted, a branch
takes the outcome of its condition from a stream, a sequence goes through its outputs, and a return
ends the run. `Executes` runs emitted code, where a call of a generated method runs the body of that
method and a return ends only the method it stands in.

`Runs` is told which nodes are *enclosed*, so that a return inside them ends no more than they do. Code
that was lowered from a graph (`Lowered`) executes as the graph runs with its shared nodes enclosed
(`Lowered.executes`), and every such run follows the plain one up to its first return
(`Runs.plain`).
-/

namespace FlowClass

open List

/-- The name by which a node calls a method of the object itself that takes no arguments; `names`
are those of the declarations. -/
def Node.ownCall? (names : List (DeclId × String)) : Node → Option String
  | .invoke (.chain .self [step]) _ =>
    if step.kind = .method && step.args.isEmpty && step.typeArgs.isEmpty && !step.reflected then
      match step.decl with
      | none => some step.name
      | some decl => names.lookup decl
    else none
  | _ => none

namespace Program

/-- What can be seen of a run. -/
inductive Act where
  | invoke (name : String)
  | leave
deriving DecidableEq

/-- The methods that are invoked. -/
def invoked (acts : List Act) : List String :=
  acts.filterMap fun a =>
    match a with
    | .invoke name => some name
    | .leave => none

/-- The acts up to the first return, with it. -/
def untilLeave : List Act → List Act
  | [] => []
  | .leave :: _ => [.leave]
  | .invoke name :: acts => .invoke name :: untilLeave acts

/-- The acts after the first return. -/
def afterLeave : List Act → List Act
  | [] => []
  | .leave :: acts => acts
  | .invoke _ :: acts => afterLeave acts

theorem untilLeave_append_of_mem {acts acts' : List Act} (h : .leave ∈ acts) :
    untilLeave (acts ++ acts') = untilLeave acts := by
  induction acts with
  | nil => cases h
  | cons a acts ih =>
    cases a with
    | leave => rfl
    | invoke name =>
      have hmem : .leave ∈ acts := (mem_cons.1 h).resolve_left (by simp)
      simp only [cons_append, untilLeave, ih hmem]

theorem untilLeave_append_of_not_mem {acts : List Act} (acts' : List Act) (h : .leave ∉ acts) :
    untilLeave (acts ++ acts') = acts ++ untilLeave acts' := by
  induction acts with
  | nil => rfl
  | cons a acts ih =>
    cases a with
    | leave => exact absurd mem_cons_self h
    | invoke name =>
      simp only [cons_append, untilLeave, ih fun hmem => h (mem_cons_of_mem _ hmem)]

theorem afterLeave_append_of_not_mem {acts acts' : List Act} (h : .leave ∉ acts) :
    afterLeave (acts ++ acts') = afterLeave acts' := by
  induction acts with
  | nil => rfl
  | cons a acts ih =>
    cases a with
    | leave => exact absurd mem_cons_self h
    | invoke name => exact ih fun hmem => h (mem_cons_of_mem _ hmem)

/-- What is invoked comes before the first return or after it. -/
theorem invoked_eq (acts : List Act) :
    invoked acts = invoked (untilLeave acts) ++ invoked (afterLeave acts) := by
  induction acts with
  | nil => rfl
  | cons a acts ih =>
    cases a with
    | leave => rfl
    | invoke name => exact congrArg (name :: ·) ih

/-! ## Graphs -/

/-- What is left to do: to go on at a node, if there is one, or to write a node in place. -/
inductive Work where
  | go (target : Option NodeId)
  | here (id : NodeId)

section Runs

variable (g : Graph Node) (names : List (DeclId × String)) (enclosed : NodeId → Bool)

/-- `Runs g names enclosed work ω acts left ω'`: the work is done with the outcomes of `ω`, of which
`ω'` are left over, and `left` says whether it ended at a return. -/
inductive Runs : List Work → Stream' Bool → List Act → Bool → Stream' Bool → Prop where
  | done {ω : Stream' Bool} : Runs [] ω [] false ω
  | nowhere {rest : List Work} {ω ω' : Stream' Bool} {acts : List Act} {left : Bool} :
    Runs rest ω acts left ω' → Runs (.go none :: rest) ω acts left ω'
  | absent {id : NodeId} {rest : List Work} {ω ω' : Stream' Bool} {acts : List Act} {left : Bool}
    (h : g.get? id = none) :
    Runs rest ω acts left ω' → Runs (.go (some id) :: rest) ω acts left ω'
  | go {id : NodeId} {rest : List Work} {ω ω' : Stream' Bool} {acts : List Act} {left : Bool}
    (hexists : g.contains id = true) (henclosed : enclosed id = false) :
    Runs (.here id :: rest) ω acts left ω' → Runs (.go (some id) :: rest) ω acts left ω'
  /-- An enclosed node is run to its end, however it ends. -/
  | enter {id : NodeId} {rest : List Work} {ω ω' ω'' : Stream' Bool} {acts acts' : List Act}
    {left left' : Bool} (hexists : g.contains id = true) (henclosed : enclosed id = true) :
    Runs [.here id] ω acts left ω' → Runs rest ω' acts' left' ω'' →
    Runs (.go (some id) :: rest) ω (acts ++ acts') left' ω''
  | invoke {id : NodeId} {n : Node} {name : String} {rest : List Work} {ω ω' : Stream' Bool}
    {acts : List Act} {left : Bool} (hn : g.get? id = some n)
    (hname : n.ownCall? names = some name) :
    Runs (.go (NodeShape.next n) :: rest) ω acts left ω' →
    Runs (.here id :: rest) ω (.invoke name :: acts) left ω'
  | branch {id : NodeId} {condition : Term} {onTrue onFalse next : Option NodeId}
    {rest : List Work} {ω ω' : Stream' Bool} {acts : List Act} {left : Bool}
    (hn : g.get? id = some (.branch condition onTrue onFalse next)) :
    Runs (.go (if ω.head then onTrue else onFalse) :: .go next :: rest) ω.tail acts left ω' →
    Runs (.here id :: rest) ω acts left ω'
  | sequence {id : NodeId} {outputs : List (Option NodeId)} {rest : List Work}
    {ω ω' : Stream' Bool} {acts : List Act} {left : Bool}
    (hn : g.get? id = some (.sequence outputs)) :
    Runs (outputs.map .go ++ rest) ω acts left ω' → Runs (.here id :: rest) ω acts left ω'
  | leave {id : NodeId} {value : Term} {rest : List Work} {ω : Stream' Bool}
    (hn : g.get? id = some (.returnValue value)) (hvalue : value.isAssigned = false) :
    Runs (.here id :: rest) ω [.leave] true ω

end Runs

namespace Runs

variable {g : Graph Node} {names : List (DeclId × String)} {enclosed : NodeId → Bool}
  {work rest : List Work} {ω ω' ω'' : Stream' Bool} {acts acts' : List Act} {left left' : Bool}

variable (h : Runs g names enclosed work ω acts left ω')
include h

/-- What comes after is run unless there was a return. -/
theorem append (h' : left = true ∧ acts' = [] ∧ left' = true ∧ ω'' = ω' ∨
      left = false ∧ Runs g names enclosed rest ω' acts' left' ω'') :
    Runs g names enclosed (work ++ rest) ω (acts ++ acts') left' ω'' := by
  induction h with
  | done => simpa using h'
  | nowhere _ ih => exact .nowhere (ih h')
  | absent hnone _ ih => exact .absent hnone (ih h')
  | go hexists henclosed _ ih => exact .go hexists henclosed (ih h')
  | enter hexists henclosed hbody _ _ ih =>
    rw [append_assoc]
    exact .enter hexists henclosed hbody (ih h')
  | invoke hn hname _ ih => exact .invoke hn hname (ih h')
  | branch hn _ ih => exact .branch hn (ih h')
  | sequence hn _ ih =>
    rw [cons_append]
    refine .sequence hn ?_
    rw [← append_assoc]
    exact ih h'
  | leave hn hvalue =>
    obtain ⟨_, rfl, rfl, rfl⟩ | ⟨hleft, _⟩ := h'
    · exact .leave hn hvalue
    · cases hleft

/-- A run is determined by its outcomes. -/
theorem unique
    (h' : Runs g names enclosed work ω acts' left' ω'') : acts' = acts ∧ left' = left ∧ ω'' = ω' := by
  induction h generalizing acts' left' ω'' with
  | done => cases h'; exact ⟨rfl, rfl, rfl⟩
  | nowhere _ ih => cases h' with | nowhere h' => exact ih h'
  -- in each case the other rules are for other nodes
  | absent hnone _ ih =>
    cases h' with
    | absent _ h' => exact ih h'
    | _ => simp_all [Graph.contains]
  | go hexists henclosed _ ih =>
    cases h' with
    | go _ _ h' => exact ih h'
    | _ => simp_all [Graph.contains]
  | enter hexists henclosed _ _ ihbody ih =>
    cases h' with
    | enter _ _ hbody' h' =>
      obtain ⟨rfl, _, rfl⟩ := ihbody hbody'
      obtain ⟨rfl, hrest⟩ := ih h'
      exact ⟨rfl, hrest⟩
    | _ => simp_all [Graph.contains]
  | invoke hn hname _ ih =>
    cases h' with
    | invoke hn' hname' h' =>
      obtain rfl := Option.some.inj (hn.symm.trans hn')
      obtain rfl := Option.some.inj (hname.symm.trans hname')
      obtain ⟨rfl, hrest⟩ := ih h'
      exact ⟨rfl, hrest⟩
    | _ => grind [Node.ownCall?]
  | branch hn _ ih =>
    cases h' with
    | branch hn' h' => cases hn.symm.trans hn'; exact ih h'
    | _ => simp_all [Node.ownCall?]
  | sequence hn _ ih =>
    cases h' with
    | sequence hn' h' => cases hn.symm.trans hn'; exact ih h'
    | _ => simp_all [Node.ownCall?]
  | leave hn hvalue =>
    cases h' with
    | leave => exact ⟨rfl, rfl, rfl⟩
    | _ => simp_all [Node.ownCall?]

/-- A run with enclosed nodes follows the plain run, which is over at the first return. -/
theorem plain :
    (.leave ∉ acts → left = false ∧ Runs g names (fun _ => false) work ω acts false ω') ∧
      (.leave ∈ acts → ∃ ω₁, Runs g names (fun _ => false) work ω (untilLeave acts) true ω₁) := by
  induction h with
  | done => exact ⟨fun _ => ⟨rfl, .done⟩, fun h => nomatch h⟩
  | nowhere _ ih =>
    exact ⟨fun h => ⟨(ih.1 h).1, .nowhere (ih.1 h).2⟩, fun h => (ih.2 h).imp fun _ => .nowhere⟩
  | absent hnone _ ih =>
    exact ⟨fun h => ⟨(ih.1 h).1, .absent hnone (ih.1 h).2⟩,
      fun h => (ih.2 h).imp fun _ => .absent hnone⟩
  | go hexists henclosed _ ih =>
    exact ⟨fun h => ⟨(ih.1 h).1, .go hexists rfl (ih.1 h).2⟩,
      fun h => (ih.2 h).imp fun _ => .go hexists rfl⟩
  | @enter id rest ω ω' ω'' acts acts' left left' hexists henclosed _ _ ihbody ih =>
    -- the body of an enclosed node that comes to a return ends the plain run
    by_cases hbody : .leave ∈ acts
    · refine ⟨fun h => absurd (mem_append_left _ hbody) h, fun _ => ?_⟩
      obtain ⟨ω₁, hrun⟩ := ihbody.2 hbody
      rw [untilLeave_append_of_mem hbody, ← append_nil (untilLeave acts)]
      exact ⟨ω₁, .go hexists rfl (hrun.append (.inl ⟨rfl, rfl, rfl, rfl⟩))⟩
    · obtain ⟨_, hrun⟩ := ihbody.1 hbody
      refine ⟨fun h => ?_, fun h => ?_⟩
      · obtain ⟨hleft, hrest⟩ := ih.1 fun hmem => h (mem_append_right _ hmem)
        exact ⟨hleft, .go hexists rfl (hrun.append (.inr ⟨rfl, hrest⟩))⟩
      · obtain ⟨ω₁, hrest⟩ := ih.2 ((mem_append.1 h).resolve_left hbody)
        rw [untilLeave_append_of_not_mem acts' hbody]
        exact ⟨ω₁, .go hexists rfl (hrun.append (.inr ⟨rfl, hrest⟩))⟩
  | invoke hn hname _ ih =>
    refine ⟨fun h => ?_, fun h => ?_⟩
    · obtain ⟨hleft, hrun⟩ := ih.1 fun hmem => h (mem_cons_of_mem _ hmem)
      exact ⟨hleft, .invoke hn hname hrun⟩
    · obtain ⟨ω₁, hrun⟩ := ih.2 ((mem_cons.1 h).resolve_left (by simp))
      exact ⟨ω₁, .invoke hn hname hrun⟩
  | branch hn _ ih =>
    exact ⟨fun h => ⟨(ih.1 h).1, .branch hn (ih.1 h).2⟩, fun h => (ih.2 h).imp fun _ => .branch hn⟩
  | sequence hn _ ih =>
    exact ⟨fun h => ⟨(ih.1 h).1, .sequence hn (ih.1 h).2⟩,
      fun h => (ih.2 h).imp fun _ => .sequence hn⟩
  | leave hn hvalue =>
    exact ⟨fun h => absurd (mem_singleton_self _) h, fun _ => ⟨_, .leave hn hvalue⟩⟩

theorem exists_plain :
    ∃ left₁ ω₁, Runs g names (fun _ => false) work ω (untilLeave acts) left₁ ω₁ := by
  by_cases hleave : .leave ∈ acts
  · obtain ⟨ω₁, hrun⟩ := h.plain.2 hleave
    exact ⟨true, ω₁, hrun⟩
  · have huntil := untilLeave_append_of_not_mem [] hleave
    rw [untilLeave, append_nil] at huntil
    rw [huntil]
    exact ⟨false, ω', (h.plain.1 hleave).2⟩

end Runs

/-- Statements lead from the node to a return. -/
def LeadsToReturn (g : Graph Node) (id : NodeId) : Prop :=
  ∃ id' value, Relation.ReflTransGen (fun x y => y ∈ g.follows x) id id' ∧
    g.get? id' = some (.returnValue value)

/-- Some work that is left leads to a return. -/
def Work.LeadsToReturn (g : Graph Node) : Work → Prop
  | .go none => False
  | .go (some id) => Program.LeadsToReturn g id
  | .here id => Program.LeadsToReturn g id

/-- A node leads where its statement leads. -/
theorem Work.LeadsToReturn.ofTarget {g : Graph Node} {id : NodeId} {n : Node}
    (hn : g.get? id = some n) {target : Option NodeId}
    (htarget : target ∈ n.branches ∨ target = NodeShape.next n)
    (h : Work.LeadsToReturn g (.go target)) : Work.LeadsToReturn g (.here id) := by
  cases target with
  | none => exact h.elim
  | some y =>
    obtain ⟨id', value, hpath, hreturn⟩ := h
    exact ⟨id', value, .head (Graph.mem_follows_of_target hn htarget) hpath, hreturn⟩

namespace Runs

variable {g : Graph Node} {names : List (DeclId × String)} {enclosed : NodeId → Bool}
  {work : List Work} {ω ω' : Stream' Bool} {acts : List Act} {left : Bool}

/-- A run comes to a return only where the work leads to one. -/
theorem exists_leadsToReturn (h : Runs g names enclosed work ω acts left ω') (hleave : .leave ∈ acts) :
    ∃ w ∈ work, Work.LeadsToReturn g w := by
  have hcons (w : Work) (rest : List Work) := exists_mem_cons_iff (Work.LeadsToReturn g) w rest
  induction h with
  | done => cases hleave
  | nowhere _ ih | absent _ _ ih => exact (hcons _ _).2 (.inr (ih hleave))
  | @go id _ _ _ _ _ _ _ _ ih => exact (hcons _ _).2 ((hcons (.here id) _).1 (ih hleave))
  | enter _ _ _ _ ihbody ih =>
    refine (hcons _ _).2 ((mem_append.1 hleave).imp (fun hbody => ?_) ih)
    exact ((hcons _ _).1 (ihbody hbody)).resolve_right (by simp)
  | invoke hn _ _ ih =>
    have hnext := (hcons _ _).1 (ih ((mem_cons.1 hleave).resolve_left (by simp)))
    exact (hcons _ _).2 (hnext.imp_left fun hleads => hleads.ofTarget hn (.inr rfl))
  | @branch _ _ onTrue onFalse next _ ω _ _ _ hn _ ih =>
    refine (hcons _ _).2 ?_
    obtain hleads | hnext := (hcons _ _).1 (ih hleave)
    · refine .inl (hleads.ofTarget hn (.inl ?_))
      cases ω.head <;> simp [Node.branches]
    · exact ((hcons _ _).1 hnext).imp_left fun hleads => hleads.ofTarget hn (.inr rfl)
  | sequence hn _ ih =>
    obtain ⟨w, hmem, hleads⟩ := ih hleave
    rcases mem_append.1 hmem with hmem | hmem
    · obtain ⟨target, htarget, rfl⟩ := mem_map.1 hmem
      exact ⟨_, mem_cons_self, hleads.ofTarget hn (.inl htarget)⟩
    · exact ⟨w, mem_cons_of_mem _ hmem, hleads⟩
  | leave hn _ => exact ⟨_, mem_cons_self, _, _, .refl, hn⟩

/-- If no enclosed node leads to a return, the first return is the end of the run. -/
theorem afterLeave_eq_nil (hfree : ∀ id, enclosed id = true → ¬ Program.LeadsToReturn g id)
    (h : Runs g names enclosed work ω acts left ω') : afterLeave acts = [] := by
  induction h with
  | done => rfl
  | nowhere _ ih => exact ih
  | absent _ _ ih => exact ih
  | go _ _ _ ih => exact ih
  | enter _ henclosed hbody _ _ ih =>
    rw [afterLeave_append_of_not_mem, ih]
    intro hleave
    obtain ⟨w, hmem, hleads⟩ := hbody.exists_leadsToReturn hleave
    obtain rfl := mem_singleton.1 hmem
    exact hfree _ henclosed hleads
  | invoke _ _ _ ih => exact ih
  | branch _ _ ih => exact ih
  | sequence _ _ ih => exact ih
  | leave => rfl

end Runs

/-! ## Code -/

/-- A statement of a body; a branch has the text of its condition. -/
inductive Stmt where
  | call (name : String)
  | leave
  | branch (condition : String) (onTrue onFalse : List Stmt)

/-- `Executes method code ω acts left ω'`: the statements are executed with the outcomes of `ω`;
`method` are the bodies of the generated methods, and every other call is noted. -/
inductive Executes (method : String → Option (List Stmt)) :
    List Stmt → Stream' Bool → List Act → Bool → Stream' Bool → Prop where
  | done {ω : Stream' Bool} : Executes method [] ω [] false ω
  | invoke {name : String} {rest : List Stmt} {ω ω' : Stream' Bool} {acts : List Act} {left : Bool}
    (hname : method name = none) :
    Executes method rest ω acts left ω' →
    Executes method (.call name :: rest) ω (.invoke name :: acts) left ω'
  /-- A return in a method ends the method. -/
  | enter {name : String} {body rest : List Stmt} {ω ω' ω'' : Stream' Bool}
    {acts acts' : List Act} {left left' : Bool} (hname : method name = some body) :
    Executes method body ω acts left ω' → Executes method rest ω' acts' left' ω'' →
    Executes method (.call name :: rest) ω (acts ++ acts') left' ω''
  | branch {condition : String} {onTrue onFalse rest : List Stmt} {ω ω' : Stream' Bool}
    {acts : List Act} {left : Bool} :
    Executes method ((if ω.head then onTrue else onFalse) ++ rest) ω.tail acts left ω' →
    Executes method (.branch condition onTrue onFalse :: rest) ω acts left ω'
  | leave {rest : List Stmt} {ω : Stream' Bool} :
    Executes method (.leave :: rest) ω [.leave] true ω

/-- An execution is determined by its outcomes. -/
theorem Executes.unique {method : String → Option (List Stmt)} {code : List Stmt}
    {ω ω' ω'' : Stream' Bool} {acts acts' : List Act} {left left' : Bool}
    (h : Executes method code ω acts left ω') (h' : Executes method code ω acts' left' ω'') :
    acts' = acts ∧ left' = left ∧ ω'' = ω' := by
  induction h generalizing acts' left' ω'' with
  | done | leave => cases h'; exact ⟨rfl, rfl, rfl⟩
  | invoke hname _ ih =>
    cases h' with
    | invoke _ h' =>
      obtain ⟨rfl, hrest⟩ := ih h'
      exact ⟨rfl, hrest⟩
    | enter hname' => cases hname.symm.trans hname'
  | enter hname _ _ ihbody ih =>
    cases h' with
    | invoke hname' => cases hname.symm.trans hname'
    | enter hname' hbody' h' =>
      obtain rfl := Option.some.inj (hname.symm.trans hname')
      obtain ⟨rfl, _, rfl⟩ := ihbody hbody'
      obtain ⟨rfl, hrest⟩ := ih h'
      exact ⟨rfl, hrest⟩
  | branch _ ih => cases h' with | branch h' => exact ih h'

/-! ## Lowering -/

section Lowered

variable (g : Graph Node) (names : List (DeclId × String)) (spelled : Term → String → Prop)
  (method : NodeId → Option String) (shared : NodeId → Bool)

/-- The code that does some work. A shared node is called by the name of its method, any other node
is written in place; `spelled` says which texts a condition may have. -/
inductive Lowered : List Work → List Stmt → Prop where
  | done : Lowered [] []
  | nowhere {rest : List Work} {code : List Stmt} : Lowered rest code →
    Lowered (.go none :: rest) code
  | absent {id : NodeId} {rest : List Work} {code : List Stmt} (h : g.get? id = none) :
    Lowered rest code → Lowered (.go (some id) :: rest) code
  | go {id : NodeId} {rest : List Work} {code : List Stmt} (hexists : g.contains id = true)
    (hshared : shared id = false) :
    Lowered (.here id :: rest) code → Lowered (.go (some id) :: rest) code
  | call {id : NodeId} {name : String} {rest : List Work} {code : List Stmt}
    (hexists : g.contains id = true) (hshared : shared id = true) (hname : method id = some name) :
    Lowered rest code → Lowered (.go (some id) :: rest) (.call name :: code)
  | invoke {id : NodeId} {n : Node} {name : String} {rest : List Work} {code : List Stmt}
    (hn : g.get? id = some n) (hname : n.ownCall? names = some name) :
    Lowered (.go (NodeShape.next n) :: rest) code → Lowered (.here id :: rest) (.call name :: code)
  | branch {id : NodeId} {condition : Term} {onTrue onFalse next : Option NodeId}
    {rest : List Work} {text : String} {trueCode falseCode code : List Stmt}
    (hn : g.get? id = some (.branch condition onTrue onFalse next))
    (htext : spelled condition text) :
    Lowered [.go onTrue] trueCode → Lowered [.go onFalse] falseCode →
    Lowered (.go next :: rest) code →
    Lowered (.here id :: rest) (.branch text trueCode falseCode :: code)
  | sequence {id : NodeId} {outputs : List (Option NodeId)} {rest : List Work} {code : List Stmt}
    (hn : g.get? id = some (.sequence outputs)) :
    Lowered (outputs.map .go ++ rest) code → Lowered (.here id :: rest) code
  | leave {id : NodeId} {value : Term} {rest : List Work} {code : List Stmt}
    (hn : g.get? id = some (.returnValue value)) (hvalue : value.isAssigned = false) :
    Lowered rest code → Lowered (.here id :: rest) (.leave :: code)

end Lowered

namespace Lowered

variable {g : Graph Node} {names : List (DeclId × String)} {spelled : Term → String → Prop}
  {method : NodeId → Option String} {shared : NodeId → Bool} {work rest : List Work}
  {code code' : List Stmt}

theorem append (h : Lowered g names spelled method shared work code)
    (h' : Lowered g names spelled method shared rest code') :
    Lowered g names spelled method shared (work ++ rest) (code ++ code') := by
  induction h with
  | done => exact h'
  | nowhere _ ih => exact .nowhere ih
  | absent hnone _ ih => exact .absent hnone ih
  | go hexists hshared _ ih => exact .go hexists hshared ih
  | call hexists hshared hname _ ih => exact .call hexists hshared hname ih
  | invoke hn hname _ ih => exact .invoke hn hname ih
  | branch hn htext htrue hfalse _ _ _ ih => exact .branch hn htext htrue hfalse ih
  | sequence hn _ ih =>
    rw [cons_append]
    refine .sequence hn ?_
    rw [← append_assoc]
    exact ih
  | leave hn hvalue _ ih => exact .leave hn hvalue ih

/-- Names that are given out later change nothing. -/
theorem mono {method' : NodeId → Option String}
    (hmono : ∀ id name, method id = some name → method' id = some name)
    (h : Lowered g names spelled method shared work code) :
    Lowered g names spelled method' shared work code := by
  induction h with
  | done => exact .done
  | nowhere _ ih => exact .nowhere ih
  | absent hnone _ ih => exact .absent hnone ih
  | go hexists hshared _ ih => exact .go hexists hshared ih
  | call hexists hshared hname _ ih => exact .call hexists hshared (hmono _ _ hname) ih
  | invoke hn hname _ ih => exact .invoke hn hname ih
  | branch hn htext _ _ _ ihtrue ihfalse ih => exact .branch hn htext ihtrue ihfalse ih
  | sequence hn _ ih => exact .sequence hn ih
  | leave hn hvalue _ ih => exact .leave hn hvalue ih

/-- Lowered code executes as the graph runs with its shared nodes enclosed. -/
theorem executes {body : String → Option (List Stmt)}
    (hmethods : ∀ id name, method id = some name →
      ∃ code, body name = some code ∧ Lowered g names spelled method shared [.here id] code)
    (hown : ∀ id n name, g.get? id = some n → n.ownCall? names = some name → body name = none)
    {ω ω' : Stream' Bool} {acts : List Act} {left : Bool}
    (hruns : Runs g names shared work ω acts left ω')
    (h : Lowered g names spelled method shared work code) : Executes body code ω acts left ω' := by
  induction hruns generalizing code with
  | done => cases h; exact .done
  | nowhere _ ih => cases h with | nowhere h => exact ih h
  -- in each case the code of other nodes is out of the question
  | absent hnone _ ih =>
    cases h with
    | absent _ h => exact ih h
    | _ => simp_all [Graph.contains]
  | go hexists hshared _ ih =>
    cases h with
    | go _ _ h => exact ih h
    | _ => simp_all [Graph.contains]
  | enter hexists hshared _ _ ihbody ih =>
    cases h with
    | call _ _ hname h =>
      obtain ⟨code, hcode, hbody⟩ := hmethods _ _ hname
      exact .enter hcode (ihbody hbody) (ih h)
    | _ => simp_all [Graph.contains]
  | invoke hn hname _ ih =>
    cases h with
    | invoke hn' hname' h =>
      obtain rfl := Option.some.inj (hn.symm.trans hn')
      obtain rfl := Option.some.inj (hname.symm.trans hname')
      exact .invoke (hown _ _ _ hn hname) (ih h)
    | _ => grind [Node.ownCall?]
  | @branch id condition onTrue onFalse next rest ω ω' acts left hn _ ih =>
    cases h with
    | branch hn' _ htrue hfalse h =>
      cases hn.symm.trans hn'
      refine .branch (ih ?_)
      cases ω.head with
      | true => exact htrue.append h
      | false => exact hfalse.append h
    | _ => simp_all [Node.ownCall?]
  | sequence hn _ ih =>
    cases h with
    | sequence hn' h => cases hn.symm.trans hn'; exact ih h
    | _ => simp_all [Node.ownCall?]
  | leave hn hvalue =>
    cases h with
    | leave => exact .leave
    | _ => simp_all [Node.ownCall?]

/-! ## Runs come to an end -/

section Total

variable {t : Connectivity}

/-- The work ranks below a bound; calling a node counts for more than writing it. -/
def Below (g : Graph Node) (t : Connectivity) (bound : Nat) : Work → Prop
  | .go none => True
  | .go (some id) => g.contains id = true → id ∈ t.ids ∧ 2 * t.rank id + 1 < bound
  | .here id => id ∈ t.ids ∧ 2 * t.rank id < bound

theorem below_of_target (hdescribes : t.Describes g) (hstate : t.stateNodes = []) {id : NodeId}
    {n : Node} (hn : g.get? id = some n) {bound : Nat} (hid : Below g t bound (.here id))
    {target : Option NodeId} (htarget : target ∈ n.branches ∨ target = NodeShape.next n) :
    Below g t bound (.go target) := by
  cases target with
  | none => trivial
  | some y =>
    intro hexists
    have hfollows := Graph.mem_follows_of_target hn htarget
    have hrank := Connectivity.rank_lt hdescribes hid.1 (by simp [hstate]) hfollows hexists
    rw [hstate] at hrank
    have hlt := hrank.resolve_left not_mem_nil
    have hbound := hid.2
    exact ⟨hdescribes.follows_mem hid.1 hfollows hexists, by omega⟩

/-- Without state nodes, work that was lowered is done, whatever the outcomes. -/
theorem total (hdescribes : t.Describes g) (hstate : t.stateNodes = [])
    (hmethods : ∀ id name, method id = some name →
      ∃ code, Lowered g names spelled method shared [.here id] code) {bound : Nat}
    (h : Lowered g names spelled method shared work code) (hbelow : ∀ w ∈ work, Below g t bound w)
    (ω : Stream' Bool) : ∃ acts left ω', Runs g names shared work ω acts left ω' := by
  -- along the work that was lowered; only a call starts again, with a lower bound
  induction bound using Nat.strong_induction_on generalizing work code ω with
  | _ bound ihbound =>
    induction h generalizing ω with
    | done => exact ⟨_, _, _, .done⟩
    | nowhere _ ih =>
      obtain ⟨acts, left, ω', hrun⟩ := ih (forall_mem_cons.1 hbelow).2 ω
      exact ⟨acts, left, ω', .nowhere hrun⟩
    | absent hnone _ ih =>
      obtain ⟨acts, left, ω', hrun⟩ := ih (forall_mem_cons.1 hbelow).2 ω
      exact ⟨acts, left, ω', .absent hnone hrun⟩
    | go hexists hshared _ ih =>
      obtain ⟨hid, hrest⟩ := forall_mem_cons.1 hbelow
      obtain ⟨hid, hrank⟩ := hid hexists
      obtain ⟨acts, left, ω', hrun⟩ := ih (forall_mem_cons.2 ⟨⟨hid, by omega⟩, hrest⟩) ω
      exact ⟨acts, left, ω', .go hexists hshared hrun⟩
    | @call id name rest code hexists hshared hname _ ih =>
      obtain ⟨hid, hrest⟩ := forall_mem_cons.1 hbelow
      obtain ⟨hid, hrank⟩ := hid hexists
      obtain ⟨body, hbody⟩ := hmethods id name hname
      obtain ⟨acts, left, ω', hrun⟩ := ihbound (2 * t.rank id + 1) hrank hbody
        (forall_mem_singleton.2 ⟨hid, Nat.lt_succ_self _⟩) ω
      obtain ⟨acts', left', ω'', hrun'⟩ := ih hrest ω'
      exact ⟨_, _, _, .enter hexists hshared hrun hrun'⟩
    | invoke hn hname _ ih =>
      obtain ⟨hid, hrest⟩ := forall_mem_cons.1 hbelow
      have hnext := below_of_target hdescribes hstate hn hid (.inr rfl)
      obtain ⟨acts, left, ω', hrun⟩ := ih (forall_mem_cons.2 ⟨hnext, hrest⟩) ω
      exact ⟨_, _, _, .invoke hn hname hrun⟩
    | @branch id condition onTrue onFalse next rest text trueCode falseCode code hn _ _ _ _ ihtrue
        ihfalse ih =>
      obtain ⟨hid, hrest⟩ := forall_mem_cons.1 hbelow
      have hnext := below_of_target hdescribes hstate hn hid (.inr rfl)
      have harm : ∃ acts left ω', Runs g names shared
          [.go (if ω.head then onTrue else onFalse)] ω.tail acts left ω' := by
        cases ω.head with
        | true =>
          exact ihtrue (forall_mem_singleton.2
            (below_of_target hdescribes hstate hn hid (.inl mem_cons_self))) ω.tail
        | false =>
          exact ihfalse (forall_mem_singleton.2
            (below_of_target hdescribes hstate hn hid (.inl (by simp [Node.branches])))) ω.tail
      obtain ⟨acts, left, ω', harm⟩ := harm
      cases left with
      | true => exact ⟨_, _, _, .branch hn (harm.append (.inl ⟨rfl, rfl, rfl, rfl⟩))⟩
      | false =>
        obtain ⟨acts', left', ω'', hrun⟩ := ih (forall_mem_cons.2 ⟨hnext, hrest⟩) ω'
        exact ⟨_, _, _, .branch hn (harm.append (.inr ⟨rfl, hrun⟩))⟩
    | sequence hn _ ih =>
      obtain ⟨hid, hrest⟩ := forall_mem_cons.1 hbelow
      have hall := forall_mem_append.2 ⟨forall_mem_map.2 fun target htarget =>
        below_of_target hdescribes hstate hn hid (.inl htarget), hrest⟩
      obtain ⟨acts, left, ω', hrun⟩ := ih hall ω
      exact ⟨_, _, _, .sequence hn hrun⟩
    | leave hn hvalue => exact ⟨_, _, _, .leave hn hvalue⟩

end Total

end Lowered

end Program

end FlowClass
