import FlowClass.Config
import FlowClass.Model.Graph
import FlowClass.Model.Node

/-!
# The strings of a graph

Every string that a graph, or the configuration of a pass, brings into emitted code: names,
namespaces, digits of decimals, members of enumerations. The values of string and character literals
are left out: they are written in quotes, and may be anything.
-/

namespace FlowClass

open List

/-- None of the texts has a `#` in it. -/
def Hashless (texts : List String) : Prop :=
  ∀ text ∈ texts, '#' ∉ text.toList

instance (texts : List String) : Decidable (Hashless texts) :=
  inferInstanceAs (Decidable (∀ text ∈ texts, '#' ∉ text.toList))

@[simp] theorem hashless_nil : Hashless [] :=
  forall_mem_nil _

@[simp] theorem hashless_cons {text : String} {texts : List String} :
    Hashless (text :: texts) ↔ '#' ∉ text.toList ∧ Hashless texts :=
  forall_mem_cons

@[simp] theorem hashless_append {a b : List String} :
    Hashless (a ++ b) ↔ Hashless a ∧ Hashless b :=
  forall_mem_append

theorem Hashless.of_mem_flatMap {α : Type} {strings : α → List String} {l : List α}
    (h : Hashless (l.flatMap strings)) {a : α} (ha : a ∈ l) : Hashless (strings a) :=
  fun text htext => h text (mem_flatMap.2 ⟨a, ha, htext⟩)

/-! ## Types and literals -/

mutual

def Ty.strings : Ty → List String
  | .void => []
  | .scalar _ => []
  | .named space name args _ => space.toList ++ name :: Ty.stringsOf args
  | .array element _ => element.strings
  | .nullable inner => inner.strings
  | .typeParam name => [name]
  | .generated name => [name]

def Ty.stringsOf : List Ty → List String
  | [] => []
  | t :: ts => t.strings ++ Ty.stringsOf ts

end

mutual

/-- The strings of a literal, other than the value of a string or a character. -/
def Literal.strings : Literal → List String
  | .decimal digits => [digits]
  | .enumMember type member => type.strings ++ [member]
  | .struct type _ => type.strings
  | .array element items => element.strings ++ Literal.stringsOf items
  | .list element items => element.strings ++ Literal.stringsOf items
  | .default type => type.strings
  | _ => []

def Literal.stringsOf : List Literal → List String
  | [] => []
  | l :: ls => l.strings ++ Literal.stringsOf ls

end

theorem Literal.stringsOf_eq (ls : List Literal) :
    Literal.stringsOf ls = ls.flatMap Literal.strings := by
  induction ls with
  | nil => rfl
  | cons l ls ih => rw [stringsOf, ih, flatMap_cons]

/-! ## Terms -/

def Param.strings (p : Param) : List String :=
  p.name :: p.type.strings

mutual

def Term.strings : Term → List String
  | .literal value => value.strings
  | .typeOf type => type.strings
  | .collection _ element items => element.strings ++ Term.stringsOf items
  | .chain root steps => root.strings ++ Step.stringsOf steps
  | _ => []

def ChainRoot.strings : ChainRoot → List String
  | .ofType type => type.strings
  | .ofValue value => value.strings
  | .self => []

def Step.strings : Step → List String
  | ⟨name, _, type, params, args, typeArgs, _, _⟩ =>
    name :: type.strings ++ params.flatMap Param.strings ++ Term.stringsOf args ++
      Ty.stringsOf typeArgs

def Term.stringsOf : List Term → List String
  | [] => []
  | t :: ts => t.strings ++ Term.stringsOf ts

def Step.stringsOf : List Step → List String
  | [] => []
  | s :: ss => s.strings ++ Step.stringsOf ss

end

theorem Step.stringsOf_eq (ss : List Step) : Step.stringsOf ss = ss.flatMap Step.strings := by
  induction ss with
  | nil => rfl
  | cons s ss ih => rw [stringsOf, ih, flatMap_cons]

/-! ## Declarations -/

def AttributeUse.strings (a : AttributeUse) : List String :=
  a.type.strings ++ Literal.stringsOf a.args

def ParamDecl.strings (p : ParamDecl) : List String :=
  p.name :: p.type.strings ++ p.default.toList.flatMap Literal.strings

def VariableDecl.strings (v : VariableDecl) : List String :=
  v.name :: v.type.strings ++ v.default.toList.flatMap Literal.strings ++
    v.attributes.flatMap AttributeUse.strings

def FunctionDecl.strings (f : FunctionDecl) : List String :=
  f.name :: f.returnType.strings ++ f.params.flatMap ParamDecl.strings ++ f.typeParams ++
    f.locals.flatMap VariableDecl.strings ++ f.attributes.flatMap AttributeUse.strings

def PropertyDecl.strings (p : PropertyDecl) : List String :=
  p.name :: p.type.strings ++ p.attributes.flatMap AttributeUse.strings

def ConstructorDecl.strings (c : ConstructorDecl) : List String :=
  c.params.flatMap ParamDecl.strings

def EventDecl.strings (e : EventDecl) : List String :=
  e.name :: e.params.flatMap ParamDecl.strings

def ClassDecl.strings (c : ClassDecl) : List String :=
  c.name :: c.space.toList ++ c.usings ++ c.base.toList.flatMap Ty.strings ++
    c.interfaces.flatMap Ty.strings ++ c.attributes.flatMap AttributeUse.strings ++
    c.fields.flatMap VariableDecl.strings ++ c.functions.flatMap FunctionDecl.strings ++
    c.properties.flatMap PropertyDecl.strings ++ c.constructors.flatMap ConstructorDecl.strings ++
    c.events.flatMap EventDecl.strings

/-- No part of the class has a `#` in its strings. -/
structure ClassDecl.Hashless (c : ClassDecl) : Prop where
  name : '#' ∉ c.name.toList
  space : FlowClass.Hashless c.space.toList
  usings : FlowClass.Hashless c.usings
  parents : ∀ type ∈ c.base.toList ++ c.interfaces, FlowClass.Hashless type.strings
  attributes : ∀ a ∈ c.attributes, FlowClass.Hashless a.strings
  fields : ∀ v ∈ c.fields, FlowClass.Hashless v.strings
  functions : ∀ f ∈ c.functions, FlowClass.Hashless f.strings
  properties : ∀ p ∈ c.properties, FlowClass.Hashless p.strings
  constructors : ∀ k ∈ c.constructors, FlowClass.Hashless k.strings
  events : ∀ e ∈ c.events, FlowClass.Hashless e.strings

theorem ClassDecl.hashless_parts {c : ClassDecl} (h : FlowClass.Hashless c.strings) :
    c.Hashless := by
  simp only [strings, hashless_append, cons_append, hashless_cons] at h
  obtain ⟨hname, ⟨⟨⟨⟨⟨⟨⟨⟨⟨hspace, husings⟩, hbase⟩, hinterfaces⟩, hattributes⟩, hfields⟩,
    hfunctions⟩, hproperties⟩, hconstructors⟩, hevents⟩⟩ := h
  exact {
    name := hname
    space := hspace
    usings := husings
    parents := forall_mem_append.2
      ⟨fun _ hmem => hbase.of_mem_flatMap hmem, fun _ hmem => hinterfaces.of_mem_flatMap hmem⟩
    attributes := fun _ hmem => hattributes.of_mem_flatMap hmem
    fields := fun _ hmem => hfields.of_mem_flatMap hmem
    functions := fun _ hmem => hfunctions.of_mem_flatMap hmem
    properties := fun _ hmem => hproperties.of_mem_flatMap hmem
    constructors := fun _ hmem => hconstructors.of_mem_flatMap hmem
    events := fun _ hmem => hevents.of_mem_flatMap hmem }

/-! ## Graphs -/

def SwitchArm.strings (arm : SwitchArm) : List String :=
  Literal.stringsOf arm.labels

def Node.strings : Node → List String
  | .sequence _ => []
  | .branch condition .. => condition.strings
  | .switch value cases _ _ => value.strings ++ cases.flatMap SwitchArm.strings
  | .forLoop start stop step _ _ => start.strings ++ stop.strings ++ step.strings
  | .forEach collection element _ _ => collection.strings ++ element.strings
  | .whileLoop condition _ _ => condition.strings
  | .invoke call _ => call.strings
  | .setValue target value _ _ => target.strings ++ value.strings
  | .localVariable name type value _ => name :: type.strings ++ value.strings
  | .returnValue value => value.strings
  | .wait seconds _ => seconds.strings
  | .stateScope _ _ => []
  | .stopUnit _ _ => []
  | .unitStatus _ _ => []
  | .literal value => value.strings
  | .member value => value.strings
  | .operator _ operands cast => Term.stringsOf operands ++ cast.toList.flatMap Ty.strings
  | .lambda params returnType _ => params.flatMap ParamDecl.strings ++ returnType.strings

def Graph.strings (g : Graph Node) : List String :=
  g.name :: g.classDecl.strings ++ g.nodes.flatMap fun entry => entry.2.strings

theorem Graph.hashless_class {g : Graph Node} (h : Hashless g.strings) : g.classDecl.Hashless := by
  rw [Graph.strings, cons_append, hashless_cons, hashless_append] at h
  exact ClassDecl.hashless_parts h.2.1

theorem Graph.hashless_node {g : Graph Node} (h : Hashless g.strings) {id : NodeId} {n : Node}
    (hn : g.get? id = some n) : Hashless n.strings := by
  obtain ⟨entry, hentry, rfl⟩ := Option.map_eq_some_iff.1 hn
  rw [Graph.strings, hashless_append] at h
  exact h.2.of_mem_flatMap (mem_of_find?_eq_some hentry)

def Config.strings (c : Config) : List String :=
  c.runtimeType :: c.space.toList ++ c.usings

end FlowClass
