import FlowClass.Proofs.Program.BodyTexts

/-!
# First values of locals

A local that is declared with a value starts with it at the head of its function, as long as no other
body mentions it. Otherwise the local is a field: then it has the value when the object is made, and
nothing sets it when the function is called again (`local_starts_with_default`).
-/

namespace FlowClass

section Pass

variable {graph : Graph Node} {config : Config} {gen : Generation Node} {s : State}
  (hstart : Generation.start graph config = .ok gen)
  (hrun : Emit.bodies gen.env gen.state = (.ok (), s))
include hstart hrun

/-- Every field and every local of a function is entered, and stays. -/
theorem Generation.variable_entered {d : VariableDecl}
    (hd : d ∈ graph.classDecl.fields ∨ ∃ f ∈ graph.classDecl.functions, d ∈ f.locals) :
    .decl d.id ∈ s.symbols.keys := by
  obtain ⟨_, base, hprepare, hentries⟩ := Emit.bind_eq_ok_iff.1 hrun
  rw [Emit.env_bind] at hentries
  have hentered := Emit.exists_declaring (nodup_declIds hstart) (prepare_initial hstart hprepare)
  obtain rfl := (start_eq hstart).1
  have hbase : .decl d.id ∈ base.symbols.keys := by
    refine (hentered.enrolled.vars d.id).2 (List.mem_append.2 (hd.imp List.mem_map_of_mem ?_))
    rintro ⟨f, hf, hd⟩
    exact List.mem_flatMap.2 ⟨f, hf, List.mem_map_of_mem hd⟩
  have hsafe := Emit.safe_entries (describes hstart) (fun _ he => he) base (orderly hstart hprepare)
    ((prepared hstart hprepare).reading ▸ List.forall_mem_nil _)
  rw [hentries] at hsafe
  exact hsafe.grown.keys _ hbase

/-- The body of a function is rendered. -/
theorem Generation.decl_rendered {id : DeclId} {body : BodyId}
    (hbody : s.symbols.declBody? id = some body) : body ∈ s.rendered.map Prod.fst := by
  obtain ⟨_, base, hprepare, _⟩ := Emit.bind_eq_ok_iff.1 hrun
  have hdeclared := Declared.prepared (nodup_declIds hstart) (prepare_initial hstart hprepare)
  rw [State.map_rendered]
  exact List.mem_append_left _ ((ownCode hstart hprepare hrun).mem_memberBodies hdeclared
    (o := .decl id) (fun _ h => by cases h) hbody)

/-- A local that is declared with a value is set to it at the head of its function, unless another
body mentions the local. Then the local is a field, which has the value from the start. -/
theorem local_starts_with_default {f : FunctionDecl} (hf : f ∈ graph.classDecl.functions)
    {d : VariableDecl} (hd : d ∈ f.locals) {l : Literal} (hdefault : d.default = some l)
    {body : BodyId} (hbody : s.symbols.declBody? f.id = some body) :
    ∃ handle v, s.symbols.variableAt? handle = some v ∧ v.key = .decl d.id ∧ v.default = some l ∧
      (v.storage = .localTo body ∧ (∀ other, .mention handle other ∈ s.journal → other = body) ∧
          v.DeclaredIn ⟨gen.env, s⟩ body ∨
        v.storage = .field ∧ (∃ other, .mention handle other ∈ s.journal ∧ other ≠ body) ∧
          Holding (v.Starts (v.modifiers.render false)) (Assembly.markedText ⟨gen.env, s⟩)) := by
  have hstored := Generation.stored hstart hrun
  have hentered := Generation.variable_entered hstart hrun (.inr ⟨f, hf, hd⟩)
  have hrendered := Generation.decl_rendered hstart hrun hbody
  have hids := Generation.nodup_declIds hstart
  obtain rfl := (Generation.start_eq hstart).1
  obtain ⟨v, hv, hkey⟩ := List.mem_map.1 hentered
  obtain ⟨i, hi⟩ := List.getElem?_of_mem hv
  have hfunction : v.key.functionOf? gen.env.graph.classDecl = some f :=
    hkey ▸ ClassDecl.functionOf?_local hids hf hd
  have hlocal : v.key.isField gen.env.graph.classDecl = false := by
    rw [hkey] at hfunction ⊢
    rw [SymbolKey.isField, show gen.env.graph.classDecl.functionOf? d.id = some f from hfunction]
    rfl
  -- the function that declares a local is a home of it, even if it never mentions it
  have hhomes : s.homes gen.env.graph.classDecl ⟨i⟩ v.key = s.mentions ⟨i⟩ ++ [body] := by
    rw [State.homes, SymbolTable.ownHome, hfunction, Option.bind_some, hbody]
    rfl
  have hfits := hstored.others ⟨i⟩ v hi hlocal
  rw [hhomes] at hfits
  refine ⟨⟨i⟩, v, hi, hkey, (hstored.defaults v hv f hf d hd hkey).trans hdefault, ?_⟩
  by_cases hother : ∃ other, .mention ⟨i⟩ other ∈ s.journal ∧ other ≠ body
  · obtain ⟨other, hmention, hne⟩ := hother
    have hstorage : v.storage = .field := hfits.field_iff.2
      ⟨other, List.mem_append_left _ (State.mem_mentions.2 hmention), body, by simp, hne⟩
    exact .inr ⟨hstorage, ⟨other, hmention, hne⟩,
      Assembly.holding_starts (g := ⟨gen.env, s⟩) (List.mem_filter.2 ⟨hv, decide_eq_true hstorage⟩)⟩
  · have hsame : ∀ other, .mention ⟨i⟩ other ∈ s.journal → other = body := fun other hmention =>
      by_contra fun hne => hother ⟨other, hmention, hne⟩
    have hstorage : v.storage = .localTo body := by
      refine hfits.localTo_iff.2 ⟨by simp, List.forall_mem_append.2 ⟨fun home hhome => ?_, ?_⟩⟩
      · exact hsame home (State.mem_mentions.1 hhome)
      · exact fun home hhome => List.mem_singleton.1 hhome
    exact .inl ⟨hstorage, hsame,
      declaredIn_of_rendered (g := ⟨gen.env, s⟩) hv hstorage hrendered⟩

end Pass

/-- The locals in which a function counts its calls. -/
def countLocals : List VariableDecl :=
  [{ id := ⟨2⟩, name := "x", type := .int, default := some (.integer 5 .int) },
    { id := ⟨3⟩, name := "y", type := .int, default := some (.integer 7 .int) }]

/-- Calls are counted in `y`, and in `x` after both arms of a branch. -/
def countsInLocals : Graph Node where
  name := "C"
  classDecl :=
    { name := "C"
      functions := [{ id := ⟨1⟩, name := "F", entry := some ⟨1⟩, locals := countLocals }] }
  nodes :=
    [(⟨1⟩, .setValue (.variable (.localOf ⟨1⟩ ⟨3⟩)) (.literal (.integer 1 .int)) .add (some ⟨2⟩)),
      (⟨2⟩, .branch (.literal (.bool true)) (some ⟨3⟩) (some ⟨3⟩) none),
      (⟨3⟩, .setValue (.variable (.localOf ⟨1⟩ ⟨2⟩)) (.literal (.integer 1 .int)) .add none)]

/-- Its class: a call of the function sets `y`, and goes on with the `x` of the last call. -/
def countsInLocalsParts : TypeParts where
  declaration := "public class C"
  fields := ["private int x = 5;"]
  methods :=
    ["private void F() \x7b\n    int y = 7;\n    y += 1;\n    if (true) \x7b\n        SetValue_3();\n" ++
      "    \x7d else \x7b\n        SetValue_3();\n    \x7d\n\x7d",
      "private void SetValue_3() \x7b\n    x += 1;\n\x7d"]

/-- The function does not set the local that became a field. -/
theorem countsInLocals_not_reset : ∃ gen s,
    Generation.start countsInLocals { header := false } = .ok gen ∧
    Emit.bodies gen.env gen.state = (.ok (), s) ∧
    ((Assembly.parts gen.env.graph.classDecl gen.env.config s).run s.imports).1 =
      countsInLocalsParts := by
  decide +kernel

/-- The other local starts with its value at the head of the function. -/
theorem countsInLocals_starts : ∃ gen s, ∃ v : VariableSymbol,
    Generation.start countsInLocals {} = .ok gen ∧ Emit.bodies gen.env gen.state = (.ok (), s) ∧
    s.symbols.declBody? ⟨1⟩ = some ⟨1⟩ ∧ v.key = .decl ⟨3⟩ ∧
    v.default = some (.integer 7 .int) ∧ v.DeclaredIn ⟨gen.env, s⟩ ⟨1⟩ := by
  obtain ⟨gen, s, hstart, hrun, hbody, hvars⟩ : Generation.EndsWith countsInLocals {} fun _ s =>
      s.symbols.declBody? ⟨1⟩ = some ⟨1⟩ ∧
      ∀ v ∈ s.symbols.vars, v.key = .decl ⟨3⟩ → v.storage ≠ .field := by decide +kernel
  obtain ⟨handle, v, hv, hkey, hdefault, ⟨_, _, hdeclared⟩ | ⟨hfield, _⟩⟩ :=
    local_starts_with_default hstart hrun List.mem_cons_self
      (List.mem_cons_of_mem _ List.mem_cons_self : _ ∈ countLocals) rfl hbody
  · exact ⟨gen, s, v, hstart, hrun, hbody, hkey, hdefault, hdeclared⟩
  · exact absurd hfield (hvars v (List.mem_of_getElem? hv) hkey)

end FlowClass
