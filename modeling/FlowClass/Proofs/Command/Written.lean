import FlowClass.Command.Compile
import FlowClass.Proofs.Pass.Independence
import Mathlib.Logic.Function.Basic

/-!
# What the command writes

The files are a map from paths to texts, on which every operation succeeds (`mapDisk`). The command
leaves it as it is unless the pass succeeds. After that every path has the text that was written to it
last (`writtenTo`), so no file is lost as long as the classes of the pass have different names, none of
which is an absolute path. Of two classes with one name, in two namespaces, only the second is left
(`artifacts_written`, `twoDoors_one_lost`).
-/

namespace FlowClass

open List

/-! ## The artifacts of a pass -/

/-- The artifact of a graph has the name of its class. -/
theorem GraphRun.named_artifact {graph : Graph Node} {config : Config} {order : List MarkerId}
    {a : Artifact} {diagnostics : List Diagnostic}
    (h : (GraphRun.of config order graph).result = .ok (a, diagnostics)) :
    a.typeName = graph.classDecl.name ∧ a.fileName = graph.classDecl.name ++ ".cs" := by
  rcases hstart : Generation.start graph config with e | gen
  · rw [result_of_start_error hstart] at h
    cases h
  · rw [result_of_start_ok hstart] at h
    obtain ⟨rfl, _⟩ := Generation.start_eq hstart
    rcases hrun : Emit.bodies gen.env gen.state with ⟨e | _, s⟩ <;> rw [hrun, outcome] at h
    · cases h
    · unfold Generation.finish at h
      dsimp only at h
      split at h
      · split at h <;> cases h
        exact ⟨rfl, rfl⟩
      · cases h
        exact ⟨rfl, rfl⟩

/-- The artifacts of a pass are named after different classes of its graphs, in order. -/
theorem Output.named_artifacts {graphs : List (Graph Node)} {config : Config} {orders : MapOrders}
    {output : Output} (h : (generate graphs config orders).1 = .ok output) :
    output.artifacts.map (·.typeName) <+ graphs.map (·.classDecl.name) ∧
      ∀ a ∈ output.artifacts, a.fileName = a.typeName ++ ".cs" := by
  obtain ⟨e, he, _⟩ | hok := generate_cases graphs config orders
  · rw [h] at he
    cases he
  rw [h] at hok
  cases hok
  dsimp only [Seen.outputs, seenIn]
  rw [flatMap_map]
  clear h
  generalize 0 = position
  induction graphs generalizing position with
  | nil => exact ⟨.slnil, by simp⟩
  | cons graph graphs ih =>
    have ih := ih (position + 1)
    rw [zipIdx_cons, flatMap_cons, map_append, map_cons]
    rcases hresult : (GraphRun.of config (orders position) graph).result with e | ⟨a, diagnostics⟩
    · simp only [Seen.of, GraphRun.output, hresult, nil_append, map_nil]
      exact ⟨ih.1.cons _, ih.2⟩
    · obtain ⟨hname, hfile⟩ := GraphRun.named_artifact hresult
      simp only [Seen.of, GraphRun.output, hresult, map_cons, map_nil, singleton_append, forall_mem_cons]
      exact ⟨hname ▸ ih.1.cons_cons _, by rw [hfile, hname], ih.2⟩

namespace Command

/-! ## Files as a map -/

abbrev FileMap := String → Option String

/-- Every operation succeeds. -/
def mapDisk : Disk (StateM FileMap) where
  read path := do return (← get) path
  isDir _ := return true
  makeDir _ := return .ok ()
  write path text := do
    modify fun f => Function.update f path (some text)
    return true

/-- The text that was written to a path last. -/
def writtenTo (dir path : String) (files : List (String × String)) : Option String :=
  (files.reverse.find? fun file => joinPath dir file.1 = path).map Prod.snd

variable {f : FileMap} {dir : String}

/-- Files are written one after the other, so the last text stays. -/
theorem writeAll_run (files : List (String × String)) (f : FileMap) : ∃ f',
    (writeAll mapDisk dir files).run f = (true, f') ∧
      ∀ path, f' path = (writtenTo dir path files).or (f path) := by
  induction files generalizing f with
  | nil => exact ⟨f, rfl, fun _ => rfl⟩
  | cons file files ih =>
    obtain ⟨name, text⟩ := file
    obtain ⟨f', hrun, hpaths⟩ := ih (Function.update f (joinPath dir name) (some text))
    refine ⟨f', hrun, fun path => ?_⟩
    rw [hpaths, writtenTo, writtenTo, reverse_cons, find?_append]
    cases hlater : files.reverse.find? fun file => joinPath dir file.1 = path with
    | some later => rfl
    | none =>
      by_cases hpath : joinPath dir name = path
      · subst hpath
        simp
      · simp [hpath, Function.update_of_ne (Ne.symm hpath)]

theorem run_bind {α β : Type} {x : StateM FileMap α} {a : α} {f' : FileMap} (h : x.run f = (a, f'))
    (k : α → StateM FileMap β) : (x >>= k).run f = (k a).run f' := by
  rw [StateT.run_bind, h]
  rfl

theorem read_run (path : String) (f : FileMap) : (mapDisk.read path).run f = (f path, f) :=
  rfl

theorem loadConfig_run (path : Option String) (f : FileMap) :
    ∃ r, (loadConfig mapDisk path).run f = (r, f) := by
  cases path with
  | none => exact ⟨_, rfl⟩
  | some path =>
    rw [loadConfig, run_bind (read_run path f)]
    split
    · exact ⟨_, rfl⟩
    · split <;> exact ⟨_, rfl⟩

theorem loadGraph_run (path : String) (f : FileMap) :
    ∃ r, (loadGraph mapDisk path).run f = (r, f) := by
  rw [loadGraph, run_bind (read_run path f)]
  split
  · exact ⟨_, rfl⟩
  · split <;> exact ⟨_, rfl⟩

theorem loadGraphs_run (paths : List String) (f : FileMap) :
    ∃ r, (loadGraphs mapDisk paths).run f = (r, f) := by
  induction paths with
  | nil => exact ⟨_, rfl⟩
  | cons path paths ih =>
    obtain ⟨first, hfirst⟩ := loadGraph_run path f
    obtain ⟨rest, hrest⟩ := ih
    rw [loadGraphs, run_bind hfirst]
    cases first with
    | error message => exact ⟨_, rfl⟩
    | ok g =>
      rw [run_bind hrest]
      cases rest <;> exact ⟨_, rfl⟩

/-- The command fails and writes nothing, or the files of a pass that succeeded are written. -/
theorem compile_cases (orders : MapOrders) (o : Options) (f : FileMap) :
    (∃ outcome, (compile mapDisk orders o).run f = (outcome, f) ∧ (outcome.exit = 1 ∨ outcome.exit = 3)) ∨
    ∃ c graphs output f', (loadConfig mapDisk o.config).run f = (.ok c, f) ∧
      (loadGraphs mapDisk o.inputs).run f = (.ok graphs, f) ∧
      (generate graphs (override o c) orders).1 = .ok output ∧
      (compile mapDisk orders o).run f = (report o.outputDir output, f') ∧ ∀ path, f' path =
        (writtenTo o.outputDir path (output.artifacts.flatMap artifactFiles)).or (f path) := by
  obtain ⟨config, hconfig⟩ := loadConfig_run o.config f
  obtain ⟨loaded, hloaded⟩ := loadGraphs_run o.inputs f
  rw [compile, run_bind hconfig]
  cases config with
  | error message => exact .inl ⟨_, rfl, .inr rfl⟩
  | ok c =>
    rw [run_bind hloaded]
    cases loaded with
    | error message => exact .inl ⟨_, rfl, .inr rfl⟩
    | ok graphs =>
      dsimp only
      cases hpass : (generate graphs (override o c) orders).1 with
      | error e => exact .inl ⟨_, rfl, .inl rfl⟩
      | ok output =>
        obtain ⟨f', hrun, hpaths⟩ := writeAll_run (output.artifacts.flatMap artifactFiles) f
        exact .inr ⟨c, graphs, output, f', hconfig, hloaded, hpass, run_bind hrun _, hpaths⟩

/-! ## Paths -/

theorem joinPath_inj {name name' : String} (h : isAbsolute name = false)
    (h' : isAbsolute name' = false) (heq : joinPath dir name = joinPath dir name') : name = name' := by
  simp only [joinPath, h, h', Bool.false_eq_true, if_false] at heq
  split at heq <;> simpa using heq

/-- How the names of files end. -/
def endings : List String := [".cs", ".map.json"]

theorem isAbsolute_append {name ending : String} (h : isAbsolute name = false)
    (hending : ending ∈ endings) : isAbsolute (name ++ ending) = false := by
  rw [isAbsolute, String.toList_append]
  rw [isAbsolute] at h
  cases hname : name.toList with
  | nil =>
    simp only [endings, mem_cons, not_mem_nil, or_false] at hending
    obtain rfl | rfl := hending <;> decide
  | cons c rest =>
    rw [hname] at h
    simpa [Text.startsWith, Text.dropLead] using h

theorem append_ending_inj {name name' ending ending' : String} (h : ending ∈ endings)
    (h' : ending' ∈ endings) (heq : name ++ ending = name' ++ ending') :
    name = name' ∧ ending = ending' := by
  have hlast := congrArg (fun s => s.toList.getLast?) heq
  simp only [endings, mem_cons, not_mem_nil, or_false] at h h'
  obtain rfl | rfl := h <;> obtain rfl | rfl := h'
  · exact ⟨by simpa using heq, rfl⟩
  · simp at hlast
  · simp at hlast
  · exact ⟨by simpa using heq, rfl⟩

/-- A text stays unless another one is written to its path. -/
theorem writtenTo_of_mem {files : List (String × String)} {file : String × String}
    (hmem : file ∈ files)
    (hsame : ∀ other ∈ files, joinPath dir other.1 = joinPath dir file.1 → other = file) :
    writtenTo dir (joinPath dir file.1) files = some file.2 := by
  obtain ⟨found, hfound⟩ : ∃ found,
      files.reverse.find? (fun other => joinPath dir other.1 = joinPath dir file.1) = some found :=
    Option.isSome_iff_exists.1 (find?_isSome.2 ⟨file, mem_reverse.2 hmem, by simp⟩)
  have hpath : joinPath dir found.1 = joinPath dir file.1 := by simpa using find?_some hfound
  rw [writtenTo, hfound, hsame found (mem_reverse.1 (mem_of_find?_eq_some hfound)) hpath]
  rfl

theorem mem_artifactFiles {a : Artifact} (hfile : a.fileName = a.typeName ++ ".cs")
    {file : String × String} : file ∈ artifactFiles a ↔ file = (a.typeName ++ ".cs", a.source) ∨
      ∃ map, a.sourceMap = some map ∧
        file = (a.typeName ++ ".map.json", Json.pretty 0 map.toJson) := by
  simp [artifactFiles, hfile, eq_comm]

/-- Artifacts of different classes have different paths. -/
theorem file_eq_of_path {artifacts : List Artifact}
    (hfile : ∀ a ∈ artifacts, a.fileName = a.typeName ++ ".cs")
    (habsolute : ∀ a ∈ artifacts, isAbsolute a.typeName = false)
    (hnodup : (artifacts.map (·.typeName)).Nodup) {file file' : String × String}
    (h : file ∈ artifacts.flatMap artifactFiles) (h' : file' ∈ artifacts.flatMap artifactFiles)
    (heq : joinPath dir file.1 = joinPath dir file'.1) : file = file' := by
  obtain ⟨a, ha, hmem⟩ := mem_flatMap.1 h
  obtain ⟨a', ha', hmem'⟩ := mem_flatMap.1 h'
  have hinj {ending ending' : String} (hending : ending ∈ endings) (hending' : ending' ∈ endings)
      (heq : joinPath dir (a.typeName ++ ending) = joinPath dir (a'.typeName ++ ending')) :
      a = a' ∧ ending = ending' := by
    obtain ⟨hname, hsame⟩ := append_ending_inj hending hending'
      (joinPath_inj (isAbsolute_append (habsolute a ha) hending)
        (isAbsolute_append (habsolute a' ha') hending') heq)
    exact ⟨inj_on_of_nodup_map hnodup ha ha' hname, hsame⟩
  obtain rfl | ⟨map, hmap, rfl⟩ := (mem_artifactFiles (hfile a ha)).1 hmem <;>
    obtain rfl | ⟨map', hmap', rfl⟩ := (mem_artifactFiles (hfile a' ha')).1 hmem' <;>
    obtain ⟨rfl, hending⟩ := hinj (by decide) (by decide) heq
  · rfl
  · exact absurd hending (by decide)
  · exact absurd hending (by decide)
  · rw [Option.some.inj (hmap.symm.trans hmap')]

/-- On files on which every operation succeeds: if the command ends with 1, they are as before. If it
ends with 0 or 2, a pass over the documents succeeded, and every path has the text that was last
written to it. If the classes have different names, none of which is an absolute path, all artifacts
are there with their source maps. -/
theorem artifacts_written (orders : MapOrders) (o : Options) (f : FileMap) :
    (((compile mapDisk orders o).run f).1.exit = 1 → ((compile mapDisk orders o).run f).2 = f) ∧
    (((compile mapDisk orders o).run f).1.exit = 0 ∨ ((compile mapDisk orders o).run f).1.exit = 2 →
      ∃ c graphs output f', (loadConfig mapDisk o.config).run f = (.ok c, f) ∧
        (loadGraphs mapDisk o.inputs).run f = (.ok graphs, f) ∧
        (generate graphs (override o c) orders).1 = .ok output ∧
        (compile mapDisk orders o).run f = (report o.outputDir output, f') ∧
        (∀ path, f' path =
          (writtenTo o.outputDir path (output.artifacts.flatMap artifactFiles)).or (f path)) ∧
        ((graphs.map (·.classDecl.name)).Nodup →
          (∀ g ∈ graphs, isAbsolute g.classDecl.name = false) → ∀ a ∈ output.artifacts,
          f' (joinPath o.outputDir (a.typeName ++ ".cs")) = some a.source ∧
            ∀ map, a.sourceMap = some map →
              f' (joinPath o.outputDir (a.typeName ++ ".map.json")) =
                some (Json.pretty 0 map.toJson))) := by
  obtain ⟨outcome, hrun, hexit⟩ | ⟨c, graphs, output, f', hconfig, hloaded, hpass, hrun, hpaths⟩ :=
    compile_cases orders o f
  · rw [hrun]
    refine ⟨fun _ => rfl, fun h => ?_⟩
    obtain hone | hthree := hexit
    · exact absurd (hone ▸ h) (by decide)
    · exact absurd (hthree ▸ h) (by decide)
  · have hexit : (report o.outputDir output).exit ≠ 1 := by
      unfold report
      split
      · exact (by decide : (0 : UInt32) ≠ 1)
      · exact (by decide : (2 : UInt32) ≠ 1)
    rw [hrun]
    refine ⟨fun h => absurd h hexit, fun _ => ⟨c, graphs, output, f', hconfig, hloaded, hpass, rfl,
      hpaths, fun hnodup habsolute a ha => ?_⟩⟩
    obtain ⟨hnames, hfile⟩ := Output.named_artifacts hpass
    have hrelative (a : Artifact) (ha : a ∈ output.artifacts) : isAbsolute a.typeName = false := by
      obtain ⟨g, hg, hname⟩ := mem_map.1 (hnames.subset (mem_map_of_mem ha))
      exact hname ▸ habsolute g hg
    -- no other file is written to this path
    have hkept {file : String × String} (hmem : file ∈ artifactFiles a) :
        f' (joinPath o.outputDir file.1) = some file.2 := by
      have hmem := mem_flatMap.2 ⟨a, ha, hmem⟩
      rw [hpaths, writtenTo_of_mem hmem fun other hother =>
        file_eq_of_path hfile hrelative (hnodup.sublist hnames) hother hmem]
      rfl
    exact ⟨hkept ((mem_artifactFiles (hfile a ha)).2 (.inl rfl)), fun map hmap =>
      hkept ((mem_artifactFiles (hfile a ha)).2 (.inr ⟨map, hmap, rfl⟩))⟩

/-- The document of a class `Door` in a namespace. -/
def doorDocument (space : String) : String :=
  "\x7b\"name\":\"G\",\"class\":\x7b\"name\":\"Door\",\"namespace\":\"" ++ space ++ "\"\x7d\x7d"

/-- Two such documents, and a configuration. -/
def twoDoors : FileMap := fun path =>
  if path = "a" then some (doorDocument "A")
  else if path = "b" then some (doorDocument "B")
  else if path = "c" then some "\x7b\"header\":false\x7d"
  else none

def doorSource (space : String) : String :=
  "namespace " ++ space ++ " \x7b\n    public class Door \x7b\x7d\n\x7d\n"

/-- The command ends well and lists the file of both classes, which holds the second one only. -/
theorem twoDoors_one_lost :
    ((loadGraphs mapDisk ["a", "b"]).run twoDoors).1.map (fun graphs =>
      (generate graphs { header := false } .lastFirst).1.map fun output =>
        output.artifacts.map fun a => (a.fileName, a.source)) =
      .ok (.ok [("Door.cs", doorSource "A"), ("Door.cs", doorSource "B")]) ∧
    ((compile mapDisk .lastFirst { inputs := ["a", "b"], config := some "c" }).run twoDoors).1.exit =
      0 ∧
    ((compile mapDisk .lastFirst { inputs := ["a", "b"], config := some "c" }).run twoDoors).2
      "./generated/Door.cs" = some (doorSource "B") := by
  decide +kernel

end Command

end FlowClass
