import FlowClass.Text.Basic

/-!
# Options of the command

The command line is `compile` followed by options. A value stands after its option (`--input a`,
`-i a`) or in the same word (`--input=a`, `-ia`, `-i=a`); a separate value does not start with a
dash. All but `--input` may be given once.
-/

namespace FlowClass.Command

structure Options where
  inputs : List String
  outputDir : String := "./generated"
  space : Option String := none
  config : Option String := none
  sourceMap : Bool := false
  /-- The queue depth of a batched pass. -/
  batched : Option UInt64 := none
  optimize : Bool := false
  strict : Bool := false
deriving DecidableEq

/-- Why a command line gives no options. -/
inductive Stop where
  | help
  | usage
deriving DecidableEq

/-- Options with a value. -/
inductive Valued where
  | input
  | outputDir
  | space
  | config
  | batched
deriving DecidableEq

/-- Options without a value. -/
inductive Switch where
  | sourceMap
  | optimize
  | strict
deriving DecidableEq

def Valued.ofLong? : String → Option Valued
  | "input" => some .input
  | "output-dir" => some .outputDir
  | "namespace" => some .space
  | "config" => some .config
  | "batched" => some .batched
  | _ => none

def Valued.ofShort? : Char → Option Valued
  | 'i' => some .input
  | 'o' => some .outputDir
  | 'n' => some .space
  | 'c' => some .config
  | _ => none

def Switch.ofLong? : String → Option Switch
  | "source-map" => some .sourceMap
  | "optimize" => some .optimize
  | "strict" => some .strict
  | _ => none

/-- The options read so far. -/
structure Given where
  inputs : List String := []
  outputDir : Option String := none
  space : Option String := none
  config : Option String := none
  batched : Option UInt64 := none
  switches : List Switch := []

namespace Given

/-- A number of 64 bits. -/
def depth? (value : String) : Option UInt64 :=
  (Text.natural? value.toList).bind fun n => if n < UInt64.size then some (UInt64.ofNat n) else none

/-- Takes in an option with its value; a path is not empty. -/
def put (g : Given) (option : Valued) (value : String) : Except Stop Given :=
  match option with
  | .input => if value.isEmpty then .error .usage else .ok { g with inputs := g.inputs ++ [value] }
  | .outputDir =>
    if value.isEmpty || g.outputDir.isSome then .error .usage
    else .ok { g with outputDir := some value }
  | .space => if g.space.isSome then .error .usage else .ok { g with space := some value }
  | .config =>
    if value.isEmpty || g.config.isSome then .error .usage else .ok { g with config := some value }
  | .batched =>
    match depth? value with
    | none => .error .usage
    | some depth =>
      if g.batched.isSome then .error .usage else .ok { g with batched := some depth }

def switchOn (g : Given) (s : Switch) : Except Stop Given :=
  if g.switches.contains s then .error .usage else .ok { g with switches := s :: g.switches }

/-- The options, if there is something to compile. -/
def toOptions (g : Given) : Except Stop Options :=
  if g.inputs.isEmpty then .error .usage
  else
    .ok
      { inputs := g.inputs
        outputDir := g.outputDir.getD "./generated"
        space := g.space
        config := g.config
        sourceMap := g.switches.contains .sourceMap
        batched := g.batched
        optimize := g.switches.contains .optimize
        strict := g.switches.contains .strict }

end Given

/-- What a word of the command line is. -/
inductive Word where
  | valued (option : Valued) (value : Option String)
  | switch (s : Switch)
  | help
  /-- Nothing but operands may follow, of which there are none. -/
  | endOfOptions
  | unknown

namespace Word

/-- A word that starts with two dashes, without them. -/
def ofLong (s : List Char) : Word :=
  match Text.cutAt ['='] s with
  | some (name, value) =>
    match Valued.ofLong? (String.ofList name) with
    | some option => .valued option (some (String.ofList value))
    | none => .unknown
  | none =>
    let name := String.ofList s
    match Valued.ofLong? name, Switch.ofLong? name with
    | some option, _ => .valued option none
    | none, some s => .switch s
    | none, none => if name = "help" then .help else .unknown

/-- A word that starts with one dash, without it. -/
def ofShort (c : Char) (rest : List Char) : Word :=
  match Valued.ofShort? c with
  | none => if c = 'h' then .help else .unknown
  | some option =>
    match rest with
    | [] => .valued option none
    | '=' :: value => .valued option (some (String.ofList value))
    | value => .valued option (some (String.ofList value))

def ofText (s : String) : Word :=
  match s.toList with
  | ['-', '-'] => .endOfOptions
  | '-' :: '-' :: rest => ofLong rest
  | '-' :: c :: rest => ofShort c rest
  | _ => .unknown

end Word

/-- A word that cannot be the value of the option before it. -/
def isDashed (s : String) : Bool :=
  match s.toList with
  | '-' :: _ :: _ => true
  | _ => false

/-- Reads the words after the command. -/
def Given.read (g : Given) : List String → Except Stop Given
  | [] => .ok g
  | word :: words =>
    match Word.ofText word with
    | .help => .error .help
    | .unknown => .error .usage
    | .endOfOptions => if words.isEmpty then .ok g else .error .usage
    | .switch s =>
      match g.switchOn s with
      | .ok g => g.read words
      | .error stop => .error stop
    | .valued option (some value) =>
      match g.put option value with
      | .ok g => g.read words
      | .error stop => .error stop
    | .valued option none =>
      match words with
      | [] => .error .usage
      | value :: words =>
        if isDashed value then .error .usage
        else
          match g.put option value with
          | .ok g => g.read words
          | .error stop => .error stop

/-- What a request for help comes to: the words after it name a command, or nothing does. -/
def Stop.ofHelp : List String → Stop
  | [] => .help
  | ["compile"] => .help
  | ["help"] => .help
  | _ => .usage

/-- Reads a command line. Before the command only a request for help may stand. -/
def Options.ofArgs : List String → Except Stop Options
  | [] => .error .usage
  | "compile" :: words =>
    match ({} : Given).read words with
    | .ok given => given.toOptions
    | .error stop => .error stop
  | "help" :: words => .error (.ofHelp words)
  | word :: _ =>
    match Word.ofText word with
    | .help => .error .help
    | _ => .error .usage

end FlowClass.Command
