import FlowClass.Marker.Basic

/-!
# Questions about emitted code

What a text looks like from outside its string and character literals: whether it can stand as an
operand, whether it is one `if` with its else chain, whether it ends by leaving.
-/

namespace FlowClass.Code

/-- Where a scan is with regard to string and character literals. -/
inductive Quoting where
  | outside
  /-- Inside a literal; after a backslash the next character is taken as it is. -/
  | inside (quote : Char) (escaped : Bool)
deriving DecidableEq

def Quoting.step : Quoting → Char → Quoting
  | .outside, c => if c = '"' || c = '\'' then .inside c false else .outside
  | .inside quote true, _ => .inside quote false
  | .inside quote false, c =>
    if c = '\\' then .inside quote true else if c = quote then .outside else .inside quote false

/-- How a character changes the depth of nesting in brackets of any kind. -/
def bracketShift (c : Char) : Int :=
  if c = '(' || c = '[' || c = '\x7b' then 1
  else if c = ')' || c = ']' || c = '\x7d' then -1
  else 0

/-- No blank stands outside literals and brackets. -/
def atomicFrom : Quoting → Int → List Char → Bool
  | _, _, [] => true
  | .outside, depth, c :: s =>
    if Text.isBlank c && depth == 0 then false
    else atomicFrom (Quoting.outside.step c) (depth + bracketShift c) s
  | .inside quote escaped, depth, c :: s =>
    atomicFrom ((Quoting.inside quote escaped).step c) depth s

/-- The expression can be an operand as it is. -/
def isAtomic (text : String) : Bool :=
  atomicFrom .outside 0 text.toList

/-- The expression as an operand. -/
def operand (text : String) : String :=
  if isAtomic text then text else "(" ++ text ++ ")"

/-- How a character changes the depth of nesting in braces. -/
def braceShift (c : Char) : Int :=
  if c = '\x7b' then 1 else if c = '\x7d' then -1 else 0

/-- Each outermost block is the last thing of the text or has an `else` after it; the text ends with
such a block. -/
def blocksChain : Quoting → Int → List Char → Bool
  | _, _, [] => false
  | .inside quote escaped, depth, c :: s =>
    blocksChain ((Quoting.inside quote escaped).step c) depth s
  | .outside, depth, c :: s =>
    let depth := depth + braceShift c
    if c = '\x7d' && depth == 0 then
      let rest := Text.trimStart s
      if rest.isEmpty then true
      else if Text.startsWith "else".toList rest then blocksChain .outside depth s
      else false
    else blocksChain (Quoting.outside.step c) depth s

/-- The text is one `if`, with its else chain. -/
def isSingleIf (s : List Char) : Bool :=
  Text.startsWith "if (".toList s && blocksChain .outside 0 s

/-- How a statement that leaves its place begins. -/
def jumpStarts : List String :=
  ["return;", "return ", "break;", "continue;", "yield break;", "throw ", "goto "]

/-- The last line that is not blank leaves, so nothing may follow it. -/
def endsWithJump (body : String) : Bool :=
  match (Text.textLines body.toList).reverse.find? fun line => !line.all Text.isBlank with
  | none => false
  | some line =>
    let last := Text.trim (Marker.strip (String.ofList line)).toList
    jumpStarts.any fun start => Text.startsWith start.toList last

end FlowClass.Code
