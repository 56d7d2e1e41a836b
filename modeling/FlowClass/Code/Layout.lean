import FlowClass.Text.Basic

/-!
# Layout of emitted code

Bodies are plain texts. They are put below each other with `lines`, moved to the right with `indent`
and enclosed with `braced`; a blank line never gets trailing spaces.
-/

namespace FlowClass.Code

/-- One level of indentation. -/
def indentStep : List Char := [' ', ' ', ' ', ' ']

/-- A line moved to the right; a blank line becomes empty. -/
def indentLine (margin : List Char) (line : List Char) : List Char :=
  if line.all Text.isBlank then [] else margin ++ line

/-- Moves every line to the right by some levels. -/
def indent (levels : Nat) (text : String) : String :=
  match levels with
  | 0 => text
  | levels + 1 =>
    let margin := (List.replicate (levels + 1) indentStep).flatten
    String.ofList
      (Text.joinWith ['\n'] ((Text.splitOn '\n' text.toList).map (indentLine margin)))

/-- The parts that are not blank, below each other. -/
def lines (parts : List String) : String :=
  joinText "\n" (parts.filter fun part => !blank part)

/-- A body in braces, indented on lines of its own unless it is blank. -/
def braced (body : String) : String :=
  if blank body then "\x7b\x7d" else "\x7b\n" ++ indent 1 body ++ "\n\x7d"

end FlowClass.Code
