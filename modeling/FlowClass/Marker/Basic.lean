import FlowClass.Model.Id
import FlowClass.Text.Basic

/-!
# Markers

A marker pair is a pair of comments around a piece of emitted text that say which node or
declaration the text belongs to. The two comments of node 12 are `/*#<n12*/` and `/*#>n12*/`.

`Marker.pieces` cuts a text into characters and marker tokens, and extraction is a fold over that list.
`Marker.strip` only drops the tokens. It does not go from character to character, but from one `/*#` to
the next.
-/

namespace FlowClass

/-- What a marker points back to. -/
inductive MarkerId where
  | node (id : NodeId)
  | decl (id : DeclId)
deriving DecidableEq

namespace MarkerId

def text : MarkerId → String
  | .node id => s!"n{id}"
  | .decl id => s!"d{id}"

theorem toList_node (id : NodeId) : (node id).text.toList = 'n' :: (toString id.val.toNat).toList :=
  String.toList_append

theorem toList_decl (id : DeclId) : (decl id).text.toList = 'd' :: (toString id.val.toNat).toList :=
  String.toList_append

/-- A number of 32 bits. -/
def number? (s : List Char) : Option UInt32 :=
  (Text.natural? s).bind fun n => if n < UInt32.size then some (UInt32.ofNat n) else none

/-- Reads the text of an identity; the number is looked at before the kind. -/
def parse (s : List Char) : Except String MarkerId :=
  let whole := String.ofList s
  match number? s.tail with
  | none => .error s!"invalid marker id `{whole}`"
  | some n =>
    match s.head? with
    | some 'n' => .ok (.node ⟨n⟩)
    | some 'd' => .ok (.decl ⟨n⟩)
    | _ => .error s!"unknown marker kind in `{whole}`"

end MarkerId

namespace Marker

def openMark : List Char := ['/', '*', '#', '<']

def closeMark : List Char := ['/', '*', '#', '>']

def endMark : List Char := ['*', '/']

/-- A text between the two markers of an identity. -/
def wrap (id : MarkerId) (text : String) : String :=
  "/*#<" ++ id.text ++ "*/" ++ text ++ "/*#>" ++ id.text ++ "*/"

/-- A piece of a text. -/
inductive Piece where
  | char (c : Char)
  /-- A marker token: an opening or a closing one, and what stands in it. -/
  | token (opening : Bool) (label : List Char)
  /-- A token that never ends, with all that follows its start. -/
  | broken (rest : List Char)

/-- The rest after the start of a token, and whether the token opens. -/
def tokenStart? (s : List Char) : Option (Bool × List Char) :=
  match Text.dropLead openMark s with
  | some rest => some (true, rest)
  | none => (Text.dropLead closeMark s).map fun rest => (false, rest)

/-- Cuts a text into pieces; the fuel is its length. -/
def piecesFuel : Nat → List Char → List Piece
  | 0, _ => []
  | _ + 1, [] => []
  | fuel + 1, c :: s =>
    match tokenStart? (c :: s) with
    | none => .char c :: piecesFuel fuel s
    | some (opening, rest) =>
      match Text.cutAt endMark rest with
      | none => [.broken (c :: s)]
      | some (label, rest) => .token opening label :: piecesFuel fuel rest

/-- Cuts a text into characters and tokens. -/
def pieces (s : List Char) : List Piece :=
  piecesFuel s.length s

/-- What every token starts with. -/
def leadMark : List Char := ['/', '*', '#']

/-- Goes from one `/*#` to the next and leaves the tokens out; the fuel is the length of the text. -/
def stripFuel : Nat → List Char → List Char
  | 0, s => s
  | fuel + 1, s =>
    match Text.cutAt leadMark s with
    | none => s
    | some (before, rest) =>
      match tokenStart? (leadMark ++ rest) with
      | none => before ++ leadMark ++ stripFuel fuel rest
      | some (_, inside) =>
        match Text.cutAt endMark inside with
        | none => before ++ leadMark ++ rest
        | some (_, rest) => before ++ stripFuel fuel rest

/-- Drops every token, whether or not the tokens pair up. -/
def strip (text : String) : String :=
  String.ofList (stripFuel text.toList.length text.toList)

end Marker

end FlowClass
