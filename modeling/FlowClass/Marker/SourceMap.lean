import FlowClass.Json.Decode
import FlowClass.Marker.Basic
import FlowClass.Order.Insertion

/-!
# Source maps

Extraction drops the markers of a text and keeps, for each pair, the place its text has in what
remains. A closing token belongs to the last token of its identity that is still open.
-/

namespace FlowClass

/-- A place in a text; lines and columns count from one. -/
structure Position where
  line : Nat
  column : Nat
deriving DecidableEq

namespace Position

def le (a b : Position) : Bool :=
  a.line < b.line || (a.line == b.line && a.column ≤ b.column)

def lt (a b : Position) : Bool :=
  !b.le a

/-- The place after a character. -/
def advance (p : Position) (c : Char) : Position :=
  if c = '\n' then ⟨p.line + 1, 1⟩ else ⟨p.line, p.column + 1⟩

end Position

/-- The place of a marked text; `stop` is the place just after it. -/
structure SourceSpan where
  id : MarkerId
  start : Position
  stop : Position
deriving DecidableEq

/-- Earlier spans first; of two that start together the longer one. -/
def SourceSpan.le (a b : SourceSpan) : Bool :=
  a.start.lt b.start || (a.start == b.start && b.stop.le a.stop)

def SourceSpan.covers (s : SourceSpan) (p : Position) : Bool :=
  s.start.le p && p.lt s.stop

structure SourceMap where
  spans : List SourceSpan := []

namespace SourceMap

def spansFor (m : SourceMap) (id : MarkerId) : List SourceSpan :=
  m.spans.filter (·.id = id)

/-- The last span that covers a place. -/
def spanAt (m : SourceMap) (p : Position) : Option SourceSpan :=
  (m.spans.filter (·.covers p)).getLast?

end SourceMap

/-- Markers that do not pair up. -/
structure MarkerError where
  position : Position
  reason : String
deriving DecidableEq

namespace Marker

/-- The state of an extraction. -/
structure Extraction where
  /-- The characters kept so far, last first. -/
  kept : List Char := []
  position : Position := ⟨1, 1⟩
  /-- The open tokens, last first. -/
  opened : List (MarkerId × Position) := []
  /-- The spans closed so far, last first. -/
  closed : List SourceSpan := []

/-- Takes the last open token of an identity away. -/
def takeOpen (id : MarkerId) :
    List (MarkerId × Position) → Option (Position × List (MarkerId × Position))
  | [] => none
  | (other, p) :: rest =>
    if other = id then some (p, rest)
    else (takeOpen id rest).map fun (q, rest) => (q, (other, p) :: rest)

namespace Extraction

/-- Takes in one piece. -/
def step (e : Extraction) : Piece → Except MarkerError Extraction
  | .char c => .ok { e with kept := c :: e.kept, position := e.position.advance c }
  | .broken _ => .error ⟨e.position, "unterminated marker"⟩
  | .token opening label =>
    match MarkerId.parse label with
    | .error reason => .error ⟨e.position, reason⟩
    | .ok id =>
      if opening then .ok { e with opened := (id, e.position) :: e.opened }
      else
        match takeOpen id e.opened with
        | none =>
          let name := id.text
          .error ⟨e.position, s!"end marker {name} without begin"⟩
        | some (start, rest) =>
          .ok { e with opened := rest, closed := ⟨id, start, e.position⟩ :: e.closed }

def run (e : Extraction) : List Piece → Except MarkerError Extraction
  | [] => .ok e
  | p :: ps =>
    match e.step p with
    | .error err => .error err
    | .ok e => e.run ps

end Extraction

/-- The open token that is named when some are left: the last one of the identity that comes first. -/
def firstOpen? (order : List MarkerId) (opened : List (MarkerId × Position)) :
    Option (MarkerId × Position) :=
  (order.findSome? fun id => opened.find? (·.1 = id)).or opened.head?

/-- A token that is still open at the end. -/
def unclosed (id : MarkerId) (p : Position) : MarkerError :=
  let name := id.text
  ⟨p, s!"begin marker {name} without end"⟩

/-- The text without its markers, and the spans the marker pairs enclose. Open tokens are kept in a
hash map, and `order` is the order in which it is gone through, which can be any. -/
def extract (order : List MarkerId) (text : String) : Except MarkerError (String × SourceMap) :=
  match Extraction.run {} (pieces text.toList) with
  | .error err => .error err
  | .ok e =>
    match firstOpen? order e.opened with
    | some (id, p) => .error (unclosed id p)
    | none =>
      .ok (String.ofList e.kept.reverse, { spans := sortBy SourceSpan.le e.closed.reverse })

end Marker

/-! ## JSON -/

def MarkerId.toJson (id : MarkerId) : Json := .text id.text

def MarkerId.decode : Decoder MarkerId := fun r j => do
  let text ← Decoder.text r j
  match MarkerId.parse text.toList with
  | .ok id => return id
  | .error _ => none

def SourceSpan.toJson (s : SourceSpan) : Json :=
  .object [("id", s.id.toJson), ("start_line", .ofNat s.start.line),
    ("start_column", .ofNat s.start.column), ("end_line", .ofNat s.stop.line),
    ("end_column", .ofNat s.stop.column)]

def SourceSpan.decode : Decoder SourceSpan := fun r j => do
  let given ← Decoder.record ["id", "start_line", "start_column", "end_line", "end_column"] r j
  let id ← given.required "id" MarkerId.decode
  let startLine ← given.required "start_line" Decoder.uint64
  let startColumn ← given.required "start_column" Decoder.uint64
  let endLine ← given.required "end_line" Decoder.uint64
  let endColumn ← given.required "end_column" Decoder.uint64
  return ⟨id, ⟨startLine.toNat, startColumn.toNat⟩, ⟨endLine.toNat, endColumn.toNat⟩⟩

def SourceMap.toJson (m : SourceMap) : Json :=
  .object [("spans", .ofList SourceSpan.toJson m.spans)]

def SourceMap.decode : Decoder SourceMap := fun r j => do
  let given ← Decoder.record ["spans"] r j
  let spans ← given.required "spans" (Decoder.list SourceSpan.decode)
  return { spans }

end FlowClass
