import FlowClass.Json.Basic

/-!
# Reading JSON text

A recursive descent over the characters. The fuel of the descent is the length of the text: each
step passes at least one character, so the fuel never ends before the text does.
-/

namespace FlowClass.Json.Reader

/-- The four blanks JSON allows between tokens. -/
def isSpace (c : Char) : Bool :=
  c == ' ' || c == '\t' || c == '\n' || c == '\r'

def skipSpace (s : List Char) : List Char :=
  s.dropWhile isSpace

def isDigit (c : Char) : Bool :=
  '0' ≤ c && c ≤ '9'

/-- The value of a run of decimal digits. -/
def digitsValue (ds : List Char) : Nat :=
  ds.foldl (fun n c => 10 * n + (c.toNat - '0'.toNat)) 0

def hexDigit? (c : Char) : Option Nat :=
  if isDigit c then some (c.toNat - '0'.toNat)
  else if 'a' ≤ c && c ≤ 'f' then some (c.toNat - 'a'.toNat + 10)
  else if 'A' ≤ c && c ≤ 'F' then some (c.toNat - 'A'.toNat + 10)
  else none

/-- Four hexadecimal digits. -/
def hexQuad : List Char → Option (Nat × List Char)
  | a :: b :: c :: d :: s =>
    match hexDigit? a, hexDigit? b, hexDigit? c, hexDigit? d with
    | some a, some b, some c, some d => some (((a * 16 + b) * 16 + c) * 16 + d, s)
    | _, _, _, _ => none
  | _ => none

/-! ## Texts -/

/-- A unit of a quoted text: a character, or a code unit written by its number. -/
inductive Unit16 where
  | char (c : Char)
  | code (n : Nat)

/-- The units of a quoted text up to its closing quote. -/
def units : Nat → List Char → Option (List Unit16 × List Char)
  | 0, _ => none
  | fuel + 1, s =>
    let andThen (u : Unit16) (rest : List Char) : Option (List Unit16 × List Char) :=
      (units fuel rest).map fun (us, rest) => (u :: us, rest)
    match s with
    | [] => none
    | '"' :: rest => some ([], rest)
    | '\\' :: '"' :: rest => andThen (.char '"') rest
    | '\\' :: '\\' :: rest => andThen (.char '\\') rest
    | '\\' :: '/' :: rest => andThen (.char '/') rest
    | '\\' :: 'b' :: rest => andThen (.char '\x08') rest
    | '\\' :: 'f' :: rest => andThen (.char '\x0c') rest
    | '\\' :: 'n' :: rest => andThen (.char '\n') rest
    | '\\' :: 'r' :: rest => andThen (.char '\r') rest
    | '\\' :: 't' :: rest => andThen (.char '\t') rest
    | '\\' :: 'u' :: rest =>
      match hexQuad rest with
      | some (n, rest) => andThen (.code n) rest
      | none => none
    | '\\' :: _ => none
    | c :: rest => if c.toNat < 0x20 then none else andThen (.char c) rest

/-- The characters the units spell, if every surrogate stands in a pair. -/
def decodeUnits : List Unit16 → Option (List Char)
  | [] => some []
  | .char c :: us => (decodeUnits us).map (c :: ·)
  | .code hi :: .code lo :: us =>
    if 0xD800 ≤ hi && hi < 0xDC00 then
      if 0xDC00 ≤ lo && lo < 0xE000 then
        (decodeUnits us).map (Char.ofNat (0x10000 + (hi - 0xD800) * 0x400 + (lo - 0xDC00)) :: ·)
      else none
    else if 0xDC00 ≤ hi && hi < 0xE000 then none
    else (decodeUnits (.code lo :: us)).map (Char.ofNat hi :: ·)
  | .code n :: us =>
    if 0xD800 ≤ n && n < 0xE000 then none else (decodeUnits us).map (Char.ofNat n :: ·)

/-- A quoted text after its opening quote; its reading is `none` if a surrogate stands alone. -/
def quoted (s : List Char) : Option (Option String × List Char) :=
  (units (s.length + 1) s).map fun (us, rest) => ((decodeUnits us).map String.ofList, rest)

/-! ## Numbers -/

/-- The number `± digits * 10 ^ exponent`, unreadable beyond the finite range. Far outside that
range the power itself is not computed. -/
def realNumber (negative : Bool) (digits : Nat) (exponent : Int) : Json :=
  let place := (Nat.toDigits 10 digits).length + exponent
  let d :=
    if digits = 0 || place < -400 then Double.ofRatio negative 0 1
    else if 400 < place then Double.ofRatio negative (Nat.pow 10 400) 1
    else Double.ofRatio negative (digits * Nat.pow 10 exponent.toNat) (Nat.pow 10 (-exponent).toNat)
  if d.isFinite then .number (.real d) else .unreadable

/-- An integer as written: a natural number, a negative integer, or a floating point number where
64 bits do not hold it. The negative zero is a floating point number. -/
def wholeNumber (negative : Bool) (digits : Nat) : Json :=
  if negative then
    if 0 < digits && 2 * digits ≤ UInt64.size then
      .number (.integer (Int64.ofInt (-(digits : Int))))
    else realNumber true digits 0
  else if digits < UInt64.size then .number (.natural (UInt64.ofNat digits))
  else realNumber false digits 0

/-- The digits after an exponent mark and its sign. -/
def exponentPart (s : List Char) : Option (Int × List Char) :=
  let signed : Bool × List Char :=
    match s with
    | '+' :: rest => (false, rest)
    | '-' :: rest => (true, rest)
    | rest => (false, rest)
  let digits := signed.2.takeWhile isDigit
  if digits.isEmpty then none
  else
    let size : Int := digitsValue digits
    some (if signed.1 then -size else size, signed.2.dropWhile isDigit)

/-- A number, after its sign. No zero leads other digits, and digits stand on both sides of a
point. -/
def number (negative : Bool) (s : List Char) : Option (Json × List Char) :=
  let whole := s.takeWhile isDigit
  let rest := s.dropWhile isDigit
  if whole.isEmpty || (whole.head? = some '0' && whole.length ≠ 1) then none
  else
    let fraction : Option (List Char × List Char) :=
      match rest with
      | '.' :: after =>
        let digits := after.takeWhile isDigit
        if digits.isEmpty then none else some (digits, after.dropWhile isDigit)
      | _ => some ([], rest)
    match fraction with
    | none => none
    | some (digits, rest) =>
      let all := digitsValue (whole ++ digits)
      let shift : Int := -(digits.length : Int)
      match rest with
      | c :: after =>
        if c == 'e' || c == 'E' then
          (exponentPart after).map fun (e, rest) => (realNumber negative all (shift + e), rest)
        else if digits.isEmpty then some (wholeNumber negative all, rest)
        else some (realNumber negative all shift, rest)
      | [] =>
        if digits.isEmpty then some (wholeNumber negative all, [])
        else some (realNumber negative all shift, [])

/-! ## Values -/

mutual

/-- A value that starts at the first character. -/
def value : Nat → List Char → Option (Json × List Char)
  | 0, _ => none
  | fuel + 1, s =>
    match s with
    | 'n' :: 'u' :: 'l' :: 'l' :: rest => some (.null, rest)
    | 't' :: 'r' :: 'u' :: 'e' :: rest => some (.bool true, rest)
    | 'f' :: 'a' :: 'l' :: 's' :: 'e' :: rest => some (.bool false, rest)
    | '"' :: rest =>
      (quoted rest).map fun (read, rest) => ((read.map Json.text).getD .unreadable, rest)
    | '[' :: rest =>
      match skipSpace rest with
      | ']' :: rest => some (.array [], rest)
      | rest => (items fuel rest).map fun (js, rest) => (.array js, rest)
    | '{' :: rest =>
      match skipSpace rest with
      | '}' :: rest => some (.object [], rest)
      | rest =>
        (members fuel rest).map fun (ms, rest) => ((ms.map Json.object).getD .unreadable, rest)
    | '-' :: rest => number true rest
    | rest => number false rest

/-- The items of an array, from the first one to the closing bracket. -/
def items : Nat → List Char → Option (List Json × List Char)
  | 0, _ => none
  | fuel + 1, s =>
    match value fuel (skipSpace s) with
    | none => none
    | some (j, rest) =>
      match skipSpace rest with
      | ',' :: rest => (items fuel rest).map fun (js, rest) => (j :: js, rest)
      | ']' :: rest => some ([j], rest)
      | _ => none

/-- The members of an object, from the first name to the closing brace; they read as `none` if a
name is unreadable. -/
def members : Nat → List Char → Option (Option (List (String × Json)) × List Char)
  | 0, _ => none
  | fuel + 1, s =>
    match skipSpace s with
    | '"' :: rest =>
      match quoted rest with
      | none => none
      | some (name, rest) =>
        match skipSpace rest with
        | ':' :: rest =>
          match value fuel (skipSpace rest) with
          | none => none
          | some (j, rest) =>
            let add (ms : Option (List (String × Json))) : Option (List (String × Json)) :=
              match name, ms with
              | some name, some ms => some ((name, j) :: ms)
              | _, _ => none
            match skipSpace rest with
            | ',' :: rest => (members fuel rest).map fun (ms, rest) => (add ms, rest)
            | '}' :: rest => some (add (some []), rest)
            | _ => none
        | _ => none
    | _ => none

end

end FlowClass.Json.Reader

namespace FlowClass.Json

/-- The value a text spells, if it spells one and nothing else. -/
def parse? (text : String) : Option Json :=
  let s := text.toList
  match Reader.value (s.length + 1) (Reader.skipSpace s) with
  | some (j, rest) => if (Reader.skipSpace rest).isEmpty then some j else none
  | none => none

end FlowClass.Json
