/-!
# Binary floating point

Numbers of the 32-bit and 64-bit interchange formats as bit patterns, read as `m * 2 ^ q` and
rounded from exact quotients to the nearest pattern, ties to even. Everything is done on natural
numbers, so no property of the machine's own arithmetic is needed.
-/

namespace FlowClass

/-- An interchange format, by the widths of its fraction and exponent fields. -/
structure BinaryFormat where
  fractionBits : Nat
  exponentBits : Nat

namespace BinaryFormat

def single : BinaryFormat := ⟨23, 8⟩

def double : BinaryFormat := ⟨52, 11⟩

/-- The exponent of the last place of the smallest numbers. -/
def minExponent (f : BinaryFormat) : Int :=
  2 - Nat.pow 2 (f.exponentBits - 1) - f.fractionBits

/-- The pattern of infinity without its sign; every pattern above it is not a number. -/
def infinity (f : BinaryFormat) : Nat :=
  (Nat.pow 2 f.exponentBits - 1) * Nat.pow 2 f.fractionBits

/-- The weight of the sign bit. -/
def signBit (f : BinaryFormat) : Nat :=
  Nat.pow 2 (f.fractionBits + f.exponentBits)

end BinaryFormat

/-- What a bit pattern stands for. -/
inductive BinaryValue where
  | notANumber
  | infinite (negative : Bool)
  /-- The number `m * 2 ^ q`, negated if `negative`. -/
  | finite (negative : Bool) (m : Nat) (q : Int)

namespace BinaryFormat

/-- The value of a pattern. -/
def value (f : BinaryFormat) (bits : Nat) : BinaryValue :=
  let negative := bits / f.signBit % 2 == 1
  let magnitude := bits % f.signBit
  if magnitude > f.infinity then .notANumber
  else if magnitude = f.infinity then .infinite negative
  else
    let exponent := magnitude / Nat.pow 2 f.fractionBits
    let fraction := magnitude % Nat.pow 2 f.fractionBits
    if exponent = 0 then .finite negative fraction f.minExponent
    else
      .finite negative (Nat.pow 2 f.fractionBits + fraction) (f.minExponent + (exponent - 1 : Nat))

/-- Twice the remainder against the divisor: rounds a quotient to nearest, ties to even. -/
def roundQuotient (num den : Nat) : Nat :=
  let quotient := num / den
  let rest := 2 * (num % den)
  if rest < den then quotient
  else if den < rest then quotient + 1
  else quotient + quotient % 2

/-- The exponent of the leading binary place of `num / den`, for positive numbers. -/
def leadingPlace (num den : Nat) : Int :=
  let estimate : Int := (num.log2 : Int) - den.log2
  let reached :=
    if 0 ≤ estimate then den * Nat.pow 2 estimate.toNat ≤ num
    else den ≤ num * Nat.pow 2 (-estimate).toNat
  if reached then estimate else estimate - 1

/-- The pattern nearest to `num / den`, without a sign; infinity beyond the largest number. The
exponent field and a carry out of the fraction add up in one sum. -/
def roundRatio (f : BinaryFormat) (num den : Nat) : Nat :=
  if num = 0 then 0
  else
    let place := max (leadingPlace num den - f.fractionBits) f.minExponent
    let rounded :=
      if 0 ≤ place then roundQuotient num (den * Nat.pow 2 place.toNat)
      else roundQuotient (num * Nat.pow 2 (-place).toNat) den
    min ((place - f.minExponent).toNat * Nat.pow 2 f.fractionBits + rounded) f.infinity

/-- The pattern nearest to a value, in another format. -/
def ofValue (f : BinaryFormat) : BinaryValue → Nat
  | .notANumber => f.infinity + Nat.pow 2 (f.fractionBits - 1)
  | .infinite negative => f.infinity + negative.toNat * f.signBit
  | .finite negative m q =>
    negative.toNat * f.signBit +
      (if 0 ≤ q then f.roundRatio (m * Nat.pow 2 q.toNat) 1
        else f.roundRatio m (Nat.pow 2 (-q).toNat))

end BinaryFormat

/-- A 64-bit floating point number, told apart by its bits. -/
structure Double where
  bits : UInt64
deriving DecidableEq

/-- A 32-bit floating point number, told apart by its bits. -/
structure Single where
  bits : UInt32
deriving DecidableEq

namespace Double

def value (d : Double) : BinaryValue :=
  BinaryFormat.double.value d.bits.toNat

/-- The number nearest to `num / den`. -/
def ofRatio (negative : Bool) (num den : Nat) : Double :=
  ⟨UInt64.ofNat
    (negative.toNat * BinaryFormat.double.signBit + BinaryFormat.double.roundRatio num den)⟩

def ofNat (n : Nat) : Double :=
  ofRatio false n 1

def ofInt (n : Int) : Double :=
  ofRatio (n < 0) n.natAbs 1

def isFinite (d : Double) : Bool :=
  match d.value with
  | .finite .. => true
  | _ => false

/-- Numerical equality: the two zeros are equal, and nothing equals what is not a number. -/
def sameNumber (a b : Double) : Bool :=
  match a.value, b.value with
  | .notANumber, _ => false
  | _, .notANumber => false
  | .finite _ 0 _, .finite _ 0 _ => true
  | _, _ => a.bits == b.bits

/-- The nearest 32-bit number. -/
def toSingle (d : Double) : Single :=
  ⟨UInt32.ofNat (BinaryFormat.single.ofValue d.value)⟩

end Double

namespace Single

def value (s : Single) : BinaryValue :=
  BinaryFormat.single.value s.bits.toNat

/-- The quotient of two counts, each rounded first. -/
def ofCounts (num den : Nat) : Single :=
  let f := BinaryFormat.single
  match f.value (f.roundRatio num 1), f.value (f.roundRatio den 1) with
  | .finite _ m q, .finite _ n r =>
    let shift := q - r
    if n = 0 then ⟨UInt32.ofNat f.infinity⟩
    else if 0 ≤ shift then ⟨UInt32.ofNat (f.roundRatio (m * Nat.pow 2 shift.toNat) n)⟩
    else ⟨UInt32.ofNat (f.roundRatio m (n * Nat.pow 2 (-shift).toNat))⟩
  | _, _ => ⟨UInt32.ofNat f.infinity⟩

end Single

end FlowClass
