import FlowClass.Number.Binary

/-!
# Shortest decimal text

A finite binary number is written with the fewest digits that round back to it, of those the
nearest, an exact tie going up, and always in positional notation.
-/

namespace FlowClass

/-- The reals that round to one number: the ends of the interval and the number itself, as
multiples of `1 / unit`. The ends belong to it iff `closed`. -/
structure RoundingInterval where
  low : Nat
  mid : Nat
  high : Nat
  unit : Nat
  closed : Bool

namespace RoundingInterval

/-- The interval of `m * 2 ^ q`. Below a power of two the next number is half as far away, unless
the power is among the smallest numbers. -/
def ofFinite (f : BinaryFormat) (m : Nat) (q : Int) : RoundingInterval :=
  let narrow := m = Nat.pow 2 f.fractionBits && f.minExponent < q
  let scale := Nat.pow 2 q.toNat
  { low := (4 * m - (if narrow then 1 else 2)) * scale
    mid := 4 * m * scale
    high := (4 * m + 2) * scale
    unit := 4 * Nat.pow 2 (-q).toNat
    closed := m % 2 = 0 }

/-- `num / den` rounds to the number. -/
def contains (r : RoundingInterval) (num den : Nat) : Bool :=
  if r.closed then r.low * den ≤ num * r.unit && num * r.unit ≤ r.high * den
  else r.low * den < num * r.unit && num * r.unit < r.high * den

end RoundingInterval

/-- The number `0.d₁d₂… * 10 ^ point`. -/
structure Decimal where
  digits : List Char
  point : Int

namespace Decimal

/-- The least `e` from the given one on with `num / den < 10 ^ e`, looked for in `steps` steps. -/
def pointFrom (num den : Nat) : Nat → Int → Int
  | 0, e => e
  | steps + 1, e =>
    if num * Nat.pow 10 (-e).toNat < den * Nat.pow 10 e.toNat then e
    else pointFrom num den steps (e + 1)

/-- The least `e` with `num / den < 10 ^ e`. Binary places times the logarithm of two give a start
that is at most three too low. -/
def pointOf (num den : Nat) : Int :=
  pointFrom num den 8 (BinaryFormat.leadingPlace num den * 30103 / 100000 - 1)

/-- The decimal `c * 10 ^ shift`. -/
def scaled (c : Nat) (shift : Int) : Decimal :=
  let digits := Nat.toDigits 10 c
  ⟨(digits.reverse.dropWhile (· == '0')).reverse, shift + digits.length⟩

/-- The better of the number's two neighbours on the grid of multiples of `10 ^ shift`, if one of
them rounds to the number. -/
def onGrid (r : RoundingInterval) (shift : Int) : Option Decimal :=
  let up := Nat.pow 10 shift.toNat
  let down := Nat.pow 10 (-shift).toNat
  let num := r.mid * down
  let den := r.unit * up
  let below := num / den
  let above := below + 1
  match r.contains (below * up) down, r.contains (above * up) down with
  | true, true => some (scaled (if den ≤ 2 * (num % den) then above else below) shift)
  | true, false => some (scaled below shift)
  | false, true => some (scaled above shift)
  | false, false => none

/-- The first hit on the grids `10 ^ shift`, `10 ^ (shift - 1)`, …. -/
def firstHit (r : RoundingInterval) : Nat → Int → Decimal
  | 0, _ => ⟨[], 0⟩
  | grids + 1, shift =>
    match onGrid r shift with
    | some d => d
    | none => firstHit r grids (shift - 1)

/-- The shortest decimal of a positive number; 17 digits tell any two numbers apart. -/
def shortest (f : BinaryFormat) (m : Nat) (q : Int) : Decimal :=
  let r := RoundingInterval.ofFinite f m q
  firstHit r 17 (pointOf r.mid r.unit - 1)

/-- Positional notation: no point without digits after it, no digits before it but a zero. -/
def positional (d : Decimal) : List Char :=
  if d.point ≤ 0 then '0' :: '.' :: (List.replicate (-d.point).toNat '0' ++ d.digits)
  else
    let whole := d.point.toNat
    if d.digits.length ≤ whole then d.digits ++ List.replicate (whole - d.digits.length) '0'
    else d.digits.take whole ++ '.' :: d.digits.drop whole

end Decimal

namespace BinaryFormat

/-- The text of the number `m * 2 ^ q`. -/
def positionalText (f : BinaryFormat) (negative : Bool) (m : Nat) (q : Int) : String :=
  let sign := if negative then ['-'] else []
  let size := if m = 0 then ['0'] else (Decimal.shortest f m q).positional
  String.ofList (sign ++ size)

end BinaryFormat

end FlowClass
