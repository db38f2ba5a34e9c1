import PipelineAudit.Number.Arithmetic
import PipelineAudit.Text.Lines

/-!
# Binary floating-point numbers

A number in the binary64 format is kept by its bit pattern, so that equality of numbers is equality
of data. `Binary64.text` writes the fewest decimal digits that read back as the same number, and of
those the nearest, or the even one of two that are equally near; `Binary64.fixed` writes a fixed
number of decimal places. Both work on exact integers.
-/

namespace PipelineAudit

/-- A binary64 number, by its bits. -/
structure Binary64 where
  bits : UInt64
  deriving DecidableEq, Repr, Inhabited

namespace Binary64

/-- The number of a machine float. -/
def ofFloat (x : Float) : Binary64 := ⟨x.toBits⟩

/-- The machine float of a number. -/
def toFloat (x : Binary64) : Float := Float.ofBits x.bits

/-- Whether the sign bit is set. -/
def isNegative (x : Binary64) : Bool := x.bits.toNat ≥ twoTo 63

/-- The eleven bits of the exponent. -/
def exponentField (x : Binary64) : Nat := x.bits.toNat / twoTo 52 % twoTo 11

/-- The fifty-two bits of the fraction. -/
def fractionField (x : Binary64) : Nat := x.bits.toNat % twoTo 52

/-- Not a number. -/
def isNaN (x : Binary64) : Bool := x.exponentField == 2047 && x.fractionField != 0

/-- An infinity. -/
def isInfinite (x : Binary64) : Bool := x.exponentField == 2047 && x.fractionField == 0

/-- A zero of either sign. -/
def isZero (x : Binary64) : Bool := x.exponentField == 0 && x.fractionField == 0

/-- The magnitude of a finite number is `significand * 2 ^ exponent`. -/
def significand (x : Binary64) : Nat :=
  if x.exponentField = 0 then x.fractionField else x.fractionField + twoTo 52

/-- The magnitude of a finite number is `significand * 2 ^ exponent`. -/
def exponent (x : Binary64) : Int :=
  if x.exponentField = 0 then -1074 else (x.exponentField : Int) - 1075

/-- The integer that a number equals, if it is one. -/
def toInt? (x : Binary64) : Option Int :=
  if x.isNaN || x.isInfinite then none
  else
    let magnitude : Option Nat :=
      if 0 ≤ x.exponent then some (x.significand * twoTo x.exponent.toNat)
      else
        let divisor := twoTo (-x.exponent).toNat
        if x.significand % divisor = 0 then some (x.significand / divisor) else none
    magnitude.map fun n => if x.isNegative then -(n : Int) else (n : Int)

/-- A finite number as a fraction: its sign and numerator, and its denominator. -/
def fraction (x : Binary64) : Int × Nat :=
  let numerator : Int := x.significand * (if 0 ≤ x.exponent then twoTo x.exponent.toNat else 1)
  (if x.isNegative then -numerator else numerator,
   if 0 ≤ x.exponent then 1 else twoTo (-x.exponent).toNat)

/-- Whether a number is at most an integer. -/
def atMostInt (x : Binary64) (n : Int) : Bool :=
  if x.isNaN then false
  else if x.isInfinite then x.isNegative
  else decide (x.fraction.1 ≤ n * x.fraction.2)

/-- Whether a number is at least an integer. -/
def atLeastInt (x : Binary64) (n : Int) : Bool :=
  if x.isNaN then false
  else if x.isInfinite then !x.isNegative
  else decide (n * x.fraction.2 ≤ x.fraction.1)

/-! ## Shortest decimal text -/

/-- The positive rational `num / den` in units of `10 ^ place`, rounded down. -/
def unitsBelow (num den : Nat) (place : Int) : Nat :=
  if 0 ≤ place then num / (den * tenTo place.toNat) else num * tenTo (-place).toNat / den

/-- Whether `c * 10 ^ place` lies between two rationals with a common denominator; the ends count if
`closed` is set. -/
def unitsBetween (lo hi den : Nat) (closed : Bool) (place : Int) (c : Nat) : Bool :=
  let scaled := fun n : Nat => if 0 ≤ place then n else n * tenTo (-place).toNat
  let mid := if 0 ≤ place then c * tenTo place.toNat * den else c * den
  if closed then scaled lo ≤ mid && mid ≤ scaled hi else scaled lo < mid && mid < scaled hi

/-- The distance of `c * 10 ^ place` from `num / den`, up to a factor that depends only on the place
and the denominator. -/
def unitsDistance (num den : Nat) (place : Int) (c : Nat) : Nat :=
  let a := if 0 ≤ place then num else num * tenTo (-place).toNat
  let b := if 0 ≤ place then c * tenTo place.toNat * den else c * den
  if a ≤ b then b - a else a - b

/-- How often a number can be multiplied by ten and stay below a tenth of the bound. -/
def leadingZeros (den : Nat) : Nat → Nat → Nat
  | 0, _ => 0
  | fuel + 1, n => if den ≤ n * 10 then 0 else leadingZeros den fuel (n * 10) + 1

/-- The number of decimal digits before the point of `num / den`, or minus the number of zeros that
follow the point. -/
def pointPosition (num den : Nat) : Int :=
  if den ≤ num then ((toString (num / den)).length : Int) else -(leadingZeros den 400 num : Int)

/-- Digits and place of the shortest decimal in the rounding interval of `significand * 2 ^
exponent`, trying one digit, then two, and so on. Of two decimals that are equally near the even one
is taken. -/
def shortestFrom (num lo hi den : Nat) (closed : Bool) (point : Int) : Nat → Nat → Nat × Int
  | 0, digits => (unitsBelow num den (point - digits), point - digits)
  | fuel + 1, digits =>
    let place := point - digits
    let c := unitsBelow num den place
    match unitsBetween lo hi den closed place c, unitsBetween lo hi den closed place (c + 1) with
    | true, true =>
      let above := unitsDistance num den place (c + 1)
      let below := unitsDistance num den place c
      if above < below || (above = below && c % 2 = 1) then (c + 1, place) else (c, place)
    | true, false => (c, place)
    | false, true => (c + 1, place)
    | false, false => shortestFrom num lo hi den closed point fuel (digits + 1)

/-- Digits and place of the shortest decimal that reads back as a positive finite number. -/
def shortest (x : Binary64) : Nat × Int :=
  let m := x.significand
  let q := x.exponent - 2
  let up := if 0 ≤ q then twoTo q.toNat else 1
  let den := if 0 ≤ q then 1 else twoTo (-q).toNat
  let narrow := x.fractionField == 0 && x.exponentField > 1
  let num := 4 * m * up
  let lo := (4 * m - if narrow then 1 else 2) * up
  let hi := (4 * m + 2) * up
  shortestFrom num lo hi den (m % 2 == 0) (pointPosition num den) 17 1

/-- Drops the trailing zeros of a number's digits. -/
def dropZeros : Nat → Nat → Int → Nat × Int
  | 0, n, place => (n, place)
  | fuel + 1, n, place =>
    if n ≠ 0 && n % 10 = 0 then dropZeros fuel (n / 10) (place + 1) else (n, place)

/-- Where the positional form ends: it is used while the point stands after more than `below` and at
most `above` digits. -/
structure TextFormat where
  below : Int
  above : Int

/-- Numbers are written positionally from `0.0001` up to sixteen digits before the point. -/
def plainFormat : TextFormat := ⟨-4, 16⟩

/-- The text of decimal digits at a place. -/
def decimalText (fmt : TextFormat) (n : Nat) (place : Int) : String :=
  let digits := toString n
  let point : Int := digits.length + place
  if fmt.below < point && point ≤ fmt.above then
    if place ≥ 0 then digits ++ String.ofList (List.replicate place.toNat '0') ++ ".0"
    else if point ≤ 0 then
      "0." ++ String.ofList (List.replicate (-point).toNat '0') ++ digits
    else
      let cs := digits.toList
      String.ofList (cs.take point.toNat) ++ "." ++ String.ofList (cs.drop point.toNat)
  else
    let e := point - 1
    let mantissa := match digits.toList with
      | [] => ""
      | [c] => String.ofList [c]
      | c :: rest => String.ofList (c :: '.' :: rest)
    mantissa ++ "e" ++ (if e < 0 then "-" else "+") ++ Text.padZero 2 e.natAbs

/-- The shortest text that reads back as the number. -/
def text (x : Binary64) : String :=
  if x.isNaN then "nan"
  else
    let sign := if x.isNegative then "-" else ""
    if x.isInfinite then sign ++ "inf"
    else if x.isZero then sign ++ "0.0"
    else
      let (n, place) := x.shortest
      let (n, place) := dropZeros 20 n place
      sign ++ decimalText plainFormat n place

/-- A quotient rounded to the nearest integer; a half goes to the even neighbour. -/
def roundDiv (num den : Nat) : Nat :=
  let q := num / den
  let r := num % den
  if 2 * r < den then q else if den < 2 * r then q + 1 else if q % 2 = 0 then q else q + 1

/-- The integer nearest to a finite number; a half goes to the even neighbour. -/
def round (x : Binary64) : Int :=
  let magnitude :=
    if 0 ≤ x.exponent then x.significand * twoTo x.exponent.toNat
    else roundDiv x.significand (twoTo (-x.exponent).toNat)
  if x.isNegative then -(magnitude : Int) else magnitude

/-- The text with a fixed number of decimal places. -/
def fixed (places : Nat) (x : Binary64) : String :=
  if x.isNaN then "nan"
  else
    let sign := if x.isNegative then "-" else ""
    if x.isInfinite then sign ++ "inf"
    else
      let scaled :=
        if 0 ≤ x.exponent then x.significand * twoTo x.exponent.toNat * tenTo places
        else roundDiv (x.significand * tenTo places) (twoTo (-x.exponent).toNat)
      let whole := toString (scaled / tenTo places)
      if places = 0 then sign ++ whole
      else sign ++ whole ++ "." ++ Text.padZero places (scaled % tenTo places)

/-! ## Reading decimals -/

/-- The infinity of a sign. -/
def infinity (negative : Bool) : Binary64 :=
  ⟨if negative then 0xFFF0000000000000 else 0x7FF0000000000000⟩

/-- A number that is not one, with a mark that tells it from others. -/
def markedNaN (mark : Nat) : Binary64 :=
  ⟨0x7FF8000000000000 + UInt64.ofNat (mark % twoTo 51)⟩

/-- The number that is not one, without a mark. -/
def nan : Binary64 := markedNaN 0

/-- The same number with the other sign. -/
def neg (x : Binary64) : Binary64 := if x.isNaN then x else ⟨x.bits ^^^ 0x8000000000000000⟩

/-- The number nearest to `digits * 10 ^ place`. -/
def ofDecimal (digits : Nat) (place : Int) : Binary64 :=
  let point : Int := (toString digits).length + place
  if digits = 0 then ⟨0⟩
  else if 400 < point then infinity false
  else if point < -400 then ⟨0⟩
  else if 0 ≤ place then ofFloat (Float.ofScientific digits false place.toNat)
  else ofFloat (Float.ofScientific digits true (-place).toNat)

end Binary64

end PipelineAudit
