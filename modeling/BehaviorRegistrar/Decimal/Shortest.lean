/-!
# Shortest decimals of double-precision numbers

A finite double is `m * 2 ^ q`. The reals that round to it form an interval around it, whose ends
belong to it when `m` is even. Of the decimals in that interval the shortest is chosen, the nearest
among the shortest, and the even one of two that are equally near. Decimal grids are tried from one
digit on; on each, only the two neighbours of the value can lie in the interval when any does.
-/

namespace BehaviorRegistrar

structure Binary where
  significand : Nat
  exponent : Int
  deriving DecidableEq, Repr

def Binary.hiddenBit : Nat := 4503599627370496

def Binary.ofBits (bits : UInt64) : Binary :=
  let fraction := (bits &&& 0xfffffffffffff).toNat
  let biased := ((bits >>> 52) &&& 0x7ff).toNat
  if biased = 0 then ⟨fraction, -1074⟩ else ⟨hiddenBit + fraction, (biased : Int) - 1075⟩

structure Decimal where
  digits : Nat
  exponent : Int
  deriving DecidableEq, Repr

/-- The reals that round to a double, as fractions of one denominator. -/
structure Interval where
  low : Nat
  value : Nat
  high : Nat
  denominator : Nat
  closed : Bool
  deriving Repr

/-- The interval of a double. Just above a power of two the lower half is only half as wide. -/
def Interval.ofBinary (x : Binary) : Interval :=
  let narrow := x.significand = Binary.hiddenBit ∧ x.exponent ≠ -1074
  let up := Nat.pow 2 (x.exponent - 2).toNat
  { low := (4 * x.significand - if narrow then 1 else 2) * up
    value := 4 * x.significand * up
    high := (4 * x.significand + 2) * up
    denominator := Nat.pow 2 (2 - x.exponent).toNat
    closed := x.significand % 2 = 0 }

def Interval.contains (interval : Interval) (x : Decimal) : Bool :=
  let point := x.digits * Nat.pow 10 x.exponent.toNat * interval.denominator
  let scale := Nat.pow 10 (-x.exponent).toNat
  if interval.closed then interval.low * scale ≤ point && point ≤ interval.high * scale
  else interval.low * scale < point && point < interval.high * scale

def Interval.liftToOne (numerator denominator : Nat) : Nat → Nat
  | 0 => 0
  | fuel + 1 =>
    if denominator ≤ numerator then 0 else Interval.liftToOne (numerator * 10) denominator fuel + 1

def Interval.leading (interval : Interval) : Int :=
  let whole := interval.value / interval.denominator
  if whole = 0 then -(Interval.liftToOne interval.value interval.denominator 400 : Int)
  else ((Nat.toDigits 10 whole).length : Int) - 1

/-- The decimal with step `10 ^ exponent` that stands for the value, when one lies in the interval:
the nearer of the two neighbours, the even one when both are equally near. -/
def Interval.onGrid? (interval : Interval) (exponent : Int) : Option Decimal :=
  let numerator := interval.value * Nat.pow 10 (-exponent).toNat
  let step := interval.denominator * Nat.pow 10 exponent.toNat
  let below := numerator / step
  let remainder := numerator % step
  let down : Decimal := ⟨below, exponent⟩
  let up : Decimal := ⟨below + 1, exponent⟩
  match interval.contains down, interval.contains up with
  | true, true =>
    if 2 * remainder < step ∨ (2 * remainder = step ∧ below % 2 = 0) then some down else some up
  | true, false => some down
  | false, true => some up
  | false, false => none

def Binary.exact (x : Binary) : Decimal :=
  if x.exponent < 0 then ⟨x.significand * Nat.pow 5 (-x.exponent).toNat, x.exponent⟩
  else ⟨x.significand * Nat.pow 2 x.exponent.toNat, 0⟩

/-- The shortest decimal that rounds to a positive double. -/
def Decimal.shortest (x : Binary) : Decimal :=
  let interval := Interval.ofBinary x
  let grids := (List.range 17).map fun (digits : Nat) => interval.leading - (digits : Int)
  (grids.findSome? interval.onGrid?).getD x.exact

def Decimal.dropZeros (digits : List Char) : List Char × Nat :=
  let kept := (digits.reverse.dropWhile (· == '0')).reverse
  (kept, digits.length - kept.length)

/-- A decimal in text: positional while the leading digit's exponent is at least -5 and below 16,
always with a point, otherwise with a signed exponent. -/
def Decimal.layout (x : Decimal) : List Char :=
  let (digits, zeros) := dropZeros (Nat.toDigits 10 x.digits)
  let leading : Int := x.exponent + zeros + digits.length - 1
  if -5 ≤ leading ∧ leading < 16 then
    if leading < 0 then
      ['0', '.'] ++ List.replicate (-leading - 1).toNat '0' ++ digits
    else
      let whole := leading.toNat + 1
      let fraction := digits.drop whole
      digits.take whole ++ List.replicate (whole - digits.length) '0' ++ ['.'] ++
        (if fraction.isEmpty then ['0'] else fraction)
  else
    let sign := if leading < 0 then '-' else '+'
    let mantissa := match digits with
      | [] => []
      | [d] => [d]
      | d :: more => d :: '.' :: more
    mantissa ++ ['e', sign] ++ Nat.toDigits 10 leading.natAbs

def Decimal.textOf (x : Float) : List Char :=
  let bits := x.toBits
  let sign := if bits >>> 63 = 1 then ['-'] else []
  let magnitude := Binary.ofBits bits
  sign ++ if magnitude.significand = 0 then ['0', '.', '0'] else (Decimal.shortest magnitude).layout

end BehaviorRegistrar
