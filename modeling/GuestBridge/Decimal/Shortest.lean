import GuestBridge.Decimal.Binary64

/-!
# Shortest decimals

The decimal with the fewest digits that reads back as a given double, and of those the one nearest
to it; of two equally near the larger. A double is written with these digits and without an
exponent, however large or small, so they are filled up with zeros on either side. Zero keeps its
sign, a NaN has none.

A positive finite double is `4m · 2 ^ s` with `s` two below its exponent, so that the midpoints to
its neighbours are integers times `2 ^ s` as well. The decimals that read back as it are those
between the two midpoints, the midpoints included if `m` is even. On the grid of decimals with a
given number of digits, it is enough to try the two neighbours of the double. All comparisons are
between natural numbers.
-/

namespace GuestBridge

/-! ## Digits -/

/-- The number `digits · 10 ^ exponent`. -/
structure Decimal where
  digits : Nat
  exponent : Int
  deriving DecidableEq, Repr, Inhabited

namespace Binary64

/-- The scale of the midpoints around a double. -/
def scale (x : Binary64) : Int := x.exponent - 2

/-- The double itself, in units of its scale. -/
def centre (x : Binary64) : Nat := 4 * x.significand

/-- The midpoint to the next smaller double, in units of the scale. Below a power of two the
doubles are twice as dense. -/
def lower (x : Binary64) : Nat :=
  if x.fractionField = 0 ∧ 1 < x.exponentField then x.centre - 1 else x.centre - 2

/-- The midpoint to the next larger double, in units of the scale. -/
def upper (x : Binary64) : Nat := x.centre + 2

/-- A unit of the scale is `numerator / denominator` units of `10 ^ p`. -/
def gridRatio (x : Binary64) (p : Int) : Nat × Nat :=
  (Nat.pow 2 x.scale.toNat * Nat.pow 10 (-p).toNat,
    Nat.pow 2 (-x.scale).toNat * Nat.pow 10 p.toNat)

/-- Does `d · 10 ^ p` read back as the double? -/
def readsBack (x : Binary64) (p : Int) (d : Nat) : Bool :=
  let (num, den) := x.gridRatio p
  if x.significand % 2 = 0 then x.lower * num ≤ d * den ∧ d * den ≤ x.upper * num
  else x.lower * num < d * den ∧ d * den < x.upper * num

/-- The decimal exponent of the leading digit of a positive finite double. -/
def leadingExponent (x : Binary64) : Int :=
  let (num, den) := x.gridRatio (-330)
  ((Nat.toDigits 10 (x.centre * num / den)).length : Int) - 1 - 330

/-- The nearer of the double's two neighbours among the multiples of `10 ^ p` that reads back as
the double, if one does. -/
def onGrid? (x : Binary64) (p : Int) : Option Decimal :=
  let (num, den) := x.gridRatio p
  let below := x.centre * num / den
  let above := below + 1
  let pick (d : Nat) : Option Decimal := some ⟨d, p⟩
  match x.readsBack p below, x.readsBack p above with
  | true, true =>
    if x.centre * num - below * den < above * den - x.centre * num then pick below else pick above
  | true, false => pick below
  | false, true => pick above
  | false, false => none

/-- The shortest decimal of a positive finite double. Seventeen digits always suffice. -/
def shortest (x : Binary64) : Decimal :=
  let lead := x.leadingExponent
  ((List.range 17).findSome? fun n : Nat => x.onGrid? (lead - n)).getD ⟨0, 0⟩

end Binary64

/-! ## Positional notation -/

namespace Decimal

/-- Digits without the zeros at their end, and the exponent that makes up for them. -/
def trimmed (d : Decimal) : List Char × Int :=
  let ds := Nat.toDigits 10 d.digits
  let kept := (ds.reverse.dropWhile (· = '0')).reverse
  (kept, d.exponent + (ds.length - kept.length : Nat))

/-- A positive decimal in positional notation. -/
def positional (d : Decimal) : List Char :=
  let (ds, p) := d.trimmed
  if 0 ≤ p then ds ++ List.replicate p.toNat '0'
  else
    let places := (-p).toNat
    if places < ds.length then
      ds.take (ds.length - places) ++ '.' :: ds.drop (ds.length - places)
    else '0' :: '.' :: (List.replicate (places - ds.length) '0' ++ ds)

end Decimal

/-- The text of a double. -/
def Binary64.text (x : Binary64) : String :=
  if x.isNaN then "NaN"
  else
    let magnitude :=
      if x.isInfinite then "inf" else if x.isZero then "0"
      else String.ofList x.shortest.positional
    if x.isNegative then "-" ++ magnitude else magnitude

end GuestBridge
