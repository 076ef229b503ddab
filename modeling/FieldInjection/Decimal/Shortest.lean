/-!
# The shortest decimal of a floating-point number

A binary64 number stands for a whole interval of reals, those that round to it. Its shortest decimal is
the one with the fewest digits inside that interval, and among those the nearest to the number. It is
always written positionally, however long that is, and a whole number has no point.

`Binary64.ofMagnitude` decodes the bit pattern into the exact value and interval, `shortest` walks down
the decimal grids from the coarsest to the first that has a point inside, and `Binary64.render` writes it.
-/

namespace FieldInjection.Decimal

/-- A positive value with the reals that round to it, all scaled: each stands for `field * 2 ^ exponent`. -/
structure Interval where
  /-- The value itself. -/
  value : Nat
  /-- The lower end. -/
  low : Nat
  /-- The upper end. -/
  high : Nat
  /-- The power of two that scales the three. -/
  exponent : Int
  /-- Whether the ends themselves round to the value. -/
  closed : Bool

/-- A finite decimal: `digits * 10 ^ exponent`. -/
structure Digits where
  digits : Nat
  exponent : Int
  deriving DecidableEq, Repr

/-- A positive power as a natural number, and 1 for a negative exponent. -/
def scale (base : Nat) (e : Int) : Nat := Nat.pow base e.toNat

/-- The interval's point on the grid of multiples of `10 ^ k`: the nearer of the value's two neighbours,
of those that lie inside; the upper one when both are equally near. -/
def Interval.pointOnGrid? (i : Interval) (k : Int) : Option Digits :=
  -- both sides are multiplied up to whole numbers
  let shrink := scale 2 i.exponent * scale 10 (-k)
  let unit := scale 10 k * scale 2 (-i.exponent)
  let value := i.value * shrink
  let inside (d : Nat) : Bool :=
    let p := d * unit
    let low := i.low * shrink
    let high := i.high * shrink
    if i.closed then low ≤ p && p ≤ high else low < p && p < high
  let below := value / unit
  let above := below + 1
  match inside below, inside above with
  | true, true =>
    if value - below * unit < above * unit - value then some ⟨below, k⟩ else some ⟨above, k⟩
  | true, false => some ⟨below, k⟩
  | false, true => some ⟨above, k⟩
  | false, false => none

/-- The first grid at or below `10 ^ k` that has a point inside, among the next `fuel` ones. -/
def Interval.search (i : Interval) : Nat → Int → Option Digits
  | 0, _ => none
  | fuel + 1, k =>
    match i.pointOnGrid? k with
    | some d => some d
    | none => i.search fuel (k - 1)

/-- The shortest decimal in the interval. The search starts above the value's leading digit; seventeen
digits always suffice for a binary64 number. -/
def Interval.shortest (i : Interval) : Digits :=
  let magnitude : Int := Int.ofNat i.value.log2 + i.exponent + 1
  (i.search 24 (magnitude * 30103 / 100000 + 2)).getD ⟨0, 0⟩

/-- The decimal in positional form. -/
def Digits.render (d : Digits) : String :=
  let s := toString d.digits
  if 0 ≤ d.exponent then
    s ++ String.ofList (List.replicate d.exponent.toNat '0')
  else
    let places := (-d.exponent).toNat
    let cs := s.toList
    if places < cs.length then
      String.ofList (cs.take (cs.length - places)) ++ "." ++
        String.ofList (cs.drop (cs.length - places))
    else
      "0." ++ String.ofList (List.replicate (places - cs.length) '0') ++ s

/-- What a bit pattern of the binary64 format stands for. -/
inductive Binary64 where
  | nan
  | infinity
  | zero
  | finite (interval : Interval)

/-- Decodes the 63 bits without the sign: eleven of exponent, 52 of fraction. -/
def Binary64.ofMagnitude (bits : Nat) : Binary64 :=
  let fraction := bits % Nat.pow 2 52
  let biased := bits / Nat.pow 2 52
  if biased = 2047 then
    if fraction = 0 then .infinity else .nan
  else if biased = 0 then
    if fraction = 0 then .zero
    else .finite ⟨4 * fraction, 4 * fraction - 2, 4 * fraction + 2, -1076, fraction % 2 == 0⟩
  else
    let m := Nat.pow 2 52 + fraction
    -- below a power of two the numbers stand twice as close
    let low := if fraction = 0 ∧ 1 < biased then 4 * m - 1 else 4 * m - 2
    .finite ⟨4 * m, low, 4 * m + 2, Int.ofNat biased - 1077, m % 2 == 0⟩

/-- The text of a number without its sign. -/
def Binary64.render : Binary64 → String
  | .nan => "NaN"
  | .infinity => "inf"
  | .zero => "0"
  | .finite i => i.shortest.render

/-- The text of the number with the given bit pattern. A sign is kept on zero and dropped on NaN. -/
def ofBits (bits : UInt64) : String :=
  let number := Binary64.ofMagnitude (bits.toNat % Nat.pow 2 63)
  match number with
  | .nan => "NaN"
  | _ => if bits.toNat < Nat.pow 2 63 then number.render else "-" ++ number.render

end FieldInjection.Decimal
