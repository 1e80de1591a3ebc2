import SceneSelect.Text.Numeral

/-!
# `Decimal/Shortest.lean` — the fewest digits that identify a double

The reals that round to a positive double form an interval: from half way to the double below it to
half way to the double above it, the ends included exactly when the significand is even. The text
of a double is the decimal in that interval with the fewest digits, and among those the nearest one,
an exact tie going to the even digit. Everything is decided in natural numbers by cross
multiplication, so no step rounds.

`Layout` says where a decimal is written out and where it gets an exponent; that choice belongs to
whoever writes the number.
-/

set_option autoImplicit false

namespace SceneSelect.Decimal

/-- The decimal `digits * 10 ^ exponent`. -/
structure Scaled where
  digits : Nat
  exponent : Int
deriving DecidableEq, Repr

/-- A positive rational with the interval of reals that stand for it: `value`, `least` and `most`
are numerators over `denominator`. -/
structure Target where
  value : Nat
  least : Nat
  most : Nat
  denominator : Nat
  /-- do the two ends belong to the interval? -/
  closed : Bool

/-- The target of the finite positive double with these bits, sign bit aside. Below a power of two
the neighbour is half as far away as above it. -/
def Target.ofBits (bits : UInt64) : Target :=
  let biased := ((bits >>> 52) &&& 0x7FF).toNat
  let fraction := (bits &&& 0xFFFFFFFFFFFFF).toNat
  let significand := if biased = 0 then fraction else Nat.pow 2 52 + fraction
  let exponent : Int := if biased = 0 then -1076 else (biased : Int) - 1077
  let below := if fraction = 0 && decide (1 < biased) then 1 else 2
  let scale := Nat.pow 2 exponent.toNat
  { value := 4 * significand * scale
    least := (4 * significand - below) * scale
    most := (4 * significand + 2) * scale
    denominator := Nat.pow 2 (-exponent).toNat
    closed := significand % 2 == 0 }

/-- Both sides of a comparison with `10 ^ exponent`, free of fractions. -/
def Target.onGrid (t : Target) (exponent : Int) : Target :=
  let up := Nat.pow 10 (-exponent).toNat
  { t with
    value := t.value * up
    least := t.least * up
    most := t.most * up
    denominator := t.denominator * Nat.pow 10 exponent.toNat }

/-- Does the whole number `n` lie in the interval? -/
def Target.holds (t : Target) (n : Nat) : Bool :=
  let point := n * t.denominator
  if t.closed then decide (t.least ≤ point) && decide (point ≤ t.most)
  else decide (t.least < point) && decide (point < t.most)

/-- The whole number of the interval nearest to the value, if the interval has one; of two equally
near the even one. -/
def Target.nearest? (t : Target) : Option Nat :=
  let below := t.value / t.denominator
  let above := below + 1
  let middle := (below + above) * t.denominator
  let preferBelow := decide (2 * t.value < middle) || (2 * t.value == middle && below % 2 == 0)
  match t.holds below, t.holds above with
  | true, true => some (if preferBelow then below else above)
  | true, false => some below
  | false, true => some above
  | false, false => none

/-- The least `k` with `value < denominator * 10 ^ k`. Comparing digit counts leaves two
candidates. -/
def Target.magnitude (t : Target) : Int :=
  let k : Int :=
    (Text.Numeral.digits t.value).length - (Text.Numeral.digits t.denominator).length
  let t := t.onGrid k
  if t.value < t.denominator then k else k + 1

/-- Looks on finer and finer grids, `count` of them, starting at `10 ^ exponent`. -/
def Target.search (t : Target) (exponent : Int) : Nat → Option Scaled
  | 0 => none
  | count + 1 =>
    match (t.onGrid exponent).nearest? with
    | some digits => some ⟨digits, exponent⟩
    | none => t.search (exponent - 1) count

/-- The shortest decimal of a target. Seventeen digits always suffice for a double; were they not
to, the grid of seventeen digits would still give the nearest point below. -/
def Target.shortest (t : Target) : Scaled :=
  let k := t.magnitude
  match t.search (k - 1) 17 with
  | some d => d
  | none => ⟨(t.onGrid (k - 17)).value / (t.onGrid (k - 17)).denominator, k - 17⟩

/-! ## Layout -/

/-- Decimals whose leading digit stands at a power of ten between `plainFrom` and `plainTo` are
written out, with at least one digit behind the point; the others get an exponent with its sign. -/
structure Layout where
  plainFrom : Int
  plainTo : Int

/-- A run of zeros. -/
def zeros (n : Nat) : List Char := List.replicate n '0'

/-- Writes the digits `ds`, of which the first `point` stand before the point. -/
def positional (ds : List Char) (point : Int) : List Char :=
  if point ≤ 0 then '0' :: '.' :: (zeros (-point).toNat ++ ds)
  else if ds.length ≤ point.toNat then ds ++ zeros (point.toNat - ds.length) ++ ['.', '0']
  else ds.take point.toNat ++ '.' :: ds.drop point.toNat

/-- Writes one digit, the others as a fraction, and the power of ten. -/
def scientific (ds : List Char) (power : Int) : List Char :=
  let fraction := if ds.length ≤ 1 then [] else '.' :: ds.drop 1
  let sign := if power < 0 then '-' else '+'
  ds.take 1 ++ fraction ++ 'e' :: sign :: Text.Numeral.digits power.natAbs

/-- A positive decimal as text. -/
def Layout.write (layout : Layout) (d : Scaled) : List Char :=
  let all := Text.Numeral.digits d.digits
  let ds := (all.reverse.dropWhile (· == '0')).reverse
  let point := d.exponent + all.length
  if layout.plainFrom ≤ point - 1 && point - 1 ≤ layout.plainTo then positional ds point
  else scientific ds (point - 1)

/-- A finite double as text; zero keeps its sign. -/
def Layout.writeFloat (layout : Layout) (x : Float) : List Char :=
  let bits := x.toBits
  let magnitude := bits &&& 0x7FFFFFFFFFFFFFFF
  let body :=
    if magnitude == 0 then ['0', '.', '0'] else layout.write (Target.ofBits magnitude).shortest
  if magnitude == bits then body else '-' :: body

end SceneSelect.Decimal
