/-!
# The shortest decimal of a binary fraction

`shortest m q` is the decimal with the fewest digits that reads back as the double precision number
`m * 2 ^ q`, and of those the nearest to it. A decimal reads back as the number when it lies in the
interval of the reals that round to it.
-/

namespace Companion

/-- The decimal `digits * 10 ^ exponent`. -/
structure Decimal where
  digits : Nat
  exponent : Int
  deriving DecidableEq, Repr

namespace Decimal

/-- `n` scaled by a power of two, over a common denominator. -/
private def scaled (n : Nat) (q : Int) : Nat :=
  n * Nat.pow 2 q.toNat

/-- The fraction `num / den` as a multiple of `10 ^ k`: its numerator and its denominator. -/
private def inUnits (num den : Nat) (k : Int) : Nat × Nat :=
  if k < 0 then (num * Nat.pow 10 (-k).toNat, den)
  else (num, den * Nat.pow 10 k.toNat)

/-- The least `j ≥ start` with `den ≤ num * 10 ^ j`, looking at `fuel` of them. -/
private def leadingZeros (num den : Nat) : Nat → Nat → Nat
  | 0, start => start
  | fuel + 1, start =>
    if den ≤ num * Nat.pow 10 start then start else leadingZeros num den fuel (start + 1)

/-- The exponent of the power of ten that the positive fraction `num / den` starts at. -/
private def magnitude (num den : Nat) : Int :=
  if den ≤ num then (Nat.toDigits 10 (num / den)).length - 1
  else -(leadingZeros num den 400 0)

private def strip : Nat → Decimal → Decimal
  | 0, d => d
  | fuel + 1, d =>
    if d.digits ≠ 0 ∧ d.digits % 10 = 0 then strip fuel ⟨d.digits / 10, d.exponent + 1⟩ else d

/-- The multiple of `10 ^ k` nearest to `num / den` that lies between the bounds, which have the
same denominator and belong to the interval if `closed` holds. -/
private def nearest? (num low high den : Nat) (closed : Bool) (k : Int) : Option Nat :=
  let (n, d) := inUnits num den k
  let (l, _) := inUnits low den k
  let (h, _) := inUnits high den k
  let inside (x : Nat) := if closed then l ≤ x * d ∧ x * d ≤ h else l < x * d ∧ x * d < h
  let below := n / d
  let above := below + 1
  if inside below ∧ inside above then
    let rest := n % d
    if 2 * rest < d ∨ (2 * rest = d ∧ below % 2 = 0) then some below else some above
  else if inside below then some below
  else if inside above then some above
  else none

/-- The shortest decimal of the positive number `m * 2 ^ q`. The interval below the number is half
as wide where the numbers start to lie closer, which is at `tight`. -/
def shortest (m : Nat) (q : Int) (tight : Bool) : Decimal :=
  let den := 4 * Nat.pow 2 (-q).toNat
  let num := scaled (4 * m) q
  let low := scaled (4 * m - if tight then 1 else 2) q
  let high := scaled (4 * m + 2) q
  let top := magnitude num den
  let attempt (n : Nat) : Option Decimal :=
    let k := top - n
    (nearest? num low high den (m % 2 == 0) k).map fun x => strip 20 ⟨x, k⟩
  ((List.range 18).findSome? attempt).getD ⟨m, q⟩

/-- A double precision number in its parts: its sign, and its shortest decimal unless it is zero. -/
def ofFloat (x : Float) : Bool × Option Decimal :=
  let bits := x.toBits.toNat
  let negative := bits / Nat.pow 2 63 == 1
  let field := bits / Nat.pow 2 52 % 2048
  let fraction := bits % Nat.pow 2 52
  if field = 0 ∧ fraction = 0 then (negative, none)
  else if field = 0 then (negative, some (shortest fraction (-1074) false))
  else (negative,
    some (shortest (Nat.pow 2 52 + fraction) (Int.ofNat field - 1075)
      (fraction == 0 && field != 1)))

/-- The text of a double precision number: positional with at least one decimal place where the
leading digit stands between the fifth place after the point and the sixteenth before it, and
scientific elsewhere, with a signed exponent of at least two digits. -/
def text (x : Float) : String :=
  let (negative, magnitude) := ofFloat x
  let sign := if negative then "-" else ""
  match magnitude with
  | none => sign ++ "0.0"
  | some ⟨digits, exponent⟩ =>
    let ds := Nat.toDigits 10 digits
    let lead : Int := exponent + ds.length - 1
    if -5 ≤ lead ∧ lead ≤ 15 then
      if 0 ≤ exponent then
        sign ++ String.ofList (ds ++ List.replicate exponent.toNat '0') ++ ".0"
      else if 0 ≤ lead then
        let whole := (lead + 1).toNat
        sign ++ String.ofList (ds.take whole) ++ "." ++ String.ofList (ds.drop whole)
      else
        sign ++ "0." ++ String.ofList (List.replicate (-lead - 1).toNat '0' ++ ds)
    else
      let tail := if ds.length = 1 then "" else "." ++ String.ofList (ds.drop 1)
      let power := Nat.toDigits 10 lead.natAbs
      let power := if power.length < 2 then '0' :: power else power
      sign ++ String.ofList (ds.take 1) ++ tail ++ (if lead < 0 then "e-" else "e+") ++
        String.ofList power

end Decimal

end Companion
