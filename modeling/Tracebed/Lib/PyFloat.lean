import Tracebed.Lib.PyText

/-!
# Python Floats

A Python `float` is an IEEE 754 binary64 number. A finite value is the rational number it denotes,
so that `==` is equality of rationals; negative zero is kept apart because `repr` shows it.

* `PyFloat.ofDecimalRat` is the correctly rounded conversion `float(text)` performs
  (round half to even, gradual underflow, overflow to infinity).
* `PyFloat.repr` is `repr(x)`: the shortest decimal that converts back to `x`.
* `PyFloat.le` is `<=`; every comparison with a NaN is false.

An operator rounds the exact result once, to the nearest float. Zeros keep their sign, infinities
absorb, and an operation without a value gives a NaN; one that raises returns `none`.
-/

namespace Py

/-- A Python `float`. -/
inductive PyFloat
  | nan
  | posInf
  | negInf
  | negZero
  | fin (q : ℚ)
  deriving DecidableEq

namespace PyFloat

/-- The number a finite float denotes. -/
def toRat? : PyFloat → Option ℚ
  | nan | posInf | negInf => none
  | negZero => some 0
  | fin q => some q

/-- `x <= y`. -/
def le : PyFloat → PyFloat → Bool
  | nan, _ => false
  | _, nan => false
  | negInf, _ => true
  | _, posInf => true
  | posInf, _ => false
  | _, negInf => false
  | x, y => decide (x.toRat?.getD 0 ≤ y.toRat?.getD 0)

/-- `x == i` for a Python `int` on the right: exact comparison of the two numbers. -/
def eqInt (x : PyFloat) (i : ℤ) : Bool :=
  match x.toRat? with
  | some q => decide (q = i)
  | none => false

/-- `x == y`: numeric equality, false on NaN. -/
def eqFloat : PyFloat → PyFloat → Bool
  | nan, _ => false
  | _, nan => false
  | posInf, posInf => true
  | negInf, negInf => true
  | x, y =>
    match x.toRat?, y.toRat? with
    | some p, some q => decide (p = q)
    | _, _ => false

variable (q : ℚ)

/-- Round a nonnegative rational to the nearest natural number, halves to even. -/
def roundHalfEven : ℕ :=
  let f := q.floor.toNat
  let r := q - f
  if r < 1 / 2 then f else if 1 / 2 < r then f + 1 else if f % 2 = 0 then f else f + 1

/-- `2 ^ k` for an integer exponent. -/
def twoPow (k : ℤ) : ℚ := if 0 ≤ k then 2 ^ k.toNat else 1 / 2 ^ (-k).toNat

/-- `10 ^ k` for an integer exponent. -/
def tenPow (k : ℤ) : ℚ := if 0 ≤ k then 10 ^ k.toNat else 1 / 10 ^ (-k).toNat

/-- `⌊log₂ q⌋` for `q > 0`. -/
def log2Floor : ℤ :=
  let e : ℤ := (Nat.log2 q.num.natAbs : ℤ) - (Nat.log2 q.den : ℤ)
  if twoPow e ≤ q then e else e - 1

/-- The binary64 number nearest to the magnitude `q ≥ 0`, with the given sign. -/
def ofDecimalRat (neg : Bool) (q : ℚ) : PyFloat :=
  if q = 0 then (if neg then negZero else fin 0)
  else
    -- The unit in the last place; `-1074` is the gradual-underflow floor.
    let k := max (log2Floor q - 52) (-1074)
    let v := roundHalfEven (q / twoPow k) * twoPow k
    if twoPow 1024 ≤ v then (if neg then negInf else posInf)
    else if v = 0 then (if neg then negZero else fin 0)
    else fin (if neg then -v else v)

/-- The decimal exponent `d` of `q > 0`: `10 ^ (d - 1) ≤ q < 10 ^ d`. -/
def decimalPoint : ℤ :=
  let e : ℤ := ((decimal q.num.natAbs).length : ℤ) - ((decimal q.den).length : ℤ)
  if tenPow e ≤ q then e + 1 else e

/-- A `p`-digit significand with its decimal point, the carry into an extra digit folded
back: the value is `0.d₁d₂… × 10 ^ point`. -/
def normDigits (m p : ℕ) (d : ℤ) : ℕ × ℤ := if 10 ^ p ≤ m then (m / 10, d + 1) else (m, d)

/-- Whether a significand converts back to the float with magnitude `q`. -/
def convertsBack (p : ℕ) (r : ℕ × ℤ) : Bool :=
  ofDecimalRat false (r.1 * tenPow (r.2 - p)) = fin q

/-- The shortest digits that convert back to `q > 0`, tried at precisions `p, p + 1, …`:
at each one the nearest significand, then its neighbour on the other side of `q` (just
above a power of two only the farther one may convert back). Seventeen digits always
do. -/
def shortest (q : ℚ) : ℕ → ℕ → ℕ × ℤ
  | 0, p => normDigits (roundHalfEven (q / tenPow (decimalPoint q - p))) p (decimalPoint q)
  | fuel + 1, p =>
    let d := decimalPoint q
    let x := q / tenPow (d - p)
    let m := roundHalfEven x
    let near := normDigits m p d
    let far := normDigits (if (m : ℚ) ≤ x then m + 1 else m - 1) p d
    if convertsBack q p near then near
    else if convertsBack q p far then far
    else shortest q fuel (p + 1)

/-- Drop the trailing zero digits of a nonempty digit string. -/
def stripZeros (s : PyStr) : PyStr :=
  match (s.reverse.dropWhile (· == 48)).reverse with
  | [] => [48]
  | t => t

/-- The positional or exponent notation of the digits `ds` with decimal point `pt`. -/
def formatDigits (ds : PyStr) (pt : ℤ) : PyStr :=
  if -4 < pt ∧ pt ≤ 16 then
    if pt ≤ 0 then str "0." ++ List.replicate (-pt).toNat 48 ++ ds
    else if ds.length ≤ pt.toNat then
      ds ++ List.replicate (pt.toNat - ds.length) 48 ++ str ".0"
    else ds.take pt.toNat ++ str "." ++ ds.drop pt.toNat
  else
    let e := pt - 1
    let mant := if ds.length ≤ 1 then ds else ds.take 1 ++ str "." ++ ds.drop 1
    let expo := decimal e.natAbs
    mant ++ str (if e < 0 then "e-" else "e+")
      ++ (if expo.length < 2 then 48 :: expo else expo)

/-- `repr(x)` of a nonzero finite magnitude. -/
def reprPos : PyStr :=
  let r := shortest q 16 1
  formatDigits (stripZeros (decimal r.1)) r.2

/-- `repr(x)`. -/
def repr : PyFloat → PyStr
  | nan => str "nan"
  | posInf => str "inf"
  | negInf => str "-inf"
  | negZero => str "-0.0"
  | fin q =>
    if q = 0 then str "0.0"
    else if q < 0 then str "-" ++ reprPos (-q)
    else reprPos q

/-! ### Arithmetic -/

/-- `math.isfinite(x)`. -/
def isFinite (x : PyFloat) : Bool := x.toRat?.isSome

variable (x y : PyFloat)

/-- `x < y`; false when either is a NaN. -/
def lt : Bool := le x y && !le y x

/-- Whether the sign bit is set. -/
def isNeg : PyFloat → Bool
  | negInf | negZero => true
  | fin q => decide (q < 0)
  | nan | posInf => false

/-- Whether the number is a zero of either sign. -/
def isZero (x : PyFloat) : Bool := x.eqInt 0

/-- The binary64 number nearest to `q`. -/
def round (q : ℚ) : PyFloat := ofDecimalRat (decide (q < 0)) |q|

/-- `float(n)`. -/
def ofInt (n : ℤ) : Option PyFloat :=
  match round n with
  | fin q => some (fin q)
  | _ => none

/-- `-x`. -/
def neg : PyFloat → PyFloat
  | nan => nan
  | posInf => negInf
  | negInf => posInf
  | negZero => fin 0
  | fin q => if q = 0 then negZero else fin (-q)

/-- `x + y`. -/
def add : PyFloat → PyFloat → PyFloat
  | nan, _ | _, nan => nan
  | posInf, negInf | negInf, posInf => nan
  | posInf, _ | _, posInf => posInf
  | negInf, _ | _, negInf => negInf
  | negZero, negZero => negZero
  | x, y => round (x.toRat?.getD 0 + y.toRat?.getD 0)

/-- `x - y`. -/
def sub : PyFloat := add x (neg y)

/-- An infinity with the given sign. -/
def infinity (negative : Bool) : PyFloat := if negative then negInf else posInf

/-- `x * y`. -/
def mul : PyFloat :=
  match x.toRat?, y.toRat? with
  | some p, some q => ofDecimalRat (x.isNeg ^^ y.isNeg) |p * q|
  | _, _ =>
    if x = nan ∨ y = nan ∨ x.isZero ∨ y.isZero then nan else infinity (x.isNeg ^^ y.isNeg)

/-- `x / y`. -/
def div : Option PyFloat :=
  if y.isZero then none
  else
    match x.toRat?, y.toRat? with
    | some p, some q => some (ofDecimalRat (x.isNeg ^^ y.isNeg) |p / q|)
    | some _, none => some (if y = nan then nan else ofDecimalRat (x.isNeg ^^ y.isNeg) 0)
    | none, some _ => some (if x = nan then nan else infinity (x.isNeg ^^ y.isNeg))
    | none, none => some nan

/-- `min(x, y)`: the second argument only when it is smaller. -/
def pyMin : PyFloat := if lt y x then y else x

/-- `max(x, y)`: the second argument only when it is larger. -/
def pyMax : PyFloat := if lt x y then y else x

/-- `math.ceil(x)`. -/
def ceil (x : PyFloat) : Option ℤ := x.toRat?.map fun q => ⌈q⌉

/-- `int(x)`: the fraction is cut off. -/
def trunc (x : PyFloat) : Option ℤ := x.toRat?.map fun q => if q < 0 then ⌈q⌉ else ⌊q⌋

end PyFloat

end Py
