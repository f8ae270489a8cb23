/-!
# ReactWeave.Number.Binary64

**Double-precision numbers** as exact values: a sign, and a natural number times
a power of two.

* `Binary64.ofDecimal` rounds a decimal to the nearest double, ties to even.
* `Binary64.shortest` finds the fewest decimal digits that read back as the
  same double, and of those the nearest.
* `Binary64.write` spells a double out.
-/

namespace ReactWeave.Number

/-- A power of two. -/
def twoTo (n : Nat) : Nat := Nat.pow 2 n

/-- A power of ten. -/
def tenTo (n : Nat) : Nat := Nat.pow 10 n

/-- A double-precision number. A finite one is `mantissa * 2 ^ exponent`; its mantissa is below
`2 ^ 53`, its exponent at least `-1074`, and the mantissa is at least `2 ^ 52` unless the exponent
is the least one. -/
inductive Binary64 where
  | nan
  | infinite (negative : Bool)
  | finite (negative : Bool) (mantissa : Nat) (exponent : Int)
  deriving DecidableEq, Repr

namespace Binary64

/-- The least exponent. -/
def minExponent : Int := -1074

/-- The greatest exponent. -/
def maxExponent : Int := 971

/-- Zero with a sign. -/
def zero (negative : Bool) : Binary64 := .finite negative 0 minExponent

/-! ## Reading -/

/-- A quotient rounded to the nearest natural number, a half to the even one. -/
def roundQuotient (num den : Nat) : Nat :=
  let q := num / den
  let r := num % den
  if 2 * r < den then q
  else if den < 2 * r then q + 1
  else if q % 2 == 0 then q else q + 1

/-- `num / den` times `2 ^ (-e)`, rounded. -/
def scaledQuotient (num den : Nat) (e : Int) : Nat :=
  if 0 ≤ e then roundQuotient num (den * twoTo e.toNat)
  else roundQuotient (num * twoTo (-e).toNat) den

/-- The double nearest to `num / den`. -/
def ofQuotient (negative : Bool) (num den : Nat) : Binary64 :=
  if num == 0 then zero negative
  else
    let guess : Int := (num.log2 : Int) - (den.log2 : Int) - 52
    -- `num / den` is at least `2 ^ (guess + 51)` and below `2 ^ (guess + 53)`.
    let low : Int := if num * twoTo (-(guess + 52)).toNat < den * twoTo (guess + 52).toNat
      then guess - 1 else guess
    let e := max low minExponent
    let m := scaledQuotient num den e
    let (m, e) := if m == twoTo 53 then (twoTo 52, e + 1) else (m, e)
    if maxExponent < e then .infinite negative else .finite negative m e

/-- The double nearest to `digits * 10 ^ exponent`. Exponents far beyond the range of doubles are
decided without computing the power. -/
def ofDecimal (negative : Bool) (digits : Nat) (exponent : Int) : Binary64 :=
  if digits == 0 then zero negative
  else
    let size : Int := (Nat.toDigits 10 digits).length + exponent
    if 310 < size then .infinite negative
    else if size < -330 then zero negative
    else if 0 ≤ exponent then ofQuotient negative (digits * tenTo exponent.toNat) 1
    else ofQuotient negative digits (tenTo (-exponent).toNat)

/-! ## Shortest digits -/

/-- The reals that round to a double, and the double itself, over one denominator; `closed` says
that the ends round to it too. -/
structure Neighbourhood where
  low : Nat
  value : Nat
  high : Nat
  den : Nat
  closed : Bool

/-- The reals that round to `mantissa * 2 ^ exponent`. The gap below a power of two is half the gap
above it. -/
def neighbourhood (mantissa : Nat) (exponent : Int) : Neighbourhood :=
  let down := if mantissa == twoTo 52 && minExponent < exponent then 1 else 2
  let up := twoTo exponent.toNat
  { low := (4 * mantissa - down) * up
    value := 4 * mantissa * up
    high := (4 * mantissa + 2) * up
    den := 4 * twoTo (-exponent).toNat
    closed := mantissa % 2 == 0 }

/-- Whether `n * 10 ^ scale` is in the neighbourhood. -/
def Neighbourhood.holds (r : Neighbourhood) (n : Nat) (scale : Int) : Bool :=
  let x := n * tenTo scale.toNat * r.den
  let up := tenTo (-scale).toNat
  if r.closed then r.low * up ≤ x && x ≤ r.high * up
  else r.low * up < x && x < r.high * up

/-- The number of digits in front of the decimal point, for a value of at least one; else one less
the number of zeros behind the point, counted down from `1`. -/
def pointFrom (num den : Nat) : Nat → Int → Int
  | 0, k => k
  | fuel + 1, k =>
    if den ≤ num * tenTo (1 - k).toNat then k else pointFrom num den fuel (k - 1)

/-- The position of the decimal point: `10 ^ (k - 1) ≤ num / den < 10 ^ k`. -/
def pointPosition (num den : Nat) : Int :=
  if den ≤ num then (Nat.toDigits 10 (num / den)).length
  else pointFrom num den 400 0

/-- Tries grids of more and more digits: the first one on which a neighbour of the value rounds to
it, and the nearer one of two that do. -/
def shortestFrom (r : Neighbourhood) (point : Int) : Nat → Nat → Nat × Int
  | 0, _ => (0, 0)
  | fuel + 1, count =>
    let scale := point - count
    let num := r.value * tenTo (-scale).toNat
    let den := r.den * tenTo scale.toNat
    let below := num / den
    let rest := num % den
    let belowHolds := r.holds below scale
    let aboveHolds := r.holds (below + 1) scale
    if belowHolds && aboveHolds then
      if 2 * rest < den || (2 * rest == den && below % 2 == 0) then (below, scale)
      else (below + 1, scale)
    else if belowHolds then (below, scale)
    else if aboveHolds then (below + 1, scale)
    else shortestFrom r point fuel (count + 1)

/-- The fewest digits that read back as `mantissa * 2 ^ exponent`, as a number and the power of ten
it is multiplied by. -/
def shortest (mantissa : Nat) (exponent : Int) : Nat × Int :=
  let r := neighbourhood mantissa exponent
  shortestFrom r (pointPosition r.value r.den) 20 1

/-! ## Writing -/

/-- The digits of a number without the zeros at its end, and how many were dropped. -/
def dropZeros (digits : List Char) : List Char × Nat :=
  let zeros := (digits.reverse.takeWhile (· == '0')).length
  (digits.take (digits.length - zeros), zeros)

/-- An exponent with a sign and at least two digits. -/
def writeExponent (e : Int) : List Char :=
  let digits := Nat.toDigits 10 e.natAbs
  (if e < 0 then '-' else '+') :: (if digits.length < 2 then '0' :: digits else digits)

/-- Digits with the decimal point at `point`. From `10 ^ 16` on and below `10 ^ (-4)` an exponent is
written; otherwise a fraction is always written, if only as a zero. -/
def placePoint (digits : List Char) (point : Int) : List Char :=
  if -4 < point && point ≤ 16 then
    if point ≤ 0 then '0' :: '.' :: List.replicate (-point).toNat '0' ++ digits
    else
      let n := point.toNat
      if digits.length ≤ n then digits ++ List.replicate (n - digits.length) '0' ++ ['.', '0']
      else digits.take n ++ '.' :: digits.drop n
  else
    match digits with
    | [] => []
    | d :: ds => (if ds.isEmpty then [d] else d :: '.' :: ds) ++ 'e' :: writeExponent (point - 1)

/-- A finite number in the fewest digits that read back. -/
def writeFinite (negative : Bool) (mantissa : Nat) (exponent : Int) : List Char :=
  let sign := if negative then ['-'] else []
  if mantissa == 0 then sign ++ ['0', '.', '0']
  else
    let (n, scale) := shortest mantissa exponent
    let digits := Nat.toDigits 10 n
    sign ++ placePoint (dropZeros digits).1 (digits.length + scale)

/-- The spellings of the numbers that are not finite. -/
structure Spelling where
  nan : String
  infinity : String

/-- A number, with a spelling for those that are not finite. -/
def write (sp : Spelling) : Binary64 → String
  | .nan => sp.nan
  | .infinite negative => if negative then "-" ++ sp.infinity else sp.infinity
  | .finite negative m e => String.ofList (writeFinite negative m e)

/-- Whether a number is zero, of either sign. -/
def isZero : Binary64 → Bool
  | .finite _ m _ => m == 0
  | _ => false

/-- Whether a number equals an integer. -/
def equalsInt (x : Binary64) (n : Int) : Bool :=
  match x with
  | .finite negative m e =>
    let num := m * twoTo e.toNat
    let den := twoTo (-e).toNat
    num == n.natAbs * den && (n == 0 || negative == decide (n < 0))
  | _ => false

/-- Whether two numbers are equal: zeros of both signs are, and nothing equals a NaN. -/
def equals : Binary64 → Binary64 → Bool
  | .nan, _ => false
  | _, .nan => false
  | x, y => x == y || (x.isZero && y.isZero)

end Binary64

end ReactWeave.Number
