import ScriptVm.Real.Format

namespace ScriptVm.Decimal

open ScriptVm.Real

/-- `digits * 10 ^ exponent`. -/
structure Scaled where
  digits : Nat
  exponent : Int
  deriving DecidableEq, Repr

/-- Which neighbour is taken when two of the fewest digits are equally near. -/
inductive Tie where
  | up | even
  deriving DecidableEq, Repr

def digitCount (n : Nat) : Nat := (Nat.toDigits 10 n).length

def floorLog10 (num den : Nat) : Int :=
  if den ≤ num then (digitCount (num / den) : Int) - 1
  else
    let l := digitCount (den / num)
    if den ≤ num * Nat.pow 10 (l - 1) then 1 - (l : Int) else -l

/-- The reals that round to `value` lie between `low` and `high`, in units of `2 ^ unit`; the ends
belong to them if `closed`. -/
structure Interval where
  low : Nat
  value : Nat
  high : Nat
  unit : Int
  closed : Bool

/-- The values of a binade have the lower neighbour at half the distance below its first one. -/
def Interval.ofMagnitude (f : Format) (magnitude : Nat) : Interval :=
  let (m, q) := f.decode magnitude
  let first := m == Nat.pow 2 f.fractionBits && q != f.leastExponent
  { low := 4 * m - (if first then 1 else 2), value := 4 * m, high := 4 * m + 2, unit := q - 2,
    closed := m % 2 == 0 }

/-- A multiple of `10 ^ k` in the interval that is one of the two nearest to its value. -/
def Interval.grid? (i : Interval) (tie : Tie) (k : Int) : Option Nat :=
  let num := Nat.pow 2 i.unit.toNat * Nat.pow 10 (-k).toNat
  let den := Nat.pow 2 (-i.unit).toNat * Nat.pow 10 k.toNat
  let c := i.value * num / den
  let below := if i.closed then i.low * num ≤ c * den else i.low * num < c * den
  let above := if i.closed then (c + 1) * den ≤ i.high * num else (c + 1) * den < i.high * num
  let down := i.value * num - c * den
  let up := (c + 1) * den - i.value * num
  if below && above then
    if down < up then some c
    else if up < down then some (c + 1)
    else match tie with
      | .up => some (c + 1)
      | .even => some (if c % 2 = 0 then c else c + 1)
  else if below then some c
  else if above then some (c + 1)
  else none

def Scaled.reduce : Nat → Nat → Int → Scaled
  | 0, d, e => ⟨d, e⟩
  | n + 1, d, e => if d % 10 = 0 ∧ d ≠ 0 then reduce n (d / 10) (e + 1) else ⟨d, e⟩

def Interval.digits (i : Interval) (tie : Tie) (top : Int) : Nat → Nat → Scaled
  | 0, n => ⟨i.value, top - n⟩
  | fuel + 1, n =>
    match i.grid? tie (top - n) with
    | some d => Scaled.reduce 20 d (top - n)
    | none => digits i tie top fuel (n + 1)

/-- The shortest decimal for a positive finite magnitude. Twenty digits are more than any format
needs. -/
def shortest (f : Format) (tie : Tie) (magnitude : Nat) : Scaled :=
  let i := Interval.ofMagnitude f magnitude
  let top := floorLog10 (i.value * Nat.pow 2 i.unit.toNat) (Nat.pow 2 (-i.unit).toNat)
  i.digits tie top 20 0

end ScriptVm.Decimal
