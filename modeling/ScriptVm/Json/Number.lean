import ScriptVm.Json.Basic
import ScriptVm.Real.Format
import ScriptVm.Text.Integer

namespace ScriptVm.Json

/-- The parts of a number; the exponent has a sign and digits. -/
structure Number where
  negative : Bool
  whole : List Nat
  fraction : Option (List Nat)
  exponent : Option (Bool × List Nat)
  deriving DecidableEq, Repr

/-- An integer that fits 64 bits is exact; any other number is a 64-bit floating-point value that is
computed from its first digits and a power of ten, in floating-point arithmetic. -/
inductive NumberValue where
  | natural (n : Nat)
  | negative (n : Int)
  /-- A floating-point value, by its bits. -/
  | real (bits : UInt64)
  /-- Beyond the greatest floating-point value. -/
  | outOfRange
  deriving DecidableEq, Repr

namespace Number

def digits (cs : List Char) : List Nat × List Char :=
  (cs.takeWhile (fun c => (Text.digit? c).isSome) |>.filterMap Text.digit?,
    cs.dropWhile fun c => (Text.digit? c).isSome)

def wholeOk : List Nat → Bool
  | [] => false
  | [_] => true
  | d :: _ => d != 0

def readExponent? : List Char → Option (Option (Bool × List Nat))
  | [] => some none
  | c :: cs =>
    if c = 'e' ∨ c = 'E' then
      let (negative, cs) := match cs with
        | '+' :: cs => (false, cs)
        | '-' :: cs => (true, cs)
        | cs => (false, cs)
      match digits cs with
      | ([], _) | (_, _ :: _) => none
      | (ds, []) => some (some (negative, ds))
    else none

def read? (lexeme : List Char) : Option Number :=
  let (negative, cs) := match lexeme with
    | '-' :: cs => (true, cs)
    | cs => (false, cs)
  let (whole, cs) := digits cs
  if wholeOk whole then
    match cs with
    | '.' :: cs =>
      match digits cs with
      | ([], _) => none
      | (fraction, cs) => (readExponent? cs).map fun exponent =>
          { negative, whole, fraction := some fraction, exponent }
    | cs => (readExponent? cs).map fun exponent => { negative, whole, fraction := none, exponent }
  else none

def accumulate (n : Nat) : List Nat → Nat × Nat
  | [] => (n, 0)
  | d :: ds =>
    if 10 * n + d < 18446744073709551616 then accumulate (10 * n + d) ds else (n, ds.length + 1)

def tenTo (n : Nat) : Float := Float.ofBits (Real.double.nearest (Nat.pow 10 n) 1).toUInt64

/-- `f * 10 ^ e`, or none above the range. A power of ten without a value of its own is taken in
steps. -/
def scale? : Nat → Float → Int → Option Float
  | 0, f, _ => some f
  | fuel + 1, f, e =>
    if e.natAbs ≤ 308 then
      if 0 ≤ e then
        let r := f * tenTo e.natAbs
        if r.isInf then none else some r
      else some (f / tenTo e.natAbs)
    else if f == 0 then some f
    else if 0 ≤ e then none
    else scale? fuel (f / tenTo 308) (e + 308)

def real (negative : Bool) (significand : Nat) (e : Int) : NumberValue :=
  match scale? 4 significand.toUInt64.toFloat e with
  | none => .outOfRange
  | some f => .real (if negative then -f else f).toBits

def exponentValue? (ds : List Nat) : Option Nat :=
  let n := ds.foldl (fun n d => 10 * n + d) 0
  if n < 2147483648 then some n else none

def value (n : Number) : NumberValue :=
  let (significand, left) := accumulate 0 n.whole
  let (significand, e) := match n.fraction with
    | none => (significand, (left : Int))
    | some ds =>
      let (s, ignored) := accumulate significand ds
      (s, left - (ds.length - ignored : Nat))
  match n.exponent with
  | some (negative, ds) =>
    match exponentValue? ds with
    | some k => real n.negative significand (if negative then e - k else e + k)
    | none =>
      if significand ≠ 0 && !negative then .outOfRange
      else .real (if n.negative then 0x8000000000000000 else 0)
  | none =>
    if n.fraction.isSome || left ≠ 0 then real n.negative significand e
    else if !n.negative then .natural significand
    else if 0 < significand ∧ significand ≤ 9223372036854775808 then .negative (-significand)
    else real true significand 0

end Number

def numberValue? (lexeme : String) : Option NumberValue :=
  (Number.read? lexeme.toList).map Number.value

def natural? (bound : Nat) : Json → Option Nat
  | number lexeme =>
    match numberValue? lexeme with
    | some (.natural n) => if n < bound then some n else none
    | _ => none
  | _ => none

def integer? (bits : Nat) : Json → Option Int
  | number lexeme =>
    let value : Option Int := match numberValue? lexeme with
      | some (.natural n) => some n
      | some (.negative n) => some n
      | _ => none
    value.filter fun v => -(Nat.pow 2 (bits - 1) : Int) ≤ v && v < Nat.pow 2 (bits - 1)
  | _ => none

end ScriptVm.Json
