import ScriptVm.Real.Format
import ScriptVm.Text.Integer
import ScriptVm.Decimal.Shortest

namespace ScriptVm.Decimal

open ScriptVm.Real

/-- The magnitude nearest to a decimal. Far beyond the range of every format the answer needs no
power of ten. -/
def nearest (f : Format) (s : Scaled) : Nat :=
  let size := s.exponent + digitCount s.digits
  if s.digits = 0 then 0
  else if 400 < size then f.infinity
  else if size < -400 then 0
  else if 0 ≤ s.exponent then f.nearest (s.digits * Nat.pow 10 s.exponent.toNat) 1
  else f.nearest s.digits (Nat.pow 10 (-s.exponent).toNat)

private def isDigit (c : Char) : Bool := (Text.digit? c).isSome

def exponent? : List Char → Option Int
  | '+' :: cs => (Text.natural? cs).map Int.ofNat
  | '-' :: cs => (Text.natural? cs).map fun n => -Int.ofNat n
  | cs => (Text.natural? cs).map Int.ofNat

/-- Digits with an optional point and exponent. There is a digit before or after the point. -/
def scaled? (cs : List Char) : Option Scaled :=
  let whole := cs.takeWhile isDigit
  let rest := cs.dropWhile isDigit
  let (fraction, rest) := match rest with
    | '.' :: cs => (cs.takeWhile isDigit, cs.dropWhile isDigit)
    | _ => ([], rest)
  (Text.natural? (whole ++ fraction)).bind fun digits =>
    match rest with
    | [] => some ⟨digits, -(fraction.length : Int)⟩
    | c :: cs =>
      if c = 'e' ∨ c = 'E' then (exponent? cs).map fun e => ⟨digits, e - fraction.length⟩ else none

def special? (f : Format) (cs : List Char) : Option Nat :=
  match String.ofList (cs.map Char.toLower) with
  | "inf" | "infinity" => some f.infinity
  | "nan" => some (f.infinity + Nat.pow 2 (f.fractionBits - 1))
  | _ => none

/-- Reads decimal text as the nearest floating-point value. -/
def read? (f : Format) (text : String) : Option Nat :=
  let (sign, cs) := match text.toList with
    | '-' :: cs => (f.signBit, cs)
    | '+' :: cs => (0, cs)
    | cs => (0, cs)
  ((special? f cs).orElse fun _ => (scaled? cs).map (nearest f)).map (sign + ·)

end ScriptVm.Decimal
