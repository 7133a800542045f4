import ScriptVm.Decimal.Shortest

namespace ScriptVm.Decimal

open ScriptVm.Real

/-- The decisions of a number format. A value with its first digit at `10 ^ e` is written in full if
`e` is in the positional range, else with an exponent. -/
structure Layout where
  positional : Int → Bool
  /-- An integer in full keeps a zero after the point. -/
  keepPoint : Bool
  /-- A positive exponent has a sign. -/
  plusExponent : Bool
  tie : Tie
  nan : String := "NaN"
  infinity : String := "inf"

private def zeros (n : Nat) : String := String.ofList (List.replicate n '0')

def Layout.full (l : Layout) (s : Scaled) : String :=
  let ds := Nat.toDigits 10 s.digits
  if 0 ≤ s.exponent then
    String.ofList ds ++ zeros s.exponent.toNat ++ (if l.keepPoint then ".0" else "")
  else
    let places := (-s.exponent).toNat
    if places < ds.length then
      String.ofList (ds.take (ds.length - places)) ++ "." ++
        String.ofList (ds.drop (ds.length - places))
    else "0." ++ zeros (places - ds.length) ++ String.ofList ds

def Layout.scientific (l : Layout) (s : Scaled) (e : Int) : String :=
  let ds := Nat.toDigits 10 s.digits
  String.ofList (ds.take 1) ++
    (if ds.length = 1 then "" else "." ++ String.ofList (ds.drop 1)) ++ "e" ++
    (if 0 ≤ e && l.plusExponent then "+" else "") ++ toString e

def Layout.write (l : Layout) (f : Format) (bits : Nat) : String :=
  if f.isNaN bits then l.nan
  else
    let m := f.magnitude bits
    (if f.isNegative bits then "-" else "") ++
      if f.isInfinite bits then l.infinity
      else if m = 0 then l.full ⟨0, 0⟩
      else
        let s := shortest f l.tie m
        let e := s.exponent + digitCount s.digits - 1
        if l.positional e then l.full s else l.scientific s e

def Layout.listing : Layout :=
  { positional := fun e => -4 ≤ e && e < 16, keepPoint := true, plusExponent := false, tie := .up }

def Layout.plain : Layout :=
  { positional := fun _ => true, keepPoint := false, plusExponent := false, tie := .up }

end ScriptVm.Decimal
