namespace ScriptVm.Real

/-- A binary format: `fractionBits` are stored below `exponentBits`, and the sign is the highest
bit. The bits of a value are a natural number here. -/
structure Format where
  fractionBits : Nat
  exponentBits : Nat
  deriving DecidableEq, Repr

def single : Format := ⟨23, 8⟩
def double : Format := ⟨52, 11⟩

namespace Format

def signBit (f : Format) : Nat := Nat.pow 2 (f.fractionBits + f.exponentBits)

def infinity (f : Format) : Nat := (Nat.pow 2 f.exponentBits - 1) * Nat.pow 2 f.fractionBits

def leastExponent (f : Format) : Int := 2 - (Nat.pow 2 (f.exponentBits - 1) : Int) - f.fractionBits

def isNegative (f : Format) (bits : Nat) : Bool := f.signBit ≤ bits

def magnitude (f : Format) (bits : Nat) : Nat := bits % f.signBit

def isNaN (f : Format) (bits : Nat) : Bool := f.infinity < f.magnitude bits

def isInfinite (f : Format) (bits : Nat) : Bool := f.magnitude bits == f.infinity

def decode (f : Format) (magnitude : Nat) : Nat × Int :=
  let e := magnitude / Nat.pow 2 f.fractionBits
  let m := magnitude % Nat.pow 2 f.fractionBits
  if e = 0 then (m, f.leastExponent)
  else (m + Nat.pow 2 f.fractionBits, f.leastExponent + (e - 1 : Nat))

def roundQuotient (num den : Nat) : Nat :=
  let k := num / den
  let r := num % den
  if den < 2 * r || (2 * r == den && k % 2 == 1) then k + 1 else k

/-- The magnitude nearest to `num / den`, a tie going to the even neighbour. What lies beyond the
greatest finite value by half a place or more becomes infinite. -/
def nearest (f : Format) (num den : Nat) : Nat :=
  if num = 0 then 0
  else
    let guess : Int := (num.log2 : Int) - den.log2
    let reaches :=
      if 0 ≤ guess then den * Nat.pow 2 guess.toNat ≤ num else den ≤ num * Nat.pow 2 (-guess).toNat
    let e := if reaches then guess else guess - 1
    let q := max f.leastExponent (e - f.fractionBits)
    let m :=
      if 0 ≤ q then roundQuotient num (den * Nat.pow 2 q.toNat)
      else roundQuotient (num * Nat.pow 2 (-q).toNat) den
    min f.infinity ((q - f.leastExponent).toNat * Nat.pow 2 f.fractionBits + m)

def nearestScaled (f : Format) (m : Nat) (q : Int) : Nat :=
  if 0 ≤ q then f.nearest (m * Nat.pow 2 q.toNat) 1 else f.nearest m (Nat.pow 2 (-q).toNat)

/-- The remainder of finite magnitudes, the divisor not zero: what is left after taking away the
divisor a whole number of times. It is exact. -/
def remainder (f : Format) (x y : Nat) : Nat :=
  let (mx, qx) := f.decode x
  let (my, qy) := f.decode y
  let q := min qx qy
  f.nearestScaled (mx * Nat.pow 2 (qx - q).toNat % (my * Nat.pow 2 (qy - q).toNat)) q

end Format
end ScriptVm.Real
