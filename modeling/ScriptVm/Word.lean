namespace ScriptVm

/-- The value of two words of 32 bits, the low one first. -/
def joinWords (lo hi : UInt32) : UInt64 := lo.toUInt64 ||| (hi.toUInt64 <<< 32)

def lowWord (v : UInt64) : UInt32 := v.toUInt32

def highWord (v : UInt64) : UInt32 := (v >>> 32).toUInt32

def word? (n : Nat) : Option UInt32 := if n < 4294967296 then some n.toUInt32 else none

def total {α : Type} (count : α → Nat) (xs : List α) : Nat := xs.foldr (fun a n => count a + n) 0

def littleEndian : Nat → Nat → List UInt8
  | 0, _ => []
  | n + 1, v => v.toUInt8 :: littleEndian n (v / 256)

def ofLittleEndian : List UInt8 → Nat
  | [] => 0
  | b :: bs => b.toNat + 256 * ofLittleEndian bs

def hexDigits (n : Nat) : String := String.ofList (Nat.toDigits 16 n)

def hexPadded (width n : Nat) : String :=
  let digits := Nat.toDigits 16 n
  String.ofList (List.replicate (width - digits.length) '0' ++ digits)

def hexBytes (bytes : List UInt8) : String :=
  String.join (bytes.map fun b => hexPadded 2 b.toNat)

end ScriptVm
