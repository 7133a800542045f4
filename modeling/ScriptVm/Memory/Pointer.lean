import ScriptVm.Word

namespace ScriptVm

/-- A block and a word within it. -/
structure Pointer where
  block : UInt32 := 0
  offset : UInt32 := 0
  deriving DecidableEq, Inhabited, Repr

namespace Pointer

def shift? (p : Pointer) (delta : Int) : Option Pointer :=
  let offset := (p.offset.toNat : Int) + delta
  if 0 ≤ offset then (word? offset.toNat).map fun offset => { p with offset } else none

def reaches (p : Pointer) (delta : Int64) : Bool :=
  (p.offset.toNat : Int) + delta.toInt < 9223372036854775808

end Pointer
end ScriptVm
