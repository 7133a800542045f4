import ScriptVm.Id
import ScriptVm.Memory.Pointer

namespace ScriptVm

/-- A heap slot together with its generation, which changes when the object is destroyed. -/
structure Handle where
  index : UInt32
  generation : UInt32
  deriving DecidableEq, Inhabited, Repr

namespace Handle

def bits (h : Handle) : UInt64 := (h.generation.toUInt64 <<< 32) ||| (h.index.toUInt64 + 1)

def ofBits? (bits : UInt64) : Option Handle :=
  let low := lowWord bits
  if low = 0 then none else some { index := low - 1, generation := highWord bits }

def optBits (h : Option Handle) : UInt64 := (h.map bits).getD 0

end Handle

/-- The address of a word, kept in memory as two words, as a handle is; all bits zero is null. -/
inductive Address where
  | null
  /-- A word on the stack of a context. -/
  | stack (p : Pointer)
  /-- A word of the globals of a module. -/
  | global (module : ModuleId) (offset : UInt32)
  /-- A field of an object. Only the low half of the generation is kept. -/
  | field (index : UInt32) (generation : UInt16) (offset : UInt32)
  /-- A constant string, which only the host can read. -/
  | string (module : ModuleId) (index : UInt32)
  deriving DecidableEq, Inhabited, Repr

namespace Address

def ofHandle (h : Handle) (offset : UInt32) : Address := field h.index h.generation.toUInt16 offset

private def addOffset? (offset words : UInt32) : Option UInt32 := word? (offset.toNat + words.toNat)

def addWords? (words : UInt32) : Address → Option Address
  | null | string _ _ => none
  | stack p => (p.shift? words.toNat).map stack
  | global m offset => (addOffset? offset words).map (global m)
  | field i g offset => (addOffset? offset words).map (field i g)

private def tagged (tag high low : UInt64) : UInt64 := (tag <<< 60) ||| (high <<< 32) ||| low

/-- The tag is in the highest four bits. Block and module numbers keep 16 bits, a field's slot 24
and its offset 20. -/
def bits : Address → UInt64
  | null => 0
  | stack p => tagged 1 (p.block.toUInt64 &&& 0xffff) p.offset.toUInt64
  | global m offset => tagged 2 (m.val.toUInt64 &&& 0xffff) offset.toUInt64
  | field i g offset =>
    tagged 3 ((i.toUInt64 &&& 0xffffff) <<< 4) ((g.toUInt64 <<< 20) ||| (offset.toUInt64 &&& 0xfffff))
  | string m index => tagged 4 (m.val.toUInt64 &&& 0xffff) index.toUInt64

def ofBits? (bits : UInt64) : Option Address :=
  let high := ((bits >>> 32) &&& 0xffff).toUInt32
  match (bits >>> 60).toNat with
  | 0 => if bits = 0 then some null else none
  | 1 => some (stack { block := high, offset := lowWord bits })
  | 2 => some (global ⟨high⟩ (lowWord bits))
  | 3 => some (field ((bits >>> 36) &&& 0xffffff).toUInt32 ((bits >>> 20) &&& 0xffff).toUInt16
      (bits &&& 0xfffff).toUInt32)
  | 4 => some (string ⟨high⟩ (lowWord bits))
  | _ => none

end Address
end ScriptVm
