import ScriptVm.Memory.Pointer
import ScriptVm.Memory.Words

namespace ScriptVm

/-- Stack memory in blocks. The stack grows downwards within a block; a call that does not fit below
the stack pointer goes to the next block, and block `n` holds `base * 2 ^ n` words. Blocks are only
appended, so places stay valid. -/
structure Stack where
  blocks : Array Words := #[]
  /-- Words of the first block. -/
  base : UInt32 := 0
  /-- Greatest number of words in all blocks; 0 for no limit. -/
  limit : UInt32 := 0
  current : Nat := 0
  deriving DecidableEq, Inhabited, Repr

inductive GrowFailure where
  /-- No block may be added. -/
  | full
  /-- The block number leaves the 32-bit range. -/
  | overflow
  deriving DecidableEq, Inhabited, Repr

namespace Stack

def reset (s : Stack) (words : UInt32) : Stack :=
  { s with blocks := #[.zeros words.toNat], base := words, current := 0 }

def keepFirst (s : Stack) : Stack := { s with blocks := s.blocks.take 1, current := 0 }

def release (s : Stack) : Stack := { s with blocks := #[], base := 0, current := 0 }

def isAllocated (s : Stack) : Bool := !s.blocks.isEmpty

def blockSize (s : Stack) (block : Nat) : Nat := (s.blocks[block]?.map Words.size).getD 0

def allocatedWords (s : Stack) : Nat := total Words.size s.blocks.toList

def top (s : Stack) (block : Nat) : Pointer :=
  { block := block.toUInt32, offset := (s.blockSize block).toUInt32 }

/-- Size of an added block `index`, unless it has more than 32 bits or all blocks up to it are above
the limit. -/
def nextSize? (s : Stack) (index : Nat) : Option Nat :=
  if s.base = 0 ∨ 32 ≤ index then none
  else
    let size := s.base.toNat * Nat.pow 2 index
    if 4294967296 ≤ size then none
    else if s.limit ≠ 0 ∧ s.limit.toNat < s.base.toNat * (Nat.pow 2 (index + 1) - 1) then none
    else some size

theorem lt_of_nextSize? {s : Stack} {index size : Nat} (h : s.nextSize? index = some size) :
    index < 32 := by
  unfold nextSize? at h
  split at h
  · cases h
  · omega

/-- Goes from block to block until `needed` words lie below `args` words at its top. Blocks that
were added stay also if the search fails. -/
def growFrom (s : Stack) (needed args : Nat) (index : Nat) (sp : Pointer) :
    Except GrowFailure Pointer × Stack :=
  if needed ≤ sp.offset.toNat then (.ok sp, { s with current := index })
  else if index + 1 < s.blocks.size then
    growFrom s needed args (index + 1)
      { block := (index + 1).toUInt32, offset := (s.blockSize (index + 1) - args).toUInt32 }
  else if s.base ≠ 0 ∧ 4294967296 ≤ index + 1 then (.error .overflow, s)
  else
    match h : s.nextSize? (index + 1) with
    | none => (.error .full, s)
    | some size =>
      have := lt_of_nextSize? h
      let s' := { s with blocks := s.blocks.push (.zeros size) }
      growFrom s' needed args (index + 1)
        { block := (index + 1).toUInt32, offset := (s'.blockSize (index + 1) - args).toUInt32 }
termination_by max s.blocks.size 32 - index
decreasing_by
  · omega
  · simp only [Array.size_push]; omega

/-- Finds room for a call that needs `needed` words below its arguments. In another block the place
leaves `args` words at the top, to which the caller copies the arguments. -/
def grow (s : Stack) (sp : Pointer) (needed args : Nat) : Except GrowFailure Pointer × Stack :=
  s.growFrom needed args sp.block.toNat sp

def read? (s : Stack) (p : Pointer) : Option UInt32 :=
  s.blocks[p.block.toNat]?.bind fun b => b.get? p.offset.toNat

def contains (s : Stack) (p : Pointer) : Bool := p.offset.toNat < s.blockSize p.block.toNat

def set (s : Stack) (p : Pointer) (v : UInt32) : Stack :=
  { s with blocks := s.blocks.modify p.block.toNat fun b => b.set p.offset.toNat v }

def write? (s : Stack) (p : Pointer) (v : UInt32) : Option Stack :=
  if s.contains p then some (s.set p v) else none

def read64? (s : Stack) (p : Pointer) : Option UInt64 := do
  let lo ← s.read? p
  let hi ← s.read? (← p.shift? 1)
  pure (joinWords lo hi)

def contains64 (s : Stack) (p : Pointer) : Bool := (p.shift? 1).any s.contains

def set64 (s : Stack) (p : Pointer) (v : UInt64) : Stack :=
  (s.set p (lowWord v)).set { p with offset := p.offset + 1 } (highWord v)

def write64? (s : Stack) (p : Pointer) (v : UInt64) : Option Stack :=
  if s.contains64 p then some (s.set64 p v) else none

def containsRange (s : Stack) (p : Pointer) (count : Nat) : Bool :=
  p.block.toNat < s.blocks.size && p.offset.toNat + count ≤ s.blockSize p.block.toNat

def clear (s : Stack) (p : Pointer) (count : Nat) : Stack :=
  { s with blocks := s.blocks.modify p.block.toNat fun b => b.clear p.offset.toNat count }

def zero? (s : Stack) (p : Pointer) (count : Nat) : Option Stack :=
  if s.containsRange p count then some (s.clear p count) else none

/-- Copies words one by one, from the `done`th on. What was copied before a place is missing
stays. -/
def copyFrom (s : Stack) (source target : Pointer) (done : Nat) : Nat → Bool × Stack
  | 0 => (true, s)
  | n + 1 =>
    match (source.shift? done).bind s.read?, target.shift? done with
    | some v, some p =>
      if s.contains p then (s.set p v).copyFrom source target (done + 1) n else (false, s)
    | _, _ => (false, s)

def copy (s : Stack) (source target : Pointer) (count : Nat) : Bool × Stack :=
  s.copyFrom source target 0 count

end Stack
end ScriptVm
