import ScriptVm.Instr.Codec

namespace ScriptVm.Blob

def magic : List UInt8 := [0x43, 0x44, 0x4e, 0x43]

def version : UInt32 := 1

def isBlob (bytes : List UInt8) : Bool := magic.isPrefixOf bytes

/-- A code blob: four bytes of magic, a version, the number of instructions, the instructions. -/
def write (code : List Instr) : List UInt8 :=
  magic ++ littleEndian 4 version.toNat ++ littleEndian 4 code.length ++ encodeCode code

def writeTo {m : Type → Type} [Monad m] (put : List UInt8 → m Unit) (code : List Instr) :
    m Unit := do
  put magic
  put (littleEndian 4 version.toNat)
  put (littleEndian 4 code.length)
  put (encodeCode code)

def decodeCount : Nat → List UInt8 → Except CodeError (List Instr × List UInt8)
  | 0, bytes => .ok ([], bytes)
  | n + 1, bytes => do
    let (i, rest) ← Instr.decode bytes
    let (code, rest) ← decodeCount n rest
    pure (i :: code, rest)

def takeWord (bytes : List UInt8) : Except CodeError (Nat × List UInt8) :=
  if bytes.length < 4 then .error .endOfCode else .ok (ofLittleEndian (bytes.take 4), bytes.drop 4)

def readBody (count : Nat) (bytes : List UInt8) : Except CodeError (List Instr) := do
  let (code, rest) ← decodeCount count bytes
  if rest.isEmpty then pure code else throw (.trailing rest.length)

def readCounted (bytes : List UInt8) : Except CodeError (List Instr) := do
  let (count, bytes) ← takeWord bytes
  readBody count bytes

def readVersioned (bytes : List UInt8) : Except CodeError (List Instr) := do
  let (v, bytes) ← takeWord bytes
  if v == version.toNat then readCounted bytes else throw (.badVersion v.toUInt32)

def read (bytes : List UInt8) : Except CodeError (List Instr) :=
  if bytes.length < 4 then .error .endOfCode
  else if bytes.take 4 == magic then readVersioned (bytes.drop 4)
  else .error .badMagic

end ScriptVm.Blob
