import ScriptVm.Instr.Opcode
import ScriptVm.Word

namespace ScriptVm

inductive CodeError where
  | badMagic
  | badVersion (version : UInt32)
  | endOfCode
  | badTag (tag : UInt8)
  | trailing (bytes : Nat)
  deriving DecidableEq, Inhabited, Repr

def CodeError.message : CodeError → String
  | badMagic => "invalid magic number"
  | badVersion v => "unsupported version: " ++ toString v.toNat
  | endOfCode => "unexpected end of bytecode"
  | badTag t => "invalid opcode: 0x" ++ hexPadded 2 t.toNat
  | trailing n => toString n ++ " trailing bytes after the last instruction"

namespace OperandKind

def bytes : OperandKind → Nat
  | half | var => 2
  | word | int | single | function | type => 4
  | qword => 8

def ofBits : OperandKind → Nat → Operand
  | half, n => .half n.toUInt16
  | var, n => .var n.toUInt16.toInt16
  | word, n => .word n.toUInt32
  | int, n => .int n.toUInt32.toInt32
  | qword, n => .qword n.toUInt64
  | single, n => .single ⟨n.toUInt32⟩
  | function, n => .function ⟨n.toUInt32⟩
  | type, n => .type ⟨n.toUInt32⟩

end OperandKind

namespace Operand

def bits : Operand → Nat
  | half v => v.toNat
  | var v => v.toUInt16.toNat
  | word v => v.toNat
  | int v => v.toUInt32.toNat
  | qword v => v.toNat
  | single v => v.bits.toNat
  | function v => v.val.toNat
  | type v => v.val.toNat

def encode (o : Operand) : List UInt8 := littleEndian o.kind.bytes o.bits

end Operand

def decodeOperands : List OperandKind → List UInt8 → Except CodeError (List Operand × List UInt8)
  | [], bytes => .ok ([], bytes)
  | kind :: kinds, bytes =>
    if bytes.length < kind.bytes then .error .endOfCode
    else do
      let (operands, rest) ← decodeOperands kinds (bytes.drop kind.bytes)
      pure (kind.ofBits (ofLittleEndian (bytes.take kind.bytes)) :: operands, rest)

namespace Instr

def encode (i : Instr) : List UInt8 := i.opcode.tag :: i.operands.flatMap Operand.encode

def decode : List UInt8 → Except CodeError (Instr × List UInt8)
  | [] => .error .endOfCode
  | tag :: bytes =>
    match Opcode.ofTag? tag with
    | none => .error (.badTag tag)
    | some op => do
      let (operands, rest) ← decodeOperands op.shape bytes
      match ofOperands? op operands with
      | some i => pure (i, rest)
      | none => .error (.badTag tag)

end Instr

theorem decodeOperands_length {kinds : List OperandKind} {bytes rest : List UInt8}
    {os : List Operand} (h : decodeOperands kinds bytes = .ok (os, rest)) :
    rest.length ≤ bytes.length := by
  induction kinds generalizing bytes os with
  | nil => simp [decodeOperands] at h; simp [h.2]
  | cons kind kinds ih =>
    rw [decodeOperands] at h
    split at h
    · cases h
    · cases hr : decodeOperands kinds (bytes.drop kind.bytes) with
      | error e => simp [hr, bind, Except.bind] at h
      | ok r =>
        simp [hr, bind, Except.bind, pure, Except.pure] at h
        have hr' : decodeOperands kinds (bytes.drop kind.bytes) = .ok (r.1, rest) := by
          rw [hr, ← h.2]
        have := ih hr'
        simp at this
        omega

theorem Instr.decode_length {bytes rest : List UInt8} {i : Instr}
    (h : Instr.decode bytes = .ok (i, rest)) : rest.length < bytes.length := by
  cases bytes with
  | nil => simp [Instr.decode] at h
  | cons tag bytes =>
    rw [Instr.decode] at h
    split at h
    · cases h
    · rename_i op _
      cases hr : decodeOperands op.shape bytes with
      | error e => simp [hr, bind, Except.bind] at h
      | ok r =>
        simp only [hr, bind, Except.bind, pure, Except.pure] at h
        split at h
        · have hr' := decodeOperands_length hr
          cases h
          simp
          omega
        · cases h

def encodeCode (code : List Instr) : List UInt8 := code.flatMap Instr.encode

def decodeCode (bytes : List UInt8) : Except CodeError (List Instr) :=
  if bytes.isEmpty then .ok []
  else
    match h : Instr.decode bytes with
    | .error e => .error e
    | .ok (i, rest) =>
      have := Instr.decode_length h
      (decodeCode rest).map (i :: ·)
termination_by bytes.length

end ScriptVm
