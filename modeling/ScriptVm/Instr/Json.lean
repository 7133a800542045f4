import ScriptVm.Instr.Opcode
import ScriptVm.Json.Number
import ScriptVm.Json.Writer
import ScriptVm.Real.Arithmetic

namespace ScriptVm

namespace Json

def single? : Json → Option Single
  | number lexeme =>
    match numberValue? lexeme with
    | some (.natural n) => some ⟨n.toUInt64.toFloat32.toBits⟩
    | some (.negative n) => some ⟨n.toInt64.toFloat32.toBits⟩
    | some (.real bits) => some ⟨Real.Double.toSingle bits⟩
    | _ => none
  | _ => none

def word? (j : Json) : Option UInt32 := (j.natural? 4294967296).map Nat.toUInt32

def half? (j : Json) : Option UInt16 := (j.natural? 65536).map Nat.toUInt16

def offset? (j : Json) : Option Int16 := (j.integer? 16).map Int.toInt16

end Json

def OperandKind.ofJson? (kind : OperandKind) (j : Json) : Option Operand :=
  match kind with
  | half => j.half?.map .half
  | var => j.offset?.map .var
  | word => j.word?.map .word
  | int => (j.integer? 32).map fun v => .int v.toInt32
  | qword => (j.natural? 18446744073709551616).map fun v => .qword v.toUInt64
  | single => j.single?.map .single
  | function => j.word?.map fun v => .function ⟨v⟩
  | type => j.word?.map fun v => .type ⟨v⟩

def Operand.toJson : Operand → Json
  | half v => .nat v.toNat
  | var v => .int v.toInt
  | word v => .nat v.toNat
  | int v => .int v.toInt
  | qword v => .nat v.toNat
  | single v => .ofSingle v.bits
  | function v => .nat v.val.toNat
  | type v => .nat v.val.toNat

def operandsOfJson? : List OperandKind → List Json → Option (List Operand)
  | [], [] => some []
  | kind :: kinds, j :: js => do return (← kind.ofJson? j) :: (← operandsOfJson? kinds js)
  | _, _ => none

namespace Instr

def ofJson? : Json → Option Instr
  | .string (some name) => do
    let op ← Opcode.ofMnemonic? name
    if op.shape.isEmpty then ofOperands? op [] else none
  | .object [(some name, v)] => do
    let op ← Opcode.ofMnemonic? name
    match op.shape, v with
    | [], .null => ofOperands? op []
    | [kind], v => ofOperands? op [← kind.ofJson? v]
    | kind :: kinds, .array items => ofOperands? op (← operandsOfJson? (kind :: kinds) items)
    | _, _ => none
  | _ => none

/-- The mnemonic alone, or an object with the mnemonic as its only key, whose value is the operand
or the list of operands. -/
def toJson (i : Instr) : Json :=
  match i.operands with
  | [] => .text i.opcode.mnemonic
  | [o] => .fields [(i.opcode.mnemonic, o.toJson)]
  | os => .fields [(i.opcode.mnemonic, .array (os.map Operand.toJson))]

end Instr
end ScriptVm
