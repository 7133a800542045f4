import ScriptVm.Instr.Opcode
import ScriptVm.Decimal.Layout

namespace ScriptVm

def Operand.text : Operand → String
  | half v => toString v.toNat
  | var v => toString v.toInt
  | word v => toString v.toNat
  | int v => toString v.toInt
  | qword v => toString v.toNat
  | single v => Decimal.Layout.listing.write Real.single v.bits.toNat
  | function v => "FunctionId(" ++ toString v.val.toNat ++ ")"
  | type v => "TypeId(" ++ toString v.val.toNat ++ ")"

/-- The mnemonic, and the operands in brackets. -/
def Instr.text (i : Instr) : String :=
  match i.operands with
  | [] => i.opcode.mnemonic
  | os => i.opcode.mnemonic ++ "(" ++ ", ".intercalate (os.map Operand.text) ++ ")"

end ScriptVm
