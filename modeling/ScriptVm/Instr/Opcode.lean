import ScriptVm.Instr.Basic

namespace ScriptVm

inductive OperandKind where
  | half | var | word | int | qword | single | function | type
  deriving DecidableEq, Inhabited, Repr

inductive Operand where
  | half (v : UInt16)
  | var (v : Int16)
  | word (v : UInt32)
  | int (v : Int32)
  | qword (v : UInt64)
  | single (v : Single)
  | function (v : FunctionId)
  | type (v : TypeId)
  deriving DecidableEq, Inhabited, Repr

def Operand.kind : Operand → OperandKind
  | half _ => .half
  | var _ => .var
  | word _ => .word
  | int _ => .int
  | qword _ => .qword
  | single _ => .single
  | function _ => .function
  | type _ => .type

/-- An instruction without its operands. It gives the tag in code, the mnemonic in listings and the
kinds of the operands. -/
inductive Opcode where
  | pop | push | pushWord | pushQword | pushVar | pushVar64 | pushVarAddress | pushNull | pushGlobal
  | pushGlobalAddress | pushString | pushOffset | swap | swap64 | copy | load | load64
  | popRegister | pushRegister
  | fieldAddress | pushType | setVar | setVar64 | move | move64 | toRegister | toRegister64
  | fromRegister
  | fromRegister64 | storeGlobal | loadGlobal | setGlobal | referGlobal | referVar | referLoadGlobal
  | write (width : Width) | read (width : Width) | clearHigh | slotAddress | slotTake | slotHandle
  | jump
  | branch (test : Test) | jumpTable | call | callHost | callBound | callMethod | ret | suspend
  | test (test : Test)
  | unary (op : Unary) | binary (op : Binary) | immediate (op : Immediate)
  | immediateFloat (op : Immediate)
  | unary64 (op : Unary64) | binary64 (op : Binary64) | shift64 (op : Shift)
  | compare (kind : Comparison)
  | compareInt | compareUInt | compareFloat | convert (op : Conversion) | alloc | free
  | takeObject | giveObject
  | assignHandle | checkTop | checkReferent | checkVar | checkSlot
  deriving DecidableEq, Inhabited, Repr

namespace Opcode

/-- The opcodes with their tags in code and their mnemonics in listings. -/
def table : List (Opcode × UInt8 × String) :=
  [(.pop, 0x00, "Pop"), (.push, 0x01, "Push"), (.pushWord, 0x02, "PshC4"),
   (.pushQword, 0x03, "PshC8"), (.pushVar, 0x04, "PshV4"), (.pushVar64, 0x05, "PshV8"),
   (.pushVarAddress, 0x06, "Psf"), (.pushNull, 0x07, "PshNull"), (.pushGlobal, 0x08, "PshG4"),
   (.pushGlobalAddress, 0x09, "Pga"), (.pushString, 0x0a, "Str"), (.pushOffset, 0x0b, "Var"),
   (.swap, 0x0c, "Swap4"), (.swap64, 0x0d, "Swap8"), (.copy, 0x0e, "Copy"), (.load, 0x0f, "Rds4"),
   (.load64, 0x10, "Rds8"), (.popRegister, 0x11, "PopRPtr"), (.pushRegister, 0x12, "PshRPtr"),
   (.fieldAddress, 0x13, "AddSi"), (.pushType, 0x14, "PshTypeId"), (.setVar, 0x20, "SetV4"),
   (.setVar64, 0x21, "SetV8"), (.move, 0x22, "CpyVtoV4"), (.move64, 0x23, "CpyVtoV8"),
   (.toRegister, 0x24, "CpyVtoR4"), (.toRegister64, 0x25, "CpyVtoR8"),
   (.fromRegister, 0x26, "CpyRtoV4"), (.fromRegister64, 0x27, "CpyRtoV8"),
   (.storeGlobal, 0x28, "CpyVtoG4"), (.loadGlobal, 0x29, "CpyGtoV4"), (.setGlobal, 0x2a, "SetG4"),
   (.referGlobal, 0x2b, "LdG"), (.referVar, 0x2c, "LdV"), (.referLoadGlobal, 0x2d, "LdGRdR4"),
   (.write .byte, 0x2e, "WrtV1"), (.write .half, 0x2f, "WrtV2"), (.write .word, 0x30, "WrtV4"),
   (.write .qword, 0x31, "WrtV8"), (.read .byte, 0x32, "RdR1"), (.read .half, 0x33, "RdR2"),
   (.read .word, 0x34, "RdR4"), (.read .qword, 0x35, "RdR8"), (.clearHigh, 0x36, "ClrHi"),
   (.slotAddress, 0x37, "GetRef"), (.slotTake, 0x38, "GetObj"), (.slotHandle, 0x39, "GetObjRef"),
   (.jump, 0x40, "Jmp"), (.branch .zero, 0x41, "Jz"), (.branch .notZero, 0x42, "Jnz"),
   (.branch .negative, 0x43, "Js"), (.branch .notNegative, 0x44, "Jns"),
   (.branch .positive, 0x45, "Jp"), (.branch .notPositive, 0x46, "Jnp"), (.jumpTable, 0x47, "JmpP"),
   (.call, 0x48, "Call"), (.callHost, 0x49, "CallSys"), (.callBound, 0x4a, "CallBnd"),
   (.callMethod, 0x4b, "CallIntf"), (.ret, 0x4c, "Ret"), (.suspend, 0x4d, "Suspend"),
   (.test .zero, 0x50, "Tz"), (.test .notZero, 0x51, "Tnz"), (.test .negative, 0x52, "Ts"),
   (.test .notNegative, 0x53, "Tns"), (.test .positive, 0x54, "Tp"),
   (.test .notPositive, 0x55, "Tnp"), (.unary .isZero, 0x56, "Not"), (.unary .negInt, 0x60, "NegI"),
   (.unary .increment, 0x61, "IncVi"), (.unary .decrement, 0x62, "DecVi"),
   (.binary .addInt, 0x63, "AddI"), (.binary .subInt, 0x64, "SubI"),
   (.binary .mulInt, 0x65, "MulI"), (.binary .divInt, 0x66, "DivI"),
   (.binary .modInt, 0x67, "ModI"), (.immediate .add, 0x68, "AddIi"),
   (.immediate .sub, 0x69, "SubIi"), (.immediate .mul, 0x6a, "MulIi"),
   (.unary .negFloat, 0x70, "NegF"), (.binary .addFloat, 0x71, "AddF"),
   (.binary .subFloat, 0x72, "SubF"), (.binary .mulFloat, 0x73, "MulF"),
   (.binary .divFloat, 0x74, "DivF"), (.binary .modFloat, 0x75, "ModF"),
   (.immediateFloat .add, 0x76, "AddIf"), (.immediateFloat .sub, 0x77, "SubIf"),
   (.immediateFloat .mul, 0x78, "MulIf"), (.unary64 .negDouble, 0x80, "NegD"),
   (.binary64 .addDouble, 0x81, "AddD"), (.binary64 .subDouble, 0x82, "SubD"),
   (.binary64 .mulDouble, 0x83, "MulD"), (.binary64 .divDouble, 0x84, "DivD"),
   (.binary64 .modDouble, 0x85, "ModD"), (.unary64 .negInt, 0x90, "NegI64"),
   (.binary64 .addInt, 0x91, "AddI64"), (.binary64 .subInt, 0x92, "SubI64"),
   (.binary64 .mulInt, 0x93, "MulI64"), (.binary64 .divInt, 0x94, "DivI64"),
   (.binary64 .modInt, 0x95, "ModI64"), (.unary .bitNot, 0xa0, "BNot"),
   (.binary .bitAnd, 0xa1, "BAnd"), (.binary .bitOr, 0xa2, "BOr"), (.binary .bitXor, 0xa3, "BXor"),
   (.binary .shiftLeft, 0xa4, "BSll"), (.binary .shiftRight, 0xa5, "BSrl"),
   (.binary .shiftSigned, 0xa6, "BSra"), (.unary64 .bitNot, 0xa7, "BNot64"),
   (.binary64 .bitAnd, 0xa8, "BAnd64"), (.binary64 .bitOr, 0xa9, "BOr64"),
   (.binary64 .bitXor, 0xaa, "BXor64"), (.shift64 .left, 0xab, "BSll64"),
   (.shift64 .right, 0xac, "BSrl64"), (.shift64 .signed, 0xad, "BSra64"),
   (.compare .int, 0xb0, "CmpI"), (.compare .uint, 0xb1, "CmpU"), (.compare .float, 0xb2, "CmpF"),
   (.compare .double, 0xb3, "CmpD"), (.compare .int64, 0xb4, "CmpI64"),
   (.compare .uint64, 0xb5, "CmpU64"), (.compareInt, 0xb6, "CmpIi"), (.compareUInt, 0xb7, "CmpIu"),
   (.compareFloat, 0xb8, "CmpIf"), (.convert .intToFloat, 0xc0, "ItoF"),
   (.convert .floatToInt, 0xc1, "FtoI"), (.convert .uintToFloat, 0xc2, "UtoF"),
   (.convert .floatToUInt, 0xc3, "FtoU"), (.convert .signByte, 0xc4, "SbtoI"),
   (.convert .signHalf, 0xc5, "SwtoI"), (.convert .zeroByte, 0xc6, "UbtoI"),
   (.convert .zeroHalf, 0xc7, "UwtoI"), (.convert .cutByte, 0xc8, "ItoB"),
   (.convert .cutHalf, 0xc9, "ItoW"), (.convert .doubleToInt, 0xca, "DtoI"),
   (.convert .doubleToUInt, 0xcb, "DtoU"), (.convert .doubleToFloat, 0xcc, "DtoF"),
   (.convert .intToDouble, 0xcd, "ItoD"), (.convert .uintToDouble, 0xce, "UtoD"),
   (.convert .floatToDouble, 0xcf, "FtoD"), (.convert .int64ToInt, 0xd0, "I64toI"),
   (.convert .intToInt64, 0xd1, "ItoI64"), (.convert .uintToInt64, 0xd2, "UtoI64"),
   (.convert .floatToInt64, 0xd3, "FtoI64"), (.convert .doubleToInt64, 0xd4, "DtoI64"),
   (.convert .floatToUInt64, 0xd5, "FtoU64"), (.convert .doubleToUInt64, 0xd6, "DtoU64"),
   (.convert .int64ToFloat, 0xd7, "I64toF"), (.convert .uint64ToFloat, 0xd8, "U64toF"),
   (.convert .int64ToDouble, 0xd9, "I64toD"), (.convert .uint64ToDouble, 0xda, "U64toD"),
   (.alloc, 0xe0, "Alloc"), (.free, 0xe1, "Free"), (.takeObject, 0xe2, "LoadObj"),
   (.giveObject, 0xe3, "StoreObj"), (.assignHandle, 0xe4, "RefCpy"), (.checkTop, 0xe5, "ChkRef"),
   (.checkReferent, 0xe6, "ChkRefS"), (.checkVar, 0xe7, "ChkNullV"), (.checkSlot, 0xe8, "ChkNullS")]

/-- Every opcode is in the table, so the default is not used. -/
def row (op : Opcode) : UInt8 × String := (table.lookup op).getD (0, "")

def tag (op : Opcode) : UInt8 := op.row.1

def mnemonic (op : Opcode) : String := op.row.2

def ofTag? (tag : UInt8) : Option Opcode := (table.find? fun r => r.2.1 == tag).map Prod.fst

def ofMnemonic? (name : String) : Option Opcode :=
  (table.find? fun r => r.2.2 == name).map Prod.fst

def shape : Opcode → List OperandKind
  | pop | push | pushGlobal | pushGlobalAddress | pushString | copy | referGlobal | slotAddress
  | slotTake | slotHandle | ret | checkSlot => [.half]
  | pushWord => [.word]
  | pushQword => [.qword]
  | pushVar | pushVar64 | pushVarAddress | pushOffset | toRegister | toRegister64 | fromRegister
  | fromRegister64 | referVar | write _ | read _ | jumpTable | unary _ | unary64 _ | takeObject
  | giveObject | checkVar => [.var]
  | pushNull | swap | swap64 | load | load64 | popRegister | pushRegister | clearHigh | suspend
  | test _ | checkTop | checkReferent => []
  | fieldAddress | jump | branch _ => [.int]
  | pushType | free | assignHandle => [.type]
  | setVar | compareUInt => [.var, .word]
  | setVar64 => [.var, .qword]
  | move | move64 | compare _ | convert _ => [.var, .var]
  | storeGlobal => [.half, .var]
  | loadGlobal | referLoadGlobal => [.var, .half]
  | setGlobal => [.half, .word]
  | call | callHost | callBound | callMethod => [.function]
  | binary _ | binary64 _ | shift64 _ => [.var, .var, .var]
  | immediate _ => [.var, .var, .int]
  | immediateFloat _ => [.var, .var, .single]
  | compareInt => [.var, .int]
  | compareFloat => [.var, .single]
  | alloc => [.type, .function]

end Opcode

namespace Instr

def opcode : Instr → Opcode
  | pop _ => .pop
  | push _ => .push
  | pushWord _ => .pushWord
  | pushQword _ => .pushQword
  | pushVar _ => .pushVar
  | pushVar64 _ => .pushVar64
  | pushVarAddress _ => .pushVarAddress
  | pushNull => .pushNull
  | pushGlobal _ => .pushGlobal
  | pushGlobalAddress _ => .pushGlobalAddress
  | pushString _ => .pushString
  | pushOffset _ => .pushOffset
  | swap => .swap
  | swap64 => .swap64
  | copy _ => .copy
  | load => .load
  | load64 => .load64
  | popRegister => .popRegister
  | pushRegister => .pushRegister
  | fieldAddress _ => .fieldAddress
  | pushType _ => .pushType
  | setVar _ _ => .setVar
  | setVar64 _ _ => .setVar64
  | move _ _ => .move
  | move64 _ _ => .move64
  | toRegister _ => .toRegister
  | toRegister64 _ => .toRegister64
  | fromRegister _ => .fromRegister
  | fromRegister64 _ => .fromRegister64
  | storeGlobal _ _ => .storeGlobal
  | loadGlobal _ _ => .loadGlobal
  | setGlobal _ _ => .setGlobal
  | referGlobal _ => .referGlobal
  | referVar _ => .referVar
  | referLoadGlobal _ _ => .referLoadGlobal
  | write op _ => .write op
  | read op _ => .read op
  | clearHigh => .clearHigh
  | slotAddress _ => .slotAddress
  | slotTake _ => .slotTake
  | slotHandle _ => .slotHandle
  | jump _ => .jump
  | branch op _ => .branch op
  | jumpTable _ => .jumpTable
  | call _ => .call
  | callHost _ => .callHost
  | callBound _ => .callBound
  | callMethod _ => .callMethod
  | ret _ => .ret
  | suspend => .suspend
  | test op => .test op
  | unary op _ => .unary op
  | binary op _ _ _ => .binary op
  | immediate op _ _ _ => .immediate op
  | immediateFloat op _ _ _ => .immediateFloat op
  | unary64 op _ => .unary64 op
  | binary64 op _ _ _ => .binary64 op
  | shift64 op _ _ _ => .shift64 op
  | compare op _ _ => .compare op
  | compareInt _ _ => .compareInt
  | compareUInt _ _ => .compareUInt
  | compareFloat _ _ => .compareFloat
  | convert op _ _ => .convert op
  | alloc _ _ => .alloc
  | free _ => .free
  | takeObject _ => .takeObject
  | giveObject _ => .giveObject
  | assignHandle _ => .assignHandle
  | checkTop => .checkTop
  | checkReferent => .checkReferent
  | checkVar _ => .checkVar
  | checkSlot _ => .checkSlot

def operands : Instr → List Operand
  | pop a | push a | pushGlobal a | pushGlobalAddress a | pushString a | copy a | referGlobal a
  | slotAddress a | slotTake a | slotHandle a | ret a | checkSlot a => [.half a]
  | pushWord a => [.word a]
  | pushQword a => [.qword a]
  | pushVar a | pushVar64 a | pushVarAddress a | pushOffset a | toRegister a | toRegister64 a
  | fromRegister a | fromRegister64 a | referVar a | write _ a | read _ a | jumpTable a | unary _ a
  | unary64 _ a | takeObject a | giveObject a | checkVar a => [.var a]
  | pushNull | swap | swap64 | load | load64 | popRegister | pushRegister | clearHigh | suspend
  | test _ | checkTop | checkReferent => []
  | fieldAddress a | jump a | branch _ a => [.int a]
  | pushType a | free a | assignHandle a => [.type a]
  | setVar a b | compareUInt a b => [.var a, .word b]
  | setVar64 a b => [.var a, .qword b]
  | move a b | move64 a b | compare _ a b | convert _ a b => [.var a, .var b]
  | storeGlobal a b => [.half a, .var b]
  | loadGlobal a b | referLoadGlobal a b => [.var a, .half b]
  | setGlobal a b => [.half a, .word b]
  | call a | callHost a | callBound a | callMethod a => [.function a]
  | binary _ a b c | binary64 _ a b c | shift64 _ a b c => [.var a, .var b, .var c]
  | immediate _ a b c => [.var a, .var b, .int c]
  | immediateFloat _ a b c => [.var a, .var b, .single c]
  | compareInt a b => [.var a, .int b]
  | compareFloat a b => [.var a, .single b]
  | alloc a b => [.type a, .function b]

def ofOperands? : Opcode → List Operand → Option Instr
  | .pop, [.half a] => some (.pop a)
  | .push, [.half a] => some (.push a)
  | .pushWord, [.word a] => some (.pushWord a)
  | .pushQword, [.qword a] => some (.pushQword a)
  | .pushVar, [.var a] => some (.pushVar a)
  | .pushVar64, [.var a] => some (.pushVar64 a)
  | .pushVarAddress, [.var a] => some (.pushVarAddress a)
  | .pushNull, [] => some .pushNull
  | .pushGlobal, [.half a] => some (.pushGlobal a)
  | .pushGlobalAddress, [.half a] => some (.pushGlobalAddress a)
  | .pushString, [.half a] => some (.pushString a)
  | .pushOffset, [.var a] => some (.pushOffset a)
  | .swap, [] => some .swap
  | .swap64, [] => some .swap64
  | .copy, [.half a] => some (.copy a)
  | .load, [] => some .load
  | .load64, [] => some .load64
  | .popRegister, [] => some .popRegister
  | .pushRegister, [] => some .pushRegister
  | .fieldAddress, [.int a] => some (.fieldAddress a)
  | .pushType, [.type a] => some (.pushType a)
  | .setVar, [.var a, .word b] => some (.setVar a b)
  | .setVar64, [.var a, .qword b] => some (.setVar64 a b)
  | .move, [.var a, .var b] => some (.move a b)
  | .move64, [.var a, .var b] => some (.move64 a b)
  | .toRegister, [.var a] => some (.toRegister a)
  | .toRegister64, [.var a] => some (.toRegister64 a)
  | .fromRegister, [.var a] => some (.fromRegister a)
  | .fromRegister64, [.var a] => some (.fromRegister64 a)
  | .storeGlobal, [.half a, .var b] => some (.storeGlobal a b)
  | .loadGlobal, [.var a, .half b] => some (.loadGlobal a b)
  | .setGlobal, [.half a, .word b] => some (.setGlobal a b)
  | .referGlobal, [.half a] => some (.referGlobal a)
  | .referVar, [.var a] => some (.referVar a)
  | .referLoadGlobal, [.var a, .half b] => some (.referLoadGlobal a b)
  | .write op, [.var a] => some (.write op a)
  | .read op, [.var a] => some (.read op a)
  | .clearHigh, [] => some .clearHigh
  | .slotAddress, [.half a] => some (.slotAddress a)
  | .slotTake, [.half a] => some (.slotTake a)
  | .slotHandle, [.half a] => some (.slotHandle a)
  | .jump, [.int a] => some (.jump a)
  | .branch op, [.int a] => some (.branch op a)
  | .jumpTable, [.var a] => some (.jumpTable a)
  | .call, [.function a] => some (.call a)
  | .callHost, [.function a] => some (.callHost a)
  | .callBound, [.function a] => some (.callBound a)
  | .callMethod, [.function a] => some (.callMethod a)
  | .ret, [.half a] => some (.ret a)
  | .suspend, [] => some .suspend
  | .test op, [] => some (.test op)
  | .unary op, [.var a] => some (.unary op a)
  | .binary op, [.var a, .var b, .var c] => some (.binary op a b c)
  | .immediate op, [.var a, .var b, .int c] => some (.immediate op a b c)
  | .immediateFloat op, [.var a, .var b, .single c] => some (.immediateFloat op a b c)
  | .unary64 op, [.var a] => some (.unary64 op a)
  | .binary64 op, [.var a, .var b, .var c] => some (.binary64 op a b c)
  | .shift64 op, [.var a, .var b, .var c] => some (.shift64 op a b c)
  | .compare op, [.var a, .var b] => some (.compare op a b)
  | .compareInt, [.var a, .int b] => some (.compareInt a b)
  | .compareUInt, [.var a, .word b] => some (.compareUInt a b)
  | .compareFloat, [.var a, .single b] => some (.compareFloat a b)
  | .convert op, [.var a, .var b] => some (.convert op a b)
  | .alloc, [.type a, .function b] => some (.alloc a b)
  | .free, [.type a] => some (.free a)
  | .takeObject, [.var a] => some (.takeObject a)
  | .giveObject, [.var a] => some (.giveObject a)
  | .assignHandle, [.type a] => some (.assignHandle a)
  | .checkTop, [] => some .checkTop
  | .checkReferent, [] => some .checkReferent
  | .checkVar, [.var a] => some (.checkVar a)
  | .checkSlot, [.half a] => some (.checkSlot a)
  | _, _ => none

def vars (i : Instr) : List Int16 :=
  i.operands.filterMap fun
    | .var v => some v
    | _ => none

end Instr
end ScriptVm
