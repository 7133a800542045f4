import ScriptVm.Id

namespace ScriptVm

/-- A 32-bit floating-point immediate, by its bits. -/
structure Single where
  bits : UInt32
  deriving DecidableEq, Inhabited, Repr

/-- How much of a value is read or written through an address. -/
inductive Width where
  | byte | half | word | qword
  deriving DecidableEq, Inhabited, Repr

/-- Tests of the register as a signed word. -/
inductive Test where
  | zero | notZero | negative | notNegative | positive | notPositive
  deriving DecidableEq, Inhabited, Repr

/-- Operations on one word in place. -/
inductive Unary where
  | isZero | negInt | increment | decrement | negFloat | bitNot
  deriving DecidableEq, Inhabited, Repr

/-- Operations on two words in place. -/
inductive Unary64 where
  | negDouble | negInt | bitNot
  deriving DecidableEq, Inhabited, Repr

/-- Operations on two words. -/
inductive Binary where
  | addInt | subInt | mulInt | divInt | modInt | addFloat | subFloat | mulFloat | divFloat
  | modFloat | bitAnd
  | bitOr | bitXor | shiftLeft | shiftRight | shiftSigned
  deriving DecidableEq, Inhabited, Repr

/-- Operations on two 64-bit values. -/
inductive Binary64 where
  | addDouble | subDouble | mulDouble | divDouble | modDouble | addInt | subInt | mulInt | divInt
  | modInt | bitAnd
  | bitOr | bitXor
  deriving DecidableEq, Inhabited, Repr

inductive Shift where
  | left | right | signed
  deriving DecidableEq, Inhabited, Repr

/-- Operations with an operand in the instruction. -/
inductive Immediate where
  | add | sub | mul
  deriving DecidableEq, Inhabited, Repr

inductive Comparison where
  | int | uint | float | double | int64 | uint64
  deriving DecidableEq, Inhabited, Repr

/-- Integers come from floating-point values by truncation within the signed range; the unsigned
ones go through it too. -/
inductive Conversion where
  | intToFloat | floatToInt | uintToFloat | floatToUInt | signByte | signHalf | zeroByte
  | zeroHalf | cutByte
  | cutHalf | doubleToInt | doubleToUInt | doubleToFloat | intToDouble | uintToDouble
  | floatToDouble | int64ToInt
  | intToInt64 | uintToInt64 | floatToInt64 | doubleToInt64 | floatToUInt64 | doubleToUInt64
  | int64ToFloat
  | uint64ToFloat | int64ToDouble | uint64ToDouble
  deriving DecidableEq, Inhabited, Repr

/-- The instruction set. A variable operand is a frame offset: the slot lies that many words below
the frame pointer, so arguments have offsets up to 0 and locals from 1 on. -/
inductive Instr where
  /-- Discards words. -/
  | pop (words : UInt16)
  /-- Reserves zeroed words. -/
  | push (words : UInt16)
  | pushWord (value : UInt32)
  | pushQword (value : UInt64)
  | pushVar (var : Int16)
  | pushVar64 (var : Int16)
  /-- Pushes the address of a frame variable. -/
  | pushVarAddress (var : Int16)
  | pushNull
  /-- Pushes the word of a global. -/
  | pushGlobal (slot : UInt16)
  /-- Pushes the address of a global. -/
  | pushGlobalAddress (slot : UInt16)
  /-- Pushes the address of a constant string, then its length in bytes. -/
  | pushString (index : UInt16)
  /-- Pushes a frame offset where a pointer will stand; `slotAddress`, `slotTake` or `slotHandle`
  fills it in. -/
  | pushOffset (var : Int16)
  | swap
  | swap64
  /-- Pops a destination address and copies words from the address below it, which becomes the
  destination. -/
  | copy (words : UInt16)
  /-- Replaces the address on top by the word it refers to. -/
  | load
  /-- Replaces the address on top by the two words it refers to. -/
  | load64
  | popRegister
  | pushRegister
  /-- Turns the handle on top into the address of one of its fields. -/
  | fieldAddress (offset : Int32)
  | pushType (id : TypeId)
  | setVar (var : Int16) (value : UInt32)
  | setVar64 (var : Int16) (value : UInt64)
  | move (dst src : Int16)
  | move64 (dst src : Int16)
  | toRegister (var : Int16)
  | toRegister64 (var : Int16)
  | fromRegister (var : Int16)
  | fromRegister64 (var : Int16)
  | storeGlobal (slot : UInt16) (var : Int16)
  | loadGlobal (var : Int16) (slot : UInt16)
  | setGlobal (slot : UInt16) (value : UInt32)
  /-- Puts the address of a global into the register. -/
  | referGlobal (slot : UInt16)
  /-- Puts the address of a frame variable into the register. -/
  | referVar (var : Int16)
  /-- Puts the address of a global into the register and its word into a variable. -/
  | referLoadGlobal (var : Int16) (slot : UInt16)
  /-- Writes the low part of a variable to the address in the register. -/
  | write (width : Width) (var : Int16)
  /-- Reads the low part of what the address in the register refers to into a variable. -/
  | read (width : Width) (var : Int16)
  /-- Clears all but the low byte of the register. -/
  | clearHigh
  /-- Turns a pushed offset into the address of that variable. -/
  | slotAddress (offset : UInt16)
  /-- Turns a pushed offset into the handle in that variable and clears the variable, so that the
  stack owns it. -/
  | slotTake (offset : UInt16)
  /-- Turns a pushed offset into the handle in that variable. -/
  | slotHandle (offset : UInt16)
  /-- Moves relative to the next instruction. -/
  | jump (offset : Int32)
  /-- Moves if the register passes a test. -/
  | branch (test : Test) (offset : Int32)
  /-- Moves into a table of jumps by the index in a variable. -/
  | jumpTable (var : Int16)
  | call (callee : FunctionId)
  | callHost (callee : FunctionId)
  /-- Calls through an import slot of the current module. -/
  | callBound (callee : FunctionId)
  /-- Calls the implementation of a method for the object on top. -/
  | callMethod (callee : FunctionId)
  /-- Returns and discards the argument words the caller has pushed. -/
  | ret (words : UInt16)
  /-- A point where a run may be interrupted and the line callback is told. -/
  | suspend
  /-- Puts the result of a test of the register into it. -/
  | test (test : Test)
  | unary (op : Unary) (var : Int16)
  | binary (op : Binary) (dst a b : Int16)
  | immediate (op : Immediate) (dst a : Int16) (imm : Int32)
  | immediateFloat (op : Immediate) (dst a : Int16) (imm : Single)
  | unary64 (op : Unary64) (var : Int16)
  | binary64 (op : Binary64) (dst a b : Int16)
  /-- Shifts 64 bits by the word in `b`. -/
  | shift64 (op : Shift) (dst a b : Int16)
  /-- Puts -1, 0 or 1 into the register. -/
  | compare (kind : Comparison) (a b : Int16)
  | compareInt (a : Int16) (imm : Int32)
  | compareUInt (a : Int16) (imm : UInt32)
  | compareFloat (a : Int16) (imm : Single)
  | convert (op : Conversion) (dst src : Int16)
  /-- Makes an object and runs its constructor. The address that receives it lies below the
  arguments. -/
  | alloc (type : TypeId) (constructor : FunctionId)
  /-- Pops the address of a handle and gives up the object. -/
  | free (type : TypeId)
  /-- Moves the handle in a variable to the object register. -/
  | takeObject (var : Int16)
  /-- Moves the object register to a variable. -/
  | giveObject (var : Int16)
  /-- Pops a destination address and assigns it the handle below, which gains a reference as the old
  one loses one. -/
  | assignHandle (type : TypeId)
  /-- Refuses a null on top. -/
  | checkTop
  /-- Refuses an address on top of a null handle. -/
  | checkReferent
  | checkVar (var : Int16)
  | checkSlot (offset : UInt16)
  deriving DecidableEq, Inhabited, Repr

namespace Instr

def jumpOffset? : Instr → Option Int32
  | jump offset | branch _ offset => some offset
  | _ => none

def isTerminator : Instr → Bool
  | ret _ | jump _ | jumpTable _ => true
  | _ => false

end Instr
end ScriptVm
