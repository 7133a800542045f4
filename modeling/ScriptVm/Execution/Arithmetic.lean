import ScriptVm.Context.State
import ScriptVm.Instr.Basic
import ScriptVm.Real.Arithmetic
import ScriptVm.Word

namespace ScriptVm

open ScriptVm.Real

def Test.holds (t : Test) (register : UInt64) : Bool :=
  let v := (lowWord register).toInt32
  match t with
  | zero => v == 0
  | notZero => v != 0
  | negative => v < 0
  | notNegative => 0 ≤ v
  | positive => 0 < v
  | notPositive => v ≤ 0

def Unary.apply : Unary → UInt32 → UInt32
  | isZero, v => if v = 0 then 1 else 0
  | negInt, v => 0 - v
  | increment, v => v + 1
  | decrement, v => v - 1
  | negFloat, v => Single.neg v
  | bitNot, v => ~~~v

def Unary64.apply : Unary64 → UInt64 → UInt64
  | negDouble, v => Double.neg v
  | negInt, v => 0 - v
  | bitNot, v => ~~~v

/-- Integer arithmetic wraps around; division is of signed numbers and goes toward zero; a shift
takes its count modulo the width. -/
def Binary.apply : Binary → UInt32 → UInt32 → Except Fault UInt32
  | addInt, x, y => .ok (x + y)
  | subInt, x, y => .ok (x - y)
  | mulInt, x, y => .ok (x * y)
  | divInt, x, y => if y = 0 then .error .divideByZero else .ok (x.toInt32 / y.toInt32).toUInt32
  | modInt, x, y => if y = 0 then .error .divideByZero else .ok (x.toInt32 % y.toInt32).toUInt32
  | addFloat, x, y => .ok (Single.add x y)
  | subFloat, x, y => .ok (Single.sub x y)
  | mulFloat, x, y => .ok (Single.mul x y)
  | divFloat, x, y => if Single.isZero y then .error .divideByZero else .ok (Single.div x y)
  | modFloat, x, y => if Single.isZero y then .error .divideByZero else .ok (Single.mod x y)
  | bitAnd, x, y => .ok (x &&& y)
  | bitOr, x, y => .ok (x ||| y)
  | bitXor, x, y => .ok (x ^^^ y)
  | shiftLeft, x, y => .ok (x <<< y)
  | shiftRight, x, y => .ok (x >>> y)
  | shiftSigned, x, y => .ok (x.toInt32 >>> y.toInt32).toUInt32

def Binary64.apply : Binary64 → UInt64 → UInt64 → Except Fault UInt64
  | addDouble, x, y => .ok (Double.add x y)
  | subDouble, x, y => .ok (Double.sub x y)
  | mulDouble, x, y => .ok (Double.mul x y)
  | divDouble, x, y => if Double.isZero y then .error .divideByZero else .ok (Double.div x y)
  | modDouble, x, y => if Double.isZero y then .error .divideByZero else .ok (Double.mod x y)
  | addInt, x, y => .ok (x + y)
  | subInt, x, y => .ok (x - y)
  | mulInt, x, y => .ok (x * y)
  | divInt, x, y => if y = 0 then .error .divideByZero else .ok (x.toInt64 / y.toInt64).toUInt64
  | modInt, x, y => if y = 0 then .error .divideByZero else .ok (x.toInt64 % y.toInt64).toUInt64
  | bitAnd, x, y => .ok (x &&& y)
  | bitOr, x, y => .ok (x ||| y)
  | bitXor, x, y => .ok (x ^^^ y)

def Shift.apply (op : Shift) (x : UInt64) (count : UInt32) : UInt64 :=
  let n := count.toUInt64
  match op with
  | left => x <<< n
  | right => x >>> n
  | signed => (x.toInt64 >>> n.toInt64).toUInt64

def Immediate.apply : Immediate → UInt32 → UInt32 → UInt32
  | add, x, y => x + y
  | sub, x, y => x - y
  | mul, x, y => x * y

def Immediate.applyFloat : Immediate → UInt32 → UInt32 → UInt32
  | add, x, y => Single.add x y
  | sub, x, y => Single.sub x y
  | mul, x, y => Single.mul x y

/-- The register for equal, less and all other cases; values that are not numbers are among the
last. -/
def orderBits (equal less : Bool) : UInt64 := if equal then 0 else if less then 0xffffffff else 1

def compareInt (x y : Int32) : UInt64 := orderBits (x == y) (x < y)
def compareUInt (x y : UInt32) : UInt64 := orderBits (x == y) (x < y)
def compareFloat (x y : UInt32) : UInt64 := orderBits (Single.beq x y) (Single.blt x y)
def compareDouble (x y : UInt64) : UInt64 := orderBits (Double.beq x y) (Double.blt x y)
def compareInt64 (x y : Int64) : UInt64 := orderBits (x == y) (x < y)
def compareUInt64 (x y : UInt64) : UInt64 := orderBits (x == y) (x < y)

/-- A conversion between values of one or two words. -/
inductive ConversionRule where
  | narrow (f : UInt32 → UInt32)
  | widen (f : UInt32 → UInt64)
  | shrink (f : UInt64 → UInt32)
  | wide (f : UInt64 → UInt64)

def signExtendByte (v : UInt32) : UInt32 := v.toUInt8.toInt8.toInt32.toUInt32
def signExtendHalf (v : UInt32) : UInt32 := v.toUInt16.toInt16.toInt32.toUInt32

def Conversion.rule : Conversion → ConversionRule
  | intToFloat => .narrow Single.ofInt32
  | floatToInt => .narrow Single.toInt32
  | uintToFloat => .narrow Single.ofUInt32
  | floatToUInt => .narrow Single.toInt32
  | signByte => .narrow signExtendByte
  | signHalf => .narrow signExtendHalf
  | zeroByte => .narrow (· &&& 0xff)
  | zeroHalf => .narrow (· &&& 0xffff)
  | cutByte => .narrow (· &&& 0xff)
  | cutHalf => .narrow (· &&& 0xffff)
  | doubleToInt => .shrink Double.toInt32
  | doubleToUInt => .shrink fun v => (Double.toInt64 v).toUInt32
  | doubleToFloat => .shrink Double.toSingle
  | intToDouble => .widen Double.ofInt32
  | uintToDouble => .widen Double.ofUInt32
  | floatToDouble => .widen Single.toDouble
  | int64ToInt => .shrink lowWord
  | intToInt64 => .widen fun v => v.toInt32.toInt64.toUInt64
  | uintToInt64 => .widen UInt32.toUInt64
  | floatToInt64 => .widen Single.toInt64
  | doubleToInt64 => .wide Double.toInt64
  | floatToUInt64 => .widen Single.toInt64
  | doubleToUInt64 => .wide Double.toInt64
  | int64ToFloat => .shrink Single.ofInt64
  | uint64ToFloat => .shrink Single.ofUInt64
  | int64ToDouble => .wide Double.ofInt64
  | uint64ToDouble => .wide Double.ofUInt64

end ScriptVm
