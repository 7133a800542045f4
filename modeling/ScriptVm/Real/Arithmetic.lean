import ScriptVm.Real.Format

namespace ScriptVm.Real

namespace Single

def isNaN (x : UInt32) : Bool := x &&& 0x7fffffff > 0x7f800000

def quiet (x : UInt32) : UInt32 := x ||| 0x00400000

def default : UInt32 := 0xffc00000

def result (r : Float32) : UInt32 := if r.isNaN then default else r.toBits

/-- An operand that is not a number is passed on with its quiet bit set, the first one if both are;
an operation without a result gives the negative default. -/
def binary (op : Float32 → Float32 → Float32) (x y : UInt32) : UInt32 :=
  if isNaN x then quiet x
  else if isNaN y then quiet y
  else result (op (Float32.ofBits x) (Float32.ofBits y))

def add : UInt32 → UInt32 → UInt32 := binary (· + ·)
def sub : UInt32 → UInt32 → UInt32 := binary (· - ·)
def mul : UInt32 → UInt32 → UInt32 := binary (· * ·)
def div : UInt32 → UInt32 → UInt32 := binary (· / ·)

def mod (x y : UInt32) : UInt32 :=
  if isNaN x then quiet x
  else if isNaN y then quiet y
  else if single.isInfinite x.toNat then default
  else if single.isInfinite y.toNat then x
  else
    (x &&& 0x80000000) |||
      (single.remainder (single.magnitude x.toNat) (single.magnitude y.toNat)).toUInt32

def neg (x : UInt32) : UInt32 := x ^^^ 0x80000000

def isZero (x : UInt32) : Bool := x &&& 0x7fffffff == 0

def beq (x y : UInt32) : Bool := Float32.ofBits x == Float32.ofBits y

def blt (x y : UInt32) : Bool := Float32.ofBits x < Float32.ofBits y

def toDouble (x : UInt32) : UInt64 :=
  if isNaN x then
    let sign : UInt64 := (x &&& 0x80000000).toUInt64 <<< 32
    let payload : UInt64 := (x &&& 0x007fffff).toUInt64 <<< 29
    sign ||| 0x7ff8000000000000 ||| payload
  else (Float32.ofBits x).toFloat.toBits

def toInt32 (x : UInt32) : UInt32 := (Float32.ofBits x).toInt32.toUInt32

def toInt64 (x : UInt32) : UInt64 := (Float32.ofBits x).toInt64.toUInt64

def ofInt32 (v : UInt32) : UInt32 := v.toInt32.toFloat32.toBits
def ofUInt32 (v : UInt32) : UInt32 := v.toFloat32.toBits
def ofInt64 (v : UInt64) : UInt32 := v.toInt64.toFloat32.toBits
def ofUInt64 (v : UInt64) : UInt32 := v.toFloat32.toBits

end Single

namespace Double

def isNaN (x : UInt64) : Bool := x &&& 0x7fffffffffffffff > 0x7ff0000000000000

def quiet (x : UInt64) : UInt64 := x ||| 0x0008000000000000

def default : UInt64 := 0xfff8000000000000

def result (r : Float) : UInt64 := if r.isNaN then default else r.toBits

def binary (op : Float → Float → Float) (x y : UInt64) : UInt64 :=
  if isNaN x then quiet x
  else if isNaN y then quiet y
  else result (op (Float.ofBits x) (Float.ofBits y))

def add : UInt64 → UInt64 → UInt64 := binary (· + ·)
def sub : UInt64 → UInt64 → UInt64 := binary (· - ·)
def mul : UInt64 → UInt64 → UInt64 := binary (· * ·)
def div : UInt64 → UInt64 → UInt64 := binary (· / ·)

def mod (x y : UInt64) : UInt64 :=
  if isNaN x then quiet x
  else if isNaN y then quiet y
  else if double.isInfinite x.toNat then default
  else if double.isInfinite y.toNat then x
  else
    (x &&& 0x8000000000000000) |||
      (double.remainder (double.magnitude x.toNat) (double.magnitude y.toNat)).toUInt64

def neg (x : UInt64) : UInt64 := x ^^^ 0x8000000000000000

def isZero (x : UInt64) : Bool := x &&& 0x7fffffffffffffff == 0

def beq (x y : UInt64) : Bool := Float.ofBits x == Float.ofBits y

def blt (x y : UInt64) : Bool := Float.ofBits x < Float.ofBits y

def toSingle (x : UInt64) : UInt32 :=
  if isNaN x then
    let sign : UInt32 := (x >>> 32).toUInt32
    let payload : UInt32 := ((x &&& 0x000fffffffffffff) >>> 29).toUInt32
    (sign &&& 0x80000000) ||| 0x7fc00000 ||| payload
  else (Float.ofBits x).toFloat32.toBits

def toInt32 (x : UInt64) : UInt32 := (Float.ofBits x).toInt32.toUInt32

def toInt64 (x : UInt64) : UInt64 := (Float.ofBits x).toInt64.toUInt64

def ofInt32 (v : UInt32) : UInt64 := v.toInt32.toFloat.toBits
def ofUInt32 (v : UInt32) : UInt64 := v.toFloat.toBits
def ofInt64 (v : UInt64) : UInt64 := v.toInt64.toFloat.toBits
def ofUInt64 (v : UInt64) : UInt64 := v.toFloat.toBits

end Double
end ScriptVm.Real
