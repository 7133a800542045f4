import ScriptVm.Id
import ScriptVm.Memory.Address
import ScriptVm.Word

namespace ScriptVm

inductive ContextState where
  | uninitialized | prepared | active | suspended | finished | exception | aborted
  deriving DecidableEq, Inhabited, Repr

def ContextState.name : ContextState → String
  | uninitialized => "Uninitialized"
  | prepared => "Prepared"
  | active => "Active"
  | suspended => "Suspended"
  | finished => "Finished"
  | exception => "Exception"
  | aborted => "Aborted"

inductive Outcome where
  | finished | suspended | exception | aborted
  deriving DecidableEq, Inhabited, Repr

inductive Fault where
  | nullPointer | divideByZero | stackOverflow | badCode | unboundFunction
  /-- Raised by a host function. -/
  | host (message : String)
  deriving DecidableEq, Inhabited, Repr

def Fault.message : Fault → String
  | nullPointer => "Null pointer access"
  | divideByZero => "Divide by zero"
  | stackOverflow => "Stack overflow"
  | badCode => "Unrecognized byte code"
  | unboundFunction => "Unbound function called"
  | host message => message

inductive RequestError where
  | busy
  | invalidState (state : ContextState)
  | notPrepared
  | argIndex (index : Nat)
  | argType (index : Nat) (expected : String)
  | noFunction (id : FunctionId)
  | unboundFunction (id : FunctionId)
  | noHostCall
  | notMethod
  deriving DecidableEq, Inhabited, Repr

def RequestError.message : RequestError → String
  | busy => "context is busy"
  | invalidState s => "operation is not valid in state " ++ s.name
  | notPrepared => "context is not prepared"
  | argIndex i => "argument index " ++ toString i ++ " is out of range"
  | argType i expected => "argument " ++ toString i ++ " expects " ++ expected
  | noFunction id => "no function with id 0x" ++ hexDigits id.val.toNat
  | unboundFunction id => "function 0x" ++ hexDigits id.val.toNat ++ " is not bound"
  | noHostCall => "not calling a system function"
  | notMethod => "prepared function is not a method"

/-- A fault with the place it came from. Line and column are 0 where they are not known. -/
structure ScriptException where
  fault : Fault
  function : FunctionId
  functionName : String
  line : UInt32
  column : UInt32
  deriving DecidableEq, Inhabited, Repr

def ScriptException.message (e : ScriptException) : String := e.fault.message

structure Place where
  state : ContextState
  depth : Nat
  function : Option String
  line : Option UInt32
  hostFunction : Option String
  deriving DecidableEq, Inhabited, Repr

structure VarView where
  name : String
  type : String
  address : Option Address
  word : UInt32
  deriving DecidableEq, Inhabited, Repr

/-- What interrupts an operation: a cause of its own, a number or place out of range, or a bound on
the number of steps. -/
inductive Stop (ε : Type) where
  | cause (e : ε)
  | overflow
  | outOfFuel
  deriving DecidableEq, Repr

def Stop.map {ε δ : Type} (f : ε → δ) : Stop ε → Stop δ
  | cause e => cause (f e)
  | overflow => overflow
  | outOfFuel => outOfFuel

end ScriptVm
