import ScriptVm.Context.State
import ScriptVm.Heap.Basic
import ScriptVm.Decimal.Layout

namespace ScriptVm

inductive ArgValue where
  | dword (v : UInt32)
  | int (v : Int32)
  | bool (b : Bool)
  | float (bits : UInt32)
  | qword (v : UInt64)
  | int64 (v : Int64)
  | double (bits : UInt64)
  | address (a : Address)
  | object (h : Option Handle)
  deriving DecidableEq, Inhabited, Repr

def ArgValue.display : ArgValue → String
  | dword v => toString v.toNat
  | int v => toString v.toInt
  | bool b => if b then "true" else "false"
  | float bits => Decimal.Layout.plain.write Real.single bits.toNat
  | qword v => toString v.toNat
  | int64 v => toString v.toInt
  | double bits => Decimal.Layout.plain.write Real.double bits.toNat
  | address _ | object _ => ""

/-- How a run in a context of its own ended. -/
structure NestedRun where
  outcome : Outcome
  result : UInt32
  exception : Option ScriptException
  deriving DecidableEq, Inhabited, Repr

/-- What the host is told while code runs. -/
inductive Event where
  | life (e : LifeEvent)
  | called (function : String) (args : Nat) (this : Option Handle)
  | arg (index : Nat) (value : ArgValue)
  | inspected (value : ArgValue)
  | counted (args : Nat)
  | printed (text : String)
  | kept (ok : Bool)
  | read (word : Option UInt32) (qword : Option UInt64)
  | wrote (ok : Bool)
  | wrote64 (ok : Bool)
  | string (text : Option String)
  | place (p : Place)
  | exceptionSet (ok : Bool)
  | nested (result : Except RequestError NestedRun)
  | line (p : Place) (vars : Option (List VarView))
  | raised (p : Place) (e : Option ScriptException)
  deriving Inhabited, Repr

end ScriptVm
