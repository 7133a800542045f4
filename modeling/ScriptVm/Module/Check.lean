import ScriptVm.Instr.Opcode
import ScriptVm.Module.Basic

namespace ScriptVm

inductive CheckCause where
  | emptyFunction
  | missingReturn
  | importWithCode
  | stackSize (needed locals : UInt32)
  | jumpTarget (pc : Nat) (target : Int)
  | frameVariable (pc : Nat) (offset : Int16)
  | global (pc : Nat) (index : UInt16)
  | string (pc : Nat) (index : UInt16)
  | callTarget (pc : Nat) (mnemonic : String) (target : FunctionId)
  | type (pc : Nat) (id : TypeId)
  | objectVariable (offset : Int16)
  deriving DecidableEq, Inhabited, Repr

structure CheckError where
  function : String
  cause : CheckCause
  deriving DecidableEq, Inhabited, Repr

def CheckCause.message : CheckCause → String
  | emptyFunction => "script function has no code"
  | missingReturn => "code does not end with a return or jump"
  | importWithCode => "imported function must not carry code"
  | stackSize needed locals =>
    "stack requirement " ++ toString needed.toNat ++ " is below the local space " ++
      toString locals.toNat
  | jumpTarget pc target =>
    "invalid jump target at pc=" ++ toString pc ++ ": target=" ++ toString target
  | frameVariable pc offset =>
    "variable offset " ++ toString offset.toInt ++ " at pc=" ++ toString pc ++
      " is outside the frame"
  | global pc index =>
    "global index " ++ toString index.toNat ++ " at pc=" ++ toString pc ++ " does not exist"
  | string pc index =>
    "string index " ++ toString index.toNat ++ " at pc=" ++ toString pc ++ " does not exist"
  | callTarget pc mnemonic target =>
    mnemonic ++ " at pc=" ++ toString pc ++ " targets unusable function 0x" ++
      hexDigits target.val.toNat
  | type pc id =>
    "type " ++ toString id.val.toNat ++ " at pc=" ++ toString pc ++ " is not registered"
  | objectVariable offset =>
    "object variable at offset " ++ toString offset.toInt ++ " is not a local"

def CheckError.message (e : CheckError) : String := e.function ++ ": " ++ e.cause.message

structure Scope where
  kind? : FunctionId → Option FuncKind
  hasType : TypeId → Bool
  globals : Nat
  strings : Nat
  imports : Nat

namespace Func

def localRange (f : Func) : Int := f.locals.toInt32.toInt

def isLocal (f : Func) (offset : Int16) : Bool := 1 ≤ offset.toInt && offset.toInt ≤ f.localRange

def inFrame (f : Func) (offset : Int16) : Bool :=
  f.isLocal offset || (offset.toInt ≤ 0 && -offset.toInt < f.argWords)

end Func

namespace Scope

def checkCall (s : Scope) (pc : Nat) (i : Instr) (target : FunctionId) (accept : FuncKind → Bool) :
    Except CheckCause Unit :=
  match s.kind? target with
  | some kind => if !target.isImport && accept kind then .ok ()
      else .error (.callTarget pc i.opcode.mnemonic target)
  | none => .error (.callTarget pc i.opcode.mnemonic target)

def checkType (s : Scope) (pc : Nat) (id : TypeId) : Except CheckCause Unit :=
  if s.hasType id then .ok () else .error (.type pc id)

def checkGlobal (s : Scope) (pc : Nat) (index : UInt16) : Except CheckCause Unit :=
  if index.toNat < s.globals then .ok () else .error (.global pc index)

def checkNames (s : Scope) (pc : Nat) (i : Instr) : Except CheckCause Unit :=
  match i with
  | .pushGlobal g | .pushGlobalAddress g | .storeGlobal g _ | .loadGlobal _ g | .setGlobal g _
  | .referGlobal g
  | .referLoadGlobal _ g => s.checkGlobal pc g
  | .pushString index => if index.toNat < s.strings then .ok () else .error (.string pc index)
  | .call target => s.checkCall pc i target (· == .script)
  | .callHost target => s.checkCall pc i target (· == .host)
  | .callMethod target => s.checkCall pc i target fun k => k == .interface || k == .virtual
  | .callBound target =>
    match target.importIndex? with
    | some k => if k < s.imports then .ok () else .error (.callTarget pc i.opcode.mnemonic target)
    | none => .error (.callTarget pc i.opcode.mnemonic target)
  | .alloc type constructor => do
    s.checkType pc type
    if constructor ≠ .none then s.checkCall pc i constructor fun k => k == .script || k == .host
  | .free type | .assignHandle type | .pushType type => s.checkType pc type
  | _ => .ok ()

def checkInstr (s : Scope) (f : Func) (pc : Nat) (i : Instr) : Except CheckCause Unit := do
  if let some offset := i.jumpOffset? then
    let target : Int := pc + 1 + offset.toInt
    if target < 0 ∨ f.code.size ≤ target then throw (.jumpTarget pc target)
  if let some offset := i.vars.find? fun v => !f.inFrame v then throw (.frameVariable pc offset)
  s.checkNames pc i

def checkCode (s : Scope) (f : Func) : Nat → List Instr → Except CheckCause Unit
  | _, [] => .ok ()
  | pc, i :: code => do
    s.checkInstr f pc i
    s.checkCode f (pc + 1) code

/-- Jumps stay in the code, variables in the frame, and every other operand names something. The
depth of the stack is not followed. -/
def checkFunc (s : Scope) (f : Func) : Except CheckCause Unit :=
  match f.kind with
  | .imported => if f.code.isEmpty then .ok () else .error .importWithCode
  | .host | .interface | .virtual => .ok ()
  | .script => do
    match f.code.back? with
    | none => throw .emptyFunction
    | some last => if !last.isTerminator then throw .missingReturn
    if f.stackNeeded < f.locals then throw (.stackSize f.stackNeeded f.locals)
    if let some var :=
      f.objectVars.find? fun v => !f.isLocal v.offset then throw (.objectVariable var.offset)
    s.checkCode f 0 f.code.toList

def check (s : Scope) (f : Func) : Except CheckError Unit :=
  (s.checkFunc f).mapError fun cause => { function := f.name, cause }

end Scope
end ScriptVm
