import ScriptVm.Context.Basic
import ScriptVm.Engine.Basic

namespace ScriptVm.Embedding

def version : String := "0.1.0"

inductive ResultCode where
  | ok | invalidArg | notFound | state | load | bind | type
  deriving DecidableEq, Inhabited, Repr

namespace ResultCode

def all : List ResultCode := [ok, invalidArg, notFound, state, load, bind, type]

def number : ResultCode → Nat
  | ok => 0
  | invalidArg => 1
  | notFound => 2
  | state => 3
  | load => 4
  | bind => 5
  | type => 6

def name : ResultCode → String
  | ok => "Ok"
  | invalidArg => "ErrorInvalidArg"
  | notFound => "ErrorNotFound"
  | state => "ErrorState"
  | load => "ErrorLoad"
  | bind => "ErrorBind"
  | type => "ErrorType"

def ofName? (s : String) : Option ResultCode := all.find? fun c => c.name == s

def ofRequest : RequestError → ResultCode
  | .busy | .invalidState _ | .notPrepared | .noHostCall | .notMethod => state
  | .argIndex _ => invalidArg
  | .argType _ _ => type
  | .noFunction _ | .unboundFunction _ => notFound

end ResultCode

def stateNumber : ContextState → Nat
  | .uninitialized => 0
  | .prepared => 1
  | .active => 2
  | .suspended => 3
  | .finished => 4
  | .exception => 5
  | .aborted => 6

abbrev RawText := Option (List UInt8)

def readText? (t : RawText) : Option String :=
  t.bind fun bytes => String.fromUTF8? ⟨(bytes.takeWhile (· ≠ 0)).toArray⟩

/-- A message as it is handed to a caller. One with a zero inside cannot be, and becomes empty. -/
def handOut (message : String) : String :=
  if message.toList.contains (Char.ofNat 0) then "" else message

structure EngineHandle where
  /-- Its place among all engines. -/
  slot : Nat
  error : Option String := none
  deriving Inhabited, Repr

/-- A context of a caller. It keeps its engine, also when the caller gives that up. -/
structure ContextHandle where
  slot : Nat
  ctx : Context
  error : Option String := none
  deriving Inhabited

/-- What a program works on that embeds the machine and knows only numbers and text: it gets result
codes, and for every handle the text of the last error. -/
structure State where
  engines : Array Engine := #[]
  engine : Option EngineHandle := none
  context : Option ContextHandle := none
  deriving Inhabited

abbrev Call := EStateM (Stop Empty) State

def State.takeTrace (s : State) : Array Event × State :=
  (s.engines.flatMap Engine.trace,
    { s with engines := s.engines.map fun e => { e with trace := #[] } })

namespace Call

def setEngineError (error : Option String) : Call Unit :=
  modify fun s => { s with engine := s.engine.map fun h => { h with error := error.map handOut } }

def setContextError (error : Option String) : Call Unit :=
  modify fun s => { s with context := s.context.map fun h => { h with error := error.map handOut } }

def onEngine {α : Type} (slot : Nat) (f : Engine → α × Engine) : Call α :=
  modifyGet fun s =>
    let (a, e) := f (s.engines.getD slot {})
    (a, { s with engines := s.engines.setIfInBounds slot e })

def tryEngine {ε α : Type} (slot : Nat) (x : EStateM (Stop ε) Engine α) :
    Call (Except ε α) := fun s =>
  let put (e : Engine) : State := { s with engines := s.engines.setIfInBounds slot e }
  match x (s.engines.getD slot {}) with
  | .ok a e => .ok (.ok a) (put e)
  | .error (.cause err) e => .ok (.error err) (put e)
  | .error .overflow e => .error .overflow (put e)
  | .error .outOfFuel e => .error .outOfFuel (put e)

end Call
end ScriptVm.Embedding
