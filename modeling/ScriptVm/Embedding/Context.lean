import ScriptVm.Context.Arguments
import ScriptVm.Embedding.Basic
import ScriptVm.Execution.Run

namespace ScriptVm.Embedding

namespace Call

def closeContext : Call Unit :=
  modify fun s =>
    match s.context with
    | none => s
    | some h =>
      let m : Machine := { engine := s.engines.getD h.slot {}, ctx := h.ctx }
      { s with engines := s.engines.setIfInBounds h.slot m.drop.engine, context := none }

/-- A new context of the engine, instead of the one there was. False if there is no engine. -/
def openContext : Call Bool := do
  closeContext
  modifyGet fun s =>
    match s.engine with
    | none => (false, s)
    | some h =>
      let ctx := Context.new (s.engines.getD h.slot {}).config.maxStack
      (true, { s with context := some { slot := h.slot, ctx } })

def inContext {α : Type} (x : Exec RequestError α) :
    Call (Option (Except RequestError α)) := fun s =>
  match s.context with
  | none => .ok none s
  | some h =>
    let put (m : Machine) : State :=
      { s with engines := s.engines.setIfInBounds h.slot m.engine,
               context := some { h with ctx := m.ctx } }
    match x { engine := s.engines.getD h.slot {}, ctx := h.ctx } with
    | .ok a m => .ok (some (.ok a)) (put m)
    | .error (.cause e) m => .ok (some (.error e)) (put m)
    | .error .overflow m => .error .overflow (put m)
    | .error .outOfFuel m => .error .outOfFuel (put m)

def request (x : Exec RequestError Unit) : Call ResultCode := do
  match ← inContext x with
  | none => return .invalidArg
  | some (.ok ()) =>
    setContextError none
    return .ok
  | some (.error e) =>
    setContextError (some e.message)
    return .ofRequest e

def execute (fuel : Nat) : Call (Option Outcome) := do
  match ← inContext (Exec.execute fuel) with
  | none => return none
  | some (.ok outcome) =>
    setContextError none
    return some outcome
  | some (.error e) =>
    setContextError (some e.message)
    return none

def ask (x : Exec RequestError Unit) : Call Unit := do
  let _ ← inContext x

end Call

def State.ctx (s : State) : Context := (s.context.map ContextHandle.ctx).getD {}

structure ExceptionView where
  message : Option String := none
  line : UInt32 := 0
  column : UInt32 := 0
  function : FunctionId := .none
  depth : Nat := 0
  deriving DecidableEq, Inhabited, Repr

def State.exception (s : State) : ExceptionView :=
  let depth := s.ctx.calls.size
  match s.ctx.exception with
  | none => { depth }
  | some e =>
    { message := some (handOut e.message), line := e.line, column := e.column,
      function := e.function, depth }

def outcomeNumber : Option Outcome → Nat
  | some .finished => 0
  | some .suspended => 1
  | some .exception => 2
  | some .aborted => 3
  | none => 4

end ScriptVm.Embedding
