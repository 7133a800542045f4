import ScriptVm.Context.Arguments
import ScriptVm.Execution.Step

namespace ScriptVm.Exec

def fetch? (c : Context) : Option Instr := c.function.bind fun f => f.code[c.pc]?

/-- A fault becomes an exception of the context. -/
def raising {α : Type} (ended : α) (x : Exec Fault α) : Exec RequestError α := fun m =>
  match x m with
  | .ok a m => .ok a m
  | .error (.cause fault) m => .ok ended (m.raise fault)
  | .error .overflow m => .error .overflow m
  | .error .outOfFuel m => .error .outOfFuel m

def perform (nested : Nested) : Option Instr → Exec RequestError Flow
  | none => do
    modify fun m => m.raise .badCode
    pure .halt
  | some i => raising .halt (exec nested i)

/-- Carries out the next instruction. -/
def step (nested : Nested) : Exec RequestError Flow := do
  let i := fetch? (← ctx)
  modifyCtx fun c => { c with pc := c.pc + 1 }
  perform nested i

/-- Runs instruction after instruction, as long as the context is active. -/
def steps (nested : Nested) : Nat → Exec RequestError Unit
  | 0 => throw .outOfFuel
  | n + 1 => do
    if (← ctx).state = .active then
      match ← step nested with
      | .go => steps nested n
      | .halt => pure ()

def enterHost (nested : Nested) (f : Func) : Exec RequestError Unit :=
  raising () do
    modifyCtx fun c => { c with sp := c.fp }
    let _ ← callHost nested f none
    modifyCtx fun c => { c with state := .finished }

/-- Begins with the script implementation of a method. The frame was laid out for the declaration,
so the room below it is checked. -/
def beginMethod (f : Func) : Exec RequestError Unit := do
  let needed := f.locals.toNat + f.stackNeeded.toNat + Context.reserve
  wordOrStop (f.locals.toNat + f.stackNeeded.toNat)
  wordOrStop needed
  if (← ctx).fp.offset.toNat < needed then modify fun m => m.raise .stackOverflow
  else
    modify fun m => m.setModule (liveModuleOf? m f)
    modifyCtx fun c => { c with sp := { c.fp with offset := c.fp.offset - f.locals } }
    modify fun m => m.clearObjectVars f
    modifyCtx fun c => { c with function := some f }

def enterMethod (nested : Nested) (declared : Func) : Exec RequestError Unit := do
  let m ← get
  match (m.handleAt? m.ctx.fp).bind (m.engine.resolveMethod? declared) with
  | none => modify fun m => m.raise .nullPointer
  | some f =>
    if f.kind = .host then
      modifyCtx fun c => { c with function := some f }
      enterHost nested f
    else beginMethod f

/-- What happens on entry, before the first instruction. -/
def enter (nested : Nested) : Exec RequestError Unit := do
  match (← ctx).function with
  | none => modifyCtx fun c => { c with state := .finished }
  | some f =>
    match f.kind with
    | .virtual | .interface => enterMethod nested f
    | .host => enterHost nested f
    | .script | .imported => pure ()

def outcomeOf : ContextState → Outcome
  | .finished => .finished
  | .exception => .exception
  | .aborted => .aborted
  | _ => .suspended

def activate (nested : Nested) (state : ContextState) : Exec RequestError Unit := do
  modifyCtx fun c => { c with state := .active }
  if state = .prepared then enter nested
  if (← ctx).state = .active ∧ (← ctx).function.isNone then
    modifyCtx fun c => { c with state := .finished }

/-- Begins a run or goes on with it. Earlier requests to suspend are forgotten; an abortion that was
asked for comes first. -/
def beginRun (nested : Nested) (state : ContextState) : Exec RequestError Unit := do
  modifyCtx fun c => { c with suspendRequested := false }
  if (← ctx).abortRequested then
    modifyCtx fun c => { c with abortRequested := false }
    modify Machine.abortNow
  else activate nested state

def startRun (nested : Nested) : Exec RequestError Unit := do
  let state := (← ctx).state
  if state ≠ .prepared ∧ state ≠ .suspended then fail (.invalidState state)
  else beginRun nested state

/-- Ends a run for now or for good. One that stands still because of a request to abort is
aborted. -/
def endRun : Exec RequestError Outcome := do
  let aborted := (← ctx).abortRequested
  modifyCtx fun c => { c with abortRequested := false }
  if aborted ∧ (← ctx).state = .suspended then modify Machine.abortNow
  return outcomeOf (← ctx).state

def executeWith (nested : Nested) (fuel : Nat) : Exec RequestError Outcome := do
  startRun nested
  if (← ctx).state = .active then steps nested fuel
  endRun

def runFunction (execute : Exec RequestError Outcome) (id : FunctionId) (args : List UInt32) :
    Exec RequestError NestedRun := do
  prepare id
  setArgs 0 args
  let outcome ← execute
  let c ← ctx
  pure { outcome, result := c.resultWord, exception := c.exception }
where
  setArgs (index : Nat) : List UInt32 → Exec RequestError Unit
    | [] => pure ()
    | v :: vs => do
      setArgWord index v
      setArgs (index + 1) vs

/-- Runs a function in a context of its own; a failed one gives 0. -/
def runNested (execute : Exec RequestError Outcome) (id : FunctionId) (args : List UInt32) :
    Exec Fault UInt32 := do
  match ← inNewContext (fun r => [.nested r]) (runFunction execute id args) with
  | .ok r => pure r.result
  | .error _ => pure 0

/-- Runs or resumes the prepared function until it finishes, faults, is suspended or aborted. The
bound holds for the number of steps and for the depth of runs that host functions start. -/
def execute : Nat → Exec RequestError Outcome
  | 0 => throw .outOfFuel
  | n + 1 => executeWith (runNested (execute n)) n

end ScriptVm.Exec
