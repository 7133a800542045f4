import ScriptVm.Context.Call

namespace ScriptVm.Exec

/-- A context that is running or suspended takes no new function. An abortion that is due comes
first. -/
def requireIdle : Exec RequestError Unit := do
  modify Machine.applyAbort
  if (← ctx).isBusy then fail .busy

def boundFunction? (e : Engine) (declaration : Func) : Option Func := do
  let m ← e.module? (← declaration.module)
  let slot ← m.imports[← declaration.id.importIndex?]?
  e.function? (← slot.bound)

/-- Puts the arguments at the top of the first block, all zero, and the locals below. -/
def placeEntry (f : Func) : Exec RequestError Unit := do
  let args := f.argWords
  let top := (← ctx).stack.top 0
  ensure (args ≤ top.offset.toNat)
  let fp : Pointer := { block := 0, offset := top.offset - args.toUInt32 }
  modify fun m => m.onStack fun s => if s.containsRange fp args then s.clear fp args else s
  modifyCtx fun c =>
    { c with fp, sp := { block := 0, offset := fp.offset - min f.locals fp.offset } }
  modify fun m => m.clearObjectVars f

def layoutEntry (f : Func) : Exec RequestError Unit := do
  let needed := f.argWords + f.stackNeeded.toNat + Context.reserve
  wordOrStop needed
  let initial := (← engine).config.initialStack
  let fresh := !(← ctx).stack.isAllocated || (← ctx).stack.base.toNat < needed
  modify fun m => m.onStack fun s =>
    if fresh then s.reset (max needed.toUInt32 initial) else s.keepFirst
  placeEntry f

def liveModuleOf? (m : Machine) (f : Func) : Option ModuleId :=
  f.module.filter fun id => (m.engine.module? id).isSome

/-- The function to run: for an imported one, what it is bound to. -/
def entryOf (f : Func) : Exec RequestError Func := do
  if f.kind = .imported then orFail (.unboundFunction f.id) (boundFunction? (← engine) f) else pure f

def leaveRun : Exec RequestError Unit := do
  if (← ctx).state ≠ .uninitialized then modify Machine.releaseRun

def settle (f : Func) : Exec RequestError Unit := do
  layoutEntry f
  modify fun m => m.setModule (liveModuleOf? m f)
  modifyCtx fun c => c.preparedFor f

/-- Makes a function the next one to run; an earlier run is given up. -/
def prepareFunction (f : Func) : Exec RequestError Unit := do
  requireIdle
  let f ← entryOf f
  leaveRun
  settle f

def prepare (id : FunctionId) : Exec RequestError Unit := do
  requireIdle
  prepareFunction (← orFail (.noFunction id) ((← engine).function? id))

def unprepare : Exec RequestError Unit := do
  requireIdle
  if (← ctx).state ≠ .uninitialized then
    modify Machine.releaseRun
    modify fun m => m.onStack Stack.release
    modifyCtx fun c =>
      { c with entry := none, function := none, exception := none, state := .uninitialized }

def requestSuspend {ε : Type} : Exec ε Unit := modifyCtx fun c => { c with suspendRequested := true }

def requestAbort {ε : Type} : Exec ε Unit := modifyCtx fun c => { c with abortRequested := true }

/-- Aborts a suspended run at once; any other is asked to. -/
def abort {ε : Type} : Exec ε Unit := do
  if (← ctx).state = .suspended then
    modifyCtx fun c => { c with abortRequested := false }
    modify Machine.abortNow
  else requestAbort

def setException (message : String) : Exec RequestError Unit := do
  if (← ctx).hostFunction.isNone then fail .noHostCall
  modifyCtx fun c => { c with pendingException := some message }

end ScriptVm.Exec
