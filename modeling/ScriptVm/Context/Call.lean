import ScriptVm.Context.Cleanup
import ScriptVm.Context.Memory

namespace ScriptVm

/-- The implementation of a declared method for the type of an object. -/
def Engine.resolveMethod? (e : Engine) (declared : Func) (object : Handle) : Option Func := do
  let type := (← e.heap.get? object).type
  let inTable := fun (index : UInt32) => type.virtualTable[index.toNat]?.bind e.function?
  let real ← match declared.kind with
    | .virtual => declared.tableIndex.bind inTable
    | .interface =>
      (type.methods.filterMap e.function?).find?
        (fun f => f.signatureId == declared.signatureId) |>.bind fun method =>
        match method.kind, method.tableIndex with
        | .virtual, some index => inTable index
        | _, _ => some method
    | _ => none
  if real.signatureId = declared.signatureId then some real else none

namespace Exec

def growStack (needed args : Nat) : Exec Fault Pointer := do
  let sp := (← ctx).sp
  let result ← modifyGet fun m =>
    let (r, stack) := m.ctx.stack.grow sp needed args
    (r, { m with ctx := { m.ctx with stack } })
  match result with
  | .ok p => pure p
  | .error .full => fail .stackOverflow
  | .error .overflow => throw .overflow

def moduleOf? (m : Machine) (f : Func) : Option ModuleId :=
  f.module.filter fun id => m.ctx.module = some id || (m.engine.module? id).isSome

/-- Finds room for a call; in a new block the arguments are copied there. -/
def placeArgs (callee : Func) : Exec Fault Pointer := do
  let args := callee.argWords
  let needed := callee.stackNeeded.toNat + Context.reserve
  wordOrStop args
  wordOrStop needed
  let sp := (← ctx).sp
  let newSp ← growStack needed args
  if newSp ≠ sp then
    let copied ← modifyGet fun m =>
      let (ok, stack) := m.ctx.stack.copy sp newSp args
      (ok, { m with ctx := { m.ctx with stack } })
    if !copied then fail .stackOverflow
  pure newSp

def saveCaller (caller : Func) (block : Nat) (module : Option ModuleId) (fp : Pointer) :
    Exec Fault Unit := do
  modify fun m => m.holdModule module
  modifyCtx fun c =>
    { c with
      function := none
      calls := c.calls.push
        { function := caller, pc := c.pc, fp := c.fp, sp := c.sp, block, module := c.module }
      module
      fp }

/-- Begins a function at its first instruction, with empty object variables. -/
def beginCallee (callee : Func) (fp : Pointer) : Exec Fault Unit := do
  let sp ← orFail .stackOverflow (fp.shift? (-callee.locals.toNat))
  modifyCtx fun c => { c with sp }
  modify fun m => m.clearObjectVars callee
  modifyCtx fun c => { c with pc := 0, function := some callee }

/-- Calls a script function whose arguments are on top of the stack. -/
def callScript (callee : Func) : Exec Fault Unit := do
  let block := (← ctx).stack.current
  let fp ← placeArgs callee
  let caller ← orFail .badCode (← ctx).function
  saveCaller caller block (moduleOf? (← get) callee) fp
  beginCallee callee fp

/-- Returns to the caller and discards the argument words it has pushed; false if there is no
caller. -/
def returnFrom (words : Nat) : Exec Fault Bool := do
  match (← ctx).calls.pop? with
  | none => pure false
  | some (frame, calls) =>
    modify fun m => m.restore frame calls
    let sp ← orFail .badCode ((← ctx).sp.shift? words)
    modifyCtx fun c => { c with sp }
    pure true

end Exec
end ScriptVm
