import ScriptVm.Context.Basic
import ScriptVm.Engine.Collection

namespace ScriptVm

/-- A context at work on its engine. -/
structure Machine where
  engine : Engine
  ctx : Context
  deriving Inhabited

abbrev Exec (ε : Type) := EStateM (Stop ε) Machine

namespace Machine

@[inline] def onContext (m : Machine) (f : Context → Context) : Machine := { m with ctx := f m.ctx }

@[inline] def onEngine (m : Machine) (f : Engine → Engine) : Machine :=
  { m with engine := f m.engine }

@[inline] def onStack (m : Machine) (f : Stack → Stack) : Machine :=
  { m with ctx := { m.ctx with stack := f m.ctx.stack } }

def giveUp (m : Machine) (h : Handle) : Machine :=
  m.onEngine fun e => e.changeHeap fun heap => heap.giveUp h

def setWords (m : Machine) (p : Pointer) (v : UInt64) : Machine :=
  if m.ctx.stack.contains64 p then m.onStack fun s => s.set64 p v else m

def handleAt? (m : Machine) (p : Pointer) : Option Handle :=
  (m.ctx.stack.read64? p).bind Handle.ofBits?

def holdModule (m : Machine) : Option ModuleId → Machine
  | some id => m.onEngine fun e => e.changeModule id Module.addContextRef
  | none => m

def leaveModule (m : Machine) : Option ModuleId → Machine
  | some id => m.onEngine fun e => e.changeModule id Module.dropContextRef
  | none => m

def setModule (m : Machine) (id : Option ModuleId) : Machine :=
  ((m.holdModule id).onContext fun c => { c with module := id }).leaveModule m.ctx.module

def clearObjectVars (m : Machine) (f : Func) : Machine :=
  f.objectVars.foldl
    (fun m v => match m.ctx.fp.shift? (-v.offset.toInt) with
      | some p => m.setWords p 0
      | none => m)
    m

/-- Tells the host of events one after the other. -/
def tellAll (m : Machine) (events : List Event) : Machine :=
  events.foldl (fun m event => m.onEngine fun e => e.tell event) m

/-- Puts the context into the state of an exception. The host is told before anything is cleaned
up. -/
def raise (m : Machine) (fault : Fault) : Machine :=
  let exception := m.ctx.exceptionOf fault
  let m := m.onContext fun c => { c with exception := some exception, state := .exception }
  if m.ctx.exceptionCallback then
    let place := m.ctx.place
    m.onEngine fun e => e.tell (.raised place (some exception))
  else m

end Machine

/-- An engine with a context that was just made. -/
def Engine.newMachine (e : Engine) : Machine := { engine := e, ctx := Context.new e.config.maxStack }

namespace Exec

variable {ε α : Type}

@[inline] def fail (e : ε) : Exec ε α := throw (.cause e)

@[inline] def orFail (e : ε) : Option α → Exec ε α
  | some a => pure a
  | none => throw (.cause e)

@[inline] def ctx : Exec ε Context := do return (← get).ctx

@[inline] def engine : Exec ε Engine := do return (← get).engine

@[inline] def modifyCtx (f : Context → Context) : Exec ε Unit := modify fun m => m.onContext f

@[inline] def modifyEngine (f : Engine → Engine) : Exec ε Unit := modify fun m => m.onEngine f

@[inline] def onHeap (f : Heap → α × Heap) : Exec ε α :=
  modifyGet fun m => let (a, engine) := m.engine.onHeap f; (a, { m with engine })

def wordOrStop (n : Nat) : Exec ε Unit := if n < 4294967296 then pure () else throw .overflow

def ensure (inRange : Bool) : Exec ε Unit := if inRange then pure () else throw .overflow

def newObject (type : ObjectType) : Exec ε Handle := do
  ensure (← engine).heap.hasSlot
  onHeap fun heap => heap.alloc type

def addRef (h : Handle) : Exec ε Bool := do
  let ok ← onHeap fun heap => heap.addRef h
  ensure ((← engine).heap.countFits h)
  pure ok

def copyObject (h : Handle) : Exec ε (Option Handle) := do
  match (← engine).heap.get? h with
  | none => pure none
  | some o =>
    ensure (← engine).heap.hasSlot
    let copy ← onHeap fun heap => heap.duplicate h
    ensure (o.children.all (← engine).heap.countFits)
    pure copy

end Exec
end ScriptVm
