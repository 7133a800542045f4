import ScriptVm.Context.Machine

namespace ScriptVm.Machine

def giveUpSlot (m : Machine) (p : Pointer) : Machine :=
  match m.handleAt? p with
  | some h => (m.giveUp h).setWords p 0
  | none => m

/-- Gives up the owned object arguments; `offset` words lie between `args` and the next
parameter. -/
def releaseArgs (m : Machine) (args : Pointer) (offset : Nat) : List Parameter → Machine
  | [] => m
  | p :: params =>
    let m := if p.type.isOwned then
        match args.shift? offset with
        | some slot => m.giveUpSlot slot
        | none => m
      else m
    m.releaseArgs args (offset + p.type.words) params

/-- Goes back to a saved frame. -/
def restore (m : Machine) (f : Frame) (calls : CallStack) : Machine :=
  (m.leaveModule m.ctx.module).onContext fun c =>
    { c with
      module := f.module, fp := f.fp, function := some f.function, pc := f.pc, sp := f.sp, calls,
      stack := { c.stack with current := f.block } }

def releaseThis (m : Machine) : Machine :=
  match m.handleAt? m.ctx.fp with
  | none => m
  | some h =>
    let m := if (m.engine.heap.get? h).any fun o => o.type.refCounted then
        m.onEngine fun e => e.changeHeap fun heap => (heap.release h).2
      else m
    m.setWords m.ctx.fp 0

def releaseVars (m : Machine) (f : Func) : Machine :=
  f.objectVars.foldl
    (fun m v => match m.ctx.fp.shift? (-v.offset.toInt) with
      | some p => m.giveUpSlot p
      | none => m)
    m

/-- Gives up what the current frame owns: the object variables, and unless they belong to someone
else the object of a method and the object arguments. -/
def cleanFrame (m : Machine) : Machine :=
  match m.ctx.function with
  | none => m
  | some f =>
    let m := m.releaseVars f
    if f.keepsArgs then m
    else
      let m := if f.owner.isSome then m.releaseThis else m
      m.releaseArgs m.ctx.fp f.thisWords f.signature.params

def cleanCallers (m : Machine) : List Frame → Machine
  | [] => m
  | f :: frames => (m.restore f ⟨frames⟩).cleanFrame.cleanCallers frames

/-- Gives up what the frames own, the innermost first. -/
def cleanStack (m : Machine) : Machine :=
  let frames := m.ctx.calls.frames
  (m.cleanFrame.cleanCallers frames).onContext fun c => { c with needsCleanup := false }

def dropObject (m : Machine) : Machine :=
  let cleared := m.onContext fun c => { c with objectRegister := none }
  match m.ctx.objectRegister with
  | some h => cleared.giveUp h
  | none => cleared

def releaseRun (m : Machine) : Machine :=
  (if m.ctx.needsCleanup then m.cleanStack else m).dropObject.setModule none

/-- Aborts the run and cleans its stack. -/
def abortNow (m : Machine) : Machine :=
  (m.onContext fun c => { c with state := .aborted }).cleanStack

def applyAbort (m : Machine) : Machine :=
  if m.ctx.state = .suspended ∧ m.ctx.abortRequested then
    (m.onContext fun c => { c with abortRequested := false }).abortNow
  else m

/-- Ends the life of a context. -/
def drop (m : Machine) : Machine := if m.ctx.state = .uninitialized then m else m.releaseRun

end ScriptVm.Machine
