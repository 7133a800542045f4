import ScriptVm.Context.State
import ScriptVm.Func.Basic
import ScriptVm.Memory.Stack
import ScriptVm.Text.Quoted

namespace ScriptVm

structure Frame where
  function : Func
  /-- The instruction after the call. -/
  pc : Nat
  fp : Pointer := {}
  /-- The stack pointer at the call, above which the arguments lie. -/
  sp : Pointer := {}
  /-- The stack block in use. -/
  block : Nat := 0
  module : Option ModuleId := none
  deriving Inhabited, Repr

def Frame.callSite (f : Frame) : Nat := f.pc - 1

/-- Saved callers, the innermost first. -/
structure CallStack where
  frames : List Frame := []
  deriving Inhabited, Repr

namespace CallStack

def push (s : CallStack) (f : Frame) : CallStack := ⟨f :: s.frames⟩

def pop? (s : CallStack) : Option (Frame × CallStack) :=
  match s.frames with
  | [] => none
  | f :: frames => some (f, ⟨frames⟩)

def size (s : CallStack) : Nat := s.frames.length

def isEmpty (s : CallStack) : Bool := s.frames.isEmpty

def outermostFirst (s : CallStack) : List Frame := s.frames.reverse

def get? (s : CallStack) (index : Nat) : Option Frame := s.outermostFirst[index]?

def caller? (s : CallStack) (level : Nat) : Option Frame :=
  if level = 0 then none else s.frames[level - 1]?

end CallStack

structure LineCallback where
  calls : Nat := 0
  /-- The calls that ask for suspension. -/
  suspendAt : List Nat := []
  /-- The calls that ask for abortion. -/
  abortAt : List Nat := []
  quiet : Bool := false
  deriving Inhabited, Repr

/-- A context runs one entry function at a time, on a stack of its own. -/
structure Context where
  state : ContextState := .uninitialized
  entry : Option Func := none
  function : Option Func := none
  module : Option ModuleId := none
  pc : Nat := 0
  sp : Pointer := {}
  fp : Pointer := {}
  register : UInt64 := 0
  objectRegister : Option Handle := none
  calls : CallStack := {}
  stack : Stack := {}
  suspendRequested : Bool := false
  abortRequested : Bool := false
  hostFunction : Option Func := none
  /-- An exception set by the host function that is running. -/
  pendingException : Option String := none
  exception : Option ScriptException := none
  needsCleanup : Bool := false
  lineCallback : Option LineCallback := none
  /-- The host is told of exceptions. -/
  exceptionCallback : Bool := false
  deriving Inhabited, Repr

namespace Context

def reserve : Nat := 4

def new (maxStack : UInt32) : Context := { stack := { limit := maxStack } }

def preparedFor (c : Context) (f : Func) : Context :=
  { c with
    calls := {}
    pc := 0
    register := 0
    objectRegister := none
    exception := none
    pendingException := none
    suspendRequested := false
    abortRequested := false
    needsCleanup := true
    entry := some f
    function := some f
    state := .prepared }

def isBusy (c : Context) : Bool := c.state == .active || c.state == .suspended

def interruptRequested (c : Context) : Bool := c.suspendRequested || c.abortRequested

def heed (c : Context) (callback : LineCallback) : Context :=
  { c with
    lineCallback := some callback
    suspendRequested := c.suspendRequested || callback.suspendAt.contains callback.calls
    abortRequested := c.abortRequested || callback.abortAt.contains callback.calls }

def lastPc (c : Context) : Nat := c.pc - 1

def exceptionOf (c : Context) (fault : Fault) : ScriptException :=
  match c.function with
  | some f =>
    let (line, column) := (f.lineAt? c.lastPc).getD (0, 0)
    { fault, function := f.id, functionName := f.name, line, column }
  | none => { fault, function := .none, functionName := "", line := 0, column := 0 }

def currentLine? (c : Context) : Option UInt32 :=
  (c.function.bind fun f => f.lineAt? c.lastPc).map Prod.fst

def place (c : Context) : Place :=
  { state := c.state
    depth := c.calls.size
    function := c.function.map Func.name
    line := c.currentLine?
    hostFunction := c.hostFunction.map Func.name }

def frameAt? (c : Context) (level : Nat) : Option (Func × Pointer) :=
  if level = 0 then c.function.map fun f => (f, c.fp)
  else (c.calls.caller? level).map fun f => (f.function, f.fp)

def vars? (c : Context) (level : Nat) : Option (List VarView) :=
  (c.frameAt? level).map fun (f, fp) =>
    f.vars.map fun v =>
      let p := fp.shift? (-v.offset.toInt)
      { name := v.name, type := v.type.text, address := p.map .stack,
        word := (p.bind c.stack.read?).getD 0 }

def this? (c : Context) (level : Nat) : Option Handle := do
  let (f, fp) ← c.frameAt? level
  let _ ← f.owner
  Handle.ofBits? (← c.stack.read64? fp)

def thisType? (c : Context) (level : Nat) : Option TypeId :=
  (c.frameAt? level).bind fun (f, _) => f.owner

def callLine? (c : Context) (index : Nat) : Option UInt32 :=
  (c.calls.get? index).bind fun f => (f.function.lineAt? f.callSite).map Prod.fst

def text (c : Context) : String :=
  let function := match c.function with
    | some f => "Some(" ++ Text.quoted f.name ++ ")"
    | none => "None"
  "Context \x7b state: " ++ c.state.name ++ ", function: " ++ function ++ ", pc: " ++
    toString c.pc ++
    ", call_stack: " ++ toString c.calls.size ++ ", .. \x7d"

end Context
end ScriptVm
