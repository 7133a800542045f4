import ScriptVm.Context.Call

namespace ScriptVm

/-- A call of a host function, which sees its arguments and the object it is called on. -/
structure HostCall where
  function : Func
  /-- The first argument. -/
  args : Pointer
  this : Option Handle
  deriving Inhabited

namespace HostCall

def argPointer? (c : HostCall) (index : Nat) : Option Pointer :=
  (c.function.paramOffset? index).bind fun offset =>
    c.args.shift? (offset - c.function.thisWords : Nat)

def word (c : HostCall) (s : Stack) (index : Nat) : UInt32 :=
  ((c.argPointer? index).bind s.read?).getD 0

def word64 (c : HostCall) (s : Stack) (index : Nat) : UInt64 :=
  ((c.argPointer? index).bind s.read64?).getD 0

def address (c : HostCall) (s : Stack) (index : Nat) : Address :=
  (Address.ofBits? (c.word64 s index)).getD .null

def object? (c : HostCall) (s : Stack) (index : Nat) : Option Handle :=
  Handle.ofBits? (c.word64 s index)

def value (c : HostCall) (s : Stack) (kind : ArgKind) (index : Nat) : ArgValue :=
  match kind with
  | .dword => .dword (c.word s index)
  | .int => .int (c.word s index).toInt32
  | .bool => .bool (c.word s index &&& 0xff != 0)
  | .float => .float (c.word s index)
  | .qword => .qword (c.word64 s index)
  | .int64 => .int64 (c.word64 s index).toInt64
  | .double => .double (c.word64 s index)
  | .address => .address (c.address s index)
  | .object => .object (c.object? s index)

def sum (c : HostCall) (s : Stack) : UInt32 :=
  (List.range c.function.signature.params.length).foldl (fun n i => n + c.word s i) 0

def answer (c : HostCall) (m : Machine) : (q : HostQuestion) → q.Answer
  | .word i => c.word m.ctx.stack i
  | .word64 i => c.word64 m.ctx.stack i
  | .this => c.this
  | .load a => Exec.load? m a
  | .text a => Exec.stringAt? m a
  | .result => m.ctx.register

end HostCall

namespace Exec

def tell {ε : Type} (event : Event) : Exec ε Unit := modifyEngine fun e => e.tell event

/-- What an action leaves: the next one follows, or the call ends with or without an error. -/
inductive Next where
  | go
  | done (error : Option String)
  deriving DecidableEq, Inhabited, Repr

def setRegister (bits : UInt64) : Exec Fault Unit := modifyCtx fun c => { c with register := bits }

def giveObject (object : Option Handle) : Exec Fault Unit := do
  if let some h := object then
    let _ ← addRef h
  modifyCtx fun c => { c with objectRegister := object }

/-- Does something that may fault; a fault is no reason to stop. -/
def attempt {α : Type} (x : Exec Fault α) : Exec Fault (Option α) := fun m =>
  match x m with
  | .ok a m => .ok (some a) m
  | .error (.cause _) m => .ok none m
  | .error stop m => .error stop m

/-- Does something in a new context of the same engine, tells the host about it, and lets the
context go. -/
def inNewContext {ε α : Type} (report : Except RequestError α → List Event)
    (x : Exec RequestError α) : Exec ε (Except RequestError α) := fun m =>
  let leave (i : Machine) (r : Except RequestError α) : Machine :=
    { m with engine := (i.tellAll (report r)).drop.engine }
  match x m.engine.newMachine with
  | .ok a i => .ok (.ok a) (leave i (.ok a))
  | .error (.cause e) i => .ok (.error e) (leave i (.error e))
  | .error .overflow i => .error .overflow { m with engine := i.engine }
  | .error .outOfFuel i => .error .outOfFuel { m with engine := i.engine }

def setObjectField (object : Option Handle) (field : Nat) (v : UInt32) : Exec Fault Unit := do
  if let some h := object then
    modifyEngine fun e =>
      { e with heap := e.heap.modify h fun o => { o with fields := o.fields.set field v } }

/-- One action of a host function. `nested` runs a function in a new context and tells how that
ended. -/
def act (nested : FunctionId → List UInt32 → Exec Fault UInt32) (c : HostCall) :
    HostAction → Exec Fault Next
  | .announce => do
    tell (.called c.function.name c.function.signature.params.length c.this)
    pure .go
  | .tellArg kind i => do
    tell (.arg i (c.value (← ctx).stack kind i))
    pure .go
  | .inspectArg kind i => do
    tell (.inspected (c.value (← ctx).stack kind i))
    pure .go
  | .countArgs => do
    tell (.counted c.function.signature.params.length)
    pure .go
  | .printArg kind i => do
    tell (.printed (c.value (← ctx).stack kind i).display)
    pure .go
  | .giveBits bits => do
    setRegister bits
    pure .go
  | .giveNull => do
    modifyCtx fun c => { c with objectRegister := none }
    pure .go
  | .giveSum => do
    setRegister (c.sum (← ctx).stack).toUInt64
    pure .go
  | .giveTwice i => do
    let v := c.word (← ctx).stack i
    setRegister (v + v).toUInt64
    pure .go
  | .giveArg i => do
    giveObject (c.object? (← ctx).stack i)
    pure .go
  | .giveThis => do
    giveObject c.this
    pure .go
  | .giveHandle object => do
    giveObject object
    pure .go
  | .giveNew type => do
    if let some t := (← engine).types.get? type then
      let h ← newObject t
      modifyCtx fun c => { c with objectRegister := some h }
    pure .go
  | .giveAddressArg i => do
    setRegister (c.address (← ctx).stack i).bits
    pure .go
  | .keepArg i => do
    if let some h := c.object? (← ctx).stack i then
      let ok ← addRef h
      tell (.kept ok)
    pure .go
  | .readThrough i => do
    let a := c.address (← ctx).stack i
    let word ← attempt (loadWord a)
    let qword ← attempt (loadWord64 a)
    tell (.read word qword)
    pure .go
  | .writeThrough i v => do
    let r ← attempt (storeWord (c.address (← ctx).stack i) v)
    tell (.wrote r.isSome)
    pure .go
  | .writeThrough64 i v => do
    let r ← attempt (storeWord64 (c.address (← ctx).stack i) v)
    tell (.wrote64 r.isSome)
    pure .go
  | .write a v => do
    let _ ← attempt (storeWord a v)
    pure .go
  | .tellString i => do
    tell (.string (stringAt? (← get) (c.address (← ctx).stack i)))
    pure .go
  | .setThisField field v => do
    setObjectField c.this field v
    pure .go
  | .setThisFieldFromArg field i => do
    setObjectField c.this field (c.word (← ctx).stack i)
    pure .go
  | .tellPlace => do
    tell (.place (← ctx).place)
    pure .go
  | .setException message => do
    modifyCtx fun c => { c with pendingException := some message }
    pure .go
  | .trySetException message => do
    modifyCtx fun c => { c with pendingException := some message }
    tell (.exceptionSet true)
    pure .go
  | .fail message => pure (.done (some message))
  | .failIfNegative i => do
    let v := (c.word (← ctx).stack i).toInt32.toInt
    pure (if v < 0 then .done (some ("negative: " ++ toString v)) else .go)
  | .finish => pure (.done none)
  | .suspend => do
    modifyCtx fun c => { c with suspendRequested := true }
    pure .go
  | .abort => do
    modifyCtx fun c => { c with abortRequested := true }
    pure .go
  | .run function args gives => do
    let result ← nested function args
    if gives then setRegister result.toUInt64
    pure .go

def actAll (nested : FunctionId → List UInt32 → Exec Fault UInt32) (c : HostCall) :
    HostBody → Exec Fault (Option String)
  | .done error => pure error
  | .act a next => do
    match ← act nested c a with
    | .go => actAll nested c next
    | .done error => pure error
  | .ask q next => do actAll nested c (next (c.answer (← get) q))

/-- The call of a function whose arguments are on top of the stack, and the number of argument
words. A method finds its object below them unless it is given. -/
def hostCall (f : Func) (this : Option Handle) : Exec Fault (HostCall × Nat) := do
  let sp := (← ctx).sp
  wordOrStop f.signature.paramWords
  if this.isNone && f.owner.isSome then
    let object ← orFail .nullPointer ((← get).handleAt? sp)
    let args ← orFail .badCode (sp.shift? pointerWords)
    wordOrStop (f.signature.paramWords + pointerWords)
    pure ({ function := f, args, this := some object }, f.signature.paramWords + pointerWords)
  else pure ({ function := f, args := sp, this }, f.signature.paramWords)

/-- Gives up the owned arguments; an error or a pending exception is a fault. -/
def endCall (call : HostCall) (error : Option String) : Exec Fault Unit := do
  modifyCtx fun c => { c with hostFunction := none }
  modify fun m => m.releaseArgs call.args 0 call.function.signature.params
  let pending := (← ctx).pendingException
  modifyCtx fun c => { c with pendingException := none }
  match error.or pending with
  | some message => fail (.host message)
  | none => pure ()

def carryOut (nested : FunctionId → List UInt32 → Exec Fault UInt32) (call : HostCall)
    (body : HostBody) : Exec Fault Unit := do
  modifyCtx fun c => { c with hostFunction := some call.function, pendingException := none }
  endCall call (← actAll nested call body)

/-- Calls a host function; the result is the number of its argument words. -/
def callHost (nested : FunctionId → List UInt32 → Exec Fault UInt32) (f : Func)
    (this : Option Handle) : Exec Fault Nat := do
  let body ← orFail .unboundFunction ((← engine).host? f.id)
  let (call, words) ← hostCall f this
  carryOut nested call body
  pure words

end Exec
end ScriptVm
