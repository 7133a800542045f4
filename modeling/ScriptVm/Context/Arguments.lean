import ScriptVm.Context.Lifecycle

namespace ScriptVm.Exec

def argSlot (index : Nat) : Exec RequestError (Pointer × DataType) := do
  let c ← ctx
  if c.state ≠ .prepared then fail .notPrepared
  let f ← orFail .notPrepared c.entry
  let offset ← orFail (.argIndex index) (f.paramOffset? index)
  let p ← orFail (.argIndex index) f.signature.params[index]?
  wordOrStop (c.fp.offset.toNat + offset)
  pure ({ block := c.fp.block, offset := c.fp.offset + offset.toUInt32 }, p.type)

def setStack (p : Pointer) (v : UInt32) : Exec RequestError Unit := do
  if (← ctx).stack.contains p then modify fun m => m.onStack fun s => s.set p v

def setStack64 (p : Pointer) (v : UInt64) : Exec RequestError Unit := modify fun m => m.setWords p v

def primitiveSlot (index bytes : Nat) (what : String) : Exec RequestError Pointer := do
  let (p, type) ← argSlot index
  if type.isObject || type.reference || type.bytes != bytes then
    fail (.argType index (what ++ " for " ++ type.text))
  pure p

def setArgByte (index : Nat) (v : UInt8) : Exec RequestError Unit := do
  setStack (← primitiveSlot index 1 "a byte") v.toUInt32

def setArgHalf (index : Nat) (v : UInt16) : Exec RequestError Unit := do
  setStack (← primitiveSlot index 2 "a word") v.toUInt32

def setArgWord (index : Nat) (v : UInt32) : Exec RequestError Unit := do
  setStack (← primitiveSlot index 4 "a dword") v

def setArgQword (index : Nat) (v : UInt64) : Exec RequestError Unit := do
  setStack64 (← primitiveSlot index 8 "a qword") v

def setArgFloat (index : Nat) (bits : UInt32) : Exec RequestError Unit := do
  let (p, type) ← argSlot index
  if type ≠ .float then fail (.argType index type.text)
  setStack p bits

def setArgDouble (index : Nat) (bits : UInt64) : Exec RequestError Unit := do
  let (p, type) ← argSlot index
  if type ≠ .double then fail (.argType index type.text)
  setStack64 p bits

def setArgAddress (index : Nat) (a : Address) : Exec RequestError Unit := do
  let (p, type) ← argSlot index
  if !type.reference then fail (.argType index type.text)
  setStack64 p a.bits

/-- The handle kept for an argument: one more reference, or a copy if the object is passed by
value. -/
def ownedArg (type : DataType) : Option Handle → Exec RequestError (Option Handle)
  | none => pure none
  | some h =>
    if type.handle then do
      let ok ← addRef h
      pure (if ok then some h else none)
    else copyObject h

def setArgObject (index : Nat) (object : Option Handle) : Exec RequestError Unit := do
  let (p, type) ← argSlot index
  if !type.isOwned then fail (.argType index type.text)
  if let some old := (← get).handleAt? p then modify fun m => m.giveUp old
  setStack64 p (Handle.optBits (← ownedArg type object))

def setThis (object : Option Handle) : Exec RequestError Unit := do
  let c ← ctx
  if c.state ≠ .prepared then fail .notPrepared
  if !c.entry.any fun f => f.owner.isSome then fail .notMethod
  if let some old := (← get).handleAt? c.fp then
    let _ ← onHeap fun heap => heap.release old
  let stored ← match object with
    | none => pure none
    | some h => do
      let ok ← addRef h
      pure (if ok then some h else none)
  setStack64 c.fp (Handle.optBits stored)

end ScriptVm.Exec

namespace ScriptVm.Context

/-- The result of a function that has finished, unless it is an object or a reference; else 0. -/
def result (c : Context) : UInt64 :=
  match c.entry with
  | some f =>
    if c.state = .finished ∧ !f.signature.returns.isObject ∧ !f.signature.returns.reference then
      c.register
    else 0
  | none => 0

def resultByte (c : Context) : UInt8 := c.result.toUInt8
def resultHalf (c : Context) : UInt16 := c.result.toUInt16
def resultWord (c : Context) : UInt32 := c.result.toUInt32

def resultAddress (c : Context) : Address :=
  if c.state = .finished ∧ c.entry.any fun f => f.signature.returns.reference then
    (Address.ofBits? c.register).getD .null
  else .null

def resultObject? (c : Context) : Option Handle :=
  if c.state = .finished then c.objectRegister else none

def takeResultObject (c : Context) : Option Handle × Context :=
  if c.state = .finished then (c.objectRegister, { c with objectRegister := none }) else (none, c)

end ScriptVm.Context
