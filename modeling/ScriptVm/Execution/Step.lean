import ScriptVm.Context.HostCall
import ScriptVm.Execution.Arithmetic

namespace ScriptVm.Exec

/-- The run goes on, or it ends for now and the state of the context tells why. -/
inductive Flow where
  | go
  | halt
  deriving DecidableEq, Inhabited, Repr

abbrev Nested := FunctionId → List UInt32 → Exec Fault UInt32

def jumpBy (offset : Int) : Exec Fault Unit := do
  let c ← ctx
  let target := (c.pc : Int) + offset
  let size := (c.function.map fun f => f.code.size).getD 0
  if 0 ≤ target ∧ target < size then modifyCtx fun c => { c with pc := target.toNat }
  else fail .badCode

def currentModule : Exec Fault Module := do
  let m ← get
  orFail .badCode (m.ctx.module.bind m.engine.built?)

def globalOffset (slot : UInt16) : Exec Fault UInt32 := do
  orFail .badCode ((← currentModule).globals[slot.toNat]?.map Global.offset)

def globalAddress (slot : UInt16) : Exec Fault Address := do
  orFail .badCode ((← currentModule).globalAddress? slot.toNat)

def readGlobal (slot : UInt16) : Exec Fault UInt32 := do
  let offset ← globalOffset slot
  orFail .badCode ((← currentModule).readGlobal? offset)

def writeGlobal (slot : UInt16) (v : UInt32) : Exec Fault Unit := do
  let offset ← globalOffset slot
  let m ← currentModule
  if m.hasGlobalWord offset then
    modifyEngine fun e => e.changeModule m.id fun m => m.writeGlobal offset v
  else fail .badCode

def functionOf (id : FunctionId) : Exec Fault Func := do orFail .badCode ((← engine).function? id)

def ofExcept {α : Type} : Except Fault α → Exec Fault α
  | .ok a => pure a
  | .error e => fail e

/-- Suspends a run that was asked to stop. -/
def checkInterrupt : Exec Fault Flow := do
  if (← ctx).interruptRequested then
    modifyCtx fun c => { c with state := .suspended }
    pure .halt
  else pure .go

def callHostFrom (nested : Nested) (f : Func) : Exec Fault Flow := do
  let words ← callHost nested f none
  moveTop words
  checkInterrupt

/-- Tells the line callback that the run has come to a point where it may be interrupted. -/
def invokeLineCallback : Exec Fault Unit := do
  let c ← ctx
  if let some callback := c.lineCallback then
    let callback := { callback with calls := callback.calls + 1 }
    if !callback.quiet then tell (.line c.place (c.vars? 0))
    modifyCtx fun c => c.heed callback

def partMask : Width → UInt32
  | .byte => 0xff
  | .half => 0xffff
  | .word | .qword => 0xffffffff

/-- Writes the low part of a variable to the address in the register; the rest of the word there
stays. -/
def writePart (width : Width) (var : Int16) : Exec Fault Unit := do
  let a ← registerAddress
  match width with
  | .qword => storeWord64 a (← getVar64 var)
  | .word => storeWord a (← getVar var)
  | _ =>
    let v ← getVar var
    let old ← loadWord a
    storeWord a ((old &&& ~~~partMask width) ||| (v &&& partMask width))

def readPart (width : Width) (var : Int16) : Exec Fault Unit := do
  let a ← registerAddress
  match width with
  | .qword => setVar64 var (← loadWord64 a)
  | _ => setVar var ((← loadWord a) &&& partMask width)

def copyWords (source target : Address) (done : Nat) : Nat → Exec Fault Unit
  | 0 => pure ()
  | n + 1 => do
    let src ← orFail .nullPointer (source.addWords? done.toUInt32)
    let dst ← orFail .nullPointer (target.addWords? done.toUInt32)
    storeWord dst (← loadWord src)
    copyWords source target (done + 1) n

def convertVar (op : Conversion) (dst src : Int16) : Exec Fault Unit := do
  match op.rule with
  | .narrow f => setVar dst (f (← getVar src))
  | .widen f => setVar64 dst (f (← getVar src))
  | .shrink f => setVar dst (f (← getVar64 src))
  | .wide f => setVar64 dst (f (← getVar64 src))

def compareVars (kind : Comparison) (a b : Int16) : Exec Fault UInt64 := do
  match kind with
  | .int => return compareInt (← getVar a).toInt32 (← getVar b).toInt32
  | .uint => return compareUInt (← getVar a) (← getVar b)
  | .float => return compareFloat (← getVar a) (← getVar b)
  | .double => return compareDouble (← getVar64 a) (← getVar64 b)
  | .int64 => return compareInt64 (← getVar64 a).toInt64 (← getVar64 b).toInt64
  | .uint64 => return compareUInt64 (← getVar64 a) (← getVar64 b)

def pushedOffset (words : UInt16) : Exec Fault Int16 := do
  return (← peek64 words.toNat).toUInt16.toInt16

/-- Stores the handle of a new object, or gives the object up if that is not possible. -/
def storeNew (a : Address) (h : Handle) : Exec Fault Unit := fun m =>
  match storeWord64 a h.bits m with
  | .error stop m => .error stop (m.giveUp h)
  | r => r

/-- Enters a script constructor with a new object as its own, which is stored before the call; the
address stays on the stack for the caller. -/
def enterConstructor (f : Func) (h : Handle) : Exec Fault Unit := do
  let a ← orFail .nullPointer (Address.ofBits? (← peek64 f.signature.paramWords))
  storeNew a h
  push64 h.bits
  callScript f

/-- Gives up a new object whose constructor has faulted, and stores null in its place. -/
def abandonNew (args : Nat) (h : Handle) : Exec Fault Unit := do
  modify fun m => m.giveUp h
  moveTop args
  if let some a ← attempt popAddress then
    let _ ← attempt (storeWord64 a 0)

def runConstructor (nested : Nested) (f : Func) (h : Handle) : Exec Fault Unit := do
  let words ← tryCatch (callHost nested f (some h)) fun stop => do
    if let .cause _ := stop then abandonNew f.signature.paramWords h
    throw stop
  moveTop words
  storeNew (← popAddress) h

/-- Makes an object. A script constructor is entered, a host constructor runs at once. -/
def allocObject (nested : Nested) (type : TypeId) (constructor : FunctionId) : Exec Fault Flow := do
  let objectType ← orFail .badCode ((← engine).types.get? type)
  let h ← newObject objectType
  if constructor = .none then
    storeNew (← popAddress) h
    pure .go
  else
    let f ← functionOf constructor
    wordOrStop f.signature.paramWords
    if f.kind = .script then
      enterConstructor f h
      pure .go
    else
      runConstructor nested f h
      checkInterrupt

def freeObject : Exec Fault Unit := do
  let a ← popAddress
  if a ≠ .null then
    if let some h ← loadHandle a then
      modify fun m => m.giveUp h
      storeWord64 a 0

/-- Assigns the handle below the address on top. The old object loses its reference before the new
one gains one. -/
def assignTop : Exec Fault Unit := do
  let target ← popAddress
  let source := Handle.ofBits? (← peek64 0)
  let old ← loadHandle target
  if let some h := old then
    let _ ← onHeap fun heap => heap.release h
  if let some h := source then
    let _ ← addRef h
  storeWord64 target (Handle.optBits source)

/-- Calls the method that the object on top of the stack has. -/
def callMethodOn (nested : Nested) (id : FunctionId) : Exec Fault Flow := do
  let declared ← functionOf id
  let object ← orFail .nullPointer (Handle.ofBits? (← peek64 0))
  let f ← orFail .nullPointer ((← engine).resolveMethod? declared object)
  if f.kind = .host then callHostFrom nested f
  else
    callScript f
    pure .go

/-- Calls what an import of the current module is bound to. -/
def callBoundTo (id : FunctionId) : Exec Fault Unit := do
  let m ← get
  let target := do
    let slot ← (← m.ctx.module.bind m.engine.built?).imports[← id.importIndex?]?
    m.engine.function? (← slot.bound)
  callScript (← orFail .unboundFunction target)

def refuseNull (v : UInt64) : Exec Fault Unit := if v = 0 then fail .nullPointer else pure ()

def setReg (v : UInt64) : Exec Fault Unit := modifyCtx fun c => { c with register := v }

/-- Instructions that stay in the current function and do not interrupt the run. -/
def simple : Instr → Exec Fault Unit
  | .pop words => moveTop words.toNat
  | .push words => do
    moveTop (-words.toNat)
    let sp := (← ctx).sp
    if (← ctx).stack.containsRange sp words.toNat then
      modify fun m => m.onStack fun s => s.clear sp words.toNat
    else fail .stackOverflow
  | .pushWord v => push v
  | .pushQword v => push64 v
  | .pushVar var => do push (← getVar var)
  | .pushVar64 var => do push64 (← getVar64 var)
  | .pushVarAddress var => do push64 (Address.stack (← varPointer var)).bits
  | .pushNull => push64 0
  | .pushGlobal slot => do push (← readGlobal slot)
  | .pushGlobalAddress slot => do push64 (← globalAddress slot).bits
  | .pushString index => do
    let m ← currentModule
    let text ← orFail .badCode m.strings[index.toNat]?
    push64 (Address.string m.id index.toUInt32).bits
    push text.utf8ByteSize.toUInt32
  | .pushOffset var => push64 var.toInt64.toUInt64
  | .swap => do
    let a ← peek 0
    let b ← peek 1
    writeStack (← slotPointer 0) b .badCode
    writeStack (← slotPointer 1) a .badCode
  | .swap64 => do
    let a ← peek64 0
    let b ← peek64 2
    poke64 0 b
    poke64 2 a
  | .copy words => do
    let target ← popAddress
    let source ← orFail .nullPointer (Address.ofBits? (← peek64 0))
    if target = .null ∨ source = .null then fail .nullPointer
    copyWords source target 0 words.toNat
    poke64 0 target.bits
  | .load => do push (← loadWord (← popAddress))
  | .load64 => do push64 (← loadWord64 (← popAddress))
  | .popRegister => do setReg (← pop64)
  | .pushRegister => do push64 (← ctx).register
  | .fieldAddress offset => do
    let h ← orFail .nullPointer (Handle.ofBits? (← peek64 0))
    if offset < 0 then fail .badCode
    poke64 0 (Address.ofHandle h offset.toUInt32).bits
  | .pushType id => push id.val
  | .setVar var v => setVar var v
  | .setVar64 var v => setVar64 var v
  | .move dst src => do setVar dst (← getVar src)
  | .move64 dst src => do setVar64 dst (← getVar64 src)
  | .toRegister var => do setReg (← getVar var).toUInt64
  | .toRegister64 var => do setReg (← getVar64 var)
  | .fromRegister var => do setVar var (lowWord (← ctx).register)
  | .fromRegister64 var => do setVar64 var (← ctx).register
  | .storeGlobal slot var => do writeGlobal slot (← getVar var)
  | .loadGlobal var slot => do setVar var (← readGlobal slot)
  | .setGlobal slot v => writeGlobal slot v
  | .referGlobal slot => do setReg (← globalAddress slot).bits
  | .referVar var => do setReg (Address.stack (← varPointer var)).bits
  | .referLoadGlobal var slot => do
    setReg (← globalAddress slot).bits
    setVar var (← readGlobal slot)
  | .write width var => writePart width var
  | .read width var => readPart width var
  | .clearHigh => do setReg ((← ctx).register &&& 0xff)
  | .slotAddress words => do
    let var ← pushedOffset words
    poke64 words.toNat (Address.stack (← varPointer var)).bits
  | .slotTake words => do
    let var ← pushedOffset words
    poke64 words.toNat (← getVar64 var)
    setVar64 var 0
  | .slotHandle words => do
    let var ← pushedOffset words
    poke64 words.toNat (← getVar64 var)
  | .jump offset => jumpBy offset.toInt
  | .branch test offset => do if test.holds (← ctx).register then jumpBy offset.toInt
  | .jumpTable var => do jumpBy (← getVar var).toInt32.toInt
  | .test test => do setReg (if test.holds (← ctx).register then 1 else 0)
  | .unary op var => do setVar var (op.apply (← getVar var))
  | .unary64 op var => do setVar64 var (op.apply (← getVar64 var))
  | .binary op dst a b => do
    let x ← getVar a
    let y ← getVar b
    setVar dst (← ofExcept (op.apply x y))
  | .binary64 op dst a b => do
    let x ← getVar64 a
    let y ← getVar64 b
    setVar64 dst (← ofExcept (op.apply x y))
  | .shift64 op dst a b => do
    let x ← getVar64 a
    let count ← getVar b
    setVar64 dst (op.apply x count)
  | .immediate op dst a imm => do setVar dst (op.apply (← getVar a) imm.toUInt32)
  | .immediateFloat op dst a imm => do setVar dst (op.applyFloat (← getVar a) imm.bits)
  | .compare kind a b => do setReg (← compareVars kind a b)
  | .compareInt a imm => do setReg (compareInt (← getVar a).toInt32 imm)
  | .compareUInt a imm => do setReg (compareUInt (← getVar a) imm)
  | .compareFloat a imm => do setReg (compareFloat (← getVar a) imm.bits)
  | .convert op dst src => convertVar op dst src
  | .free _ => freeObject
  | .takeObject var => do
    let h := Handle.ofBits? (← getVar64 var)
    modifyCtx fun c => { c with objectRegister := h }
    setVar64 var 0
  | .giveObject var => do
    let h := (← ctx).objectRegister
    modifyCtx fun c => { c with objectRegister := none }
    setVar64 var (Handle.optBits h)
  | .assignHandle _ => assignTop
  | .checkTop => do refuseNull (← peek64 0)
  | .checkReferent => do
    let a ← orFail .nullPointer (Address.ofBits? (← peek64 0))
    if a = .null then fail .nullPointer
    refuseNull (← loadWord64 a)
  | .checkVar var => do refuseNull (← getVar64 var)
  | .checkSlot words => do refuseNull (← peek64 words.toNat)
  | _ => pure ()

/-- What an instruction does. The program counter is already at the next one. -/
def exec (nested : Nested) (i : Instr) : Exec Fault Flow := do
  match i with
  | .call id => callScript (← functionOf id); pure .go
  | .callHost id => callHostFrom nested (← functionOf id)
  | .callBound id => callBoundTo id; pure .go
  | .callMethod id => callMethodOn nested id
  | .alloc type constructor => allocObject nested type constructor
  | .ret words =>
    if ← returnFrom words.toNat then pure .go
    else
      modifyCtx fun c => { c with state := .finished }
      pure .halt
  | .suspend => invokeLineCallback; checkInterrupt
  | i => simple i; pure .go

end ScriptVm.Exec
