import ScriptVm.Context.Machine

namespace ScriptVm.Exec

def varPointer (offset : Int16) : Exec Fault Pointer := do
  orFail .badCode ((← ctx).fp.shift? (-offset.toInt))

def readStack (p : Pointer) (fault : Fault) : Exec Fault UInt32 := do
  orFail fault ((← ctx).stack.read? p)

def readStack64 (p : Pointer) (fault : Fault) : Exec Fault UInt64 := do
  orFail fault ((← ctx).stack.read64? p)

def writeStack (p : Pointer) (v : UInt32) (fault : Fault) : Exec Fault Unit := do
  if (← ctx).stack.contains p then modify fun m => m.onStack fun s => s.set p v else fail fault

def writeStack64 (p : Pointer) (v : UInt64) (fault : Fault) : Exec Fault Unit := do
  if (← ctx).stack.contains64 p then modify fun m => m.onStack fun s => s.set64 p v else fail fault

def getVar (offset : Int16) : Exec Fault UInt32 := do readStack (← varPointer offset) .badCode

def setVar (offset : Int16) (v : UInt32) : Exec Fault Unit :=
  do writeStack (← varPointer offset) v .badCode

def getVar64 (offset : Int16) : Exec Fault UInt64 := do readStack64 (← varPointer offset) .badCode

def setVar64 (offset : Int16) (v : UInt64) : Exec Fault Unit :=
  do writeStack64 (← varPointer offset) v .badCode

def slotPointer (words : Nat) : Exec Fault Pointer := do
  orFail .badCode ((← ctx).sp.shift? words)

def moveTop (words : Int) : Exec Fault Unit := do
  let sp ← orFail .stackOverflow ((← ctx).sp.shift? words)
  modifyCtx fun c => { c with sp }

def push (v : UInt32) : Exec Fault Unit := do
  moveTop (-1)
  writeStack (← ctx).sp v .stackOverflow

def push64 (v : UInt64) : Exec Fault Unit := do
  moveTop (-2)
  writeStack64 (← ctx).sp v .stackOverflow

def peek (words : Nat) : Exec Fault UInt32 := do readStack (← slotPointer words) .badCode

def peek64 (words : Nat) : Exec Fault UInt64 := do readStack64 (← slotPointer words) .badCode

def poke64 (words : Nat) (v : UInt64) : Exec Fault Unit :=
  do writeStack64 (← slotPointer words) v .badCode

def pop64 : Exec Fault UInt64 := do
  let v ← peek64 0
  moveTop 2
  pure v

def popAddress : Exec Fault Address := do orFail .nullPointer (Address.ofBits? (← pop64))

def registerAddress : Exec Fault Address := do orFail .nullPointer (Address.ofBits? (← ctx).register)

def addressedModule? (m : Machine) (id : ModuleId) : Option Module :=
  if m.ctx.module = some id then m.engine.built? id else m.engine.module? id

def load? (m : Machine) : Address → Option UInt32
  | .stack p => m.ctx.stack.read? p
  | .global id offset => (addressedModule? m id).bind fun g => g.readGlobal? offset
  | .field index generation offset => m.engine.heap.field? index generation offset
  | .null | .string _ _ => none

def loadWord (a : Address) : Exec Fault UInt32 := do orFail .nullPointer (load? (← get) a)

def storeWord (a : Address) (v : UInt32) : Exec Fault Unit := do
  match a with
  | .stack p => writeStack p v .nullPointer
  | .global id offset =>
    if (addressedModule? (← get) id).any fun g => g.hasGlobalWord offset then
      modifyEngine fun e => e.changeModule id fun g => g.writeGlobal offset v
    else fail .nullPointer
  | .field index generation offset =>
    if ((← engine).heap.field? index generation offset).isSome then
      modifyEngine fun e => { e with heap := e.heap.setField index generation offset v }
    else fail .nullPointer
  | .null | .string _ _ => fail .nullPointer

def loadWord64 (a : Address) : Exec Fault UInt64 := do
  let high ← orFail .nullPointer (a.addWords? 1)
  let lo ← loadWord a
  let hi ← loadWord high
  pure (joinWords lo hi)

def storeWord64 (a : Address) (v : UInt64) : Exec Fault Unit := do
  let high ← orFail .nullPointer (a.addWords? 1)
  storeWord a (lowWord v)
  storeWord high (highWord v)

def loadHandle (a : Address) : Exec Fault (Option Handle) :=
  do return Handle.ofBits? (← loadWord64 a)

def stringAt? (m : Machine) : Address → Option String
  | .string id index => (addressedModule? m id).bind fun g => g.strings[index.toNat]?
  | _ => none

end ScriptVm.Exec
