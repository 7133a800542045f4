import ScriptVm.Func.Basic
import ScriptVm.Memory.Address

namespace ScriptVm

/-- A global variable; `offset` is its first word in the store. -/
structure Global where
  name : String
  type : DataType
  offset : UInt32
  deriving DecidableEq, Inhabited, Repr

/-- A declared import and the function it is bound to. -/
structure ImportSlot where
  declaration : Func
  bound : Option FunctionId := none
  deriving DecidableEq, Inhabited, Repr

/-- Functions, globals, constant strings and imports that belong together. -/
structure Module where
  id : ModuleId
  name : String
  functions : Array Func := #[]
  initializer : Option Func := none
  globals : Array Global := #[]
  /-- The words of the globals. -/
  store : Array UInt32 := #[]
  strings : Array String := #[]
  imports : Array ImportSlot := #[]
  /-- Number of contexts and saved frames that hold the module. -/
  contextRefs : UInt32 := 0
  /-- Number of import slots bound to its functions. -/
  moduleRefs : UInt32 := 0
  discarded : Bool := false
  deriving Inhabited, Repr

namespace Module

def funcNamed? (m : Module) (name : String) : Option Func :=
  m.functions.find? fun f => f.owner.isNone && f.name == name

def globalIndex? (m : Module) (name : String) : Option Nat :=
  m.globals.findIdx? fun g => g.name == name

def globalAddress? (m : Module) (index : Nat) : Option Address :=
  m.globals[index]?.map fun g => .global m.id g.offset

def readGlobal? (m : Module) (offset : UInt32) : Option UInt32 := m.store[offset.toNat]?

def hasGlobalWord (m : Module) (offset : UInt32) : Bool := offset.toNat < m.store.size

def writeGlobal (m : Module) (offset value : UInt32) : Module :=
  { m with store := m.store.setIfInBounds offset.toNat value }

def globalHandles (m : Module) : List Handle :=
  (m.globals.toList.filter fun g => g.type.isObject).filterMap fun g =>
    Handle.ofBits? (joinWords (m.store.getD g.offset.toNat 0) (m.store.getD (g.offset.toNat + 1) 0))

def clearStore (m : Module) : Module := { m with store := Array.replicate m.store.size 0 }

def addContextRef (m : Module) : Module := { m with contextRefs := m.contextRefs + 1 }
def dropContextRef (m : Module) : Module := { m with contextRefs := m.contextRefs - 1 }
def addModuleRef (m : Module) : Module := { m with moduleRefs := m.moduleRefs + 1 }
def dropModuleRef (m : Module) : Module := { m with moduleRefs := m.moduleRefs - 1 }

def isUsed (m : Module) : Bool := m.contextRefs != 0 || m.moduleRefs != 0

def canDelete (m : Module) : Bool := m.discarded && !m.isUsed

end Module
end ScriptVm
