namespace ScriptVm

/-- A registered object type. Ids start at 1. -/
structure TypeId where
  val : UInt32
  deriving DecidableEq, Inhabited, Repr

/-- A module. Ids start at 1. -/
structure ModuleId where
  val : UInt32
  deriving DecidableEq, Inhabited, Repr

/-- A callable unit of the engine, or an import slot of the calling module. -/
structure FunctionId where
  val : UInt32
  deriving DecidableEq, Inhabited, Repr

namespace FunctionId

def none : FunctionId := ⟨0⟩

def importFlag : UInt32 := 0x40000000

def moduleInit : FunctionId := ⟨0x7fffffff⟩

def unbound : FunctionId := ⟨0xffffffff⟩

def ofImport (index : Nat) : FunctionId := ⟨importFlag ||| index.toUInt32⟩

def isImport (id : FunctionId) : Bool :=
  id != unbound && id != moduleInit && id.val &&& importFlag != 0

def importIndex? (id : FunctionId) : Option Nat :=
  if id.isImport then some (id.val &&& ~~~importFlag).toNat else Option.none

end FunctionId
end ScriptVm
