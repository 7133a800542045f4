import ScriptVm.Type.Data

namespace ScriptVm

structure ObjectType where
  id : TypeId := ⟨0⟩
  name : String
  /-- Instances are released by count instead of being destroyed at once. -/
  refCounted : Bool := false
  /-- Declared by a script, so constructors are script functions. -/
  scriptObject : Bool := false
  /-- Words in each instance. -/
  fieldWords : UInt32 := 0
  /-- Offsets of the handles an instance owns. -/
  handleFields : List UInt32 := []
  methods : List FunctionId := []
  virtualTable : List FunctionId := []
  /-- The host is told of the lifetime events of instances. Its hooks observe; that one writes to
  the object it is told of is left out. -/
  observed : Bool := false
  deriving DecidableEq, Inhabited, Repr

namespace ObjectType

def asScriptObject (t : ObjectType) : ObjectType :=
  { t with scriptObject := true, refCounted := true }

/-- Marks the two words at `offset` as an owned handle and makes room for them. There is none beyond
the 32-bit range. -/
def addHandleField? (t : ObjectType) (offset : UInt32) : Option ObjectType :=
  if offset.toNat + pointerWords < 4294967296 then
    some { t with
      fieldWords := max t.fieldWords (offset + 2)
      handleFields := t.handleFields ++ [offset] }
  else none

def addHandleFields? (t : ObjectType) (offsets : List UInt32) : Option ObjectType :=
  offsets.foldlM addHandleField? t

end ObjectType

/-- Types in the order of registration. Ids start at 1 and names are distinct. -/
structure Registry where
  types : Array ObjectType := #[]
  deriving Inhabited, Repr

namespace Registry

def size (r : Registry) : Nat := r.types.size

def get? (r : Registry) (id : TypeId) : Option ObjectType :=
  if id.val = 0 then none else r.types[id.val.toNat - 1]?

def find? (r : Registry) (name : String) : Option TypeId :=
  (r.types.find? fun t => t.name == name).map ObjectType.id

def register? (r : Registry) (t : ObjectType) : Option (TypeId × Registry) :=
  match r.find? t.name with
  | some _ => none
  | none =>
    let id : TypeId := ⟨(r.types.size + 1).toUInt32⟩
    some (id, ⟨r.types.push { t with id }⟩)

def readType? (r : Registry) (decl : String) : Option DataType := DataType.read? r.find? decl

def typeName (r : Registry) (t : DataType) : String :=
  t.declaration fun id => ((r.get? id).map ObjectType.name).getD (DataType.anonymous id)

end Registry
end ScriptVm
