import ScriptVm.Memory.Address
import ScriptVm.Memory.Words
import ScriptVm.Text.Quoted
import ScriptVm.Type.Registry

namespace ScriptVm

structure Object where
  type : ObjectType
  refs : Nat
  fields : Words
  deriving DecidableEq, Inhabited, Repr

namespace Object

def handleAt? (o : Object) (offset : UInt32) : Option Handle := do
  let lo ← o.fields.get? offset.toNat
  let hi ← o.fields.get? (offset.toNat + 1)
  Handle.ofBits? (joinWords lo hi)

def text (o : Object) : String :=
  "ScriptObject \x7b type: " ++ Text.quoted o.type.name ++ ", ref_count: " ++ toString o.refs ++
    ", fields: [" ++
    ", ".intercalate (o.fields.toList.map fun w => toString w.toNat) ++ "] \x7d"

def children (o : Object) : List Handle := o.type.handleFields.filterMap o.handleAt?

end Object

inductive LifeChange where
  | construct | destruct | addRef | release
  deriving DecidableEq, Inhabited, Repr

/-- A change that an observed type tells the host of, with the object as it is then. The host gets
a copy: no hook of it changes the object. -/
structure LifeEvent where
  change : LifeChange
  typeName : String
  refs : Nat
  fields : Words
  deriving DecidableEq, Inhabited, Repr

structure HeapStats where
  allocations : Nat := 0
  frees : Nat := 0
  addRefs : Nat := 0
  releases : Nat := 0
  deriving DecidableEq, Inhabited, Repr

structure HeapSlot where
  generation : UInt32 := 0
  object : Option Object := none
  deriving DecidableEq, Inhabited, Repr

/-- Objects in numbered slots. A handle is good as long as its generation is that of its slot, which
changes when the object is destroyed. -/
structure Heap where
  slots : Array HeapSlot := #[]
  /-- Empty slots, the one to be used next first. -/
  free : List UInt32 := []
  stats : HeapStats := {}
  /-- Life events not yet passed on. -/
  journal : Array LifeEvent := #[]
  deriving DecidableEq, Inhabited, Repr

namespace Heap

/-- A handle finds its object only in the generation it was made for. -/
def get? (h : Heap) (r : Handle) : Option Object :=
  h.slots[r.index.toNat]?.bind fun slot =>
    if slot.generation = r.generation then slot.object else none

def isLive (h : Heap) (r : Handle) : Bool := (h.get? r).isSome

def liveCount (h : Heap) : Nat := h.slots.countP fun slot => slot.object.isSome

def modify (h : Heap) (r : Handle) (f : Object → Object) : Heap :=
  { h with
    slots := h.slots.modify r.index.toNat fun slot =>
      if slot.generation = r.generation then { slot with object := slot.object.map f } else slot }

def field? (h : Heap) (index : UInt32) (generation : UInt16) (offset : UInt32) : Option UInt32 := do
  let slot ← h.slots[index.toNat]?
  if slot.generation.toUInt16 = generation then (← slot.object).fields.get? offset.toNat else none

def setField (h : Heap) (index : UInt32) (generation : UInt16) (offset value : UInt32) : Heap :=
  { h with
    slots := h.slots.modify index.toNat fun slot =>
      if slot.generation.toUInt16 = generation then
        { slot with
          object := slot.object.map fun o => { o with fields := o.fields.set offset.toNat value } }
      else slot }

/-- Sets words of an object without looking at what they mean. False if there is no object or they
do not fit. -/
def setWords (h : Heap) (r : Handle) (offset : Nat) (ws : List UInt32) : Bool × Heap :=
  if (h.get? r).any fun o => offset + ws.length ≤ o.fields.size then
    (true, h.modify r fun o => { o with fields := o.fields.put offset ws })
  else (false, h)

def note (h : Heap) (change : LifeChange) (o : Object) : Heap :=
  if o.type.observed then
    { h with journal := h.journal.push { change, typeName := o.type.name, refs := o.refs,
                                         fields := o.fields } }
  else h

/-- Takes a free slot if there is one. -/
def insert (h : Heap) (o : Object) : Handle × Heap :=
  match h.free with
  | index :: free =>
    ({ index, generation := (h.slots[index.toNat]?.map HeapSlot.generation).getD 0 },
      { h with free, slots := h.slots.modify index.toNat fun slot => { slot with object := some o } })
  | [] =>
    ({ index := h.slots.size.toUInt32, generation := 0 },
      { h with slots := h.slots.push { object := some o } })

def hasSlot (h : Heap) : Bool := h.free.head?.all fun index => index.toNat < h.slots.size

def countFits (h : Heap) (r : Handle) : Bool := (h.get? r).all fun o => o.refs < 4294967296

/-- A new object with one reference and zero fields. -/
def alloc (h : Heap) (type : ObjectType) : Handle × Heap :=
  let o : Object := { type, refs := 1, fields := .zeros type.fieldWords.toNat }
  let h := h.note .construct o
  insert { h with stats := { h.stats with allocations := h.stats.allocations + 1 } } o

def addRef (h : Heap) (r : Handle) : Bool × Heap :=
  match h.get? r with
  | none => (false, h)
  | some o =>
    let h := h.modify r fun o => { o with refs := o.refs + 1 }
    let h := h.note .addRef { o with refs := o.refs + 1 }
    (true, { h with stats := { h.stats with addRefs := h.stats.addRefs + 1 } })

def lowerRefs (h : Heap) (r : Handle) (o : Object) (refs : Nat) : Heap :=
  let h := h.modify r fun o => { o with refs }
  let h := h.note .release { o with refs }
  { h with stats := { h.stats with releases := h.stats.releases + 1 } }

end Heap
end ScriptVm
