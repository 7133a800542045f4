import ScriptVm.Id
import ScriptVm.Text.Blank
import ScriptVm.Word

namespace ScriptVm

def pointerWords : Nat := 2

inductive Primitive where
  | void | bool | int8 | int16 | int32 | int64 | uint8 | uint16 | uint32 | uint64 | float | double
  deriving DecidableEq, Inhabited, Repr

namespace Primitive

def bytes : Primitive → Nat
  | void => 0
  | bool | int8 | uint8 => 1
  | int16 | uint16 => 2
  | int32 | uint32 | float => 4
  | int64 | uint64 | double => 8

def keyword : Primitive → String
  | void => "void"
  | bool => "bool"
  | int8 => "int8"
  | int16 => "int16"
  | int32 => "int"
  | int64 => "int64"
  | uint8 => "uint8"
  | uint16 => "uint16"
  | uint32 => "uint"
  | uint64 => "uint64"
  | float => "float"
  | double => "double"

def ofKeyword? : String → Option Primitive
  | "void" => some void
  | "bool" => some bool
  | "int8" => some int8
  | "int16" => some int16
  | "int" | "int32" => some int32
  | "int64" => some int64
  | "uint8" => some uint8
  | "uint16" => some uint16
  | "uint" | "uint32" => some uint32
  | "uint64" => some uint64
  | "float" => some float
  | "double" => some double
  | _ => none

end Primitive

inductive TypeKind where
  | primitive (p : Primitive)
  | object (id : TypeId)
  deriving DecidableEq, Inhabited, Repr

/-- `handle` is `T@`, a counted handle; `reference` is `T&`, an address of a value living
elsewhere. -/
structure DataType where
  kind : TypeKind
  handle : Bool := false
  reference : Bool := false
  deriving DecidableEq, Inhabited, Repr

namespace DataType

def ofPrimitive (p : Primitive) : DataType := { kind := .primitive p }

def void : DataType := ofPrimitive .void
def bool : DataType := ofPrimitive .bool
def int : DataType := ofPrimitive .int32
def float : DataType := ofPrimitive .float
def double : DataType := ofPrimitive .double

def isVoid (t : DataType) : Bool := t.kind == .primitive .void && !t.reference

def isObject (t : DataType) : Bool :=
  match t.kind with
  | .object _ => true
  | .primitive _ => false

def isPrimitive (t : DataType) : Bool := !t.isObject && !t.reference

def objectType? (t : DataType) : Option TypeId :=
  match t.kind with
  | .object id => some id
  | .primitive _ => none

def primitive? (t : DataType) : Option Primitive :=
  match t.kind with
  | .object _ => none
  | .primitive p => some p

def bytes (t : DataType) : Nat :=
  if t.reference then 4 * pointerWords
  else match t.kind with
    | .primitive p => p.bytes
    | .object _ => 4 * pointerWords

def words (t : DataType) : Nat :=
  if t.reference || t.isObject then pointerWords else (t.bytes + 3) / 4

def isOwned (t : DataType) : Bool := t.isObject && !t.reference

def marks (t : DataType) : String :=
  (if t.handle then "@" else "") ++ (if t.reference then "&" else "")

def declaration (name : TypeId → String) (t : DataType) : String :=
  (match t.kind with
    | .primitive p => p.keyword
    | .object id => name id) ++ t.marks

def anonymous (id : TypeId) : String := "object#" ++ toString id.val.toNat

def text (t : DataType) : String := t.declaration anonymous

def ofName? (resolve : String → Option TypeId) (name : String) (handle reference : Bool) :
    Option DataType :=
  match Primitive.ofKeyword? name with
  | some p => if handle then none else some { kind := .primitive p, reference }
  | none => (resolve name).map fun id => { kind := .object id, handle, reference }

/-- Reads a declaration such as `int`, `double &` or `const Counter@`. Blanks may stand around the
whole and before each mark. -/
def read? (resolve : String → Option TypeId) (decl : String) : Option DataType :=
  let (reference, whole) := Text.stripMark '&' (Text.trim decl.toList)
  let (handle, whole) := Text.stripMark '@' whole
  let name := String.ofList (Text.trim (("const ".toList.isPrefixOf? whole).getD whole))
  ofName? resolve name handle reference

end DataType

inductive Modifier where
  | none | inward | outward | both
  deriving DecidableEq, Inhabited, Repr

structure Parameter where
  type : DataType
  modifier : Modifier := .none
  deriving DecidableEq, Inhabited, Repr

structure Signature where
  returns : DataType := .void
  params : List Parameter := []
  deriving DecidableEq, Inhabited, Repr

namespace Signature

def ofTypes (returns : DataType) (params : List DataType) : Signature :=
  { returns, params := params.map fun type => { type } }

def paramWords (s : Signature) : Nat := total (fun p => p.type.words) s.params

end Signature
end ScriptVm
