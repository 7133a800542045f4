import ScriptVm.Json.Writer
import ScriptVm.Memory.Address
import ScriptVm.Real.Arithmetic
import ScriptVm.Text.Integer
import ScriptVm.Type.Data

namespace ScriptVm

namespace Json

def word (v : UInt32) : Json := nat v.toNat

def qword (v : UInt64) : Json := text ("0x" ++ hexPadded 16 v.toNat)

def single (bits : UInt32) : Json :=
  text (if Real.Single.isNaN bits then "nan" else "0x" ++ hexPadded 8 bits.toNat)

def double (bits : UInt64) : Json :=
  text (if Real.Double.isNaN bits then "nan" else "0x" ++ hexPadded 16 bits.toNat)

end Json

namespace Address

def text (a : Address) : String :=
  match a with
  | null => "null"
  | stack p => join "stack" [p.block.toNat, p.offset.toNat]
  | global m offset => join "global" [m.val.toNat, offset.toNat]
  | field i g offset => join "field" [i.toNat, g.toNat, offset.toNat]
  | string m i => join "str" [m.val.toNat, i.toNat]
where
  join (kind : String) (ns : List Nat) : String := ":".intercalate (kind :: ns.map toString)

def read? (s : String) : Option Address :=
  let word := fun (t : String) => (Text.unsigned? 32 t).map Nat.toUInt32
  match s.splitOn ":" with
  | ["null"] => some null
  | ["stack", block, offset] => do return stack { block := ← word block, offset := ← word offset }
  | ["global", m, offset] => do return global ⟨← word m⟩ (← word offset)
  | ["field", i, g, offset] => do return field (← word i) (← word g).toUInt16 (← word offset)
  | ["str", m, i] => do return string ⟨← word m⟩ (← word i)
  | _ => none

def report (a : Address) : Json := .text a.text

end Address

def Pointer.report (p : Pointer) : Json := .array [.word p.block, .word p.offset]

def Handle.report (h : Handle) : Json := .array [.word h.index, .word h.generation]

def Primitive.name : Primitive → String
  | void => "Void"
  | bool => "Bool"
  | int8 => "Int8"
  | int16 => "Int16"
  | int32 => "Int32"
  | int64 => "Int64"
  | uint8 => "UInt8"
  | uint16 => "UInt16"
  | uint32 => "UInt32"
  | uint64 => "UInt64"
  | float => "Float"
  | double => "Double"

def DataType.report (t : DataType) : Json :=
  .fields
    [("text", .text t.text),
     ("kind", match t.kind with
       | .primitive p => .text p.name
       | .object id => .word id.val),
     ("handle", .bool t.handle), ("reference", .bool t.reference), ("void",
       .bool t.isVoid), ("object", .bool t.isObject),
     ("primitive", .bool t.isPrimitive), ("bytes", .nat t.bytes), ("words", .nat t.words),
     ("object_type", .opt (fun id => .word id.val) t.objectType?),
     ("primitive_kind", .opt (fun p => .text p.keyword) t.primitive?)]

end ScriptVm
