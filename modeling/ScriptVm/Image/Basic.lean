import ScriptVm.Engine.Basic
import ScriptVm.Instr.Basic

namespace ScriptVm

structure TypeImage where
  name : String := ""
  fields : UInt32 := 0
  refCounted : Bool := false
  scriptObject : Bool := false
  handleFields : List UInt32 := []
  deriving DecidableEq, Inhabited, Repr

structure GlobalImage where
  name : String
  type : String
  deriving DecidableEq, Inhabited, Repr

structure ImportImage where
  name : String
  source : String
  returns : String := "void"
  params : List String := []
  deriving DecidableEq, Inhabited, Repr

structure VarImage where
  name : String
  type : String
  offset : Int16
  deriving DecidableEq, Inhabited, Repr

/-- The type is an index. -/
structure ObjectVarImage where
  offset : Int16
  type : UInt32
  deriving DecidableEq, Inhabited, Repr

structure LineImage where
  pc : UInt64
  line : UInt32
  column : Option UInt32 := none
  deriving DecidableEq, Inhabited, Repr

structure FuncImage where
  name : String
  returns : String := "void"
  params : List String := []
  /-- The type it is a method of, by name. -/
  methodOf : Option String := none
  locals : UInt32 := 0
  /-- Words of stack it needs, if they are not to be estimated. -/
  stack : Option UInt32 := none
  code : List Instr
  lines : List LineImage := []
  vars : List VarImage := []
  objectVars : List ObjectVarImage := []
  deriving DecidableEq, Inhabited, Repr

/-- A description of a module that stands on its own. Operands that name functions, types and
strings are indices into its lists. -/
structure Image where
  name : String := ""
  types : List TypeImage := []
  strings : List String := []
  globals : List GlobalImage := []
  hostFunctions : List String := []
  imports : List ImportImage := []
  functions : List FuncImage := []
  initializer : Option FuncImage := none
  deriving DecidableEq, Inhabited, Repr

inductive ImageError where
  | unreadable (reason : String)
  | malformed
  | unknownType (name : String)
  | unknownHostFunction (name : String)
  | badIndex (what : String) (index : UInt32)
  | module (e : ModuleError)
  deriving DecidableEq, Inhabited, Repr

def ImageError.message : ImageError → String
  | unreadable reason => "failed to read image: " ++ reason
  | malformed => "malformed image: "
  | unknownType name => "unknown type '" ++ name ++ "'"
  | unknownHostFunction name => "unknown system function '" ++ name ++ "'"
  | badIndex what index => what ++ " index " ++ toString index.toNat ++ " is out of range"
  | module e => e.message

end ScriptVm
