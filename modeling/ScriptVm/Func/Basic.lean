import ScriptVm.Func.Lines
import ScriptVm.Instr.Basic
import ScriptVm.Type.Data
import ScriptVm.Word

namespace ScriptVm

inductive FuncKind where
  | script
  /-- Carried out by the host. -/
  | host
  /-- Found at the call by signature id among the methods of the object's type. -/
  | interface
  /-- Declared here and defined in another module. -/
  | imported
  /-- Found at the call through the virtual table of the object's type. -/
  | virtual
  deriving DecidableEq, Inhabited, Repr

structure ObjectVar where
  offset : Int16
  type : TypeId
  deriving DecidableEq, Inhabited, Repr

structure VarInfo where
  name : String
  type : DataType
  offset : Int16
  deriving DecidableEq, Inhabited, Repr

/-- What is called, with the layout of its arguments and the stack it needs. -/
structure Func where
  id : FunctionId := .none
  name : String
  kind : FuncKind := .script
  signature : Signature := {}
  /-- The module it belongs to, unless it is the host's. -/
  module : Option ModuleId := none
  /-- The type it is a method of. -/
  owner : Option TypeId := none
  /-- Matches interface methods with their implementations. -/
  signatureId : UInt32 := 0
  /-- Place in virtual tables. -/
  tableIndex : Option UInt32 := none
  /-- The module an import is looked for in. -/
  source : Option String := none
  code : Array Instr := #[]
  /-- Words for locals below the frame pointer. -/
  locals : UInt32 := 0
  /-- Words it may use below the frame pointer, locals included. -/
  stackNeeded : UInt32 := 0
  objectVars : List ObjectVar := []
  vars : List VarInfo := []
  lines : LineTable := {}
  /-- Its arguments belong to someone else. -/
  keepsArgs : Bool := false
  deriving DecidableEq, Inhabited, Repr

def Instr.pushedWords : Instr → Nat
  | push n => n.toNat
  | pushWord _ | pushVar _ | pushGlobal _ | pushType _ => 1
  | pushQword _ | pushVar64 _ => 2
  | pushVarAddress _ | pushNull | pushGlobalAddress _ | pushOffset _ | pushRegister
  | alloc _ _ => pointerWords
  | pushString _ => pointerWords + 1
  | _ => 0

namespace Func

def isScript (f : Func) : Bool := f.kind == .script

def thisWords (f : Func) : Nat := if f.owner.isSome then pointerWords else 0

def argWords (f : Func) : Nat := f.thisWords + f.signature.paramWords

def paramOffset? (f : Func) (index : Nat) : Option Nat :=
  if index < f.signature.params.length then
    some (f.thisWords + total (fun p => p.type.words) (f.signature.params.take index))
  else none

def returnWords (f : Func) : Nat :=
  if f.signature.returns.isOwned then 0 else f.signature.returns.words

def lineAt? (f : Func) (pc : Nat) : Option (UInt32 × UInt32) := f.lines.find? pc

def declaration (f : Func) : String :=
  f.signature.returns.text ++ " " ++ f.name ++ "(" ++
    ", ".intercalate (f.signature.params.map fun p => p.type.text) ++ ")"

/-- The locals and every word that the code could push, each instruction counted once. -/
def estimate (locals : UInt32) (code : Array Instr) : Nat :=
  locals.toNat + total Instr.pushedWords code.toList

/-- Settles the stack a function needs: what is given but not less than the locals, else the
estimate. There is none beyond the 32-bit range. -/
def settle? (f : Func) (stack : Option UInt32) : Option Func :=
  match stack with
  | some words => some { f with stackNeeded := max words f.locals }
  | none => (word? (estimate f.locals f.code)).map fun stackNeeded => { f with stackNeeded }

end Func
end ScriptVm
