import ScriptVm.Module.Basic

namespace ScriptVm

/-- A module in the making. -/
structure Draft where
  id : ModuleId
  name : String
  /-- Functions that need a definition, in the order of declaration. -/
  declared : Array (FunctionId × String) := #[]
  defined : List (FunctionId × Func) := []
  initializer : Option Func := none
  globals : Array Global := #[]
  storeWords : Nat := 0
  strings : Array String := #[]
  imports : Array Func := #[]
  deriving Inhabited, Repr

namespace Draft

def declare (d : Draft) (id : FunctionId) (name : String) : Draft :=
  { d with declared := d.declared.push (id, name) }

def define (d : Draft) (id : FunctionId) (f : Func) : Draft :=
  let f := { f with id, module := some d.id }
  { d with defined := (id, f) :: d.defined.filter fun e => e.1 != id }

def setInitializer (d : Draft) (f : Func) : Draft :=
  { d with initializer := some { f with id := .moduleInit, module := some d.id } }

def addGlobal (d : Draft) (name : String) (type : DataType) : UInt16 × Draft :=
  (d.globals.size.toUInt16,
    { d with
      globals := d.globals.push { name, type, offset := d.storeWords.toUInt32 }
      storeWords := d.storeWords + max type.words 1 })

def addString (d : Draft) (text : String) : UInt16 × Draft :=
  match d.strings.findIdx? (· == text) with
  | some i => (i.toUInt16, d)
  | none => (d.strings.size.toUInt16, { d with strings := d.strings.push text })

def addImport (d : Draft) (f : Func) : FunctionId × Draft :=
  let id := FunctionId.ofImport d.imports.size
  let imported := { f with id, kind := .imported, module := some d.id, code := #[] }
  (id, { d with imports := d.imports.push imported })

/-- The functions in the order of declaration, or the name of the first without a definition. -/
def functions (d : Draft) : Except String (Array Func) :=
  d.declared.mapM fun (id, name) =>
    match d.defined.find? fun e => e.1 == id with
    | some (_, f) => .ok f
    | none => .error name

def toModule (d : Draft) (functions : Array Func) : Module :=
  { id := d.id
    name := d.name
    functions
    initializer := d.initializer
    globals := d.globals
    store := Array.replicate d.storeWords 0
    strings := d.strings
    imports := d.imports.map fun declaration => { declaration } }

end Draft
end ScriptVm
