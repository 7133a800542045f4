import ScriptVm.Image.Basic
import ScriptVm.Instr.Json
import ScriptVm.Json.Reader

namespace ScriptVm

namespace Json

/-- The fields of a description: an object, or an array of the fields in order. Other fields than
the known ones are ignored, a repeated one is refused, and some may be left out. -/
def record? (names : List String) : Json → Option (List (Option Json))
  | object fs =>
    if fs.all fun f => f.1.isSome then
      names.mapM fun name =>
        match fs.filter fun f => f.1 == some name with
        | [] => some none
        | [f] => some (some f.2)
        | _ => none
    else none
  | array items =>
    if items.length ≤ names.length then
      some (items.map some ++ List.replicate (names.length - items.length) none)
    else none
  | _ => none

def list? {α : Type} (f : Json → Option α) (j : Json) : Option (List α) :=
  j.array?.bind fun items => items.mapM f

def nullable? {α : Type} (f : Json → Option α) : Json → Option (Option α)
  | null => some none
  | j => (f j).map some

def orDefault {α : Type} (d : α) (f : Json → Option α) : Option Json → Option α
  | none => some d
  | some j => f j

end Json

open Json

def TypeImage.ofJson? (j : Json) : Option TypeImage := do
  match ← j.record? ["name", "fields", "ref_counted", "script_object", "handle_fields"] with
  | [name, fields, refCounted, scriptObject, handleFields] =>
    pure {
      name := ← orDefault "" string? name
      fields := ← orDefault 0 Json.word? fields
      refCounted := ← orDefault false bool? refCounted
      scriptObject := ← orDefault false bool? scriptObject
      handleFields := ← orDefault [] (list? Json.word?) handleFields }
  | _ => none

def TypeImage.toJson (t : TypeImage) : Json :=
  .fields
    [("name", .text t.name), ("fields", .nat t.fields.toNat), ("ref_counted", .bool t.refCounted),
     ("script_object", .bool t.scriptObject),
       ("handle_fields", .array (t.handleFields.map fun w => .nat w.toNat))]

def GlobalImage.ofJson? (j : Json) : Option GlobalImage := do
  match ← j.record? ["name", "type"] with
  | [some name, some type] => pure { name := ← name.string?, type := ← type.string? }
  | _ => none

def GlobalImage.toJson (g : GlobalImage) : Json :=
  .fields [("name", .text g.name), ("type", .text g.type)]

def ImportImage.ofJson? (j : Json) : Option ImportImage := do
  match ← j.record? ["name", "from", "returns", "params"] with
  | [some name, some source, returns, params] =>
    pure {
      name := ← name.string?
      source := ← source.string?
      returns := ← orDefault "void" string? returns
      params := ← orDefault [] (list? string?) params }
  | _ => none

def ImportImage.toJson (i : ImportImage) : Json :=
  .fields
    [("name", .text i.name), ("from", .text i.source), ("returns", .text i.returns),
     ("params", .array (i.params.map .text))]

def VarImage.ofJson? (j : Json) : Option VarImage := do
  match ← j.record? ["name", "type", "offset"] with
  | [some name, some type, some offset] =>
    pure { name := ← name.string?, type := ← type.string?, offset := ← offset.offset? }
  | _ => none

def VarImage.toJson (v : VarImage) : Json :=
  .fields [("name", .text v.name), ("type", .text v.type), ("offset", .int v.offset.toInt)]

def ObjectVarImage.ofJson? (j : Json) : Option ObjectVarImage := do
  match ← j.record? ["offset", "type"] with
  | [some offset, some type] => pure { offset := ← offset.offset?, type := ← type.word? }
  | _ => none

def ObjectVarImage.toJson (v : ObjectVarImage) : Json :=
  .fields [("offset", .int v.offset.toInt), ("type", .nat v.type.toNat)]

def LineImage.ofJson? : Json → Option LineImage
  | .array [pc, line] => do
    pure { pc := (← pc.natural? 18446744073709551616).toUInt64, line := ← line.word? }
  | .array [pc, line, column] => do
    pure { pc := (← pc.natural? 18446744073709551616).toUInt64, line := ← line.word?,
           column := some (← column.word?) }
  | _ => none

def LineImage.toJson (l : LineImage) : Json :=
  .array ([.nat l.pc.toNat, .nat l.line.toNat] ++ l.column.toList.map fun c => .nat c.toNat)

def FuncImage.ofJson? (j : Json) : Option FuncImage := do
  match ← j.record?
      ["name", "returns", "params", "method_of", "locals", "stack", "code", "lines", "variables",
        "object_variables"] with
  | [some name, returns, params, methodOf, locals, stack, some code, lines, vars, objectVars] =>
    pure {
      name := ← name.string?
      returns := ← orDefault "void" string? returns
      params := ← orDefault [] (list? string?) params
      methodOf := ← orDefault none (nullable? string?) methodOf
      locals := ← orDefault 0 Json.word? locals
      stack := ← orDefault none (nullable? Json.word?) stack
      code := ← list? Instr.ofJson? code
      lines := ← orDefault [] (list? LineImage.ofJson?) lines
      vars := ← orDefault [] (list? VarImage.ofJson?) vars
      objectVars := ← orDefault [] (list? ObjectVarImage.ofJson?) objectVars }
  | _ => none

def FuncImage.toJson (f : FuncImage) : Json :=
  .fields
    [("name", .text f.name), ("returns", .text f.returns), ("params", .array (f.params.map .text)),
     ("method_of", .opt .text f.methodOf), ("locals", .nat f.locals.toNat),
     ("stack", .opt (fun w => .nat w.toNat) f.stack), ("code", .array (f.code.map Instr.toJson)),
     ("lines", .array (f.lines.map LineImage.toJson)), ("variables",
       .array (f.vars.map VarImage.toJson)),
     ("object_variables", .array (f.objectVars.map ObjectVarImage.toJson))]

namespace Image

def ofJson? (j : Json) : Option Image := do
  match ← j.record?
      ["name", "types", "strings", "globals", "system_functions", "imports", "functions",
        "initializer"] with
  | [name, types, strings, globals, hostFunctions, imports, functions, initializer] =>
    pure {
      name := ← orDefault "" string? name
      types := ← orDefault [] (list? TypeImage.ofJson?) types
      strings := ← orDefault [] (list? string?) strings
      globals := ← orDefault [] (list? GlobalImage.ofJson?) globals
      hostFunctions := ← orDefault [] (list? string?) hostFunctions
      imports := ← orDefault [] (list? ImportImage.ofJson?) imports
      functions := ← orDefault [] (list? FuncImage.ofJson?) functions
      initializer := ← orDefault none (nullable? FuncImage.ofJson?) initializer }
  | _ => none

def toJson (i : Image) : Json :=
  .fields
    [("name", .text i.name), ("types", .array (i.types.map TypeImage.toJson)),
      ("strings", .array (i.strings.map .text)),
     ("globals", .array (i.globals.map GlobalImage.toJson)), ("system_functions",
       .array (i.hostFunctions.map .text)),
     ("imports", .array (i.imports.map ImportImage.toJson)), ("functions",
       .array (i.functions.map FuncImage.toJson)),
     ("initializer", .opt FuncImage.toJson i.initializer)]

def read? (text : String) : Option Image := (Json.read? text).bind ofJson?

def write (i : Image) : String := i.toJson.pretty 0

end Image
end ScriptVm
