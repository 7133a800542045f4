import ScriptVm.Engine.Basic
import ScriptVm.Instr.Text
import ScriptVm.Report.Value

namespace ScriptVm

def ObjectType.report (t : ObjectType) : Json :=
  .fields
    [("id", .word t.id.val), ("name", .text t.name), ("fields", .word t.fieldWords),
     ("handle_fields", .array (t.handleFields.map .word)), ("ref_counted", .bool t.refCounted),
     ("script_object", .bool t.scriptObject), ("methods",
       .array (t.methods.map fun id => .word id.val)),
     ("vtable", .array (t.virtualTable.map fun id => .word id.val))]

def Instr.report (i : Instr) (hex : String) : Json :=
  .fields
    [("debug", .text i.text), ("name", .text i.opcode.mnemonic),
      ("opcode", .nat i.opcode.tag.toNat), ("hex", .text hex),
     ("jump", .opt (fun (v : Int32) => .int v.toInt) i.jumpOffset?), ("terminator",
       .bool i.isTerminator),
     ("vars", .array (i.vars.map fun v => .int v.toInt))]

def FuncKind.name : FuncKind → String
  | script => "Script"
  | host => "System"
  | interface => "Interface"
  | imported => "Imported"
  | virtual => "Virtual"

def Modifier.name : Modifier → String
  | none => "None"
  | inward => "In"
  | outward => "Out"
  | both => "InOut"

def reportPosition (p : UInt32 × UInt32) : Json := .array [.word p.1, .word p.2]

def Func.report (types : Registry) (f : Func) : Json :=
  let name := fun (t : DataType) => Json.text (types.typeName t)
  .fields
    [("id", .word f.id.val), ("name", .text f.name), ("kind", .text f.kind.name),
      ("script", .bool f.isScript),
     ("decl", .text f.declaration), ("module", .opt (fun m => .word m.val) f.module),
     ("this", .opt (fun t => .word t.val) f.owner), ("signature_id", .word f.signatureId),
     ("vtable", .opt .word f.tableIndex), ("from", .opt .text f.source), ("arg_words",
       .nat f.argWords),
     ("this_words", .nat f.thisWords), ("return_words", .nat f.returnWords), ("param_words",
       .nat f.signature.paramWords),
     ("offsets", .array
       ((List.range (f.signature.params.length + 1)).map fun i => .opt .nat (f.paramOffset? i))),
     ("params", .array (f.signature.params.map fun p =>
       .array [name p.type, .text p.modifier.name, .bool p.type.isOwned])),
     ("returns", name f.signature.returns), ("locals", .word f.locals), ("stack",
       .word f.stackNeeded),
     ("code", .array (f.code.toList.map fun i => .text i.text)),
     ("lines", .array ((List.range f.code.size).map fun pc => .opt reportPosition (f.lineAt? pc))),
     ("object_variables",
       .array (f.objectVars.map fun v => .array [.int v.offset.toInt, .word v.type.val])),
     ("variables",
       .array (f.vars.map fun v => .array [.text v.name, .text v.type.text, .int v.offset.toInt])),
     ("keeps_args", .bool f.keepsArgs)]

def Module.report (e : Engine) (m : Module) : Json :=
  .fields
    [("id", .word m.id.val), ("name", .text m.name),
     ("functions", .array (m.functions.toList.map fun f =>
       .array [.text f.name, .word f.id.val, .bool (e.function? f.id).isSome])),
     ("count", .nat m.functions.size),
     ("init", .opt (fun f => .array [.text f.name, .word f.id.val]) m.initializer),
     ("globals", .array (m.globals.toList.map fun g =>
       .array
         [.text g.name, .text (e.types.typeName g.type), .word g.offset,
           (Address.global m.id g.offset).report,
          .opt .word (m.readGlobal? g.offset)])),
     ("strings", .array (m.strings.toList.map .text)),
     ("imports", .array (m.imports.toList.map fun i =>
       .array [.text i.declaration.declaration, .opt .text i.declaration.source,
         .opt (fun id => .word id.val) i.bound])),
     ("context_refs", .word m.contextRefs), ("module_refs", .word m.moduleRefs), ("used",
       .bool m.isUsed),
     ("discarded", .bool m.discarded), ("can_delete", .bool m.canDelete), ("by_id",
       .bool (e.module? m.id).isSome),
     ("by_name", .opt (fun m => .word m.id.val) (e.moduleNamed? m.name))]

def Object.report (o : Object) : Json :=
  .fields
    [("type", .word o.type.id.val), ("refs", .nat o.refs),
      ("fields", .array (o.fields.toList.map .word)),
     ("debug", .text o.text)]

/-- The number of live objects, and how often objects were made, destroyed and counted. -/
def Heap.report (h : Heap) : List (String × Json) :=
  [("live", .nat h.liveCount), ("allocations", .nat h.stats.allocations),
    ("frees", .nat h.stats.frees),
   ("add_refs", .nat h.stats.addRefs), ("releases", .nat h.stats.releases)]

end ScriptVm
