import ScriptVm.Host.Event
import ScriptVm.Report.Context

namespace ScriptVm

namespace ArgValue

def tag : ArgValue → String
  | dword _ => "dword"
  | int _ => "int"
  | bool _ => "bool"
  | float _ => "float"
  | qword _ => "qword"
  | int64 _ => "int64"
  | double _ => "double"
  | address _ => "address"
  | object _ => "object"

def report : ArgValue → Json
  | dword v => .word v
  | int v => .int v.toInt
  | bool b => .bool b
  | float v => .single v
  | qword v => .qword v
  | int64 v => .text (toString v.toInt)
  | double v => .double v
  | address a => a.report
  | object h => .opt Handle.report h

end ArgValue

def LifeChange.name : LifeChange → String
  | construct => "construct"
  | destruct => "destruct"
  | addRef => "add_ref"
  | release => "release"

def Event.report (e : Event) : Json :=
  .array <| match e with
    | life l =>
      [.text l.change.name, .text l.typeName, .nat l.refs, .array (l.fields.toList.map .word)]
    | called name args this => [.text "call", .text name, .nat args, .opt Handle.report this]
    | arg i v => [.text "arg", .nat i, v.report]
    | inspected v => [.text v.tag, v.report]
    | counted n => [.text "count", .nat n]
    | printed s => [.text "print", .text s]
    | kept b => [.text "keep", .bool b]
    | read w q => [.text "read", .opt .word w, .opt .qword q]
    | wrote b => [.text "write", .bool b]
    | wrote64 b => [.text "write8", .bool b]
    | string s => [.text "string", .opt .text s]
    | place p => [.text "place", p.report]
    | exceptionSet b => [.text "set_exception", .text (if b then "Ok" else "ErrorState")]
    | nested (.ok r) =>
      [.text "nested", .text r.outcome.name, .word r.result, .opt ScriptException.report r.exception]
    | nested (.error e) => [.text "nested", .fields e.report]
    | line p vars => [.text "line", p.report, reportVariables vars]
    | raised p e => [.text "exception", p.report, .opt ScriptException.report e]

end ScriptVm
