import ScriptVm.Context.Basic
import ScriptVm.Report.Error
import ScriptVm.Report.Value

namespace ScriptVm

def Outcome.name : Outcome → String
  | finished => "Finished"
  | suspended => "Suspended"
  | exception => "Exception"
  | aborted => "Aborted"

def ScriptException.report (e : ScriptException) : Json :=
  .fields
    [("fault", .text e.fault.kind), ("message", .text e.message), ("function", .word e.function.val),
     ("name", .text e.functionName), ("line", .word e.line), ("column", .word e.column)]

def Place.report (p : Place) : Json :=
  .fields
    [("state", .text p.state.name), ("depth", .nat p.depth), ("fn", .opt .text p.function),
      ("line", .opt .word p.line),
     ("sys", .opt .text p.hostFunction)]

def VarView.report (v : VarView) : Json :=
  .array [.text v.name, .text v.type, .opt Address.report v.address, .word v.word]

def reportVariables (vars : Option (List VarView)) : Json :=
  .opt (fun vars => .array (vars.map VarView.report)) vars

namespace Context

def reportLevel (c : Context) (level : Nat) : Json :=
  .fields
    [("vars", reportVariables (c.vars? level)), ("this", .opt Handle.report (c.this? level)),
     ("this_type", .opt (fun t => .word t.val) (c.thisType? level))]

/-- The place, saved frames from the outermost on, and levels from the current function on. Both are
cut off after so many, with one level more than there are. -/
def report (c : Context) (levels : Nat) : Json :=
  let depth := c.calls.size
  .fields
    [("at", c.place.report), ("exception", .opt ScriptException.report c.exception),
     ("stack_words", .nat c.stack.allocatedWords), ("debug", .text c.text),
     ("frames", .array ((List.range (min depth levels)).map fun i =>
       .array [.opt (fun f => .text f.function.name) (c.calls.get? i), .opt .word (c.callLine? i)])),
     ("past", .array [.bool (c.calls.get? depth).isSome, .opt .word (c.callLine? depth)]),
     ("levels", .array ((List.range (min levels (depth + 1) + 1)).map c.reportLevel))]

end Context
end ScriptVm
