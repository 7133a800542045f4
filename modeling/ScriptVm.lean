import ScriptVm.Embedding.Context
import ScriptVm.Embedding.Engine
import ScriptVm.Json.Canonical
import ScriptVm.Main
import ScriptVm.Report.Engine
import ScriptVm.Report.Event
import ScriptVm.Proofs.Execution.Resumption
import ScriptVm.Proofs.Session.Disposal
import ScriptVm.Proofs.Instr.Blob
import ScriptVm.Proofs.Session.Aborting
import ScriptVm.Proofs.Image.Loading
import ScriptVm.Proofs.Image.Writing
import ScriptVm.Proofs.Execution.Estimate
import ScriptVm.Proofs.Execution.Attribution
import ScriptVm.Proofs.Heap.Generations
import ScriptVm.Proofs.Session.ObjectArguments
import ScriptVm.Proofs.Session.GlobalAccess
import ScriptVm.Proofs.Func.Lines
import ScriptVm.Proofs.Type.Declarations
import ScriptVm.Proofs.Execution.Division
import ScriptVm.Proofs.Execution.Branching
import ScriptVm.Proofs.CommandLine.IntegerArguments
import ScriptVm.Proofs.Engine.GlobalStore
