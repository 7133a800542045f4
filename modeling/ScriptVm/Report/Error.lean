import ScriptVm.Image.Basic
import ScriptVm.Instr.Codec
import ScriptVm.Json.Writer

namespace ScriptVm

def errorFields (kind message : String) : List (String × Json) :=
  [("error", .text kind), ("message", .text message)]

namespace CodeError

def kind : CodeError → String
  | badMagic => "InvalidMagic"
  | badVersion _ => "UnsupportedVersion"
  | endOfCode => "UnexpectedEof"
  | badTag _ => "InvalidOpcode"
  | trailing _ => "TrailingBytes"

def report (e : CodeError) : List (String × Json) := errorFields e.kind e.message

end CodeError

namespace Fault

def kind : Fault → String
  | nullPointer => "NullPointerAccess"
  | divideByZero => "DivideByZero"
  | stackOverflow => "StackOverflow"
  | badCode => "UnrecognizedBytecode"
  | unboundFunction => "UnboundFunction"
  | host _ => "Host"

def report (f : Fault) : List (String × Json) := errorFields f.kind f.message

end Fault

namespace RequestError

def kind : RequestError → String
  | busy => "ContextBusy"
  | invalidState _ => "InvalidState"
  | notPrepared => "NotPrepared"
  | argIndex _ => "InvalidArgIndex"
  | argType _ _ => "ArgTypeMismatch"
  | noFunction _ => "NoFunction"
  | unboundFunction _ => "UnboundFunction"
  | noHostCall => "NoSystemCall"
  | notMethod => "NotAMethod"

def report (e : RequestError) : List (String × Json) := errorFields e.kind e.message

end RequestError

def CheckCause.kind : CheckCause → String
  | emptyFunction => "EmptyFunction"
  | missingReturn => "MissingReturn"
  | importWithCode => "ImportWithCode"
  | stackSize _ _ => "InvalidStackSize"
  | jumpTarget _ _ => "InvalidJumpTarget"
  | frameVariable _ _ => "InvalidVariable"
  | global _ _ => "InvalidGlobal"
  | string _ _ => "InvalidString"
  | callTarget _ _ _ => "InvalidCallTarget"
  | type _ _ => "InvalidType"
  | objectVariable _ => "InvalidObjectVariable"

namespace ModuleError

def kind : ModuleError → String
  | duplicateModule _ => "DuplicateModule"
  | duplicateType _ => "DuplicateType"
  | noModule _ => "NoSuchModule"
  | noImport _ => "NoSuchImport"
  | noFunction _ => "NoSuchFunction"
  | undefinedFunction _ => "UndefinedFunction"
  | incompatibleSignature _ _ => "IncompatibleSignature"
  | unresolvedImports _ => "UnresolvedImports"
  | buildInProgress => "BuildInProgress"
  | initFailed _ => "InitFailed"
  | check e => "Verify:" ++ e.cause.kind

def report (e : ModuleError) : List (String × Json) := errorFields e.kind e.message

end ModuleError

def ImageError.report : ImageError → List (String × Json)
  | unreadable _ => [("error", .text "Io")]
  | malformed => [("error", .text "Json")]
  | module e => e.report
  | e@(unknownType _) => errorFields "UnknownType" e.message
  | e@(unknownHostFunction _) => errorFields "UnknownSystemFunction" e.message
  | e@(badIndex _ _) => errorFields "BadIndex" e.message

end ScriptVm
