import ScriptVm.Context.Arguments
import ScriptVm.Decimal.Layout
import ScriptVm.Decimal.Reading

namespace ScriptVm.CommandLine

inductive ArgumentError where
  | count (declaration : String) (expected given : Nat)
  | unreadable (index : Nat) (text type : String)
  | unsupported (index : Nat) (type : String)
  | refused (e : RequestError)
  deriving DecidableEq, Inhabited, Repr

def ArgumentError.message : ArgumentError → String
  | count declaration expected given =>
    declaration ++ " expects " ++ toString expected ++ " argument(s), got " ++ toString given
  | unreadable index text type =>
    "argument " ++ toString index ++ ": cannot parse '" ++ text ++ "' as " ++ type
  | unsupported index type =>
    "argument " ++ toString index ++ ": " ++ type ++ " cannot be passed from the command line"
  | refused e => e.message

/-- Sets an integer in as many bytes as the parameter has. What does not fit is cut off. -/
def setInteger (type : DataType) (index : Nat) (v : Int) : Exec RequestError Unit :=
  let bits := (v % 4294967296).toNat.toUInt32
  match type.bytes with
  | 1 => Exec.setArgByte index bits.toUInt8
  | 2 => Exec.setArgHalf index bits.toUInt16
  | _ => Exec.setArgWord index bits

def argument (type : DataType) (index : Nat) (text : String) :
    Except ArgumentError (Exec RequestError Unit) :=
  let orUnreadable {α : Type} (v : Option α) (f : α → Exec RequestError Unit) :=
    match v with
    | some a => Except.ok (f a)
    | none => .error (.unreadable index text type.text)
  match type.primitive? with
  | some .bool =>
    let value := match text with
      | "true" => some 1
      | "false" => some 0
      | _ => none
    orUnreadable value (Exec.setArgByte index)
  | some .int8 | some .int16
  | some .int32 => orUnreadable (Text.signed? 32 text) (setInteger type index)
  | some .uint8 | some .uint16 | some .uint32 =>
    orUnreadable (Text.unsigned? 32 text) fun v => setInteger type index v
  | some .int64 =>
    orUnreadable (Text.signed? 64 text) fun v => Exec.setArgQword index v.toInt64.toUInt64
  | some .uint64 => orUnreadable (Text.unsigned? 64 text) fun v => Exec.setArgQword index v.toUInt64
  | some .float =>
    orUnreadable (Decimal.read? Real.single text) fun v => Exec.setArgFloat index v.toUInt32
  | some .double =>
    orUnreadable (Decimal.read? Real.double text) fun v => Exec.setArgDouble index v.toUInt64
  | some .void | none => .error (.unsupported index type.text)

def setArguments (index : Nat) : List DataType → List String → Exec ArgumentError Unit
  | type :: types, text :: texts => do
    match argument type index text with
    | .error e => Exec.fail e
    | .ok x =>
      EStateM.adaptExcept (Stop.map .refused) x
      setArguments (index + 1) types texts
  | _, _ => pure ()

def setAllArguments (f : Func) (texts : List String) : Exec ArgumentError Unit := do
  let params := f.signature.params
  if texts.length ≠ params.length then Exec.fail (.count f.declaration params.length texts.length)
  setArguments 0 (params.map Parameter.type) texts

/-- The result of a function that has finished. Objects, references and nothing have no text. -/
def resultText? (type : DataType) (c : Context) : Option String :=
  if type.reference then none
  else
    match type.primitive? with
    | some .bool => some (if c.resultByte ≠ 0 then "true" else "false")
    | some .int8 => some (toString c.resultByte.toInt8.toInt)
    | some .int16 => some (toString c.resultHalf.toInt16.toInt)
    | some .int32 => some (toString c.resultWord.toInt32.toInt)
    | some .int64 => some (toString c.result.toInt64.toInt)
    | some .uint8 => some (toString c.resultByte.toNat)
    | some .uint16 => some (toString c.resultHalf.toNat)
    | some .uint32 => some (toString c.resultWord.toNat)
    | some .uint64 => some (toString c.result.toNat)
    | some .float => some (Decimal.Layout.plain.write Real.single c.resultWord.toNat)
    | some .double => some (Decimal.Layout.plain.write Real.double c.result.toNat)
    | some .void | none => none

end ScriptVm.CommandLine
