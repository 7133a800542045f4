import ScriptVm.Json.Number
import ScriptVm.Json.Writer

namespace ScriptVm.Json

def NumberValue.text? : NumberValue → Option String
  | natural n => some (toString n)
  | negative n => some (toString n)
  | real bits => some (Decimal.Layout.jsonDouble.write Real.double bits.toNat)
  | outOfRange => none

mutual

/-- The value with its numbers written by their values: an integer by its digits, any other number
by the fewest digits that name its double-precision value. -/
def canonical : Json → Json
  | .number lexeme => .number (((numberValue? lexeme).bind NumberValue.text?).getD lexeme)
  | .array items => .array (canonicalItems items)
  | .object fields => .object (canonicalFields fields)
  | j => j

def canonicalItems : List Json → List Json
  | [] => []
  | v :: vs => canonical v :: canonicalItems vs

def canonicalFields : List (Option String × Json) → List (Option String × Json)
  | [] => []
  | (k, v) :: fs => (k, canonical v) :: canonicalFields fs

end
end ScriptVm.Json
