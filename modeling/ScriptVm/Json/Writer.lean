import ScriptVm.Json.Basic
import ScriptVm.Word
import ScriptVm.Decimal.Layout

namespace ScriptVm

/-- Floating-point numbers in JSON: in full from `10 ^ -6` up to below `10 ^ 13`, and a sign on
every exponent. -/
def Decimal.Layout.json : Decimal.Layout :=
  { positional := fun e => -6 ≤ e && e ≤ 12, keepPoint := true, plusExponent := true, tie := .even }

def Decimal.Layout.jsonDouble : Decimal.Layout :=
  { Decimal.Layout.json with positional := fun e => -5 ≤ e && e ≤ 15 }

namespace Json

def ofSingle (bits : UInt32) : Json :=
  if Real.single.magnitude bits.toNat < Real.single.infinity then
    .number (Decimal.Layout.json.write Real.single bits.toNat)
  else .null

def escapeChar (c : Char) : String :=
  if c == '"' then "\\\""
  else if c == '\\' then "\\\\"
  else if c.toNat = 8 then "\\b"
  else if c.toNat = 9 then "\\t"
  else if c.toNat = 10 then "\\n"
  else if c.toNat = 12 then "\\f"
  else if c.toNat = 13 then "\\r"
  else if c.toNat < 32 then "\\u" ++ hexPadded 4 c.toNat
  else String.singleton c

def quoted (s : String) : String := "\"" ++ String.join (s.toList.map escapeChar) ++ "\""

def stringText : Option String → String
  | some s => quoted s
  | none => "null"

private def openBrace : String := "\x7b"
private def closeBrace : String := "\x7d"

mutual

/-- A value on one line. -/
def compact : Json → String
  | .null => "null"
  | .bool b => if b then "true" else "false"
  | .number n => n
  | .string s => stringText s
  | .array items => "[" ++ ",".intercalate (compactItems items) ++ "]"
  | .object fields => openBrace ++ ",".intercalate (compactFields fields) ++ closeBrace

def compactItems : List Json → List String
  | [] => []
  | v :: vs => compact v :: compactItems vs

def compactFields : List (Option String × Json) → List String
  | [] => []
  | (k, v) :: fs => (stringText k ++ ":" ++ compact v) :: compactFields fs

end

def newline (depth : Nat) : String := "\n" ++ String.ofList (List.replicate (2 * depth) ' ')

def block (first last : String) (depth : Nat) : List String → String
  | [] => first ++ last
  | ls => first ++ newline (depth + 1) ++ ("," ++ newline (depth + 1)).intercalate ls ++
      newline depth ++ last

mutual

/-- A value with an indentation of two spaces. -/
def pretty (depth : Nat) : Json → String
  | .null => "null"
  | .bool b => if b then "true" else "false"
  | .number n => n
  | .string s => stringText s
  | .array items => block "[" "]" depth (prettyItems (depth + 1) items)
  | .object fields => block openBrace closeBrace depth (prettyFields (depth + 1) fields)

def prettyItems (depth : Nat) : List Json → List String
  | [] => []
  | v :: vs => pretty depth v :: prettyItems depth vs

def prettyFields (depth : Nat) : List (Option String × Json) → List String
  | [] => []
  | (k, v) :: fs => (stringText k ++ ": " ++ pretty depth v) :: prettyFields depth fs

end
end Json
end ScriptVm
