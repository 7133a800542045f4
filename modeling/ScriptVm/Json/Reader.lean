import ScriptVm.Json.Basic
import ScriptVm.Json.Number

namespace ScriptVm.Json

inductive Token where
  | openArray | closeArray | openObject | closeObject | colon | comma
  | null
  | bool (b : Bool)
  | number (lexeme : String)
  | string (text : Option String)
  deriving DecidableEq, Repr

/-- Code points, where two halves of a surrogate pair side by side make one character. -/
def joinSurrogates : List Nat → Option (List Char)
  | [] => some []
  | a :: rest =>
    if 0xd800 ≤ a ∧ a < 0xdc00 then
      match rest with
      | b :: rest =>
        if 0xdc00 ≤ b ∧ b < 0xe000 then
          (joinSurrogates rest).map (Char.ofNat (0x10000 + (a - 0xd800) * 0x400 + (b - 0xdc00)) :: ·)
        else none
      | [] => none
    else if 0xdc00 ≤ a ∧ a < 0xe000 then none
    else (joinSurrogates rest).map (Char.ofNat a :: ·)

/-- What the scanner is in the middle of. Characters and code points are kept last first. -/
inductive Mode where
  | between
  | word (cs : List Char)
  | number (cs : List Char)
  | string (points : List Nat)
  /-- After a backslash. -/
  | escape (points : List Nat)
  /-- Among the four digits of an escaped code point. -/
  | hex (points : List Nat) (left : Nat) (value : Nat)
  deriving Repr

/-- Tokens are kept last first. -/
structure Scanner where
  tokens : List Token := []
  mode : Mode := .between
  deriving Repr

namespace Scanner

def isSpace (c : Char) : Bool := c == ' ' || c == '\t' || c == '\n' || c == '\r'

def isNumberChar (c : Char) : Bool :=
  (Text.digit? c).isSome || c == '-' || c == '+' || c == '.' || c == 'e' || c == 'E'

def finish? (s : Scanner) : Option Scanner :=
  match s.mode with
  | .between => some s
  | .word cs =>
    match String.ofList cs.reverse with
    | "null" => some ⟨.null :: s.tokens, .between⟩
    | "true" => some ⟨.bool true :: s.tokens, .between⟩
    | "false" => some ⟨.bool false :: s.tokens, .between⟩
    | _ => none
  | .number cs =>
    if (Number.read? cs.reverse).isSome then
      some ⟨.number (String.ofList cs.reverse) :: s.tokens, .between⟩ else none
  | .string _ | .escape _ | .hex .. => none

def start? (tokens : List Token) (c : Char) : Option Scanner :=
  if isSpace c then some ⟨tokens, .between⟩
  else if c == '[' then some ⟨.openArray :: tokens, .between⟩
  else if c == ']' then some ⟨.closeArray :: tokens, .between⟩
  else if c.toNat = 123 then some ⟨.openObject :: tokens, .between⟩
  else if c.toNat = 125 then some ⟨.closeObject :: tokens, .between⟩
  else if c == ':' then some ⟨.colon :: tokens, .between⟩
  else if c == ',' then some ⟨.comma :: tokens, .between⟩
  else if c == '"' then some ⟨tokens, .string []⟩
  else if c == '-' || (Text.digit? c).isSome then some ⟨tokens, .number [c]⟩
  else if c.isLower then some ⟨tokens, .word [c]⟩
  else none

def escaped? : Char → Option Nat
  | '"' => some 34
  | '\\' => some 92
  | '/' => some 47
  | 'b' => some 8
  | 'f' => some 12
  | 'n' => some 10
  | 'r' => some 13
  | 't' => some 9
  | _ => none

def step? (s : Scanner) (c : Char) : Option Scanner :=
  match s.mode with
  | .between => start? s.tokens c
  | .word cs => if c.isLower then some { s with mode := .word (c :: cs) }
      else s.finish?.bind fun s => start? s.tokens c
  | .number cs =>
    if isNumberChar c then some { s with mode := .number (c :: cs) }
    else s.finish?.bind fun s => start? s.tokens c
  | .string points =>
    if c == '"' then
      some ⟨.string ((joinSurrogates points.reverse).map String.ofList) :: s.tokens, .between⟩
    else if c == '\\' then some { s with mode := .escape points }
    else if c.toNat < 32 then none
    else some { s with mode := .string (c.toNat :: points) }
  | .escape points =>
    if c == 'u' then some { s with mode := .hex points 4 0 }
    else (escaped? c).map fun n => { s with mode := .string (n :: points) }
  | .hex points left value =>
    (Text.hexDigit? c).map fun d =>
      let value := 16 * value + d
      if left ≤ 1 then { s with mode := .string (value :: points) }
      else { s with mode := .hex points (left - 1) value }

end Scanner

def tokens? (cs : List Char) : Option (List Token) :=
  ((cs.foldlM Scanner.step? {}).bind Scanner.finish?).map fun s => s.tokens.reverse

/-- A container that is not yet closed. Items and fields are kept last first. -/
inductive Container where
  | array (items : List Json)
  | object (fields : List (Option String × Json)) (key : Option String)
  deriving Repr

/-- What may come next. -/
inductive Expect where
  | value
  /-- A value or the end of the array. -/
  | item
  | key
  /-- A key or the end of the object. -/
  | field
  | colon
  /-- A comma or the end of the container. -/
  | more
  /-- Nothing, as the value is complete. -/
  | done (v : Json)
  deriving Repr

structure Builder where
  containers : List Container := []
  expect : Expect := .value
  deriving Repr

namespace Builder

def put (v : Json) : List Container → Builder
  | [] => ⟨[], .done v⟩
  | .array items :: cs => ⟨.array (v :: items) :: cs, .more⟩
  | .object fields key :: cs => ⟨.object ((key, v) :: fields) none :: cs, .more⟩

def value? (cs : List Container) : Token → Option Builder
  | .null => some (put .null cs)
  | .bool b => some (put (.bool b) cs)
  | .number n => some (put (.number n) cs)
  | .string s => some (put (.string s) cs)
  | .openArray => some ⟨.array [] :: cs, .item⟩
  | .openObject => some ⟨.object [] none :: cs, .field⟩
  | _ => none

def close? : List Container → Token → Option Builder
  | .array items :: cs, .closeArray => some (put (.array items.reverse) cs)
  | .object fields _ :: cs, .closeObject => some (put (.object fields.reverse) cs)
  | _, _ => none

def key? : List Container → Token → Option Builder
  | .object fields _ :: cs, .string key => some ⟨.object fields key :: cs, .colon⟩
  | _, _ => none

def step? (b : Builder) (t : Token) : Option Builder :=
  match b.expect with
  | .value => value? b.containers t
  | .item => if t = .closeArray then close? b.containers t else value? b.containers t
  | .key => key? b.containers t
  | .field => if t = .closeObject then close? b.containers t else key? b.containers t
  | .colon => if t = .colon then some { b with expect := .value } else none
  | .more =>
    if t = .comma then
      match b.containers with
      | .array _ :: _ => some { b with expect := .value }
      | .object .. :: _ => some { b with expect := .key }
      | [] => none
    else close? b.containers t
  | .done _ => none

end Builder

def ofTokens? (ts : List Token) : Option Json :=
  (ts.foldlM Builder.step? {}).bind fun b =>
    match b.expect with
    | .done v => some v
    | _ => none

/-- Reads JSON text: characters to tokens, tokens to a value. Both are folds. -/
def read? (text : String) : Option Json := (tokens? text.toList).bind ofTokens?

end ScriptVm.Json
