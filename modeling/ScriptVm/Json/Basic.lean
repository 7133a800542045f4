namespace ScriptVm

/-- Fields stay in the order of the text, repeated ones too, and numbers stay as they are written. A
string is `none` if its text has half of a surrogate pair, which names no character. -/
inductive Json where
  | null
  | bool (b : Bool)
  | number (lexeme : String)
  | string (text : Option String)
  | array (items : List Json)
  | object (fields : List (Option String × Json))
  deriving Inhabited, Repr

namespace Json

def text (s : String) : Json := string (some s)

def nat (n : Nat) : Json := number (toString n)

def int (n : Int) : Json := number (toString n)

def fields (fs : List (String × Json)) : Json := object (fs.map fun (k, v) => (some k, v))

def opt {α : Type} (f : α → Json) : Option α → Json
  | none => null
  | some a => f a

def get? (key : String) : Json → Option Json
  | object fs => (fs.reverse.find? fun f => f.1 == some key).map Prod.snd
  | _ => none

def array? : Json → Option (List Json)
  | array items => some items
  | _ => none

def string? : Json → Option String
  | string s => s
  | _ => none

def bool? : Json → Option Bool
  | bool b => some b
  | _ => none

def isNull : Json → Bool
  | null => true
  | _ => false

end Json
end ScriptVm
