import ScriptVm.Config.Basic
import ScriptVm.Text.Integer
import ScriptVm.Word

namespace ScriptVm.Config

def isVisible (c : Char) : Bool := c == '\t' || (32 ≤ c.toNat && c.toNat ≠ 127)

def isSpace (c : Char) : Bool := c == ' ' || c == '\t'

def isBare (c : Char) : Bool := c.isAlphanum || c == '_' || c == '-'

def radixDigit? (radix : Nat) (c : Char) : Option Nat := (Text.hexDigit? c).filter (· < radix)

def grouped? (radix : Nat) : List Char → Option (List Nat)
  | [] => none
  | [c] => (radixDigit? radix c).map fun d => [d]
  | c :: '_' :: cs => (radixDigit? radix c).bind fun d => (grouped? radix cs).map (d :: ·)
  | c :: cs => (radixDigit? radix c).bind fun d => (grouped? radix cs).map (d :: ·)

def ofDigits (radix : Nat) (ds : List Nat) : Nat := ds.foldl (fun n d => radix * n + d) 0

def decimal? (cs : List Char) : Option Nat :=
  match grouped? 10 cs with
  | some (0 :: _ :: _) => none
  | some ds => some (ofDigits 10 ds)
  | none => none

def integer? : List Char → Option Int
  | '+' :: cs => (decimal? cs).map Int.ofNat
  | '-' :: cs => (decimal? cs).map fun n => -Int.ofNat n
  | '0' :: 'x' :: cs => (grouped? 16 cs).map fun ds => ofDigits 16 ds
  | '0' :: 'o' :: cs => (grouped? 8 cs).map fun ds => ofDigits 8 ds
  | '0' :: 'b' :: cs => (grouped? 2 cs).map fun ds => ofDigits 2 ds
  | cs => (decimal? cs).map Int.ofNat

def word? (cs : List Char) : Option UInt32 :=
  (integer? cs).bind fun n => if 0 ≤ n then ScriptVm.word? n.toNat else none

def bool? (cs : List Char) : Option Bool :=
  match String.ofList cs with
  | "true" => some true
  | "false" => some false
  | _ => none

def codePoint? (n : Nat) (cs : List Char) : Option (Char × List Char) := do
  let ds ← (cs.take n).mapM (radixDigit? 16)
  let v := ofDigits 16 ds
  if ds.length = n ∧ v.isValidChar then some (Char.ofNat v, cs.drop n) else none

/-- A key in double quotes, after the first of them, and what follows. Each escape takes two
characters or more. -/
def quotedKey? : Nat → List Char → Option (List Char × List Char)
  | 0, _ | _, [] => none
  | fuel + 1, c :: cs =>
    if c == '"' then some ([], cs)
    else if c == '\\' then
      let escaped : Option (Char × List Char) := match cs with
        | 'b' :: cs => some ('\x08', cs)
        | 't' :: cs => some ('\t', cs)
        | 'n' :: cs => some ('\n', cs)
        | 'f' :: cs => some ('\x0c', cs)
        | 'r' :: cs => some ('\r', cs)
        | '"' :: cs => some ('"', cs)
        | '\\' :: cs => some ('\\', cs)
        | 'u' :: cs => codePoint? 4 cs
        | 'U' :: cs => codePoint? 8 cs
        | _ => none
      escaped.bind fun (e, cs) => (quotedKey? fuel cs).map fun (key, rest) => (e :: key, rest)
    else if isVisible c then (quotedKey? fuel cs).map fun (key, rest) => (c :: key, rest)
    else none

def key? (cs : List Char) : Option (String × List Char) :=
  match cs with
  | [] => none
  | c :: rest =>
    if c == '"' then (quotedKey? cs.length rest).map fun (key, rest) => (String.ofList key, rest)
    else if c == '\x27' then
      let key := rest.takeWhile (· != '\x27')
      match rest.dropWhile (· != '\x27') with
      | _ :: rest => if key.all isVisible then some (String.ofList key, rest) else none
      | [] => none
    else
      let key := cs.takeWhile isBare
      if key.isEmpty then none else some (String.ofList key, cs.dropWhile isBare)

def isComment : List Char → Bool
  | [] => true
  | c :: cs => c == '#' && cs.all isVisible

def line? (cs : List Char) : Option (Option (String × List Char)) :=
  let cs := cs.dropWhile isSpace
  if isComment cs then some none
  else do
    let (key, rest) ← key? cs
    match rest.dropWhile isSpace with
    | '=' :: rest =>
      let rest := rest.dropWhile isSpace
      let ends := fun c => isSpace c || c == '#'
      if isComment ((rest.dropWhile fun c => !ends c).dropWhile isSpace) then
        some (some (key, rest.takeWhile fun c => !ends c))
      else none
    | _ => none

def lines (cs : List Char) : List (List Char) :=
  cs.foldr
    (fun c ls => match ls with
      | l :: ls => if c == '\n' then [] :: l :: ls else (c :: l) :: ls
      | [] => if c == '\n' then [[], []] else [[c]])
    [[]]

/-- A carriage return counts only before the end of a line that is followed by another. -/
def dropReturns : List (List Char) → List (List Char)
  | [] => []
  | [l] => [l]
  | l :: ls =>
    (match l.reverse with
      | '\r' :: r => r.reverse
      | _ => l) :: dropReturns ls

def set? (state : Config × List String) (setting : String × List Char) :
    Option (Config × List String) :=
  let (config, seen) := state
  let (key, value) := setting
  if seen.contains key then none
  else
    let next : Option Config := match key with
      | "initial_context_stack_words" =>
        (word? value).map fun initialStack => { config with initialStack }
      | "max_context_stack_words" => (word? value).map fun maxStack => { config with maxStack }
      | "verify_bytecode" => (bool? value).map fun verify => { config with verify }
      | _ => none
    next.map fun config => (config, key :: seen)

/-- Reads lines `key = value` in the form of TOML, for the outer layer: an engine is given a
`Config`. Every key occurs at most once; what the text does not set has its default. A byte order
mark may come first. -/
def read? (text : String) : Option Config := do
  let cs := text.toList
  let cs := if cs.head? = some '\ufeff' then cs.tail else cs
  let settings ← (dropReturns (lines cs)).mapM line?
  let (config, _) ← (settings.filterMap id).foldlM set? ({}, [])
  pure config

end ScriptVm.Config
