namespace ScriptVm.Text

def isBlank (c : Char) : Bool :=
  let n := c.toNat
  (9 ≤ n && n ≤ 13) || n == 0x20 || n == 0x85 || n == 0xa0 || n == 0x1680 ||
    (0x2000 ≤ n && n ≤ 0x200a) ||
    n == 0x2028 || n == 0x2029 || n == 0x202f || n == 0x205f || n == 0x3000

def trimStart (cs : List Char) : List Char := cs.dropWhile isBlank

def trimEnd (cs : List Char) : List Char := (cs.reverse.dropWhile isBlank).reverse

def trim (cs : List Char) : List Char := trimEnd (trimStart cs)

def dropLast? (c : Char) (cs : List Char) : Option (List Char) :=
  match cs.reverse with
  | d :: rest => if d = c then some rest.reverse else none
  | [] => none

/-- Whether a text ends with a mark, and the text without the mark and the blanks before it. -/
def stripMark (mark : Char) (cs : List Char) : Bool × List Char :=
  match dropLast? mark cs with
  | some rest => (true, trimEnd rest)
  | none => (false, cs)

end ScriptVm.Text
