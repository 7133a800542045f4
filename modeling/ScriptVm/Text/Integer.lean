namespace ScriptVm.Text

def digit? (c : Char) : Option Nat := if '0' ≤ c ∧ c ≤ '9' then some (c.toNat - 48) else none

def hexDigit? (c : Char) : Option Nat :=
  if 'a' ≤ c ∧ c ≤ 'f' then some (c.toNat - 87)
  else if 'A' ≤ c ∧ c ≤ 'F' then some (c.toNat - 55)
  else digit? c

def digitsFrom? (acc : Nat) : List Char → Option Nat
  | [] => some acc
  | c :: cs => (digit? c).bind fun d => digitsFrom? (10 * acc + d) cs

def natural? : List Char → Option Nat
  | [] => none
  | cs => digitsFrom? 0 cs

/-- A decimal literal with an optional sign. A minus sign is refused where no value is negative. -/
def integer? (signed : Bool) : List Char → Option Int
  | '+' :: cs => (natural? cs).map Int.ofNat
  | '-' :: cs => if signed then (natural? cs).map fun n => -Int.ofNat n else none
  | cs => (natural? cs).map Int.ofNat

def signed? (bits : Nat) (text : String) : Option Int :=
  (integer? true text.toList).filter fun v =>
    -(Nat.pow 2 (bits - 1) : Int) ≤ v && v < Nat.pow 2 (bits - 1)

def unsigned? (bits : Nat) (text : String) : Option Nat :=
  ((integer? false text.toList).filter fun (v : Int) => v < Nat.pow 2 bits).map Int.toNat

end ScriptVm.Text
