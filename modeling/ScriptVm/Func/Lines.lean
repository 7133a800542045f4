namespace ScriptVm

/-- From instruction `pc` on, the source is at this line and column. -/
structure LineEntry where
  pc : UInt32
  line : UInt32
  column : UInt32 := 0
  deriving DecidableEq, Inhabited, Repr

/-- Entries in the order of their instructions; those of one instruction in the order in which they
were added. -/
structure LineTable where
  entries : List LineEntry := []
  deriving DecidableEq, Inhabited, Repr

namespace LineTable

def isEmpty (t : LineTable) : Bool := t.entries.isEmpty

/-- An entry goes behind all that are not after it. The instruction is kept as a word. -/
def add (t : LineTable) (pc : Nat) (line column : UInt32) : LineTable :=
  let e : LineEntry := { pc := pc.toUInt32, line, column }
  ⟨t.entries.takeWhile (·.pc ≤ e.pc) ++ e :: t.entries.dropWhile (·.pc ≤ e.pc)⟩

def ofList (entries : List (Nat × UInt32 × UInt32)) : LineTable :=
  entries.foldl (fun t (pc, line, column) => t.add pc line column) {}

def find? (t : LineTable) (pc : Nat) : Option (UInt32 × UInt32) :=
  ((t.entries.takeWhile (·.pc.toNat ≤ pc)).getLast?).map fun e => (e.line, e.column)

end LineTable
end ScriptVm
