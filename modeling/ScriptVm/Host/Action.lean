import ScriptVm.Memory.Address

namespace ScriptVm

/-- The ways to read an argument. -/
inductive ArgKind where
  | dword | int | bool | float | qword | int64 | double | address | object
  deriving DecidableEq, Inhabited, Repr

/-- What a host function does to the machine that calls it. -/
inductive HostAction where
  | announce
  | tellArg (kind : ArgKind) (index : Nat)
  /-- Tells an argument without its number. -/
  | inspectArg (kind : ArgKind) (index : Nat)
  | countArgs
  /-- Prints an argument on a line. -/
  | printArg (kind : ArgKind) (index : Nat)
  /-- Sets the result, by its bits. -/
  | giveBits (bits : UInt64)
  /-- Sets the result to no object. -/
  | giveNull
  /-- The sum of all arguments as 32-bit integers. -/
  | giveSum
  | giveTwice (index : Nat)
  /-- An object argument, with a reference of its own. -/
  | giveArg (index : Nat)
  /-- The object the method is called on, with a reference of its own. -/
  | giveThis
  /-- An object, with a reference of its own. -/
  | giveHandle (object : Option Handle)
  | giveNew (type : TypeId)
  | giveAddressArg (index : Nat)
  /-- Adds a reference to an object argument. -/
  | keepArg (index : Nat)
  /-- Reads through an address argument. -/
  | readThrough (index : Nat)
  | writeThrough (index : Nat) (value : UInt32)
  | writeThrough64 (index : Nat) (value : UInt64)
  | write (address : Address) (value : UInt32)
  /-- Tells the constant string behind an address argument. -/
  | tellString (index : Nat)
  | setThisField (field : Nat) (value : UInt32)
  | setThisFieldFromArg (field index : Nat)
  | tellPlace
  | setException (message : String)
  /-- Sets an exception and tells whether it was taken. -/
  | trySetException (message : String)
  | fail (message : String)
  | failIfNegative (index : Nat)
  | finish
  | suspend
  | abort
  /-- Runs a function in a context of its own; with `gives` its result is the result of the call. -/
  | run (function : FunctionId) (args : List UInt32) (gives : Bool)
  deriving DecidableEq, Inhabited, Repr

/-- What a host function asks about its call. -/
inductive HostQuestion where
  | word (index : Nat)
  | word64 (index : Nat)
  /-- The object the method is called on. -/
  | this
  | load (address : Address)
  /-- The constant string behind an address. -/
  | text (address : Address)
  /-- The bits of the result so far. -/
  | result
  deriving DecidableEq, Inhabited, Repr

@[reducible] def HostQuestion.Answer : HostQuestion → Type
  | word _ => UInt32
  | word64 _ | result => UInt64
  | this => Option Handle
  | load _ => Option UInt32
  | text _ => Option String

/-- A host function. What it does next is any function of the answers that it has had. The machine
it reaches by actions only, so no host function changes the modules, types and functions of an
engine. -/
inductive HostBody where
  /-- The call ends, with or without an error. -/
  | done (error : Option String)
  | act (action : HostAction) (next : HostBody)
  | ask (question : HostQuestion) (next : question.Answer → HostBody)

namespace HostBody

instance : Inhabited HostBody := ⟨done none⟩

instance : Repr HostBody := ⟨fun _ _ => "host function"⟩

/-- A host function that asks nothing. -/
def ofActions : List HostAction → HostBody
  | [] => done none
  | a :: actions => act a (ofActions actions)

instance : Coe (List HostAction) HostBody := ⟨ofActions⟩

end HostBody
end ScriptVm
