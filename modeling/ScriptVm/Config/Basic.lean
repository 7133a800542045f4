namespace ScriptVm

/-- Settings of an engine. -/
structure Config where
  /-- Least number of words in the first stack block of a context. -/
  initialStack : UInt32 := 1024
  /-- Greatest number of stack words of a context; 0 for no limit. -/
  maxStack : UInt32 := 0
  /-- Functions are checked when a module is built. -/
  verify : Bool := true
  deriving DecidableEq, Inhabited, Repr

end ScriptVm
