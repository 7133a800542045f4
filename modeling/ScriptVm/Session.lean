import ScriptVm.Execution.Globals

namespace ScriptVm

/-- An engine together with numbered contexts. -/
structure Session where
  engine : Engine := {}
  /-- By number, in increasing order. -/
  contexts : List (Nat × Context) := []
  deriving Inhabited

namespace Session

def context (s : Session) (number : Nat) : Context :=
  ((s.contexts.find? fun c => c.1 == number).map Prod.snd).getD (Context.new s.engine.config.maxStack)

def machine (s : Session) (number : Nat) : Machine := { engine := s.engine, ctx := s.context number }

def hasContext (s : Session) (number : Nat) : Bool := s.contexts.any fun c => c.1 == number

def setContext (s : Session) (number : Nat) (c : Context) : Session :=
  { s with
    contexts := s.contexts.takeWhile (fun e => e.1 < number) ++
      (number, c) :: s.contexts.dropWhile fun e => e.1 ≤ number }

/-- Does something in one of the contexts of the engine. -/
def inContext {ε α : Type} (s : Session) (number : Nat) (x : Exec ε α) :
    Except (Stop ε) α × Session :=
  let rest : Session := { s with contexts := s.contexts.filter fun c => c.1 != number }
  match x (s.machine number) with
  | .ok a m => (.ok a, setContext { rest with engine := m.engine } number m.ctx)
  | .error stop m => (.error stop, setContext { rest with engine := m.engine } number m.ctx)

/-- Lets a context go; false if there is none of that number. -/
def dropContext (s : Session) (number : Nat) : Bool × Session :=
  if s.hasContext number then
    let engine := (s.machine number).drop.engine
    (true, { engine, contexts := s.contexts.filter fun c => c.1 != number })
  else (false, s)

def finish (s : Session) : Session := s.contexts.foldl (fun s c => (s.dropContext c.1).2) s

def takeTrace (s : Session) : Array Event × Session :=
  (s.engine.trace, { s with engine := { s.engine with trace := #[] } })

end Session
end ScriptVm
