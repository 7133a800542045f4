import ScriptVm.Proofs.Execution.Rules

namespace ScriptVm.Exec

variable {α β γ : Type} {view : Machine → γ}

/-- Words and objects may be stored. -/
class Rule.Filling (Q : Rule) : Prop where
  set : ∀ (m : Machine) p v, Q.Allows .done m (m.onStack fun s => s.set p v)
  setWords : ∀ (m : Machine) p v, Q.Allows .done m (m.setWords p v)
  giveUp : ∀ (m : Machine) h, Q.Allows .done m (m.giveUp h)
  release : ∀ h, Obeys Q (onHeap fun heap => heap.release h : Exec RequestError Bool)
  retain : ∀ h, Obeys Q (addRef h : Exec RequestError Bool)
  copy : ∀ h, Obeys Q (copyObject h : Exec RequestError (Option Handle))

/-- A rule under which an argument is set or refused. -/
class Rule.Arguing (Q : Rule) : Prop extends Rule.Filling Q where
  refuse : ∀ m, Q.Allows .cause m m
  argSlot : ∀ index, Obeys Q (argSlot index)

section Filling

variable {Q : Rule} [hQ : Q.Filling]

instance obeys_setStack (p : Pointer) (v : UInt32) : Obeys Q (setStack p v) := by
  have : Obeys Q (modify fun m => m.onStack fun s => s.set p v : Exec RequestError PUnit) :=
    obeys_modify fun m => hQ.set m p v
  exact obeys_bind _ _

instance obeys_setStack64 (p : Pointer) (v : UInt64) : Obeys Q (setStack64 p v) :=
  obeys_modify fun m => hQ.setWords m p v

theorem obeys_fillArg (m : Machine) (p : Pointer) (type : DataType)
    (object : Option Handle) : Obeys Q (do
    if let some old := m.handleAt? p then modify fun m => m.giveUp old
    setStack64 p (Handle.optBits (← ownedArg type object))) := by
  have (h : Handle) : Obeys Q (addRef h : Exec RequestError Bool) := hQ.retain h
  have (h : Handle) : Obeys Q (copyObject h : Exec RequestError (Option Handle)) := hQ.copy h
  have (h : Handle) : Obeys Q (modify fun m => m.giveUp h : Exec RequestError PUnit) :=
    obeys_modify fun m => hQ.giveUp m h
  have : Obeys Q (ownedArg type object) := by
    cases object with
    | none => exact obeys_pure none
    | some h => exact obeys_ite _ _ _
  cases m.handleAt? p <;> exact obeys_bind _ _

theorem obeys_fillThis (m : Machine) (p : Pointer) (object : Option Handle) : Obeys Q (do
    if let some old := m.handleAt? p then
      let _ ← onHeap fun heap => heap.release old
    let stored ← match object with
      | none => pure none
      | some h => do
        let ok ← addRef h
        pure (if ok then some h else none)
    setStack64 p (Handle.optBits stored) : Exec RequestError Unit) := by
  have (h : Handle) : Obeys Q (addRef h : Exec RequestError Bool) := hQ.retain h
  have (h : Handle) : Obeys Q (onHeap fun heap => heap.release h : Exec RequestError Bool) :=
    hQ.release h
  cases m.handleAt? p <;> cases object <;> exact obeys_bind _ _

end Filling

section Arguing

variable {Q : Rule} [hQ : Q.Arguing]

instance obeys_argSlot (index : Nat) : Obeys Q (argSlot index) := hQ.argSlot index

instance obeys_refuse (e : RequestError) (f : α → Exec RequestError β) :
    Obeys Q (fail e >>= f) := ⟨hQ.refuse⟩

instance obeys_primitiveSlot (index bytes : Nat) (what : String) :
    Obeys Q (primitiveSlot index bytes what) := obeys_bind _ _

instance obeys_setArgs (index : Nat) (args : List UInt32) :
    Obeys Q (runFunction.setArgs index args) := by
  induction args generalizing index with
  | nil => exact obeys_pure ()
  | cons v args ih =>
    have := ih (index + 1)
    have : Obeys Q (setArgWord index v) := obeys_bind _ _
    exact obeys_bind _ _

instance obeys_setArgObject (index : Nat) (object : Option Handle) :
    Obeys Q (setArgObject index object) :=
  .bind fun slot => @obeys_ite _ _ _ _ _ _ _ _ (.bind fun m => obeys_fillArg m slot.1 slot.2 object)

instance obeys_setThis (object : Option Handle) : Obeys Q (setThis object) :=
  .bind fun c => @obeys_ite
    _ _ _ _ _ _ _ _ (@obeys_ite _ _ _ _ _ _ _ _ (.bind fun m => obeys_fillThis m c.fp object))

end Arguing

instance keeps_argSlot (index : Nat) : Keeps view (argSlot index) := by
  refine .bind fun c => ?_
  infer_instance

instance keeps_primitiveSlot (index bytes : Nat) (what : String) :
    Keeps view (primitiveSlot index bytes what) := obeys_bind _ _

/-- Arguments leave alone what depends on the bearing of a machine only. -/
theorem arguing_of_bearing (h : ∀ {m m' : Machine}, m'.bearing = m.bearing → view m' = view m) :
    (Rule.keeps view).Arguing := by
  have hkeeps {α : Type} (x : Exec RequestError α) [hx : Keeps Machine.bearing x] : Keeps view x :=
    ⟨fun m => h (hx.view_after m)⟩
  exact
    { set := fun m _ _ => h (m.bearing_onStack fun _ => rfl)
      setWords := fun m p v => h (m.bearing_setWords p v)
      giveUp := fun m object => h (m.bearing_giveUp object)
      release := fun _ => hkeeps _
      retain := fun _ => hkeeps _
      copy := fun _ => hkeeps _
      refuse := fun _ => rfl
      argSlot := keeps_argSlot }

instance arguing_bearing : (Rule.keeps Machine.bearing).Arguing := arguing_of_bearing id

instance arguing_standing : (Rule.keeps Machine.standing).Arguing :=
  arguing_of_bearing Machine.standing_of_bearing

end ScriptVm.Exec
