import ScriptVm.Proofs.Execution.Transfer

namespace ScriptVm

/-- The place of a variable, and the word there. -/
structure Machine.Var (m : Machine) (var : Int16) (p : Pointer) (v : UInt32) : Prop where
  place : m.ctx.fp.shift? (-var.toInt) = some p
  word : m.ctx.stack.read? p = some v

/-- The place of a variable of two words, and what they hold. -/
structure Machine.Var64 (m : Machine) (var : Int16) (p : Pointer) (v : UInt64) : Prop where
  place : m.ctx.fp.shift? (-var.toInt) = some p
  words : m.ctx.stack.read64? p = some v

/-- The machine in which a word is set, and no other one is changed. -/
structure Machine.Assigns (m : Machine) (p : Pointer) (v : UInt32) (m' : Machine) : Prop where
  set : m' = m.onStack fun s => s.set p v
  word : m'.ctx.stack.read? p = some v
  others : ∀ r, r ≠ p → m'.ctx.stack.read? r = m.ctx.stack.read? r

/-- The machine in which two words are set, and no other one is changed. -/
structure Machine.Assigns64 (m : Machine) (p : Pointer) (v : UInt64) (m' : Machine) : Prop where
  set : m' = m.onStack fun s => s.set64 p v
  words : m'.ctx.stack.read64? p = some v
  others : ∀ r, r ≠ p → p.shift? 1 ≠ some r → m'.ctx.stack.read? r = m.ctx.stack.read? r

namespace Machine

variable {m : Machine} {var : Int16} {p : Pointer}

theorem varPointer_eq (h : m.ctx.fp.shift? (-var.toInt) = some p) :
    Exec.varPointer var m = .ok p m := by
  show Exec.orFail Fault.badCode (m.ctx.fp.shift? (-var.toInt)) m = _
  rw [h]
  rfl

theorem Var.getVar {v : UInt32} (h : m.Var var p v) : Exec.getVar var m = .ok v m := by
  rw [Exec.getVar, Exec.bind_of_ok (varPointer_eq h.place)]
  show Exec.orFail Fault.badCode (m.ctx.stack.read? p) m = _
  rw [h.word]
  rfl

theorem Var64.getVar64 {v : UInt64} (h : m.Var64 var p v) : Exec.getVar64 var m = .ok v m := by
  rw [Exec.getVar64, Exec.bind_of_ok (varPointer_eq h.place)]
  show Exec.orFail Fault.badCode (m.ctx.stack.read64? p) m = _
  rw [h.words]
  rfl

theorem Var.setVar {d : UInt32} (h : m.Var var p d) (v : UInt32) :
    ∃ m', Exec.setVar var v m = .ok () m' ∧ m.Assigns p v m' := by
  have hin : m.ctx.stack.contains p = true := by rw [Stack.contains_eq, h.word]; rfl
  refine ⟨m.onStack fun s => s.set p v, ?_, rfl, ?_, fun r hr => m.ctx.stack.read?_set_ne hr v⟩
  · rw [Exec.setVar, Exec.bind_of_ok (varPointer_eq h.place)]
    show (if m.ctx.stack.contains p then modify (fun m => m.onStack fun s => s.set p v)
        else Exec.fail .badCode :
      Exec Fault Unit) m = _
    rw [if_pos hin]
    rfl
  · show (m.ctx.stack.set p v).read? p = some v
    rw [Stack.read?_set, if_pos ⟨rfl, hin⟩]

theorem Var64.setVar64 {d : UInt64} (h : m.Var64 var p d) (v : UInt64) :
    ∃ m', Exec.setVar64 var v m = .ok () m' ∧ m.Assigns64 p v m' := by
  have hin := Stack.contains64_of_read64? h.words
  refine ⟨m.onStack fun s => s.set64 p v, ?_, rfl, m.ctx.stack.read64?_set64_self h.words v,
    fun r hr hnext => ?_⟩
  · rw [Exec.setVar64, Exec.bind_of_ok (varPointer_eq h.place)]
    show (if m.ctx.stack.contains64 p then modify (fun m => m.onStack fun s => s.set64 p v)
        else Exec.fail .badCode :
      Exec Fault Unit) m = _
    rw [if_pos hin]
    rfl
  · obtain ⟨q, hq, -⟩ := Stack.read64?_eq_some h.words
    exact m.ctx.stack.read?_set64 hq v hr fun he => hnext (he ▸ hq)

end Machine

end ScriptVm
