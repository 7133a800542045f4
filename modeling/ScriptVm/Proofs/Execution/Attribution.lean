import ScriptVm.Proofs.Execution.Causes
import ScriptVm.Proofs.Execution.Entering

namespace ScriptVm

/-- The words a function needs include its locals. -/
def Func.Fits (f : Func) : Prop := f.locals ≤ f.stackNeeded

instance Func.decidableFits (f : Func) : Decidable f.Fits := inferInstanceAs (Decidable (_ ≤ _))

namespace Exec

variable {α β : Type} {nested : Nested} {m : Machine}

/-- Where there is room for what the callee needs, there is room for its locals. -/
theorem not_cramped {callee : Func} (hfits : callee.Fits) : ¬ Cramped callee := by
  rintro ⟨m, m', fp, hpl, hnone⟩
  have hroom := room_placeArgs hpl
  have hlocs : callee.locals.toNat ≤ callee.stackNeeded.toNat := hfits
  have hword := fp.offset.toNat_lt
  -- The shift by the locals stays in the range of offsets.
  have hsp :
      fp.shift? (-callee.locals.toNat) = some { fp with offset := fp.offset - callee.locals } := by
    refine Pointer.shift?_eq_some_iff.mpr ⟨rfl, ?_⟩
    have hle : callee.locals ≤ fp.offset := UInt32.le_iff_toNat_le.mpr (by omega)
    rw [UInt32.toNat_sub_of_le _ _ hle]
    omega
  cases hnone.symm.trans hsp

/-- All functions of the engine fit. -/
def AllFit (m : Machine) : Prop := ∀ id f, m.engine.function? id = some f → f.Fits

theorem allFit_of_mem (h : ∀ o ∈ m.engine.functions, ∀ f ∈ o, f.Fits) : AllFit m := by
  intro id f hid
  have hitem : m.engine.functions[id.val.toNat]? = some (some f) := Option.join_eq_some_iff.mp hid
  exact h (some f) (Array.mem_of_getElem? hitem) f rfl

/-- A call faults before the caller is saved or not at all. -/
theorem control_of_fault [∀ id args, Keeps Machine.outline (nested id args)]
    (hfit : AllFit m) {i : Instr} (hi : ∀ words, i ≠ .ret words) {fault : Fault} {m' : Machine}
    (h : exec nested i m = .error (.cause fault) m') : m'.ctx.control = m.ctx.control := by
  obtain hctl | ⟨words, rfl⟩ | ⟨id, callee, hid, hcramped⟩ :=
    (exec_moved nested i m).fault fault m' h
  · exact hctl
  · exact absurd rfl (hi words)
  · exact absurd hcramped (not_cramped (hfit id callee hid))

/-- The next instruction faults. That there is none is a fault too; a return is another matter,
since it may fault in the frame of the caller. -/
inductive FaultsNext (nested : Nested) (m : Machine) : Fault → Prop where
  | fetch (h : fetch? m.ctx = none) : FaultsNext nested m .badCode
  | instr {i : Instr} {fault : Fault} {m' : Machine} (hfetch : fetch? m.ctx = some i)
      (hi : ∀ words, i ≠ .ret words)
      (h : exec nested i (m.onContext Context.advance) = .error (.cause fault) m') :
    FaultsNext nested m fault

theorem faultsNext_step [∀ id args, Keeps Machine.outline (nested id args)] (hfit : AllFit m)
    {fault : Fault} (h : FaultsNext nested m fault) :
    ∃ m' : Machine, step nested m = .ok .halt (m'.raise fault) ∧
      m'.ctx.control = m.ctx.advance.control := by
  cases h with
  | fetch hfetch => exact ⟨m.onContext Context.advance, step_no_instr nested hfetch, rfl⟩
  | @instr i _ m' hfetch hi hexec =>
    refine ⟨m', ?_, ?_⟩
    · rw [step_eq nested hfetch, raising, hexec]
    · exact control_of_fault (m := m.onContext Context.advance) hfit hi hexec

/-- If the next instruction of a function faults, the run ends in an exception. It has the fault,
the function, and the line and column of the instruction in its line table, and 0 if there are none.
The function is the current one still, with the same frame pointer, module and callers. -/
theorem fault_at_instruction {f : Func} (hf : m.ctx.function = some f) (hfit : AllFit m) {n : Nat}
    {fault : Fault} (h : FaultsNext (runNested (execute n)) m fault) :
    ∃ m', step (runNested (execute n)) m = .ok .halt m' ∧ m'.ctx.state = .exception ∧
      m'.ctx.exception = some
        { fault, function := f.id, functionName := f.name
          line := ((f.lineAt? m.ctx.pc).getD (0, 0)).1, column :=
            ((f.lineAt? m.ctx.pc).getD (0, 0)).2 } ∧
      m'.ctx.function = some f ∧ m'.ctx.fp = m.ctx.fp ∧ m'.ctx.module = m.ctx.module ∧
        m'.ctx.calls = m.ctx.calls := by
  obtain ⟨m', hstep, hcontrol⟩ := faultsNext_step hfit h
  have hfunction : m'.ctx.function = some f := (congrArg Control.function hcontrol).trans hf
  have hpc : m'.ctx.lastPc = m.ctx.pc := congrArg (fun c => c.pc - 1) hcontrol
  have hexception : m'.ctx.exceptionOf fault =
      { fault, function := f.id, functionName := f.name
        line := ((f.lineAt? m.ctx.pc).getD (0, 0)).1, column :=
          ((f.lineAt? m.ctx.pc).getD (0, 0)).2 } := by
    rw [Context.exceptionOf, hfunction, hpc]
  refine ⟨m'.raise fault, hstep, ?_⟩
  rw [raise_ctx, hexception]
  exact ⟨rfl, rfl, hfunction, congrArg Control.fp hcontrol, congrArg Control.module hcontrol,
    congrArg Control.calls hcontrol⟩

/-- Calls a function that needs more words than the stack may have. -/
def pressing : Func :=
  { id := ⟨1⟩, name := "pressing", stackNeeded := 1, code := #[.pushWord 7, .call ⟨2⟩, .ret 0]
    lines := .ofList [(0, 3, 1), (1, 4, 9)] }

/-- A stack of at most sixty words, which has room for a second block and not for a third one. -/
def crowded : Machine :=
  { engine :=
      { config := { initialStack := 16 }
        functions := #[none, some pressing,
          some { id := ⟨2⟩, name := "pressed", signature := .ofTypes .void [.int], locals := 1,
                 stackNeeded := 100 }] }
    ctx := Context.new 60 }

def crowding : Machine :=
  after (step (runNested (execute 0)))
    (after (startRun (runNested (execute 0))) (after (prepare ⟨1⟩) crowded))

/-- The call has added a block when it faults. The report names the line of the call. -/
theorem fault_at_instruction_crowding :
    crowding.ctx.state = .active ∧ crowding.ctx.stack.blocks.size = 1 ∧
      ∃ m', step (runNested (execute 0)) crowding = .ok .halt m' ∧ m'.ctx.stack.blocks.size = 2 ∧
        m'.ctx.state = .exception ∧
        m'.ctx.exception =
          some { fault := .stackOverflow, function := ⟨1⟩, functionName := "pressing", line := 4,
                 column := 9 } ∧
        m'.ctx.function = some pressing ∧ m'.ctx.fp = crowding.ctx.fp := by
  have hf : crowding.ctx.function = some pressing := by decide +kernel
  have hfit : AllFit crowding := allFit_of_mem (by decide +kernel)
  have hfetch : fetch? crowding.ctx = some (.call ⟨2⟩) := by decide +kernel
  have hexec : cause? (exec (runNested (execute 0)) (.call ⟨2⟩)
      (crowding.onContext Context.advance)) = some .stackOverflow := by
    decide +kernel
  obtain ⟨m', hstep, hstate, hexception, hfunction, hfp, -, -⟩ :=
    fault_at_instruction hf hfit (.instr hfetch (by simp) (error_of_cause hexec))
  have hblocks : (after (step (runNested (execute 0))) crowding).ctx.stack.blocks.size = 2 := by
    decide +kernel
  rw [after_of_ok hstep] at hblocks
  have hline : pressing.lineAt? crowding.ctx.pc = some (4, 9) := by decide +kernel
  rw [hline] at hexception
  exact ⟨by decide +kernel, by decide +kernel, m', hstep, hblocks, hstate, hexception,
    hfunction, hfp⟩

end Exec
end ScriptVm
