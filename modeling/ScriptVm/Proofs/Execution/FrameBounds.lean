import ScriptVm.Proofs.Execution.ControlFlow
import ScriptVm.Proofs.Execution.Footprint

namespace ScriptVm

namespace Func

/-- A word of the stack is a local or an argument of a function with its frame pointer. -/
def Owns (f : Func) (fp p : Pointer) : Prop :=
  p.block = fp.block ∧ (fp.offset.toNat : Int) - f.locals.toNat ≤ p.offset.toNat ∧
    (p.offset.toNat : Int) < fp.offset.toNat + f.argWords

instance (f : Func) (fp p : Pointer) : Decidable (f.Owns fp p) :=
  inferInstanceAs (Decidable (_ ∧ _ ∧ _))

/-- The word after the last argument. -/
def Borders (f : Func) (fp p : Pointer) : Prop :=
  p.block = fp.block ∧ p.offset.toNat = fp.offset.toNat + f.argWords

instance (f : Func) (fp p : Pointer) : Decidable (f.Borders fp p) :=
  inferInstanceAs (Decidable (_ ∧ _))

/-- Two words are used, of which the first is the last one of the frame. -/
def Overhangs (f : Func) (a : Access) : Prop := a.words = 2 ∧ a.offset.toInt = 1 - f.argWords

instance (f : Func) (a : Access) : Decidable (f.Overhangs a) := inferInstanceAs (Decidable (_ ∧ _))

theorem localRange_le (f : Func) : f.localRange ≤ f.locals.toNat := by
  have hbits : f.locals.toInt32.toInt = f.locals.toBitVec.toInt := rfl
  have hnat : f.locals.toBitVec.toNat = f.locals.toNat := rfl
  rw [localRange, hbits, BitVec.toInt_eq_toNat_cond, hnat]
  split
  · omega
  · omega

theorem isLocal_bounds {f : Func} {v : Int16} (h : f.isLocal v = true) :
    1 ≤ v.toInt ∧ v.toInt ≤ f.locals.toNat := by
  simp only [isLocal, Bool.and_eq_true, decide_eq_true_eq] at h
  exact ⟨h.1, Int.le_trans h.2 f.localRange_le⟩

theorem inFrame_bounds {f : Func} {v : Int16} (h : f.inFrame v = true) :
    v.toInt ≤ f.locals.toNat ∧ (-v.toInt < f.argWords ∨ 1 ≤ v.toInt) := by
  obtain hlocal | harg := Bool.or_eq_true_iff.mp h
  · obtain ⟨hpos, hle⟩ := isLocal_bounds hlocal
    exact ⟨hle, .inr hpos⟩
  · simp only [Bool.and_eq_true, decide_eq_true_eq] at harg
    exact ⟨by omega, .inl harg.2⟩

/-- Outside the frame a variable that passed the check reaches the bordering word, if any. -/
theorem covers_iff {f : Func} {a : Access} {fp p : Pointer} (hfr : f.inFrame a.offset = true)
    (hws : a.words ≤ 2) (hp : ¬ f.Owns fp p) : a.Covers fp p ↔ f.Borders fp p ∧ f.Overhangs a := by
  obtain ⟨hlocs, hargs⟩ := inFrame_bounds hfr
  constructor
  · rintro ⟨hblk, k, hk, hoff⟩
    have hout : ¬ ((fp.offset.toNat : Int) - f.locals.toNat ≤ p.offset.toNat ∧
        (p.offset.toNat : Int) < fp.offset.toNat + f.argWords) := fun h => hp ⟨hblk, h⟩
    refine ⟨⟨hblk, ?_⟩, ?_, ?_⟩
    · omega
    · omega
    · omega
  · rintro ⟨⟨hblk, hborder⟩, htwo, hoff⟩
    exact ⟨hblk, 1, by omega, by omega⟩

theorem objectVar_inFrame {s : Scope} {f : Func} (hchk : s.checkFunc f = .ok ())
    (hkind : f.kind = .script) {v : ObjectVar} (hv : v ∈ f.objectVars) :
    f.inFrame v.offset = true := by
  obtain ⟨-, hvars, -⟩ := Scope.checkFunc_script hchk hkind
  have hlocal : f.isLocal v.offset = true := by simpa using List.find?_eq_none.mp hvars v hv
  rw [inFrame, hlocal, Bool.true_or]

theorem access_inFrame {s : Scope} {f : Func} (hchk : s.checkFunc f = .ok ())
    (hkind : f.kind = .script) {i : Instr} (hi : i ∈ f.code) {a : Access} (ha : a ∈ i.accesses) :
    f.inFrame a.offset = true := by
  obtain ⟨pc, hpc⟩ := Array.mem_iff_getElem?.mp hi
  exact Scope.checkInstr_vars (Scope.checkFunc_instr hchk hkind hpc) (Instr.offset_mem_vars ha)

end Func

namespace Exec

/-- The words outside its frame that a checked function uses. Its instructions reach none of them
through their variables but the one after the last argument, and that one exactly if they use two
words from the last one of the frame on; all other words may be overwritten before an instruction or
after it. The same holds of clearing and giving up the object variables. -/
theorem checked_uses_own_frame {s : Scope} {f : Func} (hcheck : s.check f = .ok ())
    (hkind : f.kind = .script) {m : Machine} {p : Pointer} (hp : ¬ f.Owns m.ctx.fp p) :
    (∀ i ∈ f.code, ∀ a ∈ i.accesses, a.Covers m.ctx.fp p ↔ f.Borders m.ctx.fp p ∧ f.Overhangs a) ∧
      (∀ i ∈ f.code,
        i.vars ≠ [] → i.Elsewhere m p → (f.Borders m.ctx.fp p → ∀ a ∈ i.accesses, ¬ f.Overhangs a) →
        ∀ nested, Spares p m (exec nested i)) ∧
      ((f.Borders m.ctx.fp p → ∀ v ∈ f.objectVars, ¬ f.Overhangs (.two v.offset)) → ∀ w,
        (m.poke p w).clearObjectVars f = (m.clearObjectVars f).poke p w ∧
          (m.poke p w).releaseVars f = (m.releaseVars f).poke p w) := by
  have hcheck := Scope.checkFunc_of_check hcheck
  have hcovers : ∀ i ∈ f.code, ∀ a ∈ i.accesses, a.Covers m.ctx.fp p ↔ f.Borders m.ctx.fp p ∧
      f.Overhangs a := by
    intro i hi a ha
    exact Func.covers_iff (Func.access_inFrame hcheck hkind hi ha) (Instr.words_le_two ha) hp
  refine ⟨hcovers, ?_, ?_⟩
  · intro i hi hvars helsewhere hborder nested
    refine spares_exec nested hvars (fun a ha hcovered => ?_) helsewhere
    obtain ⟨hnext, hover⟩ := (hcovers i hi a ha).mp hcovered
    exact hborder hnext a ha hover
  · intro hborder w
    have hvars : ∀ v ∈ f.objectVars, ¬ (Access.two v.offset).Covers m.ctx.fp p := by
      intro v hv hcovered
      have hframe : f.inFrame (Access.two v.offset).offset = true :=
        Func.objectVar_inFrame hcheck hkind hv
      have hover := (Func.covers_iff hframe (Nat.le_refl 2) hp).mp hcovered
      exact hborder hover.1 v hv hover.2
    exact ⟨Machine.poke_clearObjectVars hvars w, Machine.poke_releaseVars hvars w⟩

def spilling : Func :=
  { id := ⟨1⟩, module := some ⟨1⟩, name := "spilling", locals := 1, stackNeeded := 1
    code := #[.setVar64 1 0x600000005, .ret 0] }

def fitting : Func :=
  { spilling with name := "fitting", locals := 2, stackNeeded := 2,
                  objectVars := [{ offset := 2, type := ⟨1⟩ }]
                  code := #[.setVar64 2 0x600000005, .ret 0] }

def pushing : Func :=
  { id := ⟨2⟩, module := some ⟨1⟩, name := "pushing", stackNeeded := 1024
    code := #[.pushQword 0x200000001, .call ⟨1⟩, .popRegister, .ret 0] }

/-- The machine at the first instruction of a function that another one has called. -/
def entered (f : Func) : Machine :=
  after (step (runNested (execute 0))) (after (step (runNested (execute 0)))
    (after (startRun (runNested (execute 0))) (after (prepare ⟨2⟩) (loaded [f, pushing]))))

def emptyScope : Scope :=
  { kind? := fun _ => none, hasType := fun _ => false, globals := 0, strings := 0, imports := 0 }

/-- The words of the caller are safe from a function whose locals have room for the two words. -/
theorem checked_uses_own_frame_fitting :
    emptyScope.check fitting = .ok () ∧ (entered fitting).ctx.function = some fitting ∧
      fitting.Borders (entered fitting).ctx.fp { offset := 1026 } ∧
      ¬ fitting.Owns (entered fitting).ctx.fp { offset := 1026 } ∧
      (∀ nested,
        Spares { offset := 1026 } (entered fitting) (exec nested (.setVar64 2 0x600000005))) ∧
      ∀ w, ((entered fitting).poke { offset := 1026 } w).clearObjectVars fitting =
        ((entered fitting).clearObjectVars fitting).poke { offset := 1026 } w := by
  have hcheck : emptyScope.check fitting = .ok () := rfl
  have hout : ¬ fitting.Owns (entered fitting).ctx.fp { offset := 1026 } := by decide +kernel
  obtain ⟨-, hinstr, hvars⟩ := checked_uses_own_frame hcheck rfl hout
  have hmem : Instr.setVar64 2 0x600000005 ∈ fitting.code := by decide +kernel
  have helsewhere : (Instr.setVar64 2 0x600000005).Elsewhere (entered fitting) { offset := 1026 } :=
    ⟨fun k hk => absurd hk (Nat.not_lt_zero k), fun _ _ k hk => absurd hk (Nat.not_lt_zero k)⟩
  have hinside : ∀ a ∈ (Instr.setVar64 2 0x600000005).accesses, ¬ fitting.Overhangs a := by
    decide +kernel
  have hlocals : ∀ v ∈ fitting.objectVars, ¬ fitting.Overhangs (.two v.offset) := by decide +kernel
  refine ⟨hcheck, by decide +kernel, by decide +kernel, hout, ?_, ?_⟩
  · exact hinstr (.setVar64 2 0x600000005) hmem (by decide) helsewhere fun _ => hinside
  · exact fun w => (hvars (fun _ => hlocals) w).1

theorem spilling_reachable : Reachable (entered spilling) := by
  have hstart := ((loaded_reachable [spilling, pushing]).prepare ⟨2⟩).start 0
  have hpushed := hstart.step (by decide +kernel) 0 (ok_of_value (a := .go) (by decide +kernel))
  exact hpushed.step (by decide +kernel) 0 (ok_of_value (a := .go) (by decide +kernel))

/-- A function that passes the checks overwrites a word that its caller has pushed. -/
theorem spilling_overwrites_caller :
    Reachable (entered spilling) ∧ (entered spilling).engine.config.verify = true ∧
      emptyScope.check spilling = .ok () ∧ (entered spilling).ctx.function = some spilling ∧
        spilling.kind = .script ∧
      ¬ spilling.Owns (entered spilling).ctx.fp { offset := 1026 } ∧
      (entered spilling).ctx.stack.read? { offset := 1026 } = some 1 ∧
      (after (step (runNested (execute 0))) (entered spilling)).ctx.stack.read? { offset := 1026 } =
        some 6 := by
  have hcheck : emptyScope.check spilling = .ok () := rfl
  refine ⟨spilling_reachable, by decide +kernel, hcheck, by decide +kernel,
    rfl, by decide +kernel, ?_, ?_⟩
  · decide +kernel
  · decide +kernel

end Exec
end ScriptVm
