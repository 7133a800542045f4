import ScriptVm.Proofs.Execution.Variables

namespace ScriptVm

/-- How two numbers stand to each other if a test after their comparison holds. -/
def Test.Relates : Test → Int → Int → Prop
  | zero, x, y => x = y
  | notZero, x, y => x ≠ y
  | negative, x, y => x < y
  | notNegative, x, y => ¬x < y
  | positive, x, y => x > y
  | notPositive, x, y => ¬x > y

instance : (t : Test) → (x y : Int) → Decidable (t.Relates x y)
  | .zero, x, y => inferInstanceAs (Decidable (x = y))
  | .notZero, x, y => inferInstanceAs (Decidable (x ≠ y))
  | .negative, x, y => inferInstanceAs (Decidable (x < y))
  | .notNegative, x, y => inferInstanceAs (Decidable (¬x < y))
  | .positive, x, y => inferInstanceAs (Decidable (x > y))
  | .notPositive, x, y => inferInstanceAs (Decidable (¬x > y))

/-- What a comparison of two numbers leaves in the register. -/
def order (x y : Int) : UInt64 := orderBits (x == y) (x < y)

theorem order_sign (x y : Int) : (lowWord (order x y)).toInt32.toInt = (x - y).sign := by
  obtain hlt | rfl | hgt := Int.lt_trichotomy x y
  · have hne : x ≠ y := by omega
    rw [Int.sign_eq_neg_one_of_neg (by omega)]
    simp [order, orderBits, hne, hlt, lowWord]
  · simp [order, orderBits, lowWord]
  · have hne : x ≠ y := by omega
    have hnot : ¬x < y := by omega
    rw [Int.sign_eq_one_of_pos (by omega)]
    simp [order, orderBits, hne, hnot, lowWord]

namespace Test

theorem holds_iff (t : Test) (r : UInt64) :
    t.holds r = true ↔ t.Relates (lowWord r).toInt32.toInt 0 := by
  cases t <;> simp [holds, Relates, Int32.lt_iff_toInt_lt, Int32.le_iff_toInt_le, ← Int32.toInt_inj]

theorem relates_sign (t : Test) (x y : Int) : t.Relates (x - y).sign 0 ↔ t.Relates x y := by
  have hzero : (x - y).sign = 0 ↔ x - y = 0 := Int.sign_eq_zero_iff_zero
  have hneg : (x - y).sign < 0 ↔ x - y < 0 := Int.sign_neg_iff
  have hpos : 0 < (x - y).sign ↔ 0 < x - y := Int.sign_pos_iff
  cases t <;> simp only [Relates] <;> omega

theorem holds_order (t : Test) (x y : Int) : t.holds (order x y) = true ↔ t.Relates x y := by
  rw [holds_iff, order_sign, relates_sign]

end Test

/-- The instructions that compare integers, and the numbers that they compare: those of variables of
one word or two, with a sign or without, and those of a variable and the instruction itself. -/
inductive Machine.Compares (m : Machine) : Instr → Int → Int → Prop where
  | int {a b : Int16} {p q : Pointer} {v w : UInt32} (ha : m.Var a p v) (hb : m.Var b q w) :
    m.Compares (.compare .int a b) v.toInt32.toInt w.toInt32.toInt
  | uint {a b : Int16} {p q : Pointer} {v w : UInt32} (ha : m.Var a p v) (hb : m.Var b q w) :
    m.Compares (.compare .uint a b) v.toNat w.toNat
  | int64 {a b : Int16} {p q : Pointer} {v w : UInt64} (ha : m.Var64 a p v) (hb : m.Var64 b q w) :
    m.Compares (.compare .int64 a b) v.toInt64.toInt w.toInt64.toInt
  | uint64 {a b : Int16} {p q : Pointer} {v w : UInt64} (ha : m.Var64 a p v) (hb : m.Var64 b q w) :
    m.Compares (.compare .uint64 a b) v.toNat w.toNat
  | intWith {a : Int16} {p : Pointer} {v : UInt32} (ha : m.Var a p v) (w : Int32) :
    m.Compares (.compareInt a w) v.toInt32.toInt w.toInt
  | uintWith {a : Int16} {p : Pointer} {v : UInt32} (ha : m.Var a p v) (w : UInt32) :
    m.Compares (.compareUInt a w) v.toNat w.toNat

theorem order_eq {equal less : Bool} {x y : Int} (hequal : equal = true ↔ x = y)
    (hless : less = true ↔ x < y) : orderBits equal less = order x y := by
  have he : equal = (x == y) := Bool.eq_iff_iff.mpr (hequal.trans beq_iff_eq.symm)
  have hl : less = decide (x < y) := Bool.eq_iff_iff.mpr (hless.trans decide_eq_true_iff.symm)
  rw [order, he, hl]

theorem compareInt_eq (v w : Int32) : compareInt v w = order v.toInt w.toInt :=
  order_eq (by rw [beq_iff_eq, Int32.toInt_inj]) (by rw [decide_eq_true_iff, Int32.lt_iff_toInt_lt])

theorem compareUInt_eq (v w : UInt32) : compareUInt v w = order v.toNat w.toNat :=
  order_eq (by rw [beq_iff_eq, Int.ofNat_inj, UInt32.toNat_inj])
    (by rw [decide_eq_true_iff, Int.ofNat_lt, UInt32.lt_iff_toNat_lt])

theorem compareInt64_eq (v w : Int64) : compareInt64 v w = order v.toInt w.toInt :=
  order_eq (by rw [beq_iff_eq, Int64.toInt_inj]) (by rw [decide_eq_true_iff, Int64.lt_iff_toInt_lt])

theorem compareUInt64_eq (v w : UInt64) : compareUInt64 v w = order v.toNat w.toNat :=
  order_eq (by rw [beq_iff_eq, Int.ofNat_inj, UInt64.toNat_inj])
    (by rw [decide_eq_true_iff, Int.ofNat_lt, UInt64.lt_iff_toNat_lt])

namespace Exec

variable {m : Machine} {f : Func} {i : Instr} {x y : Int}

theorem read_both {α : Type} {read : Int16 → Exec Fault α} {a b : Int16} {v w : α}
    (ha : read a m = .ok v m) (hb : read b m = .ok w m) (compare : α → α → UInt64) :
    (do return compare (← read a) (← read b) : Exec Fault UInt64) m = .ok (compare v w) m := by
  rw [bind_of_ok ha, bind_of_ok hb]
  rfl

theorem simple_compares (h : m.Compares i x y) : simple i m = setReg (order x y) m := by
  cases h with
  | int ha hb =>
    rw [← compareInt_eq]
    exact bind_of_ok (read_both ha.getVar hb.getVar fun v w => compareInt v.toInt32 w.toInt32)
  | uint ha hb =>
    rw [← compareUInt_eq]
    exact bind_of_ok (read_both ha.getVar hb.getVar compareUInt)
  | int64 ha hb =>
    rw [← compareInt64_eq]
    exact bind_of_ok (read_both ha.getVar64 hb.getVar64 fun v w => compareInt64 v.toInt64 w.toInt64)
  | uint64 ha hb =>
    rw [← compareUInt64_eq]
    exact bind_of_ok (read_both ha.getVar64 hb.getVar64 compareUInt64)
  | intWith ha w =>
    rw [← compareInt_eq]
    exact bind_of_ok ha.getVar
  | uintWith ha w =>
    rw [← compareUInt_eq]
    exact bind_of_ok ha.getVar

theorem exec_compares (nested : Nested) (h : m.Compares i x y) :
    exec nested i m = .ok .go (m.onContext fun c => { c with register := order x y }) := by
  have hexec : exec nested i = simple i >>= fun _ => pure Flow.go := by cases h <;> rfl
  rw [hexec]
  exact bind_of_ok (simple_compares h)

theorem compares_advance (h : m.Compares i x y) : (m.onContext Context.advance).Compares i x y := by
  have hword {a : Int16} {p : Pointer} {v : UInt32} (ha : m.Var a p v) :
      (m.onContext Context.advance).Var a p v := ⟨ha.place, ha.word⟩
  have hwords {a : Int16} {p : Pointer} {v : UInt64} (ha : m.Var64 a p v) :
      (m.onContext Context.advance).Var64 a p v :=
    ⟨ha.place, ha.words⟩
  cases h with
  | int ha hb => exact .int (hword ha) (hword hb)
  | uint ha hb => exact .uint (hword ha) (hword hb)
  | int64 ha hb => exact .int64 (hwords ha) (hwords hb)
  | uint64 ha hb => exact .uint64 (hwords ha) (hwords hb)
  | intWith ha w => exact .intWith (hword ha) w
  | uintWith ha w => exact .uintWith (hword ha) w

/-- How a conditional jump ends, from the place behind it. If it is taken, the run goes on where it
leads to, or ends with a fault if that is not in the code. -/
def branched (f : Func) (taken : Prop) [Decidable taken] (offset : Int32) (m : Machine) :
    EStateM.Result (Stop RequestError) Machine Flow :=
  let target := (m.ctx.pc : Int) + offset.toInt
  if taken then
    if 0 ≤ target ∧ target < f.code.size then
      .ok .go (m.onContext fun c => { c with pc := target.toNat })
    else .ok .halt (m.raise .badCode)
  else .ok .go m

theorem fetch?_of_code (hf : m.ctx.function = some f) (hi : f.code[m.ctx.pc]? = some i) :
    fetch? m.ctx = some i := by
  rw [fetch?, hf]
  exact hi

theorem raising_of_cause {α : Type} {z : Exec Fault α} {fault : Fault} {m' : Machine}
    (h : z m = .error (.cause fault) m') (ended : α) :
    raising ended z m = .ok ended (m'.raise fault) := by
  rw [raising, h]

theorem step_branch (nested : Nested) {t : Test} {offset : Int32} {taken : Prop} [Decidable taken]
    (hf : m.ctx.function = some f) (hi : f.code[m.ctx.pc]? = some (.branch t offset))
    (htaken : t.holds m.ctx.register = true ↔ taken) :
    step nested m = branched f taken offset (m.onContext Context.advance) := by
  have hjump := jumpBy_eq (m := m.onContext Context.advance) hf offset.toInt
  have hsimple : simple (.branch t offset) (m.onContext Context.advance) =
      (if t.holds m.ctx.register then jumpBy offset.toInt else pure ())
        (m.onContext Context.advance) := rfl
  rw [step_eq nested (fetch?_of_code hf hi), branched]
  by_cases h : taken
  · rw [if_pos (htaken.mpr h), hjump] at hsimple
    rw [if_pos h]
    by_cases hin : 0 ≤ ((m.onContext Context.advance).ctx.pc : Int) + offset.toInt ∧
        ((m.onContext Context.advance).ctx.pc : Int) + offset.toInt < f.code.size
    · rw [if_pos hin] at hsimple ⊢
      refine raising_of_ok ?_ _
      exact bind_of_ok hsimple
    · rw [if_neg hin] at hsimple ⊢
      exact raising_of_cause (bind_of_error hsimple _) _
  · rw [if_neg (fun hholds => h (htaken.mp hholds))] at hsimple
    rw [if_neg h]
    refine raising_of_ok ?_ _
    exact bind_of_ok hsimple

theorem step_test (nested : Nested) {t : Test} {taken : Prop} [Decidable taken]
    (hf : m.ctx.function = some f) (hi : f.code[m.ctx.pc]? = some (.test t))
    (htaken : t.holds m.ctx.register = true ↔ taken) :
    step nested m = .ok .go ((m.onContext Context.advance).onContext fun c =>
      { c with register := if taken then 1 else 0 }) := by
  rw [step_eq nested (fetch?_of_code hf hi)]
  refine raising_of_ok ?_ _
  have hbit :
      (if taken then 1 else 0 : UInt64) = if t.holds m.ctx.register = true then 1 else 0 := by
    simp only [htaken]
  rw [hbit]
  rfl

/-- A comparison decides the jump behind it: whatever was in the register, the jump is taken exactly
if the numbers stand to each other as its test says. A test of the register instead leaves `1` in
exactly these cases, else `0`, so the jump on a register that is not zero goes the same way. -/
theorem comparison_decides (nested : Nested) (hf : m.ctx.function = some f)
    (hi : f.code[m.ctx.pc]? = some i) (hcompares : m.Compares i x y) :
    ∃ m1, step nested m = .ok .go m1 ∧
      m1 = m.onContext (fun c => { c with pc := m.ctx.pc + 1, register := m1.ctx.register }) ∧
      ∀ t : Test,
        (∀ offset, f.code[m.ctx.pc + 1]? = some (.branch t offset) →
          step nested m1 = branched f (t.Relates x y) offset
            (m1.onContext fun c => { c with pc := m.ctx.pc + 2 })) ∧
        (f.code[m.ctx.pc + 1]? = some (.test t) →
          ∃ m2, step nested m1 = .ok .go m2 ∧
            m2 = m.onContext
              (fun c => { c with pc := m.ctx.pc + 2, register := if t.Relates x y then 1 else 0 }) ∧
            ∀ offset, f.code[m.ctx.pc + 2]? = some (.branch .notZero offset) →
              step nested m2 = branched f (t.Relates x y) offset
                (m2.onContext fun c => { c with pc := m.ctx.pc + 3 })) := by
  have hcompared := exec_compares nested (compares_advance hcompares)
  have hstep := raising_of_ok hcompared .halt
  rw [← step_eq nested (fetch?_of_code hf hi)] at hstep
  refine ⟨_, hstep, rfl, fun t =>
    ⟨fun offset hbranch => step_branch nested hf hbranch (t.holds_order x y), fun htest => ?_⟩⟩
  refine ⟨_, step_test nested hf htest (t.holds_order x y), rfl, fun offset hbranch => ?_⟩
  refine step_branch nested hf hbranch ?_
  show Test.notZero.holds (if t.Relates x y then 1 else 0) = true ↔ t.Relates x y
  by_cases h : t.Relates x y
  · simp only [h, if_true, iff_true]
    decide
  · simp only [h, if_false, iff_false]
    decide

/-- The least number, compared with the greatest one as a number with a sign, jumps over an
instruction. -/
theorem comparison_decides_least :
    let words : Words := { size := 4, pages := #[#[0, 0, 0x7fffffff, 0x80000000]] }
    let f : Func :=
      { name := "least", code := #[.compare .int 1 2, .branch .negative 1, .suspend, .ret 0] }
    let m : Machine :=
      { engine := default
        ctx := { function := some f, fp := ⟨0, 4⟩, register := 7, stack := { blocks := #[words] } } }
    ∃ m1 m2, step (fun _ _ => pure 0) m = .ok .go m1 ∧ step (fun _ _ => pure 0) m1 = .ok .go m2 ∧
      m2.ctx.pc = 3 := by
  intro words f m
  have hv : m.Var 1 ⟨0, 3⟩ 0x80000000 := ⟨by decide, by decide⟩
  have hw : m.Var 2 ⟨0, 2⟩ 0x7fffffff := ⟨by decide, by decide⟩
  obtain ⟨m1, hstep, -, hnext⟩ :=
    comparison_decides (fun _ _ => pure 0) (f := f) (i := .compare .int 1 2) rfl rfl (.int hv hw)
  exact ⟨m1, _, hstep, (hnext .negative).1 1 rfl, rfl⟩

end Exec

end ScriptVm
