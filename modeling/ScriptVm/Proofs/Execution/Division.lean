import ScriptVm.Proofs.Execution.Variables

namespace ScriptVm

/-- Quotient and remainder of signed words of which there are `size`. The quotient goes toward zero;
of the least number and `-1` it wraps around. -/
structure Truncates (size : Nat) (x y q r : Int) : Prop where
  wraps : (size : Int) ∣ q * y + r - x
  below : r.natAbs < y.natAbs
  sign : r = 0 ∨ r.sign = x.sign
  whole : q * y + r = x ∨ x = -(size / 2) ∧ y = -1 ∧ q = x ∧ r = 0

theorem sign_tmod (x y : Int) : x.tmod y = 0 ∨ (x.tmod y).sign = x.sign := by
  obtain hx | rfl | hx := Int.lt_trichotomy x 0
  · have hle : x.tmod y ≤ 0 := by
      have hneg := Int.tmod_nonneg y (a := -x) (by omega)
      rw [Int.neg_tmod] at hneg
      omega
    obtain hzero | hneg : x.tmod y = 0 ∨ x.tmod y < 0 := by omega
    · exact .inl hzero
    · exact .inr (by rw [Int.sign_eq_neg_one_of_neg hx, Int.sign_eq_neg_one_of_neg hneg])
  · exact .inl (Int.zero_tmod y)
  · have hle := Int.tmod_nonneg y (Int.le_of_lt hx)
    obtain hzero | hpos : x.tmod y = 0 ∨ 0 < x.tmod y := by omega
    · exact .inl hzero
    · exact .inr (by rw [Int.sign_eq_one_of_pos hx, Int.sign_eq_one_of_pos hpos])

/-- A quotient is no signed word only if it is that of the least number and `-1`. -/
theorem tdiv_range {half : Nat} {x y : Int} (hx : -(half : Int) ≤ x ∧ x < half) (hy : y ≠ 0) :
    -(half : Int) ≤ x.tdiv y ∧ x.tdiv y < half ∨ x = -(half : Int) ∧ y = -1 := by
  have habs : (x.tdiv y).natAbs = x.natAbs / y.natAbs := Int.natAbs_tdiv x y
  obtain rfl | rfl | hlarge : y = 1 ∨ y = -1 ∨ 2 ≤ y.natAbs := by omega
  · exact .inl (by simpa using hx)
  · by_cases hleast : x = -(half : Int)
    · exact .inr ⟨hleast, rfl⟩
    · refine .inl ?_
      rw [Int.tdiv_neg, Int.tdiv_one]
      omega
  · have hhalved : x.natAbs / y.natAbs ≤ x.natAbs / 2 := Nat.div_le_div_left hlarge (by omega)
    rw [← habs] at hhalved
    omega

theorem truncates_tdiv {half : Nat} {x y : Int} (hx : -(half : Int) ≤ x ∧ x < half) (hy : y ≠ 0) :
    Truncates (2 * half) x y ((x.tdiv y).bmod (2 * half)) (x.tmod y) := by
  have hwhole := Int.mul_tdiv_add_tmod x y
  have hbelow : (x.tmod y).natAbs < y.natAbs := by
    rw [Int.natAbs_tmod]
    exact Nat.mod_lt _ (by omega)
  obtain hrng | ⟨rfl, rfl⟩ := tdiv_range hx hy
  · have hexact : (x.tdiv y).bmod (2 * half) * y + x.tmod y = x := by
      rw [Int.bmod_eq_of_le (by omega) (by omega), Int.mul_comm]
      exact hwhole
    exact ⟨by rw [hexact]; simp, hbelow, sign_tmod x y, .inl hexact⟩
  · have hrest : (-(half : Int)).tmod (-1) = 0 := by simp
    have hquotient : ((-(half : Int)).tdiv (-1)).bmod (2 * half) = -half := by
      rw [Int.tdiv_neg, Int.tdiv_one, Int.neg_neg, Int.bmod_def,
        Int.emod_eq_of_lt (by omega) (by omega), if_neg (by omega)]
      omega
    rw [hrest, hquotient]
    refine ⟨⟨1, by push_cast; omega⟩, by decide, .inl rfl, .inr ⟨by omega, rfl, rfl, rfl⟩⟩

theorem truncates_int32 (x y : Int32) (hy : y ≠ 0) :
    Truncates UInt32.size x.toInt y.toInt (x / y).toInt (x % y).toInt := by
  have hx := x.le_toInt
  have hlt := x.toInt_lt
  have hzero : y.toInt ≠ 0 := fun h => hy (Int32.toInt_inj.mp h)
  rw [Int32.toInt_div, Int32.toInt_mod]
  exact truncates_tdiv ⟨hx, hlt⟩ hzero

theorem truncates_int64 (x y : Int64) (hy : y ≠ 0) :
    Truncates UInt64.size x.toInt y.toInt (x / y).toInt (x % y).toInt := by
  have hx := x.le_toInt
  have hlt := x.toInt_lt
  have hzero : y.toInt ≠ 0 := fun h => hy (Int64.toInt_inj.mp h)
  rw [Int64.toInt_div, Int64.toInt_mod]
  exact truncates_tdiv ⟨hx, hlt⟩ hzero

namespace Exec

variable {m : Machine} {dst a b : Int16} {p pa pb : Pointer}

section

variable {op : Binary} {d x y v : UInt32}

theorem exec_binary (nested : Nested) (op : Binary) (ha : m.Var a pa x) (hb : m.Var b pb y) :
    exec nested (.binary op dst a b) m =
      (ofExcept (op.apply x y) >>= setVar dst >>= fun _ => pure Flow.go) m := by
  show ((getVar a >>= fun x => getVar b >>= fun y => ofExcept (op.apply x y) >>= setVar dst) >>=
      fun _ => pure Flow.go) m = _
  rw [bind_assoc, bind_of_ok ha.getVar, bind_assoc, bind_of_ok hb.getVar]

theorem exec_binary_ok (nested : Nested) (hdst : m.Var dst p d) (ha : m.Var a pa x)
    (hb : m.Var b pb y) (hop : op.apply x y = .ok v) :
    ∃ m', exec nested (.binary op dst a b) m = .ok .go m' ∧ m.Assigns p v m' := by
  obtain ⟨m', hset, hassigns⟩ := hdst.setVar v
  refine ⟨m', ?_, hassigns⟩
  rw [exec_binary nested op ha hb, hop]
  exact bind_of_ok hset

theorem exec_binary_error (nested : Nested) {e : Fault} (ha : m.Var a pa x) (hb : m.Var b pb y)
    (hop : op.apply x y = .error e) : exec nested (.binary op dst a b) m = .error (.cause e) m := by
  rw [exec_binary nested op ha hb, hop]
  rfl

end

section

variable {op : Binary64} {d x y v : UInt64}

theorem exec_binary64 (nested : Nested) (op : Binary64) (ha : m.Var64 a pa x) (hb : m.Var64 b pb y) :
    exec nested (.binary64 op dst a b) m =
      (ofExcept (op.apply x y) >>= setVar64 dst >>= fun _ => pure Flow.go) m := by
  show ((getVar64 a >>= fun x => getVar64 b >>= fun y =>
      ofExcept (op.apply x y) >>= setVar64 dst) >>= fun _ => pure Flow.go) m = _
  rw [bind_assoc, bind_of_ok ha.getVar64, bind_assoc, bind_of_ok hb.getVar64]

theorem exec_binary64_ok (nested : Nested) (hdst : m.Var64 dst p d) (ha : m.Var64 a pa x)
    (hb : m.Var64 b pb y) (hop : op.apply x y = .ok v) :
    ∃ m', exec nested (.binary64 op dst a b) m = .ok .go m' ∧ m.Assigns64 p v m' := by
  obtain ⟨m', hset, hassigns⟩ := hdst.setVar64 v
  refine ⟨m', ?_, hassigns⟩
  rw [exec_binary64 nested op ha hb, hop]
  exact bind_of_ok hset

theorem exec_binary64_error (nested : Nested) {e : Fault} (ha : m.Var64 a pa x) (hb : m.Var64 b pb y)
    (hop : op.apply x y = .error e) :
    exec nested (.binary64 op dst a b) m = .error (.cause e) m := by
  rw [exec_binary64 nested op ha hb, hop]
  rfl

end

/-- Division and remainder of two variables, of one word or of two, which may share words with each
other and with the destination. They fault exactly on a zero divisor. -/
theorem division_truncates (nested : Nested) (m : Machine) (a b : Int16) (pa pb : Pointer) :
    (∀ x y : UInt32, m.Var a pa x → m.Var b pb y →
      (y = 0 → ∀ dst, exec nested (.binary .divInt dst a b) m = .error (.cause .divideByZero) m ∧
        exec nested (.binary .modInt dst a b) m = .error (.cause .divideByZero) m) ∧
      (y ≠ 0 → ∃ q r : UInt32,
        Truncates UInt32.size x.toInt32.toInt y.toInt32.toInt q.toInt32.toInt r.toInt32.toInt ∧
        ∀ dst p d, m.Var dst p d →
          (∃ m', exec nested (.binary .divInt dst a b) m = .ok .go m' ∧ m.Assigns p q m') ∧
          ∃ m', exec nested (.binary .modInt dst a b) m = .ok .go m' ∧ m.Assigns p r m')) ∧
    ∀ x y : UInt64, m.Var64 a pa x → m.Var64 b pb y →
      (y = 0 → ∀ dst, exec nested (.binary64 .divInt dst a b) m = .error (.cause .divideByZero) m ∧
        exec nested (.binary64 .modInt dst a b) m = .error (.cause .divideByZero) m) ∧
      (y ≠ 0 → ∃ q r : UInt64,
        Truncates UInt64.size x.toInt64.toInt y.toInt64.toInt q.toInt64.toInt r.toInt64.toInt ∧
        ∀ dst p d, m.Var64 dst p d →
          (∃ m', exec nested (.binary64 .divInt dst a b) m = .ok .go m' ∧ m.Assigns64 p q m') ∧
          ∃ m', exec nested (.binary64 .modInt dst a b) m = .ok .go m' ∧ m.Assigns64 p r m') := by
  constructor
  · intro x y ha hb
    constructor
    · rintro rfl dst
      exact ⟨exec_binary_error nested ha hb rfl, exec_binary_error nested ha hb rfl⟩
    · intro hy
      have hdiv : Binary.divInt.apply x y = .ok (x.toInt32 / y.toInt32).toUInt32 := if_neg hy
      have hmod : Binary.modInt.apply x y = .ok (x.toInt32 % y.toInt32).toUInt32 := if_neg hy
      exact ⟨_, _, truncates_int32 x.toInt32 y.toInt32 fun h => hy (congrArg Int32.toUInt32 h),
        fun dst p d hdst =>
        ⟨exec_binary_ok nested hdst ha hb hdiv, exec_binary_ok nested hdst ha hb hmod⟩⟩
  · intro x y ha hb
    constructor
    · rintro rfl dst
      exact ⟨exec_binary64_error nested ha hb rfl, exec_binary64_error nested ha hb rfl⟩
    · intro hy
      have hdiv : Binary64.divInt.apply x y = .ok (x.toInt64 / y.toInt64).toUInt64 := if_neg hy
      have hmod : Binary64.modInt.apply x y = .ok (x.toInt64 % y.toInt64).toUInt64 := if_neg hy
      exact ⟨_, _, truncates_int64 x.toInt64 y.toInt64 fun h => hy (congrArg Int64.toUInt64 h),
        fun dst p d hdst =>
        ⟨exec_binary64_ok nested hdst ha hb hdiv, exec_binary64_ok nested hdst ha hb hmod⟩⟩

/-- The least number by `-1`, the destination half over the dividend. -/
theorem division_truncates_least :
    let words : Words := { size := 6, pages := #[#[7, 8, 0, 0x80000000, 0xffffffff, 0xffffffff]] }
    let m : Machine :=
      { engine := default, ctx := { fp := ⟨0, 6⟩, stack := { blocks := #[words] } } }
    ∃ q r : UInt64,
      Truncates UInt64.size (-9223372036854775808) (-1) q.toInt64.toInt r.toInt64.toInt ∧
      (∃ m', exec (fun _ _ => pure 0) (.binary64 .divInt 5 4 2) m = .ok .go m' ∧
        m.Assigns64 ⟨0, 1⟩ q m') ∧
      ∃ m', exec (fun _ _ => pure 0) (.binary64 .modInt 5 4 2) m = .ok .go m' ∧
        m.Assigns64 ⟨0, 1⟩ r m' := by
  intro words m
  have hx : m.Var64 4 ⟨0, 2⟩ 0x8000000000000000 := ⟨by decide, by decide⟩
  have hy : m.Var64 2 ⟨0, 4⟩ 0xffffffffffffffff := ⟨by decide, by decide⟩
  have hdst : m.Var64 5 ⟨0, 1⟩ 8 := ⟨by decide, by decide⟩
  obtain ⟨q, r, htruncates, hruns⟩ :=
    ((division_truncates (fun _ _ => pure 0) m 4 2 ⟨0, 2⟩ ⟨0, 4⟩).2 _ _ hx hy).2 (by decide)
  exact ⟨q, r, htruncates, hruns 5 ⟨0, 1⟩ 8 hdst⟩

end Exec
end ScriptVm
