import ScriptVm.Memory.Stack
import ScriptVm.Proofs.Bits

namespace ScriptVm

namespace Pointer

variable {p q : Pointer}

/-- The two words from a place on and those from another one have none in common. -/
def Apart (p q : Pointer) : Prop :=
  p.block ≠ q.block ∨ p.offset.toNat + 2 ≤ q.offset.toNat ∨ q.offset.toNat + 2 ≤ p.offset.toNat

instance (p q : Pointer) : Decidable (p.Apart q) := inferInstanceAs (Decidable (_ ∨ _))

theorem Apart.symm (h : p.Apart q) : q.Apart p := by
  obtain hblk | hbelow | habove := h
  · exact .inl (Ne.symm hblk)
  · exact .inr (.inr hbelow)
  · exact .inr (.inl habove)

theorem Apart.ne {a b : Pointer} (h : p.Apart q) (ha : a.block = p.block) (hb : b.block = q.block)
    (hap : p.offset.toNat ≤ a.offset.toNat ∧ a.offset.toNat < p.offset.toNat + 2)
    (hbq : q.offset.toNat ≤ b.offset.toNat ∧ b.offset.toNat < q.offset.toNat + 2) : b ≠ a := by
  rintro rfl
  obtain hblk | hoff := h
  · exact hblk (ha.symm.trans hb)
  · omega

theorem shift?_eq_some_iff {delta : Int} : p.shift? delta = some q ↔ q.block = p.block ∧
    (q.offset.toNat : Int) = p.offset.toNat + delta := by
  have hlt := q.offset.toNat_lt
  unfold shift? word?
  dsimp only
  constructor
  · intro h
    split at h
    · split at h
      · cases h
        refine ⟨rfl, ?_⟩
        simp only [Nat.toUInt32_eq, UInt32.toNat_ofNat']
        omega
      · cases h
    · cases h
  · rintro ⟨hblk, hoff⟩
    rw [if_pos (by omega), if_pos (by omega), Option.map_some]
    have hnat : (p.offset.toNat + delta).toNat = q.offset.toNat := by omega
    rw [hnat, Nat.toUInt32_eq, UInt32.ofNat_toNat, ← hblk]

theorem shift?_zero (p : Pointer) : p.shift? 0 = some p := shift?_eq_some_iff.mpr ⟨rfl, by simp⟩

theorem shift?_one (h : p.shift? 1 = some q) : q = { p with offset := p.offset + 1 } := by
  obtain ⟨hblk, hoff⟩ := shift?_eq_some_iff.mp h
  have hlt := q.offset.toNat_lt
  cases q
  simp only [Pointer.mk.injEq] at *
  refine ⟨hblk, UInt32.toNat_inj.mp ?_⟩
  rw [UInt32.toNat_add]
  simp only [UInt32.toNat_one]
  omega

end Pointer

namespace Stack

variable {p q r : Pointer} {s : Stack} {v : UInt64}

theorem contains_eq (s : Stack) (p : Pointer) : s.contains p = (s.read? p).isSome := by
  unfold contains read? blockSize
  cases s.blocks[p.block.toNat]? with
  | none => simp
  | some b =>
    simp only [Option.map_some, Option.getD_some, Option.bind_some, Words.get?]
    by_cases h : p.offset.toNat < b.size
    · simp [h]
    · simp [h]

theorem read?_set (s : Stack) (p : Pointer) (v : UInt32) (q : Pointer) :
    (s.set p v).read? q = if q = p ∧ s.contains p then some v else s.read? q := by
  have hblks : (s.set p v).blocks = s.blocks.modify p.block.toNat fun b =>
      b.set p.offset.toNat v := rfl
  unfold read?
  rw [hblks, Array.getElem?_modify]
  by_cases hblk : p.block.toNat = q.block.toNat
  · have hsame : q.block = p.block := (UInt32.toNat_inj.mp hblk).symm
    rw [if_pos hblk, ← hblk]
    cases hb : s.blocks[p.block.toNat]? with
    | none => simp [contains, blockSize, hb]
    | some b =>
      simp only [Option.map_some, Option.bind_some, Words.get?_set]
      have hcont : s.contains p = decide (p.offset.toNat < b.size) := by
        simp [contains, blockSize, hb]
      have hkey : q = p ↔ p.offset.toNat = q.offset.toNat := by
        cases p
        cases q
        simp_all [UInt32.toNat_inj, eq_comm]
      rw [hcont]
      simp only [hkey, decide_eq_true_eq]
  · have hne : q ≠ p := fun h => hblk (by rw [h])
    simp [hblk, hne]

theorem contains_set (s : Stack) (p : Pointer) (v : UInt32) (q : Pointer) :
    (s.set p v).contains q = s.contains q := by
  rw [contains_eq, contains_eq, read?_set]
  split
  · rename_i h
    rw [h.1, ← contains_eq, h.2]
    rfl
  · rfl

theorem read?_set_ne (s : Stack) (h : q ≠ p) (v : UInt32) : (s.set p v).read? q = s.read? q := by
  rw [read?_set, if_neg fun hq => h hq.1]

theorem set_comm (s : Stack) (h : p ≠ q) (u v : UInt32) :
    (s.set p u).set q v = (s.set q v).set p u := by
  have hblks (p : Pointer) (u : UInt32) (s : Stack) :
      (s.set p u).blocks = s.blocks.modify p.block.toNat fun b => b.set p.offset.toNat u := rfl
  have hws : ((s.set p u).set q v).blocks = ((s.set q v).set p u).blocks := by
    simp only [hblks]
    apply Array.ext_getElem?
    intro k
    simp only [Array.getElem?_modify]
    by_cases hp : p.block.toNat = k
    · by_cases hq : q.block.toNat = k
      · have hoff : p.offset.toNat ≠ q.offset.toNat := by
          intro hoff
          have hblk := UInt32.toNat_inj.mp (hp.trans hq.symm)
          have hpl := UInt32.toNat_inj.mp hoff
          cases p
          cases q
          simp_all
        rw [if_pos hp, if_pos hq, if_pos hp, if_pos hq]
        cases s.blocks[k]? with
        | none => rfl
        | some b => exact congrArg some (b.set_comm hoff u v)
      · rw [if_pos hp, if_neg hq, if_neg hq, if_pos hp]
    · rw [if_neg hp, if_neg hp]
  have hrest (p : Pointer) (u : UInt32) (s : Stack) :
      s.set p u = { s with blocks := (s.set p u).blocks } := rfl
  rw [hrest q v (s.set p u), hrest p u (s.set q v), hws]
  rfl

theorem read64?_eq_some (h : s.read64? p = some v) :
    ∃ q, p.shift? 1 = some q ∧ (∃ lo, s.read? p = some lo) ∧ ∃ hi, s.read? q = some hi := by
  unfold read64? at h
  simp only [Option.bind_eq_bind, Option.bind_eq_some_iff] at h
  obtain ⟨lo, hlo, q, hq, hi, hhi, -⟩ := h
  exact ⟨q, hq, ⟨lo, hlo⟩, hi, hhi⟩

theorem read64?_congr {s' : Stack} (hlo : s'.read? p = s.read? p)
    (hhi : ∀ q, p.shift? 1 = some q → s'.read? q = s.read? q) : s'.read64? p = s.read64? p := by
  unfold read64?
  rw [hlo]
  cases hq : p.shift? 1 with
  | none => rfl
  | some q => simp [hhi q hq]

theorem read?_set64 (s : Stack) (hq : p.shift? 1 = some q) (v : UInt64) (hp : r ≠ p) (hr : r ≠ q) :
    (s.set64 p v).read? r = s.read? r := by
  rw [set64, ← Pointer.shift?_one hq, read?_set_ne _ hr, read?_set_ne _ hp]

theorem read64?_set_ne (s : Stack) (hp : q ≠ p) (hnext : q.shift? 1 ≠ some p) (v : UInt32) :
    (s.set p v).read64? q = s.read64? q := by
  refine read64?_congr (s.read?_set_ne hp v) fun r hr => s.read?_set_ne ?_ v
  rintro rfl
  exact hnext hr

theorem contains64_set (s : Stack) (p : Pointer) (v : UInt32) (q : Pointer) :
    (s.set p v).contains64 q = s.contains64 q := by
  unfold contains64
  cases q.shift? 1 with
  | none => rfl
  | some r => exact s.contains_set p v r

theorem set64_set_comm (s : Stack) (hr : q.shift? 1 = some r) (hq : p ≠ q) (hnext : p ≠ r)
    (u : UInt32) (v : UInt64) : (s.set p u).set64 q v = (s.set64 q v).set p u := by
  rw [set64, set64, ← Pointer.shift?_one hr, s.set_comm hq, set_comm _ hnext]

theorem read64?_set64_apart (s : Stack) (hq : p.shift? 1 = some q) (v : UInt64) (h : p.Apart r) :
    (s.set64 p v).read64? r = s.read64? r := by
  obtain ⟨hblk, hoff⟩ := Pointer.shift?_eq_some_iff.mp hq
  refine read64?_congr ?_ fun t ht => ?_
  · exact read?_set64 s hq v (h.ne rfl rfl (by omega) (by omega)) (h.ne hblk rfl (by omega) (by omega))
  · obtain ⟨htblock, htoffset⟩ := Pointer.shift?_eq_some_iff.mp ht
    exact read?_set64 s hq v (h.ne rfl htblock (by omega) (by omega))
      (h.ne hblk htblock (by omega) (by omega))

theorem read64?_set64_self (s : Stack) (h : s.read64? p = some v) (w : UInt64) :
    (s.set64 p w).read64? p = some w := by
  obtain ⟨q, hq, ⟨lo, hlo⟩, hi, hhi⟩ := read64?_eq_some h
  have hne : p ≠ q := by
    rintro rfl
    obtain ⟨-, hoff⟩ := Pointer.shift?_eq_some_iff.mp hq
    omega
  have hp : s.contains p = true := by rw [contains_eq, hlo]; rfl
  have hq' : s.contains q = true := by rw [contains_eq, hhi]; rfl
  have hlow : (s.set64 p w).read? p = some (lowWord w) := by
    rw [set64, ← Pointer.shift?_one hq, read?_set_ne _ hne, read?_set, if_pos ⟨rfl, hp⟩]
  have hhigh : (s.set64 p w).read? q = some (highWord w) := by
    rw [set64, ← Pointer.shift?_one hq, read?_set, contains_set, if_pos ⟨rfl, hq'⟩]
  simp [read64?, hlow, hq, hhigh]

theorem contains64_of_read64? (h : s.read64? p = some v) : s.contains64 p = true := by
  obtain ⟨q, hq, -, hi, hhi⟩ := read64?_eq_some h
  rw [contains64, hq, Option.any_some, contains_eq, hhi]
  rfl

theorem contains_of_contains64 (h : s.contains64 p = true) :
    ∃ q, p.shift? 1 = some q ∧ s.contains p = true ∧ s.contains q = true := by
  obtain ⟨q, hq, hlast⟩ := (Option.any_eq_true _ _).mp h
  obtain ⟨hblk, hoff⟩ := Pointer.shift?_eq_some_iff.mp hq
  refine ⟨q, hq, ?_, hlast⟩
  simp only [contains, decide_eq_true_eq, hblk] at hlast ⊢
  omega

theorem read64?_of_contains64 (h : s.contains64 p = true) : ∃ v, s.read64? p = some v := by
  obtain ⟨q, hq, hfst, hlast⟩ := contains_of_contains64 h
  rw [contains_eq] at hfst hlast
  obtain ⟨lo, hlo⟩ := Option.isSome_iff_exists.mp hfst
  obtain ⟨hi, hhi⟩ := Option.isSome_iff_exists.mp hlast
  exact ⟨joinWords lo hi, by simp [read64?, hlo, hq, hhi]⟩

end Stack
end ScriptVm
