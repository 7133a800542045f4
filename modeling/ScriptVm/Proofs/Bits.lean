import ScriptVm.Memory.Address

namespace ScriptVm

theorem toNat_word? {n : Nat} {v : UInt32} (h : word? n = some v) : v.toNat = n := by
  unfold word? at h
  split at h
  · cases h
    exact Nat.mod_eq_of_lt ‹_›
  · cases h

theorem shiftLeft_word_toNat (v : UInt32) :
    (v.toUInt64 <<< (32 : UInt64)).toNat = v.toNat <<< 32 := by
  have hv := v.toNat_lt
  rw [UInt64.toNat_shiftLeft]
  simp [Nat.shiftLeft_eq]
  omega

theorem joinWords_toNat (lo hi : UInt32) :
    (joinWords lo hi).toNat = lo.toNat + hi.toNat * 4294967296 := by
  have hor := Nat.shiftLeft_add_eq_or_of_lt lo.toNat_lt hi.toNat
  rw [joinWords, UInt64.toNat_or, shiftLeft_word_toNat, Nat.or_comm, UInt32.toNat_toUInt64, ← hor,
    Nat.shiftLeft_eq]
  omega

theorem lowWord_toNat (v : UInt64) : (lowWord v).toNat = v.toNat % 4294967296 := by
  simp [lowWord]

theorem highWord_toNat (v : UInt64) : (highWord v).toNat = v.toNat / 4294967296 := by
  have hv := v.toNat_lt
  simp [highWord, Nat.shiftRight_eq_div_pow]
  omega

@[simp] theorem joinWords_low_high (v : UInt64) : joinWords (lowWord v) (highWord v) = v := by
  apply UInt64.toNat_inj.mp
  rw [joinWords_toNat, lowWord_toNat, highWord_toNat]
  omega

namespace Handle

theorem bits_toNat (r : Handle) (h : r.index.toNat + 1 < 4294967296) :
    r.bits.toNat = r.index.toNat + 1 + r.generation.toNat * 4294967296 := by
  have hidx : (r.index.toUInt64 + 1).toNat = r.index.toNat + 1 := by
    simp
    omega
  have hor := Nat.shiftLeft_add_eq_or_of_lt (i := 32) h r.generation.toNat
  rw [bits, UInt64.toNat_or, shiftLeft_word_toNat, hidx, ← hor, Nat.shiftLeft_eq]
  omega

theorem ofBits?_bits (r : Handle) (h : r.index.toNat + 1 < 4294967296) :
    ofBits? r.bits = some r := by
  have hb := bits_toNat r h
  have hlow : (lowWord r.bits).toNat = r.index.toNat + 1 := by
    rw [lowWord_toNat, hb]
    omega
  have hhigh : highWord r.bits = r.generation := by
    apply UInt32.toNat_inj.mp
    rw [highWord_toNat, hb]
    omega
  have hne : lowWord r.bits ≠ 0 := by
    intro h0
    rw [h0] at hlow
    simp at hlow
  have hidx : lowWord r.bits - 1 = r.index := by
    apply UInt32.toNat_inj.mp
    rw [UInt32.toNat_sub_of_le _ _ (by rw [UInt32.le_iff_toNat_le, hlow]; simp), hlow]
    simp
  simp [ofBits?, hne, hidx, hhigh]

end Handle
end ScriptVm
