import ScriptVm.Proofs.Bits

namespace ScriptVm.Address

/-- What the bits of an address keep of it. -/
def kept : Address → Address
  | null => null
  | stack p => stack { p with block := p.block % 65536 }
  | global id offset => global ⟨id.val % 65536⟩ offset
  | field index generation offset => field (index % 16777216) generation (offset % 1048576)
  | string id index => string ⟨id.val % 65536⟩ index

/-- The addresses that their bits keep whole. -/
def InRange : Address → Prop
  | null => True
  | stack p => p.block.toNat < 65536
  | global id _ => id.val.toNat < 65536
  | field index _ offset => index.toNat < 16777216 ∧ offset.toNat < 1048576
  | string id _ => id.val.toNat < 65536

/-- The bits that a tag leaves unused. Nothing but the tag is used of a word with an unknown tag. -/
def unusedBits (b : UInt64) : UInt64 :=
  match (b >>> 60).toNat with
  | 1 | 2 | 4 => 0x0fff000000000000
  | 3 => 0
  | _ => 0x0fffffffffffffff

/-- A tag, a number that ends in `n` zeros, and a number of `n` bits do not overlap. -/
theorem tagged_toNat (tag high low : UInt64) {top n : Nat} (htag : tag.toNat < 16)
    (hhigh : high.toNat = top <<< n) (hlow : low.toNat < Nat.pow 2 n)
    (hrest : high.toNat + low.toNat < 1152921504606846976) :
    ((tag <<< 60) ||| high ||| low).toNat =
      tag.toNat * 1152921504606846976 + (high.toNat + low.toNat) := by
  have hshift : (tag <<< (60 : UInt64)).toNat = tag.toNat <<< 60 := by
    rw [UInt64.toNat_shiftLeft]
    simp [Nat.shiftLeft_eq]
    omega
  have hor : high.toNat ||| low.toNat = high.toNat + low.toNat := by
    rw [hhigh]
    exact (Nat.shiftLeft_add_eq_or_of_lt hlow top).symm
  have hall := Nat.shiftLeft_add_eq_or_of_lt (i := 60) (b := high.toNat + low.toNat) hrest tag.toNat
  rw [UInt64.toNat_or, UInt64.toNat_or, hshift, Nat.or_assoc, hor, ← hall, Nat.shiftLeft_eq]

theorem mask_toNat (v : UInt64) {mask : UInt64} {n : Nat} (hmask : mask.toNat = Nat.pow 2 n - 1) :
    (v &&& mask).toNat = v.toNat % Nat.pow 2 n := by
  rw [UInt64.toNat_and, hmask]
  exact Nat.and_two_pow_sub_one_eq_mod v.toNat n

theorem shiftRight_toNat (v : UInt64) {distance : UInt64} (h : distance.toNat < 64) :
    (v >>> distance).toNat = v.toNat / Nat.pow 2 distance.toNat := by
  rw [UInt64.toNat_shiftRight, Nat.mod_eq_of_lt h]
  exact Nat.shiftRight_eq_div_pow v.toNat distance.toNat

theorem tag_of_toNat {v : UInt64} {tag rest : Nat} (h : v.toNat = tag * 1152921504606846976 + rest)
    (hrest : rest < 1152921504606846976) : (v >>> 60).toNat = tag := by
  rw [shiftRight_toNat v (by decide), h]
  show (tag * 1152921504606846976 + rest) / 1152921504606846976 = tag
  omega

theorem tagged_word_toNat {tag : UInt64} (htag : tag.toNat < 16) (high low : UInt32) :
    ((tag <<< 60) ||| ((high.toUInt64 &&& 0xffff) <<< 32) ||| low.toUInt64).toNat =
      tag.toNat * 1152921504606846976 + (high.toNat % 65536 * 4294967296 + low.toNat) := by
  have hlow := low.toNat_lt
  have hmask : (high.toUInt64 &&& 0xffff).toNat = high.toNat % 65536 := mask_toNat (n := 16) _ rfl
  have hshift :
      ((high.toUInt64 &&& 0xffff) <<< (32 : UInt64)).toNat = high.toNat % 65536 * 4294967296 := by
    rw [UInt64.toNat_shiftLeft, hmask]
    simp [Nat.shiftLeft_eq]
    omega
  have hnat := tagged_toNat tag ((high.toUInt64 &&& 0xffff) <<< 32) low.toUInt64 (n := 32) htag
    (hshift.trans (Nat.shiftLeft_eq _ 32).symm) (by rwa [UInt32.toNat_toUInt64])
      (by rw [hshift, UInt32.toNat_toUInt64]; omega)
  rw [hshift, UInt32.toNat_toUInt64] at hnat
  exact hnat

theorem parts_of_tagged {v tag : UInt64} {high low : UInt32} (htag : tag.toNat < 16)
    (h : v = (tag <<< 60) ||| ((high.toUInt64 &&& 0xffff) <<< 32) ||| low.toUInt64) :
    (v >>> 60).toNat = tag.toNat ∧ ((v >>> 32) &&& 0xffff).toUInt32 = high % 65536 ∧
      lowWord v = low := by
  have hlow := low.toNat_lt
  have hnat := tagged_word_toNat htag high low
  rw [← h] at hnat
  refine ⟨tag_of_toNat hnat (by omega), ?_, ?_⟩
  · apply UInt32.toNat_inj.mp
    rw [UInt64.toNat_toUInt32, mask_toNat (n := 16) _ rfl, shiftRight_toNat v (by decide),
      UInt32.toNat_mod, hnat]
    show (_ : Nat) / 4294967296 % 65536 % 4294967296 = high.toNat % 65536
    omega
  · apply UInt32.toNat_inj.mp
    rw [lowWord_toNat, hnat]
    omega

theorem field_bits_toNat (index : UInt32) (generation : UInt16) (offset : UInt32) :
    (field index generation offset).bits.toNat =
      3 * 1152921504606846976 + (index.toNat % 16777216 * 68719476736 + generation.toNat * 1048576 +
        offset.toNat % 1048576) := by
  have hgen := generation.toNat_lt
  have hidx : (index.toUInt64 &&& 0xffffff).toNat = index.toNat % 16777216 :=
    mask_toNat (n := 24) _ rfl
  have hoff : (offset.toUInt64 &&& 0xfffff).toNat = offset.toNat % 1048576 :=
    mask_toNat (n := 20) _ rfl
  have hhigh : ((index.toUInt64 &&& 0xffffff) <<< (4 : UInt64) <<< (32 : UInt64)).toNat =
      index.toNat % 16777216 * 68719476736 := by
    rw [UInt64.toNat_shiftLeft, UInt64.toNat_shiftLeft, hidx]
    simp [Nat.shiftLeft_eq]
    omega
  have hlow : ((generation.toUInt64 <<< (20 : UInt64)) ||| (offset.toUInt64 &&& 0xfffff)).toNat =
      generation.toNat * 1048576 + offset.toNat % 1048576 := by
    have hor := Nat.shiftLeft_add_eq_or_of_lt (i := 20) (b := offset.toNat % 1048576)
      (by omega) generation.toNat
    have hshift : (generation.toUInt64 <<< (20 : UInt64)).toNat = generation.toNat <<< 20 := by
      rw [UInt64.toNat_shiftLeft]
      simp [Nat.shiftLeft_eq]
      omega
    rw [UInt64.toNat_or, hshift, hoff, ← hor, Nat.shiftLeft_eq]
  obtain ⟨hfits, hrest⟩ : generation.toNat * 1048576 + offset.toNat % 1048576 < 68719476736 ∧
      index.toNat % 16777216 * 68719476736 + (generation.toNat * 1048576 + offset.toNat % 1048576) <
        1152921504606846976 := by
    constructor <;> omega
  have hbits := tagged_toNat 3 ((index.toUInt64 &&& 0xffffff) <<< 4 <<< 32)
    ((generation.toUInt64 <<< 20) ||| (offset.toUInt64 &&& 0xfffff)) (n := 36) (by decide)
    (hhigh.trans (Nat.shiftLeft_eq _ 36).symm)
      (by rw [hlow]; exact Nat.lt_of_lt_of_eq hfits (by decide)) (by rwa [hhigh, hlow])
  rw [hhigh, hlow, ← Nat.add_assoc (_ * 68719476736)] at hbits
  exact hbits

theorem ofBits?_bits (a : Address) : ofBits? a.bits = some a.kept := by
  cases a with
  | null => rfl
  | stack p =>
    obtain ⟨htag, hhigh, hlow⟩ :=
      parts_of_tagged (v := (stack p).bits) (show (1 : UInt64).toNat < 16 by decide) rfl
    unfold ofBits?
    dsimp only
    rw [htag, hhigh, hlow]
    rfl
  | global id offset =>
    obtain ⟨htag, hhigh, hlow⟩ :=
      parts_of_tagged (v := (global id offset).bits) (show (2 : UInt64).toNat < 16 by decide) rfl
    unfold ofBits?
    dsimp only
    rw [htag, hhigh, hlow]
    rfl
  | string id index =>
    obtain ⟨htag, hhigh, hlow⟩ :=
      parts_of_tagged (v := (string id index).bits) (show (4 : UInt64).toNat < 16 by decide) rfl
    unfold ofBits?
    dsimp only
    rw [htag, hhigh, hlow]
    rfl
  | field index generation offset =>
    have hbits := field_bits_toNat index generation offset
    have hgen := generation.toNat_lt
    have htag := tag_of_toNat hbits (by omega)
    have hidx : (((field index generation offset).bits >>> 36) &&& 0xffffff).toUInt32 =
        index % 16777216 := by
      apply UInt32.toNat_inj.mp
      rw [UInt64.toNat_toUInt32, mask_toNat (n := 24) _ rfl, shiftRight_toNat _ (by decide),
        UInt32.toNat_mod, hbits]
      show (_ : Nat) / 68719476736 % 16777216 % 4294967296 = index.toNat % 16777216
      omega
    have hkept :
        (((field index generation offset).bits >>> 20) &&& 0xffff).toUInt16 = generation := by
      apply UInt16.toNat_inj.mp
      rw [UInt64.toNat_toUInt16, mask_toNat (n := 16) _ rfl, shiftRight_toNat _ (by decide), hbits]
      show (_ : Nat) / 1048576 % 65536 % 65536 = generation.toNat
      omega
    have hoff : ((field index generation offset).bits &&& 0xfffff).toUInt32 = offset % 1048576 := by
      apply UInt32.toNat_inj.mp
      rw [UInt64.toNat_toUInt32, mask_toNat (n := 20) _ rfl, UInt32.toNat_mod, hbits]
      show (_ : Nat) % 1048576 % 4294967296 = offset.toNat % 1048576
      omega
    unfold ofBits?
    dsimp only
    rw [htag, hidx, hkept, hoff]
    rfl

theorem mod_eq_self_iff {v n : UInt32} (hn : 0 < n.toNat) : v % n = v ↔ v.toNat < n.toNat := by
  rw [← UInt32.toNat_inj, UInt32.toNat_mod]
  exact ⟨fun h => h ▸ Nat.mod_lt _ hn, Nat.mod_eq_of_lt⟩

theorem kept_eq_self_iff (a : Address) : a.kept = a ↔ a.InRange := by
  cases a with
  | null => exact ⟨fun _ => trivial, fun _ => rfl⟩
  | stack p =>
    have hblock : p.block % 65536 = p.block ↔ p.block.toNat < 65536 := mod_eq_self_iff (by decide)
    rw [InRange, ← hblock, kept, stack.injEq]
    exact ⟨congrArg Pointer.block, fun h => by rw [h]⟩
  | global id offset =>
    have hid : id.val % 65536 = id.val ↔ id.val.toNat < 65536 := mod_eq_self_iff (by decide)
    rw [InRange, ← hid, kept, global.injEq, and_iff_left rfl]
    exact ⟨congrArg ModuleId.val, fun h => by rw [h]⟩
  | string id index =>
    have hid : id.val % 65536 = id.val ↔ id.val.toNat < 65536 := mod_eq_self_iff (by decide)
    rw [InRange, ← hid, kept, string.injEq, and_iff_left rfl]
    exact ⟨congrArg ModuleId.val, fun h => by rw [h]⟩
  | field index generation offset =>
    have hindex : index % 16777216 = index ↔ index.toNat < 16777216 := mod_eq_self_iff (by decide)
    have hoffset : offset % 1048576 = offset ↔ offset.toNat < 1048576 := mod_eq_self_iff (by decide)
    rw [InRange, ← hindex, ← hoffset, kept, field.injEq]
    exact and_congr_right fun _ => and_iff_right rfl

theorem masked_lt (v : UInt64) {mask : UInt64} {n : Nat} (hmask : mask.toNat = Nat.pow 2 n - 1) :
    (v &&& mask).toUInt32.toNat < Nat.pow 2 n := by
  have hlt : v.toNat % Nat.pow 2 n < Nat.pow 2 n := Nat.mod_lt _ (Nat.two_pow_pos n)
  rw [UInt64.toNat_toUInt32, mask_toNat v hmask]
  exact Nat.lt_of_le_of_lt (Nat.mod_le _ _) hlt

theorem and_gap_eq_zero_iff (b : UInt64) :
    b &&& 0x0fff000000000000 = 0 ↔ b.toNat / 281474976710656 % 4096 = 0 := by
  have hshift : b.toNat / 281474976710656 = b.toNat >>> 48 := (Nat.shiftRight_eq_div_pow _ 48).symm
  have hand : b.toNat &&& (4095 <<< 48) = (b.toNat >>> 48 &&& 4095) <<< 48 := by
    apply Nat.eq_of_testBit_eq
    intro i
    rw [Nat.shiftLeft_and_distrib]
    simp only [Nat.testBit_and, Nat.testBit_shiftLeft, Nat.testBit_shiftRight]
    by_cases hi : 48 ≤ i
    · simp [hi, Nat.add_sub_cancel' hi]
    · simp [hi]
  rw [← UInt64.toNat_inj, UInt64.toNat_and]
  show b.toNat &&& (4095 <<< 48) = 0 ↔ _
  rw [hand, hshift, Nat.shiftLeft_eq, Nat.mul_eq_zero, or_iff_left (by decide),
    Nat.and_two_pow_sub_one_eq_mod _ 12]

/-- A word whose tag has a number of 16 bits and a word behind it. -/
theorem tagged_word_eq_iff {b tag : UInt64} (htag : (b >>> 60).toNat = tag.toNat) :
    (tag <<< 60) ||| ((((b >>> 32) &&& 0xffff).toUInt32.toUInt64 &&& 0xffff) <<< 32) |||
      (lowWord b).toUInt64 = b ↔
      b &&& 0x0fff000000000000 = 0 := by
  have hb := b.toNat_lt
  rw [shiftRight_toNat b (by decide)] at htag
  replace htag : b.toNat / 1152921504606846976 = tag.toNat := htag
  have hhigh :
      ((b >>> 32) &&& 0xffff).toUInt32.toNat = b.toNat / 4294967296 % 65536 % 4294967296 := by
    rw [UInt64.toNat_toUInt32, mask_toNat (n := 16) _ rfl, shiftRight_toNat b (by decide)]
    rfl
  rw [← UInt64.toNat_inj, tagged_word_toNat (by omega), lowWord_toNat, hhigh,
    and_gap_eq_zero_iff, ← htag]
  omega

theorem field_word_eq {b : UInt64} (htag : (b >>> 60).toNat = 3) :
    (field ((b >>> 36) &&& 0xffffff).toUInt32 ((b >>> 20) &&& 0xffff).toUInt16
      (b &&& 0xfffff).toUInt32).bits = b := by
  have hb := b.toNat_lt
  rw [shiftRight_toNat b (by decide)] at htag
  replace htag : b.toNat / 1152921504606846976 = 3 := htag
  have hindex :
      ((b >>> 36) &&& 0xffffff).toUInt32.toNat = b.toNat / 68719476736 % 16777216 % 4294967296 := by
    rw [UInt64.toNat_toUInt32, mask_toNat (n := 24) _ rfl, shiftRight_toNat b (by decide)]
    rfl
  have hgen : ((b >>> 20) &&& 0xffff).toUInt16.toNat = b.toNat / 1048576 % 65536 % 65536 := by
    rw [UInt64.toNat_toUInt16, mask_toNat (n := 16) _ rfl, shiftRight_toNat b (by decide)]
    rfl
  have hoffset : (b &&& 0xfffff).toUInt32.toNat = b.toNat % 1048576 % 4294967296 := by
    rw [UInt64.toNat_toUInt32, mask_toNat (n := 20) _ rfl]
  rw [← UInt64.toNat_inj, field_bits_toNat, hindex, hgen, hoffset]
  omega

theorem inRange_of_ofBits? {b : UInt64} {a : Address} (h : ofBits? b = some a) : a.InRange := by
  unfold ofBits? at h
  dsimp only at h
  have hhigh : ((b >>> 32) &&& 0xffff).toUInt32.toNat < 65536 := masked_lt (n := 16) _ rfl
  split at h
  · split at h
    · cases h
      trivial
    · cases h
  · cases h
    exact hhigh
  · cases h
    exact hhigh
  · cases h
    exact ⟨masked_lt (n := 24) _ rfl, masked_lt (n := 20) _ rfl⟩
  · cases h
    exact hhigh
  · cases h

theorem bits_eq_iff_of_ofBits? {b : UInt64} {a : Address} (h : ofBits? b = some a) :
    a.bits = b ↔ b &&& unusedBits b = 0 := by
  unfold ofBits? at h
  dsimp only at h
  split at h
  · split at h
    · cases h
      subst b
      exact ⟨fun _ => rfl, fun _ => rfl⟩
    · cases h
  case h_2 htag | h_3 htag | h_5 htag =>
    cases h
    rw [unusedBits, htag]
    exact tagged_word_eq_iff htag
  case h_4 htag =>
    cases h
    rw [unusedBits, htag]
    exact ⟨fun _ => by simp, fun _ => field_word_eq htag⟩
  · cases h

/-- Exactly the addresses in range come back from their bits. A word that is read as an address is
what the address is written as, if the bits that its tag leaves unused are zero; and addresses in
range are told apart by their bits. -/
theorem exact_in_range : (∀ a, ofBits? a.bits = some a ↔ a.InRange) ∧
      (∀ b a, ofBits? b = some a → ofBits? a.bits = some a ∧ (a.bits = b ↔ b &&& unusedBits b = 0)) ∧
      ∀ a a' : Address, a.InRange → a'.InRange → a ≠ a' → a.bits ≠ a'.bits := by
  have hself (a : Address) : ofBits? a.bits = some a ↔ a.InRange := by
    rw [ofBits?_bits, Option.some_inj, kept_eq_self_iff]
  refine ⟨hself, fun b a h => ⟨(hself a).mpr (inRange_of_ofBits? h), bits_eq_iff_of_ofBits? h⟩, ?_⟩
  intro a a' ha ha' hne hbits
  apply hne
  have hread := (hself a).mpr ha
  rw [hbits, (hself a').mpr ha'] at hread
  exact (Option.some.inj hread).symm

/-- The place `5` of block `3`, read from a word with other bits set, and the global word with the
same numbers. -/
theorem exact_in_range_stray :
    (stack ⟨3, 5⟩).bits ≠ 0x1abc000300000005 ∧ ofBits? (stack ⟨3, 5⟩).bits = some (stack ⟨3, 5⟩) ∧
      (stack ⟨3, 5⟩).bits ≠ (global ⟨3⟩ 5).bits := by
  obtain ⟨-, hword, hapart⟩ := exact_in_range
  obtain ⟨hself, hbits⟩ := hword 0x1abc000300000005 (stack ⟨3, 5⟩) (by decide)
  refine ⟨fun h => absurd (hbits.mp h) (by decide), hself, hapart _ _ ?_ ?_ (by decide)⟩
  · show (3 : UInt32).toNat < 65536
    decide
  · show (3 : UInt32).toNat < 65536
    decide

end ScriptVm.Address
