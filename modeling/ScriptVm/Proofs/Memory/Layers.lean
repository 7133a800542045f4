import ScriptVm.Proofs.Heap.Pointers
import ScriptVm.Proofs.Memory.Blocks

namespace ScriptVm

theorem total_doubling {α : Type} {size : α → Nat} {xs : List α} {base : Nat}
    (h : ∀ i a, xs[i]? = some a → size a = base * Nat.pow 2 i) :
    total size xs = base * (Nat.pow 2 xs.length - 1) := by
  induction xs generalizing base with
  | nil => simp [total]
  | cons a xs ih =>
    have hrest : ∀ i b, xs[i]? = some b → size b = base * 2 * Nat.pow 2 i := by
      intro i b hb
      rw [h (i + 1) b hb]
      show base * (Nat.pow 2 i * 2) = base * 2 * Nat.pow 2 i
      rw [Nat.mul_assoc, Nat.mul_comm (Nat.pow 2 i)]
    have hfst : size a = base := (h 0 a rfl).trans (Nat.mul_one base)
    have hpos : 0 < Nat.pow 2 xs.length := Nat.pow_pos (by decide)
    rw [total_cons, ih hrest, hfst, List.length_cons]
    show base + base * 2 * (Nat.pow 2 xs.length - 1) = base * (Nat.pow 2 xs.length * 2 - 1)
    have hsplit : Nat.pow 2 xs.length * 2 - 1 = 1 + 2 * (Nat.pow 2 xs.length - 1) := by omega
    rw [hsplit, Nat.mul_add, Nat.mul_one, Nat.mul_assoc]

namespace Stack

variable {s t : Stack} {i : Nat} {sp : Pointer}

/-- What the sizes of blocks come from, and the limit. -/
def plan (s : Stack) : UInt32 × UInt32 := (s.base, s.limit)

/-- A block of this number may be there: its size is a word, and all blocks up to it are within the
limit. -/
structure Admits (s : Stack) (i : Nat) : Prop where
  base : s.base ≠ 0
  few : i < 32
  word : s.base.toNat * Nat.pow 2 i < 4294967296
  within : s.limit ≠ 0 → s.base.toNat * (Nat.pow 2 (i + 1) - 1) ≤ s.limit.toNat

/-- Every block has the size of its number, and every one but the first is admitted. -/
structure Layered (s : Stack) : Prop where
  few : s.blocks.size ≤ 32
  empty : s.blocks.size = 0 → s.base = 0
  sizes : ∀ i < s.blocks.size, s.blockSize i = s.base.toNat * Nat.pow 2 i
  admitted : ∀ i < s.blocks.size, i ≠ 0 → s.Admits i

/-- A place is in a block, if there is one. -/
def Holds (s : Stack) (p : Pointer) : Prop := s.blocks.size ≠ 0 → p.block.toNat < s.blocks.size

theorem plan_of_layout (h : t.layout = s.layout) : t.plan = s.plan := congrArg Prod.snd h

theorem Admits.of_same (h : s.Admits i) (hbase : t.base = s.base) (hlim : t.limit = s.limit) :
    t.Admits i := by
  refine ⟨?_, h.few, ?_, ?_⟩
  · rw [hbase]
    exact h.base
  · rw [hbase]
    exact h.word
  · rw [hbase, hlim]
    exact h.within

theorem Layered.of_layout (hs : s.Layered) (h : t.layout = s.layout) : t.Layered := by
  have hsize := blocks_size_of_layout h
  refine ⟨?_, ?_, ?_, ?_⟩
  · rw [hsize]
    exact hs.few
  · rw [hsize, base_of_layout h]
    exact hs.empty
  · intro i hi
    rw [hsize] at hi
    rw [blockSize_of_layout h, base_of_layout h]
    exact hs.sizes i hi
  · intro i hi hne
    rw [hsize] at hi
    exact (hs.admitted i hi hne).of_same (base_of_layout h) (limit_of_layout h)

theorem Holds.of_layout {p : Pointer} (hp : s.Holds p) (h : t.layout = s.layout) : t.Holds p := by
  unfold Holds
  rw [blocks_size_of_layout h]
  exact hp

theorem Holds.of_block {p q : Pointer} (hp : s.Holds p) (h : q.block = p.block) : s.Holds q := by
  unfold Holds
  rw [h]
  exact hp

theorem Layered.allocatedWords_eq (hs : s.Layered) :
    s.allocatedWords = s.base.toNat * (Nat.pow 2 s.blocks.size - 1) := by
  apply total_doubling
  intro i b hb
  have hb : s.blocks[i]? = some b := by simpa using hb
  have hi := (Array.getElem?_eq_some_iff.mp hb).1
  have hsize := hs.sizes i hi
  rw [blockSize, hb] at hsize
  exact hsize

theorem Layered.allocatedWords_le (hs : s.Layered) (hlim : s.limit ≠ 0) :
    s.allocatedWords = s.base.toNat ∧ s.blocks.size ≤ 1 ∨ s.allocatedWords ≤ s.limit.toNat := by
  rw [hs.allocatedWords_eq]
  by_cases hone : s.blocks.size ≤ 1
  · left
    refine ⟨?_, hone⟩
    by_cases hzero : s.blocks.size = 0
    · simp [hzero, hs.empty hzero]
    · have : s.blocks.size = 1 := by omega
      rw [this]
      exact Nat.mul_one _
  · right
    have hlast := (hs.admitted (s.blocks.size - 1) (by omega) (by omega)).within hlim
    rwa [Nat.sub_add_cancel (by omega)] at hlast

theorem Admits.of_le {j : Nat} (h : s.Admits j) (hij : i ≤ j) : s.Admits i := by
  have hpow : Nat.pow 2 i ≤ Nat.pow 2 j := Nat.pow_le_pow_right (by decide) hij
  have hnext : Nat.pow 2 (i + 1) ≤ Nat.pow 2 (j + 1) := Nat.pow_le_pow_right (by decide) (by omega)
  refine ⟨h.base, Nat.lt_of_le_of_lt hij h.few, ?_, fun hlim => ?_⟩
  · exact Nat.lt_of_le_of_lt (Nat.mul_le_mul_left _ hpow) h.word
  · exact Nat.le_trans (Nat.mul_le_mul_left _ (by omega)) (h.within hlim)

theorem nextSize?_eq_some_iff {size : Nat} :
    s.nextSize? i = some size ↔ s.Admits i ∧ size = s.base.toNat * Nat.pow 2 i := by
  unfold nextSize?
  constructor
  · intro h
    split at h
    · cases h
    · rename_i hbase
      dsimp only at h
      split at h
      · cases h
      · split at h
        · cases h
        · rename_i hword hwithin
          cases h
          simp only [not_or, Nat.not_le] at hbase
          refine ⟨⟨hbase.1, hbase.2, by omega, fun hlim => ?_⟩, rfl⟩
          exact Nat.le_of_not_lt fun hlt => hwithin ⟨hlim, hlt⟩
  · rintro ⟨hadmits, rfl⟩
    have hword := hadmits.word
    have hfew := hadmits.few
    have hwithin :
        ¬ (s.limit ≠ 0 ∧ s.limit.toNat < s.base.toNat * (Nat.pow 2 (i + 1) - 1)) := fun h =>
      Nat.not_lt_of_le (hadmits.within h.1) h.2
    rw [if_neg (not_or.mpr ⟨hadmits.base, by omega⟩)]
    dsimp only
    rw [if_neg (by omega), if_neg hwithin]

theorem nextSize?_eq_none_iff : s.nextSize? i = none ↔ ¬ s.Admits i := by
  constructor
  · intro hnone hadmits
    rw [nextSize?_eq_some_iff.mpr ⟨hadmits, rfl⟩] at hnone
    cases hnone
  · intro hnot
    cases hsize : s.nextSize? i with
    | none => rfl
    | some size => exact absurd (nextSize?_eq_some_iff.mp hsize).1 hnot

theorem Layered.word (hs : s.Layered) (hi : i < s.blocks.size) :
    s.base.toNat * Nat.pow 2 i < 4294967296 := by
  by_cases hzero : i = 0
  · subst hzero
    have hbase := s.base.toNat_lt
    simpa using hbase
  · exact (hs.admitted i hi hzero).word

theorem layered_new (limit : UInt32) : Layered { limit } where
  few := Nat.zero_le 32
  empty _ := rfl
  sizes i hi := absurd hi (Nat.not_lt_zero i)
  admitted i hi := absurd hi (Nat.not_lt_zero i)

theorem layered_release (s : Stack) : s.release.Layered := (layered_new s.limit).of_layout rfl

theorem layered_reset (s : Stack) (words : UInt32) : (s.reset words).Layered where
  few := show 1 ≤ 32 by decide
  empty h := by cases h
  sizes i hi := by
    have hzero : i = 0 := Nat.lt_one_iff.mp hi
    subst hzero
    exact (Nat.mul_one words.toNat).symm
  admitted i hi hne := absurd (Nat.lt_one_iff.mp hi) hne

theorem Layered.keepFirst (hs : s.Layered) : s.keepFirst.Layered := by
  have hsize : s.keepFirst.blocks.size = min 1 s.blocks.size := by
    simp [Stack.keepFirst]
  have hblk : ∀ i < s.keepFirst.blocks.size, s.keepFirst.blockSize i = s.blockSize i := by
    intro i hi
    have hkept : (s.blocks.take 1)[i]? = s.blocks[i]? := by
      rw [Array.take_eq_extract, Array.getElem?_extract, if_pos (by omega), Nat.zero_add]
    simp only [blockSize, Stack.keepFirst, hkept]
  refine ⟨by omega, fun hempty => hs.empty (by omega), fun i hi => ?_, fun i hi hne => by omega⟩
  rw [hblk i hi]
  exact hs.sizes i (by omega)

theorem Layered.push (hs : s.Layered) (hadmits : s.Admits s.blocks.size) :
    Layered { s with blocks := s.blocks.push (.zeros (s.base.toNat * Nat.pow 2 s.blocks.size)) } := by
  refine ⟨?_, ?_, fun i hi => ?_, fun i hi hne => ?_⟩
  · rw [Array.size_push]
    exact hadmits.few
  · intro hempty
    rw [Array.size_push] at hempty
    omega
  · rw [Array.size_push] at hi
    simp only [blockSize, Array.getElem?_push]
    split
    · rename_i hlast
      rw [hlast]
      rfl
    · exact hs.sizes i (by omega)
  · exact (hadmits.of_le (by rw [Array.size_push] at hi; omega)).of_same rfl rfl

/-- What growing does to a stack: blocks are added to those that there are. -/
structure Grown (s t : Stack) : Prop where
  size_le : s.blocks.size ≤ t.blocks.size
  vacant : s.blocks.size = 0 → t.blocks.size = 0

theorem Holds.grown {p : Pointer} (hp : s.Holds p) (h : Grown s t) : t.Holds p := by
  intro hne
  exact Nat.lt_of_lt_of_le (hp fun hzero => hne (h.vacant hzero)) h.size_le

/-- The place in block `i` that leaves so many words at its top. -/
def placeIn (s : Stack) (i args : Nat) : Pointer :=
  { block := i.toUInt32, offset := (s.base.toNat * Nat.pow 2 i - args).toUInt32 }

theorem placeIn_eq_iff (hadmits : s.Admits i) {args : Nat} {p : Pointer} :
    p = s.placeIn i args ↔ p.block.toNat = i ∧
      p.offset.toNat = s.base.toNat * Nat.pow 2 i - args := by
  have hfew := hadmits.few
  have hword := hadmits.word
  have hblk : (s.placeIn i args).block.toNat = i := Nat.mod_eq_of_lt (by omega)
  have hoff : (s.placeIn i args).offset.toNat = s.base.toNat * Nat.pow 2 i - args :=
    Nat.mod_eq_of_lt (by omega)
  constructor
  · rintro rfl
    exact ⟨hblk, hoff⟩
  · rintro ⟨hb, ho⟩
    have hb' := UInt32.toNat_inj.mp (hb.trans hblk.symm)
    have ho' := UInt32.toNat_inj.mp (ho.trans hoff.symm)
    cases p
    cases hpl : s.placeIn i args
    simp_all

/-- How a search ends that begins at a block: at the place itself, in the first later block with
room, or without any. -/
inductive Search (s : Stack) (needed args index : Nat) (sp : Pointer) :
    Except GrowFailure Pointer → Prop where
  | here (hroom : needed ≤ sp.offset.toNat) : Search s needed args index sp (.ok sp)
  | found {i : Nat} (hnone : sp.offset.toNat < needed) (hafter : index < i) (hadmits : s.Admits i)
      (hroom : needed ≤ s.base.toNat * Nat.pow 2 i - args)
      (hfirst : ∀ j, index < j → j < i → s.base.toNat * Nat.pow 2 j - args < needed) :
    Search s needed args index sp (.ok (s.placeIn i args))
  | full (hnone : sp.offset.toNat < needed)
      (hall : ∀ i, index < i → s.Admits i → s.base.toNat * Nat.pow 2 i - args < needed) :
    Search s needed args index sp (.error .full)

theorem Search.back {needed args index : Nat} {r : Except GrowFailure Pointer}
    (hbase : t.base = s.base) (hlim : t.limit = s.limit)
    (hadmits : s.Admits (index + 1)) (hnone : sp.offset.toNat < needed)
    (h : t.Search needed args (index + 1) (s.placeIn (index + 1) args) r) :
    s.Search needed args index sp r := by
  have hoff :
      (s.placeIn (index + 1) args).offset.toNat = s.base.toNat * Nat.pow 2 (index + 1) - args :=
    ((placeIn_eq_iff hadmits).mp rfl).2
  have hpl (i : Nat) : t.placeIn i args = s.placeIn i args := by rw [placeIn, placeIn, hbase]
  have hsplit {j : Nat} (hj : index < j) : j = index + 1 ∨ index + 1 < j := by omega
  cases h with
  | here hroom =>
    refine .found hnone (Nat.lt_succ_self index) hadmits ?_ fun j hafter hbef => ?_
    · omega
    · omega
  | @found i hsmall hafter hlater hroom hfst =>
    rw [hbase] at hroom
    rw [hpl]
    refine .found hnone (by omega) (hlater.of_same hbase.symm hlim.symm) hroom fun j hj hlt => ?_
    obtain rfl | hj := hsplit hj
    · omega
    · rw [← hbase]
      exact hfst j hj hlt
  | full hsmall hall =>
    refine .full hnone fun i hi hadm => ?_
    obtain rfl | hi := hsplit hi
    · omega
    · rw [← hbase]
      exact hall i hi (hadm.of_same hbase hlim)

theorem Layered.placeIn_eq (hs : s.Layered) (hi : i < s.blocks.size) (args : Nat) :
    s.placeIn i args = { block := i.toUInt32, offset := (s.blockSize i - args).toUInt32 } := by
  rw [placeIn, hs.sizes i hi]

theorem Admits.holds_placeIn (h : s.Admits i) (hi : i < s.blocks.size) (args : Nat) :
    s.Holds (s.placeIn i args) := by
  intro _
  rw [((placeIn_eq_iff h).mp rfl).1]
  exact hi

theorem Layered.push_next (hs : s.Layered) {index size : Nat}
    (hidx : s.blocks.size ≠ 0 → index < s.blocks.size)
    (hnext : ¬ index + 1 < s.blocks.size) (hsize : s.nextSize? (index + 1) = some size) :
    s.Admits (index + 1) ∧ s.blocks.size = index + 1 ∧
      Layered { s with blocks := s.blocks.push (.zeros size) } := by
  obtain ⟨hadmits, rfl⟩ := nextSize?_eq_some_iff.mp hsize
  have hlt := hidx fun hzero => hadmits.base (hs.empty hzero)
  have hlast : s.blocks.size = index + 1 := by omega
  have hpushed := hs.push (hlast ▸ hadmits)
  rw [hlast] at hpushed
  exact ⟨hadmits, hlast, hpushed⟩

/-- The search goes from block to block, through those that are there and those that are added. -/
theorem Layered.search (hs : s.Layered) (needed args : Nat) {index : Nat}
    (hidx : s.blocks.size ≠ 0 → index < s.blocks.size) :
    s.Search needed args index sp (s.growFrom needed args index sp).1 := by
  fun_induction Stack.growFrom s needed args index sp with
  | case1 s index sp hroom => exact .here hroom
  | case2 s index sp hroom hnext ih =>
    rw [← hs.placeIn_eq hnext] at ih ⊢
    exact .back rfl rfl (hs.admitted _ hnext (Nat.succ_ne_zero index)) (by omega) (ih hs fun _ => hnext)
  | case3 s index sp hroom hnext hrng =>
    have hlt := hidx fun hzero => hrng.1 (hs.empty hzero)
    have hfew := hs.few
    omega
  | case4 s index sp hroom hnext hrng hnone =>
    exact .full (by omega) fun i hi hadmits =>
      absurd (hadmits.of_le hi) (nextSize?_eq_none_iff.mp hnone)
  | case5 s index sp hroom hnext hrng size hsize hlt s' ih =>
    obtain ⟨hadmits, hlast, hpushed⟩ := hs.push_next hidx hnext hsize
    have hthere : index + 1 < s'.blocks.size := by
      rw [Array.size_push]
      omega
    rw [← hpushed.placeIn_eq hthere] at ih ⊢
    exact .back (t := s') rfl rfl hadmits (by omega) (ih hpushed fun _ => hthere)

theorem Search.eq_full_iff {needed args index : Nat} {r : Except GrowFailure Pointer}
    (h : s.Search needed args index sp r) : r = .error .full ↔
      sp.offset.toNat < needed ∧ ∀ i, index < i → s.Admits i →
        s.base.toNat * Nat.pow 2 i - args < needed := by
  cases h with
  | here hroom => exact ⟨fun he => (by cases he), fun hnone => (by omega)⟩
  | found hnone hafter hadmits hroom hfst =>
    refine ⟨fun he => (by cases he), fun hall => ?_⟩
    have hsmall := hall.2 _ hafter hadmits
    omega
  | full hnone hall => exact ⟨fun _ => ⟨hnone, hall⟩, fun _ => rfl⟩

theorem Layered.growFrom (hs : s.Layered) (needed args : Nat) {index : Nat} {sp : Pointer}
    (hidx : s.blocks.size ≠ 0 → index < s.blocks.size) (hsp : s.Holds sp) :
    (s.growFrom needed args index sp).2.Layered ∧ Grown s (s.growFrom needed args index sp).2 ∧
      ∀ p, (s.growFrom needed args index sp).1 = .ok p →
        (s.growFrom needed args index sp).2.Holds p := by
  fun_induction Stack.growFrom s needed args index sp with
  | case1 s index sp hroom =>
    refine ⟨hs.of_layout rfl, ⟨Nat.le_refl _, id⟩, fun p hp => ?_⟩
    cases hp
    exact hsp.of_layout rfl
  | case2 s index sp hroom hnext ih =>
    rw [← hs.placeIn_eq hnext] at ih ⊢
    exact ih hs (fun _ => hnext)
      ((hs.admitted _ hnext (Nat.succ_ne_zero index)).holds_placeIn hnext args)
  | case3 | case4 => exact ⟨hs, ⟨Nat.le_refl _, id⟩, fun p hp => (by cases hp)⟩
  | case5 s index sp hroom hnext hrng size hsize hlt s' ih =>
    obtain ⟨hadmits, hlast, hpushed⟩ := hs.push_next hidx hnext hsize
    have hsize' : s'.blocks.size = s.blocks.size + 1 := Array.size_push _
    have hthere : index + 1 < s'.blocks.size := by omega
    rw [← hpushed.placeIn_eq hthere] at ih ⊢
    have hheld : s'.Holds (s'.placeIn (index + 1) args) :=
      (hadmits.of_same (t := s') rfl rfl).holds_placeIn hthere args
    obtain ⟨hlay, hgrown, hfd⟩ := ih hpushed (fun _ => hthere) hheld
    exact ⟨hlay, ⟨by have := hgrown.size_le; omega, fun hzero => (by omega)⟩, hfd⟩

theorem plan_growFrom (s : Stack) (needed args index : Nat) (sp : Pointer) :
    (s.growFrom needed args index sp).2.plan = s.plan := by
  fun_induction Stack.growFrom s needed args index sp with
  | case1 | case3 | case4 => rfl
  | case2 s index sp hroom hnext ih => exact ih
  | case5 s index sp hroom hnext hrng size hsize hlt s' ih => exact ih

theorem plan_grow (s : Stack) (sp : Pointer) (needed args : Nat) :
    (s.grow sp needed args).2.plan = s.plan :=
  s.plan_growFrom needed args sp.block.toNat sp

theorem Layered.grow (hs : s.Layered) {sp : Pointer} (hsp : s.Holds sp) (needed args : Nat) :
    (s.grow sp needed args).2.Layered ∧ Grown s (s.grow sp needed args).2 ∧
      (∀ p, (s.grow sp needed args).1 = .ok p → (s.grow sp needed args).2.Holds p) ∧
      ((s.grow sp needed args).1 = .error .full ↔
        sp.offset.toNat < needed ∧ ∀ i,
          sp.block.toNat < i → s.Admits i → s.base.toNat * Nat.pow 2 i - args < needed) := by
  obtain ⟨hlay, hgrown, hfd⟩ := hs.growFrom needed args hsp hsp
  exact ⟨hlay, hgrown, hfd, (hs.search needed args hsp).eq_full_iff⟩

/-- A search in layers ends with a place or finds them all full. -/
theorem Layered.grow_ne_overflow (hs : s.Layered) (hsp : s.Holds sp) (needed args : Nat) :
    (s.grow sp needed args).1 ≠ .error .overflow := by
  have hsearch : s.Search needed args sp.block.toNat sp (s.grow sp needed args).1 :=
    hs.search needed args hsp
  intro hnone
  rw [hnone] at hsearch
  cases hsearch

end Stack
end ScriptVm
