import Mathlib.Algebra.Group.Nat.Defs
import Mathlib.Order.Bounds.Basic
import ScriptVm.Proofs.Memory.Layers

namespace ScriptVm.Stack

variable {s t : Stack} {i : Nat} {sp : Pointer}

/-- A block may have this number: its size is a word, and with all blocks before it the stack is
within the limit. -/
def Permits (s : Stack) (i : Nat) : Prop :=
  s.base.toNat * 2 ^ i < 4294967296 ∧
    (s.limit ≠ 0 → s.base.toNat * (2 ^ (i + 1) - 1) ≤ s.limit.toNat)

/-- The numbers of blocks after a place that may be there and have so many words. -/
def roomAfter (s : Stack) (sp : Pointer) (words : Nat) : Set Nat :=
  {i | sp.block.toNat < i ∧ s.Permits i ∧ words ≤ s.base.toNat * 2 ^ i}

/-- The stacks that come from an empty one. A stack grows from a place in one of its blocks; in
between words are written, and the block in use is changed when a function returns. -/
inductive Attained : Stack → Prop where
  | new (limit : UInt32) : Attained { limit }
  | reset {s : Stack} (h : Attained s) (words : UInt32) : Attained (s.reset words)
  | keepFirst {s : Stack} (h : Attained s) : Attained s.keepFirst
  | release {s : Stack} (h : Attained s) : Attained s.release
  | grow {s : Stack} (h : Attained s) {sp : Pointer} (hsp : s.Holds sp) (needed args : Nat) :
    Attained (s.grow sp needed args).2
  | set {s : Stack} (h : Attained s) (p : Pointer) (v : UInt32) : Attained (s.set p v)
  | select {s : Stack} (h : Attained s) (block : Nat) : Attained { s with current := block }

theorem Attained.layered (h : s.Attained) : s.Layered := by
  induction h with
  | new limit => exact layered_new limit
  | reset _ words => exact layered_reset _ words
  | keepFirst _ ih => exact ih.keepFirst
  | release => exact layered_release _
  | grow _ hsp needed args ih => exact (ih.grow hsp needed args).1
  | set _ p v ih => exact ih.of_layout (layout_set _ p v)
  | select _ _ ih => exact ih.of_layout rfl

theorem admits_iff {words : Nat} (hws : 0 < words) (hroom : words ≤ s.base.toNat * 2 ^ i) :
    s.Admits i ↔ s.Permits i := by
  constructor
  · exact fun h => ⟨h.word, h.within⟩
  · intro h
    have hbase : 0 < s.base.toNat := Nat.pos_of_mul_pos_right (Nat.lt_of_lt_of_le hws hroom)
    refine ⟨fun hzero => ?_, Nat.lt_of_not_le fun hfew => ?_, h.1, h.2⟩
    · rw [hzero] at hbase
      exact absurd hbase (by decide)
    · have hpow : 2 ^ 32 ≤ 2 ^ i := Nat.pow_le_pow_right (by decide) hfew
      have hsize : 1 * 2 ^ i ≤ s.base.toNat * 2 ^ i := Nat.mul_le_mul_right _ hbase
      have hword := h.1
      omega

theorem mem_roomAfter_iff {needed args : Nat} (hneed : 0 < needed) :
    i ∈ s.roomAfter sp (needed + args) ↔ sp.block.toNat < i ∧ s.Admits i ∧
      needed ≤ s.base.toNat * Nat.pow 2 i - args := by
  have hfits : needed ≤ s.base.toNat * Nat.pow 2 i - args ↔
      needed + args ≤ s.base.toNat * Nat.pow 2 i := by omega
  have hws : 0 < needed + args := by omega
  rw [hfits]
  constructor
  · rintro ⟨hafter, hpermits, hroom⟩
    exact ⟨hafter, (admits_iff hws hroom).mpr hpermits, hroom⟩
  · rintro ⟨hafter, hadm, hroom⟩
    exact ⟨hafter, (admits_iff hws hroom).mp hadm, hroom⟩

/-- All words stay, and if there is no room the block in use stays too. -/
structure Extends (s : Stack) (r : Except GrowFailure Pointer × Stack) : Prop where
  words : ∀ p v, s.read? p = some v → r.2.read? p = some v
  current : ∀ e, r.1 = .error e → r.2.current = s.current

theorem read?_push {p : Pointer} {v : UInt32} (h : s.read? p = some v) (words : Words) :
    ({ s with blocks := s.blocks.push words } : Stack).read? p = some v := by
  obtain ⟨b, hb, hv⟩ := Option.bind_eq_some_iff.mp h
  show (s.blocks.push words)[p.block.toNat]?.bind _ = some v
  rw [getElem?_push_of_some hb]
  exact hv

theorem extends_growFrom (s : Stack) (needed args index : Nat) (sp : Pointer) :
    s.Extends (s.growFrom needed args index sp) := by
  fun_induction Stack.growFrom s needed args index sp with
  | case1 s index sp hroom => exact ⟨fun _ _ h => h, fun e he => by cases he⟩
  | case2 s index sp hroom hnext ih => exact ih
  | case3 s index sp hroom hnext hrng | case4 s index sp hroom hnext hrng hnone =>
    exact ⟨fun _ _ h => h, fun _ _ => rfl⟩
  | case5 s index sp hroom hnext hrng size hsize hlt s' ih =>
    exact ⟨fun p v h => ih.words p v (read?_push h _), ih.current⟩

section Found

variable {needed args : Nat} {r : Except GrowFailure Pointer}

section

variable (h : s.Search needed args sp.block.toNat sp r)
include h

theorem Search.of_room (hroom : needed ≤ sp.offset.toNat) : r = .ok sp := by
  cases h with
  | here => rfl
  | found hnone | full hnone => omega

theorem Search.ok_iff (hnone : sp.offset.toNat < needed) (p : Pointer) : r = .ok p ↔
      IsLeast (s.roomAfter sp (needed + args)) p.block.toNat ∧
        p.offset.toNat = s.base.toNat * 2 ^ p.block.toNat - args := by
  have hneed : 0 < needed := by omega
  cases h with
  | here hroom => omega
  | @found i _ hafter hadm hroom hfst =>
    have hleast : IsLeast (s.roomAfter sp (needed + args)) i := by
      refine ⟨(mem_roomAfter_iff hneed).mpr ⟨hafter, hadm, hroom⟩, fun j hj => ?_⟩
      obtain ⟨hj, -, hroomj⟩ := (mem_roomAfter_iff hneed).mp hj
      refine Nat.le_of_not_lt fun hlt => ?_
      have := hfst j hj hlt
      omega
    rw [Except.ok.injEq, eq_comm, placeIn_eq_iff hadm]
    constructor
    · rintro ⟨rfl, hoff⟩
      exact ⟨hleast, hoff⟩
    · rintro ⟨hp, hoff⟩
      obtain rfl := hp.unique hleast
      exact ⟨rfl, hoff⟩
  | full _ hall =>
    constructor
    · intro h
      cases h
    · rintro ⟨hp, -⟩
      obtain ⟨hafter, hadm, hroom⟩ := (mem_roomAfter_iff hneed).mp hp.1
      have := hall _ hafter hadm
      omega

theorem Search.full_iff (hnone : sp.offset.toNat < needed) :
    r = .error .full ↔ s.roomAfter sp (needed + args) = ∅ := by
  have hneed : 0 < needed := by omega
  rw [Set.eq_empty_iff_forall_notMem, h.eq_full_iff]
  constructor
  · rintro ⟨-, hall⟩ i hi
    obtain ⟨hafter, hadm, hroom⟩ := (mem_roomAfter_iff hneed).mp hi
    have := hall i hafter hadm
    omega
  · intro hempty
    refine ⟨hnone, fun i hafter hadm => Nat.lt_of_not_le fun hroom => hempty i ?_⟩
    exact (mem_roomAfter_iff hneed).mpr ⟨hafter, hadm, hroom⟩

end

theorem Search.ends {index : Nat} (h : s.Search needed args index sp r) :
    (∃ p, r = .ok p) ∨ r = .error .full := by
  cases h with
  | here | found => exact .inl ⟨_, rfl⟩
  | full => exact .inr rfl

end Found

/-- Room is found below the place if there is any, else in the first later block that may be there
and is large enough, where it leaves the words for the arguments at the top. Only if there is no
such block the stack is full. The search ends within 32 blocks one way or the other; all words that
were there stay, and a search that fails leaves the block in use. -/
theorem grow_finds_first (hs : s.Attained) (hsp : sp.block.toNat < s.blocks.size)
    (needed args : Nat) : (needed ≤ sp.offset.toNat → (s.grow sp needed args).1 = .ok sp) ∧
      (sp.offset.toNat < needed →
        (∀ p, (s.grow sp needed args).1 = .ok p ↔
          IsLeast (s.roomAfter sp (needed + args)) p.block.toNat ∧
            p.offset.toNat = s.base.toNat * 2 ^ p.block.toNat - args) ∧
        ((s.grow sp needed args).1 = .error .full ↔ s.roomAfter sp (needed + args) = ∅)) ∧
      ((∃ p, (s.grow sp needed args).1 = .ok p) ∨ (s.grow sp needed args).1 = .error .full) ∧
      (s.grow sp needed args).2.blocks.size ≤ 32 ∧
      (∀ p v, s.read? p = some v → (s.grow sp needed args).2.read? p = some v) ∧
      ∀ e, (s.grow sp needed args).1 = .error e → (s.grow sp needed args).2.current = s.current := by
  have hlayered := hs.layered
  have hsearch : s.Search needed args sp.block.toNat sp (s.grow sp needed args).1 :=
    hlayered.search needed args fun _ => hsp
  have hkept := extends_growFrom s needed args sp.block.toNat sp
  have hfew := (hlayered.grow (fun _ => hsp) needed args).1.few
  exact ⟨hsearch.of_room, fun hnone => ⟨hsearch.ok_iff hnone, hsearch.full_iff hnone⟩, hsearch.ends,
    hfew, hkept.words,
    hkept.current⟩

/-- A first block of eight words with one that is written. -/
def written (limit : UInt32) : Stack := (reset { limit } 8).set { offset := 3 } 77

theorem written_attained (limit : UInt32) : (written limit).Attained :=
  .set (.reset (.new limit) 8) _ 77

/-- The second block is too small for 32 words and the third is not. With a limit of 40 words the
second block may be added, and the search fails at the third; the word that was written stays. -/
theorem grow_finds_first_written :
    (written 0).Attained ∧ ((written 0).grow {} 30 2).1 = .ok { block := 2, offset := 30 } ∧
      ((written 0).grow {} 30 2).2.read? { offset := 3 } = some 77 ∧ (written 40).Attained ∧
      ((written 40).grow { offset := 2 } 30 2).1 = .error .full ∧
      ((written 40).grow { offset := 2 } 30 2).2.read? { offset := 3 } = some 77 ∧
      ((written 40).grow { offset := 2 } 30 2).2.current = 0 := by
  have hword (limit : UInt32) : (written limit).read? { offset := 3 } = some 77 := by
    rw [written, read?_set, if_pos ⟨rfl, rfl⟩]
  obtain ⟨-, hfind, -, -, hkept, -⟩ := @grow_finds_first _ {} (written_attained 0) (by decide) 30 2
  obtain ⟨-, hfail, -, -, hkept', hcurrent⟩ :=
    @grow_finds_first _ { offset := 2 } (written_attained 40) (by decide) 30 2
  have hleast : IsLeast ((written 0).roomAfter {} (30 + 2)) 2 := by
    refine ⟨⟨by decide, ⟨by decide, fun h => absurd rfl h⟩, by decide⟩, fun i hi => ?_⟩
    obtain ⟨hafter, -, hroom⟩ := hi
    refine Nat.le_of_not_lt fun hlt => ?_
    obtain rfl : i = 1 := by
      change 0 < i at hafter
      omega
    exact absurd hroom (by decide)
  have hnone : (written 40).roomAfter { offset := 2 } (30 + 2) = ∅ := by
    rw [Set.eq_empty_iff_forall_notMem]
    rintro i ⟨hafter, hpermits, hroom⟩
    have hwithin : 8 * (2 ^ (i + 1) - 1) ≤ 40 := hpermits.2 (by decide)
    change 32 ≤ 8 * 2 ^ i at hroom
    rw [Nat.pow_succ] at hwithin
    omega
  have hfull := (hfail (by decide)).2.mpr hnone
  exact ⟨written_attained 0, ((hfind (by decide)).1 { block := 2, offset := 30 }).mpr
    ⟨hleast, by decide⟩, hkept _ _ (hword 0),
    written_attained 40, hfull, hkept' _ _ (hword 40), hcurrent _ hfull⟩

end ScriptVm.Stack
