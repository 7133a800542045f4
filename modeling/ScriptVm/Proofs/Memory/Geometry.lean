import ScriptVm.Proofs.Memory.Growing

namespace ScriptVm

/-- The place is one of so many from another one on. -/
structure Pointer.Among (p q : Pointer) (count : Nat) : Prop where
  block : p.block = q.block
  first : q.offset.toNat ≤ p.offset.toNat
  last : p.offset.toNat < q.offset.toNat + count

theorem Pointer.among_iff {p q : Pointer} {count : Nat} :
    p.Among q count ↔ p.block = q.block ∧ q.offset.toNat ≤ p.offset.toNat ∧
      p.offset.toNat < q.offset.toNat + count :=
  ⟨fun h => ⟨h.block, h.first, h.last⟩, fun h => ⟨h.1, h.2.1, h.2.2⟩⟩

theorem Pointer.among_self (p : Pointer) (last : Nat) : p.Among p (last + 1) :=
  ⟨rfl, Nat.le_refl _, by omega⟩

theorem Pointer.Among.not_apart {p q r : Pointer} {words count : Nat} (h : r.Among p words)
    (h' : r.Among q count) :
    ¬ (q.offset.toNat + count ≤ p.offset.toNat ∨ p.offset.toNat + words ≤ q.offset.toNat) := by
  obtain ⟨-, hfst, hlast⟩ := h
  obtain ⟨-, hfst', hlast'⟩ := h'
  omega

theorem Pointer.among_of_shift {p q : Pointer} (h : p.shift? 1 = some q) : q.Among p 2 := by
  obtain ⟨hblk, hoff⟩ := shift?_eq_some_iff.mp h
  exact ⟨hblk, by omega, by omega⟩

instance (p q : Pointer) (count : Nat) : Decidable (p.Among q count) :=
  decidable_of_iff' _ Pointer.among_iff

namespace Stack

variable {s t u : Stack} {P Q : Pointer → Prop}

/-- Words are written at some places, and nothing else is done. -/
structure Alters (P : Pointer → Prop) (s t : Stack) : Prop where
  layout : t.layout = s.layout
  current : t.current = s.current
  words : ∀ p, ¬ P p → t.read? p = s.read? p

theorem Alters.refl (P : Pointer → Prop) (s : Stack) : s.Alters P s := ⟨rfl, rfl, fun _ _ => rfl⟩

theorem Alters.trans (h : s.Alters P t) (k : t.Alters P u) : s.Alters P u :=
  ⟨k.layout.trans h.layout, k.current.trans h.current,
    fun p hp => (k.words p hp).trans (h.words p hp)⟩

theorem Alters.weaken (h : s.Alters P t) (hPQ : ∀ p, P p → Q p) : s.Alters Q t :=
  ⟨h.layout, h.current, fun p hp => h.words p fun hP => hp (hPQ p hP)⟩

theorem contains_of_layout (h : t.layout = s.layout) (p : Pointer) :
    t.contains p = s.contains p := by
  rw [contains, contains, blockSize_of_layout h]

theorem read?_isSome_of_layout (h : t.layout = s.layout) (p : Pointer) :
    (t.read? p).isSome = (s.read? p).isSome := by
  rw [← contains_eq, ← contains_eq, contains_of_layout h]

section

variable (s : Stack)

theorem alters_set (p : Pointer) (v : UInt32) : s.Alters (· = p) (s.set p v) :=
  ⟨s.layout_set p v, rfl, fun _ hq => s.read?_set_ne hq v⟩

theorem alters_write? (p : Pointer) (v : UInt32) :
    s.Alters (·.Among p 1) ((s.write? p v).getD s) := by
  unfold write?
  split
  · exact (s.alters_set p v).weaken fun q hq => hq ▸ p.among_self 0
  · exact .refl _ s

theorem alters_set64 {p q : Pointer} (hq : p.shift? 1 = some q) (v : UInt64) :
    s.Alters (·.Among p 2) (s.set64 p v) := by
  refine ⟨s.layout_set64 p v, rfl, fun r hr => s.read?_set64 hq v ?_ ?_⟩
  · rintro rfl
    exact hr (r.among_self 1)
  · rintro rfl
    exact hr (Pointer.among_of_shift hq)

theorem alters_write64? (p : Pointer) (v : UInt64) :
    s.Alters (·.Among p 2) ((s.write64? p v).getD s) := by
  unfold write64?
  split
  · rename_i hthere
    obtain ⟨q, hq, -⟩ := (Option.any_eq_true _ _).mp hthere
    exact s.alters_set64 hq v
  · exact .refl _ s

theorem read?_clear (p : Pointer) (count : Nat) (q : Pointer) :
    (s.clear p count).read? q = if q.Among p count ∧ s.contains q then some 0 else s.read? q := by
  have hblks : (s.clear p count).blocks = s.blocks.modify p.block.toNat fun b =>
      b.clear p.offset.toNat count := rfl
  unfold read?
  rw [hblks, Array.getElem?_modify]
  by_cases hblk : p.block.toNat = q.block.toNat
  · have hsame : q.block = p.block := (UInt32.toNat_inj.mp hblk).symm
    rw [if_pos hblk]
    cases hb : s.blocks[q.block.toNat]? with
    | none => simp [contains, blockSize, hb]
    | some b =>
      have hcont : s.contains q = decide (q.offset.toNat < b.size) := by
        simp [contains, blockSize, hb]
      simp only [Option.map_some, Option.bind_some, Words.get?_clear, hcont, Pointer.among_iff,
        hsame, true_and,
        decide_eq_true_eq, and_assoc]
  · have hne : ¬ q.Among p count := fun h => hblk (by rw [h.block])
    simp [hblk, hne]

theorem alters_zero? (p : Pointer) (count : Nat) :
    s.Alters (·.Among p count) ((s.zero? p count).getD s) := by
  unfold zero?
  split
  · exact ⟨s.layout_clear p count, rfl,
      fun q hq => by rw [Option.getD_some, read?_clear, if_neg fun h => hq h.1]⟩
  · exact .refl _ s

/-- Also what is copied before a place is missing goes to the target, and nothing goes to the places
before the first one. -/
theorem alters_copyFrom (source target : Pointer) (done count : Nat) :
    s.Alters (fun p => p.Among target (done + count) ∧ target.offset.toNat + done ≤ p.offset.toNat)
      (s.copyFrom source target done count).2 := by
  induction count generalizing s done with
  | zero => exact .refl _ s
  | succ count ih =>
    rw [copyFrom]
    split
    · rename_i v p hv hp
      split
      · obtain ⟨hblk, hoff⟩ := Pointer.shift?_eq_some_iff.mp hp
        refine .trans ((s.alters_set p v).weaken ?_) ((ih (s.set p v) (done + 1)).weaken ?_)
        · rintro q rfl
          exact ⟨⟨hblk, by omega, by omega⟩, by omega⟩
        · rintro q ⟨⟨hsame, hfst, hlast⟩, hlater⟩
          exact ⟨⟨hsame, hfst, by omega⟩, by omega⟩
      · exact .refl _ s
    · exact .refl _ s

theorem alters_copy (source target : Pointer) (count : Nat) :
    s.Alters (·.Among target count) (s.copy source target count).2 := by
  refine (s.alters_copyFrom source target 0 count).weaken fun p hp => ?_
  rw [Nat.zero_add] at hp
  exact hp.1

end

/-- What can be done to a stack. -/
inductive Op where
  | reset (words : UInt32)
  | keepFirst
  | release
  | select (block : Nat)
  | grow (sp : Pointer) (needed args : UInt32)
  | write (p : Pointer) (v : UInt32)
  | write64 (p : Pointer) (v : UInt64)
  | zero (p : Pointer) (count : UInt32)
  | copy (source target : Pointer) (count : UInt32)

namespace Op

def discards : Op → Bool
  | reset _ | keepFirst | release => true
  | _ => false

def Targets (p : Pointer) : Op → Prop
  | write q _ => p.Among q 1
  | write64 q _ => p.Among q 2
  | zero q count | copy _ q count => p.Among q count.toNat
  | _ => False

end Op

instance Op.decidableTargets (p : Pointer) : (op : Op) → Decidable (op.Targets p)
  | .write q _ => inferInstanceAs (Decidable (p.Among q 1))
  | .write64 q _ => inferInstanceAs (Decidable (p.Among q 2))
  | .zero q count | .copy _ q count => inferInstanceAs (Decidable (p.Among q count.toNat))
  | .reset _ | .keepFirst | .release | .select _ | .grow _ _ _ => isFalse id

/-- What is written outside the blocks is lost, and room that is not found is not used. -/
def perform (s : Stack) : Op → Stack
  | .reset words => s.reset words
  | .keepFirst => s.keepFirst
  | .release => s.release
  | .select block => { s with current := block }
  | .grow sp needed args => (s.grow sp needed.toNat args.toNat).2
  | .write p v => (s.write? p v).getD s
  | .write64 p v => (s.write64? p v).getD s
  | .zero p count => (s.zero? p count.toNat).getD s
  | .copy source target count => (s.copy source target count.toNat).2

def performAll (s : Stack) (ops : List Op) : Stack := ops.foldl perform s

/-- A block that is selected, or from which the stack grows, is there. -/
def Allows (s : Stack) : Op → Prop
  | .select block => block < s.blocks.size
  | .grow sp _ _ => sp.block.toNat < s.blocks.size
  | _ => True

def AllowsAll (s : Stack) : List Op → Prop
  | [] => True
  | op :: ops => s.Allows op ∧ (s.perform op).AllowsAll ops

instance decidableAllows (s : Stack) : (op : Op) → Decidable (s.Allows op)
  | .select block => inferInstanceAs (Decidable (block < s.blocks.size))
  | .grow sp _ _ => inferInstanceAs (Decidable (sp.block.toNat < s.blocks.size))
  | .reset _ | .keepFirst | .release | .write _ _ | .write64 _ _ | .zero _ _
  | .copy _ _ _ => isTrue trivial

instance decidableAllowsAll (s : Stack) : (ops : List Op) → Decidable (s.AllowsAll ops)
  | [] => isTrue trivial
  | op :: ops => have := decidableAllowsAll (s.perform op) ops; inferInstanceAs (Decidable (_ ∧ _))

/-- Blocks have their sizes, and the one in use is there if any is. -/
structure Laid (s : Stack) : Prop extends Layered s where
  used : s.current < s.blocks.size ∨ s.blocks.size = 0 ∧ s.current = 0

theorem laid_new (limit : UInt32) : Laid { limit } :=
  { layered_new limit with used := .inr ⟨rfl, rfl⟩ }

theorem Laid.alters (hs : s.Laid) (h : s.Alters P t) : t.Laid := by
  refine { hs.toLayered.of_layout h.layout with used := ?_ }
  rw [h.current, blocks_size_of_layout h.layout]
  exact hs.used

theorem current_growFrom (needed args : Nat) {index : Nat} {sp : Pointer}
    (hidx : index < s.blocks.size) (hs : s.current < s.blocks.size) :
    (s.growFrom needed args index sp).2.current <
      (s.growFrom needed args index sp).2.blocks.size := by
  fun_induction Stack.growFrom s needed args index sp with
  | case1 s index sp hroom => exact hidx
  | case2 s index sp hroom hnext ih => exact ih hnext hs
  | case3 s index sp hroom hnext hrng => exact hs
  | case4 s index sp hroom hnext hrng hnone => exact hs
  | case5 s index sp hroom hnext hrng size hsize hlt s' ih =>
    have hpushed : s'.blocks.size = s.blocks.size + 1 := Array.size_push _
    refine ih (by omega) ?_
    rw [hpushed]
    exact Nat.lt_succ_of_lt hs

theorem Laid.keepFirst (hs : s.Laid) : s.keepFirst.Laid := by
  refine { hs.toLayered.keepFirst with used := ?_ }
  have hcur : s.keepFirst.current = 0 := rfl
  omega

theorem Laid.grow (hs : s.Laid) {sp : Pointer} (hsp : sp.block.toNat < s.blocks.size)
    (needed args : Nat) : (s.grow sp needed args).2.Laid := by
  have hused : s.current < s.blocks.size := hs.used.resolve_right fun hnone => by omega
  exact
    { (hs.toLayered.grow (fun _ => hsp) needed args).1 with
      used := .inl (current_growFrom needed args hsp hused) }

theorem Laid.perform (hs : s.Laid) {op : Op} (h : s.Allows op) : (s.perform op).Laid := by
  cases op with
  | reset words => exact { s.layered_reset words with used := .inl Nat.one_pos }
  | keepFirst => exact hs.keepFirst
  | release => exact { s.layered_release with used := .inr ⟨rfl, rfl⟩ }
  | select block =>
    have hlay : (s.perform (.select block)).Layered := hs.toLayered.of_layout rfl
    exact { hlay with used := .inl h }
  | grow sp needed args => exact hs.grow h needed.toNat args.toNat
  | write p v => exact hs.alters (s.alters_write? p v)
  | write64 p v => exact hs.alters (s.alters_write64? p v)
  | zero p count => exact hs.alters (s.alters_zero? p count.toNat)
  | copy source target count => exact hs.alters (s.alters_copy source target count.toNat)

theorem Laid.performAll (hs : s.Laid) {ops : List Op} (h : s.AllowsAll ops) :
    (s.performAll ops).Laid := by
  induction ops generalizing s with
  | nil => exact hs
  | cons op ops ih => exact ih (hs.perform h.1) h.2

/-- Blocks stay as they are, and words change at some places only. -/
structure Preserves (P : Pointer → Prop) (s t : Stack) : Prop where
  count : s.blocks.size ≤ t.blocks.size
  sizes : ∀ n < s.blocks.size, t.blockSize n = s.blockSize n
  words : ∀ p v, s.read? p = some v → ∃ w, t.read? p = some w ∧ (w ≠ v → P p)

theorem Preserves.refl (P : Pointer → Prop) (s : Stack) : s.Preserves P s :=
  ⟨Nat.le_refl _, fun _ _ => rfl, fun _ v hv => ⟨v, hv, fun hne => absurd rfl hne⟩⟩

theorem Preserves.trans (h : s.Preserves P t) (k : t.Preserves Q u) :
    s.Preserves (fun p => P p ∨ Q p) u := by
  refine ⟨Nat.le_trans h.count k.count, fun n hn => ?_, fun p v hv => ?_⟩
  · rw [k.sizes n (Nat.lt_of_lt_of_le hn h.count), h.sizes n hn]
  · obtain ⟨w, hw, hchanged⟩ := h.words p v hv
    obtain ⟨x, hx, hchanged'⟩ := k.words p w hw
    refine ⟨x, hx, fun hne => ?_⟩
    by_cases hwv : w = v
    · exact .inr (hchanged' fun hxw => hne (hxw.trans hwv))
    · exact .inl (hchanged hwv)

theorem Alters.preserves (h : s.Alters P t) : s.Preserves P t := by
  refine ⟨Nat.le_of_eq (blocks_size_of_layout h.layout).symm,
    fun n _ => blockSize_of_layout h.layout n, fun p v hv => ?_⟩
  have hthere : (t.read? p).isSome := by
    rw [read?_isSome_of_layout h.layout, hv]
    rfl
  obtain ⟨w, hw⟩ := Option.isSome_iff_exists.mp hthere
  refine ⟨w, hw, fun hne => Classical.byContradiction fun hP => hne ?_⟩
  rw [h.words p hP, hv] at hw
  exact (Option.some.inj hw).symm

theorem Laid.preserves_grow (hs : s.Laid) {sp : Pointer} (hsp : sp.block.toNat < s.blocks.size)
    (needed args : Nat) (P : Pointer → Prop) : s.Preserves P (s.grow sp needed args).2 := by
  obtain ⟨hlay, hgrown, -⟩ := hs.toLayered.grow (fun _ => hsp) needed args
  have hbase : (s.grow sp needed args).2.base = s.base :=
    congrArg Prod.fst (s.plan_grow sp needed args)
  refine ⟨hgrown.size_le, fun n hn => ?_, fun p v hv => ?_⟩
  · rw [hlay.sizes n (Nat.lt_of_lt_of_le hn hgrown.size_le), hs.sizes n hn, hbase]
  · exact ⟨v, (extends_growFrom s needed args sp.block.toNat sp).words p v hv,
      fun hne => absurd rfl hne⟩

theorem Laid.preserves (hs : s.Laid) {op : Op} (h : s.Allows op) (hop : op.discards = false) :
    s.Preserves op.Targets (s.perform op) := by
  cases op with
  | reset | keepFirst | release => cases hop
  | select block =>
    have hsame := Preserves.refl (Op.select block).Targets s
    exact ⟨hsame.count, hsame.sizes, hsame.words⟩
  | grow sp needed args => exact hs.preserves_grow h needed.toNat args.toNat _
  | write p v => exact (s.alters_write? p v).preserves
  | write64 p v => exact (s.alters_write64? p v).preserves
  | zero p count => exact (s.alters_zero? p count.toNat).preserves
  | copy source target count => exact (s.alters_copy source target count.toNat).preserves

theorem Laid.preserves_all (hs : s.Laid) {ops : List Op} (h : s.AllowsAll ops)
    (hops : ∀ op ∈ ops, op.discards = false) :
    s.Preserves (fun p => ∃ op ∈ ops, op.Targets p) (s.performAll ops) := by
  induction ops generalizing s with
  | nil => exact .refl _ s
  | cons op ops ih =>
    have hfst := hs.preserves h.1 (hops op List.mem_cons_self)
    have hrest := ih (hs.perform h.1) h.2 fun o ho => hops o (List.mem_cons_of_mem _ ho)
    have hboth := hfst.trans hrest
    refine ⟨hboth.count, hboth.sizes, fun p v hv => ?_⟩
    obtain ⟨w, hw, hchanged⟩ := hboth.words p v hv
    exact ⟨w, hw, fun hne => by simpa using hchanged hne⟩

theorem read?_reset (s : Stack) (words : UInt32) (p : Pointer) :
    (s.reset words).read? p = if p.block = 0 ∧ p.offset < words then some 0 else none := by
  have hblks : (s.reset words).blocks = #[.zeros words.toNat] := rfl
  rw [read?, hblks]
  by_cases hblk : p.block = 0
  · simp [hblk, UInt32.lt_iff_toNat_lt]
  · have hpos : 0 < p.block.toNat := Nat.pos_of_ne_zero fun h => hblk (UInt32.toNat_inj.mp h)
    rw [Array.getElem?_eq_none hpos, if_neg fun h => hblk h.1]
    rfl

theorem read?_keepFirst (s : Stack) (p : Pointer) :
    s.keepFirst.read? p = if p.block = 0 then s.read? p else none := by
  have hblks : s.keepFirst.blocks = s.blocks.take 1 := rfl
  rw [read?, hblks, Array.take_eq_extract, Array.getElem?_extract, Nat.zero_add]
  by_cases hblk : p.block = 0
  · by_cases hempty : s.blocks.size = 0
    · simp [read?, hblk, hempty]
    · have hlt : 0 < min 1 s.blocks.size := by omega
      simp [read?, hblk, hlt]
  · have hpos : p.block.toNat ≠ 0 := fun h => hblk (UInt32.toNat_inj.mp h)
    have hout : ¬ p.block.toNat < min 1 s.blocks.size - 0 := by omega
    rw [if_neg hout, if_neg hblk]
    rfl

/-- The stack comes from an empty one. -/
def Used (s : Stack) : Prop := ∃ limit ops, AllowsAll { limit } ops ∧ performAll { limit } ops = s

/-- Whatever was done to a stack, block `n` has `base * 2 ^ n` words, which is a number of 32 bits,
there are at most 32 blocks, and the one in use is there. Whatever is done next, no block changes
its size and no place gets lost unless blocks are discarded, and a word changes only if it is
written. Of the operations that discard blocks one begins anew with zeros, one keeps the words of
the first block, and one leaves nothing. -/
theorem used_geometry (h : s.Used) : s.blocks.size ≤ 32 ∧
    (∀ n < s.blocks.size, s.blockSize n = s.base.toNat * 2 ^ n ∧ s.base.toNat * 2 ^ n < 4294967296) ∧
    (s.current < s.blocks.size ∨ s.blocks.size = 0 ∧ s.current = 0) ∧
    (∀ ops, s.AllowsAll ops → (∀ op ∈ ops, op.discards = false) →
      (∀ n < s.blocks.size, (s.performAll ops).blockSize n = s.blockSize n) ∧
      ∀ p v, s.read? p = some v → ∃ w,
        (s.performAll ops).read? p = some w ∧ (w ≠ v → ∃ op ∈ ops, op.Targets p)) ∧
    ∀ p, (∀ words,
      (s.reset words).read? p = if p.block = 0 ∧ p.offset < words then some 0 else none) ∧
      s.keepFirst.read? p = (if p.block = 0 then s.read? p else none) ∧
        s.release.read? p = none := by
  obtain ⟨limit, ops, hops, rfl⟩ := h
  have hlaid := (laid_new limit).performAll hops
  refine ⟨hlaid.few, fun n hn => ⟨hlaid.sizes n hn, hlaid.word hn⟩, hlaid.used,
    fun more hmore hkept => ?_, fun p => ?_⟩
  · have hpreserved := hlaid.preserves_all hmore hkept
    exact ⟨hpreserved.sizes, hpreserved.words⟩
  · exact ⟨fun words => read?_reset _ words p, read?_keepFirst _ p, rfl⟩

/-- Three blocks, after a search that passed by the second one. -/
def spread : Stack :=
  performAll {} [.reset 8, .write { offset := 3 } 77, .grow { offset := 2 } 20 4,
    .copy { offset := 3 } { block := 1 } 2, .select 0]

/-- Adds a block, writes two words of the third one and clears the second one; one word is not
there. -/
def spreadOps : List Op :=
  [.grow {} 60 0, .write64 { block := 2, offset := 5 } 0x100000002, .zero { block := 1 } 16,
    .write { block := 9 } 1]

theorem used_geometry_spread : spread.Used ∧ spread.blockSize 2 = 32 ∧ spread.AllowsAll spreadOps ∧
      (spread.performAll spreadOps).blockSize 2 = 32 ∧
      (spread.performAll spreadOps).read? { offset := 3 } = some 77 ∧
        spread.keepFirst.read? { offset := 3 } = some 77 := by
  have hused : spread.Used := ⟨0, _, by decide +kernel, rfl⟩
  have hallowed : spread.AllowsAll spreadOps := by decide +kernel
  have hword : spread.read? { offset := 3 } = some 77 := by decide +kernel
  obtain ⟨-, hsizes, -, hkept, hdiscarded⟩ := used_geometry hused
  obtain ⟨hsame, hwords⟩ := hkept spreadOps hallowed (by decide)
  have hthird : spread.blockSize 2 = 32 := (hsizes 2 (by decide +kernel)).1.trans (by decide +kernel)
  obtain ⟨w, hw, hchanged⟩ := hwords _ _ hword
  obtain rfl : w = 77 := Classical.byContradiction fun hne => absurd (hchanged hne) (by decide)
  exact ⟨hused, hthird, hallowed, (hsame 2 (by decide +kernel)).trans hthird, hw,
    (hdiscarded _).2.1.trans hword⟩

end Stack
end ScriptVm
