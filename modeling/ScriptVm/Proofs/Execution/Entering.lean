import ScriptVm.Proofs.Execution.ControlFlow
import ScriptVm.Proofs.Execution.Moves
import ScriptVm.Proofs.Memory.Geometry
import ScriptVm.Proofs.Session.Handover

namespace ScriptVm

/-- A word of an object variable in a frame. -/
def Pointer.InVars (p fp : Pointer) (vars : List ObjectVar) : Prop :=
  ∃ v ∈ vars, ∃ q, fp.shift? (-v.offset.toInt) = some q ∧ p.Among q 2

theorem Pointer.AtArgs.not_inVars {p fp : Pointer} {vars : List ObjectVar} (hp : p.AtArgs fp)
    (hvars : ∀ v ∈ vars, 2 ≤ v.offset.toInt) : ¬ p.InVars fp vars := by
  rintro ⟨v, hv, q, hq, hwithin⟩
  obtain ⟨-, hoff⟩ := shift?_eq_some_iff.mp hq
  have hbelow := hvars v hv
  have habove := hp.offset
  have hlast := hwithin.last
  omega

theorem Pointer.eq_of_among {p q r : Pointer} (h : p.Among q 2) (hr : q.shift? 1 = some r) :
    p = q ∨ p = r := by
  obtain ⟨hblk, hoff⟩ := shift?_eq_some_iff.mp hr
  obtain ⟨hsame, hfst, hlast⟩ := h
  have hext {a b : Pointer} (hab : a.block = b.block) (hpl : a.offset.toNat = b.offset.toNat) :
      a = b := by
    cases a
    cases b
    simp_all [UInt32.toNat_inj]
  obtain hp | hp : p.offset.toNat = q.offset.toNat ∨ p.offset.toNat = r.offset.toNat := by omega
  · exact .inl (hext hsame hp)
  · exact .inr (hext (hsame.trans hblk.symm) hp)

namespace Stack

theorem contains64_of_layout {s t : Stack} (h : t.layout = s.layout) (p : Pointer) :
    t.contains64 p = s.contains64 p := by
  unfold contains64
  cases p.shift? 1 with
  | none => rfl
  | some q => exact contains_of_layout h q

variable {s : Stack} {fp p q sp source target : Pointer} {vars : List ObjectVar}
    {needed args index done count : Nat}

/-- So many words lie below a place in its block. -/
def RoomBelow (s : Stack) (p : Pointer) (words : Nat) : Prop :=
  words ≤ p.offset.toNat ∧ p.offset.toNat ≤ s.blockSize p.block.toNat

instance (s : Stack) (p : Pointer) (words : Nat) : Decidable (s.RoomBelow p words) :=
  inferInstanceAs (Decidable (_ ∧ _))

theorem room_growFrom (h : (s.growFrom needed args index sp).1 = .ok p) :
    needed ≤ p.offset.toNat := by
  fun_induction Stack.growFrom s needed args index sp with
  | case1 s index sp hroom =>
    cases h
    exact hroom
  | case2 s index sp hroom hnext ih => exact ih h
  | case3 | case4 => cases h
  | case5 s index sp hroom hnext hrng size hsize hlt s' ih => exact ih h

/-- Room is found at the place itself, or in a later block, where the words below are all there. -/
theorem growFrom_ok (hfew : s.blocks.size ≤ 4294967296)
    (h : (s.growFrom needed args index sp).1 = .ok p) :
    p = sp ∧ (s.growFrom needed args index sp).2 = { s with current := index } ∨
      index < p.block.toNat ∧
        p.offset.toNat ≤ (s.growFrom needed args index sp).2.blockSize p.block.toNat := by
  -- From the next block on the search ends there or later, and both are later than here.
  have hnextPlace {t : Stack} {i : Nat} (hi : i < 4294967296) :
      (⟨i.toUInt32, (t.blockSize i - args).toUInt32⟩ : Pointer).block.toNat = i ∧
        (⟨i.toUInt32, (t.blockSize i - args).toUInt32⟩ : Pointer).offset.toNat ≤ t.blockSize i := by
    simp only [Nat.toUInt32_eq, UInt32.toNat_ofNat']
    constructor
    · omega
    · exact Nat.le_trans (Nat.mod_le _ _) (Nat.sub_le _ _)
  fun_induction Stack.growFrom s needed args index sp with
  | case1 s index sp hroom =>
    cases h
    exact .inl ⟨rfl, rfl⟩
  | case2 s index sp hroom hnext ih =>
    obtain ⟨hblk, hoff⟩ := hnextPlace (t := s) (i := index + 1) (by omega)
    obtain ⟨hp, hsame⟩ | ⟨hlater, hbelow⟩ := ih hfew h
    · rw [hsame, hp, hblk]
      exact .inr ⟨Nat.lt_succ_self index, hoff⟩
    · exact .inr ⟨by omega, hbelow⟩
  | case3 | case4 => cases h
  | case5 s index sp hroom hnext hrng size hsize hlt s' ih =>
    obtain ⟨hblk, hoff⟩ := hnextPlace (t := s') (i := index + 1) (by omega)
    have hfew' : s'.blocks.size ≤ 4294967296 := by
      have hpushed : s'.blocks.size = s.blocks.size + 1 := Array.size_push _
      omega
    obtain ⟨hp, hsame⟩ | ⟨hlater, hbelow⟩ := ih hfew' h
    · rw [hsame, hp, hblk]
      exact .inr ⟨Nat.lt_succ_self index, hoff⟩
    · exact .inr ⟨by omega, hbelow⟩

theorem copyFrom_ok (hblk : source.block ≠ target.block)
    (h : (s.copyFrom source target done count).1 = true) {i : Nat}
    (hfst : done ≤ i) (hlast : i < done + count) :
    ∃ p q, source.shift? i = some p ∧ target.shift? i = some q ∧
      (s.copyFrom source target done count).2.read? q = s.read? p := by
  induction count generalizing s done with
  | zero => omega
  | succ count ih =>
    rw [copyFrom] at h ⊢
    split at h
    case h_2 => cases h
    case h_1 v q hv hq =>
      split at h
      case isFalse => cases h
      case isTrue hthere =>
        obtain ⟨p, hp, hread⟩ := Option.bind_eq_some_iff.mp hv
        obtain ⟨htgt, hpl⟩ := Pointer.shift?_eq_some_iff.mp hq
        simp only [hthere, if_true]
        obtain rfl | hlater := Nat.eq_or_lt_of_le hfst
        · -- The rest goes to later places.
          refine ⟨p, q, hp, hq, ?_⟩
          rw [((s.set q v).alters_copyFrom source target (done + 1) count).words q
            fun hq => by omega, read?_set,
            if_pos ⟨rfl, hthere⟩, hread]
        · obtain ⟨p', q', hp', hq', hsame⟩ := ih h hlater (by omega)
          obtain ⟨hsource', -⟩ := Pointer.shift?_eq_some_iff.mp hp'
          refine ⟨p', q', hp', hq', hsame.trans (s.read?_set_ne ?_ v)⟩
          rintro rfl
          exact hblk (hsource'.symm.trans htgt)

theorem alters_vacate (s : Stack) (q : Pointer) : s.Alters (·.Among q 2) (s.vacate q) := by
  unfold vacate
  split
  · rename_i hthere
    obtain ⟨r, hr, -⟩ := (Option.any_eq_true _ _).mp hthere
    exact s.alters_set64 hr 0
  · exact .refl _ s

theorem cleared_vacate (hthere : s.contains64 q) (hp : p.Among q 2) :
    (s.vacate q).read? p = some 0 := by
  obtain ⟨r, hr, hfst, hlast⟩ := contains_of_contains64 hthere
  obtain ⟨-, hoff⟩ := Pointer.shift?_eq_some_iff.mp hr
  have hne : q ≠ r := by
    rintro rfl
    omega
  rw [vacate, if_pos hthere, set64, ← Pointer.shift?_one hr]
  obtain rfl | rfl := Pointer.eq_of_among hp hr
  · rw [read?_set_ne _ hne, read?_set, if_pos ⟨rfl, hfst⟩]
    rfl
  · rw [read?_set, contains_set, if_pos ⟨rfl, hlast⟩]
    rfl

theorem zero_vacate (h : s.read? p = some 0) (q : Pointer) : (s.vacate q).read? p = some 0 := by
  by_cases hp : p.Among q 2
  · by_cases hthere : s.contains64 q
    · exact cleared_vacate hthere hp
    · rwa [vacate, if_neg hthere]
  · rwa [(s.alters_vacate q).words p hp]

theorem alters_clearVars (s : Stack) (fp : Pointer) (vars : List ObjectVar) :
    s.Alters (·.InVars fp vars) (s.clearVars fp vars) := by
  induction vars generalizing s with
  | nil => exact .refl _ s
  | cons v vars ih =>
    refine .trans ?_ ((ih _).weaken ?_)
    · cases hq : fp.shift? (-v.offset.toInt) with
      | none => exact .refl _ s
      | some q => exact (s.alters_vacate q).weaken fun p hp => ⟨v, List.mem_cons_self, q, hq, hp⟩
    · rintro p ⟨w, hw, hpl⟩
      exact ⟨w, List.mem_cons_of_mem v hw, hpl⟩

theorem zero_clearVars (h : s.read? p = some 0) : (s.clearVars fp vars).read? p = some 0 := by
  induction vars generalizing s with
  | nil => exact h
  | cons v vars ih =>
    apply ih
    cases fp.shift? (-v.offset.toInt) with
    | none => exact h
    | some q => exact zero_vacate h q

theorem cleared_clearVars {v : ObjectVar} (hv : v ∈ vars)
    (hq : fp.shift? (-v.offset.toInt) = some q) (hthere : s.contains64 q)
    (hp : p.Among q 2) : (s.clearVars fp vars).read? p = some 0 := by
  induction vars generalizing s with
  | nil => cases hv
  | cons w vars ih =>
    obtain rfl | hv := List.mem_cons.mp hv
    · rw [clearVars, hq]
      exact zero_clearVars (cleared_vacate hthere hp)
    · apply ih hv
      cases fp.shift? (-w.offset.toInt) with
      | none => exact hthere
      | some r => rwa [Option.elim_some, contains64_of_layout (s.alters_vacate r).layout]

theorem null_clearVars {v : ObjectVar} (hv : v ∈ vars) (hq : fp.shift? (-v.offset.toInt) = some q)
    {w : UInt64} (h : (s.clearVars fp vars).read64? q = some w) : w = 0 := by
  have hthere := contains64_of_read64? h
  rw [contains64_of_layout (s.layout_clearVars fp vars)] at hthere
  obtain ⟨r, hr, -, -⟩ := read64?_eq_some h
  obtain ⟨hblk, hoff⟩ := Pointer.shift?_eq_some_iff.mp hr
  have hlow := cleared_clearVars hv hq hthere (p := q) ⟨rfl, by omega, by omega⟩
  have hhigh := cleared_clearVars hv hq hthere (p := r) ⟨hblk, by omega, by omega⟩
  simp only [read64?, hlow, hr, hhigh, Option.bind_eq_bind, Option.bind_some] at h
  cases h
  rfl

end Stack

namespace Exec

variable {callee : Func} {m m' : Machine} {fp : Pointer}

theorem placeArgs_ok (h : placeArgs callee m = .ok fp m') :
    let grown :=
      m.ctx.stack.grow m.ctx.sp (callee.stackNeeded.toNat + Context.reserve) callee.argWords
    grown.1 = .ok fp ∧
      (fp = m.ctx.sp ∧ m'.ctx.stack = grown.2 ∨
        fp ≠ m.ctx.sp ∧ (grown.2.copy m.ctx.sp fp callee.argWords).1 = true ∧
          m'.ctx.stack = (grown.2.copy m.ctx.sp fp callee.argWords).2) := by
  intro grown
  have hplaces := placeArgs_cases callee m
  rw [h] at hplaces
  cases hplaces with
  | here hgrow =>
    rw [show grown = _ from hgrow]
    exact ⟨rfl, .inl ⟨rfl, rfl⟩⟩
  | moved hne hgrow hcopy =>
    rw [show grown = _ from hgrow, hcopy]
    exact ⟨rfl, .inr ⟨hne, rfl, rfl⟩⟩

theorem room_placeArgs (h : placeArgs callee m = .ok fp m') :
    callee.stackNeeded.toNat + Context.reserve ≤ fp.offset.toNat :=
  Stack.room_growFrom (placeArgs_ok h).1

/-- The words that were there stay, and the arguments are found again, in the same place or in a
later block. -/
theorem placeArgs_words (hfew : m.ctx.stack.blocks.size ≤ 4294967296)
    (h : placeArgs callee m = .ok fp m') :
    (∀ p v, p.block ≤ m.ctx.sp.block → m.ctx.stack.read? p = some v → m'.ctx.stack.read? p = some v) ∧
      (∀ i < callee.argWords, ∀ p v, m.ctx.sp.shift? i = some p → m.ctx.stack.read? p = some v →
        ∃ q, fp.shift? i = some q ∧ m'.ctx.stack.read? q = some v) ∧
      (fp = m.ctx.sp ∧ m'.ctx.stack.layout = m.ctx.stack.layout ∨
        m.ctx.sp.block < fp.block ∧ fp.offset.toNat ≤ m'.ctx.stack.blockSize fp.block.toNat) := by
  obtain ⟨hfd, hplaced⟩ := placeArgs_ok h
  have hkept :=
    Stack.extends_growFrom m.ctx.stack (callee.stackNeeded.toNat + Context.reserve) callee.argWords
    m.ctx.sp.block.toNat m.ctx.sp
  obtain ⟨rfl, hstk⟩ | ⟨hmoved, hcopied, hstk⟩ := hplaced
  · obtain ⟨-, hsame⟩ | ⟨hlater, -⟩ := Stack.growFrom_ok hfew hfd
    · rw [hstk, Stack.grow, hsame]
      exact ⟨fun _ _ _ hv => hv, fun _ _ p _ hp hv => ⟨p, hp, hv⟩, .inl ⟨rfl, rfl⟩⟩
    · exact absurd hlater (Nat.lt_irrefl _)
  · obtain ⟨hsame, -⟩ | ⟨hlater, hbelow⟩ := Stack.growFrom_ok hfew hfd
    · exact absurd hsame hmoved
    · have hblk : m.ctx.sp.block ≠ fp.block := fun heq => absurd hlater (by simp [heq])
      rw [hstk]
      refine ⟨fun p v hp hv => ?_, fun i hi p v hp hv => ?_, .inr ⟨hlater, ?_⟩⟩
      · rw [(Stack.alters_copy _ m.ctx.sp fp callee.argWords).words p ?_]
        · exact hkept.words p v hv
        · intro hwithin
          have hle : p.block.toNat ≤ m.ctx.sp.block.toNat := hp
          rw [hwithin.block] at hle
          omega
      · obtain ⟨p', q, hp', hq, hcopy⟩ := Stack.copyFrom_ok hblk hcopied (Nat.zero_le i) (by omega)
        obtain rfl : p' = p := Option.some.inj (hp'.symm.trans hp)
        exact ⟨q, hq, hcopy.trans (hkept.words p' v hv)⟩
      · rwa [Stack.blockSize_of_layout (Stack.layout_copy ..)]

theorem callScript_ok (h : callScript callee m = .ok () m') :
    ∃ m1, placeArgs callee m = .ok m'.ctx.fp m1 ∧
      m'.ctx.stack = m1.ctx.stack.clearVars m'.ctx.fp callee.objectVars ∧
      m'.ctx.fp.shift? (-callee.locals.toNat) = some m'.ctx.sp ∧ m'.ctx.pc = 0 ∧
        m'.ctx.function = some callee := by
  have hcases := callScript_cases callee m
  rw [h] at hcases
  cases hcases with
  | @begun fp _ m1 caller hpl hf hsp =>
    have hctx := saved_ctx m1 caller m.ctx.stack.current (moduleOf? m1 callee) fp
    rw [Machine.entered, Machine.clearObjectVars_eq]
    exact ⟨m1, hpl, congrArg (fun c => c.stack.clearVars fp callee.objectVars) hctx, hsp, rfl, rfl⟩

/-- What a callee finds. Each word that was pushed for it and is there is its argument at the same
distance from the frame pointer, and its object variables are null. Its frame is at the top of the
stack or in a later block, and its offset has room for the words the callee needs and the reserve;
all of these words are in the block exactly if the frame is in a later one or the top was not past
the end of its own. No other word of the blocks up to the caller's changes. Numbers of blocks are
words. -/
theorem callScript_hands_over (hvars : callee.VarsBelow)
    (hfew : m.ctx.stack.blocks.size ≤ 4294967296) (h : callScript callee m = .ok () m') :
    (∀ i < callee.argWords, ∀ p v, m.ctx.sp.shift? i = some p → m.ctx.stack.read? p = some v →
        ∃ q, m'.ctx.fp.shift? i = some q ∧ m'.ctx.stack.read? q = some v) ∧
      (∀ v ∈ callee.objectVars, ∀ q w,
        m'.ctx.fp.shift? (-v.offset.toInt) = some q → m'.ctx.stack.read64? q = some w → w = 0) ∧
      (m'.ctx.fp = m.ctx.sp ∨ m.ctx.sp.block < m'.ctx.fp.block) ∧
      callee.stackNeeded.toNat + Context.reserve ≤ m'.ctx.fp.offset.toNat ∧
      (m'.ctx.stack.RoomBelow m'.ctx.fp (callee.stackNeeded.toNat + Context.reserve) ↔
        m.ctx.sp.block < m'.ctx.fp.block ∨
          m.ctx.sp.offset.toNat ≤ m.ctx.stack.blockSize m.ctx.sp.block.toNat) ∧
      ∀ p v, p.block ≤ m.ctx.sp.block → ¬ p.InVars m'.ctx.fp callee.objectVars →
        m.ctx.stack.read? p = some v →
        m'.ctx.stack.read? p = some v := by
  obtain ⟨m1, hplace, hstack, -, -, -⟩ := callScript_ok h
  obtain ⟨hwords, hargs, hplaced⟩ := placeArgs_words hfew hplace
  have hroom := room_placeArgs hplace
  have hclear := m1.ctx.stack.alters_clearVars m'.ctx.fp callee.objectVars
  have hsize : m'.ctx.stack.blockSize = m1.ctx.stack.blockSize := by
    funext i
    rw [hstack, Stack.blockSize_of_layout hclear.layout]
  refine ⟨?_, ?_, hplaced.imp And.left And.left, hroom, ?_, ?_⟩
  · intro i hi p v hp hv
    obtain ⟨q, hq, hfound⟩ := hargs i hi p v hp hv
    obtain ⟨hblock, hoffset⟩ := Pointer.shift?_eq_some_iff.mp hq
    have harg : q.AtArgs m'.ctx.fp := ⟨hblock, by omega⟩
    refine ⟨q, hq, ?_⟩
    rw [hstack, hclear.words q (harg.not_inVars hvars), hfound]
  · intro v hv q w hq hw
    rw [hstack] at hw
    exact Stack.null_clearVars hv hq hw
  · rw [Stack.RoomBelow, hsize, and_iff_right hroom]
    obtain ⟨hsame, hlayout⟩ | ⟨hlater, hbelow⟩ := hplaced
    · rw [hsame, Stack.blockSize_of_layout hlayout]
      simp
    · simp [hlater, hbelow]
  · intro p v hp hout hv
    rw [hstack, hclear.words p hout]
    exact hwords p v hp hv

/-- Takes two words and an object variable to a block of its own. -/
def farther : Func :=
  { id := ⟨1⟩, module := some ⟨1⟩, name := "farther", signature := .ofTypes .void [.int, .int],
    locals := 4, stackNeeded := 1500
    objectVars := [{ offset := 3, type := ⟨1⟩ }], code := #[.ret 2] }

def giving : Func :=
  { id := ⟨2⟩, module := some ⟨1⟩, name := "giving", stackNeeded := 1024
    code := #[.pushQword 0x200000001, .call ⟨1⟩, .ret 0] }

def begun (f g : Func) : Machine :=
  after (step (runNested (execute 0)))
    (after (startRun (runNested (execute 0))) (after (prepare ⟨2⟩) (loaded [f, g])))

/-- The words go to the second block, and stay in the first one. -/
theorem callScript_hands_over_farther :
    farther.VarsBelow ∧ (begun farther giving).ctx.sp = { offset := 1026 } ∧
      (after (callScript farther) (begun farther giving)).ctx.fp = { block := 1, offset := 2054 } ∧
      (after (callScript farther) (begun farther giving)).ctx.stack.read?
        { block := 1, offset := 2054 } = some 1 ∧
      (after (callScript farther) (begun farther giving)).ctx.stack.read?
        { block := 1, offset := 2055 } = some 2 ∧
      (after (callScript farther) (begun farther giving)).ctx.stack.read? { offset := 1027 } =
        some 2 ∧
      (after (callScript farther) (begun farther giving)).ctx.stack.RoomBelow
        { block := 1, offset := 2054 } 1504 := by
  have hvars : farther.VarsBelow := by decide
  have hcall : callScript farther (begun farther giving) =
      .ok () (after (callScript farther) (begun farther giving)) :=
    ok_of_value (by decide +kernel)
  have hsp : (begun farther giving).ctx.sp = { offset := 1026 } := by decide +kernel
  have hfp : (after (callScript farther) (begun farther giving)).ctx.fp =
      { block := 1, offset := 2054 } := by decide +kernel
  have hlow : (begun farther giving).ctx.stack.read? { offset := 1026 } = some 1 := by decide +kernel
  have hhigh : (begun farther giving).ctx.stack.read? { offset := 1027 } = some 2 := by
    decide +kernel
  obtain ⟨hargs, -, -, -, hroom, hkept⟩ := callScript_hands_over hvars (by decide +kernel) hcall
  rw [hfp] at hargs hroom hkept
  rw [hsp] at hargs hroom hkept
  obtain ⟨_, hfirst, hone⟩ := hargs 0 (by decide) { offset := 1026 } 1 (by decide) hlow
  obtain ⟨_, hsecond, htwo⟩ := hargs 1 (by decide) { offset := 1027 } 2 (by decide) hhigh
  obtain rfl := Option.some.inj hfirst
  obtain rfl := Option.some.inj hsecond
  refine ⟨hvars, hsp, hfp, hone, htwo, hkept { offset := 1027 } 2 (by decide) ?_ hhigh,
    hroom.mpr (.inl (by decide))⟩
  rintro ⟨v, hv, q, hq, hwithin⟩
  obtain ⟨hblock, -⟩ := Pointer.shift?_eq_some_iff.mp hq
  exact absurd (hwithin.block.trans hblock) (by decide)

/-- Has a hundred locals and sets the last of them. -/
def deep : Func :=
  { id := ⟨1⟩, module := some ⟨1⟩, name := "deep", locals := 100, stackNeeded := 100,
    code := #[.setVar 100 7, .ret 0] }

/-- Discards more words than there are before it calls. -/
def discarding : Func :=
  { id := ⟨2⟩, module := some ⟨1⟩, name := "discarding", code := #[.pop 2000, .call ⟨1⟩, .ret 0] }

theorem discarding_reachable : Reachable (begun deep discarding) :=
  (((loaded_reachable [deep, discarding]).prepare ⟨2⟩).start 0).step (by decide +kernel) 0
    (ok_of_value (a := .go) (by decide +kernel))

/-- A call from past the end of a block succeeds there, though the block has none of the words the
callee uses. -/
theorem deep_without_room :
    Reachable (begun deep discarding) ∧ deep.VarsBelow ∧ deep.locals ≤ deep.stackNeeded ∧
      (begun deep discarding).ctx.sp = { offset := 3024 } ∧
      callScript deep (begun deep discarding) =
        .ok () (after (callScript deep) (begun deep discarding)) ∧
      (after (callScript deep) (begun deep discarding)).ctx.fp = { offset := 3024 } ∧
      (after (callScript deep) (begun deep discarding)).ctx.stack.blockSize 0 = 1024 ∧
      ¬ (after (callScript deep) (begun deep discarding)).ctx.stack.RoomBelow
        { offset := 3024 } 104 := by
  refine ⟨discarding_reachable, by decide, by decide, ?_, ok_of_value ?_, ?_, ?_, ?_⟩
  all_goals decide +kernel

end Exec
end ScriptVm
