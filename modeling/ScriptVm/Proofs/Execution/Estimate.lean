import Mathlib.Algebra.Order.BigOperators.Group.Finset
import ScriptVm.Proofs.Execution.Balance
import ScriptVm.Proofs.Execution.Entering
import ScriptVm.Proofs.Execution.Sinking
import ScriptVm.Proofs.Session.Ceiling

namespace ScriptVm

/-- The place is at most so many words below another one in its block. -/
def Pointer.Within (p fp : Pointer) (words : Nat) : Prop :=
  p.block = fp.block ∧ fp.offset.toNat ≤ p.offset.toNat + words

theorem Pointer.Within.trans {p q r : Pointer} {j k : Nat} (h : p.Within q j) (h' : q.Within r k) :
    p.Within r (k + j) := by
  have hj := h.2
  have hk := h'.2
  exact ⟨h.1.trans h'.1, by omega⟩

/-- How far the top is below the frame pointer. -/
def Context.depth (c : Context) : Int := c.fp.offset.toNat - c.sp.offset.toNat

namespace Func

def pushedAt (f : Func) (pc : Nat) : Nat := (f.code[pc]?.map Instr.pushedWords).getD 0

theorem total_eq_sum {α : Type} (count : α → Nat) (l : List α) :
    total count l = ∑ i ∈ Finset.range l.length, (l[i]?.map count).getD 0 := by
  induction l with
  | nil => rfl
  | cons a l ih =>
    rw [List.length_cons, Finset.sum_range_succ', Nat.add_comm]
    exact congrArg (count a + ·) ih

theorem sum_pushedAt_le (f : Func) (S : Finset Nat) :
    ∑ pc ∈ S, f.pushedAt pc ≤ total Instr.pushedWords f.code.toList := by
  rw [total_eq_sum]
  have hlist (pc : Nat) : f.pushedAt pc = (f.code.toList[pc]?.map Instr.pushedWords).getD 0 := by
    rw [pushedAt, Array.getElem?_toList]
  simp only [hlist]
  refine Finset.sum_le_sum_of_ne_zero fun pc _ hpc =>
    Finset.mem_range.mpr (Nat.lt_of_not_le fun hle => hpc ?_)
  rw [List.getElem?_eq_none hle]
  rfl

theorem stackNeeded_of_settle? {f g : Func} (h : g.settle? none = some f) :
    f.stackNeeded.toNat = estimate f.locals f.code := by
  obtain ⟨words, hws, rfl⟩ := Option.map_eq_some_iff.mp h
  exact toNat_word? hws

end Func

namespace Exec

open Context

variable {f : Func} {base : CallStack} {fp : Pointer} {words : Nat} {m m' : Machine}
    {flow : Flow} {n : Nat}
variable {visits : List Machine}

theorem callBase?_within {i : Instr} {sp saved : Pointer} (h : i.callBase? sp = some saved) :
    saved.Within sp i.pushedWords := by
  cases i with
  | alloc type constructor =>
    obtain ⟨hblk, hoff⟩ := Pointer.shift?_eq_some_iff.mp h
    exact ⟨hblk, show sp.offset.toNat ≤ saved.offset.toNat + 2 by omega⟩
  | _ =>
    cases h
    exact ⟨rfl, Nat.le_add_right _ _⟩

/-- A return ends the run if there is no caller. Else the caller is back in its frame, and its top
is not below the saved one, also if it is out of range with the words that are discarded. -/
theorem return_step {nested : Nested} {discarded : UInt16}
    (hfetch : fetch? m.ctx = some (.ret discarded)) (h : step nested m = .ok flow m') :
    m.ctx.calls.pop? = none ∧ m'.ctx = { m.ctx.advance with state := .finished } ∨
      ∃ frame calls, m.ctx.calls.pop? = some (frame, calls) ∧ m'.ctx.calls = calls ∧
        m'.ctx.function = some frame.function ∧
        m'.ctx.fp = frame.fp ∧ m'.ctx.sp.Within frame.sp 0 := by
  rw [step_eq _ hfetch] at h
  cases hpop : m.ctx.calls.pop? with
  | none =>
    have hexec := exec_ret_outermost nested discarded (m := m.onContext Context.advance) hpop
    rw [raising_of_ok hexec] at h
    cases h
    exact .inl ⟨rfl, rfl⟩
  | some popped =>
    obtain ⟨frame, calls⟩ := popped
    have hexec := exec_ret_caller nested discarded (m := m.onContext Context.advance) hpop
    have hback := restore_ctx (m.onContext Context.advance) frame calls
    refine .inr ⟨frame, calls, rfl, ?_⟩
    cases hsp : frame.sp.shift? discarded.toNat with
    | none =>
      rw [hsp] at hexec
      rw [raising, hexec] at h
      cases h
      rw [raise_ctx, hback]
      exact ⟨rfl, rfl, rfl, rfl, Nat.le_refl _⟩
    | some sp =>
      obtain ⟨hblk, hoff⟩ := Pointer.shift?_eq_some_iff.mp hsp
      rw [hsp] at hexec
      rw [raising_of_ok hexec] at h
      cases h
      show Context.calls { (Machine.restore _ frame calls).ctx with sp } = calls ∧ _
      rw [hback]
      exact ⟨rfl, rfl, rfl, hblk, show frame.sp.offset.toNat ≤ sp.offset.toNat + 0 by omega⟩

def nextWords (c : Context) : Nat := ((fetch? c).map Instr.pushedWords).getD 0

theorem nextWords_eq {c : Context} (hf : c.function = some f) : nextWords c = f.pushedAt c.pc := by
  rw [nextWords, fetch?, hf]
  rfl

theorem nextWords_of_fetch {c : Context} {i : Instr} (hfetch : fetch? c = some i) :
    nextWords c = i.pushedWords := by
  rw [nextWords, hfetch]
  rfl

theorem step_sinks (hret : ∀ discarded, fetch? m.ctx ≠ some (.ret discarded))
    (h : step (runNested (execute n)) m = .ok flow m') : Sinks (nextWords m.ctx) m.ctx m'.ctx := by
  have hraise (m : Machine) (fault : Fault) : Sinks 0 m.ctx (m.raise fault).ctx := by
    rw [raise_ctx]
    exact sinks_of_top rfl rfl
  cases hfetch : fetch? m.ctx with
  | none =>
    rw [step_no_instr _ hfetch] at h
    cases h
    exact (hraise (m.onContext Context.advance) .badCode).mono (Nat.zero_le _)
  | some i =>
    have hexec := lowers_exec (runNested (execute n))
      (fun discarded hi => hret discarded (hi ▸ hfetch)) (m.onContext Context.advance)
    rw [step_eq _ hfetch] at h
    rw [nextWords_of_fetch hfetch]
    obtain hok | ⟨fault, m1, herr, -, rfl⟩ := raising_ok h
    · rw [after_of_ok hok] at hexec
      exact hexec
    · rw [after_of_error herr] at hexec
      exact hexec.trans (hraise m1 fault)

theorem size_of_pop {calls rest : CallStack} {frame : Frame} (h : calls.pop? = some (frame, rest)) :
    calls.size = rest.size + 1 :=
  congrArg List.length (frames_of_pop h)

theorem step_back (h : step (runNested (execute n)) m = .ok flow m')
    (hfewer : m'.ctx.calls.size < m.ctx.calls.size) :
    ∃ frame calls, m.ctx.calls.pop? = some (frame, calls) ∧ m'.ctx.calls = calls ∧
      m'.ctx.function = some frame.function ∧
      m'.ctx.fp = frame.fp ∧ m'.ctx.sp.Within frame.sp 0 := by
  by_cases hret : ∃ discarded, fetch? m.ctx = some (.ret discarded)
  · obtain ⟨discarded, hfetch⟩ := hret
    obtain ⟨-, hend⟩ | hback := return_step hfetch h
    · rw [hend] at hfewer
      exact absurd hfewer (Nat.lt_irrefl _)
    · exact hback
  · obtain hdeep | ⟨hcl, -, -⟩ := step_sinks (fun discarded hfetch => hret ⟨discarded, hfetch⟩) h
    · omega
    · rw [hcl] at hfewer
      exact absurd hfewer (Nat.lt_irrefl _)

theorem step_stays (h : step (runNested (execute n)) m = .ok flow m')
    (hsize : m'.ctx.calls.size = m.ctx.calls.size) :
    m'.ctx.calls = m.ctx.calls ∧ m'.ctx.sp.Within m.ctx.sp (nextWords m.ctx) := by
  by_cases hret : ∃ discarded, fetch? m.ctx = some (.ret discarded)
  · obtain ⟨discarded, hfetch⟩ := hret
    obtain ⟨-, hend⟩ | ⟨frame, calls, hpop, hcl, -⟩ := return_step hfetch h
    · rw [hend]
      exact ⟨rfl, rfl, Nat.le_add_right _ _⟩
    · have hpopped := size_of_pop hpop
      rw [hcl] at hsize
      omega
  · obtain hdeep | ⟨hcl, hblk, hoff⟩ :=
      step_sinks (fun discarded hfetch => hret ⟨discarded, hfetch⟩) h
    · omega
    · exact ⟨hcl, hblk, hoff⟩

/-- A frame of the function on top of the callers `base` is the current one, or it is saved. Its top
is at most so many words below its frame pointer. -/
inductive FrameAt (f : Func) (base : CallStack) (fp : Pointer) (words : Nat)
    (c : Context) : Prop where
  | current (hcalls : c.calls = base) (hf : c.function = some f) (hfp : c.fp = fp)
      (htop : c.sp.Within fp words)
  | saved {frame : Frame} (hheld : Holds base frame c.calls) (hf : frame.function = f)
      (hfp : frame.fp = fp) (htop : frame.sp.Within fp words)

theorem frameAt_own (hf : m.ctx.function = some f) (htop : m.ctx.sp.Within m.ctx.fp words)
    (h : step (runNested (execute n)) m = .ok flow m')
    (hstays : m.ctx.calls.size ≤ m'.ctx.calls.size) :
    FrameAt f m.ctx.calls m.ctx.fp (words + f.pushedAt m.ctx.pc) m'.ctx := by
  rw [← nextWords_eq hf]
  have hstill (hctl : m'.ctx.calls = m.ctx.calls ∧ m'.ctx.function = m.ctx.function ∧
      m'.ctx.fp = m.ctx.fp) :
      FrameAt f m.ctx.calls m.ctx.fp (words + nextWords m.ctx) m'.ctx := by
    obtain ⟨hcl, hfn, hfp⟩ := hctl
    exact .current hcl (hfn.trans hf) hfp ((step_stays h (congrArg CallStack.size hcl)).2.trans htop)
  cases hfetch : fetch? m.ctx with
  | none =>
    rw [step_no_instr _ hfetch] at h
    cases h
    refine hstill ?_
    rw [raise_ctx]
    exact ⟨rfl, rfl, rfl⟩
  | some i =>
    cases step_transfer _ hfetch h with
    | stay hctl _ | jump hctl _ _ =>
      exact hstill ⟨congrArg Control.calls hctl, congrArg Control.function hctl,
        congrArg Control.fp hctl⟩
    | @enter caller saved hclr hsp _ hcl _ _ =>
      obtain rfl := Option.some.inj (hf.symm.trans hclr)
      rw [nextWords_of_fetch hfetch]
      have hheld : Holds m.ctx.calls (m.ctx.advance.frame f saved) m'.ctx.calls :=
        ⟨[], congrArg CallStack.frames hcl⟩
      exact .saved hheld rfl rfl ((callBase?_within hsp).trans htop)
    | leave hpop hcl _ _ _ =>
      have hpopped : m.ctx.calls.size = _ := size_of_pop hpop
      rw [hcl] at hstays
      omega

theorem frameAt_back (hm : FrameAt f base fp words m.ctx) (hinner : base.size < m.ctx.calls.size)
    (h : step (runNested (execute n)) m = .ok flow m') (hback : m'.ctx.calls.size = base.size) :
    FrameAt f base fp words m'.ctx := by
  cases hm with
  | current hcl =>
    rw [hcl] at hinner
    exact absurd hinner (Nat.lt_irrefl _)
  | saved hheld hf hfp htop =>
    obtain ⟨frame, calls, hpop, hcl, hfn, hfr, hsp⟩ := step_back h (by omega)
    -- If another frame were popped, that of the function would still be saved.
    obtain ⟨rfl, rfl⟩ | hdeep := holds_pop hheld hpop
    · exact .current hcl (by rw [hfn, hf]) (hfr.trans hfp) (hsp.trans htop)
    · have hlt := holds_size hdeep
      rw [hcl] at hback
      omega

theorem frameAt_inner (hm : FrameAt f base fp words m.ctx) (hinner : base.size < m.ctx.calls.size)
    (h : Move m m') (hdepth : base.size < m'.ctx.calls.size) : FrameAt f base fp words m'.ctx := by
  cases hm with
  | current hcl =>
    rw [hcl] at hinner
    exact absurd hinner (Nat.lt_irrefl _)
  | saved hheld hf hfp htop => exact .saved (move_holds h hheld hdepth) hf hfp htop

theorem frameAt_idle (hm : FrameAt f base fp words m.ctx) (hctl : m'.ctx.control = m.ctx.control)
    (hsp : m'.ctx.sp = m.ctx.sp) : FrameAt f base fp words m'.ctx := by
  have hsame : m'.ctx.calls = m.ctx.calls := congrArg Control.calls hctl
  cases hm with
  | current hcl hf hfp htop =>
    exact .current (hsame.trans hcl) ((congrArg Control.function hctl).trans hf)
      ((congrArg Control.fp hctl).trans hfp)
      (hsp ▸ htop)
  | saved hheld hf hfp htop => exact .saved (hsame ▸ hheld) hf hfp htop

/-- A function is entered: it is called, prepared as the first function, or found as the
implementation of the one that was prepared. -/
inductive Begins (f : Func) (m' : Machine) : Prop where
  | call {m : Machine} (h : callScript f m = .ok () m')
  | prepare {m : Machine} {g : Func} (h : prepareFunction g m = .ok () m')
      (hf : m'.ctx.function = some f)
  | method {m : Machine} (h : beginMethod f m = .ok () m') (hactive : m'.ctx.state = .active)

theorem within_robust (words : Nat) : Machine.Robust fun m => m.ctx.sp.Within m.ctx.fp words where
  giveUp h _ := h
  release h _ := h
  setWords h p v := by
    unfold Machine.setWords
    split
    · exact h
    · exact h

theorem within_layoutEntry (h : layoutEntry f m = .ok () m') :
    m'.ctx.sp.Within m'.ctx.fp f.locals.toNat := by
  obtain ⟨-, rfl⟩ := laidOut_of_layoutEntry h
  have hlocs (locals offset : UInt32) :
      offset.toNat ≤ (offset - min locals offset).toNat + locals.toNat := by
    by_cases hle : locals ≤ offset
    · rw [show min locals offset = locals from if_pos hle, UInt32.toNat_sub_of_le _ _ hle]
      omega
    · have hlt : ¬ locals.toNat ≤ offset.toNat := hle
      omega
  exact ⟨rfl, hlocs _ _⟩

theorem within_beginMethod (h : beginMethod f m = .ok () m') (hact : m'.ctx.state = .active) :
    m'.ctx.function = some f ∧ m'.ctx.sp.Within m'.ctx.fp f.locals.toNat := by
  obtain ⟨_, m1, -, h⟩ := bind_ok h
  obtain ⟨_, m2, -, h⟩ := bind_ok h
  replace h := ctx_ok h
  split at h
  · cases h
    rw [raise_ctx] at hact
    cases hact
  · rename_i hroom
    obtain ⟨_, m4, hmod, h⟩ := bind_ok h
    cases hmod
    obtain ⟨_, m5, hpl, h⟩ := bind_ok h
    cases hpl
    obtain ⟨_, m6, hclear, h⟩ := bind_ok h
    cases hclear
    cases h
    have hfp : (m2.setModule (liveModuleOf? m2 f)).ctx.fp = m2.ctx.fp := by rw [m2.setModule_ctx]
    have hle : f.locals ≤ m2.ctx.fp.offset := UInt32.le_iff_toNat_le.mpr (by omega)
    refine ⟨rfl, (within_robust _).clearObjectVars ⟨rfl, ?_⟩ f⟩
    show (m2.setModule (liveModuleOf? m2 f)).ctx.fp.offset.toNat ≤
      ((m2.setModule (liveModuleOf? m2 f)).ctx.fp.offset - f.locals).toNat + f.locals.toNat
    rw [hfp, UInt32.toNat_sub_of_le _ _ hle]
    omega

theorem Begins.within (h : Begins f m) :
    m.ctx.function = some f ∧ m.ctx.sp.Within m.ctx.fp f.locals.toNat := by
  cases h with
  | call h =>
    obtain ⟨-, -, -, hsp, -, hf⟩ := callScript_ok h
    obtain ⟨hblk, hoff⟩ := Pointer.shift?_eq_some_iff.mp hsp
    exact ⟨hf, hblk, by omega⟩
  | prepare h hf =>
    obtain ⟨entry, m1, -, h⟩ := bind_ok (requireIdle_ok h)
    obtain ⟨_, m2, -, h⟩ := bind_ok h
    obtain ⟨_, m3, hlyt, h⟩ := bind_ok h
    obtain ⟨_, m4, hmod, h⟩ := bind_ok h
    cases hmod
    cases h
    obtain rfl : entry = f := Option.some.inj hf
    have htop := within_layoutEntry hlyt
    have hsp : (m3.setModule (liveModuleOf? m3 entry)).ctx.sp = m3.ctx.sp := by rw [m3.setModule_ctx]
    have hfp : (m3.setModule (liveModuleOf? m3 entry)).ctx.fp = m3.ctx.fp := by rw [m3.setModule_ctx]
    rw [← hsp, ← hfp] at htop
    exact ⟨rfl, htop⟩
  | method h hact => exact within_beginMethod h hact

/-- A frame of a function runs on top of the callers `base`. The list has the machines at which an
instruction of the frame was next, the last one first; what its callees do is left out. -/
inductive FrameRun (f : Func) (base : CallStack) : List Machine → Machine → Prop where
  | begins {m : Machine} (h : Begins f m) (hcalls : m.ctx.calls = base) : FrameRun f base [] m
  | own {visits : List Machine} {m m' : Machine} {n : Nat} {flow : Flow}
      (h : FrameRun f base visits m) (hcurrent : m.ctx.calls.size = base.size)
      (hstep : step (runNested (execute n)) m = .ok flow m')
      (hstays : base.size ≤ m'.ctx.calls.size) : FrameRun f base (m :: visits) m'
  | inner {visits : List Machine} {m m' : Machine} (h : FrameRun f base visits m)
      (hinner : base.size < m.ctx.calls.size) (hmove : Move m m')
      (hdepth : base.size < m'.ctx.calls.size) : FrameRun f base visits m'
  | back {visits : List Machine} {m m' : Machine} {n : Nat} {flow : Flow}
      (h : FrameRun f base visits m) (hinner : base.size < m.ctx.calls.size)
      (hstep : step (runNested (execute n)) m = .ok flow m')
      (hback : m'.ctx.calls.size = base.size) : FrameRun f base visits m'
  /-- The run pauses or goes on, arguments are set, or other contexts run. -/
  | idle {visits : List Machine} {m m' : Machine} (h : FrameRun f base visits m)
      (hcontrol : m'.ctx.control = m.ctx.control) (hsp : m'.ctx.sp = m.ctx.sp) :
    FrameRun f base visits m'

/-- The frame is equally deep whenever it comes to the same instruction. -/
def SameDepths (visits : List Machine) : Prop :=
  ∀ a ∈ visits, ∀ b ∈ visits, a.ctx.pc = b.ctx.pc → a.ctx.depth = b.ctx.depth

/-- Instructions that were visited. -/
def Visited (visits : List Machine) (S : Finset Nat) : Prop := ∀ pc ∈ S, ∃ v ∈ visits, v.ctx.pc = pc

/-- The machine is no deeper than what instructions add that were visited, all different from each
other and from the one that is next. -/
def Shortened (f : Func) (visits : List Machine) (m : Machine) : Prop :=
  ∃ S, Visited visits S ∧ m.ctx.pc ∉ S ∧
    m.ctx.depth ≤ (f.locals.toNat + ∑ pc ∈ S, f.pushedAt pc : Nat)

theorem Visited.cons {visits : List Machine} {S : Finset Nat} (h : Visited visits S) (v : Machine) :
    Visited (v :: visits) S := by
  intro pc hpc
  obtain ⟨u, hu, hat⟩ := h pc hpc
  exact ⟨u, List.mem_cons_of_mem v hu, hat⟩

theorem Visited.insert {S : Finset Nat} (h : Visited visits S) (v : Machine) :
    Visited (v :: visits) (insert v.ctx.pc S) := by
  intro pc hpc
  obtain rfl | hpc := Finset.mem_insert.mp hpc
  · exact ⟨v, List.mem_cons_self, rfl⟩
  · exact h.cons v pc hpc

theorem Shortened.cons {visits : List Machine} (h : Shortened f visits m) (v : Machine) :
    Shortened f (v :: visits) m := by
  obtain ⟨S, hvis, hnew, hdepth⟩ := h
  exact ⟨S, hvis.cons v, hnew, hdepth⟩

/-- The way to the next instruction is cut short if it was visited before. -/
theorem shortened_next {T : Finset Nat} (hsame : SameDepths (m :: visits))
    (hall : ∀ v ∈ visits, Shortened f visits v) (hT : Visited visits T)
    (htop : m.ctx.sp.Within m.ctx.fp (f.locals.toNat + ∑ pc ∈ T, f.pushedAt pc)) :
    Shortened f visits m := by
  by_cases hseen : ∃ v ∈ visits, v.ctx.pc = m.ctx.pc
  · obtain ⟨v, hv, hpc⟩ := hseen
    obtain ⟨S, hvis, hnew, hdepth⟩ := hall v hv
    have heq := hsame v (List.mem_cons_of_mem m hv) m List.mem_cons_self hpc
    exact ⟨S, hvis, hpc ▸ hnew, heq ▸ hdepth⟩
  · refine ⟨T, hT, fun hmem => hseen (hT _ hmem), ?_⟩
    have hoff := htop.2
    unfold Context.depth
    omega

/-- What a run keeps: every machine at which an instruction was next is shortened, and the frame is
no deeper than what different instructions have added that were visited. -/
theorem frameRun_shortened (h : FrameRun f base visits m) (hsame : SameDepths visits) :
    (∀ v ∈ visits, Shortened f visits v) ∧
      ∃ fp T, Visited visits T ∧
        FrameAt f base fp (f.locals.toNat + ∑ pc ∈ T, f.pushedAt pc) m.ctx := by
  induction h with
  | @begins m h hcl =>
    obtain ⟨hf, htop⟩ := h.within
    refine ⟨fun v hv => absurd hv List.not_mem_nil, m.ctx.fp, ∅,
      fun pc hpc => absurd hpc (Finset.notMem_empty pc), ?_⟩
    exact .current hcl hf rfl htop
  | @own visits m m' n flow h hcur hstep hstays ih =>
    obtain ⟨hall, fp, T, hT, hfr⟩ :=
      ih fun a ha b hb => hsame a (List.mem_cons_of_mem m ha) b (List.mem_cons_of_mem m hb)
    cases hfr with
    | saved hheld =>
      have hlt := holds_size hheld
      omega
    | current hcl hf hfp htop =>
      subst hfp hcl
      obtain ⟨S, hvis, hnew, hdepth⟩ := shortened_next hsame hall hT htop
      have htop' : m.ctx.sp.Within m.ctx.fp (f.locals.toNat + ∑ pc ∈ S, f.pushedAt pc) := by
        unfold Context.depth at hdepth
        exact ⟨htop.1, by omega⟩
      have hfr := frameAt_own hf htop' hstep hstays
      rw [Nat.add_assoc, Nat.add_comm (∑ pc ∈ S, f.pushedAt pc), ← Finset.sum_insert hnew] at hfr
      refine ⟨fun v hv => ?_, m.ctx.fp, insert m.ctx.pc S, hvis.insert m, hfr⟩
      obtain rfl | hv := List.mem_cons.mp hv
      · exact Shortened.cons ⟨S, hvis, hnew, hdepth⟩ _
      · exact (hall v hv).cons m
  | inner h hinner hmove hdepth ih =>
    obtain ⟨hall, fp, T, hT, hfr⟩ := ih hsame
    exact ⟨hall, fp, T, hT, frameAt_inner hfr hinner hmove hdepth⟩
  | back h hinner hstep hback ih =>
    obtain ⟨hall, fp, T, hT, hfr⟩ := ih hsame
    exact ⟨hall, fp, T, hT, frameAt_back hfr hinner hstep hback⟩
  | idle h hctl hsp ih =>
    obtain ⟨hall, fp, T, hT, hfr⟩ := ih hsame
    exact ⟨hall, fp, T, hT, frameAt_idle hfr hctl hsp⟩

/-- The top of a frame is never below the words that the function is estimated to need, also while
it waits for a callee. -/
theorem depth_within_estimate {g : Func} {visits : List Machine} (hbuilt : g.settle? none = some f)
    (h : FrameRun f base visits m) (hsame : SameDepths visits) : (m.ctx.calls.size = base.size →
      m.ctx.function = some f ∧ m.ctx.sp.block = m.ctx.fp.block ∧ m.ctx.depth ≤ f.stackNeeded.toNat) ∧
    (base.size < m.ctx.calls.size →
      ∃ frame, Holds base frame m.ctx.calls ∧ frame.function = f ∧
        frame.sp.Within frame.fp f.stackNeeded.toNat) := by
  obtain ⟨-, fp, T, -, hframe⟩ := frameRun_shortened h hsame
  have hneeded : f.locals.toNat + ∑ pc ∈ T, f.pushedAt pc ≤ f.stackNeeded.toNat := by
    rw [Func.stackNeeded_of_settle? hbuilt]
    exact Nat.add_le_add_left (f.sum_pushedAt_le T) _
  cases hframe with
  | current hcalls hf hfp htop =>
    subst hfp hcalls
    refine ⟨fun _ => ⟨hf, htop.1, ?_⟩, fun hinner => absurd hinner (Nat.lt_irrefl _)⟩
    have hoffset := htop.2
    unfold Context.depth
    omega
  | @saved frame hheld hf hfp htop =>
    subst hfp
    have hlt := holds_size hheld
    exact ⟨fun hcurrent => by omega,
      fun _ => ⟨frame, hheld, hf, htop.1, htop.2.trans (Nat.add_le_add_left hneeded _)⟩⟩

/-- Gives a word to the second function again and again. -/
def feeder : Func :=
  { id := ⟨1⟩, name := "feeder", code := #[.pushWord 7, .call ⟨2⟩, .jump (-3), .ret 0], locals := 1,
    stackNeeded := 2 }

def feeding : Machine :=
  { engine :=
      { config := { initialStack := 16 }
        functions := #[none, some feeder,
          some { id := ⟨2⟩, name := "eater", code := #[.ret 1], signature := .ofTypes .void [.int] }] }
    ctx := {} }

def fed : Nat → Machine
  | 0 => relayStart (after (prepareFunction feeder) feeding)
  | n + 1 => relayStep (fed n)

theorem fed_frameRun : FrameRun feeder {} [fed 4, fed 3, fed 1, fed 0] (fed 5) := by
  have hbegins : FrameRun feeder {} [] (after (prepareFunction feeder) feeding) :=
    .begins (.prepare (ok_of_value (by decide +kernel)) (by decide +kernel)) rfl
  have hstart : FrameRun feeder {} [] (fed 0) := hbegins.idle rfl rfl
  have hstep (n : Nat) (h : value? (step (runNested (execute 0)) (fed n)) = some .go) :
      step (runNested (execute 0)) (fed n) = .ok .go (fed (n + 1)) := ok_of_value h
  have hpush := hstart.own (by decide +kernel) (hstep 0 (by decide +kernel)) (by decide +kernel)
  have hcall := hpush.own (by decide +kernel) (hstep 1 (by decide +kernel)) (by decide +kernel)
  have hback := hcall.back (by decide +kernel) (hstep 2 (by decide +kernel)) (by decide +kernel)
  have hjump := hback.own (by decide +kernel) (hstep 3 (by decide +kernel)) (by decide +kernel)
  exact hjump.own (by decide +kernel) (hstep 4 (by decide +kernel)) (by decide +kernel)

/-- The word is pushed for the second time, and the depth is as estimated. -/
theorem depth_within_estimate_fed :
    { feeder with stackNeeded := 0 }.settle? none = some feeder ∧ (fed 4).ctx.pc = (fed 0).ctx.pc ∧
      (fed 5).ctx.depth = 2 ∧
      (fed 5).ctx.depth ≤ feeder.stackNeeded.toNat := by
  have hsame : SameDepths [fed 4, fed 3, fed 1, fed 0] := by
    unfold SameDepths
    decide +kernel
  have hbuilt : { feeder with stackNeeded := 0 }.settle? none = some feeder := by decide
  obtain ⟨hcurrent, -⟩ := depth_within_estimate hbuilt fed_frameRun hsame
  obtain ⟨-, -, hdepth⟩ := hcurrent (by decide +kernel)
  exact ⟨hbuilt, by decide +kernel, by decide +kernel, hdepth⟩

end Exec
end ScriptVm
