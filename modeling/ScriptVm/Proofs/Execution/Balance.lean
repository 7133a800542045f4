import Mathlib.Logic.Relation
import ScriptVm.Proofs.Execution.Runs

namespace ScriptVm.Exec

variable {m m' : Machine} {base calls : CallStack} {frame : Frame}

/-- What can happen to a run: an instruction, a pause, its resumption, and in between anything that
the host and other contexts do to the engine and to what asks for an interruption. -/
inductive Move : Machine → Machine → Prop where
  | step {m m' : Machine} {flow : Flow} (n : Nat)
      (h : step (runNested (execute n)) m = .ok flow m') : Move m m'
  | pause {m m' : Machine} {outcome : Outcome} (h : endRun m = .ok outcome m') : Move m m'
  | resume {m m' : Machine} (n : Nat) (hstate : m.ctx.state = .suspended)
      (h : startRun (runNested (execute n)) m = .ok () m') : Move m m'
  | host {m : Machine} (e : Engine) (suspend abort : Bool) (callback : Option LineCallback) :
    Move m
      { engine := e
        ctx := { m.ctx with suspendRequested := suspend, abortRequested := abort,
                            lineCallback := callback } }

/-- Moves during which more than so many callers are saved. -/
def Deeper (depth : Nat) : Machine → Machine → Prop :=
  Relation.ReflTransGen fun m m' => Move m m' ∧ depth < m'.ctx.calls.size

/-- A frame is saved on top of the frames of `base`, and others may be on top of it. -/
def Holds (base : CallStack) (frame : Frame) (calls : CallStack) : Prop :=
  ∃ inner, calls.frames = inner ++ frame :: base.frames

theorem holds_push (h : Holds base frame calls) (top : Frame) :
    Holds base frame (calls.push top) := by
  obtain ⟨inner, hinner⟩ := h
  exact ⟨top :: inner, by rw [CallStack.push, hinner, List.cons_append]⟩

theorem holds_pop {rest : CallStack} {top : Frame} (h : Holds base frame calls)
    (hpop : calls.pop? = some (top, rest)) : top = frame ∧ rest = base ∨ Holds base frame rest := by
  obtain ⟨inner, hinner⟩ := h
  have hfrs := frames_of_pop hpop
  rw [hinner] at hfrs
  cases inner with
  | nil =>
    obtain ⟨htop, hrest⟩ := List.cons.inj hfrs
    exact .inl ⟨htop.symm, congrArg CallStack.mk hrest.symm⟩
  | cons x inner =>
    obtain ⟨-, hrest⟩ := List.cons.inj hfrs
    exact .inr ⟨inner, hrest.symm⟩

theorem transfer_holds {e : Engine} {i : Instr} {ended : Prop} {c c' : Context}
    (h : Transfer e i ended c c') (hheld : Holds base frame c.calls)
    (hdepth : base.size < c'.calls.size) :
    Holds base frame c'.calls := by
  cases h with
  | stay hctl _ | jump hctl _ _ =>
    have hcl : c'.calls = c.calls := congrArg Control.calls hctl
    rwa [hcl]
  | enter _ _ _ hcl _ =>
    rw [hcl]
    exact holds_push hheld _
  | leave hpop hcl _ _ =>
    obtain ⟨-, hbase⟩ | hheld := holds_pop hheld hpop
    · rw [hcl, hbase] at hdepth
      exact absurd hdepth (Nat.lt_irrefl _)
    · rwa [hcl]

theorem abortNow_size (m : Machine) : m.abortNow.ctx.calls.size = 0 := by
  rw [Machine.abortNow, Machine.calls_cleanStack]
  rfl

theorem move_holds (h : Move m m') (hheld : Holds base frame m.ctx.calls)
    (hdepth : base.size < m'.ctx.calls.size) : Holds base frame m'.ctx.calls := by
  cases h with
  | step n hstep =>
    cases hfetch : fetch? m.ctx with
    | none =>
      rw [step_no_instr _ hfetch] at hstep
      cases hstep
      rw [raise_ctx]
      exact hheld
    | some i => exact transfer_holds (step_transfer _ hfetch hstep) hheld hdepth
  | pause hend =>
    rw [endRun_eq] at hend
    cases hend
    unfold concluded at hdepth ⊢
    split
    · rename_i habt
      rw [if_pos habt, abortNow_size] at hdepth
      cases hdepth
    · exact hheld
  | resume n hst hstart =>
    rw [startRun_suspended _ hst] at hstart
    cases hstart
    split
    · rename_i habt
      rw [if_pos habt, abortNow_size] at hdepth
      cases hdepth
    · exact hheld
  | host => exact hheld

theorem deeper_holds (h : Deeper base.size m m') (hheld : Holds base frame m.ctx.calls) :
    Holds base frame m'.ctx.calls := by
  induction h with
  | refl => exact hheld
  | tail _ hmove ih => exact move_holds hmove.1 ih hmove.2

theorem holds_size (h : Holds base frame calls) : base.size < calls.size := by
  obtain ⟨inner, hinner⟩ := h
  simp only [CallStack.size, hinner, List.length_append, List.length_cons]
  omega

theorem call_saves {n : Nat} (h : step (runNested (execute n)) m = .ok .go m')
    (hsize : m'.ctx.calls.size = m.ctx.calls.size + 1) :
    ∃ i caller saved, fetch? m.ctx = some i ∧ i.callBase? m.ctx.sp = some saved ∧
      m.ctx.function = some caller ∧
      m'.ctx.calls = m.ctx.calls.push (m.ctx.advance.frame caller saved) := by
  obtain ⟨i, hfetch⟩ := fetch_of_go h
  have hadv : m.ctx.advance.calls = m.ctx.calls := rfl
  cases step_transfer _ hfetch h with
  | stay hctl _ | jump hctl _ _ =>
    have hcl : m'.ctx.calls = m.ctx.calls := congrArg Control.calls hctl
    rw [hcl] at hsize
    omega
  | enter hclr hsp _ hcl _ => exact ⟨i, _, _, hfetch, hsp, hclr, hcl⟩
  | leave hpop hcl _ _ =>
    have hfrs := congrArg List.length (frames_of_pop hpop)
    rw [hcl] at hsize
    simp only [CallStack.size, hadv, List.length_cons] at hsize hfrs
    omega

theorem return_restores {nested : Nested} {words : UInt16} (hret : fetch? m.ctx = some (.ret words))
    (h : step nested m = .ok .go m') : ∃ frame calls sp, m.ctx.calls.pop? = some (frame, calls) ∧
      frame.sp.shift? words.toNat = some sp ∧
      m'.ctx.control =
        { function := some frame.function, module := frame.module, pc := frame.pc,
          fp := frame.fp, calls } ∧
      m'.ctx.stack.current = frame.block ∧ m'.ctx.sp = sp := by
  have hexec := exec_of_go hret h
  cases hpop : m.ctx.calls.pop? with
  | none =>
    rw [exec_ret_outermost nested words
      (show (m.onContext Context.advance).ctx.calls.pop? = none from hpop)] at hexec
    cases hexec
  | some popped =>
    obtain ⟨frame, calls⟩ := popped
    rw [exec_ret_caller nested words
      (show (m.onContext Context.advance).ctx.calls.pop? = some (frame, calls) from hpop)] at hexec
    cases hsp : frame.sp.shift? words.toNat with
    | none =>
      rw [hsp] at hexec
      cases hexec
    | some sp =>
      rw [hsp] at hexec
      cases hexec
      have hrst := restore_ctx (m.onContext Context.advance) frame calls
      refine ⟨frame, calls, sp, rfl, hsp, ?_, ?_, rfl⟩
      · exact (congrArg Context.control hrst :)
      · exact (congrArg (fun c => c.stack.current) hrst :)

/-- When a callee returns to the depth of its caller, the caller goes on after the call: in its
function, module, frame and stack block, with its own callers, and with the stack pointer that was
saved, moved by the words that the return discards. -/
theorem return_restores_caller {n k : Nat} {m m1 m2 m3 : Machine} {words : UInt16}
    (hcall : step (runNested (execute n)) m = .ok .go m1)
    (hentered : m1.ctx.calls.size = m.ctx.calls.size + 1)
    (hrun : Deeper m.ctx.calls.size m1 m2) (hret : fetch? m2.ctx = some (.ret words))
    (hback : step (runNested (execute k)) m2 = .ok .go m3)
    (hdepth : m3.ctx.calls.size = m.ctx.calls.size) :
    m3.ctx.function = m.ctx.function ∧ m3.ctx.module = m.ctx.module ∧ m3.ctx.fp = m.ctx.fp ∧
      m3.ctx.pc = m.ctx.pc + 1 ∧ m3.ctx.stack.current = m.ctx.stack.current ∧
        m3.ctx.calls = m.ctx.calls ∧
      ∃ i saved, fetch? m.ctx = some i ∧ i.callBase? m.ctx.sp = some saved ∧
        m1.ctx.calls.frames.head?.map Frame.sp = some saved ∧
          saved.shift? words.toNat = some m3.ctx.sp := by
  obtain ⟨i, caller, saved, hfetch, hbase, hcaller, hsaved⟩ := call_saves hcall hentered
  have hheld1 : Holds m.ctx.calls (m.ctx.advance.frame caller saved) m1.ctx.calls :=
    ⟨[], by rw [hsaved]; rfl⟩
  have hheld2 := deeper_holds hrun hheld1
  obtain ⟨frame, calls, sp, hpop, hsp, hcontrol, hblock, hsp3⟩ := return_restores hret hback
  have hcalls : m3.ctx.calls = calls := congrArg Control.calls hcontrol
  -- If another frame were popped, the one of the call would still be saved, and the return would
  -- not be back at its depth.
  obtain ⟨rfl, rfl⟩ | hdeep := holds_pop hheld2 hpop
  · have hfunction : m3.ctx.function = some caller := congrArg Control.function hcontrol
    refine ⟨hfunction.trans hcaller.symm, congrArg Control.module hcontrol,
      congrArg Control.fp hcontrol,
      congrArg Control.pc hcontrol, hblock, hcalls, i, saved, hfetch, hbase, ?_, ?_⟩
    · rw [hsaved]
      rfl
    · rw [hsp3]
      exact hsp
  · have hlt := holds_size hdeep
    rw [← hcalls, hdepth] at hlt
    exact absurd hlt (Nat.lt_irrefl _)

/-- The first function gives a word to the second one, which needs a stack block of its own, waits,
calls the third one and returns. -/
def relay : Machine :=
  { engine :=
      { config := { initialStack := 16 }
        functions := #[none,
          some { id := ⟨1⟩, name := "first", code := #[.pushWord 7, .call ⟨2⟩, .ret 0],
                 stackNeeded := 1 },
          some
            { id := ⟨2⟩, name := "second", code := #[.suspend, .call ⟨3⟩, .ret 1],
              signature := .ofTypes .void [.int]
              locals := 1, stackNeeded := 40 },
          some { id := ⟨3⟩, name := "third", code := #[.ret 0] }] }
    ctx := { lineCallback := some { suspendAt := [1] } } }

def relayStep (m : Machine) : Machine := after (step (runNested (execute 0))) m

def relayStart (m : Machine) : Machine := after (startRun (runNested (execute 0))) m

def relayCalling : Machine := relayStep (relayStart (after (prepare ⟨1⟩) relay))

def relayPaused : Machine := after endRun (relayStep (relayStep relayCalling))

def relayReturning : Machine := relayStep (relayStep (relayStart relayPaused))

theorem relay_deeper :
    Deeper relayCalling.ctx.calls.size (relayStep relayCalling) relayReturning := by
  have hsize : relayCalling.ctx.calls.size = 0 := by decide +kernel
  have hwaits : Move (relayStep relayCalling) (relayStep (relayStep relayCalling)) :=
    .step 0 (ok_of_value (a := .halt) (by decide +kernel))
  have hpause : Move (relayStep (relayStep relayCalling)) relayPaused :=
    .pause (ok_of_value (a := .suspended) (by decide +kernel))
  have hresume : Move relayPaused (relayStart relayPaused) :=
    .resume 0 (by decide +kernel) (ok_of_value (by decide +kernel))
  have hcall : Move (relayStart relayPaused) (relayStep (relayStart relayPaused)) :=
    .step 0 (ok_of_value (a := .go) (by decide +kernel))
  have hreturn : Move (relayStep (relayStart relayPaused)) relayReturning :=
    .step 0 (ok_of_value (a := .go) (by decide +kernel))
  rw [hsize]
  refine .head ⟨hwaits,
    ?_⟩ (.head ⟨hpause, ?_⟩ (.head ⟨hresume, ?_⟩ (.head ⟨hcall, ?_⟩ (.single ⟨hreturn, ?_⟩))))
  all_goals decide +kernel

/-- The second function has a stack block of its own and stands still once. -/
theorem return_restores_caller_relay :
    (relayStep relayCalling).ctx.stack.current = 2 ∧ relayPaused.ctx.state = .suspended ∧
      relayPaused.ctx.calls.size = 1 ∧ (relayStep relayReturning).ctx.pc = relayCalling.ctx.pc + 1 ∧
      (relayStep relayReturning).ctx.fp = relayCalling.ctx.fp ∧
      (relayStep relayReturning).ctx.stack.current = relayCalling.ctx.stack.current ∧
      relayCalling.ctx.sp.shift? 1 = some (relayStep relayReturning).ctx.sp := by
  have hcall : step (runNested (execute 0)) relayCalling = .ok .go (relayStep relayCalling) :=
    ok_of_value (by decide +kernel)
  have hret : fetch? relayReturning.ctx = some (.ret 1) := by decide +kernel
  have hback : step (runNested (execute 0)) relayReturning = .ok .go (relayStep relayReturning) :=
    ok_of_value (by decide +kernel)
  obtain ⟨-, -, hfp, hpc, hblock, -, -⟩ :=
    return_restores_caller hcall (by decide +kernel) relay_deeper hret hback (by decide +kernel)
  exact ⟨by decide +kernel, by decide +kernel, by decide +kernel, hpc, hfp,
    hblock, by decide +kernel⟩

end ScriptVm.Exec
