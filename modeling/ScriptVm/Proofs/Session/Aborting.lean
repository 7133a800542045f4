import ScriptVm.Proofs.Execution.Addressing
import ScriptVm.Proofs.Execution.Moves
import ScriptVm.Proofs.Session.Lifecycle

namespace ScriptVm

/-- Function and frame pointer of every frame, the current one first. -/
def Context.bases (c : Context) : List (Option Func × Pointer) :=
  (c.function, c.fp) :: c.calls.frames.map fun f => (some f.function, f.fp)

namespace Machine

/-- Frames are cleaned one after the other, each with its own function and frame pointer and before
its caller comes back. -/
inductive Unwinds : Machine → List (Option Func × Pointer) → Machine → Prop where
  | last (m : Machine) : Unwinds m [(m.ctx.function, m.ctx.fp)] m.cleanFrame
  | back {m m' : Machine} {frames : List (Option Func × Pointer)} (f : Frame) (calls : CallStack)
      (h : Unwinds (m.cleanFrame.restore f calls) frames m') :
    Unwinds m ((m.ctx.function, m.ctx.fp) :: frames) m'

theorem unwinds_cleanCallers (m : Machine) (frames : List Frame) :
    m.Unwinds ((m.ctx.function, m.ctx.fp) :: frames.map fun f => (some f.function, f.fp))
      (m.cleanFrame.cleanCallers frames) := by
  induction frames generalizing m with
  | nil => exact .last m
  | cons f frames ih =>
    refine .back f ⟨frames⟩ ?_
    have hrest := ih (m.cleanFrame.restore f ⟨frames⟩)
    rw [Exec.restore_ctx] at hrest
    exact hrest

theorem abortRequested_robust (asked : Bool) : Robust fun m => m.ctx.abortRequested = asked where
  giveUp h _ := h
  release h _ := h
  setWords h p v := by
    unfold Machine.setWords
    split
    · exact h
    · exact h

theorem abortRequested_cleanStack (m : Machine) :
    m.cleanStack.ctx.abortRequested = m.ctx.abortRequested := by
  refine view_cleanStack (fun m => m.ctx.abortRequested)
    (fun m => (abortRequested_robust _).cleanFrame rfl) (fun m f calls => ?_)
    (fun _ => rfl) m
  rw [Exec.restore_ctx]

/-- The machine after a request to abort was honoured. -/
def halted (m : Machine) : Machine :=
  (m.onContext fun c => { c with abortRequested := false }).abortNow

theorem state_halted (m : Machine) : m.halted.ctx.state = .aborted := state_cleanStack _

theorem abortRequested_halted (m : Machine) : m.halted.ctx.abortRequested = false :=
  abortRequested_cleanStack _

theorem unwinds_halted (m : Machine) : m.halted.ctx.calls.frames = [] ∧
      ∃ m', (m.onContext fun c => { c with abortRequested := false, state := .aborted }).Unwinds
        m.ctx.bases m' ∧
        m.halted = m'.onContext fun c => { c with needsCleanup := false } := by
  let begun := m.onContext fun c => { c with abortRequested := false, state := .aborted }
  refine ⟨congrArg CallStack.frames (calls_cleanStack begun),
    begun.cleanFrame.cleanCallers m.ctx.calls.frames, ?_, rfl⟩
  exact begun.unwinds_cleanCallers m.ctx.calls.frames

end Machine

namespace Exec

variable {nested : Nested} {f : Func} {m m' : Machine} {flow : Flow} {k : Nat}

/-- Instructions after which the run may be interrupted, unless they fault. -/
inductive YieldsAt (m : Machine) : Instr → Prop where
  | suspend : YieldsAt m .suspend
  | host (id : FunctionId) : YieldsAt m (.callHost id)
  | method {id : FunctionId} {declared f : Func} {object : Handle}
      (hdeclared : m.engine.function? id = some declared)
      (hobject : m.handleAt? m.ctx.sp = some object)
      (hfound : m.engine.resolveMethod? declared object = some f) (hhost : f.kind = .host) :
    YieldsAt m (.callMethod id)
  | constructor {type : TypeId} {id : FunctionId} {f : Func} (hgiven : id ≠ .none)
      (hfound : m.engine.function? id = some f) (hhost : f.kind ≠ .script) :
    YieldsAt m (.alloc type id)

/-- The step ends by looking for requests. -/
def EndsOpen (flow : Flow) (m' : Machine) : Prop := ∃ m, checkInterrupt m = .ok flow m'

theorem callHostFrom_endsOpen (h : callHostFrom nested f m = .ok flow m') : EndsOpen flow m' := by
  obtain ⟨words, m1, -, h1⟩ := bind_ok h
  obtain ⟨_, m2, -, h2⟩ := bind_ok h1
  exact ⟨m2, h2⟩

theorem allocObject_endsOpen {type : TypeId} {id : FunctionId} (hgiven : id ≠ .none)
    (hfd : m.engine.function? id = some f) (hhost : f.kind ≠ .script)
    (h : allocObject nested type id m = .ok flow m') : EndsOpen flow m' := by
  have h1 := engine_ok h
  obtain ⟨objectType, m2, htype, h2⟩ := bind_ok h1
  obtain ⟨-, rfl⟩ := orFail_ok htype
  obtain ⟨object, m3, hnew, h3⟩ := bind_ok h2
  rw [if_neg hgiven] at h3
  obtain ⟨f', m4, hf, h4⟩ := bind_ok h3
  obtain ⟨hfn, rfl⟩ := functionOf_ok hf
  obtain ⟨_, m5, -, h5⟩ := bind_ok h4
  -- The new object has not changed what functions there are.
  have hkeeps : Keeps Machine.catalog (newObject objectType : Exec Fault Handle) := inferInstance
  rw [Engine.function?_of_catalog (hkeeps.of_ok hnew)] at hfn
  obtain rfl : f = f' := Option.some.inj (hfd.symm.trans hfn)
  rw [if_neg hhost] at h5
  obtain ⟨_, m6, -, h6⟩ := bind_ok h5
  exact ⟨m6, h6⟩

theorem exec_endsOpen {i : Instr} (hi : YieldsAt m i) (h : exec nested i m = .ok flow m') :
    EndsOpen flow m' := by
  cases hi with
  | suspend =>
    obtain ⟨_, m1, -, h1⟩ := bind_ok h
    exact ⟨m1, h1⟩
  | host id =>
    obtain ⟨f, m1, -, h1⟩ := bind_ok h
    exact callHostFrom_endsOpen h1
  | method hdecl hobj hfd hhost =>
    rw [exec_callMethod nested hdecl hobj hfd, if_pos hhost] at h
    exact callHostFrom_endsOpen h
  | constructor hgiven hfd hhost => exact allocObject_endsOpen hgiven hfd hhost h

theorem exec_yield_asked {i : Instr} (hi : YieldsAt m i) (h : exec nested i m = .ok flow m')
    (hask : m'.ctx.abortRequested = true) : flow = .halt ∧ m'.ctx.state = .suspended := by
  obtain ⟨m1, hchk⟩ := exec_endsOpen hi h
  rw [checkInterrupt_eq] at hchk
  split at hchk
  · cases hchk
    exact ⟨rfl, rfl⟩
  · rename_i hnone
    cases hchk
    simp [Context.interruptRequested, hask] at hnone

/-- A run comes to a point where it may be interrupted. `m` is the machine before the instruction
and `m'` the one after it. -/
structure Arrives (nested : Nested) (m m' : Machine) : Prop where
  active : m.ctx.state = .active
  point : ∃ i flow, fetch? m.ctx = some i ∧ YieldsAt (m.onContext Context.advance) i ∧
    exec nested i (m.onContext Context.advance) = .ok flow m'

theorem Arrives.step {nested : Nested} {m m' : Machine} (h : Arrives nested m m')
    (hask : m'.ctx.abortRequested = true) :
    step nested m = .ok .halt m' ∧ m'.ctx.state = .suspended := by
  obtain ⟨i, flow, hfetch, hi, hexec⟩ := h.point
  obtain ⟨rfl, hst⟩ := exec_yield_asked hi hexec hask
  rw [step_eq nested hfetch]
  exact ⟨raising_of_ok hexec .halt, hst⟩

theorem Advance.asked (h : Advance m m') (hask : m.ctx.abortRequested = true) :
    m'.ctx.abortRequested = true := by
  cases h with
  | step hact hstep => exact (Moves.of_ok (R := Context.Passes) hstep).abort hask
  | suspend => exact hask
  | abort => rfl

theorem advances_asked (h : Relation.ReflTransGen Advance m m')
    (hask : m.ctx.abortRequested = true) : m'.ctx.abortRequested = true := by
  induction h with
  | refl => exact hask
  | tail _ hlast ih => exact hlast.asked ih

theorem Arrives.asked {n : Nat} (h : Arrives (runNested (execute n)) m m')
    (hask : m.ctx.abortRequested = true) : m'.ctx.abortRequested = true := by
  obtain ⟨i, flow, hfetch, hi, hexec⟩ := h.point
  exact (Moves.of_ok (R := Context.Passes) hexec).abort hask

theorem advances_suspended (h : Relation.ReflTransGen Advance m m')
    (hst : m.ctx.state = .suspended) : m'.ctx.state = .suspended ∧ m'.engine = m.engine := by
  induction h with
  | refl => exact ⟨hst, rfl⟩
  | tail _ hlast ih =>
    cases hlast with
    | step hact hstep =>
      rw [ih.1] at hact
      cases hact
    | suspend => exact ih
    | abort => exact ih

theorem endRun_asked (hst : m.ctx.state = .suspended) (hask : m.ctx.abortRequested = true) :
    endRun m = .ok .aborted m.halted := by
  have hconc : concluded m = m.halted := if_pos ⟨hask, hst⟩
  rw [endRun_eq, hconc, m.state_halted]
  rfl

theorem endRun_halted (m : Machine) : endRun m.halted = .ok .aborted m.halted := by
  have hask := m.abortRequested_halted
  have hsame : m.halted.onContext (fun c => { c with abortRequested := false }) = m.halted := by
    simp only [Machine.onContext, ← hask]
  have hconc : concluded m.halted = m.halted := by
    rw [concluded, if_neg (by simp [hask]), hsame]
  rw [endRun_eq, hconc, m.state_halted]
  rfl

theorem execute_asked (n : Nat) (hst : m.ctx.state = .prepared ∨ m.ctx.state = .suspended)
    (hask : m.ctx.abortRequested = true) : execute (n + 1) m =
      .ok .aborted (m.onContext fun c => { c with suspendRequested := false }).halted := by
  let stopped := (m.onContext fun c => { c with suspendRequested := false }).halted
  have hstart : startRun (runNested (execute n)) m = .ok () stopped := by
    rw [startRun_ready _ hst, if_pos hask]
    rfl
  have hidle : stopped.ctx.state ≠ .active := by
    rw [Machine.state_halted]
    decide
  rw [execute, executeWith, bind_of_ok hstart, ctx_bind, if_neg hidle]
  exact endRun_halted _

inductive GoesOn (nested : Nested) : Nat → Machine → Machine → Prop where
  | here (m : Machine) : GoesOn nested 0 m m
  | step {k : Nat} {m m1 m' : Machine} (hactive : m.ctx.state = .active)
      (hstep : Exec.step nested m = .ok .go m1) (h : GoesOn nested k m1 m') :
    GoesOn nested (k + 1) m m'

theorem steps_active (nested : Nested) (n : Nat) (hact : m.ctx.state = .active)
    (hstep : step nested m = .ok flow m') :
    steps nested (n + 1) m = if flow = .go then steps nested n m' else .ok () m' := by
  rw [steps, ctx_bind, if_pos hact, bind_of_ok hstep]
  cases flow <;> rfl

theorem GoesOn.steps (h : GoesOn nested k m m') (n : Nat) :
    steps nested (n + k) m = steps nested n m' := by
  induction h with
  | here => rfl
  | step hact hstep _ ih =>
    rw [← Nat.add_assoc, steps_active nested _ hact hstep, if_pos rfl, ih]

theorem GoesOn.active (h : GoesOn nested k m m') (hact : m'.ctx.state = .active) :
    m.ctx.state = .active := by
  cases h with
  | here => exact hact
  | step hact => exact hact

/-- A run that meets a request at a point where it may be interrupted ends there. -/
theorem execute_arrives {n : Nat} {m0 m1 : Machine}
    (hstart : startRun (runNested (execute n)) m0 = .ok () m1)
    (hgo : GoesOn (runNested (execute n)) k m1 m) (hk : k < n)
    (harr : Arrives (runNested (execute n)) m m') (hask : m'.ctx.abortRequested = true) :
    execute (n + 1) m0 = .ok .aborted m'.halted := by
  obtain ⟨hstep, hst⟩ := harr.step hask
  have hsteps : steps (runNested (execute n)) n m1 = .ok () m' := by
    obtain ⟨j, rfl⟩ : ∃ j, n = j + 1 + k := ⟨n - 1 - k, by omega⟩
    rw [hgo.steps, steps_active _ _ harr.active hstep]
    rfl
  rw [execute, executeWith, bind_of_ok hstart, ctx_bind, if_pos (hgo.active harr.active),
    bind_of_ok hsteps]
  exact endRun_asked hst hask

end Exec

/-- There is nothing to run: the last run was aborted, or nothing was prepared. -/
def Context.Spent (c : Context) : Prop := c.state = .aborted ∨ c.state = .uninitialized

theorem Context.Spent.idle {c : Context} (h : c.Spent) :
    c.state ≠ .prepared ∧ c.state ≠ .suspended ∧ c.state ≠ .active := by
  cases h with
  | inl h => simp [h]
  | inr h => simp [h]

namespace Request

open Exec

variable {m : Machine}

theorem execute_spent (n : Nat) (h : m.ctx.Spent) :
    Exec.execute (n + 1) m = .error (.cause (.invalidState m.ctx.state)) m := by
  rw [Exec.execute, executeWith]
  exact bind_of_error (startRun_refused _ h.idle.1 h.idle.2.1) _

theorem spent_unprepare (h : m.ctx.Spent) : (Exec.unprepare.after m).ctx.Spent := by
  obtain ⟨-, hsus, hact⟩ := h.idle
  have happly : m.applyAbort = m := if_neg fun hdue => hsus hdue.1
  have hidle : requireIdle m = .ok () m := by
    rw [requireIdle_eq, happly, if_neg (by simp [Context.isBusy, hsus, hact])]
  rw [Exec.unprepare, after, bind_of_ok hidle]
  show (after (if m.ctx.state ≠ .uninitialized then _ else _ : Exec RequestError Unit) m).ctx.Spent
  split
  · exact .inr rfl
  · exact h

theorem spent_after {r : Request} (hr : r.prepares = false) (h : m.ctx.Spent) :
    (r.perform.after m).ctx.Spent := by
  cases hadj : r.adjusts with
  | true =>
    have hkept := (standing_adjusts hadj).view_after m
    have hst : (r.perform.after m).ctx.state = m.ctx.state := congrArg Standing.state hkept
    rwa [Context.Spent, hst]
  | false =>
    cases r with
    | prepare | prepareFunction => cases hr
    | execute fuel =>
      cases fuel with
      | zero => exact h
      | succ n =>
        rw [perform, after_bind_of_error (execute_spent n h)]
        exact h
    | startRun fuel =>
      rw [perform, after_of_error (startRun_refused _ h.idle.1 h.idle.2.1)]
      exact h
    | step fuel =>
      show (after (if m.ctx.state = .active then _ else _ : Exec RequestError Unit) m).ctx.Spent
      rw [if_neg h.idle.2.2]
      exact h
    | endRun =>
      rw [perform, after_bind_of_ok (endRun_eq m), concluded, if_neg fun hdue => h.idle.2.1 hdue.2]
      exact h
    | abort =>
      show (after (if m.ctx.state = .suspended then _ else _ : Exec RequestError Unit) m).ctx.Spent
      rw [if_neg h.idle.2.1]
      exact h
    | unprepare => exact spent_unprepare h
    | _ => cases hadj

end Request

namespace Context

/-- Something other than a function to prepare is asked of a context, with any engine behind it. -/
def Lingers (c c' : Context) : Prop :=
  ∃ (e : Engine) (r : Request), r.prepares = false ∧ c' = (r.perform.after ⟨e, c⟩).ctx

theorem Spent.lingers {c c' : Context} (h : c.Spent) (hlater : Relation.ReflTransGen Lingers c c') :
    c'.Spent := by
  induction hlater with
  | refl => exact h
  | tail _ hlast ih =>
    obtain ⟨e, r, hr, rfl⟩ := hlast
    exact Request.spent_after hr ih

end Context

namespace Exec

open Relation

/-- A request to abort is honoured before a run begins or goes on, and wherever the run comes to a
point at which it may be interrupted, also if suspension was asked for. The run may be one that goes
on by itself, or one of which the steps are taken while requests come from outside. When a request
is honoured, all frames are cleaned and none is left, and whatever is then asked of the context,
nothing runs before a function is prepared. -/
theorem abort_honoured : (∀ (n : Nat) (m : Machine),
      m.ctx.state = .prepared ∨ m.ctx.state = .suspended → m.ctx.abortRequested = true →
      execute (n + 1) m =
        .ok .aborted (m.onContext fun c => { c with suspendRequested := false }).halted) ∧
    (∀ (n k : Nat) (m0 m1 m m' : Machine), startRun (runNested (execute n)) m0 = .ok () m1 →
      GoesOn (runNested (execute n)) k m1 m → k < n → Arrives (runNested (execute n)) m m' →
      m.ctx.abortRequested = true ∨ m'.ctx.abortRequested = true →
        execute (n + 1) m0 = .ok .aborted m'.halted) ∧
    (∀ (n : Nat) (m1 m m' : Machine),
      ReflTransGen Advance m1 m → Arrives (runNested (execute n)) m m' →
      m1.ctx.abortRequested = true ∨ m'.ctx.abortRequested = true →
      step (runNested (execute n)) m = .ok .halt m' ∧
        ∀ m'', ReflTransGen Advance m' m'' → m''.engine = m'.engine ∧
          endRun m'' = .ok .aborted m''.halted) ∧
    ∀ m : Machine, m.halted.ctx.state = .aborted ∧ m.halted.ctx.calls.frames = [] ∧
      m.halted.ctx.needsCleanup = false ∧
      (∃ m', (m.onContext fun c => { c with abortRequested := false, state := .aborted }).Unwinds
        m.ctx.bases m' ∧
        m.halted = m'.onContext fun c => { c with needsCleanup := false }) ∧
      ∀ c, ReflTransGen Context.Lingers m.halted.ctx c →
        ∀ (e : Engine) (n : Nat), execute (n + 1) ⟨e, c⟩ =
          .error (.cause (.invalidState c.state)) ⟨e, c⟩ := by
  refine ⟨fun n m => execute_asked n, ?_, ?_, ?_⟩
  · intro n k m0 m1 m m' hstart hgo hk harrives hasked
    have hasked' : m'.ctx.abortRequested = true := hasked.elim harrives.asked id
    exact execute_arrives hstart hgo hk harrives hasked'
  · intro n m1 m m' hrun harrives hasked
    have hasked' : m'.ctx.abortRequested = true :=
      hasked.elim (fun h => harrives.asked (advances_asked hrun h)) id
    obtain ⟨hstep, hstate⟩ := harrives.step hasked'
    refine ⟨hstep, fun m'' hwaits => ?_⟩
    obtain ⟨hstate', hengine⟩ := advances_suspended hwaits hstate
    exact ⟨hengine, endRun_asked hstate' (advances_asked hwaits hasked')⟩
  · intro m
    obtain ⟨hflat, hunwinds⟩ := m.unwinds_halted
    refine ⟨m.state_halted, hflat, rfl, hunwinds, fun c hlater e n => ?_⟩
    have hspent : c.Spent := Context.Spent.lingers (.inl m.state_halted) hlater
    exact Request.execute_spent n (m := ⟨e, c⟩) hspent

/-- A function calls another one, and that a host function which asks for suspension and for
abortion. -/
def recalled : Machine :=
  after (prepare ⟨1⟩)
    { engine :=
        { functions := #[none,
            some { id := ⟨1⟩, name := "outer", code := #[.call ⟨2⟩, .ret 0] },
            some { id := ⟨2⟩, name := "inner", code := #[.callHost ⟨3⟩, .ret 0] },
            some { id := ⟨3⟩, name := "recall", kind := .host }]
          hosts := [(⟨3⟩, .ofActions [.suspend, .abort])] }
      ctx := {} }

/-- It is aborted in the function that is called. Then the run does not begin again, even if the
memory is given up first. -/
theorem abort_honoured_recalled :
    ∃ m : Machine, m.ctx.calls.frames.length = 1 ∧ m.ctx.suspendRequested = true ∧
      execute 9 recalled = .ok .aborted m.halted ∧ m.halted.ctx.calls.frames = [] ∧
      execute 9 (unprepare.after m.halted) =
        .error (.cause (.invalidState .uninitialized)) (unprepare.after m.halted) := by
  let nested := runNested (execute 8)
  let started := (startRun nested).after recalled
  let inside := (step nested).after started
  let left := (exec nested (.callHost ⟨3⟩)).after (inside.onContext Context.advance)
  have hstart : startRun nested recalled = .ok () started := ok_of_value (by decide +kernel)
  have hstep : step nested started = .ok .go inside := ok_of_value (by decide +kernel)
  have harrives : Arrives nested inside left :=
    ⟨by decide +kernel, .callHost ⟨3⟩, .halt, by decide +kernel, .host ⟨3⟩,
      ok_of_value (by decide +kernel)⟩
  have hrefused (m : Machine) : execute 9 (unprepare.after m.halted) =
      .error (.cause (.invalidState (unprepare.after m.halted).ctx.state))
        (unprepare.after m.halted) := by
    obtain ⟨-, -, -, hended⟩ := abort_honoured
    obtain ⟨-, -, -, -, hlater⟩ := hended m
    exact hlater _ (.single ⟨m.halted.engine, .unprepare, rfl, rfl⟩) _ 8
  have hstate : (unprepare.after left.halted).ctx.state = .uninitialized := by decide +kernel
  obtain ⟨-, hhonoured, -, hended⟩ := abort_honoured
  have hrun := hhonoured 8 1 recalled started inside left hstart
    (.step (by decide +kernel) hstep (.here _)) (by decide) harrives
    (.inr (by decide +kernel))
  exact ⟨left, by decide +kernel, by decide +kernel, hrun, (hended left).2.1, hstate ▸ hrefused left⟩

end Exec

end ScriptVm
