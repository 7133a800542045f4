import Mathlib.Logic.Relation
import ScriptVm.Proofs.Execution.Orderly
import ScriptVm.Proofs.Session.Refusals

namespace ScriptVm

namespace Context

variable {c : Context}

/-- Orderly, and no run goes on. -/
structure AtRest (c : Context) : Prop extends Orderly c where
  idle : c.state ≠ .active

theorem atRest_fresh (hst : c.state = .uninitialized) (hexc : c.exception = none)
    (hflat : c.calls.frames = []) (hhost : c.hostFunction = none)
    (hpend : c.pendingException = none)
    (hvac : c.module = none ∧ c.function = none ∧ c.objectRegister = none ∧ c.stack.blocks = #[])
    (hclup : c.needsCleanup = false) : c.AtRest where
  exception := by simp [hexc, hst]
  flat _ := hflat
  host := hhost
  pending := hpend
  vacant _ := hvac
  cleanup := by simp [hclup, hst]
  function := by simp [hst]
  idle := by simp [hst]

theorem atRest_new (limit : UInt32) : (Context.new limit).AtRest :=
  atRest_fresh rfl rfl rfl rfl rfl ⟨rfl, rfl, rfl, rfl⟩ rfl

theorem Begun.atRest (h : c.Begun) (hidle : c.state ≠ .active) : c.AtRest := { h with idle := hidle }

/-- Whatever is prepared, nothing of the past is left but a call of the host. -/
theorem atRest_preparedFor (hhost : c.hostFunction = none) (f : Func) :
    (c.preparedFor f).AtRest where
  exception := by simp [preparedFor]
  flat _ := rfl
  host := hhost
  pending := rfl
  vacant hfresh := by cases hfresh
  cleanup := by simp [preparedFor]
  function _ := rfl
  idle := by simp [preparedFor]

theorem AtRest.takeResultObject (h : c.AtRest) : c.takeResultObject.2.AtRest := by
  unfold Context.takeResultObject
  split
  · rename_i hfin
    exact { h with vacant := fun hfresh => by rw [hfin] at hfresh; cases hfresh }
  · exact h

end Context

namespace Machine

variable {m : Machine}

theorem atRest_of_bearing {m' : Machine} (h : m.ctx.AtRest) (hprep : m.ctx.state = .prepared)
    (hsame : m'.bearing = m.bearing) : m'.ctx.AtRest := by
  have hmark := mark_of_bearing hsame
  have hst : m'.ctx.state = .prepared := (congrArg Mark.state hmark).trans hprep
  have hcl : m'.ctx.calls = m.ctx.calls := congrArg Mark.calls hmark
  have hfn : m'.ctx.function = m.ctx.function := congrArg Mark.function hmark
  have hclear := clear_of_mark (h.clear (.inl hprep)) hmark
  refine ⟨⟨?_, fun _ => ?_, hclear.host, hclear.pending, fun hfresh => ?_, ?_, fun _ => ?_⟩, ?_⟩
  · simp [hclear.exception, hst]
  · rw [hcl]
    exact h.flat (.inr (.inl hprep))
  · simp [hst] at hfresh
  · simp [hclear.cleanup, hst]
  · rw [hfn]
    exact h.function (.inl hprep)
  · simp [hst]

theorem atRest_abortNow (h : m.ctx.Clear) : m.abortNow.ctx.AtRest := by
  have hst : m.abortNow.ctx.state = .aborted := state_cleanStack _
  exact (begun_abortNow h).atRest (by simp [hst])

theorem atRest_applyAbort (h : m.ctx.AtRest) : m.applyAbort.ctx.AtRest := by
  unfold applyAbort
  split
  · rename_i hdue
    exact atRest_abortNow { h.clear (.inr (.inr hdue.1)) with }
  · exact h

theorem releaseRun_ctx (m : Machine) : m.releaseRun.ctx =
      { (if m.ctx.needsCleanup then m.cleanStack else m).ctx with objectRegister := none,
                                                                  module := none } := by
  have hdrop (m : Machine) : m.dropObject.ctx = { m.ctx with objectRegister := none } := by
    unfold dropObject
    cases m.ctx.objectRegister <;> rfl
  rw [releaseRun, setModule_ctx, hdrop]

theorem aside_releaseRun (m : Machine) : m.releaseRun.aside = m.aside := by
  rw [aside, releaseRun_ctx]
  show (if m.ctx.needsCleanup then m.cleanStack else m).aside = m.aside
  split
  · exact aside_cleanStack m
  · rfl

theorem released (h : m.ctx.Orderly) :
    m.releaseRun.ctx.calls.frames = [] ∧ m.releaseRun.ctx.needsCleanup = false := by
  rw [releaseRun_ctx]
  show (if m.ctx.needsCleanup then m.cleanStack else m).ctx.calls.frames = [] ∧
    (if m.ctx.needsCleanup then m.cleanStack else m).ctx.needsCleanup = false
  split
  · exact ⟨congrArg CallStack.frames (calls_cleanStack m), rfl⟩
  · rename_i hclean
    have hclup : m.ctx.needsCleanup = false := by simpa using hclean
    refine ⟨h.flat ?_, hclup⟩
    obtain hs | hs := h.cleanup.mp hclup
    · exact .inl hs
    · exact .inr (.inr (.inr hs))

end Machine

namespace Exec

variable {α : Type} {m m' : Machine} {a : α}

theorem requireIdle_ok {f : Unit → Exec RequestError α} (h : (requireIdle >>= f) m = .ok a m') :
    f () m.applyAbort = .ok a m' := by
  obtain ⟨_, m1, hidle, hrest⟩ := bind_ok h
  rw [requireIdle_eq] at hidle
  split at hidle
  · cases hidle
  · cases hidle
    exact hrest

instance aside_leaveRun : Keeps Machine.aside leaveRun := by
  have : Keeps Machine.aside (modify Machine.releaseRun : Exec RequestError PUnit) :=
    obeys_modify Machine.aside_releaseRun
  exact obeys_bind _ _

instance aside_layoutEntry (f : Func) : Keeps Machine.aside (layoutEntry f) :=
  keeps_layoutEntry (fun _ _ => rfl) (fun _ _ _ => rfl) fun m =>
    Machine.aside_of_bearing (m.bearing_clearObjectVars f)

theorem prepareFunction_atRest {f : Func} (h : m.ctx.AtRest)
    (hrun : prepareFunction f m = .ok () m') : m'.ctx.AtRest := by
  obtain ⟨g, m1, hent, hrun⟩ := bind_ok (requireIdle_ok hrun)
  obtain ⟨_, m2, hleave, hrun⟩ := bind_ok hrun
  obtain ⟨_, m3, hlyt, hrun⟩ := bind_ok hrun
  obtain ⟨_, m4, hmod, hrun⟩ := bind_ok hrun
  cases hmod
  cases hrun
  obtain ⟨hm1, -⟩ := entryOf_ok hent
  have hleft : m2.aside = m1.aside := Keeps.of_ok hleave
  have hlaid : m3.aside = m2.aside := Keeps.of_ok hlyt
  have haside : m3.aside = m.applyAbort.aside := by rw [hlaid, hleft, hm1]
  refine Context.atRest_preparedFor ?_ g
  rw [Machine.setModule_ctx]
  exact (congrArg (fun a => a.2.1) haside).trans (Machine.atRest_applyAbort h).host

theorem prepare_atRest {id : FunctionId} (h : m.ctx.AtRest) (hrun : prepare id m = .ok () m') :
    m'.ctx.AtRest := by
  obtain ⟨e, m1, he, hrun⟩ := bind_ok (requireIdle_ok hrun)
  cases he
  obtain ⟨f, m2, hfd, hrun⟩ := bind_ok hrun
  obtain ⟨-, rfl⟩ := orFail_ok hfd
  exact prepareFunction_atRest (Machine.atRest_applyAbort h) hrun

theorem unprepare_atRest (h : m.ctx.AtRest) (hrun : unprepare m = .ok () m') : m'.ctx.AtRest := by
  have hrest := requireIdle_ok hrun
  have hm := Machine.atRest_applyAbort h
  change (if m.applyAbort.ctx.state ≠ .uninitialized then _ else _ : Exec RequestError Unit)
      m.applyAbort = _ at hrest
  split at hrest
  · cases hrest
    obtain ⟨hcl, hclup⟩ := Machine.released hm.toOrderly
    have haside := m.applyAbort.aside_releaseRun
    have hctx := m.applyAbort.releaseRun_ctx
    refine Context.atRest_fresh rfl rfl hcl ?_ ?_ ⟨?_, rfl, ?_, rfl⟩ hclup
    · exact (congrArg (fun a => a.2.1) haside).trans hm.host
    · exact (congrArg (fun a => a.2.2) haside).trans hm.pending
    · exact congrArg Context.module hctx
    · exact congrArg Context.objectRegister hctx
  · cases hrest
    exact hm

theorem prepared_of_argSlot {index : Nat} {f : Pointer × DataType → Exec RequestError α}
    (h : (argSlot index >>= f) m = .ok a m') : m.ctx.state = .prepared := by
  obtain ⟨slot, m1, hslot, -⟩ := bind_ok h
  by_contra hst
  change (if m.ctx.state ≠ .prepared then _ else _ : Exec RequestError (Pointer × DataType)) m =
      _ at hslot
  rw [if_pos hst] at hslot
  cases hslot

theorem prepared_of_primitiveSlot {index bytes : Nat} {what : String}
    {f : Pointer → Exec RequestError α} (h : (primitiveSlot index bytes what >>= f) m = .ok a m') :
    m.ctx.state = .prepared := by
  obtain ⟨p, m1, hslot, -⟩ := bind_ok h
  exact prepared_of_argSlot hslot

theorem prepared_of_setThis {object : Option Handle} (h : setThis object m = .ok () m') :
    m.ctx.state = .prepared := by
  by_contra hst
  change (if m.ctx.state ≠ .prepared then _ else _ : Exec RequestError Unit) m = _ at h
  rw [if_pos hst] at h
  cases h

end Exec

namespace Request

open Exec

/-- Requests that are over when they return. The others take a run step by step. -/
def isWhole : Request → Bool
  | .startRun _ | .step _ | .endRun => false
  | _ => true

/-- Requests that make a context ready for a function. -/
def prepares : Request → Bool
  | .prepare _ | .prepareFunction _ => true
  | _ => false

theorem prepared_of_setsArg {r : Request} (hr : r.setsArg = true) {m m' : Machine}
    (hrun : r.perform m = .ok () m') : m.ctx.state = .prepared := by
  cases r with
  | setArgByte | setArgHalf | setArgWord | setArgQword => exact prepared_of_primitiveSlot hrun
  | setArgFloat | setArgDouble | setArgAddress | setArgObject => exact prepared_of_argSlot hrun
  | setThis => exact prepared_of_setThis hrun
  | _ => cases hr

theorem atRest_perform {r : Request} (hwhole : r.isWhole = true) {m m' : Machine} (h : m.ctx.AtRest)
    (hrun : r.perform m = .ok () m') : m'.ctx.AtRest := by
  cases hr : r.setsArg with
  | true =>
    have hkeeps : Keeps Machine.bearing r.perform := obeys_setsArg hr
    exact Machine.atRest_of_bearing h (prepared_of_setsArg hr hrun) (hkeeps.of_ok hrun)
  | false =>
    cases r with
    | prepare id => exact prepare_atRest h hrun
    | prepareFunction f => exact prepareFunction_atRest h hrun
    | unprepare => exact unprepare_atRest h hrun
    | execute fuel =>
      obtain ⟨outcome, m1, hexe, hrun⟩ := bind_ok hrun
      cases hrun
      obtain ⟨hbegun, hidle, -⟩ := execute_begun h.toOrderly hexe
      exact hbegun.atRest hidle
    | startRun | step | endRun => cases hwhole
    | takeResultObject =>
      cases hrun
      exact h.takeResultObject
    | setLineCallback | setExceptionCallback | requestSuspend | requestAbort =>
      cases hrun
      exact { h with }
    | abort =>
      change (if m.ctx.state = .suspended then _ else Exec.requestAbort : Exec RequestError Unit)
          m = _ at hrun
      split at hrun
      · rename_i hsus
        cases hrun
        exact Machine.atRest_abortNow { h.clear (.inr (.inr hsus)) with }
      · cases hrun
        exact { h with }
    | setException message =>
      -- No call of the host goes on, so this is refused.
      change (if m.ctx.hostFunction.isNone then _ else _ : Exec RequestError Unit) m = _ at hrun
      rw [h.host] at hrun
      cases hrun
    | _ => cases hr

theorem atRest_after {r : Request} (hwhole : r.isWhole = true) {m : Machine} (h : m.ctx.AtRest)
    (hstl : Settled (r.perform m)) : (r.perform.after m).ctx.AtRest :=
  after_settled (P := fun m => m.ctx.AtRest) hstl (fun _ => atRest_perform hwhole h)
    (Machine.atRest_applyAbort h) h

end Request

namespace Exec

/-- A run goes one step further, or it is asked to stop from outside. -/
inductive Advance : Machine → Machine → Prop where
  | step {fuel : Nat} {flow : Flow} {m m' : Machine} (hactive : m.ctx.state = .active)
      (hstep : Exec.step (runNested (execute fuel)) m = .ok flow m') : Advance m m'
  | suspend (m : Machine) : Advance m (m.onContext fun c => { c with suspendRequested := true })
  | abort (m : Machine) : Advance m (m.onContext fun c => { c with abortRequested := true })

theorem Advance.begun {m m' : Machine} (h : Advance m m') (hm : m.ctx.Begun) : m'.ctx.Begun := by
  cases h with
  | step hact hstep => exact (step_begun hm.toOrderly hact hstep).1
  | suspend | abort => exact { hm with }

theorem advances_begun {m m' : Machine} (h : Relation.ReflTransGen Advance m m')
    (hm : m.ctx.Begun) : m'.ctx.Begun := by
  induction h with
  | refl => exact hm
  | tail _ hlast ih => exact hlast.begun ih

end Exec

namespace Context

open Exec

/-- A run comes to an end, for now or for good. Requests to stop it may come from outside at any
time. -/
inductive Ends (c : Context) : Outcome → Context → Prop where
  | execute {e : Engine} {fuel : Nat} {outcome : Outcome} {m : Machine}
      (hrun : Exec.execute fuel ⟨e, c⟩ = .ok outcome m) : Ends c outcome m.ctx
  | interrupted {e : Engine} {fuel : Nat} {outcome : Outcome} {m1 m2 m3 : Machine}
      (hstart : startRun (runNested (Exec.execute fuel)) ⟨e, c⟩ = .ok () m1)
      (hrun : Relation.ReflTransGen Advance m1 m2) (hidle : m2.ctx.state ≠ .active)
      (hend : endRun m2 = .ok outcome m3) : Ends c outcome m3.ctx

/-- The contexts that a host can have between its requests, with any engine behind each of them. -/
inductive Used : Context → Prop where
  | new (limit : UInt32) : Used (Context.new limit)
  | request {c : Context} (h : Used c) (e : Engine) (r : Request) (hwhole : r.isWhole = true)
      (hsettled : Settled (r.perform ⟨e, c⟩)) : Used (r.perform.after ⟨e, c⟩).ctx
  | run {c c' : Context} {outcome : Outcome} (h : Used c) (hends : c.Ends outcome c') : Used c'

theorem AtRest.ends {c c' : Context} {outcome : Outcome} (h : c.AtRest) (hends : c.Ends outcome c') :
    c'.AtRest ∧ c'.state = outcome.state := by
  cases hends with
  | execute hrun =>
    obtain ⟨hbegun, hidle, hst⟩ := execute_begun h.toOrderly hrun
    exact ⟨hbegun.atRest hidle, hst⟩
  | interrupted hstart hrun hidle hend =>
    have hbegun := advances_begun hrun (startRun_begun h.toOrderly hstart)
    obtain ⟨hended, hidle, hst⟩ := endRun_begun hbegun hidle hend
    exact ⟨hended.atRest hidle, hst⟩

theorem Used.atRest {c : Context} (h : c.Used) : c.AtRest := by
  induction h with
  | new limit => exact atRest_new limit
  | request _ e r hwhole hstl ih => exact Request.atRest_after hwhole ih hstl
  | run _ hends ih => exact (ih.ends hends).1

/-- Between requests no run goes on, and what a context records agrees with its state. A run names
the state that it leaves. -/
theorem used_orderly {c : Context} (h : c.Used) : c.state ≠ .active ∧
      (c.exception.isSome = true ↔ c.state = .exception) ∧
      (c.state ∈ [.uninitialized, .prepared, .finished, .aborted] → c.calls.frames = []) ∧
      c.hostFunction = none ∧ c.pendingException = none ∧
      (c.state = .uninitialized → c.module = none ∧ c.function = none ∧ c.objectRegister = none ∧
        c.stack.blocks = #[]) ∧
      (c.needsCleanup = false ↔ c.state = .uninitialized ∨ c.state = .aborted) ∧
      ∀ outcome c', c.Ends outcome c' → c'.state = outcome.state := by
  have hrest := h.atRest
  refine ⟨hrest.idle, hrest.exception, fun hflat => hrest.flat ?_, hrest.host, hrest.pending,
    hrest.vacant, hrest.cleanup,
    fun outcome c' hends => (hrest.ends hends).2⟩
  simpa using hflat

theorem Used.granted {m : Machine} (h : m.ctx.Used) (r : Request) (hwhole : r.isWhole = true)
    (hvalue : value? (r.perform m) = some ()) : (r.perform.after m).ctx.Used :=
  h.request m.engine r hwhole (by rw [ok_of_value hvalue]; trivial)

def readied : Machine :=
  let m : Machine := { engine := Workspace.bound.engine, ctx := Context.new 64 }
  (Request.prepare ⟨2⟩).perform.after
    ((Request.setLineCallback (some { suspendAt := [1] })).perform.after m)

def stalled : Machine := (Request.execute 9).perform.after readied

theorem stalled_used : stalled.ctx.Used := by
  have hnew :
      ({ engine := Workspace.bound.engine, ctx := Context.new 64 } : Machine).ctx.Used := .new 64
  have hcb := hnew.granted (.setLineCallback (some { suspendAt := [1] })) rfl rfl
  have hready : readied.ctx.Used := hcb.granted (.prepare ⟨2⟩) rfl (by decide +kernel)
  exact hready.granted (.execute 9) rfl (by decide +kernel)

/-- It goes on, is asked to abort while it returns from the call, and finishes all the same. -/
theorem stalled_ends : ∃ c, stalled.ctx.Ends .finished c := by
  let go := startRun (runNested (Exec.execute 9))
  let step := Exec.step (runNested (Exec.execute 9))
  let asked := (go.after stalled).onContext fun c => { c with abortRequested := true }
  have hstart : go stalled = .ok () (go.after stalled) := ok_of_value (by decide +kernel)
  have hcee : Advance asked (step.after asked) :=
    .step (by decide +kernel) (ok_of_value (a := .go) (by decide +kernel))
  have hclr : Advance (step.after asked) (step.after (step.after asked)) :=
    .step (by decide +kernel) (ok_of_value (a := .halt) (by decide +kernel))
  have hrun :=
    ((Relation.ReflTransGen.single (Advance.abort (go.after stalled))).tail hcee).tail hclr
  exact ⟨_, .interrupted (e := stalled.engine) hstart hrun (by decide +kernel)
    (ok_of_value (by decide +kernel))⟩

theorem used_orderly_stalled :
    stalled.ctx.Used ∧ stalled.ctx.state = .suspended ∧ stalled.ctx.calls.frames ≠ [] ∧
      stalled.ctx.exception = none ∧
      stalled.ctx.hostFunction = none ∧ stalled.ctx.needsCleanup = true ∧
      ∃ c, stalled.ctx.Ends .finished c ∧ c.state = .finished ∧ c.calls.frames = [] ∧
        c.exception = none := by
  have hstate : stalled.ctx.state = .suspended := by decide +kernel
  obtain ⟨-, hexception, -, hhost, -, -, hcleanup, hnamed⟩ := used_orderly stalled_used
  obtain ⟨c, hends⟩ := stalled_ends
  have hfinished : c.state = .finished := hnamed .finished c hends
  obtain ⟨-, hexception', hflat, -⟩ := used_orderly (stalled_used.run hends)
  refine ⟨stalled_used, hstate, by decide +kernel, ?_, hhost, ?_, c, hends, hfinished, hflat ?_, ?_⟩
  · simpa [hstate] using hexception
  · simpa [hstate] using hcleanup
  · simp [hfinished]
  · simpa [hfinished] using hexception'

end Context

end ScriptVm
