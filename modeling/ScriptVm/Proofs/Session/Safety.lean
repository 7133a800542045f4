import ScriptVm.Proofs.Execution.Secure

namespace ScriptVm

/-- A heap comes to be another one by the operations on heaps. -/
inductive Heap.Becomes (h : Heap) : Heap → Prop where
  | refl : Becomes h h
  | alloc {k : Heap} (hk : Becomes h k) (type : ObjectType) : Becomes h (k.alloc type).2
  | addRef {k : Heap} (hk : Becomes h k) (r : Handle) : Becomes h (k.addRef r).2
  | release {k : Heap} (hk : Becomes h k) (r : Handle) : Becomes h (k.release r).2
  | giveUp {k : Heap} (hk : Becomes h k) (r : Handle) : Becomes h (k.giveUp r)
  | duplicate {k : Heap} (hk : Becomes h k) (r : Handle) : Becomes h (k.duplicate r).2
  | setWords {k : Heap} (hk : Becomes h k) (r : Handle) (offset : Nat) (words : List UInt32) :
    Becomes h (k.setWords r offset words).2
  | passOn {k : Heap} (hk : Becomes h k) : Becomes h { k with journal := #[] }

theorem Heap.Becomes.listed {h k : Heap} (hk : h.Becomes k) (hl : h.Listed) : k.Listed := by
  induction hk with
  | refl => exact hl
  | alloc _ type ih => exact ih.alloc type
  | addRef _ r ih => exact ih.addRef r
  | release _ r ih => exact ih.release r
  | giveUp _ r ih => exact ih.giveUp r
  | duplicate _ r ih => exact ih.duplicate r
  | setWords _ r offset words ih =>
    unfold Heap.setWords
    split
    · exact ih.modify r _
    · exact ih
  | passOn _ ih => exact ih.of_same rfl rfl

/-- The frames of all functions fit. -/
def Engine.Modest (e : Engine) : Prop := ∀ id f, e.function? id = some f → f.Modest

theorem Engine.modest_of_all {e : Engine}
    (h : (e.functions.all fun f => f.all fun f => decide f.Modest) = true) : e.Modest := by
  intro id f hf
  obtain ⟨slot, hslot, hsome⟩ : ∃ slot, e.functions[id.val.toNat]? = some slot ∧ slot = some f := by
    simpa [function?, Option.join_eq_some_iff] using hf
  have hmem := Array.mem_of_getElem? hslot
  have hmodest := Array.all_eq_true_iff_forall_mem.mp h slot hmem
  simpa [hsome] using hmodest

/-- A function that is brought along has a frame that fits. -/
def Request.Modest : Request → Prop
  | .prepareFunction f => f.Modest
  | _ => True

/-- The sessions in which the frames of all functions fit. Between requests anything may be done to
the engine. A request that stops because something is out of range, or because the bound on its
steps is reached, is followed by nothing. -/
inductive Session.Modest : Session → Prop where
  | new {e : Engine} (he : e.Modest) (hheap : Heap.Becomes {} e.heap) : Modest { engine := e }
  | engine {s : Session} (h : Modest s) {e : Engine} (he : e.Modest)
      (hheap : s.engine.heap.Becomes e.heap) : Modest { s with engine := e }
  | request {s : Session} (h : Modest s) (number : Nat) {r : Request} (hr : r.Modest)
      (hrange : (s.inContext number r.perform).1 ≠ .error .overflow)
      (hfuel : (s.inContext number r.perform).1 ≠ .error .outOfFuel) :
    Modest (s.inContext number r.perform).2
  | dropContext {s : Session} (h : Modest s) (number : Nat) : Modest (s.dropContext number).2

open Exec

namespace Exec

/-- A run that is active comes to a fault in so many instructions. The last machine is the one that
finds it. -/
inductive Faults (nested : Nested) : Nat → Machine → Fault → Machine → Prop where
  | fetch {m : Machine} (hactive : m.ctx.state = .active) (hfetch : fetch? m.ctx = none) :
    Faults nested 1 m .badCode (m.onContext Context.advance)
  | exec {m m' : Machine} {i : Instr} {fault : Fault} (hactive : m.ctx.state = .active)
      (hfetch : fetch? m.ctx = some i)
      (hexec : Exec.exec nested i (m.onContext Context.advance) = .error (.cause fault) m') :
    Faults nested 1 m fault m'
  | next {m m1 m' : Machine} {k : Nat} {fault : Fault} (hactive : m.ctx.state = .active)
      (hstep : step nested m = .ok .go m1) (h : Faults nested k m1 fault m') :
    Faults nested (k + 1) m fault m'

variable {nested : Nested} {m m' : Machine} {k n : Nat} {fault : Fault}

theorem Faults.active (h : Faults nested k m fault m') : m.ctx.state = .active := by
  cases h <;> assumption

theorem Faults.steps (h : Faults nested k m fault m') (hk : k ≤ n) :
    Exec.steps nested n m = .ok () (m'.raise fault) := by
  induction h generalizing n with
  | @fetch m hact hfetch =>
    obtain ⟨n, rfl⟩ := Nat.exists_eq_add_of_le' hk
    show (if m.ctx.state = .active then _ else _ : Exec RequestError Unit) m = _
    rw [if_pos hact, bind_of_ok (step_no_instr nested hfetch)]
    rfl
  | @exec m m' i fault hact hfetch hexec =>
    obtain ⟨n, rfl⟩ := Nat.exists_eq_add_of_le' hk
    have hstep : step nested m = .ok .halt (m'.raise fault) := by
      rw [step_eq nested hfetch, raising, hexec]
    show (if m.ctx.state = .active then _ else _ : Exec RequestError Unit) m = _
    rw [if_pos hact, bind_of_ok hstep]
    rfl
  | @next m m1 m' k fault hact hstep _ ih =>
    obtain ⟨n, rfl⟩ : ∃ n', n = n' + 1 := ⟨n - 1, by omega⟩
    show (if m.ctx.state = .active then _ else _ : Exec RequestError Unit) m = _
    rw [if_pos hact, bind_of_ok hstep]
    exact ih (by omega)

theorem Faults.execute {m1 : Machine} (hstart : startRun (runNested (Exec.execute n)) m = .ok () m1)
    (h : Faults (runNested (Exec.execute n)) k m1 fault m') (hk : k ≤ n) :
    ∃ ended, Exec.execute (n + 1) m = .ok .exception ended ∧ ended.ctx.state = .exception ∧
      ended.ctx.exception = some (m'.ctx.exceptionOf fault) := by
  have hraised := raise_ctx m' fault
  have hst : (m'.raise fault).ctx.state = .exception := by rw [hraised]
  have hend : endRun (m'.raise fault) =
      .ok .exception ((m'.raise fault).onContext fun c => { c with abortRequested := false }) := by
    have hconc : concluded (m'.raise fault) = (m'.raise fault).onContext fun c =>
        { c with abortRequested := false } := by
      unfold concluded
      rw [hst, if_neg]
      intro hboth
      cases hboth.2
    rw [endRun_eq, hconc]
    show EStateM.Result.ok (outcomeOf (m'.raise fault).ctx.state) _ = _
    rw [hst]
    rfl
  refine ⟨(m'.raise fault).onContext fun c => { c with abortRequested := false }, ?_, hst, ?_⟩
  · show executeWith (runNested (Exec.execute n)) n m = _
    unfold executeWith
    rw [bind_of_ok hstart]
    show (if m1.ctx.state = .active then _ else _ : Exec RequestError Outcome) m1 = _
    rw [if_pos h.active, bind_of_ok (h.steps hk)]
    exact hend
  · show (m'.raise fault).ctx.exception = _
    rw [hraised]

theorem execute_sure (hm : m.ctx.state = .prepared ∨ m.ctx.state = .suspended) (fuel : Nat) :
    cause? (Exec.execute fuel m) = none := by
  cases fuel with
  | zero => rfl
  | succ n =>
    have hbegin : startRun (runNested (Exec.execute n)) m =
        beginRun (runNested (Exec.execute n)) m.ctx.state m := by
      show (if m.ctx.state ≠ .prepared ∧
          m.ctx.state ≠ .suspended then _ else _ : Exec RequestError Unit) m = _
      rw [if_neg fun hne => hm.elim hne.1 hne.2]
    have hrun : Sure (do
        beginRun (runNested (Exec.execute n)) m.ctx.state
        if (← ctx).state = .active then Exec.steps (runNested (Exec.execute n)) n
        endRun) := obeys_bind _ _
    have hsame : Exec.execute (n + 1) m = (do
        beginRun (runNested (Exec.execute n)) m.ctx.state
        if (← ctx).state = .active then Exec.steps (runNested (Exec.execute n)) n
        endRun : Exec RequestError Outcome) m := by
      show executeWith (runNested (Exec.execute n)) n m = _
      simp only [executeWith, bind, EStateM.bind, hbegin]
    rw [hsame]
    exact hrun.no_cause m

end Exec

theorem Request.secure_perform {r : Request} (hr : r.Modest) : Upholds Machine.Secure r.perform := by
  cases hadj : r.adjusts with
  | true =>
    refine obeys_adjusts (fun {m f} hasks hm => ?_)
      (fun _ _ hm => hm.of_ready (hm.firm.onContext { hm.firm.ctx with }) rfl) hadj
    have hready := congrArg (fun c => (c.state, c.entry, c.fp)) hasks.body
    exact hm.of_ready (pushing_firm.asks hasks hm.firm) hready
  | false =>
    cases r with
    | prepareFunction f => exact ⟨fun m hm => prepareFunction_upheld hm hr⟩
    | step fuel =>
      constructor
      intro m hm
      apply upheld_ctx
      split
      · rename_i hact
        have hst : m.ctx.state ≠ .prepared := by
          rw [hact]
          decide
        exact upheld_map (upheld_onward hm.firm hst) _
      · exact hm
    | prepare id => exact secure_prepare id
    | unprepare => exact secure_unprepare
    | abort => exact secure_abort
    | startRun fuel => exact secure_startRun _
    | execute | endRun => exact obeys_bind _ _
    | _ => cases hadj

namespace Session

variable {s : Session}

structure Secure (s : Session) : Prop where
  engine : s.engine.Firm
  contexts : ∀ c ∈ s.contexts, Machine.Secure { engine := s.engine, ctx := c.2 }

theorem Secure.change {t : Session} (h : s.Secure) (he : t.engine.Firm)
    (hctxs : ∀ c ∈ t.contexts, c ∈ s.contexts ∨ Machine.Secure { engine := t.engine, ctx := c.2 }) :
    t.Secure := by
  refine ⟨he, ?_⟩
  intro c hc
  rcases hctxs c hc with hold | hnew
  · have hsecure := h.contexts c hold
    exact ⟨⟨he, hsecure.firm.ctx⟩, hsecure.room⟩
  · exact hnew

theorem Secure.machine (h : s.Secure) (number : Nat) : (s.machine number).Secure := by
  unfold Session.machine Session.context
  cases hfind : s.contexts.find? fun c => c.1 == number with
  | none => exact Machine.secure_new h.engine _
  | some c => exact h.contexts c (List.mem_of_find?_eq_some hfind)

theorem mem_setContext {number : Nat} {ctx : Context} {c : Nat × Context}
    (hc : c ∈ (s.setContext number ctx).contexts) : c = (number, ctx) ∨ c ∈ s.contexts := by
  unfold setContext at hc
  rcases List.mem_append.mp hc with hbef | hrest
  · exact .inr ((List.takeWhile_sublist _).mem hbef)
  · rcases List.mem_cons.mp hrest with heq | hafter
    · exact .inl heq
    · exact .inr ((List.dropWhile_sublist _).mem hafter)

theorem Secure.setContext (h : s.Secure) (number : Nat) {m : Machine} (hm : m.Secure) :
    (Session.setContext { engine := m.engine, contexts := s.contexts.filter fun c => c.1 != number }
      number m.ctx).Secure := by
  apply h.change hm.firm.engine
  intro c hc
  rcases mem_setContext hc with rfl | hold
  · exact .inr hm
  · exact .inl (List.mem_filter.mp hold).1

/-- A request that stops because something is out of range has found a count of references out of
range. -/
theorem Secure.inContext (h : s.Secure) (number : Nat) (x : Exec RequestError Unit)
    [hx : Upholds Machine.Secure x] :
    ((s.inContext number x).1 = .error .overflow → (s.inContext number x).2.engine.heap.Crowded) ∧
      ((s.inContext number x).1 ≠ .error .overflow → (s.inContext number x).1 ≠ .error .outOfFuel →
        (s.inContext number x).2.Secure) := by
  have hupheld : Upheld Machine.Secure (x (s.machine number)) :=
    upheld_after x (h.machine number)
  unfold Session.inContext
  dsimp only
  cases hend : x (s.machine number) with
  | ok a m =>
    refine ⟨?_, fun _ _ => h.setContext number (hupheld.of_ok hend)⟩
    intro hnone
    cases hnone
  | error stop m =>
    rw [hend] at hupheld
    cases stop with
    | cause e =>
      refine ⟨?_, fun _ _ => h.setContext number hupheld⟩
      intro hnone
      cases hnone
    | overflow => exact ⟨fun _ => hupheld, fun hrng => absurd rfl hrng⟩
    | outOfFuel =>
      refine ⟨?_, fun _ hfuel => absurd rfl hfuel⟩
      intro hnone
      cases hnone

theorem Secure.dropContext (h : s.Secure) (number : Nat) : (s.dropContext number).2.Secure := by
  unfold Session.dropContext
  split
  · apply h.change (h.machine number).firm.drop.engine
    intro c hc
    exact .inl (List.mem_filter.mp hc).1
  · exact h

theorem Modest.secure (h : s.Modest) : s.Secure := by
  have hempty : Heap.Listed {} := by
    intro i hi
    cases hi
  induction h with
  | new he hheap =>
    refine ⟨⟨he, hheap.listed hempty⟩, ?_⟩
    intro c hc
    cases hc
  | @engine s _ e he hheap ih =>
    have hfirm : e.Firm := ⟨he, hheap.listed ih.engine.heap⟩
    apply ih.change (t := { s with engine := e }) hfirm
    intro c hc
    exact .inl hc
  | request _ number hr hrng hfuel ih =>
    have hperform := Request.secure_perform hr
    exact (ih.inContext number _).2 hrng hfuel
  | dropContext _ number ih => exact ih.dropContext number

/-- Whatever code functions hold, and whatever handles and addresses are in it: if their frames fit,
a context stops for something out of range only if an object has as many references as a word can
count. What an instruction finds wrong becomes the exception of its run, a run that may begin or go
on is never refused, and nothing is raised while frames are cleaned up, where the offsets of all
arguments are words. -/
theorem contexts_stay_in_range {s : Session} (h : s.Modest) (number : Nat) :
    (∀ r : Request, r.Modest → (s.inContext number r.perform).1 = .error .overflow →
      (s.inContext number r.perform).2.engine.heap.Crowded) ∧
    (∀ fuel, (s.context number).state = .prepared ∨ (s.context number).state = .suspended →
      cause? (execute fuel (s.machine number)) = none) ∧
    (∀ n k fault m1 m', startRun (runNested (execute n)) (s.machine number) = .ok () m1 →
      Faults (runNested (execute n)) k m1 fault m' → k ≤ n →
        ∃ ended, execute (n + 1) (s.machine number) = .ok .exception ended ∧
          ended.ctx.state = .exception ∧
          ended.ctx.exception = some (m'.ctx.exceptionOf fault)) ∧
    (∀ m : Machine, m.cleanStack.alarms = m.alarms) ∧
    ∀ f, ((s.context number).function = some f ∨ ∃ frame ∈ (s.context number).calls.frames,
      frame.function = f) →
      ∀ i, f.thisWords + total (fun p => p.type.words) (f.signature.params.take i) < 4294967296 := by
  have hsecure := h.secure
  refine ⟨?_, fun fuel hstate => execute_sure hstate fuel, ?_, Machine.alarms_cleanStack, ?_⟩
  · intro r hr
    have hperform := Request.secure_perform hr
    exact (hsecure.inContext number r.perform).1
  · intro n k fault m1 m' hstart hfaults hk
    exact hfaults.execute hstart hk
  · intro f hf i
    have hctx := (hsecure.machine number).firm.ctx
    have hmodest : f.Modest := by
      rcases hf with hcurrent | ⟨frame, hframe, rfl⟩
      · exact hctx.current f hcurrent
      · exact hctx.saved frame hframe
    exact Nat.lt_of_le_of_lt (f.argOffset_le i) hmodest.argWords

def wild : Func := { name := "wild", code := #[.pushQword 0xffffffffffffffff, .load, .ret 0] }

def lax : Engine :=
  (Workspace.load { engine := { config := { verify := false, initialStack := 8 } } } "lib" []
    [wild]).engine

def hostile : Session := (Session.inContext { engine := lax } 1 (Request.prepare ⟨1⟩).perform).2

theorem hostile_modest : hostile.Modest := by
  have hfns : lax.Modest := Engine.modest_of_all (by decide +kernel)
  have hheap : lax.heap = {} := by decide +kernel
  have hnew : Session.Modest { engine := lax } := by
    apply Modest.new hfns
    rw [hheap]
    exact .refl
  exact hnew.request 1 (r := .prepare ⟨1⟩) trivial (by decide +kernel) (by decide +kernel)

def launched : Machine := (startRun (runNested (execute 8))).after (hostile.machine 1)

def pushed : Machine := (step (runNested (execute 8))).after launched

/-- Nothing gets out of range; the second instruction faults, and so the run ends with an
exception. -/
theorem contexts_stay_in_range_hostile :
    (hostile.inContext 1 (Request.execute 9).perform).1 ≠ .error .overflow ∧
      ∃ ended exception, execute 9 (hostile.machine 1) = .ok .exception ended ∧
        ended.ctx.state = .exception ∧
        ended.ctx.exception = some exception ∧ exception.fault = .nullPointer := by
  obtain ⟨hrange, -, hfaults, -, -⟩ := contexts_stay_in_range hostile_modest 1
  constructor
  · intro hstop
    obtain ⟨r, o, hr, -⟩ := hrange (.execute 9) trivial hstop
    have hheap : (hostile.inContext 1 (Request.execute 9).perform).2.engine.heap = {} := by
      decide +kernel
    rw [hheap] at hr
    cases hr
  · have hstart : startRun (runNested (execute 8)) (hostile.machine 1) = .ok () launched :=
      ok_of_value (by decide +kernel)
    have hpush : step (runNested (execute 8)) launched = .ok .go pushed :=
      ok_of_value (by decide +kernel)
    have hload : cause? (exec (runNested (execute 8)) .load (pushed.onContext Context.advance)) =
        some .nullPointer := by decide +kernel
    have hlast : pushed.ctx.state = .active ∧ fetch? pushed.ctx = some .load := by decide +kernel
    have hfirst : launched.ctx.state = .active := by decide +kernel
    have hfault := Faults.next hfirst hpush (.exec hlast.1 hlast.2 (error_of_cause hload))
    obtain ⟨ended, hend, hstate, hexception⟩ :=
      hfaults 8 2 .nullPointer _ _ hstart hfault (by decide)
    exact ⟨ended, _, hend, hstate, hexception, Context.fault_exceptionOf _ .nullPointer⟩

end Session

end ScriptVm
