import ScriptVm.Proofs.Execution.Integrity
import ScriptVm.Proofs.Execution.Ranges
import ScriptVm.Proofs.Session.MethodEntry

namespace ScriptVm

/-- Everything is in range, and the places of the arguments are so as long as they may be set. -/
structure Machine.Secure (m : Machine) : Prop where
  firm : m.Firm
  room : m.ctx.state = .prepared → ∀ f, m.ctx.entry = some f →
    m.ctx.fp.offset.toNat + f.argWords < 4294967296

theorem Func.argOffset_le (f : Func) (i : Nat) :
    f.thisWords + total (fun p => p.type.words) (f.signature.params.take i) ≤ f.argWords := by
  have hsplit := total_append (fun p : Parameter => p.type.words) (f.signature.params.take i)
    (f.signature.params.drop i)
  rw [List.take_append_drop] at hsplit
  unfold Func.argWords Signature.paramWords
  omega

/-- What the places of arguments depend on. -/
def Machine.ready (m : Machine) : ContextState × Option Func × Pointer :=
  (m.ctx.state, m.ctx.entry, m.ctx.fp)

namespace Machine

variable {m m' : Machine}

theorem Firm.secure (h : m.Firm) (hst : m.ctx.state ≠ .prepared) : m.Secure :=
  ⟨h, fun hprep => absurd hprep hst⟩

theorem Secure.of_ready (h : m.Secure) (hfirm : m'.Firm) (hready : m'.ready = m.ready) :
    m'.Secure := by
  obtain ⟨hst, hrest⟩ := Prod.mk.inj hready
  obtain ⟨hent, hfp⟩ := Prod.mk.inj hrest
  refine ⟨hfirm, ?_⟩
  rw [hst, hent, hfp]
  exact h.room

theorem secure_new {e : Engine} (he : e.Firm) (limit : UInt32) :
    Secure { engine := e, ctx := Context.new limit } := by
  apply Firm.secure ⟨he, Context.firm_new limit⟩
  intro hprep
  cases hprep

theorem Firm.abortNow_secure (h : m.Firm) : m.abortNow.Secure := by
  apply h.abortNow.secure
  have hst : m.abortNow.ctx.state = .aborted := state_cleanStack _
  rw [hst]
  decide

theorem Secure.applyAbort (h : m.Secure) : m.applyAbort.Secure := by
  unfold Machine.applyAbort
  split
  · have hforg : (m.onContext fun c => { c with abortRequested := false }).Firm :=
      h.firm.onContext { h.firm.ctx with }
    exact hforg.abortNow_secure
  · exact h

end Machine

namespace Exec

open Machine (Firm Secure)

variable {ε α β : Type} {m m' : Machine} {f : Func}

theorem upholds_secure {x : Exec ε α} [hx : Upholds Firm x] [hk : Keeps Machine.ready x] :
    Upholds Secure x :=
  upholds_of fun m hm => (upheld_after _ hm.firm).imp fun hfirm =>
    hm.of_ready hfirm (hk.view_after m)

theorem upheld_onward {x : Exec ε α} [hx : Upholds Firm x] [honward : Obeys .onward x] (hm : m.Firm)
    (hst : m.ctx.state ≠ .prepared) : Upheld Secure (x m) :=
  (upheld_after _ hm).imp fun hfirm => hfirm.secure ((honward.holds m).2 hst)

theorem beginMethod_upheld (hm : m.Firm) (hf : f.Modest) : Upheld Firm (beginMethod f m) := by
  have hneed : f.locals.toNat + f.stackNeeded.toNat + Context.reserve < 4294967296 := by
    unfold Func.Modest at hf
    omega
  refine upheld_word (by omega) (upheld_word hneed (upheld_ctx ?_))
  split
  · exact hm.raise .stackOverflow
  · have hset := hm.setModule (liveModuleOf? m f)
    -- The top goes below the frame pointer, in the same block.
    have hplaced : ((m.setModule (liveModuleOf? m f)).onContext
        fun c => { c with sp := { c.fp with offset := c.fp.offset - f.locals } }).Firm :=
      hset.onContext { hset.ctx with top := hset.ctx.base.of_block rfl }
    exact (hplaced.clearObjectVars f).setFunction hf

section Runs

variable (nested : Nested) [∀ id args, Upholds Firm (nested id args)]

theorem enterHost_upheld (hm : m.Firm) (hf : f.Modest) : Upheld Firm (enterHost nested f m) := by
  have hfr : (m.onContext fun c => { c with sp := c.fp }).Firm :=
    hm.onContext { hm.ctx with top := hm.ctx.base }
  refine Rule.Holds.raising (Q := .upholds Firm) _ (fun _ => ?_) hm
  refine upheld_bind (x := modifyCtx fun c => { c with sp := c.fp }) hfr fun _ m1 _ hm1 => ?_
  refine upheld_bind (callHost_upheld nested hm1 hf none) fun _ m2 _ hm2 => ?_
  exact upheld_after _ hm2

theorem enterMethod_upheld (hm : m.Firm) (declared : Func) :
    Upheld Firm (enterMethod nested declared m) := by
  apply upheld_get
  cases hresolve : (m.handleAt? m.ctx.fp).bind (m.engine.resolveMethod? declared) with
  | none => exact hm.raise .nullPointer
  | some f =>
    obtain ⟨object, -, hresolve⟩ := Option.bind_eq_some_iff.mp hresolve
    obtain ⟨id, hid⟩ := resolveMethod?_table hresolve
    have hf := hm.engine.table id f hid
    dsimp only
    split
    · exact upheld_bind (x := modifyCtx fun c => { c with function := some f })
        (hm.setFunction hf) fun _ m1 _ hm1 =>
        enterHost_upheld nested hm1 hf
    · exact beginMethod_upheld hm hf

instance upholds_enter : Upholds Firm (enter nested) :=
  upholds_of fun m hm => by
    apply upheld_ctx
    cases hf : m.ctx.function with
    | none => exact upheld_after _ hm
    | some f =>
      dsimp only
      cases f.kind with
      | virtual | interface => exact enterMethod_upheld nested hm f
      | host => exact enterHost_upheld nested hm (hm.ctx.current f hf)
      | script | imported => exact hm

end Runs

section Requests

variable (nested : Nested) [∀ id args, Keeps Machine.outline (nested id args)] [∀ id args,
    Upholds Firm (nested id args)]

theorem activate_upheld (hm : m.Firm) (state : ContextState) :
    Upheld Secure (activate nested state m) := by
  have hact : (m.onContext fun c => { c with state := .active }).Firm := hm.onContext { hm.ctx with }
  have hst : (m.onContext fun c => { c with state := .active }).ctx.state ≠ .prepared := by
    intro hst
    cases hst
  have hrest : Upholds Firm (do
      if state = .prepared then enter nested
      if (← ctx).state = .active ∧ (← ctx).function.isNone then
        modifyCtx fun c => { c with state := .finished }) := by
    infer_instance
  refine upheld_bind (x := modifyCtx fun c => { c with state := .active })
    (hact.secure hst) fun _ m1 hset _ => ?_
  cases hset
  exact upheld_onward hact hst

instance secure_startRun : Upholds Secure (startRun nested) :=
  upholds_of fun m hm => by
    have hforg :
        (m.onContext fun c => { c with suspendRequested := false, abortRequested := false }).Firm :=
      hm.firm.onContext { hm.firm.ctx with }
    have hresumed : (resumed m).Firm := hm.firm.onContext { hm.firm.ctx with }
    by_cases hprep : m.ctx.state = .prepared
    · rw [startRun_prepared nested hprep]
      split
      · exact hforg.abortNow_secure
      · exact activate_upheld nested (hm.firm.onContext { hm.firm.ctx with }) .prepared
    · by_cases hsus : m.ctx.state = .suspended
      · rw [startRun_suspended nested hsus]
        split
        · exact hforg.abortNow_secure
        · apply hresumed.secure
          show (if m.ctx.function.isNone then ContextState.finished else .active) ≠ .prepared
          split <;> decide
      · -- In any other state nothing is begun.
        apply upheld_ctx
        rw [if_pos ⟨hprep, hsus⟩]
        exact hm

instance secure_endRun : Upholds Secure endRun :=
  upholds_of fun m hm => by
    have hforg : (m.onContext fun c => { c with abortRequested := false }).Firm :=
      hm.firm.onContext { hm.firm.ctx with }
    rw [endRun_eq m]
    unfold concluded
    split
    · exact hforg.abortNow_secure
    · exact hm.of_ready hforg rfl

instance secure_executeWith (fuel : Nat) : Upholds Secure (executeWith nested fuel) :=
  upholds_of fun m hm => by
    refine upheld_next hm fun _ m1 hm1 => upheld_ctx ?_
    dsimp only
    split
    · rename_i hact
      have hst : m1.ctx.state ≠ .prepared := by
        rw [hact]
        decide
      refine upheld_bind (upheld_onward hm1.firm hst) fun _ m2 _ hm2 => ?_
      exact upheld_after endRun hm2
    · exact upheld_after endRun hm1

end Requests

/-- The arguments of a first function end with the first block, so their places are words. -/
theorem settle_upheld (hm : m.Firm) (hf : f.Modest) : Upheld Secure (settle f m) := by
  have hword : f.entryWords < 4294967296 := by
    unfold Func.Modest at hf
    unfold Func.entryWords
    omega
  have hsettle := settle_eq hm.ctx.stack hword
  obtain ⟨-, hflat, hrooted⟩ := settle_rooted hm.ctx.stack hsettle
  have hengine : (m.settled f).engine.Firm := Engine.Firm.setModule (m := m.laidOut f) hm.engine _
  rw [hsettle]
  show (m.settled f).Secure
  refine ⟨⟨hengine, { hrooted.seated hflat with current := ?_, saved := ?_ }⟩, ?_⟩
  · intro g hg
    cases hg
    exact hf
  · simp [hflat]
  · intro _ g hg
    cases hg
    show ((m.laidOut f).setModule (liveModuleOf? m f)).ctx.fp.offset.toNat + f.argWords < 4294967296
    rw [Machine.setModule_ctx]
    show ((m.firstStack f).entryFp f).offset.toNat + f.argWords < 4294967296
    rw [toNat_entryFp hm.ctx.stack hword]
    exact (m.firstStack f).base.toNat_lt

instance secure_requireIdle : Upholds Secure requireIdle :=
  upholds_of fun m hm => by
    rw [requireIdle_eq]
    split <;> exact hm.applyAbort

theorem prepareFunction_upheld (hm : m.Secure) (hf : f.Modest) :
    Upheld Secure (prepareFunction f m) := by
  refine upheld_next hm fun _ m1 hm1 => ?_
  have hent : Upholds Secure (entryOf f) := by
    unfold entryOf
    infer_instance
  refine upheld_bind (upheld_after _ hm1) fun g m2 hg hm2 => ?_
  have hmodest : g.Modest := by
    obtain ⟨-, rfl | ⟨id, hid⟩⟩ := entryOf_ok hg
    · exact hf
    · exact hm1.firm.engine.table id g hid
  -- What an earlier run has left is given up before the frame is laid out.
  rw [bind_of_ok (leaveRun_eq m2)]
  split
  · exact settle_upheld hm2.firm.releaseRun hmodest
  · exact settle_upheld hm2.firm hmodest

instance secure_prepare (id : FunctionId) : Upholds Secure (prepare id) :=
  upholds_of fun m hm => by
    refine upheld_next hm fun _ m1 hm1 => upheld_engine ?_
    exact upheld_orFail hm1 fun f hf => prepareFunction_upheld hm1 (hm1.firm.engine.table id f hf)

instance secure_unprepare : Upholds Secure unprepare :=
  upholds_of fun m hm => by
    refine upheld_next hm fun _ m1 hm1 => upheld_ctx ?_
    split
    · have hrel := hm1.firm.releaseRun
      have hempty :=
        hrel.withStack (Context.seated_of_empty (Stack.layered_release m1.releaseRun.ctx.stack) rfl)
      have hidle : ((m1.releaseRun.onStack Stack.release).onContext fun c =>
          { c with entry := none, function := none, exception := none,
                   state := .uninitialized }).Firm :=
        ⟨hempty.engine, { hempty.ctx with current := fun f hf => by cases hf }⟩
      apply hidle.secure
      intro hst
      cases hst
    · exact hm1

instance secure_abort : Upholds Secure (abort : Exec ε Unit) :=
  upholds_of fun m hm => by
    have hforg (on : Bool) : (m.onContext fun c => { c with abortRequested := on }).Firm :=
      hm.firm.onContext { hm.firm.ctx with }
    apply upheld_ctx
    split
    · exact (hforg false).abortNow_secure
    · exact hm.of_ready (hforg true) rfl

theorem paramOffset_le {index offset : Nat} (h : f.paramOffset? index = some offset) :
    offset ≤ f.argWords := by
  unfold Func.paramOffset? at h
  split at h
  · cases h
    exact f.argOffset_le index
  · cases h

instance secure_argSlot (index : Nat) : Upholds Secure (argSlot index) :=
  upholds_of fun m hm => by
    apply upheld_ctx
    dsimp only
    split
    · exact hm
    · rename_i hst
      have hprep : m.ctx.state = .prepared := by simpa using hst
      refine upheld_orFail hm fun f hent => ?_
      refine upheld_orFail hm fun offset hoff => ?_
      refine upheld_orFail hm fun p _ => ?_
      have hroom := hm.room hprep f hent
      have hle := paramOffset_le hoff
      exact upheld_word (by omega) hm

instance ready_onHeap (g : Heap → α × Heap) : Keeps Machine.ready (onHeap g : Exec ε α) :=
  ⟨fun _ => rfl⟩

instance arguing_secure : (Rule.upholds Secure).Arguing where
  set m p v hm := hm.of_ready (hm.firm.onStack (m.ctx.stack.layout_set p v)) rfl
  setWords m p v hm := by
    apply hm.of_ready (hm.firm.setWords p v)
    unfold Machine.setWords
    split <;> rfl
  giveUp _ h hm := hm.of_ready (hm.firm.giveUp h) rfl
  release _ := upholds_secure
  retain h :=
    have : Keeps Machine.ready (addRef h : Exec RequestError Bool) := obeys_bind _ _
    upholds_secure
  copy h := by
    have hcopy : Keeps Machine.ready (copyObject h : Exec RequestError (Option Handle)) := by
      refine .bind fun e => ?_
      cases e.heap.get? h <;> infer_instance
    exact upholds_secure
  refuse _ hm := hm
  argSlot := secure_argSlot

instance secure_runFunction (execute : Exec RequestError Outcome) [Upholds Secure execute]
    (id : FunctionId) (args : List UInt32) : Upholds Secure (runFunction execute id args) :=
  obeys_bind _ _

instance upholds_runNested (execute : Exec RequestError Outcome) [Upholds Secure execute]
    (id : FunctionId) (args : List UInt32) : Upholds Firm (runNested execute id args) :=
  upholds_of fun m hm => by
    have hnew : m.engine.newMachine.Secure := Machine.secure_new hm.engine _
    have hrun := upheld_after (runFunction execute id args) hnew
    have htell {i : Machine} (hi : i.Firm) (events : List Event) :
        (i.tellAll events).Firm :=
      List.foldlRecOn events _ hi fun _ hi _ _ => ⟨hi.engine.of_same rfl hi.engine.heap, hi.ctx⟩
    have hends : Upheld Firm ((inNewContext (fun r => [.nested r]) (runFunction execute id args) :
        Exec Fault (Except RequestError NestedRun)) m) := by
      unfold inNewContext
      cases hres : runFunction execute id args m.engine.newMachine with
      | ok a i => exact ⟨(htell (hrun.of_ok hres).firm _).drop.engine, hm.ctx⟩
      | error stop i =>
        rw [hres] at hrun
        cases stop with
        | cause e => exact ⟨(htell hrun.firm _).drop.engine, hm.ctx⟩
        | overflow => exact hrun
        | outOfFuel => trivial
    refine upheld_bind hends fun r m1 _ hm1 => ?_
    cases r <;> exact hm1

instance secure_execute (n : Nat) : Upholds Secure (execute n) := by
  induction n with
  | zero => exact ⟨fun _ _ => trivial⟩
  | succ n ih => exact secure_executeWith (runNested (execute n)) n

end Exec

end ScriptVm
