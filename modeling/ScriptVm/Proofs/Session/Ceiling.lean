import ScriptVm.Proofs.Execution.FieldAccess
import ScriptVm.Proofs.Execution.Moves
import ScriptVm.Proofs.Session.Handover
import ScriptVm.Proofs.Session.Lifecycle

namespace ScriptVm

open Context

namespace Machine

variable (m : Machine)

theorem passes_cleanFrame : m.ctx.Passes m.cleanFrame.ctx :=
  (robust_of_lenient m.ctx).cleanFrame (Gradual.refl _)

theorem passes_cleanStack : m.ctx.Passes m.cleanStack.ctx := by
  have hmarked (c : Context) : c.Passes { c with needsCleanup := false } :=
    .of_same rfl rfl rfl rfl id
  exact cleanStack_induct (P := fun m' => m.ctx.Passes m'.ctx)
    (fun h => Gradual.trans h (passes_cleanFrame _))
    (fun hfrs h => Gradual.trans h (Machine.passes_restore _ hfrs))
      (fun h => Gradual.trans h (hmarked _)) (Gradual.refl _)

theorem passes_abortNow : m.ctx.Passes m.abortNow.ctx := by
  have hst : m.ctx.Passes (m.onContext fun c => { c with state := .aborted }).ctx :=
    .of_same rfl rfl rfl rfl id
  exact Gradual.trans hst (passes_cleanStack _)

theorem stays_applyAbort : m.ctx.Stays m.applyAbort.ctx := by
  unfold applyAbort
  split
  · have hcld : m.ctx.Stays (m.onContext fun c => { c with abortRequested := false }).ctx :=
      .of_same rfl rfl rfl rfl
    exact Gradual.trans hcld (passes_abortNow _).toStays
  · exact Gradual.refl _

theorem passes_setModule (module : Option ModuleId) : m.ctx.Passes (m.setModule module).ctx := by
  rw [setModule_ctx]
  exact .of_same rfl rfl rfl rfl id

theorem passes_releaseRun : m.ctx.Passes m.releaseRun.ctx := by
  have hdrop (c : Context) : c.Passes { c with objectRegister := none, module := none } :=
    .of_same rfl rfl rfl rfl id
  rw [releaseRun_ctx]
  refine Gradual.trans ?_ (hdrop _)
  split
  · exact m.passes_cleanStack
  · exact Gradual.refl _

end Machine

namespace Exec

variable {ε : Type}

instance passes_setSuspend (asked : Bool) :
    Moves Passes (modifyCtx fun c => { c with suspendRequested := asked } : Exec ε Unit) :=
  moves_modifyCtx fun _ => .of_same rfl rfl rfl rfl id

instance stays_setAbort (asked : Bool) :
    Moves Stays (modifyCtx fun c => { c with abortRequested := asked } : Exec ε Unit) :=
  moves_modifyCtx fun _ => .of_same rfl rfl rfl rfl

instance passes_abort : Moves Passes (modify Machine.abortNow : Exec ε PUnit) :=
  obeys_modify Machine.passes_abortNow

instance entering_passes : (Rule.moves Passes).Entering where
  toBase _ := { plan := rfl, abort := id, seated := fun hs => { hs with top := hs.base } }
  setFunction _ _ := .of_same rfl rfl rfl rfl id
  beginMethod f := by
    have : Moves Passes (modify fun m => m.setModule (liveModuleOf? m f) : Exec RequestError PUnit) :=
      obeys_modify fun m => m.passes_setModule _
    have : Moves Passes
        (modifyCtx fun c => { c with sp := { c.fp with offset := c.fp.offset - f.locals } } : Exec
          RequestError Unit) :=
      moves_modifyCtx fun c =>
        { plan := rfl, abort := id, seated := fun hs => { hs with top := hs.base.of_block rfl } }
    have : Moves Passes (modify fun m => m.clearObjectVars f : Exec RequestError PUnit) :=
      obeys_modify fun m => m.passes_clearObjectVars f
    have : Moves Passes (modifyCtx fun c => { c with function := some f } : Exec RequestError Unit) :=
      moves_modifyCtx fun _ => .of_same rfl rfl rfl rfl id
    exact obeys_bind _ _

instance stays_endRun : Moves Stays endRun := obeys_bind _ _

section Running

variable (nested : Nested) [∀ id args, Moves Passes (nested id args)]

instance stays_startRun : Moves Stays (startRun nested) := by
  have hbegin (state : ContextState) : Moves Stays (beginRun nested state) := obeys_bind _ _
  exact obeys_bind _ _

instance stays_executeWith (n : Nat) : Moves Stays (executeWith nested n) := obeys_bind _ _

end Running

instance stays_execute (n : Nat) : Moves Stays (execute n) := by
  cases n with
  | zero => exact moves_of_keeps (throw _)
  | succ n => exact stays_executeWith (runNested (execute n)) n

instance arguing_passes : (Rule.moves Passes).Arguing where
  set m p v := .of_same (m.ctx.stack.layout_set p v) rfl rfl rfl id
  setWords _ p v := Machine.moves_setWords (Gradual.refl _) p v
  giveUp m _ := Gradual.refl m.ctx
  release _ := inferInstance
  retain _ := inferInstance
  copy h := by
    refine .bind fun e => ?_
    cases e.heap.get? h <;> infer_instance
  refuse m := Gradual.refl m.ctx
  argSlot _ := inferInstance

end Exec

namespace Request

open Exec

/-- All requests but those that prepare or unprepare leave the blocks as they are, or add some
within the limit. -/
theorem stays_perform {r : Request} (h : r.settlesAbort = false) : Moves Stays r.perform := by
  cases hadj : r.adjusts with
  | true =>
    have := obeys_adjusts (Q := .moves Passes) noting_moves.asks
      (fun _ _ => .of_same rfl rfl rfl rfl id) hadj
    infer_instance
  | false =>
    cases r with
    | prepare | prepareFunction | unprepare => cases h
    | execute | step | endRun => exact obeys_bind _ _
    | startRun fuel => exact stays_startRun _
    | abort =>
      have : Moves Stays (Exec.requestAbort : Exec RequestError Unit) := stays_setAbort true
      exact obeys_bind _ _
    | _ => cases hadj

end Request

/-- Words of the stack that a function needs as the first one. -/
def Func.entryWords (f : Func) : Nat := f.argWords + f.stackNeeded.toNat + Context.reserve

/-- There is a single block, in which the frame of the first function lies. It was the first one
before, of `base` words, and has room for the function; or it is a new one. -/
structure Context.Rooted (c : Context) (f : Func) (initial base limit : UInt32) : Prop where
  layered : c.stack.Layered
  single : c.stack.blocks.size = 1
  limit_eq : c.stack.limit = limit
  size : c.stack.base = base ∧ f.entryWords ≤ base.toNat ∨
    c.stack.base.toNat = max f.entryWords initial.toNat
  top : c.sp.block = 0
  frame : c.fp.block = 0

theorem Stack.toNat_max (a b : UInt32) : (max a b).toNat = max a.toNat b.toNat := by
  show (if a ≤ b then b else a).toNat = _
  split <;> rename_i hle <;> rw [UInt32.le_iff_toNat_le] at hle <;> omega

/-- The stack of a run that needs so many words at first. -/
def Stack.firstFor (s : Stack) (needed : Nat) (initial : UInt32) : Stack :=
  if !s.isAllocated || s.base.toNat < needed then s.reset (max needed.toUInt32 initial)
  else s.keepFirst

theorem Stack.Layered.first {s : Stack} (hs : s.Layered) {needed : Nat}
    (hword : needed < 4294967296) (initial : UInt32) :
    (s.firstFor needed initial).Layered ∧ (s.firstFor needed initial).blocks.size = 1 ∧
      (s.firstFor needed initial).limit = s.limit ∧
      ((s.firstFor needed initial).base = s.base ∧ needed ≤ s.base.toNat ∨
        (s.firstFor needed initial).base.toNat = max needed initial.toNat) := by
  unfold firstFor
  split
  · refine ⟨s.layered_reset _, rfl, rfl, .inr ?_⟩
    have hneed : needed.toUInt32.toNat = needed := Nat.mod_eq_of_lt hword
    show (max needed.toUInt32 initial).toNat = max needed initial.toNat
    rw [toNat_max, hneed]
  · rename_i hkept
    simp only [Stack.isAllocated, Bool.not_not, Bool.or_eq_true, decide_eq_true_eq, not_or,
      Nat.not_lt, Bool.not_eq_true] at hkept
    have hthere : s.blocks.size ≠ 0 := by simpa using hkept.1
    refine ⟨hs.keepFirst, ?_, rfl, .inl ⟨rfl, hkept.2⟩⟩
    have hsize : s.keepFirst.blocks.size = min 1 s.blocks.size := by simp [Stack.keepFirst]
    omega

/-- The frame pointer of a function in the first block. Its arguments are at the top. -/
def Stack.entryFp (s : Stack) (f : Func) : Pointer :=
  { block := 0, offset := (s.top 0).offset - f.argWords.toUInt32 }

/-- The words for the arguments of a function in the first block are zero. -/
def Stack.clearArgs (s : Stack) (f : Func) : Stack :=
  if s.containsRange (s.entryFp f) f.argWords then s.clear (s.entryFp f) f.argWords else s

namespace Machine

/-- The stack on which the first frame of a function lies. -/
def firstStack (m : Machine) (f : Func) : Stack :=
  m.ctx.stack.firstFor f.entryWords m.engine.config.initialStack

def placed (m : Machine) (f : Func) : Machine :=
  m.onContext fun c =>
    { c with
      fp := c.stack.entryFp f
      sp := { block := 0,
              offset := (c.stack.entryFp f).offset - min f.locals (c.stack.entryFp f).offset }
      stack := (c.stack.clearArgs f).clearVars (c.stack.entryFp f) f.objectVars }

def laidOut (m : Machine) (f : Func) : Machine := (m.onStack fun _ => m.firstStack f).placed f

theorem layout_laidOut (m : Machine) (f : Func) :
    (m.laidOut f).ctx.stack.layout = (m.firstStack f).layout := by
  refine (Stack.layout_clearVars ..).trans ?_
  unfold Stack.clearArgs
  split
  · exact Stack.layout_clear ..
  · rfl

end Machine

namespace Exec

variable {f : Func} {m m' : Machine}

theorem laidOut_of_layoutEntry (h : layoutEntry f m = .ok () m') :
    f.entryWords < 4294967296 ∧ m' = m.laidOut f := by
  obtain ⟨_, m1, hneed, h1⟩ := bind_ok h
  obtain ⟨hword, rfl⟩ := wordOrStop_ok hneed
  have h2 := engine_ok h1
  replace h2 := ctx_ok h2
  replace h2 := ctx_ok h2
  obtain ⟨_, m2, hstk, h3⟩ := bind_ok h2
  cases hstk
  have hplace := ctx_ok h3
  obtain ⟨_, m3, hroom, h4⟩ := bind_ok hplace
  obtain ⟨-, rfl⟩ := ensure_ok hroom
  cases h4
  exact ⟨hword, Machine.clearObjectVars_eq _ f⟩

theorem layoutEntry_rooted (hm : m.ctx.stack.Layered) (h : layoutEntry f m = .ok () m') :
    m'.ctx.Rooted f m.engine.config.initialStack m.ctx.stack.base m.ctx.stack.limit := by
  obtain ⟨hword, rfl⟩ := laidOut_of_layoutEntry h
  have hlyt := m.layout_laidOut f
  obtain ⟨hlay, hsgl, hlim, hsize⟩ := hm.first hword m.engine.config.initialStack
  refine ⟨hlay.of_layout hlyt, ?_, ?_, ?_, rfl, rfl⟩
  · exact (Stack.blocks_size_of_layout hlyt).trans hsgl
  · exact (Stack.limit_of_layout hlyt).trans hlim
  · rw [Stack.base_of_layout hlyt]
    exact hsize

theorem settle_rooted (hm : m.ctx.stack.Layered) (h : settle f m = .ok () m') :
    m'.ctx.entry = some f ∧ m'.ctx.calls.frames = [] ∧
      m'.ctx.Rooted f m.engine.config.initialStack m.ctx.stack.base m.ctx.stack.limit := by
  obtain ⟨_, m1, hlyt, h1⟩ := bind_ok h
  obtain ⟨_, m2, hmod, h2⟩ := bind_ok h1
  cases hmod
  cases h2
  have hrooted := layoutEntry_rooted hm hlyt
  have hctx := m1.setModule_ctx (liveModuleOf? m1 f)
  refine ⟨rfl, rfl, ?_⟩
  show (Context.preparedFor (m1.setModule (liveModuleOf? m1 f)).ctx f).Rooted _ _ _ _
  rw [hctx]
  exact { hrooted with }

instance passes_leaveRun : Moves Passes leaveRun :=
  have _ : Moves Passes (modify Machine.releaseRun : Exec RequestError PUnit) :=
    obeys_modify Machine.passes_releaseRun
  obeys_bind _ _

theorem prepareFunction_rooted (hm : m.ctx.Seated) (h : prepareFunction f m = .ok () m') :
    ∃ g, m'.ctx.entry = some g ∧ m'.ctx.calls.frames = [] ∧
      m'.ctx.Rooted g m.engine.config.initialStack m.ctx.stack.base m.ctx.stack.limit := by
  obtain ⟨g, m1, hent, h1⟩ := bind_ok (requireIdle_ok h)
  obtain ⟨rfl, -⟩ := entryOf_ok hent
  obtain ⟨_, m2, hleave, hsettle⟩ := bind_ok h1
  -- Neither an abortion nor what an earlier run has left changes what the blocks come from.
  have hstays : m.ctx.Stays m2.ctx :=
    Gradual.trans m.stays_applyAbort (passes_leaveRun.of_ok hleave).toStays
  have hcat : m2.catalog = m.catalog :=
    (keeps_catalog_leaveRun.of_ok hleave).trans m.catalog_applyAbort
  have hcfg : m2.engine.config = m.engine.config := Engine.config_of_catalog hcat
  obtain ⟨hbase, hlim⟩ := Prod.mk.inj hstays.plan
  have hrooted := settle_rooted (hstays.seated hm).stack hsettle
  rw [hcfg, hbase, hlim] at hrooted
  exact ⟨g, hrooted⟩

theorem prepare_rooted {id : FunctionId} (hm : m.ctx.Seated) (h : prepare id m = .ok () m') :
    ∃ g, m'.ctx.entry = some g ∧ m'.ctx.calls.frames = [] ∧
      m'.ctx.Rooted g m.engine.config.initialStack m.ctx.stack.base m.ctx.stack.limit := by
  obtain ⟨e, m1, he, h1⟩ := bind_ok (requireIdle_ok h)
  cases he
  obtain ⟨f, m2, hfd, h2⟩ := bind_ok h1
  obtain ⟨-, rfl⟩ := orFail_ok hfd
  have hstays := m.stays_applyAbort
  have hrooted := prepareFunction_rooted (hstays.seated hm) h2
  have hcfg : m.applyAbort.engine.config = m.engine.config :=
    Engine.config_of_catalog m.catalog_applyAbort
  obtain ⟨hbase, hlim⟩ := Prod.mk.inj hstays.plan
  rwa [hcfg, hbase, hlim] at hrooted

end Exec

/-- No block that is there or may be added has room for the arguments of a call and what the
function needs below them. -/
def Context.Crowded (c : Context) (callee : Func) : Prop :=
  c.sp.offset.toNat < callee.stackNeeded.toNat + reserve ∧
    ∀ i, c.sp.block.toNat < i → c.stack.Admits i →
      c.stack.base.toNat * Nat.pow 2 i < callee.argWords + (callee.stackNeeded.toNat + reserve)

namespace Exec

theorem callScript_crowded {callee : Func} {m : Machine} (hm : m.ctx.Seated)
    (hargs : callee.argWords < 4294967296) (hneed : callee.stackNeeded.toNat + reserve < 4294967296)
    (hcrd : m.ctx.Crowded callee) :
    ∃ m', callScript callee m = .error (.cause .stackOverflow) m' := by
  obtain ⟨-, -, -, hfull⟩ :=
    hm.stack.grow hm.top (callee.stackNeeded.toNat + reserve) callee.argWords
  have hnone : (m.ctx.stack.grow m.ctx.sp (callee.stackNeeded.toNat + reserve) callee.argWords).1 =
      .error .full := by
    apply hfull.mpr
    refine ⟨hcrd.1, fun i hi hadm => ?_⟩
    have hsmall := hcrd.2 i hi hadm
    have hreserve : 0 < reserve := by decide
    omega
  obtain ⟨m', hgrow⟩ : ∃ m', growStack (callee.stackNeeded.toNat + reserve) callee.argWords m =
      .error (.cause .stackOverflow) m' :=
    ⟨_, growStack_of_error (Prod.ext hnone rfl)⟩
  refine ⟨m', ?_⟩
  unfold callScript placeArgs
  rw [ctx_bind]
  apply bind_of_error
  rw [bind_of_ok (wordOrStop_of_lt hargs m), bind_of_ok (wordOrStop_of_lt hneed m), ctx_bind]
  exact bind_of_error hgrow _

/-- Stores a new object and pushes it for its constructor. -/
def placeNew (f : Func) (object : Handle) : Exec Fault Unit := do
  let a ← orFail .nullPointer (Address.ofBits? (← peek64 f.signature.paramWords))
  storeNew a object
  push64 object.bits

/-- The instruction calls a script function, and the second machine is the one that is found by the
call. -/
inductive Enters (m : Machine) : Instr → Func → Machine → Prop where
  | call {id : FunctionId} {f : Func} (hf : m.engine.function? id = some f) : Enters m (.call id) f m
  | bound {id target : FunctionId} {f : Func} {g : Module} {k : Nat} {slot : ImportSlot}
      (hmodule : m.ctx.module.bind m.engine.built? = some g) (hindex : id.importIndex? = some k)
      (hslot : g.imports[k]? = some slot) (hbound : slot.bound = some target)
      (hf : m.engine.function? target = some f) : Enters m (.callBound id) f m
  | method {id : FunctionId} {declared f : Func} {object : Handle}
      (hdeclared : m.engine.function? id = some declared)
      (hobject : m.handleAt? m.ctx.sp = some object)
      (hf : m.engine.resolveMethod? declared object = some f) (hscript : f.kind ≠ .host) :
    Enters m (.callMethod id) f m
  | construction {type : TypeId} {t : ObjectType} {constructor : FunctionId} {f : Func}
      {object : Handle} {m1 m2 : Machine} (htype : m.engine.types.get? type = some t)
      (hnew : (newObject t : Exec Fault Handle) m = .ok object m1) (hsome : constructor ≠ .none)
      (hf : m1.engine.function? constructor = some f) (hscript : f.kind = .script)
      (hwords : f.signature.paramWords < 4294967296) (hplaced : placeNew f object m1 = .ok () m2) :
    Enters m (.alloc type constructor) f m2

section Entering

variable {m m1 m2 : Machine} {i : Instr} {callee : Func}

theorem Enters.stays (h : Enters m i callee m1) : m.ctx.Stays m1.ctx := by
  cases h with
  | call | bound | method => exact Gradual.refl _
  | @construction _ t _ _ object _ _ _ hnew _ _ _ _ hplaced =>
    have hmakes : Moves Passes (newObject t : Exec Fault Handle) := inferInstance
    have hplaces : Moves Passes (placeNew callee object) := obeys_bind _ _
    exact Gradual.trans (hmakes.of_ok hnew).toStays (hplaces.of_ok hplaced).toStays

theorem exec_of_callScript_error (nested : Nested) {stop : Stop Fault} (h : Enters m i callee m1)
    (hcall : callScript callee m1 = .error stop m2) : exec nested i m = .error stop m2 := by
  cases h with
  | @call id _ hf =>
    show (functionOf id >>= _) m = _
    rw [bind_of_ok (functionOf_of_some hf)]
    exact bind_of_error hcall _
  | @bound id target _ g k slot hmod hidx hslot hbound hf =>
    have htgt : callBoundTo id m = callScript callee m := by
      show (orFail Fault.unboundFunction (do
        let slot ← (← m.ctx.module.bind m.engine.built?).imports[← id.importIndex?]?
        m.engine.function? (← slot.bound)) >>= callScript) m = _
      simp only [hmod, hidx, hslot, hbound, hf, Option.bind_eq_bind, Option.bind_some]
      rfl
    exact bind_of_error (htgt.trans hcall) _
  | @method id declared _ object hdecl hobj hf hscript =>
    rw [exec_callMethod nested hdecl hobj hf, if_neg hscript]
    exact bind_of_error hcall _
  | @construction type t constructor _ object m' _ htype hnew hsome hf hscript hws hplaced =>
    have henter : enterConstructor callee object m' = .error stop m2 := by
      have hsplit : enterConstructor callee object =
          (placeNew callee object >>= fun _ => callScript callee) := by
        simp only [enterConstructor, placeNew, bind_assoc]
      rw [hsplit, bind_of_ok hplaced, hcall]
    rw [exec_alloc nested htype hnew hsome hf hws, if_pos hscript]
    exact bind_of_error henter _

theorem step_crowded (nested : Nested) (hm : m.ctx.Seated) (hfetch : fetch? m.ctx = some i)
    (henters : Enters (m.onContext Context.advance) i callee m1)
    (hargs : callee.argWords < 4294967296) (hneed : callee.stackNeeded.toNat + reserve < 4294967296)
    (hcrd : m1.ctx.Crowded callee) :
    ∃ m' x, step nested m = .ok .halt m' ∧ m'.ctx.state = .exception ∧ m'.ctx.exception = some x ∧
      x.fault = .stackOverflow := by
  have hadv : m.ctx.Stays (m.onContext Context.advance).ctx := .of_same rfl rfl rfl rfl
  have hseated := henters.stays.seated (hadv.seated hm)
  obtain ⟨m2, hcall⟩ := callScript_crowded hseated hargs hneed hcrd
  have hexec := exec_of_callScript_error nested henters hcall
  refine ⟨m2.raise .stackOverflow, m2.ctx.exceptionOf .stackOverflow, ?_, ?_, ?_, ?_⟩
  · rw [step_eq nested hfetch, raising, hexec]
  · rw [raise_ctx]
  · rw [raise_ctx]
  · exact Context.fault_exceptionOf _ _

end Entering

end Exec

namespace Context

variable {c : Context} {m : Machine} {r : Request} {e : Engine}

/-- Seated, with the limit that it was made with and a first block of at most so many words. -/
structure Within (limit : UInt32) (most : Nat) (c : Context) : Prop extends Seated c where
  limit_eq : c.stack.limit = limit
  base_le : c.stack.base.toNat ≤ most

variable {limit : UInt32} {most : Nat}

theorem within_new (limit : UInt32) (most : Nat) : (Context.new limit).Within limit most :=
  { seated_new limit with limit_eq := rfl, base_le := Nat.zero_le _ }

theorem Within.stays {c' : Context} (h : c.Within limit most) (hstays : c.Stays c') :
    c'.Within limit most := by
  obtain ⟨hbase, hlim⟩ := Prod.mk.inj hstays.plan
  refine { hstays.seated h.toSeated with limit_eq := hlim.trans h.limit_eq, base_le := ?_ }
  rw [hbase]
  exact h.base_le

theorem Rooted.seated {f : Func} {initial base : UInt32} (h : c.Rooted f initial base limit)
    (hflat : c.calls.frames = []) : c.Seated := by
  have hheld {p : Pointer} (hp : p.block = 0) : c.stack.Holds p := by
    intro _
    rw [hp, h.single]
    decide
  exact ⟨h.layered, hheld h.top, hheld h.frame, by simp [hflat]⟩

theorem Within.rooted {c' : Context} {f : Func} {initial : UInt32} (h : c.Within limit most)
    (hflat : c'.calls.frames = []) (hrooted : c'.Rooted f initial c.stack.base c.stack.limit)
    (hfits : max f.entryWords initial.toNat ≤ most) : c'.Within limit most := by
  refine { hrooted.seated hflat with limit_eq := hrooted.limit_eq.trans h.limit_eq, base_le := ?_ }
  cases hrooted.size with
  | inl hkept =>
    rw [hkept.1]
    exact h.base_le
  | inr hnew =>
    rw [hnew]
    exact hfits

theorem Within.unprepare {m' : Machine} (h : m.ctx.Within limit most)
    (hrun : Exec.unprepare m = .ok () m') : m'.ctx.Within limit most := by
  have hrest := Exec.requireIdle_ok hrun
  have hm := h.stays m.stays_applyAbort
  change (if m.applyAbort.ctx.state ≠ .uninitialized then _ else _ : Exec RequestError Unit)
      m.applyAbort = _ at hrest
  split at hrest
  · cases hrest
    have hrel := hm.stays m.applyAbort.passes_releaseRun.toStays
    exact { seated_of_empty (Stack.layered_release _) rfl with limit_eq := hrel.limit_eq,
                                                               base_le := Nat.zero_le _ }
  · cases hrest
    exact hm

/-- The first block that a request to prepare asks for has at most so many words. -/
def Fits (most : Nat) (c : Context) (e : Engine) (r : Request) : Prop :=
  r.prepares = true → ∀ m f, r.perform ⟨e, c⟩ = .ok () m → m.ctx.entry = some f →
    max f.entryWords e.config.initialStack.toNat ≤ most

theorem Within.perform (h : c.Within limit most) (hrun : r.perform ⟨e, c⟩ = .ok () m)
    (hfits : c.Fits most e r) : m.ctx.Within limit most := by
  cases hsettles : r.settlesAbort with
  | false => exact h.stays ((Request.stays_perform hsettles).of_ok hrun)
  | true =>
    cases r with
    | prepare id =>
      obtain ⟨f, hent, hflat, hrooted⟩ := Exec.prepare_rooted (m := ⟨e, c⟩) h.toSeated hrun
      exact h.rooted hflat hrooted (hfits rfl m f hrun hent)
    | prepareFunction g =>
      obtain ⟨f, hent, hflat, hrooted⟩ := Exec.prepareFunction_rooted (m := ⟨e, c⟩) h.toSeated hrun
      exact h.rooted hflat hrooted (hfits rfl m f hrun hent)
    | unprepare => exact Within.unprepare (m := ⟨e, c⟩) h hrun
    | _ => cases hsettles

theorem Within.after (h : c.Within limit most) (hstl : Exec.Settled (r.perform ⟨e, c⟩))
    (hfits : c.Fits most e r) : (r.perform.after ⟨e, c⟩).ctx.Within limit most :=
  Request.after_settled (P := fun m => m.ctx.Within limit most) hstl
    (fun _ hrun => h.perform hrun hfits)
    (h.stays (Machine.stays_applyAbort ⟨e, c⟩)) h

/-- The contexts that a host can have, also in the middle of a run, with any engine behind each
request. No function was prepared for which the first block had to have more than `most` words. -/
inductive Reached (limit : UInt32) (most : Nat) : Context → Prop where
  | new : Reached limit most (Context.new limit)
  | request {c : Context} (h : Reached limit most c) (e : Engine) (r : Request)
      (hsettled : Exec.Settled (r.perform ⟨e, c⟩)) (hfits : c.Fits most e r) :
    Reached limit most (r.perform.after ⟨e, c⟩).ctx

theorem Reached.within (h : c.Reached limit most) : c.Within limit most := by
  induction h with
  | new => exact within_new limit most
  | request _ e r hstl hfits ih => exact ih.after hstl hfits

/-- The limit holds for every stack of several blocks, and for every stack at all if it holds for
what was prepared. A context that is prepared has one block, with room for the function: the first
one before or a new one. A call of any kind for which the limit leaves no room ends the run with a
stack overflow. -/
theorem reached_within_limit {c : Context} (h : c.Reached limit most) (hlimit : limit ≠ 0) :
    c.stack.allocatedWords ≤ max most limit.toNat ∧
      (1 < c.stack.blocks.size → c.stack.allocatedWords ≤ limit.toNat) ∧
      (∀ (e : Engine) (r : Request) (m : Machine), r.prepares = true → r.perform ⟨e, c⟩ = .ok () m →
        ∃ f, m.ctx.entry = some f ∧
          (m.ctx.stack.allocatedWords = c.stack.base.toNat ∧ f.entryWords ≤ c.stack.base.toNat ∨
            m.ctx.stack.allocatedWords = max f.entryWords e.config.initialStack.toNat)) ∧
      ∀ (nested : Exec.Nested) (e : Engine) (i : Instr) (callee : Func)
      (m1 : Machine), Exec.fetch? c = some i →
        Exec.Enters (Machine.onContext ⟨e, c⟩ advance) i callee m1 → callee.argWords < 4294967296 →
        callee.stackNeeded.toNat + reserve < 4294967296 → m1.ctx.Crowded callee →
        ∃ m x, Exec.step nested ⟨e, c⟩ = .ok .halt m ∧ m.ctx.state = .exception ∧
          m.ctx.exception = some x ∧
          x.fault = .stackOverflow := by
  have hwithin := h.within
  have hwords := hwithin.stack.allocatedWords_le (hwithin.limit_eq ▸ hlimit)
  rw [hwithin.limit_eq] at hwords
  have hbase := hwithin.base_le
  refine ⟨by omega, fun hseveral => by omega, fun e r m hprepares hrun => ?_, ?_⟩
  · have hrooted : ∃ f, m.ctx.entry = some f ∧ m.ctx.calls.frames = [] ∧
        m.ctx.Rooted f e.config.initialStack c.stack.base c.stack.limit := by
      cases r with
      | prepare id => exact Exec.prepare_rooted (m := ⟨e, c⟩) hwithin.toSeated hrun
      | prepareFunction f => exact Exec.prepareFunction_rooted (m := ⟨e, c⟩) hwithin.toSeated hrun
      | _ => cases hprepares
    obtain ⟨f, hentry, -, hrooted⟩ := hrooted
    have hsingle : m.ctx.stack.allocatedWords = m.ctx.stack.base.toNat := by
      rw [hrooted.layered.allocatedWords_eq, hrooted.single]
      exact Nat.mul_one _
    refine ⟨f, hentry, ?_⟩
    rw [hsingle]
    cases hrooted.size with
    | inl hkept => exact .inl ⟨congrArg UInt32.toNat hkept.1, hkept.2⟩
    | inr hnew => exact .inr hnew
  · intro nested e i callee m1 hfetch henters hargs hneeded hcrowded
    exact Exec.step_crowded nested (m := ⟨e, c⟩) hwithin.toSeated hfetch henters hargs hneeded hcrowded

theorem fits_of_entry {f : Func} (hent : (r.perform.after ⟨e, c⟩).ctx.entry = some f)
    (hmost : max f.entryWords e.config.initialStack.toNat ≤ most) : c.Fits most e r := by
  intro _ m g hrun hg
  rw [← Exec.after_of_ok hrun, hent] at hg
  cases hg
  exact hmost

theorem Reached.granted (h : m.ctx.Reached limit most) (r : Request)
    (hvalue : Exec.value? (r.perform m) = some ())
    (hfits : m.ctx.Fits most m.engine r) : (r.perform.after m).ctx.Reached limit most :=
  h.request m.engine r (by rw [Exec.ok_of_value hvalue]; trivial) hfits

def endless : Func :=
  { id := ⟨1⟩, name := "endless", locals := 8, stackNeeded := 8, code := #[.call ⟨1⟩, .ret 0] }

def endlessEngine : Engine :=
  { functions := #[none, some endless], config := { initialStack := 16, maxStack := 64 } }

def endlessAfter : Nat → Machine
  | 0 => (Request.startRun 9).perform.after
      ((Request.prepare ⟨1⟩).perform.after ⟨endlessEngine, Context.new 64⟩)
  | n + 1 => (Request.step 9).perform.after (endlessAfter n)

theorem endlessAfter_reached : (endlessAfter 3).ctx.Reached 64 16 := by
  have hnew : (Machine.mk endlessEngine (Context.new 64)).ctx.Reached 64 16 := .new
  have hprep :=
    hnew.granted (.prepare ⟨1⟩) (by decide +kernel) (fits_of_entry (f := endless) rfl (by decide))
  have hstarted := hprep.granted (.startRun 9) (by decide +kernel) (fun h => by cases h)
  have hfst := hstarted.granted (.step 9) (by decide +kernel) (fun h => by cases h)
  have hsnd := hfst.granted (.step 9) (by decide +kernel) (fun h => by cases h)
  exact hsnd.granted (.step 9) (by decide +kernel) (fun h => by cases h)

/-- After three calls there are two blocks, and the fourth call finds no room within the limit. -/
theorem reached_within_limit_endless :
    (endlessAfter 3).ctx.Reached 64 16 ∧ (endlessAfter 3).ctx.stack.blocks.size = 2 ∧
      (endlessAfter 3).ctx.stack.allocatedWords ≤ 64 ∧
      ∃ m x, Exec.step (Exec.runNested (Exec.execute 9)) (endlessAfter 3) = .ok .halt m ∧
        m.ctx.exception = some x ∧
        x.fault = .stackOverflow := by
  obtain ⟨hwords, -, -, hoverflow⟩ := reached_within_limit endlessAfter_reached (by decide)
  have hcrowded : (endlessAfter 3).ctx.Crowded endless := by
    refine ⟨by decide +kernel, fun i hi hadmits => ?_⟩
    have hblock : (endlessAfter 3).ctx.sp.block.toNat = 1 := by decide +kernel
    have hthird := (hadmits.of_le (i := 2) (by omega)).within (by decide +kernel)
    exact absurd hthird (by decide +kernel)
  have hfound : (endlessAfter 3).engine.function? ⟨1⟩ = some endless := by decide +kernel
  obtain ⟨m, x, hstep, -, hexception, hfault⟩ :=
    hoverflow (Exec.runNested (Exec.execute 9)) (endlessAfter 3).engine
    (.call ⟨1⟩) endless _ (by decide +kernel) (.call hfound) (by decide) (by decide) hcrowded
  exact ⟨endlessAfter_reached, by decide +kernel, hwords, m, x, hstep, hexception, hfault⟩

def wide : Func :=
  { id := ⟨1⟩, name := "wide", locals := 100, stackNeeded := 100, code := #[.ret 0] }

def wideEngine : Engine :=
  { functions := #[none, some wide], config := { initialStack := 16, maxStack := 64 } }

/-- A first function that needs more words than the limit gets them, and finishes. -/
theorem wide_above_limit :
    ∃ c : Context, c.Reached 64 104 ∧ c.state = .finished ∧ 64 < c.stack.allocatedWords := by
  have hnew : (Machine.mk wideEngine (Context.new 64)).ctx.Reached 64 104 := .new
  have hprepared :=
    hnew.granted (.prepare ⟨1⟩) (by decide +kernel) (fits_of_entry (f := wide) rfl (by decide))
  have hfinished := hprepared.granted (.execute 9) (by decide +kernel) (fun h => by cases h)
  exact ⟨_, hfinished, by decide +kernel, by decide +kernel⟩

end Context

end ScriptVm
