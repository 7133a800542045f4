import ScriptVm.Proofs.Execution.OwnedArguments
import ScriptVm.Proofs.Session.Resolution
import ScriptVm.Proofs.Session.Safety

namespace ScriptVm

/-- The first word of an object variable is one of the locals, and the second one is still in the
frame. -/
def Func.VarsInside (f : Func) : Prop :=
  ∀ v ∈ f.objectVars, 1 ≤ v.offset.toInt ∧ v.offset.toInt ≤ f.locals.toNat ∧
    2 ≤ v.offset.toInt + f.argWords

instance (f : Func) : Decidable f.VarsInside :=
  inferInstanceAs (Decidable (∀ v ∈ f.objectVars,
    1 ≤ v.offset.toInt ∧ v.offset.toInt ≤ f.locals.toNat ∧ 2 ≤ v.offset.toInt + f.argWords))

namespace Context

/-- The first frame of a function, on a stack that holds nothing else. -/
structure EntryFrame (c : Context) (f : Func) : Prop where
  single : c.stack.blocks.size = 1
  current : c.stack.current = 0
  block : c.fp.block = 0
  top : c.fp.offset.toNat + f.argWords = c.stack.blockSize 0
  room : f.stackNeeded.toNat + 4 ≤ c.fp.offset.toNat
  locals : c.fp.shift? (-f.locals.toNat) = some c.sp
  args : ∀ i : Nat, i < f.argWords → ∃ p, c.fp.shift? i = some p ∧ c.stack.read? p = some 0
  vars : ∀ v ∈ f.objectVars, ∃ p, c.fp.shift? (-v.offset.toInt) = some p ∧ c.stack.read64? p = some 0

/-- Ready for a function, with nothing recorded of an earlier run. -/
structure Ready (c : Context) (f : Func) : Prop where
  state : c.state = .prepared
  entry : c.entry = some f
  function : c.function = some f
  pc : c.pc = 0
  register : c.register = 0
  object : c.objectRegister = none
  exception : c.exception = none
  pending : c.pendingException = none
  calls : c.calls.frames = []
  suspend : c.suspendRequested = false
  abort : c.abortRequested = false

/-- What holds of a context in any state. -/
structure Proper (c : Context) : Prop extends Orderly c, Seated c

theorem proper_new (limit : UInt32) : (Context.new limit).Proper :=
  { atRest_new limit, seated_new limit with }

end Context

/-- The frames that an earlier run has left are cleaned, after an abortion that is due. -/
def Machine.unwound (m : Machine) : Machine :=
  if m.applyAbort.ctx.needsCleanup then m.applyAbort.cleanStack else m.applyAbort

/-- What preparing a function makes of a machine. -/
structure Machine.Prepared (m m' : Machine) (f : Func) : Prop where
  frame : m'.ctx.EntryFrame f
  ready : m'.ctx.Ready f
  /-- When the frames are cleaned, the object in the register is given up, once. -/
  heap : ∃ modules, m'.engine =
    ((m.ctx.objectRegister.toList.map HeapOp.free).foldl HeapOp.run m.unwound.engine).withModules
      modules
  held : m'.ctx.held = [Exec.liveModuleOf? m f]
  /-- Beyond what the other contexts hold, a module is counted once if it is that of the function,
  and else not at all. -/
  counted : ∀ id, m'.engine.contextRefs id = m.others id + if Exec.liveModuleOf? m f = some id
    then 1 else 0

namespace Request

open Exec

variable {m m' : Machine} {r : Request}

theorem idle_of_requireIdle {α : Type} {f : Unit → Exec RequestError α} {a : α}
    (h : (requireIdle >>= f) m = .ok a m') : m.ctx.state ≠ .active := by
  intro hact
  have habt : m.applyAbort = m := if_neg (by simp [hact])
  have hbusy : requireIdle m = .error (.cause .busy) m := by
    rw [requireIdle_eq, habt, if_pos (by simp [Context.isBusy, hact])]
  rw [bind_of_error hbusy] at h
  cases h

theorem orderly_active (h : m.ctx.Orderly) (hact : m.ctx.state = .active) (hwhole : r.isWhole = true)
    (hrun : r.perform m = .ok () m') : m'.ctx.Orderly := by
  cases hr : r.setsArg with
  | true =>
    have hprep := prepared_of_setsArg hr hrun
    rw [hact] at hprep
    cases hprep
  | false =>
    cases r with
    | prepare | prepareFunction | unprepare => exact absurd hact (idle_of_requireIdle hrun)
    | execute fuel =>
      obtain ⟨outcome, m1, hexe, hrun⟩ := bind_ok hrun
      cases hrun
      exact (execute_begun h hexe).1.toOrderly
    | startRun | step | endRun => cases hwhole
    | takeResultObject =>
      cases hrun
      have hsame : m.ctx.takeResultObject.2 = m.ctx := by simp [Context.takeResultObject, hact]
      show m.ctx.takeResultObject.2.Orderly
      rwa [hsame]
    | setLineCallback | setExceptionCallback | requestSuspend | requestAbort =>
      cases hrun
      exact { h with }
    | abort =>
      change (if m.ctx.state = .suspended then _ else Exec.requestAbort : Exec RequestError Unit)
          m = _ at hrun
      rw [if_neg (by simp [hact])] at hrun
      cases hrun
      exact { h with }
    | setException message =>
      change (if m.ctx.hostFunction.isNone then _ else _ : Exec RequestError Unit) m = _ at hrun
      rw [h.host] at hrun
      cases hrun
    | _ => cases hr

theorem orderly_perform (h : m.ctx.Orderly) (hrun : r.perform m = .ok () m') : m'.ctx.Orderly := by
  cases hwhole : r.isWhole with
  | true =>
    by_cases hact : m.ctx.state = .active
    · exact orderly_active h hact hwhole hrun
    · exact (atRest_perform hwhole { h with idle := hact } hrun).toOrderly
  | false =>
    cases r with
    | startRun fuel => exact (startRun_begun h hrun).toOrderly
    | step fuel =>
      change (if m.ctx.state = .active then _ else _ : Exec RequestError Unit) m = _ at hrun
      split at hrun
      · rename_i hact
        obtain ⟨flow, m1, hstep, hrun⟩ := bind_ok hrun
        cases hrun
        exact (step_begun h hact hstep).1.toOrderly
      · cases hrun
        exact h
    | endRun =>
      obtain ⟨outcome, m1, hend, hrun⟩ := bind_ok hrun
      cases hrun
      rw [endRun_eq] at hend
      cases hend
      unfold concluded
      split
      · rename_i hdue
        have hclear := h.clear (.inr (.inr hdue.2))
        exact (Machine.begun_abortNow
          (m := m.onContext fun c => { c with abortRequested := false }) { hclear with }).toOrderly
      · exact { h with }
    | _ => cases hwhole

theorem orderly_after (h : m.ctx.Orderly) (hstl : Settled (r.perform m)) :
    (r.perform.after m).ctx.Orderly := by
  refine after_settled (P := fun m => m.ctx.Orderly) hstl (fun _ => orderly_perform h) ?_ h
  unfold Machine.applyAbort
  split
  · rename_i hdue
    have hclear := h.clear (.inr (.inr hdue.1))
    exact (Machine.begun_abortNow
      (m := m.onContext fun c => { c with abortRequested := false }) { hclear with }).toOrderly
  · exact h

theorem seated_after {e : Engine} {c : Context} (h : c.Seated) (hstl : Settled (r.perform ⟨e, c⟩)) :
    (r.perform.after ⟨e, c⟩).ctx.Seated := by
  have hwithin : c.Within c.stack.limit 4294967296 :=
    { h with limit_eq := rfl, base_le := Nat.le_of_lt c.stack.base.toNat_lt }
  refine (hwithin.after hstl fun hprepares m f hrun hent => ?_).toSeated
  have hrooted : ∃ g, m.ctx.entry = some g ∧ m.ctx.calls.frames = [] ∧
      m.ctx.Rooted g e.config.initialStack c.stack.base c.stack.limit := by
    cases r with
    | prepare id => exact prepare_rooted (m := ⟨e, c⟩) h hrun
    | prepareFunction g => exact prepareFunction_rooted (m := ⟨e, c⟩) h hrun
    | _ => cases hprepares
  obtain ⟨g, hg, -, hrooted⟩ := hrooted
  cases hent.symm.trans hg
  have hbase := m.ctx.stack.base.toNat_lt
  have hold := c.stack.base.toNat_lt
  have hinitial := e.config.initialStack.toNat_lt
  obtain ⟨-, hfits⟩ | hnew := hrooted.size
  · omega
  · omega

theorem proper_after (h : m.ctx.Proper) (hstl : Settled (r.perform m)) :
    (r.perform.after m).ctx.Proper :=
  { orderly_after h.toOrderly hstl, seated_after h.toSeated hstl with }

end Request

namespace Session

open Exec

def Proper (s : Session) : Prop := ∀ c ∈ s.contexts, c.2.Proper

variable {s : Session}

theorem Proper.context (h : s.Proper) (number : Nat) : (s.context number).Proper := by
  unfold Session.context
  cases hfind : s.contexts.find? fun c => c.1 == number with
  | none => exact Context.proper_new _
  | some c => exact h c (List.mem_of_find?_eq_some hfind)

theorem mem_inContext {ε α : Type} {number : Nat} {x : Exec ε α} {c : Nat × Context}
    (hc : c ∈ (s.inContext number x).2.contexts) :
    c = (number, (x.after (s.machine number)).ctx) ∨
      c ∈ s.contexts := by
  have hrest {m : Machine}
      (hc : c ∈ (Session.setContext
        { s with engine := m.engine, contexts := s.contexts.filter fun c => c.1 != number }
      number m.ctx).contexts) : c = (number, m.ctx) ∨ c ∈ s.contexts :=
    (mem_setContext hc).imp_right fun hold => (List.mem_filter.mp hold).1
  unfold inContext at hc
  unfold after
  dsimp only at hc
  cases hx : x (s.machine number) with
  | ok a m | error stop m =>
    rw [hx] at hc
    exact hrest hc

theorem Proper.inContext (h : s.Proper) {number : Nat} {r : Request}
    (hword : (s.inContext number r.perform).1 ≠ .error .overflow)
    (hfuel : (s.inContext number r.perform).1 ≠ .error .outOfFuel) :
    (s.inContext number r.perform).2.Proper := by
  intro c hc
  obtain rfl | hold := mem_inContext hc
  · obtain ⟨-, -, hstl, -⟩ := s.inContext_left number r.perform
    exact Request.proper_after (h.context number) (hstl hword hfuel)
  · exact h c hold

theorem Proper.dropContext (h : s.Proper) (number : Nat) : (s.dropContext number).2.Proper := by
  intro c hc
  unfold Session.dropContext at hc
  split at hc
  · exact h c (List.mem_filter.mp hc).1
  · exact h c hc

end Session

namespace Workspace

theorem Turn.proper {w w' : Workspace} (h : w.Turn w') (hw : w.toSession.Proper) :
    w'.toSession.Proper := by
  rcases h.parts with ⟨number, r, hword, hfuel, rfl⟩ | ⟨number, rfl⟩ | ⟨hctxs, -⟩
  · exact hw.inContext hword hfuel
  · exact hw.dropContext number
  · intro c hc
    rw [hctxs] at hc
    exact hw c hc

theorem Evolved.proper {w : Workspace} (h : w.Evolved) : w.toSession.Proper := by
  obtain ⟨config, hlater⟩ := h
  induction hlater with
  | refl => exact fun c hc => nomatch hc
  | tail _ hturn ih => exact hturn.proper ih

end Workspace

theorem Pointer.exists_shift? (p : Pointer) (delta : Int) (hlow : 0 ≤ p.offset.toNat + delta)
    (hhigh : p.offset.toNat + delta < 4294967296) :
    ∃ q, p.shift? delta = some q ∧ q.block = p.block ∧
    (q.offset.toNat : Int) = p.offset.toNat + delta := by
  have hq : ((p.offset.toNat + delta).toNat.toUInt32.toNat : Int) = p.offset.toNat + delta := by
    simp only [Nat.toUInt32_eq, UInt32.toNat_ofNat']
    omega
  exact ⟨⟨p.block, (p.offset.toNat + delta).toNat.toUInt32⟩,
    shift?_eq_some_iff.mpr ⟨rfl, hq⟩, rfl, hq⟩

namespace Stack

theorem alters_clearArgs (s : Stack) (f : Func) :
    s.Alters (·.Among (s.entryFp f) f.argWords) (s.clearArgs f) := by
  have hzero := s.alters_zero? (s.entryFp f) f.argWords
  unfold zero? at hzero
  unfold clearArgs
  split
  · rename_i hthere
    rwa [if_pos hthere] at hzero
  · exact .refl _ s

/-- The arguments of a function reach up to the end of the only block. -/
structure HoldsEntry (s : Stack) (f : Func) : Prop where
  single : s.blocks.size = 1
  word : s.blockSize 0 < 4294967296
  top : (s.entryFp f).offset.toNat + f.argWords = s.blockSize 0

variable {s : Stack} {f : Func}

theorem HoldsEntry.zero_args (h : s.HoldsEntry f) {i : Nat} (hi : i < f.argWords) :
    ∃ p, (s.entryFp f).shift? i = some p ∧
      ((s.clearArgs f).clearVars (s.entryFp f) f.objectVars).read? p = some 0 := by
  obtain ⟨hsgl, hword, htop⟩ := h
  obtain ⟨p, hp, hblk, hoff⟩ := (s.entryFp f).exists_shift? i (by omega) (by omega)
  have hrng : s.containsRange (s.entryFp f) f.argWords = true := by
    simp only [containsRange, Bool.and_eq_true, decide_eq_true_eq, hsgl]
    exact ⟨Nat.one_pos, Nat.le_of_eq htop⟩
  have hthere : s.contains p = true := by
    rw [contains, hblk]
    exact decide_eq_true (by show p.offset.toNat < s.blockSize 0; omega)
  have hamong : p.Among (s.entryFp f) f.argWords := ⟨hblk, by omega, by omega⟩
  refine ⟨p, hp, zero_clearVars ?_⟩
  rw [clearArgs, if_pos hrng, read?_clear, if_pos ⟨hamong, hthere⟩]

theorem HoldsEntry.zero_vars (h : s.HoldsEntry f) (hvars : f.VarsInside)
    (hroom : f.locals.toNat ≤ (s.entryFp f).offset.toNat) {v : ObjectVar}
    (hv : v ∈ f.objectVars) : ∃ p, (s.entryFp f).shift? (-v.offset.toInt) = some p ∧
      ((s.clearArgs f).clearVars (s.entryFp f) f.objectVars).read64? p = some 0 := by
  obtain ⟨-, hword, htop⟩ := h
  obtain ⟨hfst, hlocal, hsnd⟩ := hvars v hv
  obtain ⟨p, hp, hblk, hoff⟩ := (s.entryFp f).exists_shift? (-v.offset.toInt) (by omega) (by omega)
  obtain ⟨q, hq, hblk', hoff'⟩ := p.exists_shift? 1 (by omega) (by omega)
  have hthere : (s.clearArgs f).contains64 p = true := by
    rw [contains64_of_layout (s.alters_clearArgs f).layout, contains64, hq, Option.any_some,
      contains, hblk', hblk]
    exact decide_eq_true (by show q.offset.toNat < s.blockSize 0; omega)
  have hlow := cleared_clearVars hv hp hthere (p := p) ⟨rfl, by omega, by omega⟩
  have hhigh := cleared_clearVars hv hp hthere (p := q) ⟨hblk', by omega, by omega⟩
  refine ⟨p, hp, ?_⟩
  simp only [read64?, hlow, hq, hhigh, Option.bind_eq_bind, Option.bind_some]
  rfl

end Stack

namespace Machine

open Exec

variable {m : Machine} {f : Func}

theorem settled_ctx (m : Machine) (f : Func) : (m.settled f).ctx =
      { m.ctx.preparedFor f with
        fp := (m.firstStack f).entryFp f
        sp := { block := 0
                offset := ((m.firstStack f).entryFp f).offset -
                  min f.locals ((m.firstStack f).entryFp f).offset }
        stack := ((m.firstStack f).clearArgs f).clearVars ((m.firstStack f).entryFp f) f.objectVars
        module := liveModuleOf? m f } := by
  rw [settled, setModule_eq]
  rfl

theorem holdsEntry_firstStack (hm : m.ctx.stack.Layered) (hword : f.entryWords < 4294967296) :
    (m.firstStack f).HoldsEntry f := by
  obtain ⟨-, hsgl, -, -⟩ := hm.first hword m.engine.config.initialStack
  have hsize : (m.firstStack f).blockSize 0 = (m.firstStack f).base.toNat :=
    (hm.blockSize_firstFor hword _).1
  exact ⟨hsgl, hsize ▸ (m.firstStack f).base.toNat_lt, (toNat_entryFp hm hword).trans hsize.symm⟩

theorem entryFrame_settled (hm : m.ctx.stack.Layered) (hword : f.entryWords < 4294967296)
    (hlocs : f.locals ≤ f.stackNeeded) (hvars : f.VarsInside) : (m.settled f).ctx.EntryFrame f := by
  have hent := holdsEntry_firstStack hm hword
  have hroom := room_of_settled hm hword
  have hcur : (m.firstStack f).current = 0 := by
    unfold firstStack Stack.firstFor
    split <;> rfl
  have haltered := (m.firstStack f).alters_clearArgs f
  have hcld :=
    ((m.firstStack f).clearArgs f).alters_clearVars ((m.firstStack f).entryFp f) f.objectVars
  have hlyt := hcld.layout.trans haltered.layout
  rw [UInt32.le_iff_toNat_le] at hlocs
  rw [settled_ctx] at hroom ⊢
  have hbelow : f.locals.toNat ≤ ((m.firstStack f).entryFp f).offset.toNat := by
    unfold Context.reserve at hroom
    exact Nat.le_trans hlocs (Nat.le_trans (Nat.le_add_right _ 4) hroom)
  have hmin : min f.locals ((m.firstStack f).entryFp f).offset = f.locals :=
    if_pos (UInt32.le_iff_toNat_le.mpr hbelow)
  exact
    { single := (Stack.blocks_size_of_layout hlyt).trans hent.single
      current := hcld.current.trans (haltered.current.trans hcur)
      block := rfl
      top := hent.top.trans (Stack.blockSize_of_layout hlyt 0).symm
      room := hroom
      locals := by
        refine Pointer.shift?_eq_some_iff.mpr ⟨rfl, ?_⟩
        dsimp only
        rw [hmin, UInt32.toNat_sub_of_le _ _ (UInt32.le_iff_toNat_le.mpr hbelow)]
        omega
      args := fun i hi => hent.zero_args hi
      vars := fun v hv => hent.zero_vars hvars hbelow hv }

theorem ready_settled (m : Machine) (f : Func) : (m.settled f).ctx.Ready f := by
  rw [settled_ctx]
  exact ⟨rfl, rfl, rfl, rfl, rfl, rfl, rfl, rfl, rfl, rfl, rfl⟩

theorem engine_setModule (m : Machine) (id : Option ModuleId) :
    ∃ modules, (m.setModule id).engine = m.engine.withModules modules := by
  have hchg (e : Engine) (id : Option ModuleId) (k : Module → Module) :
      ∃ modules, e.changeSome id k = e.withModules modules := by
    cases id with
    | none => exact ⟨e.modules, rfl⟩
    | some id => exact ⟨_, e.changeModule_eq id k⟩
  rw [setModule_eq]
  obtain ⟨modules, hadd⟩ := hchg m.engine id Module.addContextRef
  obtain ⟨modules', hdrop⟩ :=
    hchg (m.engine.changeSome id Module.addContextRef) m.ctx.module Module.dropContextRef
  exact ⟨modules', by rw [hdrop, hadd]; rfl⟩

theorem objectRegister_applyAbort (m : Machine) :
    m.applyAbort.ctx.objectRegister = m.ctx.objectRegister := by
  unfold applyAbort abortNow
  split
  · rw [objectRegister_cleanStack]
    rfl
  · rfl

theorem engine_vacated (h : m.ctx.Orderly) : ∃ modules, m.vacated.engine =
    ((m.ctx.objectRegister.toList.map HeapOp.free).foldl HeapOp.run m.unwound.engine).withModules
      modules := by
  unfold vacated
  split
  · have hregr : m.unwound.ctx.objectRegister = m.ctx.objectRegister := by
      unfold unwound
      split
      · exact (objectRegister_cleanStack _).trans m.objectRegister_applyAbort
      · exact m.objectRegister_applyAbort
    obtain ⟨modules, hmods⟩ := m.unwound.dropObject.engine_setModule none
    refine ⟨modules, hmods.trans ?_⟩
    rw [engine_dropObject, hregr]
  · rename_i hfresh
    have hfresh : m.applyAbort.ctx.state = .uninitialized := not_not.mp hfresh
    -- Nothing is left in a new context, and there is nothing to abort.
    have hsame : m.applyAbort = m := by
      unfold applyAbort at hfresh ⊢
      split at hfresh
      · have haborted :
            ((m.onContext fun c => { c with abortRequested := false }).abortNow).ctx.state =
              .aborted :=
          state_cleanStack _
        rw [haborted] at hfresh
        cases hfresh
      · rename_i hcalm
        rw [if_neg hcalm]
    rw [hsame] at hfresh
    obtain ⟨-, -, hregr, -⟩ := h.vacant hfresh
    have hclup := h.cleanup.mpr (.inl hfresh)
    rw [unwound, hsame, hclup, hregr]
    exact ⟨m.engine.modules, rfl⟩

theorem liveModuleOf?_of_catalog {m' : Machine} (h : m'.catalog = m.catalog) (f : Func) :
    liveModuleOf? m' f = liveModuleOf? m f := by
  have hmod (id : ModuleId) : (m'.engine.module? id).isSome = (m.engine.module? id).isSome :=
    Engine.module?_isSome_of_catalog h id
  simp only [liveModuleOf?, hmod]

theorem catalog_vacated (m : Machine) : m.vacated.catalog = m.catalog := by
  have hleft : (leaveRun.after m.applyAbort).catalog = m.applyAbort.catalog :=
    Keeps.view_after m.applyAbort
  rw [after_of_ok (leaveRun_eq m.applyAbort)] at hleft
  exact hleft.trans m.catalog_applyAbort

end Machine

namespace Exec

variable {m m' : Machine} {f : Func}

theorem prepareFunction_prepared (hproper : m.ctx.Proper) (hsound : m.Sound)
    (hkind : f.kind ≠ .imported) (hlocs : f.locals ≤ f.stackNeeded) (hvars : f.VarsInside)
    (h : prepareFunction f m = .ok () m') : m.Prepared m' f := by
  have hlay := layered_vacated hproper.toSeated
  obtain ⟨-, hoth⟩ := carried_after (prepareFunction f) hsound (by rw [h]; trivial)
  rw [h] at hoth
  replace hoth : m'.others = m.others := hoth
  obtain ⟨hword, rfl⟩ := prepareFunction_ok hproper.toSeated hkind h
  have hlive := Machine.liveModuleOf?_of_catalog m.catalog_vacated f
  have hheld : (m.vacated.settled f).ctx.held = [liveModuleOf? m f] := by
    rw [Machine.settled_ctx, hlive]
    rfl
  obtain ⟨modules, hleft⟩ := Machine.engine_vacated hproper.toOrderly
  obtain ⟨modules', hset⟩ := (m.vacated.laidOut f).engine_setModule (liveModuleOf? m.vacated f)
  refine ⟨Machine.entryFrame_settled hlay hword hlocs hvars, Machine.ready_settled _ f,
    ⟨modules', ?_⟩, hheld, fun id => ?_⟩
  · refine hset.trans ?_
    show m.vacated.engine.withModules modules' = _
    rw [hleft]
    rfl
  · have hcnt := congrFun hoth id
    rw [← hcnt, Machine.others, Context.holds, hheld, List.count_singleton]
    by_cases hmod : liveModuleOf? m f = some id
    · simp [hmod]
    · simp [hmod]

theorem prepare_eq {id : FunctionId} (hfd : m.engine.function? id = some f)
    (hkind : f.kind ≠ .imported) : prepare id m = prepareFunction f m := by
  have hlater : m.applyAbort.engine.function? id = some f := by
    rw [Engine.function?_of_catalog m.catalog_applyAbort]
    exact hfd
  have hidle := requireIdle_eq m
  have hrest := prepareFunction_eq hkind m
  unfold prepare
  split at hidle
  · rename_i hbusy
    rw [bind_of_error hidle, hrest, if_pos hbusy]
  · rename_i hfree
    rw [bind_of_ok hidle, hrest, if_neg hfree]
    show (orFail (.noFunction id) (m.applyAbort.engine.function? id) >>= prepareFunction)
        m.applyAbort = _
    rw [hlater]
    show prepareFunction f m.applyAbort = _
    -- The second abortion finds nothing to do.
    rw [prepareFunction_eq hkind, Machine.vacated, Machine.applyAbort_applyAbort, if_neg hfree,
      Machine.vacated]

end Exec

namespace Workspace

open Exec

/-- Whatever a session has made of a context and left on its stack, a function that is not too large
is prepared unless a run goes on or waits, by its id as well. Then the only block is the first one,
with the arguments at its end and the words that the function needs below them; arguments and object
variables are zero, the registers and what is recorded of a run are cleared, the object in the
register was given up once, and of the references to modules the context holds that to the module of
the function. -/
theorem prepare_gives_clean_frame {w : Workspace} (h : w.Evolved) (hfits : w.engine.Fits)
    (number : Nat) {f : Func} (hkind : f.kind ≠ .imported)
    (hword : f.argWords + f.stackNeeded.toNat + 4 < 4294967296) (hlocals : f.locals ≤ f.stackNeeded)
    (hvars : f.VarsInside) :
    ((w.machine number).applyAbort.ctx.isBusy = false → ∃ m,
      prepareFunction f (w.machine number) = .ok () m) ∧
      (∀ id, w.engine.function? id = some f →
        prepare id (w.machine number) = prepareFunction f (w.machine number)) ∧
      ∀ m, prepareFunction f (w.machine number) = .ok () m → (w.machine number).Prepared m f := by
  have hproper := h.proper.context number
  have hsound := (h.ordered hfits).accounted.context_sound number
  refine ⟨fun hidle => ?_, fun id hfound => prepare_eq hfound hkind, fun m hm => ?_⟩
  · rw [prepareFunction_eq hkind, hidle,
      settle_eq (layered_vacated (m := w.machine number) hproper.toSeated) hword]
    exact ⟨_, rfl⟩
  · exact prepareFunction_prepared (m := w.machine number) hproper hsound hkind hlocals hvars hm

def treasure : ObjectType := { name := "Treasure", refCounted := true }

def hoard : Func :=
  { name := "hoard", locals := 4, stackNeeded := 4
    code := #[.setVar64 4 25769803781, .setVar64 2 1, .takeObject 2, .setVar64 2 34359738375, .ret 0] }

def neat : Func :=
  { name := "neat", locals := 2, stackNeeded := 2, objectVars := [⟨2, ⟨1⟩⟩], code := #[.ret 2]
    signature := { params := [{ type := .int }, { type := .int }] } }

/-- A context has run a function of one of two modules. -/
def cluttered : Workspace :=
  let w : Workspace :=
    { engine := (Engine.registerType { config := { initialStack := 16 } } treasure).2 }
  let w := { w with engine := (w.engine.onHeap fun heap => heap.alloc treasure).2 }
  let w := { w with engine := (w.engine.onHeap fun heap => heap.addRef ⟨0, 0⟩).2 }
  (((w.load "old" [] [hoard]).load "new" [] [neat]).ask 1 (.prepare ⟨1⟩)).ask 1 (.execute 9)

theorem cluttered_reachable : cluttered.Reachable := by
  have htype := (Reachable.new { initialStack := 16 }).step (.engine (.registerType treasure))
  have halloc := htype.step (.engine (.onHeap fun heap => heap.alloc treasure))
  have hshared := halloc.step (.engine (.onHeap fun heap => heap.addRef ⟨0, 0⟩))
  have hloaded := (hshared.load "old" [] [hoard]).load "new" [] [neat]
  have hprep := hloaded.step (.request 1 (.prepare ⟨1⟩) (by decide +kernel) (by decide +kernel))
  exact hprep.step (.request 1 (.execute 9) (by decide +kernel) (by decide +kernel))

theorem cluttered_fits : cluttered.engine.Fits where
  modules := by decide +kernel
  functions := by decide +kernel
  slots := by decide +kernel

def neatest : Func := { neat with id := ⟨2⟩, module := some ⟨2⟩ }

def tidied : Machine := (prepareFunction neatest).after (cluttered.machine 1)

/-- The words of the old frame lie where the arguments and the variable of the new one are, and the
object has two references. -/
theorem prepare_gives_clean_frame_cluttered :
    (cluttered.context 1).stack.read64? ⟨0, 12⟩ = some 25769803781 ∧
      (cluttered.context 1).stack.read64? ⟨0, 14⟩ = some 34359738375 ∧
      (cluttered.context 1).objectRegister = some ⟨0, 0⟩ ∧ (cluttered.context 1).held = [some ⟨1⟩] ∧
      prepare ⟨2⟩ (cluttered.machine 1) = .ok () tidied ∧
        (cluttered.machine 1).Prepared tidied neatest ∧
      tidied.ctx.stack.read64? ⟨0, 12⟩ = some 0 ∧ tidied.ctx.stack.read64? ⟨0, 14⟩ = some 0 ∧
      tidied.ctx.held = [some ⟨2⟩] ∧ (tidied.engine.heap.get? ⟨0, 0⟩).map Object.refs = some 1 := by
  have hfound : cluttered.engine.function? ⟨2⟩ = some neatest := by decide +kernel
  obtain ⟨-, hby, hclean⟩ :=
    prepare_gives_clean_frame cluttered_reachable.evolved cluttered_fits 1 (f := neatest)
    (by decide) (by decide) (by decide) (by decide)
  have hprepared : prepareFunction neatest (cluttered.machine 1) = .ok () tidied :=
    ok_of_value (by decide +kernel)
  refine ⟨?_, ?_, ?_, ?_, (hby ⟨2⟩ hfound).trans hprepared, hclean tidied hprepared, ?_, ?_, ?_,
    ?_⟩ <;> decide +kernel

end Workspace

end ScriptVm
