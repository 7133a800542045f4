import ScriptVm.Proofs.Session.Ceiling

namespace ScriptVm

open Context

/-- A script method that takes the place of a declaration. The declaration owns no variables and
needs no more of the stack, and the object variables of the method are none of the words of the
object it is called on. -/
structure Func.Implements (g f : Func) : Prop extends g.Accords f where
  declared : f.kind = .virtual ∨ f.kind = .interface
  script : g.kind = .script
  bare : f.objectVars = []
  small : f.stackNeeded.toNat ≤ g.stackNeeded.toNat
  vars : g.VarsBelow

/-- Words below the frame pointer without which a method is not entered in the frame of its
declaration. The locals count twice: they are part of what the method needs. -/
def Func.methodWords (f : Func) : Nat := f.locals.toNat + f.stackNeeded.toNat + Context.reserve

theorem Func.Accords.argWords {g f : Func} (h : g.Accords f) : g.argWords = f.argWords := by
  have hws (f : Func) :
      f.argWords = f.thisWords + total DataType.words (f.signature.params.map Parameter.type) := by
    rw [Exec.total_map]
    rfl
  rw [hws, hws, h.params, Func.thisWords, Func.thisWords, h.method]

/-- What a run has returned: a number, a reference, an object. -/
def Context.results (c : Context) : UInt64 × Address × Option Handle :=
  (c.result, c.resultAddress, c.resultObject?)

namespace Stack

variable {s : Stack} {a b : Nat} {initial : UInt32}

theorem Layered.blockSize_firstFor (hs : s.Layered) (ha : a < 4294967296) (initial : UInt32) :
    (s.firstFor a initial).blockSize 0 = (s.firstFor a initial).base.toNat ∧
      a ≤ (s.firstFor a initial).base.toNat := by
  obtain ⟨hlay, hsgl, -, hsize⟩ := hs.first ha initial
  constructor
  · rw [hlay.sizes 0 (by omega)]
    exact Nat.mul_one _
  · cases hsize with
    | inl hkept =>
      rw [hkept.1]
      exact hkept.2
    | inr hnew => omega

theorem firstFor_eq_of_le (hab : a ≤ b) (hb : b ≤ (s.firstFor a initial).base.toNat) :
    s.firstFor b initial = s.firstFor a initial := by
  by_cases hfresh : s.isAllocated = false ∨ s.base.toNat < a
  · have hnew (n : Nat) (han : a ≤ n) : s.firstFor n initial = s.reset (max n.toUInt32 initial) := by
      refine if_pos ?_
      simp only [Bool.or_eq_true, Bool.not_eq_true', decide_eq_true_eq]
      exact hfresh.imp_right fun hsmall => Nat.lt_of_lt_of_le hsmall han
    rw [hnew a (Nat.le_refl a)] at hb ⊢
    rw [hnew b hab]
    refine congrArg s.reset (UInt32.toNat_inj.mp ?_)
    have hword := (max a.toUInt32 initial).toNat_lt
    have hmax : b ≤ (max a.toUInt32 initial).toNat := hb
    rw [toNat_max] at hmax hword ⊢
    rw [toNat_max]
    simp only [Nat.toUInt32_eq, UInt32.toNat_ofNat'] at hmax hword ⊢
    omega
  · have hthere : ¬ s.isAllocated = false ∧ a ≤ s.base.toNat := by
      simpa only [not_or, Nat.not_lt] using hfresh
    have hkept (n : Nat) (hn : n ≤ s.base.toNat) : s.firstFor n initial = s.keepFirst := by
      refine if_neg ?_
      simp only [Bool.or_eq_true, Bool.not_eq_true', decide_eq_true_eq, not_or, Nat.not_lt]
      exact ⟨hthere.1, hn⟩
    rw [hkept a hthere.2] at hb ⊢
    exact hkept b hb

end Stack

namespace Machine

open Exec

def settled (m : Machine) (f : Func) : Machine :=
  ((m.laidOut f).setModule (liveModuleOf? m f)).onContext fun c => c.preparedFor f

/-- What an earlier run has left is given up, after an abortion that is due. -/
def vacated (m : Machine) : Machine :=
  if m.applyAbort.ctx.state ≠ .uninitialized then m.applyAbort.releaseRun else m.applyAbort

def begun (m : Machine) : Machine :=
  m.onContext fun c => { c with suspendRequested := false, state := .active }

theorem stores_raise (m : Machine) (fault : Fault) : (m.raise fault).engine.heap = m.engine.heap ∧
      (m.raise fault).engine.modules = m.engine.modules := by
  unfold raise
  dsimp only
  split <;> exact ⟨rfl, rfl⟩

end Machine

namespace Exec

variable {f g : Func} {m : Machine}

theorem toNat_firstTop (hm : m.ctx.stack.Layered) (hword : f.entryWords < 4294967296) :
    ((m.firstStack f).top 0).offset.toNat = (m.firstStack f).base.toNat := by
  show ((m.firstStack f).blockSize 0).toUInt32.toNat = (m.firstStack f).base.toNat
  rw [Machine.firstStack, (hm.blockSize_firstFor hword _).1]
  simp

theorem placeEntry_eq (hroom : f.argWords ≤ (m.ctx.stack.top 0).offset.toNat) :
    placeEntry f m = .ok () (m.placed f) := by
  have hensure :
      (ensure (decide (f.argWords ≤ (m.ctx.stack.top 0).offset.toNat)) : Exec RequestError Unit) m =
        .ok () m := by
    rw [decide_eq_true hroom]
    rfl
  show (ensure (decide (f.argWords ≤ (m.ctx.stack.top 0).offset.toNat)) >>= _) m = _
  rw [bind_of_ok hensure]
  exact congrArg (EStateM.Result.ok ()) (Machine.clearObjectVars_eq _ f)

theorem layoutEntry_eq (hm : m.ctx.stack.Layered) (hword : f.entryWords < 4294967296) :
    layoutEntry f m = .ok () (m.laidOut f) := by
  show (wordOrStop f.entryWords >>= _) m = _
  rw [bind_of_ok (wordOrStop_of_lt hword m)]
  refine placeEntry_eq (m := m.onStack fun _ => m.firstStack f) ?_
  have hargs : f.argWords ≤ f.entryWords :=
    Nat.le_trans (Nat.le_add_right _ _) (Nat.le_add_right _ _)
  show f.argWords ≤ ((m.firstStack f).top 0).offset.toNat
  rw [toNat_firstTop hm hword]
  exact Nat.le_trans hargs (hm.blockSize_firstFor hword _).2

theorem settle_eq (hm : m.ctx.stack.Layered) (hword : f.entryWords < 4294967296) :
    settle f m = .ok () (m.settled f) := by
  unfold settle
  rw [bind_of_ok (layoutEntry_eq hm hword)]
  rfl

theorem toNat_entryFp (hm : m.ctx.stack.Layered) (hword : f.entryWords < 4294967296) :
    ((m.firstStack f).entryFp f).offset.toNat + f.argWords = (m.firstStack f).base.toNat := by
  have hneed := (hm.blockSize_firstFor hword m.engine.config.initialStack).2
  have htop := toNat_firstTop hm hword
  have hargs : f.argWords ≤ f.entryWords :=
    Nat.le_trans (Nat.le_add_right _ _) (Nat.le_add_right _ _)
  have hcnt : f.argWords.toUInt32.toNat = f.argWords := Nat.mod_eq_of_lt (by omega)
  have hle : f.argWords.toUInt32 ≤ ((m.firstStack f).top 0).offset := by
    rw [UInt32.le_iff_toNat_le, hcnt, htop]
    exact Nat.le_trans hargs hneed
  show (((m.firstStack f).top 0).offset - f.argWords.toUInt32).toNat + f.argWords = _
  rw [UInt32.toNat_sub_of_le _ _ hle, hcnt, htop]
  exact Nat.sub_add_cancel (Nat.le_trans hargs hneed)

/-- Where the method has room in the frame of its declaration, that frame is the one it would have
itself. -/
theorem settled_handOver (hm : m.ctx.stack.Layered) (hg : g.Implements f)
    (hword : f.entryWords < 4294967296)
    (hroom : g.methodWords ≤ ((m.firstStack f).entryFp f).offset.toNat) :
    (m.settled f).handOver g = m.settled g := by
  have hargs := hg.argWords
  have hfits := toNat_entryFp hm hword
  have hstk : m.firstStack g = m.firstStack f := by
    -- The method needs no less than its declaration, and what it needs is there.
    have hsmall := hg.small
    unfold Func.methodWords at hroom
    refine Stack.firstFor_eq_of_le ?_ ?_
    · unfold Func.entryWords
      omega
    · show g.entryWords ≤ (m.firstStack f).base.toNat
      unfold Func.entryWords
      omega
  have hfp (s : Stack) : s.entryFp g = s.entryFp f := by rw [Stack.entryFp, Stack.entryFp, hargs]
  have hclear (s : Stack) : s.clearArgs g = s.clearArgs f := by
    rw [Stack.clearArgs, Stack.clearArgs, hfp, hargs]
  have hsp : min g.locals ((m.firstStack f).entryFp f).offset = g.locals := by
    refine if_pos (UInt32.le_iff_toNat_le.mpr ?_)
    unfold Func.methodWords at hroom
    omega
  have hcat : (m.settled f).catalog = m.catalog := (m.laidOut f).catalog_setModule _
  have hmod (id : ModuleId) :
      ((m.settled f).engine.module? id).isSome = (m.engine.module? id).isSome :=
    Engine.module?_isSome_of_catalog hcat id
  have hlive : liveModuleOf? (m.settled f) g = liveModuleOf? m g := by
    simp only [liveModuleOf?, hmod]
  have heng : ((m.settled f).handOver g).engine = (m.settled g).engine := by
    -- The module of the declaration is held for a while only.
    have htwice := congrArg Machine.engine
      ((m.laidOut f).setModule_setModule (liveModuleOf? m f) (liveModuleOf? m g))
    simp only [Machine.setModule_eq] at htwice
    rw [Machine.handOver, hlive, Machine.settled, Machine.settled, Machine.setModule_eq,
      Machine.setModule_eq]
    exact htwice
  have hctx : ((m.settled f).handOver g).ctx = (m.settled g).ctx := by
    rw [Machine.handOver, hlive, Machine.settled, Machine.settled, Machine.setModule_eq,
      Machine.setModule_eq]
    simp only [Machine.laidOut, Machine.placed, Machine.onContext, Machine.onStack,
      Context.preparedFor, hg.bare,
      Stack.clearVars, hstk, hfp, hclear, hsp]
    rfl
  exact congrArg₂ Machine.mk heng hctx

theorem settled_of_posture {m' : Machine} (h : m'.posture = (m.settled f).posture) :
    m'.ctx.state = .prepared ∧ m'.ctx.abortRequested = false ∧ m'.ctx.function = some f ∧
      m'.ctx.entry = some f ∧
      m'.ctx.fp = (m.firstStack f).entryFp f := by
  have hctx : m'.ctx = { (m.settled f).ctx with stack := m'.ctx.stack } :=
    congrArg (fun c => { c with stack := m'.ctx.stack }) h
  rw [hctx, Machine.settled, Machine.setModule_eq]
  exact ⟨rfl, rfl, rfl, rfl, rfl⟩

theorem room_of_settled (hm : m.ctx.stack.Layered) (hword : f.entryWords < 4294967296) :
    f.stackNeeded.toNat + reserve ≤ (m.settled f).ctx.fp.offset.toNat := by
  have hfits := toNat_entryFp hm hword
  have hneed : f.entryWords ≤ (m.firstStack f).base.toNat := (hm.blockSize_firstFor hword _).2
  rw [(settled_of_posture (m := m) (f := f) rfl).2.2.2.2]
  unfold Func.entryWords at hneed
  omega

theorem layered_vacated (hm : m.ctx.Seated) : m.vacated.ctx.stack.Layered := by
  have hstays : m.ctx.Stays m.vacated.ctx :=
    Gradual.trans m.stays_applyAbort (passes_leaveRun.of_ok (leaveRun_eq m.applyAbort)).toStays
  exact (hstays.seated hm).stack

theorem prepareFunction_eq (hf : f.kind ≠ .imported) (m : Machine) :
    prepareFunction f m = if m.applyAbort.ctx.isBusy then .error (.cause .busy) m.applyAbort
      else settle f m.vacated := by
  have hent : entryOf f m.applyAbort = .ok f m.applyAbort := by
    unfold entryOf
    rw [if_neg hf]
    rfl
  have hidle := requireIdle_eq m
  unfold prepareFunction
  by_cases hbusy : m.applyAbort.ctx.isBusy = true
  · rw [if_pos hbusy] at hidle ⊢
    exact bind_of_error hidle _
  · rw [if_neg hbusy] at hidle ⊢
    rw [bind_of_ok hidle, bind_of_ok hent, bind_of_ok (leaveRun_eq _)]
    rfl

theorem prepareFunction_ok {m' : Machine} (hm : m.ctx.Seated) (hf : f.kind ≠ .imported)
    (h : prepareFunction f m = .ok () m') :
    f.entryWords < 4294967296 ∧ m' = m.vacated.settled f := by
  rw [prepareFunction_eq hf] at h
  split at h
  · cases h
  · obtain ⟨_, m1, hlyt, -⟩ := bind_ok (x := layoutEntry f) h
    obtain ⟨_, m2, hsum, -⟩ := bind_ok (x := wordOrStop _) hlyt
    obtain ⟨hword, -⟩ := wordOrStop_ok hsum
    rw [settle_eq (layered_vacated hm) hword] at h
    cases h
    exact ⟨hword, rfl⟩

theorem prepareFunction_alike {mf : Machine} (hm : m.vacated.ctx.stack.Layered)
    (hf : f.kind ≠ .imported) (hg : g.kind ≠ .imported) (hwordf : f.entryWords < 4294967296)
    (hwordg : g.entryWords < 4294967296) (h : prepareFunction f m = .ok () mf) :
    mf = m.vacated.settled f ∧ prepareFunction g m = .ok () (m.vacated.settled g) := by
  rw [prepareFunction_eq hf] at h
  rw [prepareFunction_eq hg]
  by_cases hbusy : m.applyAbort.ctx.isBusy = true
  · rw [if_pos hbusy] at h
    cases h
  · rw [if_neg hbusy, settle_eq hm hwordf] at h
    rw [if_neg hbusy, settle_eq hm hwordg]
    exact ⟨(EStateM.Result.ok.inj h).2.symm, rfl⟩

variable (nested : Nested)

theorem beginMethod_eq (hword : g.methodWords < 4294967296) : beginMethod g m = .ok () (
      if m.ctx.fp.offset.toNat < g.methodWords then m.raise .stackOverflow
      else (m.handOver g).enteredBy m.ctx.entry) := by
  have hless : g.locals.toNat + g.stackNeeded.toNat < 4294967296 :=
    Nat.lt_of_le_of_lt (Nat.le_add_right _ _) hword
  show (wordOrStop (g.locals.toNat + g.stackNeeded.toNat) >>= _) m = _
  rw [bind_of_ok (wordOrStop_of_lt hless m)]
  show (wordOrStop g.methodWords >>= _) m = _
  rw [bind_of_ok (wordOrStop_of_lt hword m)]
  show (if m.ctx.fp.offset.toNat < g.methodWords then _ else _ : Exec RequestError Unit) m = _
  split
  · rfl
  · refine congrArg (EStateM.Result.ok ()) ?_
    show ((m.setModule (liveModuleOf? m g)).onContext _ |>.clearObjectVars g).onContext _ = _
    rw [Machine.clearObjectVars_eq, Machine.setModule_eq]
    rfl

theorem executeWith_of_start {m' : Machine} (h : startRun nested m = .ok () m') (n : Nat) :
    executeWith nested n m = finishRun nested n m' := by
  show (startRun nested >>= fun _ => finishRun nested n) m = _
  exact bind_of_ok h

theorem finishRun_raise (fault : Fault) (habort : m.ctx.abortRequested = false) (n : Nat) :
    finishRun nested n (m.raise fault) = .ok .exception (m.raise fault) := by
  have hstate : (m.raise fault).ctx.state = .exception := by rw [raise_ctx]
  have hconc : concluded (m.raise fault) = m.raise fault := by
    have hcalm : (m.raise fault).ctx.abortRequested = false := by
      rw [raise_ctx]
      exact habort
    unfold concluded
    rw [if_neg (by simp [hstate])]
    exact congrArg
      (fun b => (m.raise fault).onContext fun c => { c with abortRequested := b }) hcalm.symm
  show (if (m.raise fault).ctx.state = .active then _ else endRun : Exec RequestError Outcome)
      (m.raise fault) = _
  rw [if_neg (by simp [hstate]), endRun_eq, hconc, hstate]
  rfl

section Starting

variable (hstate : m.ctx.state = .prepared) (habort : m.ctx.abortRequested = false)

include hstate habort

theorem startRun_of_enter {m' : Machine} (henter : enter nested m.begun = .ok () m')
    (hgoing : m'.ctx.state = .active → m'.ctx.function.isNone = false) :
    startRun nested m = .ok () m' := by
  rw [startRun_prepared nested hstate, habort]
  show (enter nested >>= _) m.begun = _
  rw [bind_of_ok henter]
  show (if m'.ctx.state = .active ∧
      m'.ctx.function.isNone then _ else _ : Exec RequestError Unit) m' = _
  rw [if_neg]
  · rfl
  · rintro ⟨hact, hnone⟩
    rw [hgoing hact] at hnone
    cases hnone

theorem startRun_script (hfunction : m.ctx.function = some g) (hscr : g.kind = .script) :
    startRun nested m = .ok () m.begun := by
  refine startRun_of_enter nested hstate habort ?_ fun _ => ?_
  · unfold enter
    rw [ctx_bind, show m.begun.ctx.function = some g from hfunction]
    simp only [hscr]
    rfl
  · rw [show m.begun.ctx.function = some g from hfunction]
    rfl

section Dispatch

variable (hfunction : m.ctx.function = some f) (hg : g.Implements f)
  (htarget : (m.handleAt? m.ctx.fp).bind (m.engine.resolveMethod? f) = some g)
    (hword : g.methodWords < 4294967296)

include hfunction hg htarget hword

theorem startRun_method : startRun nested m = .ok () (
      if m.ctx.fp.offset.toNat < g.methodWords then m.begun.raise .stackOverflow
      else (m.begun.handOver g).enteredBy m.ctx.entry) := by
  have hmeth : enterMethod nested f m.begun = beginMethod g m.begun := by
    have htarget' : (m.begun.handleAt? m.begun.ctx.fp).bind (m.begun.engine.resolveMethod? f) =
        some g := htarget
    unfold enterMethod
    rw [bind_of_ok (x := get) rfl, htarget']
    dsimp only
    rw [if_neg (by simp [hg.script])]
  have henter : enter nested m.begun = beginMethod g m.begun := by
    rw [← hmeth]
    unfold enter
    rw [ctx_bind, show m.begun.ctx.function = some f from hfunction]
    obtain hkind | hkind := hg.declared
    · simp only [hkind]
    · simp only [hkind]
  refine startRun_of_enter nested hstate habort (henter.trans (beginMethod_eq hword)) ?_
  split
  · rw [raise_ctx]
    intro hact
    cases hact
  · exact fun _ => rfl

theorem executeWith_handOver [∀ id args, Blind (nested id args)]
    (hroom : g.methodWords ≤ m.ctx.fp.offset.toNat) (n : Nat) :
    executeWith nested n (m.handOver g) = mapLeft (·.enteredBy (some g)) (executeWith nested n m) ∧
      ∀ outcome v, executeWith nested n m = .ok outcome v → v.ctx.entry = m.ctx.entry := by
  have hstart := startRun_method nested hstate habort hfunction hg htarget hword
  rw [if_neg (Nat.not_lt.mpr hroom)] at hstart
  have hdir := startRun_script (m := m.handOver g) nested hstate habort rfl hg.script
  rw [executeWith_of_start nested hstart, executeWith_of_start nested hdir]
  constructor
  · exact (blind_finishRun nested n).misses ((m.begun.handOver g).enteredBy m.ctx.entry) (some g)
  · intro outcome v hv
    have hent := Blind.entry_of_ok (x := finishRun nested n) hv
    exact hent

theorem executeWith_crowded (hroom : m.ctx.fp.offset.toNat < g.methodWords) (n : Nat) :
    executeWith nested n m = .ok .exception (m.begun.raise .stackOverflow) := by
  have hstart := startRun_method nested hstate habort hfunction hg htarget hword
  rw [if_pos hroom] at hstart
  rw [executeWith_of_start nested hstart]
  exact finishRun_raise (m := m.begun) nested .stackOverflow habort n

end Dispatch

end Starting

theorem results_enteredBy (hent : m.ctx.entry = some f)
    (hreturns : g.signature.returns = f.signature.returns) :
    (m.enteredBy (some g)).ctx.results = m.ctx.results := by
  unfold Context.results Context.result Context.resultAddress
  rw [hent]
  simp only [Machine.enteredBy, Machine.onContext, Option.any_some, hreturns]
  rfl

/-- A run that begins with a declaration does what a run of its implementation does, if the frame of
the declaration has room for the implementation with its locals counted twice, and is a stack
overflow else. A run of the implementation has all the room it needs in both cases. -/
theorem method_entry_agrees {limit : UInt32} {most : Nat} {o : Handle} {args : List Request}
    {mf : Machine} (hm : m.ctx.Reached limit most) (hg : g.Implements f)
    (hword : g.locals.toNat + g.entryWords < 4294967296)
    (hargs : ∀ r ∈ args, r.setsArg = true) (hprepared : prepareFunction f m = .ok () mf)
    (hobject : (Request.performAll args mf).handleAt? mf.ctx.fp = some o)
    (hresolved : (Request.performAll args mf).engine.resolveMethod? f o = some g) :
    ∃ mg, prepareFunction g m = .ok () mg ∧ g.stackNeeded.toNat + reserve ≤ mg.ctx.fp.offset.toNat ∧
      (g.methodWords ≤ mf.ctx.fp.offset.toNat → ∀ n,
        execute (n + 1) (Request.performAll args mg) =
          mapLeft (·.enteredBy (some g)) (execute (n + 1) (Request.performAll args mf)) ∧
        ∀ outcome v, execute (n + 1) (Request.performAll args mf) = .ok outcome v →
          (v.enteredBy (some g)).ctx.results = v.ctx.results) ∧
      (mf.ctx.fp.offset.toNat < g.methodWords → ∀ n, ∃ v x,
        execute (n + 1) (Request.performAll args mf) = .ok .exception v ∧ v.ctx.exception = some x ∧
          x.fault = .stackOverflow ∧
          v.engine.heap = (Request.performAll args mf).engine.heap ∧
          v.engine.modules = (Request.performAll args mf).engine.modules) := by
  have hsmall : f.entryWords ≤ g.entryWords := by
    have hneeded := hg.small
    have hargWords := hg.argWords
    unfold Func.entryWords
    omega
  have hmethod : g.methodWords ≤ g.locals.toNat + g.entryWords := by
    unfold Func.methodWords Func.entryWords
    omega
  have hbound : f.kind ≠ .imported := by
    obtain hkind | hkind := hg.declared
    · simp [hkind]
    · simp [hkind]
  have hlayered := layered_vacated hm.within.toSeated
  obtain ⟨rfl, hdirect⟩ := prepareFunction_alike (g := g) hlayered hbound (by simp [hg.script])
    (by omega) (by omega) hprepared
  obtain ⟨-, -, -, hdeclared, hplace⟩ := settled_of_posture (m := m.vacated) (f := f) rfl
  obtain ⟨hhandOver, hposture⟩ := Request.performAll_handOver hg.toAccords hg.vars hargs hdeclared
  obtain ⟨hstate, habort, hfunction, hentry, hfp⟩ := settled_of_posture hposture
  generalize Request.performAll args (m.vacated.settled f) = p at *
  have htarget : (p.handleAt? p.ctx.fp).bind (p.engine.resolveMethod? f) = some g := by
    rw [hfp, ← hplace, hobject]
    exact hresolved
  refine ⟨m.vacated.settled g, hdirect, room_of_settled hlayered (by omega), fun hroom n => ?_,
    fun hroom n => ?_⟩
  · rw [hplace] at hroom
    obtain ⟨hrun, hkeeps⟩ :=
      executeWith_handOver (runNested (execute n)) hstate habort hfunction hg htarget (by omega)
        (by rw [hfp]; exact hroom) n
    -- The method prepared at once is the declaration handed over before the arguments are set, so
    -- also after that.
    rw [← settled_handOver hlayered hg (by omega) hroom, hhandOver]
    exact ⟨hrun,
      fun outcome v hv => results_enteredBy ((hkeeps outcome v hv).trans hentry) hg.returns⟩
  · rw [hplace, ← hfp] at hroom
    have hrun := executeWith_crowded (runNested (execute n)) hstate habort hfunction hg htarget
      (by omega) hroom n
    obtain ⟨hheap, hmodules⟩ := p.begun.stores_raise .stackOverflow
    exact ⟨_, _, hrun, by rw [raise_ctx], Context.fault_exceptionOf _ _, hheap, hmodules⟩

/-- Its instances have a method in their table. -/
def animal : ObjectType := { id := ⟨1⟩, name := "Animal", refCounted := true, virtualTable := [⟨1⟩] }

def slot : Func :=
  { id := ⟨2⟩, name := "slot", kind := .virtual, signature := .ofTypes .int [.int],
    module := some ⟨1⟩, owner := some ⟨1⟩,
    tableIndex := some 0 }

/-- The method, with so many locals. One of them holds an object. It returns its argument. -/
def speak (locals : UInt32) : Func :=
  { id := ⟨1⟩, name := "speak", signature := .ofTypes .int [.int], module := some ⟨1⟩,
    owner := some ⟨1⟩,
    code := #[.toRegister (-2), .ret 3], locals, stackNeeded := locals, objectVars :=
      [{ offset := 2, type := ⟨1⟩ }] }

def zoo (locals : UInt32) : Machine where
  engine :=
    { config := { initialStack := 16 }
      functions := #[none, some (speak locals), some slot]
      modules := #[some { id := ⟨1⟩, name := "main" }]
      live := [⟨1⟩]
      heap := (Heap.alloc {} animal).2 }
  ctx := .new 0

/-- The animal is the object of the method, and there is an argument. -/
def asked : List Request := [.setThis (some ⟨0, 0⟩), .setArgWord 0 42]

theorem speak_implements (locals : UInt32) : (speak locals).Implements slot where
  method := rfl
  params := rfl
  returns := rfl
  declared := .inl rfl
  script := rfl
  bare := rfl
  small := Nat.zero_le _
  vars := by
    intro v hv
    cases List.mem_singleton.mp hv
    decide

/-- A method with few locals returns its argument, whether it is prepared itself or its declaration
is. -/
theorem method_entry_agrees_speak : ∃ mf mg vf, prepareFunction slot (zoo 4) = .ok () mf ∧
      prepareFunction (speak 4) (zoo 4) = .ok () mg ∧
      execute 9 (Request.performAll asked mf) = .ok .finished vf ∧
      execute 9 (Request.performAll asked mg) = .ok .finished (vf.enteredBy (some (speak 4))) ∧
      vf.ctx.result = 42 ∧ (vf.enteredBy (some (speak 4))).ctx.results = vf.ctx.results := by
  have hnew : (zoo 4).ctx.Reached 0 16 := .new
  have hsets : ∀ r ∈ asked, r.setsArg = true := by decide
  have hprepared : prepareFunction slot (zoo 4) = .ok () _ := ok_of_value (by decide +kernel)
  obtain ⟨mg, hdirect, -, hagree, -⟩ :=
    method_entry_agrees (o := ⟨0, 0⟩) hnew (speak_implements 4) (by decide) hsets hprepared
    (by decide +kernel) (by decide +kernel)
  obtain ⟨hrun, hresults⟩ := hagree (by decide +kernel) 8
  have hfinished : execute 9 (Request.performAll asked ((prepareFunction slot).after (zoo 4))) =
      .ok .finished _ :=
    ok_of_value (by decide +kernel)
  rw [hfinished] at hrun
  exact ⟨_, mg, _, hprepared, hdirect, hfinished, hrun, by decide +kernel, hresults _ _ hfinished⟩

/-- A method with more locals returns its argument as well, but not if its declaration is
prepared. -/
theorem method_entry_overflows : ∃ mf mg vf vg x, prepareFunction slot (zoo 8) = .ok () mf ∧
      prepareFunction (speak 8) (zoo 8) = .ok () mg ∧
      (Request.performAll asked mf).engine.resolveMethod? slot ⟨0, 0⟩ = some (speak 8) ∧
      execute 9 (Request.performAll asked mg) = .ok .finished vg ∧ vg.ctx.result = 42 ∧
      execute 9 (Request.performAll asked mf) = .ok .exception vf ∧ vf.ctx.exception = some x ∧
        x.fault = .stackOverflow := by
  have hdeclared : prepareFunction slot (zoo 8) = .ok () _ := ok_of_value (by decide +kernel)
  have hdirect : prepareFunction (speak 8) (zoo 8) = .ok () _ := ok_of_value (by decide +kernel)
  have hfinished : execute 9
      (Request.performAll asked ((prepareFunction (speak 8)).after (zoo 8))) = .ok .finished _ :=
    ok_of_value (by decide +kernel)
  have hexception : execute 9 (Request.performAll asked ((prepareFunction slot).after (zoo 8))) =
      .ok .exception _ :=
    ok_of_value (by decide +kernel)
  exact ⟨_, _, _, _,
    { fault := .stackOverflow, function := ⟨2⟩, functionName := "slot", line := 0, column := 0 },
      hdeclared, hdirect,
    by decide +kernel, hfinished, by decide +kernel, hexception, by decide +kernel, rfl⟩

end Exec

end ScriptVm
