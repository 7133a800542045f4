import ScriptVm.Proofs.Execution.Runs

namespace ScriptVm

/-- What is asked of an engine, of a function that runs in a module, and of the number of its next
instruction. The functions of the engine meet it in their modules, and control keeps to it. -/
structure Terms where
  Grants : Engine → Prop
  Runs : Engine → Func → Option ModuleId → Prop
  At : Func → Nat → Prop
  grants_of_catalog : ∀ {e e' : Engine}, Grants e → e'.catalog = e.catalog → Grants e'
  runs_of_catalog :
    ∀ {e e' : Engine} {f module}, Runs e f module → e'.catalog = e.catalog → Runs e' f module
  listed : ∀ {e : Engine} {k f} {p : ModuleId → Bool}, Grants e → e.function? k = some f →
    (∀ id, (e.module? id).isSome = true → p id = true) → Runs e f (f.module.filter p)
  unscripted : ∀ {e f module}, f.kind ≠ .script → Runs e f module
  zero : ∀ {e f module}, Runs e f module → At f 0
  next : ∀ {e f module} {pc : Nat} {i : Instr}, Runs e f module → f.code[pc]? = some i →
    i.isTerminator = false → At f (pc + 1)
  target : ∀ {f : Func} {pc : Nat}, pc < f.code.size → At f pc

/-- The run is over. The program counter is left after the last instruction that was begun. -/
def ContextState.ended : ContextState → Bool
  | finished | exception => true
  | _ => false

/-- The current function and all callers are where they may be. -/
structure Terms.Placed (T : Terms) (e : Engine) (c : Context) : Prop where
  callers : ∀ frame ∈ c.calls.frames, T.Runs e frame.function frame.module ∧
    T.At frame.function frame.pc
  current : ∀ f, c.function = some f → T.Runs e f c.module
  inside : ∀ f, c.function = some f → c.state.ended = false → T.At f c.pc
  first : c.state = .prepared → c.pc = 0 ∧ c.calls = {}

/-- Nothing runs but on these terms. -/
structure Machine.Abides (T : Terms) (m : Machine) : Prop where
  engine : T.Grants m.engine
  position : T.Placed m.engine m.ctx

namespace Terms

variable {T : Terms} {e e' : Engine} {c : Context} {f : Func}

/-- A run of the function takes place in its module, if the function is found in the engine. -/
def Admits (T : Terms) (e : Engine) (f : Func) : Prop :=
  T.Runs e f (f.module.filter fun id => (e.module? id).isSome)

theorem admits_of_listed {k : FunctionId} (he : T.Grants e) (hf : e.function? k = some f) :
    T.Admits e f :=
  T.listed he hf fun _ hid => hid

theorem Admits.of_catalog (h : T.Admits e f) (hcat : e'.catalog = e.catalog) : T.Admits e' f := by
  have hsame : (fun id => (e'.module? id).isSome) = fun id => (e.module? id).isSome :=
    funext (Engine.module?_isSome_of_catalog hcat)
  unfold Admits
  rw [hsame]
  exact T.runs_of_catalog h hcat

theorem Placed.of_catalog (h : T.Placed e c) (hcat : e'.catalog = e.catalog) : T.Placed e' c where
  callers frame hfr := ⟨T.runs_of_catalog (h.callers frame hfr).1 hcat, (h.callers frame hfr).2⟩
  current f hf := T.runs_of_catalog (h.current f hf) hcat
  inside := h.inside
  first := h.first

section

variable (hclrs : ∀ frame ∈ c.calls.frames,
    T.Runs e frame.function frame.module ∧ T.At frame.function frame.pc)
include hclrs

theorem Placed.of_function (hfn : c.function = some f) (hf : T.Runs e f c.module)
    (hat : c.state.ended = false → T.At f c.pc)
    (hprep : c.state = .prepared → c.pc = 0 ∧ c.calls = {}) : T.Placed e c := by
  refine ⟨hclrs, fun g hg => ?_, fun g hg hnot => ?_, hprep⟩
  · cases hfn.symm.trans hg
    exact hf
  · cases hfn.symm.trans hg
    exact hat hnot

theorem Placed.of_none (hnone : c.function = none) (hprep : c.state ≠ .prepared) : T.Placed e c := by
  refine ⟨hclrs, fun g hg => ?_, fun g hg => ?_, fun hst => absurd hst hprep⟩
  · cases hnone.symm.trans hg
  · cases hnone.symm.trans hg

end

/-- When a run has ended, the program counter may be anywhere. -/
theorem Placed.ended {c' : Context} (h : T.Placed e c) (hfn : c'.function = c.function)
    (hmod : c'.module = c.module) (hcl : c'.calls = c.calls) (hended : c'.state.ended = true) :
    T.Placed e c' where
  callers := hcl ▸ h.callers
  current := by
    rw [hfn, hmod]
    exact h.current
  inside _ _ hnot := nomatch hended.symm.trans hnot
  first hprep := by
    rw [hprep] at hended
    cases hended

end Terms

namespace Machine

variable {T : Terms} {m m' : Machine}

theorem abides_new {e : Engine} (h : T.Grants e) (max : UInt32) :
    Abides T { engine := e, ctx := Context.new max } where
  engine := h
  position := .of_none (fun _ hnone => absurd hnone List.not_mem_nil) rfl fun hst => nomatch hst

theorem Abides.of_placed (h : m.Abides T) (hcat : m'.catalog = m.catalog)
    (hplaced : T.Placed m.engine m'.ctx) : m'.Abides T :=
  ⟨T.grants_of_catalog h.engine hcat, hplaced.of_catalog hcat⟩

/-- Where a context stands, and in which state. -/
def stance (m : Machine) : Option Func × Option ModuleId × Nat × CallStack × ContextState :=
  (m.ctx.function, m.ctx.module, m.ctx.pc, m.ctx.calls, m.ctx.state)

theorem stance_ext (hctl : m'.ctx.control = m.ctx.control) (hst : m'.ctx.state = m.ctx.state) :
    m'.stance = m.stance := by
  obtain ⟨hfn, hmod, hpc, -, hcl⟩ := Control.mk.inj hctl
  simp only [stance, hfn, hmod, hpc, hcl, hst]

theorem stance_of_outline (h : m'.outline = m.outline) : m'.stance = m.stance :=
  stance_ext (congrArg Outline.control h) (congrArg Outline.state h)

variable (h : m.Abides T)
include h

theorem Abides.of_stance (hcat : m'.catalog = m.catalog) (hstance : m'.stance = m.stance) :
    m'.Abides T := by
  simp only [stance, Prod.mk.injEq] at hstance
  obtain ⟨hfn, hmod, hpc, hcl, hst⟩ := hstance
  refine h.of_placed hcat ⟨?_, ?_, ?_, ?_⟩
  · rw [hcl]
    exact h.position.callers
  · rw [hfn, hmod]
    exact h.position.current
  · rw [hfn, hst, hpc]
    exact h.position.inside
  · rw [hst, hpc, hcl]
    exact h.position.first

theorem Abides.of_outline (hout : m'.outline = m.outline) : m'.Abides T :=
  h.of_stance (congrArg Outline.catalog hout) (stance_of_outline hout)

theorem Abides.finish {state : ContextState} (hst : state.ended = true) :
    (m.onContext fun c => { c with state }).Abides T :=
  ⟨h.engine, h.position.ended rfl rfl rfl hst⟩

theorem Abides.setState (hnot : m.ctx.state.ended = false) {state : ContextState}
    (hst : state ≠ .prepared) : (m.onContext fun c => { c with state }).Abides T where
  engine := h.engine
  position :=
    { callers := h.position.callers
      current := h.position.current
      inside := fun f hf _ => h.position.inside f hf hnot
      first := fun hprep => absurd hprep hst }

theorem Abides.raise (fault : Fault) : (m.raise fault).Abides T := by
  have hctx := Exec.raise_ctx m fault
  apply h.of_placed (m.catalog_raise fault)
  rw [hctx]
  exact h.position.ended rfl rfl rfl rfl

theorem Abides.begin (hpc : m.ctx.pc = 0) {f : Func} {module : Option ModuleId}
    (hf : T.Runs m.engine f module) (hcat : m'.catalog = m.catalog)
    (hctl : m'.ctx.control = { m.ctx.control with function := some f, module })
    (hst : m'.ctx.state = m.ctx.state) : m'.Abides T := by
  obtain ⟨hfn, hmod, hsame, -, hcl⟩ := Control.mk.inj hctl
  refine h.of_placed hcat (.of_function ?_ hfn ?_ (fun _ => ?_) ?_)
  · rw [hcl]
    exact h.position.callers
  · rwa [hmod]
  · rw [hsame.trans hpc]
    exact T.zero hf
  · rw [hst, hsame, hcl]
    exact h.position.first

theorem Abides.cleanStack : m.cleanStack.Abides T := by
  have hst := m.state_cleanStack
  obtain ⟨-, hctl⟩ | ⟨frame, hmem, hctl⟩ := m.control_cleanStack
  · exact h.of_stance m.catalog_cleanStack (stance_ext hctl hst)
  · obtain ⟨hruns, hat⟩ := h.position.callers frame hmem
    obtain ⟨hfn, hmod, hpc, -, hcl⟩ := Control.mk.inj hctl
    refine h.of_placed m.catalog_cleanStack
      (.of_function ?_ hfn (hmod ▸ hruns) (fun _ => hpc ▸ hat) fun hprep => ?_)
    · rw [hcl]
      exact fun _ hnone => absurd hnone List.not_mem_nil
    -- Nothing was called yet in a prepared context.
    · rw [(h.position.first (hst.symm.trans hprep)).2] at hmem
      cases hmem

theorem Abides.abortNow (hnot : m.ctx.state.ended = false) : m.abortNow.Abides T :=
  (h.setState hnot (by decide)).cleanStack

theorem Abides.applyAbort : m.applyAbort.Abides T := by
  unfold Machine.applyAbort
  split
  · rename_i habt
    have hnot : m.ctx.state.ended = false := by rw [habt.1]; rfl
    have hforget : (m.onContext fun c => { c with abortRequested := false }).Abides T :=
      h.of_outline rfl
    exact hforget.abortNow hnot
  · exact h

theorem Abides.dropObject : m.dropObject.Abides T := by
  have hcld : (m.onContext fun c => { c with objectRegister := none }).Abides T := h.of_outline rfl
  unfold Machine.dropObject
  cases m.ctx.objectRegister with
  | none => exact hcld
  | some object => exact hcld.of_outline (outline_giveUp _ object)

/-- When a run is given up, the module is left. -/
theorem Abides.releaseRun : ∃ m1 : Machine, m1.Abides T ∧ m.releaseRun = m1.setModule none := by
  refine ⟨_, ?_, rfl⟩
  split
  · exact h.cleanStack.dropObject
  · exact h.dropObject

end Machine

namespace Exec

variable {ε α β : Type} {T : Terms} {m m' : Machine} {f : Func}

theorem abides_bind {x : Exec ε α} {f : α → Exec ε β} (hx : (x.after m).Abides T)
    (hf : ∀ a m', x m = .ok a m' → m'.Abides T → ((f a).after m').Abides T) :
    ((x >>= f).after m).Abides T :=
  after_bind_induct (P := Machine.Abides T) hx hf

theorem abides_keeps (x : Exec ε α) [hx : Keeps Machine.outline x] (h : m.Abides T) :
    (x.after m).Abides T :=
  h.of_outline (hx.view_after m)

theorem requireIdle_abides (h : m.Abides T) : (requireIdle.after m).Abides T := by
  refine abides_bind (x := modify Machine.applyAbort) h.applyAbort fun _ m' _ hm' => ?_
  exact abides_keeps _ hm'

theorem entryOf_admits {g : Func} (he : T.Grants m.engine) (hf : T.Admits m.engine f)
    (h : entryOf f m = .ok g m') : T.Admits m.engine g := by
  obtain ⟨-, rfl | ⟨id, hg⟩⟩ := entryOf_ok h
  · exact hf
  · exact Terms.admits_of_listed he hg

/-- A run that was prepared begins at the first instruction, without callers. -/
theorem abides_prepared (he : T.Grants m.engine) (hf : T.Admits m.engine f) :
    ((m.setModule (liveModuleOf? m f)).onContext fun c => c.preparedFor f).Abides T := by
  have hcat := m.catalog_setModule (liveModuleOf? m f)
  have hruns : T.Runs (m.setModule (liveModuleOf? m f)).engine f
      (m.setModule (liveModuleOf? m f)).ctx.module := by
    rw [m.setModule_ctx]
    exact T.runs_of_catalog hf hcat
  exact ⟨T.grants_of_catalog he hcat,
    .of_function (fun _ hnone => absurd hnone List.not_mem_nil) rfl hruns
      (fun _ => T.zero hruns) fun _ => ⟨rfl, rfl⟩⟩

theorem prepareFunction_abides (he : T.Grants m.engine) (hf : T.Admits m.engine f)
    (h : prepareFunction f m = .ok () m') : m'.Abides T := by
  obtain ⟨_, m1, hidle, h⟩ := bind_ok h
  obtain ⟨g, m2, hg, h⟩ := bind_ok h
  obtain ⟨_, m3, hleave, h⟩ := bind_ok h
  obtain ⟨_, m4, hlyt, h⟩ := bind_ok h
  cases h
  have hcat1 : m1.catalog = m.catalog := Keeps.of_ok hidle
  have hcat2 : m2.catalog = m1.catalog := Keeps.of_ok hg
  have hcat3 : m3.catalog = m2.catalog := Keeps.of_ok hleave
  have hcat4 : m4.catalog = m3.catalog := Keeps.of_ok hlyt
  have hcat := hcat4.trans (hcat3.trans hcat2)
  have he1 := T.grants_of_catalog he hcat1
  have hadm := entryOf_admits he1 (hf.of_catalog hcat1) hg
  exact abides_prepared (T.grants_of_catalog he1 hcat) (hadm.of_catalog hcat)

theorem prepare_abides {id : FunctionId} (he : T.Grants m.engine) (h : prepare id m = .ok () m') :
    m'.Abides T := by
  obtain ⟨_, m1, hidle, h⟩ := bind_ok h
  replace h := engine_ok h
  obtain ⟨f, m2, hf, hprep⟩ := bind_ok h
  obtain ⟨hf, rfl⟩ := orFail_ok hf
  have hcat : m2.catalog = m.catalog := Keeps.of_ok hidle
  have he2 := T.grants_of_catalog he hcat
  exact prepareFunction_abides he2 (Terms.admits_of_listed he2 hf) hprep

theorem unprepare_abides (h : m.Abides T) : (unprepare.after m).Abides T := by
  refine abides_bind (requireIdle_abides h) fun _ m1 _ h1 => ?_
  refine abides_bind (x := ctx) h1 fun c m2 hc _ => ?_
  cases hc
  split
  · obtain ⟨m2, h2, hrel⟩ := h1.releaseRun
    have hcat : m1.releaseRun.catalog = m2.catalog := hrel ▸ m2.catalog_setModule none
    refine h2.of_placed hcat (.of_none ?_ rfl fun hst => nomatch hst)
    show ∀ frame ∈ m1.releaseRun.ctx.calls.frames, _
    rw [hrel, m2.setModule_ctx]
    exact h2.position.callers
  · exact h1

theorem beginMethod_abides (h : m.Abides T) (hpc : m.ctx.pc = 0) (hf : T.Admits m.engine f) :
    ((beginMethod f).after m).Abides T := by
  refine abides_bind (abides_keeps (wordOrStop _) h) fun _ m1 h1 _ => ?_
  obtain ⟨-, rfl⟩ := wordOrStop_ok h1
  refine abides_bind (abides_keeps (wordOrStop _) h) fun _ m2 h2 _ => ?_
  obtain ⟨-, rfl⟩ := wordOrStop_ok h2
  refine abides_bind (x := ctx) h fun c m3 hc _ => ?_
  cases hc
  split
  · exact h.raise .stackOverflow
  · have hclear := Machine.outline_clearObjectVars ((m2.setModule (liveModuleOf? m2 f)).onContext
      fun c => { c with sp := { c.fp with offset := c.fp.offset - f.locals } }) f
    refine h.begin hpc hf ((congrArg Outline.catalog hclear).trans (m2.catalog_setModule _)) ?_ ?_
    · refine (congrArg (fun o => { o.control with function := some f }) hclear).trans ?_
      show { (m2.setModule (liveModuleOf? m2 f)).ctx.control with function := some f } = _
      rw [m2.setModule_ctx]
      rfl
    · refine (congrArg Outline.state hclear).trans ?_
      show (m2.setModule (liveModuleOf? m2 f)).ctx.state = _
      rw [m2.setModule_ctx]

section Runs

variable (nested : Nested) [∀ id args, Keeps Machine.outline (nested id args)]

theorem enterHost_abides (h : m.Abides T) (f : Func) : ((enterHost nested f).after m).Abides T := by
  have hbegun : (m.onContext fun c => { c with sp := c.fp }).Abides T := h.of_outline rfl
  have hdone : (Exec.after (do
      modifyCtx fun c => { c with sp := c.fp }
      let _ ← callHost nested f none
      modifyCtx fun c => { c with state := .finished } : Exec Fault Unit) m).Abides T := by
    refine abides_bind (x := modifyCtx fun c => { c with sp := c.fp }) hbegun fun _ m1 _ h1 => ?_
    exact abides_bind (abides_keeps (callHost nested f none) h1) fun _ m2 _ h2 => h2.finish rfl
  obtain hafter | ⟨fault, hafter⟩ := after_raising () _ m
  · exact hafter ▸ hdone
  · exact hafter ▸ hdone.raise fault

theorem enterMethod_abides (h : m.Abides T) (hpc : m.ctx.pc = 0) (declared : Func) :
    ((enterMethod nested declared).after m).Abides T := by
  refine abides_bind (x := get) h fun m1 m2 hget h2 => ?_
  cases hget
  cases hresolve : (m.handleAt? m.ctx.fp).bind (m.engine.resolveMethod? declared) with
  | none => exact h.raise .nullPointer
  | some f =>
    obtain ⟨object, -, hresolve⟩ := Option.bind_eq_some_iff.mp hresolve
    obtain ⟨id, hid⟩ := resolveMethod?_table hresolve
    dsimp only
    split
    · rename_i hkind
      have hhosted : T.Runs m.engine f m.ctx.module :=
        T.unscripted fun hscr => nomatch hkind.symm.trans hscr
      exact abides_bind (x := modifyCtx fun c => { c with function := some f })
        (h.begin hpc hhosted rfl rfl rfl)
        fun _ m3 _ h3 => enterHost_abides nested h3 f
    · exact beginMethod_abides h hpc (Terms.admits_of_listed h.engine hid)

theorem enter_abides (h : m.Abides T) (hpc : m.ctx.pc = 0) : ((enter nested).after m).Abides T := by
  refine abides_bind (x := ctx) h fun c m1 hc h1 => ?_
  cases hc
  cases m.ctx.function with
  | none => exact h.finish rfl
  | some f =>
    dsimp only
    cases f.kind with
    | virtual | interface => exact enterMethod_abides nested h hpc f
    | host => exact enterHost_abides nested h f
    | script | imported => exact h

theorem activate_abides (h : m.Abides T) (hnot : m.ctx.state.ended = false) {state : ContextState}
    (hpc : state = .prepared → m.ctx.pc = 0) : ((activate nested state).after m).Abides T := by
  have hfinish {m1 : Machine} (h1 : m1.Abides T) : ((do
      if (← ctx).state = .active ∧ (← ctx).function.isNone then
        modifyCtx fun c => { c with state := .finished } :
          Exec RequestError Unit).after m1).Abides T := by
    refine abides_bind (x := ctx) h1 fun c _ hc _ => ?_
    cases hc
    refine abides_bind (x := ctx) h1 fun c _ hc _ => ?_
    cases hc
    split
    · exact h1.finish rfl
    · exact h1
  have hact : (m.onContext fun c => { c with state := .active }).Abides T :=
    h.setState hnot (by decide)
  refine abides_bind (x := modifyCtx fun c => { c with state := .active }) hact fun _ m1 hset _ => ?_
  cases hset
  dsimp only
  split
  · rename_i hst
    exact abides_bind (enter_abides nested hact (hpc hst)) fun _ m2 _ h2 => hfinish h2
  · exact hfinish hact

theorem startRun_abides (h : m.Abides T) : ((startRun nested).after m).Abides T := by
  by_cases hrdy : m.ctx.state = .prepared ∨ m.ctx.state = .suspended
  · have hnot : m.ctx.state.ended = false := by
      obtain hst | hst := hrdy
      · rw [hst]
        rfl
      · rw [hst]
        rfl
    rw [after, startRun_ready nested hrdy]
    split
    · have habt :
          (m.onContext fun c =>
            { c with suspendRequested := false, abortRequested := false }).Abides T :=
              h.of_outline rfl
      exact habt.abortNow hnot
    · have hforget : (m.onContext fun c => { c with suspendRequested := false }).Abides T :=
        h.of_outline rfl
      exact activate_abides nested hforget hnot fun hprep => (h.position.first hprep).1
  · rw [not_or] at hrdy
    rw [after_of_error (startRun_refused nested hrdy.1 hrdy.2)]
    exact h

end Runs

theorem endRun_abides (h : m.Abides T) : (endRun.after m).Abides T := by
  rw [after_of_ok (endRun_eq m)]
  have hforget : (m.onContext fun c => { c with abortRequested := false }).Abides T :=
    h.of_outline rfl
  unfold concluded
  split
  · rename_i habt
    exact hforget.abortNow (show m.ctx.state.ended = false by rw [habt.2]; rfl)
  · exact hforget

theorem abort_abides (h : m.Abides T) : ((abort : Exec ε Unit).after m).Abides T := by
  refine abides_bind (x := ctx) h fun c m1 hc h1 => ?_
  cases hc
  split
  · rename_i hst
    have hforget : (m.onContext fun c => { c with abortRequested := false }).Abides T :=
      h.of_outline rfl
    exact hforget.abortNow (show m.ctx.state.ended = false by rw [hst]; rfl)
  · exact h.of_outline rfl

theorem fetch_some {i : Instr} (h : fetch? m.ctx = some i) :
    ∃ f, m.ctx.function = some f ∧ f.code[m.ctx.pc]? = some i :=
  Option.bind_eq_some_iff.mp h

/-- Each of the four ways in which an instruction moves control leads to a place where it may be,
unless the run ends. -/
theorem transfer_placed {e : Engine} {c c' : Context} {i : Instr} (he : T.Grants e)
    (hclrs : ∀ frame ∈ c.calls.frames,
      T.Runs e frame.function frame.module ∧ T.At frame.function frame.pc)
    (hfn : c.function = some f) (hf : T.Runs e f c.module) (hi : f.code[c.pc]? = some i)
    (hprep : c'.state ≠ .prepared)
    (h : Transfer e i (c'.state = .finished ∨ c'.state = .exception) c.advance c') :
    T.Placed e c' := by
  cases h with
  | stay hctl hend =>
    obtain ⟨hsame, hmod, hpc, -, hcl⟩ := Control.mk.inj hctl
    refine .of_function (by rwa [hcl]) (hsame.trans hfn) (by rwa [hmod]) (fun hnot => ?_) fun hst =>
      absurd hst hprep
    rw [hpc]
    apply T.next hf hi
    -- Control passes a terminator only when the run ends.
    cases hterm : i.isTerminator with
    | false => rfl
    | true =>
      obtain hst | hst := hend hterm
      · rw [hst] at hnot
        cases hnot
      · rw [hst] at hnot
        cases hnot
  | @jump pc g hctl hcur hlt =>
    obtain ⟨hsame, hmod, hpc, -, hcl⟩ := Control.mk.inj hctl
    cases hfn.symm.trans hcur
    refine .of_function (by rwa [hcl]) (hsame.trans hfn) (by rwa [hmod]) (fun _ => ?_) fun hst =>
      absurd hst hprep
    exact hpc ▸ T.target hlt
  | @enter caller sp hclr hsp hterm hcl hcee hmod =>
    cases hfn.symm.trans hclr
    have hclrs' : ∀ frame ∈ c'.calls.frames, T.Runs e frame.function frame.module ∧
        T.At frame.function frame.pc := by
      intro frame hfr
      rw [hcl] at hfr
      cases hfr with
      | head => exact ⟨hf, T.next hf hi hterm⟩
      | tail _ hfr => exact hclrs frame hfr
    obtain hnone | ⟨hpc, id, callee, hid, hentd⟩ := hcee
    -- A fault between the caller and the callee leaves no current function.
    · exact .of_none hclrs' hnone hprep
    · have hruns : T.Runs e callee c'.module := by
        rw [hmod callee hentd]
        exact T.listed he hid fun k hk => by simp only [hk, Bool.or_true]
      refine .of_function hclrs' hentd hruns (fun _ => ?_) fun hst => absurd hst hprep
      rw [hpc]
      exact T.zero hruns
  | @leave frame calls hpop hcl hreturned hpc hmod =>
    have hfrs : c.calls.frames = frame :: calls.frames := frames_of_pop hpop
    rw [hfrs] at hclrs
    obtain ⟨hruns, hat⟩ := hclrs frame List.mem_cons_self
    refine .of_function (fun outer houter => hclrs outer ?_) hreturned (hmod ▸ hruns)
      (fun _ => hpc ▸ hat) fun hst => absurd hst hprep
    rw [hcl] at houter
    exact List.mem_cons_of_mem _ houter

theorem step_abides (nested : Nested) [∀ id args, Keeps Machine.outline (nested id args)]
    (h : m.Abides T) (hact : m.ctx.state = .active) {flow : Flow}
    (hstep : step nested m = .ok flow m') :
    m'.Abides T := by
  have honward := (inferInstance : Obeys .onward (step nested)).holds m
  rw [hstep] at honward
  have hcat : m'.catalog = m.catalog := honward.1
  apply h.of_placed hcat
  cases hfetch : fetch? m.ctx with
  | none =>
    rw [step_no_instr nested hfetch] at hstep
    cases hstep
    rw [raise_ctx]
    exact h.position.ended rfl rfl rfl rfl
  | some i =>
    obtain ⟨f, hfn, hi⟩ := fetch_some hfetch
    exact transfer_placed h.engine h.position.callers hfn (h.position.current f hfn) hi
      (honward.2 fun hm => nomatch hact.symm.trans hm) (step_transfer nested hfetch hstep)

theorem execute_abides {n : Nat} {outcome : Outcome} (hm : m.Abides T)
    (h : execute n m = .ok outcome m') : m'.Abides T := by
  cases n with
  | zero => cases h
  | succ n =>
    refine executeWith_keeps (P := Machine.Abides T) ?_ ?_ ?_ h
    · intro m1 hstart
      rw [← after_of_ok hstart]
      exact startRun_abides _ hm
    · intro m1 flow m2 h1 hact hstep
      exact step_abides _ h1 hact hstep
    · intro m1 outcome m2 h1 hend
      rw [← after_of_ok hend]
      exact endRun_abides h1

end Exec
end ScriptVm
