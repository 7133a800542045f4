import ScriptVm.Proofs.Execution.Integrity

namespace ScriptVm.Exec

/-- The states of a context that runs functions by their ids or initializers of modules. The host
may change the engine, pass arguments, read results and ask for interruption at any time between
steps. -/
inductive Reachable : Machine → Prop where
  | new {config : Config} (hverify : config.verify = true) :
    Reachable { engine := { config }, ctx := Context.new config.maxStack }
  | engine {m : Machine} {e : Engine} (h : Reachable m) (hchange : m.engine.Change e) :
    Reachable { m with engine := e }
  | host {m : Machine} {c : Context} (h : Reachable m) (hcontrol : c.control = m.ctx.control)
      (hstate : c.state = m.ctx.state) : Reachable { m with ctx := c }
  | prepare {m : Machine} (h : Reachable m) (id : FunctionId) : Reachable ((prepare id).after m)
  | initializer {m : Machine} (h : Reachable m) {id : ModuleId} {module : Module} {f : Func}
      (hmodule : m.engine.built? id = some module) (hf : module.initializer = some f) :
    Reachable ((prepareFunction f).after m)
  | unprepare {m : Machine} (h : Reachable m) : Reachable (unprepare.after m)
  | start {m : Machine} (h : Reachable m) (n : Nat) :
    Reachable ((startRun (runNested (execute n))).after m)
  | step {m m' : Machine} {flow : Flow} (h : Reachable m) (hactive : m.ctx.state = .active)
      (n : Nat) (hstep : step (runNested (execute n)) m = .ok flow m') : Reachable m'
  | pause {m : Machine} (h : Reachable m) : Reachable (endRun.after m)
  | abort {m : Machine} (h : Reachable m) : Reachable ((abort : Exec RequestError Unit).after m)

theorem reachable_intact {m : Machine} (h : Reachable m) : m.Intact := by
  induction h with
  | new hver => exact Machine.abides_new (Engine.verified_new hver) _
  | engine _ hchg ih =>
    exact ⟨ih.engine.change hchg,
      ⟨ih.position.callers, ih.position.current, ih.position.inside, ih.position.first⟩⟩
  | host _ hctl hst ih => exact ih.of_stance rfl (Machine.stance_ext hctl hst)
  | prepare _ id ih => exact prepare_intact ih id
  | initializer _ hmod hf ih => exact prepareFunction_intact ih (ih.engine.initializer hmod hf)
  | unprepare _ ih => exact unprepare_abides ih
  | start _ n ih => exact startRun_abides _ ih
  | step _ hact n hstep ih => exact step_abides _ ih hact hstep
  | pause _ ih => exact endRun_abides ih
  | abort _ ih => exact abort_abides ih

theorem static_jump_goes (nested : Nested) {m : Machine} {f : Func} {i : Instr}
    (hfn : m.ctx.function = some f) (hf : f.Closed) (hi : f.code[m.ctx.pc]? = some i)
    (hjump : i.jumpOffset?.isSome = true) :
    ∃ m', step nested m = .ok .go m' := by
  have hfetch : fetch? m.ctx = some i := by
    rw [fetch?, hfn]
    exact hi
  have hadvd : (m.onContext Context.advance).ctx.function = some f := hfn
  have hpc : ((m.onContext Context.advance).ctx.pc : Int) = m.ctx.pc + 1 := rfl
  rw [step_eq nested hfetch]
  have hgoes {offset : Int32} (hoff : i.jumpOffset? = some offset) :
      ∃ m', jumpBy offset.toInt (m.onContext Context.advance) = .ok () m' := by
    rw [jumpBy_eq hadvd, hpc, if_pos (hf.jumps m.ctx.pc i offset hi hoff)]
    exact ⟨_, rfl⟩
  cases i with
  | jump offset =>
    obtain ⟨m', hjumped⟩ := hgoes rfl
    have hexec : exec nested (.jump offset) (m.onContext Context.advance) = .ok .go m' :=
      bind_of_ok hjumped
    exact ⟨m', raising_of_ok hexec _⟩
  | branch test offset =>
    have hexec : ∃ m', simple (.branch test offset) (m.onContext Context.advance) = .ok () m' := by
      show ∃ m', (if test.holds m.ctx.register then jumpBy offset.toInt else pure ())
          (m.onContext Context.advance) = .ok () m'
      split
      · exact hgoes rfl
      · exact ⟨_, rfl⟩
    obtain ⟨m', hbranched⟩ := hexec
    have hexec : exec nested (.branch test offset) (m.onContext Context.advance) = .ok .go m' :=
      bind_of_ok hbranched
    exact ⟨m', raising_of_ok hexec _⟩
  | _ => cases hjump

/-- In an engine that checks its functions, every saved caller goes on in its code, and as long as
the run has not ended the program counter is in the code of the current function; so there is always
a next instruction, and it does not fault if it is a jump with a fixed offset. -/
theorem control_in_code {m : Machine} (h : Reachable m) : (∀ frame ∈ m.ctx.calls.frames,
      frame.function.kind = .script → frame.pc < frame.function.code.size) ∧
      ∀ f, m.ctx.function = some f → f.kind = .script → m.ctx.state ≠ .finished →
        m.ctx.state ≠ .exception →
        m.ctx.pc < f.code.size ∧ ∃ i, fetch? m.ctx = some i ∧
          (i.jumpOffset?.isSome = true → ∀ nested, ∃ m', step nested m = .ok .go m') := by
  have hintact := reachable_intact h
  refine ⟨fun frame hframe => (hintact.position.callers frame hframe).2,
    fun f hfunction hkind hfinished hexception => ?_⟩
  have hnot : m.ctx.state.ended = false := by
    cases hstate : m.ctx.state with
    | finished => exact absurd hstate hfinished
    | exception => exact absurd hstate hexception
    | _ => rfl
  have hlt : m.ctx.pc < f.code.size := hintact.position.inside f hfunction hnot hkind
  have hi : f.code[m.ctx.pc]? = some f.code[m.ctx.pc] := Array.getElem?_eq_getElem hlt
  have hclosed : f.Closed := hintact.position.current f hfunction hkind
  refine ⟨hlt, f.code[m.ctx.pc], ?_,
    fun hjump nested => static_jump_goes nested hfunction hclosed hi hjump⟩
  rw [fetch?, hfunction]
  exact hi

def loaded (functions : List Func) : Machine :=
  let (d, e) := ({} : Engine).beginModule "main"
  let (e, d) := functions.foldl (fun s f => (s.1.addFunction s.2 f).2) (e, d)
  { engine := (e.build d).2, ctx := Context.new 0 }

theorem loaded_reachable (functions : List Func) : Reachable (loaded functions) := by
  have hadd (s : Engine × Draft) (hs : Reachable { engine := s.1, ctx := Context.new 0 }) :
      Reachable { engine := (functions.foldl (fun s f => (s.1.addFunction s.2 f).2) s).1,
                  ctx := Context.new 0 } := by
    induction functions generalizing s with
    | nil => exact hs
    | cons f functions ih => exact ih _ (hs.engine (.reserveFunction s.1))
  have hnew : Reachable { engine := {}, ctx := Context.new 0 } := .new rfl
  exact (hadd _ (hnew.engine (.beginModule {} "main"))).engine (.build _ _)

def outer : Func := { id := ⟨1⟩, module := some ⟨1⟩, name := "outer", code := #[.call ⟨2⟩, .ret 0] }

def inner : Func :=
  { id := ⟨2⟩, module := some ⟨1⟩, name := "inner", code := #[.branch .zero 1, .suspend, .ret 0] }

def jumping : Machine :=
  after (step (runNested (execute 0)))
    (after (startRun (runNested (execute 0))) (after (prepare ⟨1⟩) (loaded [outer, inner])))

theorem jumping_reachable : Reachable jumping := by
  have hstart := ((loaded_reachable [outer, inner]).prepare ⟨1⟩).start 0
  exact hstart.step (by decide +kernel) 0 (ok_of_value (a := .go) (by decide +kernel))

theorem control_in_code_jumping : Reachable jumping ∧ jumping.ctx.function = some inner ∧
      jumping.ctx.calls.frames.map Frame.pc = [1] ∧
      jumping.ctx.pc < inner.code.size ∧ ∃ i, fetch? jumping.ctx = some i ∧
        (i.jumpOffset?.isSome = true → ∀ nested, ∃ m', step nested jumping = .ok .go m') := by
  have hfunction : jumping.ctx.function = some inner := by decide +kernel
  have hinside := (control_in_code jumping_reachable).2 inner hfunction rfl (by decide +kernel)
    (by decide +kernel)
  exact ⟨jumping_reachable, hfunction, by decide +kernel, hinside⟩

def lone : Func := { id := ⟨1⟩, module := some ⟨1⟩, name := "lone", code := #[.ret 0] }

/-- The machine after a run of a function that does nothing. -/
def returned : Machine :=
  after endRun (after (step (runNested (execute 0)))
    (after (startRun (runNested (execute 0))) (after (prepare ⟨1⟩) (loaded [lone]))))

/-- A run that has finished leaves the program counter behind the last instruction. -/
theorem returned_behind_code :
    Reachable returned ∧ returned.engine.config.verify = true ∧ returned.ctx.state = .finished ∧
      returned.ctx.function = some lone ∧ lone.kind = .script ∧
        ¬ returned.ctx.pc < lone.code.size := by
  have hstart := ((loaded_reachable [lone]).prepare ⟨1⟩).start 0
  have hstep := hstart.step (by decide +kernel) 0 (ok_of_value (a := .halt) (by decide +kernel))
  exact ⟨hstep.pause, by decide +kernel, by decide +kernel, by decide +kernel,
    rfl, by decide +kernel⟩

end ScriptVm.Exec
