import ScriptVm.Proofs.Execution.Yields

namespace ScriptVm.Exec

variable {f m m' m0 : Machine} {nested : Nested} {fuel k n : Nat} {outcome : Outcome}

/-- Asks for suspension from outside, or does not. -/
def ask (asked : Bool) : Exec RequestError Unit :=
  modifyCtx fun c => { c with suspendRequested := c.suspendRequested || asked }

/-- At most so many steps. `asks` tells before which of them suspension is asked for, where `k`
steps were done before. -/
def stepsAsked (nested : Nested) (asks : Nat → Bool) (k : Nat) : Nat → Exec RequestError Unit
  | 0 => throw .outOfFuel
  | n + 1 => do
    if (← ctx).state = .active then
      ask (asks k)
      match ← step nested with
      | .go => stepsAsked nested asks (k + 1) n
      | .halt => pure ()

/-- Runs or resumes, while suspension is asked for now and then. -/
def executeAsked (nested : Nested) (asks : Nat → Bool) (fuel : Nat) : Exec RequestError Outcome := do
  startRun nested
  if (← ctx).state = .active then stepsAsked nested asks 0 fuel
  endRun

/-- Runs and resumes until the run is not suspended any more. Every round has its own requests. -/
def executeRepeatedly (nested : Nested) (asks : Nat → Nat → Bool) (fuel k : Nat) :
    Nat → Exec RequestError Outcome
  | 0 => throw .outOfFuel
  | rounds + 1 => do
    match ← executeAsked nested (asks k) fuel with
    | .suspended => executeRepeatedly nested asks fuel (k + 1) rounds
    | outcome => pure outcome

theorem stepsAsked_idle (nested : Nested) (asks : Nat → Bool) (k n : Nat)
    (hact : m.ctx.state ≠ .active) : stepsAsked nested asks k (n + 1) m = .ok () m := by
  rw [stepsAsked, ctx_bind, if_neg hact]
  rfl

theorem stepsAsked_active (nested : Nested) (asks : Nat → Bool) (k n : Nat) (r : Requests)
    (hact : m.ctx.state = .active) : stepsAsked nested asks k (n + 1) (m.asking r) =
      (do
        match ← step nested with
        | .go => stepsAsked nested asks (k + 1) n
        | .halt => pure () :
          Exec RequestError Unit) (m.asking { r with suspend := r.suspend || asks k }) := by
  have hctx :
      (ctx : Exec RequestError Context) (m.asking r) = .ok (m.ctx.asking r) (m.asking r) := rfl
  have hask :
      ask (asks k) (m.asking r) = .ok () (m.asking { r with suspend := r.suspend || asks k }) := rfl
  have hasked : (m.ctx.asking r).state = .active := hact
  rw [stepsAsked, bind_of_ok hctx, if_pos hasked, bind_of_ok hask]

/-- A machine in the middle of a run that has less than `n` steps before it and leaves `f`. -/
structure Midway (nested : Nested) (n : Nat) (f m : Machine) : Prop where
  active : m.ctx.state = .active
  function : m.ctx.function.isNone = false
  abort : m.ctx.abortRequested = false
  steps : ∃ k < n, steps nested k m = .ok () f

theorem Midway.mono (h : Midway nested n f m) (hle : n ≤ k) : Midway nested k f m := by
  obtain ⟨j, hlt, hsteps⟩ := h.steps
  exact { h with steps := ⟨j, by omega, hsteps⟩ }

theorem midway_of_outline {i : Instr} (hact : m.ctx.state = .active)
    (hfetch : fetch? m.ctx = some i) (hout : m'.outline = (m.onContext Context.advance).outline)
    (habt : m'.ctx.abortRequested = false) (hsteps : steps nested n m' = .ok () f) :
    Midway nested (n + 1) f m' where
  active := (congrArg Outline.state hout).trans hact
  function := by
    have hfn : m'.ctx.function = m.ctx.function := congrArg (fun o => o.control.function) hout
    rw [hfn]
    cases hf : m.ctx.function with
    | none => simp [fetch?, hf] at hfetch
    | some f => rfl
  abort := habt
  steps := ⟨n, by omega, hsteps⟩

section Rounds

variable {nested : Nested} [∀ id args, Keeps Machine.outline (nested id args)]
  {hosts1 hosts2 : List (FunctionId × HostBody)} (hsame : SameHosts hosts1 hosts2)
  (hruns : ∀ h ∈ hosts2, RunsTrack hosts1 hosts2 nested h.2)

include hsame hruns

/-- With requests a run does the same steps, to the end or until it is suspended midway. -/
theorem stepsAsked_of_steps {asks : Nat → Bool} {r : Requests} (k fuel : Nat)
    (h : steps nested n m = .ok () f)
    (hend : ¬ (f.ctx.state = .suspended ∧ f.ctx.abortRequested = false))
    (hm : m.engine.hosts = hosts2) (hr : r.hosts = hosts1) (hfuel : n ≤ fuel) :
    (∃ suspend, stepsAsked nested asks k fuel (m.asking r) = .ok () (f.asking { r with suspend })) ∨
      ∃ suspend m', stepsAsked nested asks k fuel (m.asking r) =
        .ok () ((paused m').asking { r with suspend }) ∧
        m'.engine.hosts = hosts2 ∧ Midway nested n f m' := by
  -- The induction is on the run without requests, which the other one follows step by step until it
  -- is suspended.
  induction n generalizing m r k fuel with
  | zero => cases h
  | succ n ih =>
    obtain ⟨fuel, rfl⟩ : ∃ j, fuel = j + 1 := ⟨fuel - 1, by omega⟩
    by_cases hact : m.ctx.state = .active
    · obtain ⟨flow, m', hstep, hgo, hhalt⟩ := steps_ok hact h
      have hm' : m'.engine.hosts = hosts2 := (hosts_of_ok hstep).trans hm
      have hfollows :=
        step_follows nested hsame hruns (r := { r with suspend := r.suspend || asks k }) hm hr
      rw [hstep] at hfollows
      generalize hasked :
        step nested (m.asking { r with suspend := r.suspend || asks k }) = result at hfollows
      cases hfollows with
      | same suspend =>
        rw [stepsAsked_active nested asks k fuel r hact, bind_of_ok hasked]
        cases flow with
        | halt =>
          obtain rfl := hhalt rfl
          exact .inl ⟨suspend, rfl⟩
        | go =>
          obtain hleft | ⟨s, m1, hpaused, hm1, hmidway⟩ :=
            ih (r := { r with suspend }) (k + 1) fuel (hgo rfl) hm' hr (by omega)
          · exact .inl hleft
          · exact .inr ⟨s, m1, hpaused, hm1, hmidway.mono (by omega)⟩
      | pause suspend hout habt =>
        rw [stepsAsked_active nested asks k fuel r hact, bind_of_ok hasked]
        obtain ⟨i, hfetch⟩ := fetch_of_go hstep
        exact .inr ⟨suspend, m', rfl, hm', midway_of_outline hact hfetch hout habt (hgo rfl)⟩
      | wait _ hst habt =>
        -- Here the run without requests would end suspended.
        obtain rfl := hhalt rfl
        exact absurd ⟨hst, habt⟩ hend
    · obtain rfl := steps_idle hact h
      exact .inl ⟨r.suspend, stepsAsked_idle nested asks k fuel hact⟩

end Rounds

theorem endRun_paused (r : Requests) (habt : m.ctx.abortRequested = false) :
    endRun ((paused m).asking r) = .ok .suspended ((paused m).asking r) := by
  have hrequested : ((paused m).asking r).ctx.abortRequested = false := habt
  have hsame : ((paused m).asking r).onContext (fun c => { c with abortRequested := false }) =
      (paused m).asking r := by
    simp only [Machine.onContext, ← hrequested]
  have hconc : concluded ((paused m).asking r) = (paused m).asking r := by
    rw [concluded, if_neg (by simp [hrequested]), hsame]
  rw [endRun_eq, hconc]
  rfl

theorem not_suspended_of_endRun (h : endRun m = .ok outcome f) (houtc : outcome ≠ .suspended) :
    ¬ (m.ctx.state = .suspended ∧ m.ctx.abortRequested = false) := by
  rintro ⟨hst, habt⟩
  have hconc : (concluded m).ctx.state = .suspended := by
    rw [concluded, if_neg (by simp [habt])]
    exact hst
  rw [endRun_eq, hconc] at h
  cases h
  exact houtc rfl

theorem startRun_paused (r : Requests) (h : Midway nested n f m) :
    startRun nested ((paused m).asking r) = .ok () (m.asking { r with suspend := false }) := by
  have hst : ((paused m).asking r).ctx.state = .suspended := rfl
  have habt : ((paused m).asking r).ctx.abortRequested = false := h.abort
  have hfn : ((paused m).asking r).ctx.function.isNone = false := h.function
  have hresumed : resumed ((paused m).asking r) = m.asking { r with suspend := false } := by
    simp only [resumed, Machine.onContext, hfn, Bool.false_eq_true, if_false, ← h.active]
    rfl
  rw [startRun_suspended nested hst, habt, hresumed]
  rfl

theorem executeAsked_of_steps {asks : Nat → Bool} (hstart : startRun nested m0 = .ok () m)
    (hact : m.ctx.state = .active) (hsteps : stepsAsked nested asks 0 fuel m = .ok () m') :
    executeAsked nested asks fuel m0 = endRun m' := by
  rw [executeAsked, bind_of_ok hstart, ctx_bind, if_pos hact, bind_of_ok hsteps]

theorem executeAsked_idle (asks : Nat → Bool) (fuel : Nat) (hstart : startRun nested m0 = .ok () m)
    (hact : m.ctx.state ≠ .active) : executeAsked nested asks fuel m0 = endRun m := by
  rw [executeAsked, bind_of_ok hstart, ctx_bind, if_neg hact]

theorem executeRepeatedly_suspended {asks : Nat → Nat → Bool} (rounds : Nat)
    (h : executeAsked nested (asks k) fuel m = .ok .suspended m') :
    executeRepeatedly nested asks fuel k (rounds + 1) m =
      executeRepeatedly nested asks fuel (k + 1) rounds m' := by
  rw [executeRepeatedly, bind_of_ok h]

theorem executeRepeatedly_ended {asks : Nat → Nat → Bool} (rounds : Nat)
    (h : executeAsked nested (asks k) fuel m = .ok outcome m') (houtc : outcome ≠ .suspended) :
    executeRepeatedly nested asks fuel k (rounds + 1) m = .ok outcome m' := by
  rw [executeRepeatedly, bind_of_ok h]
  cases outcome with
  | suspended => exact absurd rfl houtc
  | _ => rfl

section Repeating

variable {nested : Nested} [∀ id args, Keeps Machine.outline (nested id args)]
  {hosts1 hosts2 : List (FunctionId × HostBody)} (hsame : SameHosts hosts1 hosts2)
  (hruns : ∀ h ∈ hosts2, RunsTrack hosts1 hosts2 nested h.2)

include hsame hruns

/-- A run with `n` steps before it ends in at most `n` more rounds, in the same way. -/
theorem executeRepeatedly_of_steps (asks : Nat → Nat → Bool) {rounds : Nat} {f' : Machine}
    {r : Requests} (hstart : startRun nested m0 = .ok () (m.asking r))
    (hact : m.ctx.state = .active) (hsteps : steps nested n m = .ok () f)
    (hend : endRun f = .ok outcome f') (houtc : outcome ≠ .suspended) (hm : m.engine.hosts = hosts2)
    (hr : r.hosts = hosts1) (hfuel : n ≤ fuel) (hrounds : n ≤ rounds) :
    ∃ suspend, executeRepeatedly nested asks fuel k (rounds + 1) m0 =
      .ok outcome (f'.asking { r with suspend }) := by
  -- A round that is suspended has done a step, so fewer steps are left for the next one.
  induction n using Nat.strongRecOn generalizing m0 m r k rounds with
  | ind n ih =>
    have hnot := not_suspended_of_endRun hend houtc
    obtain ⟨s, hasked⟩ | ⟨s, m', hasked, hm', hmidway⟩ :=
      stepsAsked_of_steps hsame hruns 0 fuel hsteps hnot hm hr hfuel
    · have hround := executeAsked_of_steps hstart hact hasked
      rw [deaf_endRun.asking, hend] at hround
      exact ⟨s, executeRepeatedly_ended rounds hround houtc⟩
    · have hround := executeAsked_of_steps hstart hact hasked
      rw [endRun_paused _ hmidway.abort] at hround
      obtain ⟨j, hlt, hrest⟩ := hmidway.steps
      obtain ⟨rounds, rfl⟩ : ∃ i, rounds = i + 1 := ⟨rounds - 1, by omega⟩
      rw [executeRepeatedly_suspended (rounds + 1) hround]
      have hresume := startRun_paused { r with suspend := s } hmidway
      exact ih j hlt (r := { r with suspend := false }) hresume hmidway.active hrest hm' hr
        (by omega) (by omega)

end Repeating

/-- A run that is suspended and resumed any number of times ends like one that is not: with the same
outcome and with the same machine but for requests. Requests may come from outside before any step,
from the line callback, and from host functions, as long as host functions do the same otherwise. -/
theorem executeRepeatedly_of_execute {n : Nat} {m f : Machine} {outcome : Outcome}
    (asks : Nat → Nat → Bool) (r : Requests) (hsame : SameHosts r.hosts m.engine.hosts)
    (hruns : ∀ h ∈ m.engine.hosts, RunsTrack r.hosts m.engine.hosts (runNested (execute n)) h.2)
    (hrun : execute (n + 1) m = .ok outcome f) (houtcome : outcome ≠ .suspended) :
    ∃ suspend, executeRepeatedly (runNested (execute n)) asks n 0 (n + 1) (m.asking r) =
      .ok outcome (f.asking { r with suspend }) := by
  rw [execute] at hrun
  obtain ⟨u, m1, hstart, hrun⟩ := bind_ok hrun
  obtain ⟨c, m2, hc, hrun⟩ := bind_ok hrun
  cases hc
  have hm1 : m1.engine.hosts = m.engine.hosts := hosts_of_ok hstart
  obtain ⟨s, hasked⟩ := (tracks_startRun (runNested (execute n)) hsame hruns).tracks m r rfl rfl
  rw [hstart] at hasked
  split at hrun
  · rename_i hactive
    obtain ⟨u, m2, hsteps, hend⟩ := bind_ok hrun
    exact executeRepeatedly_of_steps hsame hruns asks
      (r := { r with suspend := s }) hasked hactive hsteps hend houtcome hm1
      rfl (Nat.le_refl n) (Nat.le_refl n)
  · rename_i hactive
    have hend : endRun m1 = .ok outcome f := hrun
    have hround := executeAsked_idle (asks 0) n hasked hactive
    rw [deaf_endRun.asking, hend] at hround
    exact ⟨s, executeRepeatedly_ended n hround houtcome⟩

/-- A function that is interrupted in a host function, at its own line, in a function that it calls,
and in the host function again. The host function has these actions. -/
def errand (actions : List HostAction) : Machine :=
  after (prepare ⟨1⟩)
    { engine :=
        { functions := #[none,
            some { id := ⟨1⟩, name := "errand",
                   code := #[.callHost ⟨3⟩, .suspend, .call ⟨2⟩, .callHost ⟨3⟩, .ret 0] },
            some { id := ⟨2⟩, name := "inner", code := #[.suspend, .ret 0] },
            some { id := ⟨3⟩, name := "note", kind := .host },
            some { id := ⟨4⟩, name := "aside", code := #[.ret 0] }]
          hosts := [(⟨3⟩, .ofActions actions)] }
      ctx := { lineCallback := some {} } }

theorem errand_hosts (actions : List HostAction) :
    (errand actions).engine.hosts = [(⟨3⟩, .ofActions actions)] :=
  Engine.hosts_of_catalog ((keeps_catalog_prepare ⟨1⟩).view_after _)

/-- Suspension is asked for in the function that is called. -/
def errandAsks (round step : Nat) : Bool := round == 2 && step == 1

def errandRequests (actions : List HostAction) : Requests :=
  { suspend := true, suspendAt := [1], hosts := [(⟨3⟩, .ofActions actions)] }

/-- The host function asks for suspension in one of two runs; or it is the same in both and starts a
run of its own. -/
theorem executeRepeatedly_of_execute_errand :
    (value? (executeAsked (runNested (execute 8)) (errandAsks 0) 8
        ((errand [.announce]).asking (errandRequests [.announce, .suspend]))) = some .suspended ∧
      ∃ suspend, executeRepeatedly (runNested (execute 8)) errandAsks 8 0 9
          ((errand [.announce]).asking (errandRequests [.announce, .suspend])) =
        .ok .finished (((execute 9).after (errand [.announce])).asking
          { errandRequests [.announce, .suspend] with suspend })) ∧
      ∃ suspend, executeRepeatedly (runNested (execute 8)) errandAsks 8 0 9
          ((errand [.run ⟨4⟩ [] true]).asking (errandRequests [.run ⟨4⟩ [] true])) =
        .ok .finished (((execute 9).after (errand [.run ⟨4⟩ [] true])).asking
          { errandRequests [.run ⟨4⟩ [] true] with suspend }) := by
  have hsame :
      SameHosts (errandRequests [.announce, .suspend]).hosts (errand [.announce]).engine.hosts := by
    rw [errand_hosts]
    exact .cons ⟨3⟩ (.act .announce (.left (.done none))) .nil
  have hruns (h) (hmem : h ∈ (errand [.announce]).engine.hosts) :
      RunsTrack (errandRequests [.announce, .suspend]).hosts (errand [.announce]).engine.hosts
        (runNested (execute 8)) h.2 := by
    rw [errand_hosts, List.mem_singleton] at hmem
    subst hmem
    rintro id args gives (_ | hlater)
    cases hlater
  refine ⟨⟨by decide +kernel, ?_⟩, ?_⟩
  · exact executeRepeatedly_of_execute errandAsks _ hsame hruns
      (ok_of_value (by decide +kernel)) (by decide)
  · refine executeRepeatedly_of_execute errandAsks _ ?_ ?_ (ok_of_value (by decide +kernel)) (by decide)
    · rw [errand_hosts]
      exact .refl _
    · rw [errand_hosts]
      exact fun h _ => runsTrack_same _ 8 h.2

end ScriptVm.Exec
