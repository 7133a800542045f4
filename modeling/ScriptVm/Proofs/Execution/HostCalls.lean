import ScriptVm.Proofs.Execution.Rules

namespace ScriptVm

/-- The same host function but for requests to suspend. -/
inductive SameActions : HostBody → HostBody → Prop where
  | done (error : Option String) : SameActions (.done error) (.done error)
  | act (a : HostAction) {b1 b2 : HostBody} : SameActions b1 b2 → SameActions (.act a b1) (.act a b2)
  | ask (q : HostQuestion) {next1 next2 : q.Answer → HostBody} :
    (∀ r, SameActions (next1 r) (next2 r)) → SameActions (.ask q next1) (.ask q next2)
  | left {b1 b2 : HostBody} : SameActions b1 b2 → SameActions (.act .suspend b1) b2
  | right {b1 b2 : HostBody} : SameActions b1 b2 → SameActions b1 (.act .suspend b2)

/-- The same host functions but for requests to suspend. -/
inductive SameHosts : List (FunctionId × HostBody) → List (FunctionId × HostBody) → Prop where
  | nil : SameHosts [] []
  | cons (id : FunctionId) {b1 b2 : HostBody} {hosts1 hosts2 : List (FunctionId × HostBody)} :
    SameActions b1 b2 → SameHosts hosts1 hosts2 → SameHosts ((id, b1) :: hosts1) ((id, b2) :: hosts2)

theorem SameActions.refl (body : HostBody) : SameActions body body := by
  induction body with
  | done error => exact .done error
  | act a next ih => exact .act a ih
  | ask q next ih => exact .ask q ih

theorem SameHosts.refl (hosts : List (FunctionId × HostBody)) : SameHosts hosts hosts := by
  induction hosts with
  | nil => exact .nil
  | cons h hosts ih => exact .cons h.1 (.refl h.2) ih

theorem SameHosts.find {hosts1 hosts2 : List (FunctionId × HostBody)} (h : SameHosts hosts1 hosts2)
    (id : FunctionId) :
    (hosts1.find? fun h => h.1 == id) = none ∧ (hosts2.find? fun h => h.1 == id) = none ∨
      ∃ b1 b2, (hosts1.find? fun h => h.1 == id) = some (id, b1) ∧
        (hosts2.find? fun h => h.1 == id) = some (id, b2) ∧ SameActions b1 b2 := by
  induction h with
  | nil => exact .inl ⟨rfl, rfl⟩
  | cons key hl _ ih =>
    by_cases hkey : key = id
    · subst hkey
      exact .inr ⟨_, _, by simp, by simp, hl⟩
    · simpa [hkey] using ih

namespace Exec

variable {ε α β : Type} {hosts1 hosts2 : List (FunctionId × HostBody)} {b1 b2 : HostBody}

/-- Two steps do the same on machines that differ in requests only, and so do the machines that they
leave. The machine of the first has `hosts1` for host functions, that of the second `hosts2`. -/
class Tracks (hosts1 hosts2 : List (FunctionId × HostBody)) (x1 x2 : Exec ε α) : Prop where
  tracks : ∀ m r, m.engine.hosts = hosts2 → r.hosts = hosts1 →
    ∃ suspend, x1 (m.asking r) = withRequests { r with suspend } (x2 m)

instance tracks_deaf (x : Exec ε α) [h : Deaf x] : Tracks hosts1 hosts2 x x where
  tracks m r _ _ := ⟨r.suspend, h.asking m r⟩

instance (priority := low) keeps_catalog (x : Exec ε α) [h : Keeps Machine.outline x] :
    Keeps Machine.catalog x :=
  Keeps.coarser Outline.catalog h

/-- Host functions leave alone what depends on the standing of a machine only. -/
theorem calling_of_standing {γ : Type} {view : Machine → γ}
    (h : ∀ {m m' : Machine}, m'.standing = m.standing → view m' = view m) :
    (Rule.keeps view).Calling := by
  have hkeeps {ε α : Type} (x : Exec ε α) [hx : Keeps Machine.standing x] : Keeps view x :=
    ⟨fun m => h (hx.view_after m)⟩
  refine
    { asks := fun {m f} hasks => h ?_
      tell := fun _ _ => h rfl
      modify := fun _ _ _ => h rfl
      newObject := fun _ => hkeeps _
      addRef := fun _ => hkeeps _
      elementary := fun x _ => hkeeps x
      release := fun _ => hkeeps _
      releaseArgs :=
        fun m args params => h (Machine.standing_of_bearing (m.bearing_releaseArgs args 0 params))
      outOfFuel := fun _ => rfl
      overflow := fun _ => rfl }
  have hbody := congrArg (fun c => ({ m with ctx := c } : Machine).standing) hasks.body
  exact hbody

instance calling_outline : (Rule.keeps Machine.outline).Calling :=
  calling_of_standing Machine.outline_of_standing

theorem hosts_of_ok {x : Exec ε α} [h : Keeps Machine.catalog x] {m m' : Machine} {a : α}
    (hx : x m = .ok a m') : m'.engine.hosts = m.engine.hosts :=
  Engine.hosts_of_catalog (h.of_ok hx)

instance tracks_bind (x1 x2 : Exec ε α) (f1 f2 : α → Exec ε β) [hx : Tracks hosts1 hosts2 x1 x2]
    [hf : ∀ a, Tracks hosts1 hosts2 (f1 a) (f2 a)] [Keeps Machine.catalog x2] :
    Tracks hosts1 hosts2 (x1 >>= f1) (x2 >>= f2) where
  tracks m r hm hr := by
    obtain ⟨s, hs⟩ := hx.tracks m r hm hr
    simp only [bind, EStateM.bind, hs]
    cases h : x2 m with
    | ok a m' => exact (hf a).tracks m' { r with suspend := s } ((hosts_of_ok h).trans hm) hr
    | error stop m' => exact ⟨s, rfl⟩

instance tracks_ite (p : Prop) [Decidable p] (x1 x2 y1 y2 : Exec ε α) [Tracks hosts1 hosts2 x1 x2]
    [Tracks hosts1 hosts2 y1 y2] :
    Tracks hosts1 hosts2 (if p then x1 else y1) (if p then x2 else y2) := by
  split <;> infer_instance

instance plain_giveObject (object : Option Handle) : Plain (giveObject object) := by
  cases object with
  | none => exact @plain_of_elementary _ _ _ (.setObject none)
  | some h => exact plain_bind _ _

instance elementary_setRegister (bits : UInt64) : Elementary (setRegister bits) := .setRegister bits

instance steady_setPending (message : Option String) :
    Steady (modifyCtx fun c => { c with pendingException := message } : Exec ε Unit) :=
  steady_modifyCtx (fun _ => rfl) fun _ _ => rfl

instance plain_requestAbort :
    Plain (modifyCtx fun c => { c with abortRequested := true } : Exec ε Unit) :=
  plain_modifyCtx (fun _ => rfl) fun _ _ => rfl

instance plain_setObjectField (object : Option Handle) (field : Nat) (v : UInt32) :
    Plain (setObjectField object field v) := by
  cases object with
  | none => exact plain_pure ()
  | some h => exact plain_modifyEngine (fun _ => rfl) fun _ _ => rfl

instance deaf_attempt (x : Exec Fault α) [hx : Deaf x] : Deaf (attempt x) where
  misses m g := by
    simp only [attempt, hx.misses]
    cases x m with
    | ok a m' => rfl
    | error stop m' => cases stop <;> rfl

instance plain_attempt (x : Exec Fault α) [Plain x] : Plain (attempt x) := plain_of

section Acting

variable (nested : Nested) (c : HostCall)

/-- Only a request to suspend and a run of its own make an action more than a steady step. -/
theorem steady_act {a : HostAction} (hsusp : a ≠ .suspend)
    (hrun : ∀ id args gives, a ≠ .run id args gives) : Steady (act nested c a) := by
  have hplain {x : Exec Fault Next} (h : Plain x) : Steady x := steady_of_plain x
  cases a with
  | suspend => exact absurd rfl hsusp
  | run id args gives => exact absurd rfl (hrun id args gives)
  | setException | trySetException => exact steady_bind _ _
  | giveNew type =>
    refine hplain (@plain_engine _ _ _ (fun _ _ => rfl) fun e => ?_)
    cases e.types.get? type <;> infer_instance
  | keepArg i =>
    refine hplain (@plain_ctx _ _ _ (fun _ _ => rfl) fun x => ?_)
    cases c.object? x.stack i <;> infer_instance
  | tellString i =>
    refine hplain (@plain_get _ _ _ (fun _ _ => rfl) fun m => ?_)
    exact plain_ctx fun _ _ => rfl
  | tellArg | inspectArg | printArg | giveSum | giveTwice | giveArg | giveAddressArg | readThrough
  | writeThrough
  | writeThrough64 | setThisFieldFromArg | tellPlace
  | failIfNegative => exact hplain (plain_ctx fun _ _ => rfl)
  | _ =>
    refine hplain ?_
    unfold act
    infer_instance

variable [hnst : ∀ id args, Keeps Machine.outline (nested id args)]

/-- Runs that a host function starts do the same on both sides. -/
def RunsTrack (hosts1 hosts2 : List (FunctionId × HostBody)) (nested : Nested)
    (body : HostBody) : Prop :=
  ∀ id args gives, body.Does (.run id args gives) →
    Tracks hosts1 hosts2 (nested id args) (nested id args)

theorem tracks_act {a : HostAction} (hsusp : a ≠ .suspend)
    (hruns : ∀ id args gives,
      a = .run id args gives → Tracks hosts1 hosts2 (nested id args) (nested id args)) :
    Tracks hosts1 hosts2 (act nested c a) (act nested c a) := by
  by_cases hrun : ∃ id args gives, a = .run id args gives
  · obtain ⟨id, args, gives, rfl⟩ := hrun
    have := hruns id args gives rfl
    exact tracks_bind _ _ _ _
  · have hsteady : Steady (act nested c a) :=
      steady_act nested c hsusp fun id args gives h => hrun ⟨id, args, gives, h⟩
    exact tracks_deaf _

omit hnst in
theorem Tracks.suspend_left (h : Tracks hosts1 hosts2 (actAll nested c b1) (actAll nested c b2)) :
    Tracks hosts1 hosts2 (actAll nested c (.act .suspend b1)) (actAll nested c b2) where
  tracks m r hm hr := h.tracks m { r with suspend := true } hm hr

omit hnst in
theorem Tracks.suspend_right (h : Tracks hosts1 hosts2 (actAll nested c b1) (actAll nested c b2)) :
    Tracks hosts1 hosts2 (actAll nested c b1) (actAll nested c (.act .suspend b2)) where
  tracks m r hm hr := h.tracks (m.onContext fun c => { c with suspendRequested := true }) r hm hr

omit hnst in
/-- No answer depends on requests or on the function that was prepared. -/
theorem answer_guised (m : Machine) (g : Guise) (q : HostQuestion) :
    c.answer (m.guised g) q = c.answer m q := by
  cases q with
  | load a => cases a <;> rfl
  | text a => cases a <;> rfl
  | _ => rfl

theorem tracks_actAll (h : SameActions b1 b2) (hruns : RunsTrack hosts1 hosts2 nested b2) :
    Tracks hosts1 hosts2 (actAll nested c b1) (actAll nested c b2) := by
  induction h with
  | done error => exact tracks_deaf (pure error)
  | left _ ih => exact (ih hruns).suspend_left nested c
  | right _ ih =>
    have hrest := ih fun id args gives hdoes => hruns id args gives hdoes.later
    exact hrest.suspend_right nested c
  | act a _ ih =>
    have hrest := ih fun id args gives hdoes => hruns id args gives hdoes.later
    by_cases hsusp : a = .suspend
    · subst hsusp
      exact (hrest.suspend_right nested c).suspend_left nested c
    · have hact : Tracks hosts1 hosts2 (act nested c a) (act nested c a) := by
        refine tracks_act nested c hsusp fun id args gives hrun => hruns id args gives ?_
        rw [hrun]
        exact .here _
      refine @tracks_bind _ _ _ _ _ _ _ _ _ _ (fun next => ?_) _
      cases next with
      | go => exact hrest
      | done error => exact tracks_deaf _
  | ask q _ ih =>
    constructor
    intro m r hm hr
    have hrest :=
      ih (c.answer m q) fun id args gives hdoes => hruns id args gives (.answered _ hdoes)
    have hsame : c.answer (m.asking r) q = c.answer m q :=
      answer_guised c m { r with entry := m.ctx.entry } q
    obtain ⟨suspend, hask⟩ := hrest.tracks m r hm hr
    rw [← hsame] at hask
    exact ⟨suspend, hask⟩

instance plain_hostCall (f : Func) (this : Option Handle) : Plain (hostCall f this) := by
  refine @plain_ctx _ _ _ (fun _ _ => rfl) fun x => ?_
  refine .bind fun _ => ?_
  refine @plain_ite _ _ _ _ _ _ ?_ _
  exact plain_get fun _ _ => rfl

instance steady_setHostFunction (f : Option Func) :
    Steady (modifyCtx fun c => { c with hostFunction := f } : Exec ε Unit) :=
  steady_modifyCtx (fun _ => rfl) fun _ _ => rfl

instance steady_beginCall (f : Option Func) :
    Steady (modifyCtx fun c => { c with hostFunction := f, pendingException := none } : Exec ε Unit) :=
  steady_modifyCtx (fun _ => rfl) fun _ _ => rfl

instance plain_releaseArgs (args : Pointer) (params : List Parameter) :
    Plain (modify fun m => m.releaseArgs args 0 params : Exec ε PUnit) :=
  plain_modify (fun m => m.bearing_releaseArgs args 0 params) fun m g =>
    m.guised_releaseArgs g args 0 params

instance steady_endCall (call : HostCall) (error : Option String) : Steady (endCall call error) := by
  refine @steady_bind _ _ _ _ _ _ fun _ => ?_
  refine @steady_bind _ _ _ _ _ _ fun _ => ?_
  refine @steady_ctx _ _ _ (fun _ _ => rfl) fun x => ?_
  refine @steady_bind _ _ _ _ _ _ fun _ => ?_
  cases error.or x.pendingException <;> infer_instance

theorem tracks_carryOut (call : HostCall) (h : SameActions b1 b2)
    (hruns : RunsTrack hosts1 hosts2 nested b2) :
    Tracks hosts1 hosts2 (carryOut nested call b1) (carryOut nested call b2) := by
  have := tracks_actAll nested call h hruns
  exact tracks_bind _ _ _ _

omit hnst in
theorem callHost_eq (f : Func) (this : Option Handle) (m : Machine) : callHost nested f this m =
      (do
        let body ← orFail .unboundFunction ((m.engine.hosts.find? fun h => h.1 == f.id).map Prod.snd)
        let (call, words) ← hostCall f this
        carryOut nested call body
        pure words : Exec Fault Nat) m := rfl

theorem tracks_callHost (f : Func) (this : Option Handle) (hsame : SameHosts hosts1 hosts2)
    (hruns : ∀ h ∈ hosts2, RunsTrack hosts1 hosts2 nested h.2) :
    Tracks hosts1 hosts2 (callHost nested f this) (callHost nested f this) where
  tracks m r hm hr := by
    have hask : (m.asking r).engine.hosts = hosts1 := hr
    rw [callHost_eq, callHost_eq, hask, hm]
    obtain ⟨h1, h2⟩ | ⟨b1, b2, h1, h2, hb⟩ := hsame.find f.id
    · rw [h1, h2]
      exact ⟨r.suspend, rfl⟩
    · rw [h1, h2]
      have hb2 := hruns _ (List.mem_of_find?_eq_some h2)
      have hcarry (call : HostCall) := tracks_carryOut nested call hb hb2
      have hrest : Tracks hosts1 hosts2
          (do let (call, words) ← hostCall f this; carryOut nested call b1; pure words : Exec Fault Nat)
          (do let (call, words) ← hostCall f this; carryOut nested call b2; pure words) :=
        tracks_bind _ _ _ _
      exact hrest.tracks m r hm hr

end Acting

end Exec
end ScriptVm
