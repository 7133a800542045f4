import ScriptVm.Proofs.Engine.Furnished
import ScriptVm.Proofs.Session.Accounts

namespace ScriptVm

/-- What a host asks of a context. A run may also be taken step by step. -/
inductive Request where
  | prepare (id : FunctionId)
  | prepareFunction (f : Func)
  | setArgByte (index : Nat) (v : UInt8)
  | setArgHalf (index : Nat) (v : UInt16)
  | setArgWord (index : Nat) (v : UInt32)
  | setArgQword (index : Nat) (v : UInt64)
  | setArgFloat (index : Nat) (bits : UInt32)
  | setArgDouble (index : Nat) (bits : UInt64)
  | setArgAddress (index : Nat) (a : Address)
  | setArgObject (index : Nat) (object : Option Handle)
  | setThis (object : Option Handle)
  | execute (fuel : Nat)
  | startRun (fuel : Nat)
  | step (fuel : Nat)
  | endRun
  | takeResultObject
  | setException (message : String)
  | setLineCallback (callback : Option LineCallback)
  | setExceptionCallback (on : Bool)
  | requestSuspend
  | requestAbort
  | abort
  | unprepare

open Exec in
def Request.perform : Request → Exec RequestError Unit
  | .prepare id => Exec.prepare id
  | .prepareFunction f => Exec.prepareFunction f
  | .setArgByte index v => Exec.setArgByte index v
  | .setArgHalf index v => Exec.setArgHalf index v
  | .setArgWord index v => Exec.setArgWord index v
  | .setArgQword index v => Exec.setArgQword index v
  | .setArgFloat index bits => Exec.setArgFloat index bits
  | .setArgDouble index bits => Exec.setArgDouble index bits
  | .setArgAddress index a => Exec.setArgAddress index a
  | .setArgObject index object => Exec.setArgObject index object
  | .setThis object => Exec.setThis object
  | .execute fuel => do
    let _ ← Exec.execute fuel
  | .startRun fuel => Exec.startRun (runNested (Exec.execute fuel))
  | .step fuel => do
    if (← ctx).state = .active then
      let _ ← Exec.step (runNested (Exec.execute fuel))
  | .endRun => do
    let _ ← Exec.endRun
  | .takeResultObject => modifyCtx fun c => c.takeResultObject.2
  | .setException message => Exec.setException message
  | .setLineCallback lineCallback => modifyCtx fun c => { c with lineCallback }
  | .setExceptionCallback exceptionCallback => modifyCtx fun c => { c with exceptionCallback }
  | .requestSuspend => Exec.requestSuspend
  | .requestAbort => Exec.requestAbort
  | .abort => Exec.abort
  | .unprepare => Exec.unprepare

namespace Request

open Exec

def setsArg : Request → Bool
  | setArgByte _ _ | setArgHalf _ _ | setArgWord _ _ | setArgQword _ _ | setArgFloat _ _
  | setArgDouble _ _ | setArgAddress _ _
  | setArgObject _ _ | setThis _ => true
  | _ => false

/-- Requests that leave a run where it is: they set an argument, ask for something or take a
result. -/
def adjusts : Request → Bool
  | prepare _ | prepareFunction _ | unprepare | execute _ | startRun _ | step _ | endRun
  | abort => false
  | _ => true

theorem obeys_setsArg {Q : Rule} [Q.Arguing] {r : Request} (h : r.setsArg = true) :
    Obeys Q r.perform := by
  cases r with
  | setArgByte | setArgHalf | setArgWord | setArgQword => exact obeys_bind (primitiveSlot _ _ _) _
  | setArgFloat | setArgDouble | setArgAddress => exact obeys_bind (argSlot _) _
  | setArgObject index object => exact obeys_setArgObject index object
  | setThis object => exact obeys_setThis object
  | _ => cases h

theorem obeys_adjusts {Q : Rule} [Q.Arguing]
    (hasks : ∀ {m : Machine} {f : Context → Context},
      m.ctx.Asks (f m.ctx) → Q.Allows .done m (m.onContext f))
    (hcallback : ∀ (m : Machine) on,
      Q.Allows .done m (m.onContext fun c => { c with exceptionCallback := on }))
    {r : Request} (h : r.adjusts = true) : Obeys Q r.perform := by
  cases r with
  | prepare | prepareFunction | unprepare | execute | startRun | step | endRun | abort => cases h
  | takeResultObject =>
    refine obeys_modifyCtx fun m => hasks ?_
    unfold Context.takeResultObject
    split <;> exact ⟨rfl, id⟩
  | setException message =>
    have : Obeys Q
        (modifyCtx fun c => { c with pendingException := some message } : Exec RequestError Unit) :=
      obeys_modifyCtx fun _ => hasks ⟨rfl, id⟩
    exact obeys_bind _ _
  | setExceptionCallback on => exact obeys_modifyCtx fun m => hcallback m on
  | setLineCallback | requestSuspend => exact obeys_modifyCtx fun _ => hasks ⟨rfl, id⟩
  | requestAbort => exact obeys_modifyCtx fun _ => hasks ⟨rfl, fun _ => rfl⟩
  | _ => exact obeys_setsArg rfl

theorem standing_adjusts {r : Request} (h : r.adjusts = true) : Keeps Machine.standing r.perform :=
  obeys_adjusts (calling_of_standing id).asks (fun _ _ => rfl) h

theorem perform_cases (r : Request) :
    Keeps Machine.stake r.perform ∨ Keeps Machine.catalog r.perform ∧
      Conserves Machine.Sound r.perform := by
  cases hadj : r.adjusts with
  | true =>
    have := standing_adjusts hadj
    exact .inl inferInstance
  | false =>
    refine .inr ?_
    cases r with
    | prepare | prepareFunction
    | startRun => exact ⟨by unfold perform; infer_instance, by unfold perform; infer_instance⟩
    | abort =>
      have : Keeps Machine.catalog (Exec.requestAbort : Exec RequestError Unit) :=
        keeps_catalog_modifyCtx _
      have hcat : Keeps Machine.catalog (Exec.abort : Exec RequestError Unit) := obeys_bind _ _
      exact ⟨hcat, sound_abort⟩
    | unprepare =>
      have hcat : Keeps Machine.catalog Exec.unprepare := obeys_bind _ _
      exact ⟨hcat, sound_unprepare⟩
    | execute | endRun => exact ⟨obeys_bind _ _, obeys_bind _ _⟩
    | step fuel =>
      refine ⟨obeys_bind _ _, conserves_of fun m hm => ?_⟩
      show Carried Machine.Sound m ((if m.ctx.state = .active then _ else _ : Exec RequestError Unit) m)
      split
      · rename_i hact
        have hstep : Conserves Machine.Live
            (do let _ ← Exec.step (runNested (Exec.execute fuel)) : Exec RequestError Unit) :=
          obeys_bind _ _
        exact (carried_after _ (hm.live (.inr (.inl hact)))).imp fun _ => Machine.Live.sound
      · exact fun _ => ⟨hm, rfl⟩
    | _ => cases hadj

instance keeps_catalog_perform (r : Request) : Keeps Machine.catalog r.perform := by
  obtain hstake | ⟨hcat, -⟩ := r.perform_cases
  · exact ⟨fun m => Engine.catalog_of_hollow (congrArg Machine.Stake.hollow (hstake.view_after m))⟩
  · exact hcat

instance sound_perform (r : Request) : Conserves Machine.Sound r.perform := by
  obtain hstake | ⟨-, hsound⟩ := r.perform_cases
  · exact sound_of_stake _
  · exact hsound

end Request

open Exec in
/-- Setting the globals of a module runs its initializer in a context that is let go again. -/
theorem Engine.tended_resetGlobals {fuel : Nat} {id : ModuleId} {e e' : Engine}
    (h : Engine.resetGlobals fuel id e = .ok () e' ∨ ∃ err,
      Engine.resetGlobals fuel id e = .error (.cause err) e') :
    e'.catalog = e.catalog ∧ e.Tended e' := by
  have hexit := hollow_exitModule e id
  unfold resetGlobals at h
  dsimp only at h
  cases hinit : ((e.exitModule id).built? id).bind Module.initializer with
  | none =>
    simp only [hinit, reduceCtorEq, exists_false, or_false, EStateM.Result.ok.injEq, true_and] at h
    rw [← h]
    exact ⟨catalog_of_hollow hexit, tended_of_hollow hexit⟩
  | some init =>
    simp only [hinit] at h
    generalize hrun : (do
      Exec.prepareFunction init
      let outcome ← Exec.execute fuel
      return (outcome, (← Exec.ctx).exception) :
        Exec RequestError (Outcome × Option ScriptException)) = run at h
    have hsound : Conserves Machine.Sound run := hrun ▸ obeys_bind _ _
    have hcat : Keeps Machine.catalog run := hrun ▸ obeys_bind _ _
    have hkept := (keeps_inNewContext (ε := ModuleError) (fun _ => []) run).view_after
      { engine := e.exitModule id, ctx := {} }
    have hrefs := inNewContext_refs (ε := ModuleError) (fun _ => []) run
      { engine := e.exitModule id, ctx := {} }
    unfold after at hkept hrefs
    generalize (inNewContext (fun _ => []) run { engine := e.exitModule id, ctx := {} } :
      EStateM.Result (Stop ModuleError) Machine _) = r at h hkept hrefs
    -- Whatever became of the initializer, the engine is the one that its context has left.
    have hdone : Settled r ∧ (left r).engine = e' := by
      cases r with
      | ok a m =>
        refine ⟨trivial, ?_⟩
        show m.engine = e'
        obtain err | ⟨outcome, exception⟩ := a
        · simpa using h
        · cases outcome <;> simpa using h
      | error stop m =>
        cases stop with
        | cause err =>
          refine ⟨trivial, ?_⟩
          show m.engine = e'
          simpa using h
        | overflow => simp at h
        | outOfFuel => simp at h
    obtain ⟨hstl, rfl⟩ := hdone
    have hcat := congrArg Outline.catalog hkept
    exact ⟨hcat.trans (catalog_exitModule e id),
      (tended_of_hollow hexit).trans ⟨grown_of_catalog hcat, hrefs hstl⟩⟩

/-- One operation on the engine or on a module in the making. A module in the making is used up when
it is built. -/
inductive Engine.Operation (e : Engine) (drafts : List Draft) : Engine → List Draft → Prop where
  | registerType (type : ObjectType) : Operation e drafts (e.registerType type).2 drafts
  | registerHost (f : Func) (body : HostBody) : Operation e drafts (e.registerHost f body).2 drafts
  | beginModule (name : String) :
    Operation e drafts (e.beginModule name).2 ((e.beginModule name).1 :: drafts)
  | declare (before after : List Draft) (d : Draft) (hd : drafts = before ++ d :: after)
      (name : String) :
    Operation e drafts (e.declare d name).2.1 (before ++ (e.declare d name).2.2 :: after)
  | edit (before after : List Draft) (d d' : Draft) (hd : drafts = before ++ d :: after)
      (hedit : d.Edit d') : Operation e drafts e (before ++ d' :: after)
  | build (before after : List Draft) (d : Draft) (hd : drafts = before ++ d :: after) :
    Operation e drafts (e.build d).2 (before ++ after)
  | bind (id : ModuleId) (index : Nat) (target : FunctionId) :
    Operation e drafts (e.bind id index target).2 drafts
  | unbind (id : ModuleId) (index : Nat) : Operation e drafts (e.unbind id index).2 drafts
  | bindAll (id : ModuleId) : Operation e drafts (e.bindAll id).2 drafts
  | unbindAll (id : ModuleId) : Operation e drafts (e.unbindAll id) drafts
  | discard (name : String) : Operation e drafts (e.discard name).2 drafts
  | collect : Operation e drafts e.collect.2 drafts
  | exitModule (id : ModuleId) : Operation e drafts (e.exitModule id) drafts
  | resetGlobals {fuel : Nat} {id : ModuleId} {e' : Engine}
      (h : Engine.resetGlobals fuel id e = .ok () e') : Operation e drafts e' drafts
  | resetFails {fuel : Nat} {id : ModuleId} {e' : Engine} {err : ModuleError}
      (h : Engine.resetGlobals fuel id e = .error (.cause err) e') : Operation e drafts e' drafts
  | writeGlobal (id : ModuleId) (offset v : UInt32) :
    Operation e drafts (e.changeModule id fun m => m.writeGlobal offset v) drafts
  | onHeap {α : Type} (f : Heap → α × Heap) : Operation e drafts (e.onHeap f).2 drafts
  | takeTrace : Operation e drafts { e with trace := #[] } drafts

namespace Engine

variable {e e' : Engine} {drafts drafts' : List Draft}

theorem hollow_writeGlobal (e : Engine) (id : ModuleId) (offset v : UInt32) :
    (e.changeModule id fun m => m.writeGlobal offset v).hollow = e.hollow :=
  hollow_changeModule e id fun m => m.hollow_writeGlobal offset v

/-- What an operation does to the tables. -/
inductive Effect (e : Engine) (drafts : List Draft) : Engine → List Draft → Prop where
  | quiet {e' : Engine} (hrecords : e'.records = e.records) (hsup : e.Supplies e')
      (htended : e.Tended e') : Effect e drafts e' drafts
  | edit (before after : List Draft) (d d' : Draft) (hd : drafts = before ++ d :: after)
      (hedit : d.Edit d') : Effect e drafts e (before ++ d' :: after)
  | registerHost (f : Func) (body : HostBody) : Effect e drafts (e.registerHost f body).2 drafts
  | beginModule (name : String) :
    Effect e drafts (e.beginModule name).2 ((e.beginModule name).1 :: drafts)
  | declare (before after : List Draft) (d : Draft) (hd : drafts = before ++ d :: after)
      (name : String) :
    Effect e drafts (e.declare d name).2.1 (before ++ (e.declare d name).2.2 :: after)
  | build (before after : List Draft) (d : Draft) (hd : drafts = before ++ d :: after) :
    Effect e drafts (e.build d).2 (before ++ after)
  | discard (name : String) : Effect e drafts (e.discard name).2 drafts
  | collect : Effect e drafts e.collect.2 drafts

variable (hop : e.Operation drafts e' drafts')
include hop

theorem Operation.effect : e.Effect drafts e' drafts' := by
  have hroster {e' : Engine} (h : e'.roster = e.roster) : e.Effect drafts e' drafts :=
    .quiet (records_of_roster h) (.of_eq (congrArg (fun e => (e.config, e.types)) h))
      (tended_of_roster h)
  have hcat {e' : Engine} (h : e'.catalog = e.catalog ∧ e.Tended e') : e.Effect drafts e' drafts :=
    .quiet (records_of_catalog h.1) (.of_eq (congrArg (fun e => (e.config, e.types)) h.1)) h.2
  have hhollow {e' : Engine} (h : e'.hollow = e.hollow) : e.Effect drafts e' drafts :=
    hcat ⟨catalog_of_hollow h, tended_of_hollow h⟩
  cases hop with
  | registerType type =>
    refine .quiet ?_ (supplies_registerType e type) (tended_registerType e type)
    unfold Engine.registerType
    split
    · rfl
    · rfl
  | registerHost f body => exact .registerHost f body
  | beginModule name => exact .beginModule name
  | declare before after d hd name => exact .declare before after d hd name
  | edit before after d d' hd hedit => exact .edit before after d d' hd hedit
  | build before after d hd => exact .build before after d hd
  | bind id index target => exact hroster (roster_bind e id index target)
  | unbind id index => exact hroster (roster_unbind e id index)
  | bindAll id => exact hroster (roster_bindAll e id)
  | unbindAll id => exact hroster (roster_unbindAll e id)
  | discard name => exact .discard name
  | collect => exact .collect
  | exitModule id => exact hhollow (hollow_exitModule e id)
  | resetGlobals hreset => exact hcat (tended_resetGlobals (.inl hreset))
  | resetFails hreset => exact hcat (tended_resetGlobals (.inr ⟨_, hreset⟩))
  | writeGlobal id offset v => exact hhollow (hollow_writeGlobal e id offset v)
  | onHeap f => exact hhollow (hollow_onHeap e f)
  | takeTrace => exact hhollow rfl

theorem Operation.supplies : e.Supplies e' := by
  cases hop.effect with
  | quiet hrec hsup htended => exact hsup
  | edit | registerHost f body | beginModule name
  | declare before after d hd name => exact .of_eq rfl
  | build before after d hd => exact supplies_build e d
  | discard name => exact supplies_discard e name
  | collect => exact supplies_collect e

theorem Operation.tended_or_build : e.Tended e' ∨ ∃ d ∈ drafts, e' = (e.build d).2 := by
  cases hop.effect with
  | quiet hrec hsup htended => exact .inl htended
  | edit => exact .inl (.refl e)
  | registerHost f body => exact .inl (tended_registerHost e f body)
  | beginModule name => exact .inl (tended_beginModule e name)
  | declare before after d hd name => exact .inl (tended_declare e d name)
  | build before after d hd => exact .inr ⟨d, by rw [hd]; simp, rfl⟩
  | discard name => exact .inl (tended_discard e name)
  | collect => exact .inl (tended_collect e)

theorem Operation.tended (h : e.Drafting drafts) : e.Tended e' := by
  obtain htended | ⟨d, hd, rfl⟩ := hop.tended_or_build
  · exact htended
  · exact tended_build h hd

theorem Operation.sizes :
    e.modules.size ≤ e'.modules.size ∧ e.functions.size ≤ e'.functions.size := by
  obtain htended | ⟨d, -, rfl⟩ := hop.tended_or_build
  · exact ⟨htended.modules, htended.functions⟩
  · obtain ⟨hmods, hfns⟩ := sizes_build e d
    exact ⟨Nat.le_of_eq hmods.symm, Nat.le_of_eq hfns.symm⟩

/-- The ids that drafts use are their own as long as ids have not run out of their 32 bits. -/
theorem Operation.drafting (h : e.Drafting drafts)
    (hmods : e'.modules.size < 4294967296) (hfns : e'.functions.size ≤ 4294967296) :
    e'.Drafting drafts' := by
  cases hop.effect with
  | quiet hrec => exact h.of_directory (congrArg Prod.fst hrec)
  | edit before after d d' hd hedit =>
    subst hd
    exact h.edit hedit
  | registerHost f body => exact h.registerHost f body
  | beginModule name => exact h.beginModule name hmods
  | declare before after d hd name =>
    subst hd
    exact h.declare name hfns
  | build before after d hd =>
    subst hd
    exact h.build
  | discard name => exact h.discard name
  | collect => exact h.collect

theorem Operation.linked (h : e.Linked) (hdr : e.Drafting drafts) (hfits : e'.Fits) : e'.Linked := by
  have hbef : e.Fits := (hop.tended hdr).toGrown.fits hfits
  cases hop with
  | registerType type =>
    unfold Engine.registerType
    split
    · exact h.of_same (fun _ => rfl) (fun _ => rfl) (.refl _) rfl fun _ => rfl
    · exact h
  | registerHost f body => exact h.registerHost f body hfits.functions
  | beginModule name => exact h.beginModule name
  | declare before after d hd name => exact h.reserveFunction
  | edit => exact h
  | build before after d hd =>
    refine h.build hdr ?_
    rw [hd]
    simp
  | bind id index target => exact h.bind id index target
  | unbind id index => exact h.unbind id index
  | bindAll id => exact h.bindAll id
  | unbindAll id => exact h.unbindAll id
  | discard name => exact h.discard hbef name
  | collect => exact h.collect hbef
  | exitModule id => exact h.of_catalog (catalog_exitModule e id)
  | resetGlobals hreset => exact h.of_catalog (tended_resetGlobals (.inl hreset)).1
  | resetFails hreset => exact h.of_catalog (tended_resetGlobals (.inr ⟨_, hreset⟩)).1
  | writeGlobal id offset v =>
    exact h.of_catalog (catalog_of_hollow (hollow_writeGlobal e id offset v))
  | onHeap f => exact h.of_catalog (catalog_of_hollow (hollow_onHeap e f))
  | takeTrace => exact h.of_catalog rfl

end Engine

/-- A session together with the modules in the making. -/
structure Workspace extends Session where
  drafts : List Draft := []

namespace Workspace

variable {w : Workspace}

/-- One operation on the engine or on a context. A request that stops because a sum does not fit
into a word, or because the bound on its steps is reached, is followed by nothing. -/
inductive Step (w : Workspace) : Workspace → Prop where
  | engine {e : Engine} {drafts : List Draft} (h : w.engine.Operation w.drafts e drafts) :
    Step w { w with engine := e, drafts }
  | request (number : Nat) (r : Request)
      (hword : (w.toSession.inContext number r.perform).1 ≠ .error .overflow)
      (hfuel : (w.toSession.inContext number r.perform).1 ≠ .error .outOfFuel) :
    Step w { w with toSession := (w.toSession.inContext number r.perform).2 }
  | dropContext (number : Nat) : Step w { w with toSession := (w.toSession.dropContext number).2 }

inductive Reachable : Workspace → Prop where
  | new (config : Config) : Reachable { engine := { config } }
  | step {w w' : Workspace} (h : Reachable w) (hstep : Step w w') : Reachable w'

theorem Step.sizes {w' : Workspace} (hstep : w.Step w') :
    w.engine.modules.size ≤ w'.engine.modules.size ∧
      w.engine.functions.size ≤ w'.engine.functions.size := by
  have hof {s : Session} (hcat : s.engine.catalog = w.engine.catalog) :=
    let hgrown := Engine.grown_of_catalog hcat
    And.intro hgrown.modules hgrown.functions
  cases hstep with
  | engine hop => exact hop.sizes
  | request number r => exact hof (w.toSession.catalog_inContext number r.perform)
  | dropContext number => exact hof (w.toSession.catalog_dropContext number)

theorem Reachable.drafting (h : w.Reachable) (hmods : w.engine.modules.size < 4294967296)
    (hfns : w.engine.functions.size ≤ 4294967296) : w.engine.Drafting w.drafts := by
  induction h with
  | new config => exact Engine.drafting_nil _
  | @step w w' _ hstep ih =>
    have hsizes := hstep.sizes
    have hbef := ih (Nat.lt_of_le_of_lt hsizes.1 hmods) (Nat.le_trans hsizes.2 hfns)
    cases hstep with
    | engine hop => exact hop.drafting hbef hmods hfns
    | request number r =>
      exact hbef.of_directory
        (Engine.directory_of_catalog (w.toSession.catalog_inContext number r.perform))
    | dropContext number =>
      exact hbef.of_directory (Engine.directory_of_catalog (w.toSession.catalog_dropContext number))

/-- Bindings and references are exact as long as ids and counts have not run out of their 32
bits. -/
theorem Reachable.linked_accounted (h : w.Reachable) (hfits : w.engine.Fits) :
    w.engine.Linked ∧ w.toSession.Accounted := by
  induction h with
  | new config => exact ⟨Engine.linked_new config, Session.accounted_new config⟩
  | @step w w' hw hstep ih =>
    have hsizes := hstep.sizes
    have hdr := hw.drafting (Nat.lt_of_le_of_lt hsizes.1 hfits.modules)
      (Nat.le_trans hsizes.2 hfits.functions)
    cases hstep with
    | engine hop =>
      have htended := hop.tended hdr
      obtain ⟨hlnk, hacct⟩ := ih (htended.fits hfits)
      exact ⟨hop.linked hlnk hdr hfits, hacct.tended htended⟩
    | request number r hword hfuel =>
      have hcat := w.toSession.catalog_inContext number r.perform
      obtain ⟨hlnk, hacct⟩ := ih ((Engine.grown_of_catalog hcat).fits hfits)
      exact ⟨hlnk.of_catalog hcat, hacct.inContext number r.perform hword hfuel⟩
    | dropContext number =>
      have hcat := w.toSession.catalog_dropContext number
      obtain ⟨hlnk, hacct⟩ := ih ((Engine.grown_of_catalog hcat).fits hfits)
      exact ⟨hlnk.of_catalog hcat, hacct.dropContext number⟩

/-- A module with these imports and functions is made and put into use. -/
def load (w : Workspace) (name : String) (imports functions : List Func) : Workspace :=
  let (d, e) := w.engine.beginModule name
  let d := imports.foldl (fun d f => (d.addImport f).2) d
  let (e, d) := functions.foldl (fun s f => (s.1.addFunction s.2 f).2) (e, d)
  { w with engine := (e.build d).2 }

theorem Reachable.load (h : w.Reachable) (name : String) (imports functions : List Func) :
    (w.load name imports functions).Reachable := by
  have himport (e : Engine) (d : Draft)
      (hd : Reachable { w with engine := e, drafts := d :: w.drafts }) :
      Reachable { w with
        engine := e
        drafts := imports.foldl (fun d f => (d.addImport f).2) d :: w.drafts } := by
    induction imports generalizing d with
    | nil => exact hd
    | cons f imports ih =>
      exact ih _ (hd.step (.engine (.edit [] w.drafts d _ rfl (.addImport d f))))
  have hadd (e : Engine) (d : Draft) (hd : Reachable { w with engine := e, drafts := d :: w.drafts }) :
      Reachable { w with
        engine := (functions.foldl (fun s f => (s.1.addFunction s.2 f).2) (e, d)).1
        drafts := (functions.foldl (fun s f => (s.1.addFunction s.2 f).2) (e, d)).2 :: w.drafts } := by
    induction functions generalizing e d with
    | nil => exact hd
    | cons f functions ih =>
      have hdecl := hd.step (.engine (.declare [] w.drafts d rfl f.name))
      exact ih _ _ (hdecl.step
        (.engine (.edit [] w.drafts _ _ rfl (.define _ (e.declare d f.name).1 f))))
  have hbegun := h.step (.engine (.beginModule name))
  exact (hadd _ _ (himport _ _ hbegun)).step (.engine (.build [] w.drafts _ rfl))

def ask (w : Workspace) (number : Nat) (r : Request) : Workspace :=
  { w with toSession := (w.toSession.inContext number r.perform).2 }

def leaf : Func := { name := "leaf", code := #[.suspend, .ret 0] }

def trunk : Func := { name := "trunk", code := #[.callBound (.ofImport 0), .ret 0] }

/-- One module imports a function of another one and is bound to it. -/
def bound : Workspace :=
  let w := ((load { engine := {} } "lib" [] [leaf]).load "app"
    [{ leaf with source := some "lib", code := #[] }] [trunk])
  { w with engine := (w.engine.bindAll ⟨2⟩).2 }

/-- A context waits in the imported function, another one is prepared for it, and its module is
discarded. -/
def waiting : Workspace :=
  let w := ((bound.ask 1 (.setLineCallback (some { suspendAt := [1] }))).ask 1 (.prepare ⟨2⟩)).ask 1
    (.execute 9)
  let w := w.ask 2 (.prepare ⟨1⟩)
  { w with engine := (w.engine.discard "lib").2 }

theorem bound_reachable : bound.Reachable :=
  (((Reachable.new {}).load "lib" [] [leaf]).load "app"
    [{ leaf with source := some "lib", code := #[] }] [trunk]).step
    (.engine (.bindAll ⟨2⟩))

theorem waiting_reachable : waiting.Reachable := by
  have hcb := bound_reachable.step
    (.request 1 (.setLineCallback (some { suspendAt := [1] })) (by decide +kernel)
    (by decide +kernel))
  have hprep := hcb.step (.request 1 (.prepare ⟨2⟩) (by decide +kernel) (by decide +kernel))
  have hwaits := hprep.step (.request 1 (.execute 9) (by decide +kernel) (by decide +kernel))
  have hready := hwaits.step (.request 2 (.prepare ⟨1⟩) (by decide +kernel) (by decide +kernel))
  exact hready.step (.engine (.discard "lib"))

theorem waiting_fits : waiting.engine.Fits where
  modules := by decide +kernel
  functions := by decide +kernel
  slots := by decide +kernel

/-- The references that the engine counts for a module are those of contexts that run in it and of
frames they have saved, as 32-bit numbers, and there are none once all contexts are unprepared or
let go. -/
theorem contextRefs_exact {w : Workspace} (h : w.Reachable) (hfits : w.engine.Fits) {id : ModuleId}
    {m : Module} (hm : w.engine.built? id = some m) :
    m.contextRefs = (w.runningIn id + w.savedIn id).toUInt32 ∧
      (w.runningIn id + w.savedIn id < 4294967296 →
        m.contextRefs.toNat = w.runningIn id + w.savedIn id) ∧
      ((∀ c ∈ w.contexts, c.2.state = .uninitialized) → m.contextRefs = 0) := by
  obtain ⟨-, haccounted⟩ := h.linked_accounted hfits
  have hrefs : m.contextRefs = (Session.held w.contexts id).toUInt32 := by
    rw [← haccounted.counted id, Engine.contextRefs, hm]
    rfl
  have hcount : m.contextRefs = (w.runningIn id + w.savedIn id).toUInt32 := by
    rw [hrefs, Session.held_eq]
  refine ⟨hcount, fun hlt => ?_, fun hfresh => ?_⟩
  · rw [hcount]
    simpa using hlt
  · rw [hrefs, haccounted.held_of_unprepared hfresh id]
    rfl

/-- Two contexts run in the discarded module, and one of them has saved a frame of the other
module. -/
theorem contextRefs_exact_waiting : waiting.runningIn ⟨1⟩ = 2 ∧ waiting.savedIn ⟨2⟩ = 1 ∧
      (∃ m, waiting.engine.built? ⟨1⟩ = some m ∧ m.discarded = true ∧ m.contextRefs.toNat = 2) ∧
      ∃ m, waiting.engine.built? ⟨2⟩ = some m ∧ m.contextRefs.toNat = 1 := by
  have hlib : (waiting.engine.built? ⟨1⟩).any (fun m => m.discarded) = true := by decide +kernel
  have happ : (waiting.engine.built? ⟨2⟩).isSome = true := by decide +kernel
  obtain ⟨lib, hlib, hdiscarded⟩ := (Option.any_eq_true _ _).mp hlib
  obtain ⟨app, happ⟩ := Option.isSome_iff_exists.mp happ
  have hlibRefs := (contextRefs_exact waiting_reachable waiting_fits hlib).2.1 (by decide +kernel)
  have happRefs := (contextRefs_exact waiting_reachable waiting_fits happ).2.1 (by decide +kernel)
  exact ⟨by decide +kernel, by decide +kernel,
    ⟨lib, hlib, hdiscarded, hlibRefs.trans (by decide +kernel)⟩,
    app, happ, happRefs.trans (by decide +kernel)⟩

/-- The bindings that the engine counts for a module are the import slots bound to its functions,
and every bound slot is bound to a script function with the signature of its declaration. -/
theorem bindings_exact {w : Workspace} (h : w.Reachable) (hfits : w.engine.Fits) :
    (∀ id m, w.engine.built? id = some m → m.moduleRefs.toNat = w.engine.bindingsTo id) ∧
      ∀ slot ∈ w.engine.slots, ∀ target, slot.bound = some target →
        ∃ f, w.engine.function? target = some f ∧ f.kind = .script ∧
          f.signature = slot.declaration.signature := by
  obtain ⟨hlinked, -⟩ := h.linked_accounted hfits
  refine ⟨fun id m hm => ?_, hlinked.resolved⟩
  have hlt : w.engine.bindingsTo id < 4294967296 :=
    Nat.lt_of_le_of_lt List.countP_le_length hfits.slots
  have hcount := hlinked.counted id
  simp only [Engine.moduleRefs, hm, Option.map_some, Option.getD_some] at hcount
  rw [hcount]
  simpa using hlt

/-- The import stays bound to the discarded module. -/
theorem bindings_exact_waiting : waiting.engine.slots.map ImportSlot.bound = [some ⟨1⟩] ∧
      (∃ m, waiting.engine.built? ⟨1⟩ = some m ∧ m.moduleRefs.toNat = 1) ∧
      ∃ f, waiting.engine.function? ⟨1⟩ = some f ∧ f.kind = .script := by
  have hslots : waiting.engine.slots.map ImportSlot.bound = [some ⟨1⟩] := by decide +kernel
  have hlib : (waiting.engine.built? ⟨1⟩).isSome = true := by decide +kernel
  obtain ⟨lib, hlib⟩ := Option.isSome_iff_exists.mp hlib
  obtain ⟨hcounted, hresolved⟩ := bindings_exact waiting_reachable waiting_fits
  obtain ⟨slot, hslot, hbound⟩ : ∃ slot ∈ waiting.engine.slots, slot.bound = some ⟨1⟩ := by
    have hmem : some ⟨1⟩ ∈ waiting.engine.slots.map ImportSlot.bound := by
      rw [hslots]; exact List.mem_cons_self
    exact List.mem_map.mp hmem
  obtain ⟨f, hf, hkind, -⟩ := hresolved slot hslot ⟨1⟩ hbound
  exact ⟨hslots, ⟨lib, hlib, (hcounted ⟨1⟩ lib hlib).trans (by decide +kernel)⟩, f, hf, hkind⟩

end Workspace

end ScriptVm
