import ScriptVm.Proofs.Execution.Operands
import ScriptVm.Proofs.Session.Refusals
import ScriptVm.Proofs.Session.Registry

namespace ScriptVm

namespace Engine

variable {e e' : Engine} {drafts drafts' : List Draft} {id : ModuleId} {m : Module}
    {a b : Engine × List Draft}

theorem Operation.laid (hop : e.Operation drafts e' drafts') (h : ∀ d ∈ drafts, d.Laid) :
    ∀ d ∈ drafts', d.Laid := by
  have hreplace {before after : List Draft} {d d' : Draft} (hd : drafts = before ++ d :: after)
      (hlaid : d.Laid → d'.Laid) :
      ∀ x ∈ before ++ d' :: after, x.Laid := by
    subst hd
    simp only [List.mem_append, List.mem_cons] at h ⊢
    rintro x (hx | rfl | hx)
    · exact h x (.inl hx)
    · exact hlaid (h d (.inr (.inl rfl)))
    · exact h x (.inr (.inr hx))
  cases hop with
  | beginModule name =>
    intro d hd
    rcases List.mem_cons.mp hd with rfl | hd
    · exact ⟨fun _ hf => (nomatch hf), fun _ hg => (nomatch hg)⟩
    · exact h d hd
  | declare before after d hd name => exact hreplace hd fun hlaid => hlaid.declare _ name
  | edit before after d d' hd hedit => exact hreplace hd fun hlaid => hlaid.edit hedit
  | build before after d hd =>
    intro x hx
    apply h
    rw [hd]
    simp only [List.mem_append, List.mem_cons] at hx ⊢
    tauto
  | _ => exact h

theorem Effect.furnished (heffect : e.Effect drafts e' drafts') (hsup : e.Supplies e')
    (h : e.Furnished) (hdr : e.Drafting drafts) (hlaid : ∀ d ∈ drafts, d.Laid) : e'.Furnished := by
  cases heffect with
  | quiet hrec => exact h.of_core hsup (core_of_directory (congrArg Prod.fst hrec))
  | edit | registerHost f body | declare before after d hd name => exact h.of_core hsup fun _ => rfl
  | beginModule name => exact h.of_core hsup fun id => by rw [built?_beginModule]
  | build before after d hd =>
    have hmem : d ∈ drafts := by
      rw [hd]
      simp
    exact h.build hdr hmem (hlaid d hmem)
  | discard name => exact h.of_core hsup (built?_discard e name)
  | collect => exact h.of_core hsup (built?_collect e)

theorem contextRefs_of_doomed (h : id ∈ e.doomed) : e.contextRefs id = 0 := by
  have hmem := (closedPart_sublist e _).subset h
  have hunused := (List.mem_filter.mp hmem).2
  obtain ⟨m, hm, hrefs⟩ := (Option.any_eq_true _ _).mp hunused
  rw [contextRefs, hm]
  simpa using hrefs

theorem module?_of_core (hm : e.module? id = some m) (hpres : id ∈ e.present → id ∈ e'.present)
    (hcore : (e'.built? id).map Module.core = (e.built? id).map Module.core) :
    ∃ m', e'.module? id = some m' ∧ m'.core = m.core := by
  rw [module?_eq] at hm
  split at hm
  · rename_i hid
    obtain ⟨m', hm', hsame⟩ := built?_of_core hcore hm
    exact ⟨m', by rw [module?_eq, if_pos (hpres hid), hm'], hsame⟩
  · cases hm

theorem module?_collect (h : e.Filed) (hm : e.module? id = some m) (hheld : e.contextRefs id ≠ 0) :
    ∃ m', e.collect.2.module? id = some m' ∧ m'.core = m.core := by
  refine module?_of_core hm ?_ (built?_collect e id)
  intro hid
  exact (mem_present_collect h).mpr ⟨hid, fun hdoomed => hheld (contextRefs_of_doomed hdoomed)⟩

theorem Effect.module? (heffect : e.Effect drafts e' drafts') (h : e.Linked)
    (hdr : e.Drafting drafts) (hm : e.module? id = some m) (hheld : e.contextRefs id ≠ 0) :
    ∃ m', e'.module? id = some m' ∧ m'.core = m.core := by
  cases heffect with
  | quiet hrec =>
    have hdir : e'.directory = e.directory := congrArg Prod.fst hrec
    exact module?_of_core hm (fun hid => present_of_directory hdir ▸ hid) (core_of_directory hdir id)
  | edit | registerHost f body | declare before after d hd name => exact ⟨m, hm, rfl⟩
  | beginModule name => exact module?_of_core hm (fun hid => hid) (by rw [built?_beginModule])
  | build before after d hd =>
    rcases build_cases e d with heq | ⟨functions, hok, heq⟩
    · rw [heq]
      exact ⟨m, hm, rfl⟩
    · have hfresh := hdr.fresh (by rw [hd]; simp) hok
      rw [heq]
      refine module?_of_core hm ?_ ?_
      · intro hid
        exact (present_install e _).mem_iff.mpr (List.mem_cons_of_mem _ hid)
      · obtain ⟨g, hg⟩ := built?_of_module? (Option.isSome_of_eq_some hm)
        rw [hfresh.built?_other hg, hg]
  | discard name =>
    cases hnamed : e.moduleNamed? name with
    | none =>
      rw [Engine.discard, hnamed]
      exact ⟨m, hm, rfl⟩
    | some g =>
      have hlive := mem_live_of_moduleNamed? h.toFiled hnamed
      have hretired : ∃ m1, (e.retire g.id).module? id = some m1 ∧ m1.core = m.core :=
        module?_of_core hm (present_retire hlive).mem_iff.mpr
          (built?_of_map Module.core (map_retire Module.core (fun _ => rfl) e g.id) id)
      obtain ⟨m1, hm1, hcore1⟩ := hretired
      have hrefs : (e.retire g.id).contextRefs id = e.contextRefs id := by
        rw [contextRefs, contextRefs,
          built?_of_map Module.contextRefs (map_retire Module.contextRefs (fun _ => rfl) e g.id)]
      obtain ⟨m2, hm2, hcore2⟩ :=
        module?_collect (h.retire hlive).toFiled hm1 (by rw [hrefs]; exact hheld)
      rw [discard_eq hnamed]
      exact ⟨m2, hm2, hcore2.trans hcore1⟩
  | collect => exact module?_collect h.toFiled hm hheld

/-- Bindings are counted, drafts have ids of their own, and their globals have room. -/
structure Arranged (a : Engine × List Draft) : Prop where
  linked : a.1.Linked
  drafting : a.1.Drafting a.2
  laid : ∀ d ∈ a.2, d.Laid

/-- No context was concerned, what was registered and built is still there, and no module has gone
that a context holds. -/
structure Continues (e e' : Engine) : Prop where
  tended : e.Tended e'
  supplies : e.Supplies e'
  stays : ∀ {id m}, e.module? id = some m → e.contextRefs id ≠ 0 → ∃ m', e'.module? id = some m' ∧
    m'.core = m.core

theorem Continues.refl (e : Engine) : e.Continues e :=
  ⟨.refl e, .of_eq rfl, fun hm _ => ⟨_, hm, rfl⟩⟩

theorem Continues.trans {a b c : Engine} (h1 : a.Continues b) (h2 : b.Continues c) :
    a.Continues c where
  tended := h1.tended.trans h2.tended
  supplies := h1.supplies.trans h2.supplies
  stays {id m} hm hheld := by
    obtain ⟨m1, hm1, hcore1⟩ := h1.stays hm hheld
    obtain ⟨m2, hm2, hcore2⟩ := h2.stays hm1 (by rw [h1.tended.refs]; exact hheld)
    exact ⟨m2, hm2, hcore2.trans hcore1⟩

theorem Operations.drafting (h : Operations a b) (ha : a.1.Drafting a.2) (hnum : b.1.Numbered) :
    b.1.Drafting b.2 := by
  induction h with
  | refl => exact ha
  | tail _ hop ih => exact hop.drafting (ih (hnum.of_sizes hop.sizes)) hnum.modules hnum.functions

theorem Operations.config (h : Operations a b) : b.1.config = a.1.config := by
  induction h with
  | refl => rfl
  | tail _ hop ih => exact hop.supplies.config.trans ih

theorem Operations.tended (h : Operations a b) (ha : a.1.Drafting a.2) (hnum : b.1.Numbered) :
    a.1.Tended b.1 := by
  induction h with
  | refl => exact .refl a.1
  | tail hops hop ih =>
    have hbef := hnum.of_sizes hop.sizes
    exact (ih hbef).trans (hop.tended (Operations.drafting hops ha hbef))

theorem Fits.numbered (h : e.Fits) : e.Numbered := ⟨h.modules, h.functions⟩

theorem Operations.arranged (h : Operations a b) (ha : Arranged a) (hfits : b.1.Fits) :
    Arranged b ∧ a.1.Continues b.1 ∧ (a.1.Furnished → b.1.Furnished) := by
  induction h with
  | refl => exact ⟨ha, .refl _, id⟩
  | @tail b c hops hop ih =>
    have hnum : b.1.Numbered := hfits.numbered.of_sizes hop.sizes
    have hdr := Operations.drafting hops ha.drafting hnum
    have htended := hop.tended hdr
    obtain ⟨hb, hconts, hfurn⟩ := ih (htended.fits hfits)
    refine ⟨⟨hop.linked hb.linked hdr hfits, ?_, hop.laid hb.laid⟩,
      hconts.trans ⟨htended, hop.supplies, ?_⟩, ?_⟩
    · exact hop.drafting hdr hfits.modules hfits.functions
    · intro id m hm hheld
      exact hop.effect.module? hb.linked hdr hm hheld
    · intro he
      exact hop.effect.furnished hop.supplies (hfurn he) hdr hb.laid

theorem Houses.continues (h : e.Continues e') {f : Func} {module : Option ModuleId}
    (hf : e.Houses f module) (hheld : ∀ id, module = some id → e.contextRefs id ≠ 0) :
    e'.Houses f module := by
  intro hkind
  obtain ⟨id, hid, hmod, m, hm, hmem⟩ := hf hkind
  obtain ⟨m', hm', hcore⟩ := h.stays hm (hheld id hid)
  have hfns : m'.functions = m.functions := congrArg (fun m => m.functions) hcore
  have hini : m'.initializer = m.initializer := congrArg (fun m => m.initializer) hcore
  refine ⟨id, hid, hmod, m', hm', ?_⟩
  rwa [hfns, hini]

end Engine

namespace Request

open Exec

/-- A function that is prepared as such is the initializer of a module that exists. -/
def Rightful (e : Engine) : Request → Prop
  | .prepareFunction f => ∃ id m, e.module? id = some m ∧ m.initializer = some f
  | _ => True

/-- A function is prepared by its id, or as the initializer of a module that exists. -/
def Prepares (e : Engine) : Request → Prop
  | .prepare _ => True
  | .prepareFunction f => ∃ id m, e.module? id = some m ∧ m.initializer = some f
  | _ => False

theorem admits_initializer {e : Engine} (hfiled : e.Filed) (h : e.Furnished) {id : ModuleId}
    {m : Module} (hm : e.module? id = some m) {f : Func} (hf : m.initializer = some f) :
    Terms.housing.Admits e f := by
  have hbuilt : e.built? id = some m := by
    rw [Engine.module?_eq] at hm
    split at hm
    · exact hm
    · cases hm
  have hmod : f.module = some id := by
    rw [(h.modules hbuilt).initializer f hf, hfiled.own_id hbuilt]
  have howns : e.Owns id f := ⟨hmod, m, hm, .inr hf⟩
  exact howns.houses fun _ hid => hid

theorem prepares_housed {r : Request} {m m' : Machine} (hfiled : m.engine.Filed)
    (h : m.engine.Furnished) (hr : r.Prepares m.engine)
    (hok : r.perform m = .ok () m') : m'.Housed := by
  cases r with
  | prepare id => exact prepare_abides hfiled hok
  | prepareFunction f =>
    obtain ⟨id, g, hg, hf⟩ := hr
    exact prepareFunction_abides hfiled (admits_initializer hfiled h hg hf) hok
  | _ => cases hr

theorem done_housed {r : Request} {m m' : Machine} (hm : m.Housed) (h : m.engine.Furnished)
    (hr : r.Rightful m.engine) (hok : r.perform m = .ok () m') : m'.Housed := by
  cases hadj : r.adjusts with
  | true =>
    have hkept := (standing_adjusts hadj).of_ok hok
    exact hm.of_outline (Machine.outline_of_standing hkept)
  | false =>
    cases r with
    | prepare id => exact prepare_abides hm.engine hok
    | prepareFunction f => exact prepares_housed (r := .prepareFunction f) hm.engine h hr hok
    | unprepare => exact after_of_ok hok ▸ unprepare_abides hm
    | execute fuel =>
      obtain ⟨outcome, m1, hrun, hok⟩ := bind_ok hok
      cases hok
      exact execute_abides hm hrun
    | startRun fuel => exact after_of_ok hok ▸ startRun_abides _ hm
    | step fuel =>
      replace hok := ctx_ok hok
      split at hok
      · rename_i hact
        obtain ⟨flow, m1, hstep, hok⟩ := bind_ok hok
        cases hok
        exact step_abides _ hm hact hstep
      · cases hok
        exact hm
    | endRun =>
      obtain ⟨outcome, m1, hend, hok⟩ := bind_ok hok
      cases hok
      exact after_of_ok hend ▸ endRun_abides hm
    | abort => exact after_of_ok hok ▸ abort_abides hm
    | _ => cases hadj

theorem perform_housed {r : Request} {m : Machine} (hm : m.Housed) (h : m.engine.Furnished)
    (hr : r.Rightful m.engine) (hstl : Settled (r.perform m)) : (left (r.perform m)).Housed :=
  after_settled (P := Machine.Housed) hstl (fun _ => done_housed hm h hr) hm.applyAbort hm

end Request

namespace Session

open Exec

theorem context_setContext (s : Session) (number : Nat) (c : Context) :
    (s.setContext number c).context number = c := by
  have hbef : ((s.contexts.takeWhile fun e => decide (e.1 < number)).find? fun e => e.1 == number) =
      none := by
    apply List.find?_eq_none.mpr
    intro e he
    have hlt : e.1 < number := by simpa using List.all_eq_true.mp List.all_takeWhile e he
    simp only [beq_iff_eq]
    omega
  unfold context setContext
  simp only [List.find?_append, hbef, Option.none_or, List.find?_cons, beq_self_eq_true]
  rfl

theorem inContext_left {ε α : Type} (s : Session) (number : Nat) (x : Exec ε α) :
    let r := x (s.machine number)
    (s.inContext number x).2.engine = (left r).engine ∧
      (s.inContext number x).2.context number = (left r).ctx ∧
      ((s.inContext number x).1 ≠ .error .overflow → (s.inContext number x).1 ≠ .error .outOfFuel →
        Settled r) ∧
      ∀ a, (s.inContext number x).1 = .ok a → r = .ok a (left r) := by
  dsimp only
  unfold inContext
  dsimp only
  cases x (s.machine number) with
  | ok a m =>
    refine ⟨rfl, context_setContext _ number m.ctx, fun _ _ => trivial, ?_⟩
    rintro b ⟨⟩
    rfl
  | error stop m =>
    refine ⟨rfl, context_setContext _ number m.ctx, ?_, ?_⟩
    · intro hword hfuel
      cases stop with
      | cause e => trivial
      | overflow => exact absurd rfl hword
      | outOfFuel => exact absurd rfl hfuel
    · intro b hb
      cases hb

end Session

namespace Workspace

open Engine Exec

variable {w w' : Workspace} {number : Nat}

/-- The tables, the drafts and the references of contexts are sound. -/
structure Ordered (w : Workspace) : Prop where
  arranged : Arranged (w.engine, w.drafts)
  accounted : w.toSession.Accounted

theorem Arranged.of_catalog {e e' : Engine} {drafts : List Draft} (h : Arranged (e, drafts))
    (hcat : e'.catalog = e.catalog) : Arranged (e', drafts) :=
  ⟨h.linked.of_catalog hcat, h.drafting.of_directory (directory_of_catalog hcat), h.laid⟩

theorem Arranged.sublist {e : Engine} {drafts drafts' : List Draft} (h : Arranged (e, drafts))
    (hsub : drafts'.Sublist drafts) : Arranged (e, drafts') :=
  ⟨h.linked, h.drafting.sublist hsub, fun d hd => h.laid d (hsub.subset hd)⟩

theorem Turn.ordered (h : w.Turn w') (hw : w.Ordered) (hfits : w'.engine.Fits) :
    w'.Ordered ∧ (w.engine.Furnished → w'.engine.Furnished) := by
  rcases h.parts with ⟨number, r, hword, hfuel, rfl⟩ | ⟨number, rfl⟩ | ⟨hctxs, drafts, hops, hsub⟩
  · have hcat := w.toSession.catalog_inContext number r.perform
    exact ⟨⟨Arranged.of_catalog hw.arranged hcat, hw.accounted.inContext number r.perform hword hfuel⟩,
      fun he => he.of_catalog hcat⟩
  · have hcat := w.toSession.catalog_dropContext number
    exact ⟨⟨Arranged.of_catalog hw.arranged hcat, hw.accounted.dropContext number⟩,
      fun he => he.of_catalog hcat⟩
  · obtain ⟨hafter, hconts, hfurn⟩ := Operations.arranged hops hw.arranged hfits
    refine ⟨⟨Arranged.sublist hafter hsub, ?_⟩, hfurn⟩
    have hacct := hw.accounted.tended hconts.tended
    have hsame : ({ w.toSession with engine := w'.engine } : Session) = w'.toSession := by
      show ({ engine := w'.engine, contexts := w.contexts } : Session) = _
      rw [← hctxs]
    rwa [hsame] at hacct

theorem Turn.fits (h : w.Turn w') (hevo : w.Evolved) (hfits : w'.engine.Fits) : w.engine.Fits := by
  have hkept := hevo.kept (hfits.numbered.of_sizes h.sizes)
  rcases h.operations with ⟨hcat, -⟩ | ⟨drafts, hops, -⟩
  · exact (grown_of_catalog hcat).fits hfits
  · exact (Operations.tended hops hkept.2 hfits.numbered).fits hfits

/-- Whatever has happened in a session, its tables and counts are sound as long as ids and counts
have not run out of their 32 bits. -/
theorem Evolved.ordered (h : w.Evolved) (hfits : w.engine.Fits) : w.Ordered := by
  obtain ⟨config, hlater⟩ := h
  induction hlater with
  | refl => exact ⟨⟨linked_new config, drafting_nil _, fun _ hd => nomatch hd⟩, Session.accounted_new config⟩
  | @tail w w' hlater hturn ih =>
    exact (hturn.ordered (ih (hturn.fits ⟨config, hlater⟩ hfits)) hfits).1

theorem Turn.config (h : w.Turn w') : w'.engine.config = w.engine.config := by
  rcases h.operations with ⟨hcat, -⟩ | ⟨drafts, hops, -⟩
  · exact config_of_catalog hcat
  · exact Operations.config hops

theorem Evolved.furnished (h : w.Evolved) (hfits : w.engine.Fits)
    (hver : w.engine.config.verify = true) : w.engine.Furnished := by
  obtain ⟨config, hlater⟩ := h
  induction hlater with
  | refl => exact furnished_new hver
  | @tail w w' hlater hturn ih =>
    have hevo : w.Evolved := ⟨config, hlater⟩
    have hbef := hturn.fits hevo hfits
    rw [hturn.config] at hver
    exact (hturn.ordered (hevo.ordered hbef) hfits).2 (ih hbef hver)

/-- The states of a session in which a context runs a function that was prepared by its id, or as
the initializer of a module that existed. Other contexts, the engine and its modules change
meanwhile. No module is held so often that its count overflows. -/
inductive Attended (number : Nat) : Workspace → Prop where
  | prepared {w : Workspace} (h : w.Evolved) {r : Request} (hr : r.Prepares w.engine)
      (hok : (w.toSession.inContext number r.perform).1 = .ok ()) : Attended number (w.ask number r)
  | request {w : Workspace} (h : Attended number w) {r : Request} (hr : r.Rightful w.engine)
      (hword : (w.toSession.inContext number r.perform).1 ≠ .error .overflow)
      (hfuel : (w.toSession.inContext number r.perform).1 ≠ .error .outOfFuel) :
    Attended number (w.ask number r)
  | turn {w w' : Workspace} (h : Attended number w)
      (hcount : ∀ id, w.runningIn id + w.savedIn id < 4294967296) (hturn : w.Turn w')
      (hstays : w'.context number = w.context number) : Attended number w'

theorem Evolved.turn {w w' : Workspace} (h : w.Evolved) (hturn : w.Turn w') : w'.Evolved := by
  obtain ⟨config, hlater⟩ := h
  exact ⟨config, hlater.tail hturn⟩

theorem Attended.evolved (h : w.Attended number) : w.Evolved := by
  induction h with
  | prepared h _ hok =>
    apply h.turn
    refine .step (.request number _ ?_ ?_)
    · rw [hok]
      intro hword
      cases hword
    · rw [hok]
      intro hfuel
      cases hfuel
  | request _ _ hword hfuel ih => exact ih.turn (.step (.request number _ hword hfuel))
  | turn _ _ hturn _ ih => exact ih.turn hturn

theorem Ordered.refs_ne_zero (h : w.Ordered)
    (hcnt : ∀ id, w.runningIn id + w.savedIn id < 4294967296) {id : ModuleId}
    (hid : some id ∈ (w.context number).held) : w.engine.contextRefs id ≠ 0 := by
  rcases w.toSession.context_cases h.accounted.numbered number with hperm | ⟨hnew, -⟩
  · have hpos : 0 < Session.held w.contexts id := by
      rw [Session.held_perm hperm, Session.held_cons]
      have hholds : 0 < (w.context number).holds id := List.count_pos_iff.mpr hid
      exact Nat.add_pos_left hholds _
    have hlt := hcnt id
    rw [← Session.held_eq] at hlt
    have hexact : (Session.held w.contexts id).toUInt32.toNat = Session.held w.contexts id := by
      simpa using hlt
    intro hzero
    rw [← h.accounted.counted id, hzero] at hexact
    exact Nat.ne_of_lt hpos hexact
  · rw [hnew] at hid
    simp [Context.held, Context.new] at hid

theorem Turn.housed (h : w.Turn w') (hw : w.Ordered) (hfits : w'.engine.Fits)
    (hcnt : ∀ id, w.runningIn id + w.savedIn id < 4294967296)
    (hstays : w'.context number = w.context number)
    (hhoused : (w.machine number).Housed) : (w'.machine number).Housed := by
  obtain ⟨-, ⟨hclrs, hcur, hin, hfirst⟩⟩ := id hhoused
  have hstance : (w'.machine number).stance = (w.machine number).stance := by
    simp only [Machine.stance, Session.machine, hstays]
  rcases h.operations with ⟨hcat, -⟩ | ⟨drafts, hops, -⟩
  · exact hhoused.of_stance hcat hstance
  · obtain ⟨hafter, hconts, -⟩ := Operations.arranged hops hw.arranged hfits
    refine ⟨hafter.linked.toFiled, ?_⟩
    show Terms.housing.Placed w'.engine (w'.context number)
    rw [hstays]
    refine ⟨fun frame hfr => ⟨?_, trivial⟩, fun f hf => ?_, hin, hfirst⟩
    · refine Houses.continues hconts (hclrs frame hfr).1 fun id hid => ?_
      have hheld : some id ∈ (w.context number).held := by
        rw [Context.held, ← hid]
        exact List.mem_cons_of_mem _ (List.mem_map_of_mem hfr)
      exact hw.refs_ne_zero hcnt hheld
    · refine Houses.continues hconts (hcur f hf) fun id hid => ?_
      have hheld : some id ∈ (w.context number).held := by
        rw [Context.held]
        exact hid ▸ List.mem_cons_self
      exact hw.refs_ne_zero hcnt hheld

theorem ask_machine (w : Workspace) (number : Nat) (r : Request) :
    (w.ask number r).machine number = left (r.perform (w.machine number)) := by
  obtain ⟨heng, hcx, -⟩ := w.toSession.inContext_left number r.perform
  show (w.toSession.inContext number r.perform).2.machine number = _
  rw [Session.machine, heng, hcx]

theorem ask_fits {r : Request} (h : (w.ask number r).engine.Fits) : w.engine.Fits :=
  (grown_of_catalog (w.toSession.catalog_inContext number r.perform)).fits h

theorem ask_config (w : Workspace) (number : Nat) (r : Request) :
    (w.ask number r).engine.config = w.engine.config :=
  config_of_catalog (w.toSession.catalog_inContext number r.perform)

/-- A script function that such a context runs is in its module, and so is every caller. -/
theorem Attended.housed (h : w.Attended number) (hfits : w.engine.Fits)
    (hver : w.engine.config.verify = true) : (w.machine number).Housed := by
  induction h with
  | @prepared w h r hr hok =>
    have hbef := ask_fits hfits
    rw [ask_config] at hver
    obtain ⟨-, -, -, hres⟩ := w.toSession.inContext_left number r.perform
    have hfiled := (h.ordered hbef).arranged.linked.toFiled
    have hhoused := Request.prepares_housed (m := w.machine number) hfiled
      (h.furnished hbef hver) hr (hres () hok)
    rw [ask_machine]
    exact hhoused
  | @request w h r hr hword hfuel ih =>
    have hbef := ask_fits hfits
    rw [ask_config] at hver
    obtain ⟨-, -, hstl, -⟩ := w.toSession.inContext_left number r.perform
    rw [ask_machine]
    exact Request.perform_housed (ih hbef hver) (h.evolved.furnished hbef hver) hr (hstl hword hfuel)
  | @turn w w' h hcnt hturn hstays ih =>
    have hevo := h.evolved
    have hbef := hturn.fits hevo hfits
    rw [hturn.config] at hver
    exact hturn.housed (hevo.ordered hbef) hfits hcnt hstays (ih hbef hver)

end Workspace

namespace Machine

open Exec

/-- What a context makes of a machine, from one request to the next. -/
inductive Served (m0 : Machine) : Machine → Prop where
  | start : Served m0 m0
  | request {m : Machine} (h : Served m0 m) {r : Request} (hr : r.Rightful m.engine)
      (hsettled : Settled (r.perform m)) : Served m0 (left (r.perform m))

theorem Served.housed {m0 m : Machine} (h : m0.Served m) (hm0 : m0.Housed)
    (hfurn : m0.engine.Furnished) : m.Housed ∧ m.engine.Furnished := by
  induction h with
  | start => exact ⟨hm0, hfurn⟩
  | @request m _ r hr hstl ih =>
    have hcat : (left (r.perform m)).catalog = m.catalog := Keeps.view_after (x := r.perform) m
    exact ⟨Request.perform_housed ih.1 ih.2 hr hstl, ih.2.of_catalog hcat⟩

/-- The current function and all callers are in the modules that own them. Wherever an instruction
of the current function looks up a name, it finds what the name stands for; and if all it names is
of the module, it is bad code only because of a variable, or of a word on the stack that it reads,
that is not there. -/
structure Resolved (m : Machine) : Prop where
  current : ∀ f, m.ctx.function = some f → m.engine.Houses f m.ctx.module
  callers : ∀ frame ∈ m.ctx.calls.frames, m.engine.Houses frame.function frame.module
  operands : ∀ f, m.ctx.function = some f → f.kind = .script → ∀ i ∈ f.code,
    ∀ m' : Machine, m'.catalog = m.catalog → m'.ctx.module = m.ctx.module →
      i.Resolves m' ∧ ∀ nested g, m'.ctx.function = some f → currentModule m' = .ok g m' →
        i.Static g →
        cause? (exec nested i m') = some .badCode →
          (∃ v ∈ i.vars, cause? (getVar v m') = some .badCode) ∨
            ∃ words ∈ i.peeks m'.engine, cause? (peek64 words m') = some .badCode

theorem Housed.resolved {m : Machine} (h : m.Housed) (hfurn : m.engine.Furnished) : m.Resolved := by
  refine ⟨h.position.current, fun frame hfr => (h.position.callers frame hfr).1, ?_⟩
  intro f hf hkind i hi m' hcat hmod
  have hresv : ∀ m' : Machine, m'.catalog = m.catalog → m'.ctx.module = m.ctx.module →
      i.Resolves m' := by
    intro m' hcat hmod
    have hfiled := h.engine.of_directory (Engine.directory_of_catalog hcat)
    have hhouses := (h.position.current f hf).of_catalog hcat
    rw [← hmod] at hhouses
    exact resolves_of_houses hfiled (hfurn.of_catalog hcat) hhouses hkind hi
  refine ⟨hresv m' hcat hmod, ?_⟩
  intro nested g hclr hcur hstatic
  refine exec_static nested ?_ hclr hcur hstatic
  intro m'' hcat' hmod'
  exact hresv m'' (hcat'.trans hcat) (hmod'.trans hmod)

end Machine

/-- In an engine that checks its functions, a context that runs a function by its id, or the
initializer of a module, is always in the module of the current function, and so is every frame it
has saved; so its instructions find the globals, strings, types and functions of the module that
they name, also if the module was discarded meanwhile. The same holds for contexts that host
functions start and let go. -/
theorem Workspace.operands_resolve {w : Workspace} (h : w.Evolved) (hfits : w.engine.Fits)
    (hverify : w.engine.config.verify = true) :
    (∀ number, w.Attended number → (w.machine number).Resolved) ∧
      ∀ m0 m : Machine, m0.catalog = w.engine.catalog →
        m0.ctx = Context.new w.engine.config.maxStack → m0.Served m → m.Resolved := by
  have hfurnished := h.furnished hfits hverify
  constructor
  · intro number hattended
    exact (hattended.housed hfits hverify).resolved hfurnished
  · intro m0 m hcatalog hnew hserved
    have hfiled :=
      (h.ordered hfits).arranged.linked.toFiled.of_directory (Engine.directory_of_catalog hcatalog)
    have hhoused : m0.Housed := by
      have hfresh := Machine.housed_new hfiled w.engine.config.maxStack
      rwa [← hnew] at hfresh
    obtain ⟨hend, hafter⟩ := hserved.housed hhoused (hfurnished.of_catalog hcatalog)
    exact hend.resolved hafter

namespace Workspace

open Exec

def counter : Func := { name := "counter", code := #[.suspend, .pushGlobal 0, .pop 1, .ret 0] }

def report : Func :=
  { name := "report", code := #[.pushGlobal 0, .pop 1, .pushString 0, .pop 3, .call ⟨1⟩, .ret 0] }

/-- A module with a variable, a text and two functions. -/
def stocked : Workspace :=
  let (d, e) := Engine.beginModule {} "lib"
  let d := ((d.addGlobal "count" .int).2.addString "ready").2
  let (e, d) := (e.addFunction d counter).2
  let (e, d) := (e.addFunction d report).2
  { engine := (e.build d).2 }

theorem stocked_reachable : stocked.Reachable := by
  have hbegun := (Reachable.new {}).step (.engine (.beginModule "lib"))
  have hgl := hbegun.step (.engine (.edit [] [] _ _ rfl (.addGlobal _ "count" .int)))
  have hstring := hgl.step (.engine (.edit [] [] _ _ rfl (.addString _ "ready")))
  have hctr := hstring.step (.engine (.declare [] [] _ rfl "counter"))
  have hctr := hctr.step (.engine (.edit [] [] _ _ rfl (.define _ ⟨1⟩ counter)))
  have hreport := hctr.step (.engine (.declare [] [] _ rfl "report"))
  have hreport := hreport.step (.engine (.edit [] [] _ _ rfl (.define _ ⟨2⟩ report)))
  exact hreport.step (.engine (.build [] [] _ rfl))

/-- A context pauses in the function that counts. -/
def paused : Workspace :=
  ((stocked.ask 1 (.setLineCallback (some { suspendAt := [1] }))).ask 1 (.prepare ⟨2⟩)).ask 1
    (.execute 9)

def harbored : Workspace := { paused with engine := (paused.engine.discard "lib").2 }

theorem paused_attended : paused.Attended 1 := by
  have hcb := stocked_reachable.step
    (.request 1 (.setLineCallback (some { suspendAt := [1] })) (by decide +kernel)
    (by decide +kernel))
  have hprep : Attended 1 _ := .prepared hcb.evolved (r := .prepare ⟨2⟩) trivial (by decide +kernel)
  exact hprep.request (r := .execute 9) trivial (by decide +kernel) (by decide +kernel)

theorem harbored_attended : harbored.Attended 1 := by
  have hturn : paused.Turn harbored := .step (.engine (.discard "lib"))
  refine paused_attended.turn ?_ hturn ?_
  · intro id
    have hctxs := paused.runningIn_add_savedIn_le id
    have hfew : total (fun c => c.2.held.length) paused.contexts < 4294967296 := by decide +kernel
    omega
  · have hcfg := hturn.config
    rw [Session.context, hcfg]
    rfl

theorem harbored_fits : harbored.engine.Fits where
  modules := by decide +kernel
  functions := by decide +kernel
  slots := by decide +kernel

/-- The module is discarded and has no references but those of the context; the function and its
caller are still in it, the variable can be read, and the instruction that pushes it is not bad
code. -/
theorem operands_resolve_harbored : harbored.engine.discarded = [⟨1⟩] ∧
      (harbored.context 1).calls.frames.map Frame.module = [some ⟨1⟩] ∧
      (∃ f, (harbored.context 1).function = some f ∧ f.name = "counter" ∧
        harbored.engine.Houses f (harbored.context 1).module) ∧
      (∃ v, readGlobal 0 (harbored.machine 1) = .ok v (harbored.machine 1)) ∧
      ∀ nested, cause? (exec nested (.pushGlobal 0) (harbored.machine 1)) ≠ some .badCode := by
  have hevolved := harbored_attended.evolved
  obtain ⟨hresolved, -⟩ := operands_resolve hevolved harbored_fits (by decide +kernel)
  have hresolved := hresolved 1 harbored_attended
  have hfunction :
      (harbored.context 1).function.any (fun f => f.name == "counter" && f.kind == .script &&
      f.code.contains (.pushGlobal 0)) = true := by decide +kernel
  obtain ⟨f, hf, hcounter⟩ := (Option.any_eq_true _ _).mp hfunction
  simp only [Bool.and_eq_true, beq_iff_eq, Array.contains_iff_mem] at hcounter
  obtain ⟨⟨hname, hkind⟩, hcode⟩ := hcounter
  obtain ⟨hresolves, hfaults⟩ := hresolved.operands f hf hkind _ hcode (harbored.machine 1) rfl rfl
  obtain ⟨⟨offset, hoffset⟩, -, hread, -⟩ := hresolves.global 0 rfl
  refine ⟨by decide +kernel, by decide +kernel, ⟨f, hf, hname, hresolved.current f hf⟩, hread, ?_⟩
  intro nested hbad
  obtain ⟨g, m', hmodule, -⟩ := bind_ok hoffset
  have hfound : orFail Fault.badCode _ (harbored.machine 1) = .ok g m' := hmodule
  obtain ⟨-, rfl⟩ := orFail_ok hfound
  rcases hfaults nested g hf hmodule (.global rfl) hbad with ⟨v, hv, -⟩ | ⟨words, hwords, -⟩
  · cases hv
  · cases hwords

end Workspace

end ScriptVm
