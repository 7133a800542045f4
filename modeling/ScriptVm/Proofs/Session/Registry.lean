import ScriptVm.Proofs.Session.Workspace
import Mathlib.Logic.Relation

namespace ScriptVm

def Draft.ids (d : Draft) : List FunctionId := d.declared.toList.map Prod.fst

theorem Draft.mem_ids {d : Draft} {k : FunctionId} : k ∈ d.ids ↔ ∃ p ∈ d.declared, p.1 = k := by
  simp only [ids, List.mem_map, Array.mem_toList_iff]

namespace Engine

variable {e e' : Engine} {drafts drafts' : List Draft} {d : Draft}

theorem Effect.registered (heffect : e.Effect drafts e' drafts') (h : e.Registered)
    (hdr : e.Drafting drafts) (hnum : e'.Numbered) : e'.Registered := by
  cases heffect with
  | quiet hrec => exact h.of_records hrec
  | edit => exact h
  | registerHost f body => exact h.registerHost f body hnum.functions
  | beginModule name => exact h.beginModule name
  | declare before after d hd name => exact h.reserveFunction
  | build before after d hd =>
    apply h.build hdr
    rw [hd]
    simp
  | discard name => exact h.discard name
  | collect => exact h.collect

/-- What an id that was given stands for later: the function that it stood for, or the one it was
declared for. Functions of the host stay. -/
structure Succeeds (e : Engine) (drafts : List Draft) (e' : Engine)
    (drafts' : List Draft) : Prop where
  size : e.functions.size ≤ e'.functions.size
  function : ∀ {k f}, k.val.toNat < e.functions.size → e'.function? k = some f →
    e.function? k = some f ∨ ∃ d ∈ drafts, k ∈ d.ids ∧ f.module = some d.id
  draft : ∀ {d' k}, k.val.toNat < e.functions.size → d' ∈ drafts' → k ∈ d'.ids →
    ∃ d ∈ drafts, k ∈ d.ids ∧ d'.id = d.id
  host : ∀ {k f}, e.function? k = some f → f.module = none → e'.function? k = some f ∧
    e'.host? k = e.host? k

theorem Succeeds.trans {e1 e2 e3 : Engine} {drafts1 drafts2 drafts3 : List Draft}
    (h1 : e1.Succeeds drafts1 e2 drafts2) (h2 : e2.Succeeds drafts2 e3 drafts3) :
    e1.Succeeds drafts1 e3 drafts3 where
  size := Nat.le_trans h1.size h2.size
  function {k f} hk hf := by
    rcases h2.function (Nat.lt_of_lt_of_le hk h1.size) hf with hf | ⟨d, hd, hmem, hmod⟩
    · exact h1.function hk hf
    · obtain ⟨d1, hd1, hmem1, hid⟩ := h1.draft hk hd hmem
      exact .inr ⟨d1, hd1, hmem1, by rw [hmod, hid]⟩
  draft {d k} hk hd hmem := by
    obtain ⟨d2, hd2, hmem2, hid2⟩ := h2.draft (Nat.lt_of_lt_of_le hk h1.size) hd hmem
    obtain ⟨d1, hd1, hmem1, hid1⟩ := h1.draft hk hd2 hmem2
    exact ⟨d1, hd1, hmem1, hid2.trans hid1⟩
  host {k f} hf hmod := by
    obtain ⟨hf2, hhost2⟩ := h1.host hf hmod
    obtain ⟨hf3, hhost3⟩ := h2.host hf2 hmod
    exact ⟨hf3, hhost3.trans hhost2⟩

theorem draft_of_mark (h : ∀ p ∈ drafts'.map (fun d => (d.id, d.ids)),
      p ∈ drafts.map fun d => (d.id, d.ids)) {d' : Draft}
    {k : FunctionId} (hd' : d' ∈ drafts') (hk : k ∈ d'.ids) :
      ∃ d ∈ drafts, k ∈ d.ids ∧ d'.id = d.id := by
  obtain ⟨d, hd, heq⟩ := List.mem_map.mp (h _ (List.mem_map_of_mem hd'))
  obtain ⟨hid, hids⟩ := Prod.mk.inj heq
  exact ⟨d, hd, hids ▸ hk, hid.symm⟩

theorem Succeeds.of_less (hsize : e.functions.size ≤ e'.functions.size)
    (hfn : ∀ {k f}, e'.function? k = some f → e.function? k = some f)
    (hdrs : ∀ p ∈ drafts'.map (fun d => (d.id, d.ids)), p ∈ drafts.map fun d => (d.id, d.ids))
    (hhost : ∀ {k f}, e.function? k = some f → f.module = none → e'.function? k = some f)
      (hhosts : e'.hosts = e.hosts) :
    e.Succeeds drafts e' drafts' where
  size := hsize
  function _ hf := .inl (hfn hf)
  draft _ hd' hk := draft_of_mark hdrs hd' hk
  host hf hmod := ⟨hhost hf hmod, by rw [host?, host?, hhosts]⟩

theorem Succeeds.refl (e : Engine) (drafts : List Draft) : e.Succeeds drafts e drafts :=
  .of_less (Nat.le_refl _) id (fun _ => id) (fun hf _ => hf) rfl

theorem Succeeds.of_records (h : e'.records = e.records) (drafts : List Draft) :
    e.Succeeds drafts e' drafts := by
  have hdir : e'.directory = e.directory := congrArg Prod.fst h
  have hfns : e'.functions = e.functions := congrArg Directory.functions hdir
  have hsame := function?_of_directory hdir
  refine .of_less (Nat.le_of_eq (by rw [hfns])) ?_ (fun _ => id) ?_ (congrArg (fun r => r.2.1) h)
  · intro k f hf
    rwa [hsame] at hf
  · intro k f hf _
    rwa [hsame]

theorem succeeds_collect (h : e.Filed) (drafts : List Draft) :
    e.Succeeds drafts e.collect.2 drafts := by
  refine .of_less (tended_collect e).functions (fun hf => (h.function?_collect_iff.mp hf).1)
    (fun _ => id) ?_
    (congrArg Prod.fst (hosts_collect e))
  intro k f hf hmod
  refine h.function?_collect_iff.mpr ⟨hf, ?_⟩
  intro d _ hd
  rw [hmod] at hd
  cases hd

theorem succeeds_discard (h : e.Registered) (drafts : List Draft) (name : String) :
    e.Succeeds drafts (e.discard name).2 drafts := by
  cases hm : e.moduleNamed? name with
  | none =>
    rw [Engine.discard, hm]
    exact .refl e drafts
  | some m =>
    have hretired := h.retire (mem_live_of_moduleNamed? h.toFiled hm)
    rw [discard_eq hm]
    refine Succeeds.trans ?_ (succeeds_collect hretired.toFiled drafts)
    refine .of_less (Nat.le_of_eq (by rw [functions_retire])) ?_ (fun _ => id) ?_
      (lists_retire e m.id).2.1
    · intro k f hf
      rwa [function?_retire] at hf
    · intro k f hf _
      rwa [function?_retire]

theorem succeeds_registerHost (h : e.Registered) (drafts : List Draft) (f : Func) (body : HostBody) :
    e.Succeeds drafts (e.registerHost f body).2 drafts where
  size := (tended_registerHost e f body).functions
  function {k g} hk hg := by
    rcases (function?_registerHost f body).mp hg with hold | ⟨hnew, -⟩
    · exact .inl hold
    · omega
  draft _ hd hmem := ⟨_, hd, hmem, rfl⟩
  host {k g} hg hmod :=
    ⟨(function?_registerHost f body).mpr (.inl hg), host?_registerHost (h.hosted hg hmod)⟩

theorem succeeds_declare {before after : List Draft} (name : String)
    (hfits : (e.declare d name).2.1.functions.size ≤ 4294967296) :
    e.Succeeds (before ++ d :: after) (e.declare d name).2.1
      (before ++ (e.declare d name).2.2 :: after) where
  size := (tended_declare e d name).functions
  function {k f} _ hf := by
    have hf : e.reserveFunction.2.function? k = some f := hf
    rw [function?_reserveFunction] at hf
    exact .inl hf
  draft {d' k} hk hd' hmem := by
    have hsize : (e.declare d name).2.1.functions.size = e.functions.size + 1 := Array.size_push _
    have hid : (e.declare d name).1.val.toNat = e.functions.size := next_function_toNat (by omega)
    rcases List.mem_append.mp hd' with hd' | hd'
    · exact ⟨d', List.mem_append_left _ hd', hmem, rfl⟩
    rcases List.mem_cons.mp hd' with rfl | hd'
    · refine ⟨d, by simp, ?_, rfl⟩
      obtain ⟨p, hp, rfl⟩ := Draft.mem_ids.mp hmem
      rcases Array.mem_push.mp hp with hp | rfl
      · exact Draft.mem_ids.mpr ⟨p, hp, rfl⟩
      · have hbelow : (e.declare d name).1.val.toNat < e.functions.size := hk
        omega
    · exact ⟨d', List.mem_append_right _ (List.mem_cons_of_mem _ hd'), hmem, rfl⟩
  host {k f} hf _ := by
    refine ⟨?_, rfl⟩
    show e.reserveFunction.2.function? k = some f
    rw [function?_reserveFunction, hf]

theorem succeeds_build {before after : List Draft} (hdr : e.Drafting (before ++ d :: after)) :
    e.Succeeds (before ++ d :: after) (e.build d).2 (before ++ after) := by
  have hd : d ∈ before ++ d :: after := by simp
  have hsub : ∀ x ∈ before ++ after, x ∈ before ++ d :: after := by
    intro x hx
    rcases List.mem_append.mp hx with hx | hx
    · exact List.mem_append_left _ hx
    · exact List.mem_append_right _ (List.mem_cons_of_mem _ hx)
  obtain heq | ⟨functions, hok, -, -, heq⟩ := build_installs e d
  · rw [heq]
    exact .of_less (Nat.le_refl _) id (fun p hp => List.map_subset _ hsub hp) (fun hf _ => hf) rfl
  · have hfresh := hdr.fresh hd hok
    obtain ⟨hids, hmod⟩ := (hdr.is_open d hd).functions_ok hok
    rw [heq]
    refine ⟨(tended_install hfresh rfl).functions, ?_,
      fun _ hx hmem => ⟨_, hsub _ hx, hmem, rfl⟩, ?_⟩
    · intro k f _ hf
      rcases (function?_install hfresh).mp hf with hold | ⟨hmem, rfl⟩
      · exact .inl hold
      · refine .inr ⟨d, hd, ?_, hmod f hmem⟩
        rw [Draft.ids, ← hids]
        exact List.mem_map_of_mem (Array.mem_toList_iff.mpr hmem)
    · intro k f hf _
      exact ⟨(function?_install hfresh).mpr (.inl hf), rfl⟩

theorem Effect.succeeds (heffect : e.Effect drafts e' drafts') (h : e.Registered)
    (hdr : e.Drafting drafts) (hnum : e'.Numbered) : e.Succeeds drafts e' drafts' := by
  cases heffect with
  | quiet hrec => exact .of_records hrec drafts
  | edit before after d d' hd hedit =>
    refine .of_less (Nat.le_refl _) id (fun p hp => ?_) (fun hf _ => hf) rfl
    rw [List.map_append, List.map_cons, hedit.id_eq, Draft.ids, hedit.declared_eq] at hp
    rwa [hd, List.map_append]
  | registerHost f body => exact succeeds_registerHost h drafts f body
  | beginModule name =>
    refine { Succeeds.refl e drafts with draft := ?_ }
    intro d' k hk hd' hmem
    rcases List.mem_cons.mp hd' with rfl | hd'
    · cases hmem
    · exact ⟨d', hd', hmem, rfl⟩
  | declare before after d hd name =>
    subst hd
    exact succeeds_declare name hnum.functions
  | build before after d hd =>
    subst hd
    exact succeeds_build hdr
  | discard name => exact succeeds_discard h drafts name
  | collect => exact succeeds_collect h.toFiled drafts

/-- A module is made and its build fails, or an image is refused. -/
inductive Fails (e : Engine) : Engine → Prop where
  | build {e' : Engine} {d : Draft} {err : ModuleError} (hmaking : e.Making e' d)
      (h : (e'.build d).1 = .error err) : Fails e (e'.build d).2
  | image {i : Image} {stop : Stop ImageError} {e' : Engine} (h : Load.image i e = .error stop e') :
    Fails e e'

theorem Fails.untouched (h : e.Fails e') : e.Untouched e' := by
  cases h with
  | build hmaking herr =>
    rw [build_of_error herr]
    exact hmaking.untouched
  | image himage => exact Load.image_untouched himage

theorem build_begun (hidle : e.building = false) {name : String}
    (hname : e.moduleNamed? name = none) :
    ((e.beginModule name).2.build (e.beginModule name).1).1 = .ok (e.beginModule name).1.id := by
  have hnone : (e.beginModule name).1.functions = .ok #[] := by
    simp only [Draft.functions, beginModule, Array.mapM_empty]
    rfl
  have hsame := (untouched_beginModule e name).moduleNamed? name
  refine build_eq_ok.mpr ⟨hidle, rfl, #[], hnone, fun _ => rfl, ?_⟩
  exact hsame.trans hname

def Operations (a b : Engine × List Draft) : Prop :=
  Relation.ReflTransGen (fun a b => a.1.Operation a.2 b.1 b.2) a b

theorem Operations.sizes {a b : Engine × List Draft} (h : Operations a b) :
    a.1.modules.size ≤ b.1.modules.size ∧ a.1.functions.size ≤ b.1.functions.size := by
  induction h with
  | refl => exact ⟨Nat.le_refl _, Nat.le_refl _⟩
  | tail _ hop ih => exact ⟨Nat.le_trans ih.1 hop.sizes.1, Nat.le_trans ih.2 hop.sizes.2⟩

theorem Numbered.of_sizes (h : e'.Numbered)
    (hsizes : e.modules.size ≤ e'.modules.size ∧ e.functions.size ≤ e'.functions.size) :
    e.Numbered where
  modules := Nat.lt_of_le_of_lt hsizes.1 h.modules
  functions := Nat.le_trans hsizes.2 h.functions

/-- The tables are sound and drafts have ids of their own. -/
def Kept (a : Engine × List Draft) : Prop := a.1.Registered ∧ a.1.Drafting a.2

theorem Operations.kept {a b : Engine × List Draft} (h : Operations a b) (hkept : Kept a)
    (hnum : b.1.Numbered) : Kept b ∧ a.1.Succeeds a.2 b.1 b.2 := by
  induction h with
  | refl => exact ⟨hkept, .refl a.1 a.2⟩
  | tail _ hop ih =>
    obtain ⟨⟨hreg, hdr⟩, hsucc⟩ := ih (hnum.of_sizes hop.sizes)
    refine ⟨⟨?_, ?_⟩, ?_⟩
    · exact hop.effect.registered hreg hdr hnum
    · exact hop.drafting hdr hnum.modules hnum.functions
    · exact hsucc.trans (hop.effect.succeeds hreg hdr hnum)

theorem Typing.operations (h : e.Typing e') (drafts : List Draft) :
    Operations (e, drafts) (e', drafts) := by
  induction h with
  | refl => exact .refl
  | register _ type ih => exact ih.tail (.registerType type)

theorem Making.operations (h : e.Making e' d) (drafts : List Draft) :
    Operations (e, drafts) (e', d :: drafts) := by
  induction h with
  | begun name => exact .single (.beginModule name)
  | @declared _ d _ name ih => exact ih.tail (.declare [] drafts d rfl name)
  | @edited _ d d' _ hedit ih => exact ih.tail (.edit [] drafts d d' rfl hedit)

/-- Loading an image is a series of operations, after which a module in the making may be left
over. -/
theorem operations_of_image {i : Image} (drafts : List Draft) :
    Load.Ends (fun _ e' => Operations (e, drafts) (e', drafts))
      (fun e' => Operations (e, drafts) (e', drafts) ∨ ∃ d,
        Operations (e, drafts) (e', d :: drafts)) (Load.image i e) := by
  refine Load.ends_mono (Load.image_ends i e) ?_ ?_
  · rintro id e' ⟨e1, e2, d, htyping, hmaking, hbuild⟩
    have hmade := (htyping.operations drafts).trans (hmaking.operations drafts)
    have hbuilt : Operations (e, drafts) ((e2.build d).2, drafts) :=
      hmade.tail (.build [] drafts d rfl)
    rw [hbuild] at hbuilt
    exact hbuilt
  · rintro e' (htyping | ⟨e1, d, htyping, hmaking⟩)
    · exact .inl (htyping.operations drafts)
    · exact .inr ⟨d, (htyping.operations drafts).trans (hmaking.operations drafts)⟩

end Engine

namespace Workspace

open Engine

variable {w w' : Workspace}

/-- A step of a session, or an image that is loaded or refused. -/
inductive Turn (w : Workspace) : Workspace → Prop where
  | step {w' : Workspace} (h : w.Step w') : Turn w w'
  | loaded {i : Image} {id : ModuleId} {e : Engine} (h : Load.image i w.engine = .ok id e) :
    Turn w { w with engine := e }
  | refused {i : Image} {stop : Stop ImageError} {e : Engine}
      (h : Load.image i w.engine = .error stop e) : Turn w { w with engine := e }

/-- What a session can come to from a state. -/
def Later : Workspace → Workspace → Prop := Relation.ReflTransGen Turn

/-- The states that a session can come to when modules are built by hand and from images. -/
def Evolved (w : Workspace) : Prop := ∃ config, Later { engine := { config } } w

/-- A turn concerns a context, or it is a series of operations on the engine after which drafts may
be given up. -/
theorem Turn.parts (h : w.Turn w') :
    (∃ number r, (w.toSession.inContext number (Request.perform r)).1 ≠ .error .overflow ∧
      (w.toSession.inContext number (Request.perform r)).1 ≠ .error .outOfFuel ∧ w' = w.ask number r) ∨
      (∃ number, w' = { w with toSession := (w.toSession.dropContext number).2 }) ∨
      w'.contexts = w.contexts ∧ ∃ drafts, Operations (w.engine, w.drafts) (w'.engine, drafts) ∧
        w'.drafts.Sublist drafts := by
  cases h with
  | step hstep =>
    cases hstep with
    | engine hop => exact .inr (.inr ⟨rfl, _, .single hop, .refl _⟩)
    | request number r hword hfuel => exact .inl ⟨number, r, hword, hfuel, rfl⟩
    | dropContext number => exact .inr (.inl ⟨number, rfl⟩)
  | @loaded i id e himage =>
    have hends := operations_of_image (i := i) (e := w.engine) w.drafts
    rw [himage] at hends
    cases hends with
    | ok hops => exact .inr (.inr ⟨rfl, _, hops, .refl _⟩)
  | @refused i stop e himage =>
    have hends := operations_of_image (i := i) (e := w.engine) w.drafts
    rw [himage] at hends
    cases hends with
    | error hfailed =>
      obtain hops | ⟨d, hops⟩ := hfailed
      · exact .inr (.inr ⟨rfl, _, hops, .refl _⟩)
      · exact .inr (.inr ⟨rfl, _, hops, List.sublist_cons_self _ _⟩)

theorem Turn.operations (h : w.Turn w') :
    w'.engine.catalog = w.engine.catalog ∧ w'.drafts = w.drafts ∨
      ∃ drafts, Operations (w.engine, w.drafts) (w'.engine, drafts) ∧ w'.drafts.Sublist drafts := by
  rcases h.parts with ⟨number, r, -, -, rfl⟩ | ⟨number, rfl⟩ | ⟨-, hops⟩
  · exact .inl ⟨w.toSession.catalog_inContext number r.perform, rfl⟩
  · exact .inl ⟨w.toSession.catalog_dropContext number, rfl⟩
  · exact .inr hops

theorem Turn.sizes (h : w.Turn w') : w.engine.modules.size ≤ w'.engine.modules.size ∧
      w.engine.functions.size ≤ w'.engine.functions.size := by
  rcases h.operations with ⟨hcat, -⟩ | ⟨drafts, hops, -⟩
  · have hgrown := grown_of_catalog hcat
    exact ⟨hgrown.modules, hgrown.functions⟩
  · exact hops.sizes

theorem Turn.kept (h : w.Turn w') (hkept : Kept (w.engine, w.drafts)) (hnum : w'.engine.Numbered) :
    Kept (w'.engine, w'.drafts) ∧ w.engine.Succeeds w.drafts w'.engine w'.drafts := by
  rcases h.operations with ⟨hcat, hdrs⟩ | ⟨drafts, hops, hsub⟩
  · obtain ⟨hreg, hdr⟩ := hkept
    have hrec := records_of_catalog hcat
    rw [hdrs]
    exact ⟨⟨hreg.of_records hrec, hdr.of_directory (congrArg Prod.fst hrec)⟩,
      .of_records hrec w.drafts⟩
  · obtain ⟨⟨hreg, hdr⟩, hsucc⟩ := hops.kept hkept hnum
    refine ⟨⟨hreg, hdr.sublist hsub⟩, { hsucc with draft := ?_ }⟩
    intro d k hk hd hmem
    exact hsucc.draft hk (hsub.subset hd) hmem

theorem Later.kept (h : w.Later w') (hkept : Kept (w.engine, w.drafts)) (hnum : w'.engine.Numbered) :
    Kept (w'.engine, w'.drafts) ∧ w.engine.Succeeds w.drafts w'.engine w'.drafts := by
  induction h with
  | refl => exact ⟨hkept, .refl _ _⟩
  | tail _ hturn ih =>
    obtain ⟨hbef, hsucc⟩ := ih (hnum.of_sizes hturn.sizes)
    obtain ⟨hafter, hlast⟩ := hturn.kept hbef hnum
    exact ⟨hafter, hsucc.trans hlast⟩

theorem Evolved.kept (h : w.Evolved) (hnum : w.engine.Numbered) : Kept (w.engine, w.drafts) := by
  obtain ⟨config, hlater⟩ := h
  have hnew : Engine.Registered { config } :=
    { toFiled := (linked_new config).toFiled
      names_once := List.nodup_nil
      hosted := fun hf => by rw [function?_new] at hf; cases hf
      idle := rfl }
  exact (hlater.kept ⟨hnew, drafting_nil _⟩ hnum).1

/-- At any time the names of the modules in use are distinct, every function is in the place of its
id, and functions of the host can be called. Ids that were given keep their meaning ever after and
are not given again. A build or an image that fails leaves functions, modules, bindings, globals and
objects as they are, and what could be built before can be built after it. -/
theorem registry_atomic {w : Workspace} (h : w.Evolved) (hnumbered : w.engine.Numbered) :
    w.engine.Registered ∧ w.engine.Drafting w.drafts ∧
      (∀ w', w.Later w' → w'.engine.Numbered →
        w.engine.Succeeds w.drafts w'.engine w'.drafts ∧
          ∀ k : FunctionId, k.val.toNat < w.engine.functions.size →
            w'.engine.functions.size < 4294967296 →
            ∀ d name f body,
              (w'.engine.declare d name).1 ≠ k ∧ (w'.engine.registerHost f body).1 ≠ k) ∧
      (∀ d err, (w.engine.build d).1 = .error err → (w.engine.build d).2 = w.engine) ∧
      ∀ e, w.engine.Fails e →
        w.engine.Untouched e ∧ (∀ d id, (w.engine.build d).1 = .ok id → (e.build d).1 = .ok id) ∧
          ∀ name, w.engine.moduleNamed? name = none →
            ((e.beginModule name).2.build (e.beginModule name).1).1 =
              .ok (e.beginModule name).1.id := by
  have hkept := h.kept hnumbered
  refine ⟨hkept.1, hkept.2, ?_, ?_, ?_⟩
  · intro w' hlater hnumbered'
    have hsucceeds := (hlater.kept hkept hnumbered').2
    refine ⟨hsucceeds, ?_⟩
    intro k hk hroom d name f body
    have hne : (⟨w'.engine.functions.size.toUInt32⟩ : FunctionId) ≠ k := by
      rintro rfl
      rw [next_function_toNat hroom] at hk
      exact Nat.not_lt_of_le hsucceeds.size hk
    exact ⟨hne, hne⟩
  · intro d err
    exact build_of_error
  · intro e hfails
    have huntouched := hfails.untouched
    refine ⟨huntouched, ?_, ?_⟩
    · intro d id
      exact huntouched.build
    · intro name hname
      apply build_begun
      · exact huntouched.building.trans hkept.1.idle
      · exact (huntouched.moduleNamed? name).trans hname

theorem Reachable.evolved (h : w.Reachable) : w.Evolved := by
  induction h with
  | new config => exact ⟨config, .refl⟩
  | step _ hstep ih =>
    obtain ⟨config, hlater⟩ := ih
    exact ⟨config, hlater.tail (.step hstep)⟩

/-- The host has registered a function, and of two modules with one name the second was refused. -/
def crowded : Workspace :=
  (load { engine := (Engine.registerHost {} { name := "print" } (.done none)).2 } "lib" []
    [leaf]).load "lib" [] [leaf]

theorem crowded_reachable : crowded.Reachable := by
  have hhost := (Reachable.new {}).step (.engine (.registerHost { name := "print" } (.done none)))
  exact (hhost.load "lib" [] [leaf]).load "lib" [] [leaf]

/-- An image whose code calls a function that it does not have. -/
def torn : Image := { name := "app", functions := [{ name := "main", code := [.call ⟨9⟩, .ret 0] }] }

theorem registry_atomic_crowded :
    crowded.engine.Registered ∧ crowded.engine.live = [⟨1⟩] ∧ crowded.engine.functions.size = 4 ∧
      ∃ e, Load.image torn crowded.engine = .error (.cause (.badIndex "function" 9)) e ∧
        crowded.engine.Untouched e := by
  have hnumbered : crowded.engine.Numbered := ⟨by decide +kernel, by decide +kernel⟩
  obtain ⟨hregistered, -, -, -, hfails⟩ := registry_atomic crowded_reachable.evolved hnumbered
  obtain ⟨e, htorn⟩ :
      ∃ e, Load.image torn crowded.engine = .error (.cause (.badIndex "function" 9)) e := ⟨_, rfl⟩
  obtain ⟨huntouched, -, -⟩ := hfails e (.image htorn)
  exact ⟨hregistered, by decide +kernel, by decide +kernel, e, htorn, huntouched⟩

end Workspace

end ScriptVm
