import ScriptVm.Proofs.Engine.Growth
import ScriptVm.Proofs.Engine.Making

namespace ScriptVm

namespace Engine

variable {e e' : Engine}

/-- The tables agree: functions and modules are where they belong, modules in use have distinct
names, functions of the host can be called, and the next build may begin. -/
structure Registered (e : Engine) : Prop extends Filed e where
  names_once : ((e.live.filterMap e.built?).map Module.name).Nodup
  hosted : ∀ {k f}, e.function? k = some f → f.module = none → (e.host? k).isSome = true
  idle : e.building = false

/-- Ids have not run out of their 32 bits. -/
structure Numbered (e : Engine) : Prop where
  modules : e.modules.size < 4294967296
  functions : e.functions.size ≤ 4294967296

theorem names_eq (e : Engine) (live : List ModuleId) :
    (live.filterMap e.built?).map Module.name = live.filterMap fun id =>
      ((e.built? id).map Module.core).map Module.name := by
  rw [List.map_filterMap]
  congr 1
  funext id
  cases e.built? id <;> rfl

theorem Registered.of_same (h : e.Registered) (hfiled : e'.Filed)
    (hfn : ∀ {k f}, e'.function? k = some f → e.function? k = some f)
    (hcore : ∀ id, (e'.built? id).map Module.core = (e.built? id).map Module.core)
    (hlive : e'.live.Sublist e.live) (hhosts : e'.hosts = e.hosts)
    (hbld : e'.building = e.building) : e'.Registered where
  toFiled := hfiled
  names_once := by
    have hnames := h.names_once
    rw [names_eq] at hnames ⊢
    simp only [hcore]
    exact (hlive.filterMap _).nodup hnames
  hosted hf hmod := by
    rw [host?, hhosts]
    exact h.hosted (hfn hf) hmod
  idle := hbld.trans h.idle

/-- The directory of an engine, its host functions and whether a build goes on. -/
def records (e : Engine) : Directory × List (FunctionId × HostBody) × Bool :=
  (e.directory, e.hosts, e.building)

theorem records_of_roster (h : e'.roster = e.roster) : e'.records = e.records :=
  Prod.ext (directory_of_roster h) (congrArg (fun e => (e.hosts, e.building)) h)

theorem records_of_catalog (h : e'.catalog = e.catalog) : e'.records = e.records :=
  Prod.ext (directory_of_catalog h) (congrArg (fun e => (e.hosts, e.building)) h)

theorem Registered.of_records (h : e.Registered) (hrec : e'.records = e.records) :
    e'.Registered := by
  have hdir : e'.directory = e.directory := congrArg Prod.fst hrec
  have hlive : e'.live = e.live := congrArg Directory.live hdir
  refine h.of_same (h.toFiled.of_directory hdir) ?_ (core_of_directory hdir)
    (hlive ▸ List.Sublist.refl _)
    (congrArg (fun r => r.2.1) hrec) (congrArg (fun r => r.2.2) hrec)
  intro k f hf
  rwa [function?_of_directory hdir] at hf

theorem Registered.beginModule (h : e.Registered) (name : String) :
    (e.beginModule name).2.Registered := by
  have hcore (id : ModuleId) :
      (((e.beginModule name).2).built? id).map Module.core = (e.built? id).map Module.core := by
    rw [built?_beginModule]
  exact h.of_same (h.toFiled.of_same (fun _ => rfl) hcore (.refl _)) id hcore (.refl _) rfl rfl

theorem Registered.reserveFunction (h : e.Registered) : e.reserveFunction.2.Registered := by
  refine h.of_same (h.toFiled.of_same (function?_reserveFunction e) (fun _ => rfl) (.refl _)) ?_
    (fun _ => rfl) (.refl _) rfl rfl
  intro k f hf
  rwa [function?_reserveFunction] at hf

theorem Registered.install (h : e.Registered) {m : Module} (hm : e.Fresh m)
    (hname : e.moduleNamed? m.name = none) : (e.install m).Registered where
  toFiled := h.toFiled.install hm
  names_once := by
    have hold : ∀ id ∈ e.live, (e.install m).built? id = e.built? id := by
      intro id hid
      rw [built?_install hm, if_neg]
      rintro rfl
      obtain ⟨m', hm'⟩ := h.present_built m.id (List.mem_append_left _ hid)
      rw [hm.unbuilt] at hm'
      cases hm'
    have hnew : (e.install m).built? m.id = some m := by rw [built?_install hm, if_pos rfl]
    have hlive : (e.install m).live = e.live ++ [m.id] := rfl
    have hlist :
        (e.install m).live.filterMap (e.install m).built? = e.live.filterMap e.built? ++ [m] := by
      rw [hlive, List.filterMap_append, List.filterMap_congr hold, List.filterMap_cons, hnew]
      rfl
    rw [hlist, List.map_append, List.nodup_append]
    refine ⟨h.names_once, by simp, ?_⟩
    intro name hmem other hother heq
    obtain ⟨m', hm', hname'⟩ := List.mem_map.mp hmem
    have hother : other = m.name := by simpa using hother
    have hfree := List.find?_eq_none.mp hname m' hm'
    rw [hname', heq, hother] at hfree
    simp at hfree
  hosted hf hmod := by
    obtain hold | ⟨hmem, -⟩ := (function?_install hm).mp hf
    · exact h.hosted hold hmod
    · rw [hm.belongs _ hmem] at hmod
      cases hmod
  idle := h.idle

theorem build_installs (e : Engine) (d : Draft) :
    (e.build d).2 = e ∨ ∃ functions, d.functions = .ok functions ∧
      (e.config.verify = true → e.checkModule (d.toModule functions) = .ok ()) ∧
        e.moduleNamed? d.name = none ∧
        (e.build d).2 = e.install (d.toModule functions) := by
  cases hres : (e.build d).1 with
  | error err => exact .inl (build_of_error hres)
  | ok id =>
    obtain ⟨hidle, -, functions, hok, -, hname⟩ := build_eq_ok.mp hres
    rw [build_of_idle hidle] at hres ⊢
    obtain ⟨err, herr⟩ | ⟨functions, hok, hchk, hname, hinst⟩ := finish_cases e d
    · rw [herr] at hres
      cases hres
    · exact .inr ⟨functions, hok, hchk, hname, by rw [hinst]⟩

theorem Registered.build (h : e.Registered) {drafts : List Draft}
    (hdr : e.Drafting drafts) {d : Draft} (hd : d ∈ drafts) : (e.build d).2.Registered := by
  obtain heq | ⟨functions, hok, -, hname, heq⟩ := build_installs e d
  · rw [heq]
    exact h
  · rw [heq]
    exact h.install (hdr.fresh hd hok) hname

theorem host?_registerHost {f : Func} {body : HostBody} {k : FunctionId}
    (h : (e.host? k).isSome = true) : (e.registerHost f body).2.host? k = e.host? k := by
  unfold host? at h ⊢
  simp only [registerHost, List.find?_append]
  cases hfind : e.hosts.find? fun p => p.1 == k with
  | none =>
    rw [hfind] at h
    cases h
  | some p => rfl

theorem Registered.registerHost (h : e.Registered) (f : Func) (body : HostBody)
    (hfits : (e.registerHost f body).2.functions.size ≤ 4294967296) :
    (e.registerHost f body).2.Registered where
  toFiled := h.toFiled.registerHost f body hfits
  names_once := h.names_once
  hosted {k g} hg hmod := by
    have hsize : (e.registerHost f body).2.functions.size = e.functions.size + 1 := Array.size_push _
    obtain hold | ⟨hk, -⟩ := (function?_registerHost f body).mp hg
    · have hhost := h.hosted hold hmod
      rw [host?_registerHost hhost]
      exact hhost
    · have hid : (e.registerHost f body).1 = k :=
        function_index_inj ((next_function_toNat (by omega)).trans hk.symm)
      rw [← hid]
      simp [host?, Engine.registerHost]
  idle := h.idle

theorem hosts_collect (e : Engine) :
    (e.collect.2.hosts, e.collect.2.building) = (e.hosts, e.building) := by
  have hdest :=
    congrArg (fun e => (e.hosts, e.building)) (hollow_destroyAll e.doomed e.doomedUnbound)
  exact hdest.trans (congrArg (fun e => (e.hosts, e.building)) (roster_doomedUnbound e))

theorem Registered.collect (h : e.Registered) : e.collect.2.Registered := by
  have hlive : e.collect.2.live = e.live := congrArg Prod.fst (lists_collect e)
  refine h.of_same h.toFiled.collect ?_ (built?_collect e) (hlive ▸ List.Sublist.refl _)
    (congrArg Prod.fst (hosts_collect e))
    (congrArg Prod.snd (hosts_collect e))
  intro k f hf
  exact (h.toFiled.function?_collect_iff.mp hf).1

theorem lists_retire (e : Engine) (id : ModuleId) :
    (e.retire id).live = e.live.erase id ∧ (e.retire id).hosts = e.hosts ∧
      (e.retire id).building = e.building := by
  rw [retire, changeModule_eq]
  exact ⟨rfl, rfl, rfl⟩

theorem function?_retire (e : Engine) (id : ModuleId) (k : FunctionId) :
    (e.retire id).function? k = e.function? k :=
  function?_changeModule _ id _ k

theorem Registered.retire (h : e.Registered) {id : ModuleId} (hid : id ∈ e.live) :
    (e.retire id).Registered := by
  obtain ⟨hlive, hhosts, hbld⟩ := lists_retire e id
  have hcore := built?_of_map Module.core (map_retire Module.core (fun _ => rfl) e id)
  refine h.of_same
    (h.toFiled.of_same (function?_retire e id) hcore (present_retire hid)) ?_ hcore ?_ hhosts hbld
  · intro k f hf
    rwa [function?_retire] at hf
  · rw [hlive]
    exact List.erase_sublist

theorem Registered.discard (h : e.Registered) (name : String) : (e.discard name).2.Registered := by
  cases hm : e.moduleNamed? name with
  | none =>
    rw [Engine.discard, hm]
    exact h
  | some m =>
    rw [discard_eq hm]
    exact (h.retire (mem_live_of_moduleNamed? h.toFiled hm)).collect

end Engine

end ScriptVm
