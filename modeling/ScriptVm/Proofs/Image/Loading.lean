import ScriptVm.Proofs.Image.Relocation

namespace ScriptVm

namespace Image

/-- A type of the name is in the engine or comes with the image. -/
def knows (i : Image) (e : Engine) (name : String) : Bool :=
  (e.types.find? name).isSome || i.types.any fun t => t.name == name

/-- A declaration whose types are known. It makes no difference which ids they have. -/
def reads (i : Image) (e : Engine) (decl : String) : Bool :=
  (DataType.read? (fun name => if i.knows e name then some ⟨0⟩ else none) decl).isSome

/-- The names in an image are those of known types and of host functions. -/
structure Resolves (i : Image) (e : Engine) : Prop where
  hosts : ∀ name ∈ i.hostFunctions, (e.hostNamed? name).isSome
  heads : ∀ decl ∈ i.headDecls, i.reads e decl
  decls : ∀ f ∈ i.bodies, ∀ decl ∈ f.decls, i.reads e decl
  owners : ∀ f ∈ i.bodies, ∀ name ∈ f.methodOf, i.knows e name

/-- The sizes of types and stacks are in the 32-bit range. -/
structure SizesFit (i : Image) : Prop where
  types : ∀ t ∈ i.types, t.Fits
  functions : ∀ f ∈ i.bodies, f.Fits

/-- All indices are inside the lists of the image. -/
def inRange (i : Image) : Bool := i.bodies.all i.coversFunc

end Image

theorem DataType.read?_isSome {resolve resolve' : String → Option TypeId}
    (h : ∀ name, (resolve name).isSome → (resolve' name).isSome)
    {decl : String} (hread : (read? resolve decl).isSome) : (read? resolve' decl).isSome := by
  unfold read? ofName? at hread ⊢
  simp only at hread ⊢
  generalize String.ofList _ = name at hread ⊢
  cases hkw : Primitive.ofKeyword? name with
  | some p =>
    simp only [hkw] at hread ⊢
    exact hread
  | none =>
    simp only [hkw, Option.isSome_map] at hread ⊢
    exact h name hread

namespace Load

variable {i : Image} {e : Engine} {ids : List TypeId} {types : Registry}

variable (htypes : List.Forall₂ (fun t id => types.find? t.name = some id) i.types ids)
include htypes

theorem find?_of_knows (hext : e.types.Extends types) {name : String} (h : i.knows e name = true) :
    (types.find? name).isSome := by
  simp only [Image.knows, Bool.or_eq_true, List.any_eq_true, beq_iff_eq] at h
  obtain hold | ⟨t, ht, rfl⟩ := h
  · obtain ⟨id, hid⟩ := Option.isSome_iff_exists.mp hold
    simp [hext name id hid]
  · have hfd : ∀ t ∈ i.types, (types.find? t.name).isSome := by
      refine ((List.forall₂_and_left _ _).mp (htypes.imp fun t id hid => ⟨?_, hid⟩)).1
      simp [hid]
    exact hfd t ht

theorem readType?_of_reads
    (hext : e.types.Extends types) {decl : String} (h : i.reads e decl = true) :
    (types.readType? decl).isSome := by
  refine DataType.read?_isSome (fun name hname => find?_of_knows htypes hext ?_) h
  split at hname
  · assumption
  · cases hname

theorem reads_of_resolves
    (hext : e.types.Extends types) (h : i.Resolves e) {f : FuncImage} (hf : f ∈ i.bodies) :
    f.Reads types where
  decls decl hdecl := readType?_of_reads htypes hext (h.decls f hf decl hdecl)
  owner name hname := find?_of_knows htypes hext (h.owners f hf name hname)

end Load

theorem Draft.functions_found {d : Draft} {functions : Array Func}
    (h : d.functions = .ok functions) : functions.toList.map some =
      (d.declared.toList.map Prod.fst).map fun id =>
        (d.defined.find? fun p => p.1 == id).map Prod.snd := by
  rw [List.map_map]
  exact map_functions h fun p q hq => by simp [hq]

theorem Engine.hostNamed?_some {e : Engine} {name : String} {id : FunctionId}
    (h : e.hostNamed? name = some id) : e.HostNamed name id := by
  obtain ⟨host, hhost, rfl⟩ := Option.map_eq_some_iff.mp h
  have hname := List.find?_some hhost
  obtain ⟨f, hf, hf'⟩ := (Option.any_eq_true _ _).mp hname
  exact ⟨⟨host.2, List.mem_of_find?_eq_some hhost⟩, f, hf, by simpa using hf'⟩

theorem forall₂_getElem? {α β : Type} {R : α → β → Prop} {l : List α} {l' : List β}
    (h : List.Forall₂ R l l') {k : Nat} {b : β} (hb : l'[k]? = some b) :
    ∃ a, l[k]? = some a ∧ R a b := by
  obtain ⟨hlt, rfl⟩ := List.getElem?_eq_some_iff.mp hb
  have hlt' : k < l.length := h.length_eq ▸ hlt
  exact ⟨l[k], List.getElem?_eq_getElem hlt', h.get hlt' hlt⟩

namespace Load

variable {r : Registry} {i : Image} {e : Engine}

section Installed

variable {i : Image} {e e' : Engine} {ids : List TypeId} {hosts : List FunctionId}
    {n : Image.Names} {d : Draft}
variable {functions : Array Func}

theorem Outlined.sized (h : Outlined i ids hosts n d) (htypes : i.types.length = ids.length)
    (hhosts : i.hostFunctions.length = hosts.length) : n.Sized i where
  types := by simp [h.types_eq, htypes]
  hosts := by simp [h.hosts_eq, hhosts]
  functions := h.functions_size
  strings := h.strings.size_eq
  imports := h.imports_eq

/-- When the module of an image is put into use, the tables of its loader are right. -/
theorem Drafted.faithful (h : Drafted i ids hosts e.types n d)
    (hfits : i.imports.length < 1073741824)
    (htypes : List.Forall₂ (fun t id => e.types.find? t.name = some id) i.types ids)
    (hhosts : List.Forall₂ (fun name id => e.hostNamed? name = some id) i.hostFunctions hosts)
    (hmade : e.Making e' d) (htypes' : e'.types = e.types) (hdr : e'.Drafting [d])
      (hok : d.functions = .ok functions) :
    n.Faithful i (e'.install (d.toModule functions)) (d.toModule functions) where
  types k id hid := by
    rw [h.types_eq, List.getElem?_toArray] at hid
    obtain ⟨t, ht, hfd⟩ := forall₂_getElem? htypes hid
    exact ⟨t, ht, by rw [← hfd, ← htypes']; rfl⟩
  hosts k id hid := by
    rw [h.hosts_eq, List.getElem?_toArray] at hid
    obtain ⟨name, hname, hfd⟩ := forall₂_getElem? hhosts hid
    obtain ⟨⟨body, hmem⟩, f, hf, hfname⟩ := Engine.hostNamed?_some hfd
    have hfresh := hdr.fresh List.mem_cons_self hok
    refine ⟨name, hname, ⟨body, ?_⟩, f, (Engine.function?_install hfresh).mpr (.inl ?_), hfname⟩
    · show (id, body) ∈ e'.hosts
      rwa [hmade.untouched.hosts]
    · rwa [hmade.untouched.functions]
  functions k id hid := by
    have hfresh := hdr.fresh List.mem_cons_self hok
    have hids := ((hdr.is_open d List.mem_cons_self).functions_ok hok).1
    rw [h.declared] at hids
    have hpl : functions[k]?.map Func.id = some id := by
      rw [← hid, ← Array.getElem?_toList, ← Array.getElem?_toList, ← hids, List.getElem?_map]
    obtain ⟨g, hg, rfl⟩ := Option.map_eq_some_iff.mp hpl
    exact ⟨g, hg, rfl, (Engine.function?_install hfresh).mpr (.inr ⟨Array.mem_of_getElem? hg, rfl⟩)⟩
  strings k j hk hj := by
    have hlt : k < i.strings.length := h.strings.size_eq ▸ (Array.getElem?_eq_some_iff.mp hj).1
    obtain ⟨j', hj', hfd⟩ := h.strings.found k i.strings[k] hk (List.getElem?_eq_getElem hlt)
    rw [hj] at hj'
    cases hj'
    exact ⟨i.strings[k], List.getElem?_eq_getElem hlt, hfd⟩
  imports := by
    show n.imports = (d.imports.map _).size
    rw [Array.size_map, h.imports_eq, h.imports_size]
  slots := by
    rw [h.imports_eq]
    exact hfits

theorem Drafted.functions_render {m : Module} (h : Drafted i ids hosts r n d) (hn : n.Faithful i e m)
    (hok : d.functions = .ok functions) :
    List.Forall₂ (i.Renders e m) i.functions functions.toList := by
  have hfd := Draft.functions_found hok
  rw [h.declared] at hfd
  have hlen : functions.toList.length = i.functions.length := by
    have hsize := congrArg List.length hfd
    simpa [h.functions_size] using hsize
  refine List.forall₂_iff_get.mpr ⟨hlen.symm, fun k hk hk' => ?_⟩
  obtain ⟨id, g, hid, hg, hfind⟩ := h.defined k i.functions[k] (List.getElem?_eq_getElem hk)
  have hpl : (functions.toList.map some)[k]? = some (some { g with id, module := some d.id }) := by
    rw [hfd, List.getElem?_map, Array.getElem?_toList, hid, Option.map_some, hfind]
    rfl
  rw [List.getElem?_map, List.getElem?_eq_getElem hk'] at hpl
  have hget : functions.toList[k] = { g with id, module := some d.id } := by simpa using hpl
  have hrend := Image.function_renders hn hg
  show i.Renders e m i.functions[k] functions.toList[k]
  rw [hget]
  exact ⟨hrend.name, hrend.code, hrend.objectVars⟩

theorem Drafted.initializer_renders {m : Module} (h : Drafted i ids hosts r n d)
    (hn : n.Faithful i e m) : Option.Rel (i.Renders e m) i.initializer d.initializer := by
  cases hinit : i.initializer with
  | none =>
    rw [h.bare hinit]
    exact .none
  | some f =>
    obtain ⟨g, hg, hd⟩ := h.initializer f hinit
    have hrend := Image.function_renders hn hg
    rw [hd]
    exact .some ⟨hrend.name, hrend.code, hrend.objectVars⟩

theorem Drafted.inRange (h : Drafted i ids hosts r n d) (hn : n.Sized i) : i.inRange = true := by
  refine List.all_eq_true.mpr fun f hf => ?_
  obtain hf | hf := List.mem_append.mp hf
  · obtain ⟨k, hk⟩ := List.getElem?_of_mem hf
    obtain ⟨id, g, -, hg, -⟩ := h.defined k f hk
    exact Image.function_covered hn hg
  · obtain ⟨g, hg, -⟩ := h.initializer f (Option.mem_toList.mp hf)
    exact Image.function_covered hn hg

end Installed

/-- How a load ends. -/
inductive Loads (i : Image) (e : Engine) :
    EStateM.Result (Stop ImageError) Engine ModuleId → Prop where
  | built {id : ModuleId} {e' : Engine} {m : Module} (hm : e'.built? id = some m)
      (hfunctions : List.Forall₂ (i.Renders e' m) i.functions m.functions.toList)
      (hinit : Option.Rel (i.Renders e' m) i.initializer m.initializer)
      (hrange : i.inRange = true) : Loads i e (.ok id e')
  | refused {err : ModuleError} {e' : Engine} (hrange : i.inRange = true) :
    Loads i e (.error (.cause (.module err)) e')
  | overflow {e' : Engine} (h : ¬ i.SizesFit) : Loads i e (.error .overflow e')
  | unresolved {err : ImageError} {e' : Engine} (h : ¬ i.Resolves e) :
    Loads i e (.error (.cause err) e')
  | outside {what : String} {k : UInt32} {e' : Engine} (h : i.inRange = false) :
    Loads i e (.error (.cause (.badIndex what k)) e')

theorem Fails.loads {n : Image.Names} {f : FuncImage} {stop : Stop ImageError}
    (h : Fails r n f stop) (hf : f ∈ i.bodies) (hn : n.Sized i) (hreads : i.Resolves e → f.Reads r)
    (e' : Engine) :
    Loads i e (.error stop e') := by
  cases h with
  | overflow h => exact .overflow fun hsizes => Image.function_overflow hn h (hsizes.functions f hf)
  | cause h =>
    by_cases hresv : i.Resolves e
    · obtain ⟨⟨what, k, rfl⟩, hcovers⟩ := Image.function_outside hn (hreads hresv) h
      exact .outside (List.all_eq_false.mpr ⟨f, hf, by simp [hcovers]⟩)
    · exact .unresolved hresv

theorem Drafted.loads {e1 e2 : Engine} {ids : List TypeId} {hosts : List FunctionId}
    {n : Image.Names} {d : Draft}
    (h : Drafted i ids hosts e1.types n d) (hfits : i.imports.length < 1073741824)
    (htypes : List.Forall₂ (fun t id => e1.types.find? t.name = some id) i.types ids)
    (hhosts : List.Forall₂ (fun name id => e1.hostNamed? name = some id) i.hostFunctions hosts)
      (hmade : e1.Making e2 d)
    (htypes' : e2.types = e1.types) (hdr : e2.Drafting [d]) : Loads i e (build d e2) := by
  have hrng := h.inRange (h.sized htypes.length_eq hhosts.length_eq)
  unfold build
  rw [get_bind]
  cases hbuild : e2.build d with
  | mk result e' =>
    cases result with
    | error err => exact .refused hrng
    | ok id =>
      have hidle := (Engine.build_eq_ok.mp (congrArg Prod.fst hbuild)).1
      rw [Engine.build_of_idle hidle] at hbuild
      obtain ⟨err, herr⟩ | ⟨functions, hok, -, -, hinst⟩ := Engine.finish_cases e2 d
      · rw [herr] at hbuild
        cases hbuild
      · rw [hinst] at hbuild
        cases hbuild
        have hn := h.faithful hfits htypes hhosts hmade htypes' hdr hok
        have hbuilt :=
          (Engine.built?_install (hdr.fresh List.mem_cons_self hok) d.id).trans (if_pos rfl)
        exact .built hbuilt (h.functions_render hn hok) (h.initializer_renders hn) hrng

theorem image_loads (hfits : i.Fits e) : Loads i e (image i e) := by
  unfold image
  obtain ⟨ids, types, htypes, hfd, hext⟩ | ⟨⟨t, ht, hbig⟩, e', hovf⟩ := types_cases i.types e
  · rw [bind_of_ok htypes]
    obtain ⟨hosts, hhosts, hnamed⟩ | ⟨name, hname, hnone, herr⟩ :=
      hosts_cases i.hostFunctions { e with types }
    · rw [bind_of_ok hhosts]
      -- From here on the types of the image are in the registry, and its host functions are found.
      obtain ⟨n, d, e2, hdrafted, hmade, htypes', hdr, hdraft⟩ | ⟨decl, hdecl, hnone, e2, hdraft⟩ |
        ⟨n, d, stop, e2, houtl, ⟨f, hf, hfails⟩, hdraft⟩ :=
        draft_cases (e := { e with types }) ⟨hfits.modules, hfits.functions, hfits.imports⟩ ids hosts
      · rw [bind_of_ok hdraft]
        exact hdrafted.loads hfits.imports hfd hnamed hmade htypes' hdr
      · rw [bind_of_error hdraft]
        refine .unresolved fun hresv => ?_
        have hsome := readType?_of_reads hfd hext (hresv.heads decl hdecl)
        have hnone : types.readType? decl = none := hnone
        simp [hnone] at hsome
      · rw [bind_of_error hdraft]
        exact hfails.loads hf (houtl.sized hfd.length_eq hnamed.length_eq)
          (fun h => reads_of_resolves hfd hext h hf) e2
    · rw [bind_of_error herr]
      refine .unresolved fun hresv => ?_
      have hsome := hresv.hosts name hname
      have hnone : e.hostNamed? name = none := hnone
      simp [hnone] at hsome
  · rw [bind_of_error hovf]
    exact .overflow fun hsizes => hbig (hsizes.types t ht)

/-- An image that is loaded is in the engine as a module whose code stands for that of the image. If
its names are known and no size overflows, an index is reported exactly if there is one outside its
list. -/
theorem image_relocated {i : Image} {e : Engine} (hfits : i.Fits e) :
    (∀ id e', image i e = .ok id e' → ∃ m, e'.built? id = some m ∧
      List.Forall₂ (i.Renders e' m) i.functions m.functions.toList ∧
        Option.Rel (i.Renders e' m) i.initializer m.initializer) ∧
    (i.Resolves e → (∀ e', image i e ≠ .error .overflow e') →
      ((∃ what k e', image i e = .error (.cause (.badIndex what k)) e') ↔ i.inRange = false)) ∧
    (i.SizesFit → ∀ e', image i e ≠ .error .overflow e') := by
  have hloads := image_loads hfits
  generalize image i e = r at hloads
  refine ⟨?_, fun hresolves hsizes => ⟨?_, fun hrange => ?_⟩, ?_⟩
  · rintro id e' rfl
    cases hloads with
    | built hm hfunctions hinit _ => exact ⟨_, hm, hfunctions, hinit⟩
  · rintro ⟨what, k, e', rfl⟩
    cases hloads with
    | unresolved h => exact absurd hresolves h
    | outside h => exact h
  · cases hloads with
    | built _ _ _ hin => simp [hrange] at hin
    | refused hin => simp [hrange] at hin
    | overflow _ => exact absurd rfl (hsizes _)
    | unresolved h => exact absurd hresolves h
    | @outside what k e' _ => exact ⟨what, k, e', rfl⟩
  · rintro hsizes e' rfl
    cases hloads with
    | overflow h => exact h hsizes

/-- An engine whose host functions are not in the order of the image. -/
def bench : Engine :=
  ((Engine.registerHost {} { name := "beep" } (.done none)).2.registerHost { name := "log" }
    (.done none)).2

/-- An image with a string that is given twice, a constructor, an import and a host function. -/
def kit : Image :=
  { name := "kit"
    types := [{ name := "Node", fields := 2, scriptObject := true },
      { name := "Leaf", handleFields := [0] }]
    strings := ["a", "b", "a", "c"]
    globals := [{ name := "root", type := "Node@" }]
    hostFunctions := ["log", "beep"]
    imports := [{ name := "refill", source := "store", params := ["int", "const Leaf@"] }]
    functions :=
      [{ name := "Node", methodOf := some "Node", code := [.ret 2] },
       { name := "main", locals := 2, objectVars := [{ offset := 1, type := 1 }],
         code := [.pushString 3, .pop 3, .alloc ⟨0⟩ ⟨1⟩, .free ⟨1⟩, .alloc ⟨1⟩ ⟨0⟩, .callHost ⟨0⟩,
           .callBound ⟨0⟩, .ret 0] }]
    initializer := some { name := "start", code := [.call ⟨1⟩, .ret 0] } }

def loaded? : EStateM.Result (Stop ImageError) Engine ModuleId → Option ModuleId
  | .ok id _ => some id
  | .error _ _ => none

/-- The image is loaded as it stands, and refused for an index without its import. -/
theorem image_relocated_kit : (∃ id e' m, image kit bench = .ok id e' ∧ e'.built? id = some m ∧
      List.Forall₂ (kit.Renders e' m) kit.functions m.functions.toList ∧
      Option.Rel (kit.Renders e' m) kit.initializer m.initializer) ∧
    ∃ what k e', image { kit with imports := [] } bench = .error (.cause (.badIndex what k)) e' := by
  constructor
  · have hloaded : loaded? (image kit bench) = some ⟨1⟩ := by decide +kernel
    cases hresult : image kit bench with
    | error stop e' =>
      rw [hresult] at hloaded
      cases hloaded
    | ok id e' =>
      obtain ⟨m, hm, hfunctions, hinit⟩ :=
        (image_relocated (i := kit) (e := bench) ⟨by decide, by decide, by decide⟩).1 id e' hresult
      exact ⟨id, e', m, rfl, hm, hfunctions, hinit⟩
  · have hcases := image_relocated (i := { kit with imports := [] }) (e := bench)
      ⟨by decide, by decide, by decide⟩
    have hresolves : Image.Resolves { kit with imports := [] } bench := by
      constructor <;> decide +kernel
    have hsizes : Image.SizesFit { kit with imports := [] } := by constructor <;> decide +kernel
    exact (hcases.2.1 hresolves (hcases.2.2 hsizes)).mpr (by decide)

end Load

end ScriptVm
