import ScriptVm.Image.Load
import ScriptVm.Proofs.Engine.Drafting

namespace ScriptVm

namespace Engine

/-- The engine holds what it held: functions, modules with their bindings and globals, host
functions and objects. Ids may have been used, and types added. -/
structure Untouched (e e' : Engine) : Prop where
  functions : ∀ k, e'.function? k = e.function? k
  modules : ∀ id, e'.built? id = e.built? id
  live : e'.live = e.live
  discarded : e'.discarded = e.discarded
  hosts : e'.hosts = e.hosts
  heap : e'.heap = e.heap
  trace : e'.trace = e.trace
  config : e'.config = e.config
  building : e'.building = e.building
  types : ∀ {id type}, e.types.get? id = some type → e'.types.get? id = some type

theorem Untouched.refl (e : Engine) : e.Untouched e where
  functions _ := rfl
  modules _ := rfl
  live := rfl
  discarded := rfl
  hosts := rfl
  heap := rfl
  trace := rfl
  config := rfl
  building := rfl
  types h := h

theorem Untouched.trans {a b c : Engine} (h1 : a.Untouched b) (h2 : b.Untouched c) :
    a.Untouched c where
  functions k := (h2.functions k).trans (h1.functions k)
  modules id := (h2.modules id).trans (h1.modules id)
  live := h2.live.trans h1.live
  discarded := h2.discarded.trans h1.discarded
  hosts := h2.hosts.trans h1.hosts
  heap := h2.heap.trans h1.heap
  trace := h2.trace.trans h1.trace
  config := h2.config.trans h1.config
  building := h2.building.trans h1.building
  types h := h2.types (h1.types h)

theorem untouched_reserveFunction (e : Engine) : e.Untouched e.reserveFunction.2 :=
  { Untouched.refl e with functions := function?_reserveFunction e }

theorem untouched_beginModule (e : Engine) (name : String) : e.Untouched (e.beginModule name).2 :=
  { Untouched.refl e with modules := built?_beginModule e name }

theorem untouched_registerType (e : Engine) (type : ObjectType) :
    e.Untouched (e.registerType type).2 := by
  unfold registerType Registry.register?
  split
  · rename_i id types hregr
    split at hregr
    · cases hregr
    · cases hregr
      refine { Untouched.refl e with types := ?_ }
      intro id found hfd
      unfold Registry.get? at hfd ⊢
      split at hfd
      · cases hfd
      · rename_i hid
        rw [if_neg hid]
        exact getElem?_push_of_some hfd _
  · exact .refl e

/-- A module is being made, and nothing else is done meanwhile. -/
inductive Making (e : Engine) : Engine → Draft → Prop where
  | begun (name : String) : Making e (e.beginModule name).2 (e.beginModule name).1
  | declared {e' : Engine} {d : Draft} (h : Making e e' d) (name : String) :
    Making e (e'.declare d name).2.1 (e'.declare d name).2.2
  | edited {e' : Engine} {d d' : Draft} (h : Making e e' d) (hedit : d.Edit d') : Making e e' d'

theorem Making.untouched {e e' : Engine} {d : Draft} (h : e.Making e' d) : e.Untouched e' := by
  induction h with
  | begun name => exact untouched_beginModule e name
  | @declared e' d _ name ih => exact ih.trans (untouched_reserveFunction e')
  | edited _ _ ih => exact ih

/-- Types are registered, and nothing else is done. -/
inductive Typing (e : Engine) : Engine → Prop where
  | refl : Typing e e
  | register {e' : Engine} (h : Typing e e') (type : ObjectType) : Typing e (e'.registerType type).2

theorem Typing.untouched {e e' : Engine} (h : e.Typing e') : e.Untouched e' := by
  induction h with
  | refl => exact .refl e
  | register _ type ih => exact ih.trans (untouched_registerType _ type)

end Engine

namespace Scope

variable {pc : Nat} {f : Func}

/-- A scope in which at least the same types are known. -/
def withTypes (s : Scope) (hasType : TypeId → Bool) : Scope := { s with hasType }

variable {s : Scope} {hasType : TypeId → Bool}

variable (htypes : ∀ id, s.hasType id = true → hasType id = true)
include htypes

theorem checkType_withTypes {id : TypeId} (h : s.checkType pc id = .ok ()) :
    (s.withTypes hasType).checkType pc id = .ok () := by
  unfold checkType at h ⊢
  split at h
  · rename_i hid
    exact if_pos (htypes id hid)
  · cases h

theorem checkNames_withTypes {i : Instr} (h : s.checkNames pc i = .ok ()) :
    (s.withTypes hasType).checkNames pc i = .ok () := by
  cases i with
  | alloc type constructor =>
    obtain ⟨_, htype, hrest⟩ := bind_ok h
    simp only [checkNames, checkType_withTypes htypes htype]
    exact hrest
  | free type | assignHandle type | pushType type => exact checkType_withTypes htypes h
  | _ => exact h

theorem checkInstr_withTypes {i : Instr} (h : s.checkInstr f pc i = .ok ()) :
    (s.withTypes hasType).checkInstr f pc i = .ok () := by
  -- What is checked before the names does not look at the scope.
  cases hvars : i.vars.find? fun v => !f.inFrame v with
  | some offset =>
    simp only [checkInstr, hvars] at h
    split at h
    · split at h
      · cases h
      · cases h
    · cases h
  | none =>
    cases hjump : i.jumpOffset? with
    | none =>
      simp only [checkInstr, hjump, hvars] at h ⊢
      exact checkNames_withTypes htypes h
    | some offset =>
      simp only [checkInstr, hjump, hvars] at h ⊢
      split at h
      · cases h
      · rename_i hin
        rw [if_neg hin]
        exact checkNames_withTypes htypes h

theorem checkCode_withTypes {code : List Instr}
    (h : s.checkCode f pc code = .ok ()) : (s.withTypes hasType).checkCode f pc code = .ok () := by
  induction code generalizing pc with
  | nil => rfl
  | cons i code ih =>
    obtain ⟨_, hfst, hrest⟩ := bind_ok h
    simp only [checkCode, checkInstr_withTypes htypes hfst]
    exact ih hrest

theorem checkFunc_withTypes (h : s.checkFunc f = .ok ()) :
    (s.withTypes hasType).checkFunc f = .ok () := by
  cases hkind : f.kind with
  | script =>
    obtain ⟨⟨last, hlast, hterm⟩, hvars, hcode⟩ := checkFunc_script h hkind
    have hstk : ¬ f.stackNeeded < f.locals := by
      intro hlt
      simp only [checkFunc, hkind, hlast, hterm, if_pos hlt] at h
      cases h
    simp only [checkFunc, hkind, hlast, hterm, if_neg hstk, hvars, Bool.not_true,
      Bool.false_eq_true, if_false]
    exact checkCode_withTypes htypes hcode
  | imported =>
    simp only [checkFunc, hkind] at h ⊢
    exact h
  | host | interface | virtual => simp only [checkFunc, hkind]

theorem check_withTypes (h : s.check f = .ok ()) : (s.withTypes hasType).check f = .ok () := by
  rw [check, checkFunc_withTypes htypes (checkFunc_of_check h)]
  rfl

end Scope

theorem forM_mono {ε α : Type} {f g : α → Except ε Unit} (hfg : ∀ a, f a = .ok () → g a = .ok ())
    {l : List α} (h : l.forM f = .ok ()) : l.forM g = .ok () := by
  induction l with
  | nil => rfl
  | cons a l ih =>
    obtain ⟨_, ha, hl⟩ := Scope.bind_ok h
    show (g a >>= fun _ => l.forM g) = .ok ()
    rw [hfg a ha]
    exact ih hl

namespace Engine

variable {e e' : Engine} {d : Draft}

theorem scope_of_untouched (h : e.Untouched e') (m : Module) :
    e'.scope m = (e.scope m).withTypes fun id => (e'.types.get? id).isSome := by
  simp only [scope, Scope.withTypes, h.functions]

theorem checkModule_eq_ok {m : Module} : e.checkModule m = .ok () ↔
      (m.functions.toList ++ m.initializer.toList).forM (e.scope m).check = .ok () := by
  unfold checkModule
  cases (m.functions.toList ++ m.initializer.toList).forM (e.scope m).check with
  | ok _ => exact ⟨fun _ => rfl, fun _ => rfl⟩
  | error err =>
    constructor
    · intro h
      cases h
    · intro h
      cases h

theorem Untouched.checkModule (h : e.Untouched e') {m : Module} (hok : e.checkModule m = .ok ()) :
    e'.checkModule m = .ok () := by
  rw [checkModule_eq_ok] at hok ⊢
  refine forM_mono ?_ hok
  intro f hf
  rw [scope_of_untouched h]
  refine Scope.check_withTypes ?_ hf
  intro id hid
  obtain ⟨type, htype⟩ := Option.isSome_iff_exists.mp hid
  rw [h.types htype]
  rfl

theorem Untouched.moduleNamed? (h : e.Untouched e') (name : String) :
    e'.moduleNamed? name = e.moduleNamed? name := by
  have hbuilt : e'.built? = e.built? := funext h.modules
  rw [Engine.moduleNamed?, Engine.moduleNamed?, hbuilt, h.live]

/-- What a build needs: no other build goes on, every declared function is defined, the checks are
passed and the name is free. -/
theorem build_eq_ok {id : ModuleId} : (e.build d).1 = .ok id ↔ e.building = false ∧ id = d.id ∧
      ∃ functions, d.functions = .ok functions ∧
      (e.config.verify = true → e.checkModule (d.toModule functions) = .ok ()) ∧
        e.moduleNamed? d.name = none := by
  cases hbld : e.building with
  | true => simp [build_of_building hbld]
  | false =>
    rw [build_of_idle hbld]
    constructor
    · intro h
      obtain ⟨err, herr⟩ | ⟨functions, hok, hchk, hname, hinst⟩ := finish_cases e d
      · rw [herr] at h
        cases h
      · rw [hinst] at h
        cases h
        exact ⟨rfl, rfl, functions, hok, hchk, hname⟩
    · rintro ⟨-, rfl, functions, hok, hchk, hname⟩
      have hpassed :
          (if e.config.verify then e.checkModule (d.toModule functions) else .ok ()) = .ok () := by
        split
        · rename_i hver
          exact hchk hver
        · rfl
      have hfree : (e.moduleNamed? (d.toModule functions).name).isSome = false := by
        show (e.moduleNamed? d.name).isSome = false
        rw [hname]
        rfl
      simp only [finish, hok, hpassed, hfree]
      rfl

theorem build_of_error {err : ModuleError} (h : (e.build d).1 = .error err) : (e.build d).2 = e := by
  cases hbld : e.building with
  | true => rw [build_of_building hbld]
  | false =>
    rw [build_of_idle hbld] at h ⊢
    obtain ⟨err, herr⟩ | ⟨functions, -, -, -, hinst⟩ := finish_cases e d
    · rw [herr]
    · rw [hinst] at h
      cases h

theorem Untouched.build (h : e.Untouched e') {id : ModuleId} (hok : (e.build d).1 = .ok id) :
    (e'.build d).1 = .ok id := by
  rw [build_eq_ok] at hok ⊢
  obtain ⟨hidle, hid, functions, hfns, hchk, hname⟩ := hok
  refine ⟨h.building.trans hidle, hid, functions, hfns, ?_, (h.moduleNamed? d.name).trans hname⟩
  intro hver
  rw [h.config] at hver
  exact h.checkModule (hchk hver)

end Engine

namespace Load

variable {α β : Type} {error : Engine → Prop} {P : Engine → Prop} {e : Engine} {d : Draft}

/-- What holds of the value and the engine if a load succeeds, and of the engine if it fails. -/
inductive Ends (P : α → Engine → Prop) (error : Engine → Prop) :
    EStateM.Result (Stop ImageError) Engine α → Prop where
  | ok {a : α} {e : Engine} (h : P a e) : Ends P error (.ok a e)
  | error {stop : Stop ImageError} {e : Engine} (h : error e) : Ends P error (.error stop e)

theorem ends_bind {P : α → Engine → Prop} {Q : β → Engine → Prop} {x : Load α} {f : α → Load β}
    (hx : Ends P error (x e)) (hf : ∀ a e', P a e' → Ends Q error (f a e')) :
    Ends Q error ((x >>= f) e) := by
  show Ends Q error (EStateM.bind x f e)
  unfold EStateM.bind
  generalize x e = r at hx
  cases hx with
  | ok h => exact hf _ _ h
  | error h => exact .error h

theorem ends_mono {P Q : α → Engine → Prop} {error' : Engine → Prop}
    {r : EStateM.Result (Stop ImageError) Engine α}
    (h : Ends P error r) (hok : ∀ a e, P a e → Q a e) (herr : ∀ e, error e → error' e) :
    Ends Q error' r := by
  cases h with
  | ok h => exact .ok (hok _ _ h)
  | error h => exact .error (herr _ h)

theorem ends_get (h : P e) : Ends (fun a e' => a = e' ∧ P e') error ((get : Load Engine) e) :=
  .ok ⟨rfl, h⟩

theorem ends_ofExcept (x : Except ImageError α) (h : P e) : Ends (fun _ => P) P (ofExcept x e) := by
  cases x with
  | ok a => exact .ok h
  | error err => exact .error h

theorem ends_orOverflow (x : Option α) (h : P e) : Ends (fun _ => P) P (orOverflow x e) := by
  cases x with
  | some a => exact .ok h
  | none => exact .error h

theorem ends_mapM {f : α → Load β} (hf : ∀ a e, P e → Ends (fun _ => P) P (f a e))
    (l : List α) (h : P e) :
    Ends (fun _ => P) P (l.mapM f e) := by
  induction l generalizing e with
  | nil => exact .ok h
  | cons a l ih =>
    rw [List.mapM_cons]
    refine ends_bind (hf a e h) ?_
    intro b e' hb
    refine ends_bind (ih hb) ?_
    intro bs e'' hbs
    exact .ok hbs

theorem ends_foldlM {P : α → Engine → Prop} {f : α → β → Load α}
    (hf : ∀ a b e, P a e → Ends P error (f a b e)) (l : List β)
    {a : α} (h : P a e) : Ends P error (l.foldlM f a e) := by
  induction l generalizing a e with
  | nil => exact .ok h
  | cons b l ih =>
    rw [List.foldlM_cons]
    refine ends_bind (hf a b e h) ?_
    intro a' e' ha'
    exact ih ha'

theorem objectType_types {e0 : Engine} (t : TypeImage) (e : Engine) (h : e0.Typing e) :
    Ends (fun _ => e0.Typing) e0.Typing (objectType t e) := by
  unfold objectType
  refine ends_bind (ends_get h) ?_
  rintro e _ ⟨rfl, h⟩
  cases e.types.find? t.name with
  | some id => exact .ok h
  | none =>
    refine ends_bind (ends_orOverflow _ h) ?_
    intro type e h
    refine ends_bind (ends_get h) ?_
    rintro e _ ⟨rfl, h⟩
    have hreg := h.register type
    generalize e.registerType type = r at hreg
    obtain ⟨result, e'⟩ := r
    cases result with
    | ok id => exact .ok hreg
    | error err => exact .error h

theorem hostFunction_stays (name : String) (e : Engine) (h : P e) :
    Ends (fun _ => P) P (hostFunction name e) := by
  unfold hostFunction
  refine ends_bind (ends_get h) ?_
  rintro e _ ⟨rfl, h⟩
  cases e.hostNamed? name with
  | some id => exact .ok h
  | none => exact .error h

theorem function_stays (n : Image.Names) (f : FuncImage) (e : Engine) (h : P e) :
    Ends (fun _ => P) P (function n f e) := by
  unfold function
  refine ends_bind (ends_get h) ?_
  rintro e _ ⟨rfl, h⟩
  refine ends_bind (ends_ofExcept _ h) ?_
  intro f e h
  exact ends_orOverflow f h

section Making

variable {e0 : Engine}

/-- The module is in the making when a load goes on, and also when it stops. -/
def Makes (e0 : Engine) (r : EStateM.Result (Stop ImageError) Engine Draft) : Prop :=
  Ends (fun d e => e0.Making e d) (fun e => ∃ d, e0.Making e d) r

theorem edit_made {x : Load α} (hx : Ends (fun _ e => e0.Making e d) (fun e => e0.Making e d) (x e))
    {edit : α → Draft} (hedit : ∀ a, d.Edit (edit a)) :
    Makes e0 ((x >>= fun a => pure (edit a)) e) := by
  refine ends_bind (ends_mono hx (fun _ _ => id) fun e h => ⟨d, h⟩) ?_
  intro a e h
  exact .ok (h.edited (hedit a))

theorem addStrings_made (texts : List String) (h : e0.Making e d) :
    e0.Making e (addStrings d texts).2 := by
  unfold addStrings
  generalize (#[] : Array UInt16) = ids
  induction texts generalizing d ids with
  | nil => exact h
  | cons text texts ih => exact ih (h.edited (.addString d text)) _

theorem declareAll_made (fs : List FuncImage) (h : e0.Making e d) :
    Ends (fun r e => e0.Making e (Prod.snd r)) (fun e => ∃ d,
      e0.Making e d) (declareAll d fs e) := by
  refine ends_foldlM ?_ fs h
  intro r f e h
  exact .ok (h.declared f.name)

theorem addGlobals_made (gs : List GlobalImage) (h : e0.Making e d) :
    Makes e0 (addGlobals d gs e) := by
  refine ends_foldlM ?_ gs h
  intro d g e h
  refine ends_bind (ends_get (P := fun e => e0.Making e d) h) ?_
  rintro e _ ⟨rfl, h⟩
  exact edit_made (ends_ofExcept _ h) fun type => .addGlobal d g.name type

theorem addImports_made (gs : List ImportImage) (h : e0.Making e d) :
    Makes e0 (addImports d gs e) := by
  refine ends_foldlM ?_ gs h
  intro d g e h
  refine ends_bind (ends_get (P := fun e => e0.Making e d) h) ?_
  rintro e _ ⟨rfl, h⟩
  exact edit_made (ends_ofExcept _ h) fun _ => .addImport d _

theorem defineAll_made (n : Image.Names) (fs : List (FuncImage × FunctionId)) (h : e0.Making e d) :
    Makes e0 (defineAll n d fs e) := by
  refine ends_foldlM ?_ fs h
  intro d f e h
  exact edit_made (function_stays n f.1 e h) fun g => .define d f.2 g

theorem addInitializer_made (n : Image.Names) (f : Option FuncImage) (h : e0.Making e d) :
    Makes e0 (addInitializer n d f e) := by
  cases f with
  | none => exact .ok h
  | some f => exact edit_made (function_stays n f e h) fun g => .setInitializer d g

/-- The draft of an image is made like any other. An image that is refused has used up ids, or not
even them. -/
theorem draft_made (i : Image) (types : List TypeId) (hosts : List FunctionId) (e0 : Engine) :
    Makes e0 (draft i types hosts e0) := by
  unfold draft
  refine ends_bind (P := fun d e => e0.Making e d) (.ok (.begun i.name)) ?_
  intro d e h
  refine ends_bind (addGlobals_made i.globals (addStrings_made i.strings h)) ?_
  intro d e h
  refine ends_bind (declareAll_made i.functions h) ?_
  intro r e h
  refine ends_bind (addImports_made i.imports h) ?_
  intro d e h
  refine ends_bind (defineAll_made _ _ h) ?_
  intro d e h
  exact addInitializer_made _ _ h

end Making

/-- An image registers types, makes a module and builds it, and may fail anywhere. -/
theorem image_ends (i : Image) (e : Engine) :
    Ends (fun id e' => ∃ e1 e2 d, e.Typing e1 ∧ e1.Making e2 d ∧ e2.build d = (.ok id, e'))
      (fun e' => e.Typing e' ∨ ∃ e1 d, e.Typing e1 ∧ e1.Making e' d) (image i e) := by
  unfold image
  refine ends_bind
    (ends_mono (ends_mapM objectType_types i.types .refl) (fun _ _ => id) fun _ => .inl) ?_
  intro types e1 h1
  refine ends_bind
    (ends_mono (ends_mapM hostFunction_stays i.hostFunctions h1) (fun _ _ => id) fun _ => .inl) ?_
  intro hosts e1 h1
  refine ends_bind (ends_mono (draft_made i types hosts e1) (fun _ _ => id) ?_) ?_
  · rintro e' ⟨d, hd⟩
    exact .inr ⟨e1, d, h1, hd⟩
  · intro d e2 hd
    unfold build
    refine ends_bind (ends_get (P := fun e => e1.Making e d) hd) ?_
    rintro e2 _ ⟨rfl, hd⟩
    cases hbuild : e2.build d with
    | mk result e' =>
      cases result with
      | ok id => exact .ok ⟨e1, e2, d, h1, hd, hbuild⟩
      | error err =>
        have hsame := Engine.build_of_error (congrArg Prod.fst hbuild)
        rw [hbuild] at hsame
        have hsame : e' = e2 := hsame
        exact .error (.inr ⟨e1, d, h1, hsame ▸ hd⟩)

theorem image_untouched {i : Image} {e' : Engine} {stop : Stop ImageError}
    (h : image i e = .error stop e') : e.Untouched e' := by
  have hends := image_ends i e
  rw [h] at hends
  cases hends with
  | error hfailed =>
    obtain htyping | ⟨e1, d, htyping, hmaking⟩ := hfailed
    · exact htyping.untouched
    · exact htyping.untouched.trans hmaking.untouched

end Load

end ScriptVm
