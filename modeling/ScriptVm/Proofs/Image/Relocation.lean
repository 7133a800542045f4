import ScriptVm.Proofs.Image.Tables

namespace ScriptVm

namespace FunctionId

theorem importFlag_toBitVec : importFlag.toBitVec = BitVec.twoPow 32 30 := by decide

theorem val_ofImport {k : Nat} (h : k < 1073741824) : (ofImport k).val.toNat = 1073741824 + k := by
  have hword : k.toUInt32.toNat = k := Nat.mod_eq_of_lt (by omega)
  have hor := Nat.two_pow_add_eq_or_of_lt (i := 30) h 1
  rw [ofImport, UInt32.toNat_or, hword]
  exact hor.symm

theorem ofImport_unflag {k : Nat} (h : k < 1073741824) :
    (ofImport k).val &&& ~~~importFlag = k.toUInt32 := by
  rw [← UInt32.toBitVec_inj]
  ext j hj
  have hbit : k.testBit 30 = false := Nat.testBit_lt_two_pow h
  by_cases hj30 : j = 30
  · subst hj30
    have hclear : (UInt32.ofNat k).toBitVec[30] = false := by
      rw [BitVec.getElem_eq_testBit_toNat, UInt32.toNat_toBitVec,
        UInt32.toNat_ofNat_of_lt' (by simp [UInt32.size]; omega), hbit]
    simp [ofImport, importFlag_toBitVec, BitVec.getElem_twoPow, hclear]
  · simp [ofImport, importFlag_toBitVec, BitVec.getElem_twoPow, hj30]

theorem importIndex?_ofImport {k : Nat} (h : k < 1073741823) :
    (ofImport k).importIndex? = some k := by
  have hval := val_ofImport (k := k) (by omega)
  have hne (id : FunctionId) (hid : id.val.toNat ≠ 1073741824 + k) : ofImport k ≠ id := by
    rintro rfl
    exact hid hval
  have hflag : (ofImport k).val &&& importFlag ≠ 0 := by
    intro hzero
    have hbit := congrArg (fun v => v.toBitVec.getLsbD 30) hzero
    simp [ofImport, importFlag_toBitVec] at hbit
  have hmarked : (ofImport k).isImport = true := by
    simp [isImport, hflag, hne unbound (by simp [unbound]; omega),
      hne moduleInit (by simp [moduleInit]; omega)]
  rw [importIndex?, if_pos hmarked, ofImport_unflag (by omega)]
  simp only [Nat.toUInt32_eq, UInt32.toNat_ofNat', Option.some.injEq]
  omega

end FunctionId

/-- A host function of that name has the id. -/
def Engine.HostNamed (e : Engine) (name : String) (id : FunctionId) : Prop :=
  (∃ body, (id, body) ∈ e.hosts) ∧ ∃ f, e.function? id = some f ∧ f.name = name

/-- The function at a place of a module has the id, and is found by it. -/
def Engine.FunctionAt (e : Engine) (m : Module) (k : Nat) (id : FunctionId) : Prop :=
  ∃ g, m.functions[k]? = some g ∧ g.id = id ∧ e.function? id = some g

namespace Image

/-- The type at a place of an image has the id in the engine. -/
def TypeAt (i : Image) (e : Engine) (k : Nat) (id : TypeId) : Prop :=
  ∃ t, i.types[k]? = some t ∧ e.types.find? t.name = some id

/-- What an instruction of an image is in a module of the engine. -/
def StandsFor (i : Image) (e : Engine) (m : Module) : Instr → Instr → Prop
  | .call k, b => ∃ id, b = .call id ∧ e.FunctionAt m k.val.toNat id
  | .callMethod k, b => ∃ id, b = .callMethod id ∧ e.FunctionAt m k.val.toNat id
  | .callHost k, b =>
    ∃ id name, b = .callHost id ∧ i.hostFunctions[k.val.toNat]? = some name ∧ e.HostNamed name id
  | .callBound k, b =>
    ∃ id, b = .callBound id ∧ k.val.toNat < m.imports.size ∧ id.importIndex? = some k.val.toNat
  | .alloc t c, b => ∃ type constructor, b = .alloc type constructor ∧ i.TypeAt e t.val.toNat type ∧
      if c.val = 0 then constructor = .none else e.FunctionAt m (c.val.toNat - 1) constructor
  | .free t, b => ∃ type, b = .free type ∧ i.TypeAt e t.val.toNat type
  | .assignHandle t, b => ∃ type, b = .assignHandle type ∧ i.TypeAt e t.val.toNat type
  | .pushType t, b => ∃ type, b = .pushType type ∧ i.TypeAt e t.val.toNat type
  | .pushString k, b =>
    ∃ j text, b = .pushString j ∧ i.strings[k.toNat]? = some text ∧ m.strings[j.toNat]? = some text
  | a, b => b = a

/-- The indices of an instruction are inside the lists of the image. -/
def covers (i : Image) : Instr → Bool
  | .call k | .callMethod k => k.val.toNat < i.functions.length
  | .callHost k => k.val.toNat < i.hostFunctions.length
  | .callBound k => k.val.toNat < i.imports.length
  | .alloc t c => t.val.toNat < i.types.length && c.val.toNat ≤ i.functions.length
  | .free t | .assignHandle t | .pushType t => t.val.toNat < i.types.length
  | .pushString k => k.toNat < i.strings.length
  | _ => true

/-- What a function of an image is in a module of the engine. -/
structure Renders (i : Image) (e : Engine) (m : Module) (f : FuncImage) (g : Func) : Prop where
  name : g.name = f.name
  code : List.Forall₂ (i.StandsFor e m) f.code g.code.toList
  objectVars : List.Forall₂
    (fun v w => w.offset = v.offset ∧ i.TypeAt e v.type.toNat w.type) f.objectVars g.objectVars

/-- An entry of a table leads to what the image has at its index. -/
structure Names.Faithful (n : Names) (i : Image) (e : Engine) (m : Module) : Prop where
  types : ∀ (k : Nat) (id : TypeId), n.types[k]? = some id → i.TypeAt e k id
  hosts : ∀ (k : Nat) (id : FunctionId), n.hosts[k]? = some id →
    ∃ name, i.hostFunctions[k]? = some name ∧ e.HostNamed name id
  functions : ∀ (k : Nat) (id : FunctionId), n.functions[k]? = some id → e.FunctionAt m k id
  strings : ∀ (k : Nat) (j : UInt16), k < 65536 → n.strings[k]? = some j →
    ∃ text, i.strings[k]? = some text ∧ m.strings[j.toNat]? = some text
  imports : n.imports = m.imports.size
  slots : n.imports < 1073741824

/-- The tables have as many entries as the lists of the image. -/
structure Names.Sized (n : Names) (i : Image) : Prop where
  types : n.types.size = i.types.length
  hosts : n.hosts.size = i.hostFunctions.length
  functions : n.functions.size = i.functions.length
  strings : n.strings.size = i.strings.length
  imports : n.imports = i.imports.length

theorem lookup_ok {α : Type} {table : Array α} {k : UInt32} {what : String} {a : α}
    (h : lookup table k what = .ok a) : table[k.toNat]? = some a := by
  unfold lookup at h
  split at h
  · cases h
    assumption
  · cases h

theorem lookup_cases {α : Type} (table : Array α) (k : UInt32) (what : String) :
    (∃ a, lookup table k what = .ok a ∧ k.toNat < table.size) ∨
      lookup table k what = .error (.badIndex what k) ∧ ¬ k.toNat < table.size := by
  unfold lookup
  by_cases hk : k.toNat < table.size
  · simp [hk]
  · simp [hk]

theorem constructor_toNat {c : UInt32} (h : c ≠ 0) : (c - 1).toNat + 1 = c.toNat := by
  have hpos : c.toNat ≠ 0 := fun h0 => h (UInt32.toNat_inj.mp h0)
  rw [UInt32.toNat_sub_of_le _ _ (by simp [UInt32.le_iff_toNat_le]; omega)]
  simp only [UInt32.toNat_one]
  omega

theorem relocate_standsFor {n : Names} {i : Image} {e : Engine} {m : Module} (hn : n.Faithful i e m)
    {a b : Instr} (h : relocate n a = .ok b) : i.StandsFor e m a b := by
  cases a with
  | call k | callMethod k =>
    obtain ⟨id, hid, hb⟩ := Scope.bind_ok h
    cases hb
    exact ⟨id, rfl, hn.functions _ _ (lookup_ok hid)⟩
  | callHost k =>
    obtain ⟨id, hid, hb⟩ := Scope.bind_ok h
    cases hb
    obtain ⟨name, hname, hnamed⟩ := hn.hosts _ _ (lookup_ok hid)
    exact ⟨id, name, rfl, hname, hnamed⟩
  | callBound k =>
    by_cases hk : k.val.toNat < n.imports
    · simp only [relocate, if_pos hk] at h
      cases h
      have hslots := hn.slots
      exact ⟨_, rfl, hn.imports ▸ hk, FunctionId.importIndex?_ofImport (by omega)⟩
    · simp only [relocate, if_neg hk] at h
      cases h
  | alloc t c =>
    by_cases hzero : c.val = 0
    · simp only [relocate, hzero, if_true] at h
      obtain ⟨constructor, hc, h1⟩ := Scope.bind_ok h
      obtain ⟨type, htype, hb⟩ := Scope.bind_ok h1
      cases hc
      cases hb
      refine ⟨type, .none, rfl, hn.types _ _ (lookup_ok htype), ?_⟩
      rw [if_pos hzero]
    · simp only [relocate, hzero, if_false] at h
      obtain ⟨constructor, hc, h1⟩ := Scope.bind_ok h
      obtain ⟨type, htype, hb⟩ := Scope.bind_ok h1
      cases hb
      refine ⟨type, constructor, rfl, hn.types _ _ (lookup_ok htype), ?_⟩
      rw [if_neg hzero, ← constructor_toNat hzero]
      exact hn.functions _ _ (lookup_ok hc)
  | free t | assignHandle t | pushType t =>
    obtain ⟨type, htype, hb⟩ := Scope.bind_ok h
    cases hb
    exact ⟨type, rfl, hn.types _ _ (lookup_ok htype)⟩
  | pushString k =>
    obtain ⟨j, hj, hb⟩ := Scope.bind_ok h
    cases hb
    obtain ⟨text, htext, hfd⟩ := hn.strings _ _ (by simpa using k.toNat_lt) (lookup_ok hj)
    exact ⟨j, text, rfl, by simpa using htext, hfd⟩
  | _ =>
    cases h
    rfl

/-- An instruction gets its ids and pushes as much as before, or one of its indices is outside. -/
def Settles (a : Instr) (covered : Bool) (r : Except ImageError Instr) : Prop :=
  (∃ b, r = .ok b ∧ b.pushedWords = a.pushedWords ∧ covered = true) ∨
    ∃ what k, r = .error (.badIndex what k) ∧ covered = false

theorem lookup_settles {α : Type} {table : Array α} {k : UInt32} {what : String} {f : α → Instr}
    {a : Instr} {covered : Bool} (hpush : ∀ x, (f x).pushedWords = a.pushedWords)
    (hcovered : covered = decide (k.toNat < table.size)) :
    Settles a covered (do return f (← lookup table k what)) := by
  obtain ⟨x, hx, hk⟩ | ⟨herror, hk⟩ := lookup_cases table k what
  · exact .inl ⟨f x, by rw [hx]; rfl, hpush x, by simpa [hcovered] using hk⟩
  · exact .inr ⟨what, k, by rw [herror]; rfl, by simpa [hcovered] using hk⟩

theorem relocate_settles {n : Names} {i : Image} (hn : n.Sized i) (a : Instr) :
    Settles a (i.covers a) (relocate n a) := by
  cases a with
  | call k | callMethod k => exact lookup_settles (fun _ => rfl) (by simp [covers, hn.functions])
  | callHost k => exact lookup_settles (fun _ => rfl) (by simp [covers, hn.hosts])
  | callBound k =>
    by_cases hk : k.val.toNat < n.imports
    · exact .inl ⟨_, if_pos hk, rfl, by simpa [covers, ← hn.imports] using hk⟩
    · exact .inr ⟨_, _, if_neg hk, by simpa [covers, ← hn.imports] using hk⟩
  | alloc t c =>
    by_cases hzero : c.val = 0
    · simp only [relocate, hzero, if_true]
      exact lookup_settles (f := fun type => .alloc type .none) (fun _ => rfl)
        (by simp [covers, hzero, hn.types])
    · have hc := constructor_toNat hzero
      simp only [relocate, hzero, if_false]
      obtain ⟨id, hid, hk⟩ | ⟨herror, hk⟩ := lookup_cases n.functions (c.val - 1) "function"
      · rw [hid]
        refine lookup_settles (f := fun type => .alloc type id) (fun _ => rfl) ?_
        have hcnt : c.val.toNat ≤ i.functions.length := by
          rw [hn.functions] at hk
          omega
        simp [covers, hcnt, hn.types]
      · rw [herror]
        refine .inr ⟨_, _, rfl, ?_⟩
        have hcnt : ¬ c.val.toNat ≤ i.functions.length := by
          rw [hn.functions] at hk
          omega
        simp [covers, hcnt]
  | free t | assignHandle t
  | pushType t => exact lookup_settles (fun _ => rfl) (by simp [covers, hn.types])
  | pushString k => exact lookup_settles (fun _ => rfl) (by simp [covers, hn.strings])
  | _ => exact .inl ⟨_, rfl, rfl, rfl⟩

end Image

/-- The types that a function declares for its result, its parameters and its variables. -/
def FuncImage.decls (f : FuncImage) : List String :=
  f.returns :: f.params ++ f.vars.map VarImage.type

/-- Every type that a function names is known. -/
structure FuncImage.Reads (f : FuncImage) (r : Registry) : Prop where
  decls : ∀ decl ∈ f.decls, (r.readType? decl).isSome
  owner : ∀ name, f.methodOf = some name → (r.find? name).isSome

theorem FuncImage.not_reads {f : FuncImage} {r : Registry} {decl : String} (hdecl : decl ∈ f.decls)
    (hnone : r.readType? decl = none) : ¬ f.Reads r := by
  intro h
  have hsome := h.decls decl hdecl
  simp [hnone] at hsome

namespace Image

/-- What the function of an image is made of before its stack is settled. -/
structure Body (n : Names) (f : FuncImage) (g : Func) : Prop where
  name : g.name = f.name
  locals : g.locals = f.locals
  code : List.Forall₂ (fun a b => relocate n a = .ok b) f.code g.code.toList
  objectVars : List.Forall₂ (fun v w => w.offset = v.offset ∧
    lookup n.types v.type "type" = .ok w.type) f.objectVars g.objectVars

/-- How the making of a function ends: the function is made but for its stack, it names an unknown
type, or an index is outside. -/
inductive Made (r : Registry) (n : Names) (f : FuncImage) :
    Except ImageError (Option Func) → Prop where
  | body {g : Func} {settled : Option Func} (h : Body n f g)
      (hsettled : g.settle? f.stack = settled) : Made r n f (.ok settled)
  | unread {name : String} (h : ¬ f.Reads r) : Made r n f (.error (.unknownType name))
  | objectVar {err : ImageError} {v : ObjectVarImage} (hv : v ∈ f.objectVars)
      (h : lookup n.types v.type "type" = .error err) : Made r n f (.error err)
  | instr {err : ImageError} {a : Instr} (ha : a ∈ f.code) (h : relocate n a = .error err) :
    Made r n f (.error err)

theorem assemble_made (r : Registry) (n : Names) (f : FuncImage) (s : Signature)
    (o : Option TypeId) : Made r n f (assemble r n f s o) := by
  unfold assemble
  obtain ⟨vars, hvars, -⟩ | ⟨v, hv, err, herr, hvars⟩ := mapM_cases
    (fun v => do return ({ name := v.name, type := ← parseType r v.type,
                           offset := v.offset } : VarInfo)) f.vars
  · rw [hvars]
    obtain ⟨objectVars, hobjs, hforall⟩ | ⟨v, hv, err, herr, hobjs⟩ := mapM_cases
      (fun v => do return ({ offset := v.offset,
                             type := ← lookup n.types v.type "type" } : ObjectVar)) f.objectVars
    · rw [hobjs]
      obtain ⟨code, hcode, hrelocated⟩ | ⟨a, ha, err, herr, hcode⟩ := mapM_cases (relocate n) f.code
      · rw [hcode]
        refine .body ⟨rfl, rfl, hrelocated, hforall.imp fun v w hw => ?_⟩ rfl
        obtain ⟨type, htype, hw⟩ := Scope.bind_ok hw
        cases hw
        exact ⟨rfl, htype⟩
      · rw [hcode]
        exact .instr ha herr
    · rw [hobjs]
      cases hlook : lookup n.types v.type "type" with
      | ok type =>
        rw [hlook] at herr
        cases herr
      | error err' =>
        rw [hlook] at herr
        cases herr
        exact .objectVar hv hlook
  · rw [hvars]
    cases hparse : parseType r v.type with
    | ok type =>
      rw [hparse] at herr
      cases herr
    | error err' =>
      rw [hparse] at herr
      cases herr
      obtain ⟨hnone, rfl⟩ := parseType_error hparse
      exact .unread (FuncImage.not_reads (List.mem_append_right _ (List.mem_map_of_mem hv)) hnone)

theorem function_made (r : Registry) (n : Names) (f : FuncImage) : Made r n f (function r n f) := by
  unfold function
  obtain ⟨s, hsig⟩ | ⟨decl, hdecl, hnone, hsig⟩ := signature_cases r f.returns f.params
  · rw [hsig]
    cases hown : owner r f with
    | ok o => exact assemble_made r n f s o
    | error err =>
      cases hmeth : f.methodOf with
      | none =>
        simp only [owner, hmeth] at hown
        cases hown
      | some name =>
        cases hfind : r.find? name with
        | some id =>
          simp only [owner, hmeth, hfind] at hown
          cases hown
        | none =>
          simp only [owner, hmeth, hfind] at hown
          cases hown
          refine .unread fun h => ?_
          have hsome := h.owner name hmeth
          simp [hfind] at hsome
  · rw [hsig]
    exact .unread (FuncImage.not_reads (List.mem_append_left _ hdecl) hnone)

end Image

/-- The stack of a function is given, or its estimate is in the 32-bit range. -/
def FuncImage.Fits (f : FuncImage) : Prop :=
  f.stack = none → Func.estimate f.locals f.code.toArray < 4294967296

instance (f : FuncImage) : Decidable f.Fits :=
  inferInstanceAs (Decidable (f.stack = none → Func.estimate f.locals f.code.toArray < 4294967296))

theorem Func.settle?_some {f g : Func} {stack : Option UInt32} (h : f.settle? stack = some g) :
    g.name = f.name ∧ g.code = f.code ∧ g.objectVars = f.objectVars := by
  unfold settle? at h
  split at h
  · cases h
    exact ⟨rfl, rfl, rfl⟩
  · obtain ⟨words, -, rfl⟩ := Option.map_eq_some_iff.mp h
    exact ⟨rfl, rfl, rfl⟩

theorem Func.settle?_none {f : Func} {stack : Option UInt32} (h : f.settle? stack = none) :
    stack = none ∧ ¬ estimate f.locals f.code < 4294967296 := by
  cases stack with
  | some words => cases h
  | none =>
    refine ⟨rfl, fun hlt => ?_⟩
    simp only [settle?, word?, if_pos hlt] at h
    cases h

theorem total_of_forall₂ {α β : Type} {count : α → Nat} {count' : β → Nat} {l : List α} {l' : List β}
    (h : List.Forall₂ (fun a b => count' b = count a) l l') : total count' l' = total count l := by
  induction h with
  | nil => rfl
  | cons hab _ ih => simp only [total, List.foldr_cons, hab] at ih ⊢; rw [ih]

namespace Image

def coversFunc (i : Image) (f : FuncImage) : Bool :=
  f.code.all i.covers && f.objectVars.all fun v => v.type.toNat < i.types.length

variable {r : Registry} {n : Names} {i : Image} {f : FuncImage} {g : Func}

theorem Body.renders {e : Engine} {m : Module} (h : Body n f g) (hn : n.Faithful i e m) :
    i.Renders e m f g where
  name := h.name
  code := h.code.imp fun _ _ hab => relocate_standsFor hn hab
  objectVars := h.objectVars.imp fun _ _ hvw => ⟨hvw.1, hn.types _ _ (lookup_ok hvw.2)⟩

theorem Body.estimate_eq (h : Body n f g) (hn : n.Sized i) :
    Func.estimate g.locals g.code = Func.estimate f.locals f.code.toArray := by
  have hcode : List.Forall₂ (fun a b => b.pushedWords = a.pushedWords) f.code g.code.toList :=
    h.code.imp fun a b hab => by
    obtain ⟨b', hb', hpushed, -⟩ | ⟨what, k, herror, -⟩ := relocate_settles hn a
    · rw [hab] at hb'
      cases hb'
      exact hpushed
    · rw [hab] at herror
      cases herror
  rw [Func.estimate, Func.estimate, h.locals, total_of_forall₂ hcode]

theorem Body.covered (h : Body n f g) (hn : n.Sized i) : i.coversFunc f = true := by
  have hcode : ∀ a ∈ f.code, i.covers a = true := by
    refine ((List.forall₂_and_left _ _).mp (h.code.imp fun a b hab => ⟨?_, hab⟩)).1
    obtain ⟨b', -, -, hcovers⟩ | ⟨what, k, herror, -⟩ := relocate_settles hn a
    · exact hcovers
    · rw [hab] at herror
      cases herror
  have hobjs : ∀ v ∈ f.objectVars, v.type.toNat < i.types.length := by
    refine ((List.forall₂_and_left _ _).mp (h.objectVars.imp fun v w hvw => ⟨?_, hvw⟩)).1
    rw [← hn.types]
    exact (Array.getElem?_eq_some_iff.mp (lookup_ok hvw.2)).1
  simp only [coversFunc, Bool.and_eq_true, List.all_eq_true, decide_eq_true_eq]
  exact ⟨hcode, hobjs⟩

theorem function_renders {e : Engine} {m : Module} (hn : n.Faithful i e m)
    (h : function r n f = .ok (some g)) : i.Renders e m f g := by
  have hmade := function_made r n f
  rw [h] at hmade
  cases hmade with
  | body hbody hstl =>
    obtain ⟨hname, hcode, hobjs⟩ := Func.settle?_some hstl
    have hrend := hbody.renders hn
    exact ⟨hname ▸ hrend.name, hcode ▸ hrend.code, hobjs ▸ hrend.objectVars⟩

theorem function_covered (hn : n.Sized i) {settled : Option Func}
    (h : function r n f = .ok settled) : i.coversFunc f = true := by
  have hmade := function_made r n f
  rw [h] at hmade
  cases hmade with
  | body hbody _ => exact hbody.covered hn

/-- Only an estimate can leave a function without a stack size. -/
theorem function_overflow (hn : n.Sized i) (h : function r n f = .ok none) : ¬ f.Fits := by
  have hmade := function_made r n f
  rw [h] at hmade
  cases hmade with
  | body hbody hstl =>
    obtain ⟨hstk, hestimate⟩ := Func.settle?_none hstl
    rw [hbody.estimate_eq hn] at hestimate
    exact fun hfits => hestimate (hfits hstk)

theorem function_outside (hn : n.Sized i) (hreads : f.Reads r) {err : ImageError}
    (h : function r n f = .error err) :
    (∃ what k, err = .badIndex what k) ∧ i.coversFunc f = false := by
  have hmade := function_made r n f
  rw [h] at hmade
  cases hmade with
  | unread hunread => exact absurd hreads hunread
  | @objectVar _ v hv hlook =>
    obtain ⟨type, htype, -⟩ | ⟨herror, hk⟩ := lookup_cases n.types v.type "type"
    · rw [hlook] at htype
      cases htype
    · rw [hlook] at herror
      cases herror
      refine ⟨⟨_, _, rfl⟩, ?_⟩
      simp only [coversFunc, Bool.and_eq_false_iff, List.all_eq_false]
      exact .inr ⟨v, hv, by simpa [← hn.types] using hk⟩
  | @instr _ a ha hrelocate =>
    obtain ⟨b, hb, -⟩ | ⟨what, k, herror, hcovers⟩ := relocate_settles hn a
    · rw [hrelocate] at hb
      cases hb
    · rw [hrelocate] at herror
      cases herror
      refine ⟨⟨_, _, rfl⟩, ?_⟩
      simp only [coversFunc, Bool.and_eq_false_iff, List.all_eq_false]
      exact .inl ⟨a, ha, by simp [hcovers]⟩

end Image

end ScriptVm
