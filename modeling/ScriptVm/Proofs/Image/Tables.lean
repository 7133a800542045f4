import Mathlib.Data.List.Forall2
import Mathlib.Data.List.Induction
import ScriptVm.Proofs.Engine.Making

namespace ScriptVm

/-- What the engine has by a name keeps its id. -/
def Registry.Extends (r r' : Registry) : Prop :=
  ∀ name id, r.find? name = some id → r'.find? name = some id

theorem Registry.Extends.trans {a b c : Registry} (h : a.Extends b) (k : b.Extends c) :
    a.Extends c :=
  fun name id hid => k name id (h name id hid)

theorem Registry.register?_some {r r' : Registry} {t : ObjectType} {id : TypeId}
    (h : r.register? t = some (id, r')) : r'.find? t.name = some id ∧ r.Extends r' := by
  unfold register? at h
  split at h
  · cases h
  · rename_i hnone
    cases h
    have hfree : (r.types.find? fun x => x.name == t.name) = none := by simpa [find?] using hnone
    constructor
    · simp [find?, Array.find?_push, hfree]
    · intro name id hid
      simp only [find?, Option.map_eq_some_iff] at hid ⊢
      obtain ⟨type, htype, rfl⟩ := hid
      exact ⟨type, by simp [Array.find?_push, htype], rfl⟩

theorem ObjectType.name_addHandleFields {t t' : ObjectType} {offsets : List UInt32}
    (h : t.addHandleFields? offsets = some t') : t'.name = t.name := by
  induction offsets generalizing t with
  | nil =>
    cases h
    rfl
  | cons offset offsets ih =>
    obtain ⟨t1, hfst, hrest⟩ := Option.bind_eq_some_iff.mp h
    unfold addHandleField? at hfst
    split at hfst
    · cases hfst
      have hname := ih (show addHandleFields? _ offsets = some t' from hrest)
      exact hname
    · cases hfst

/-- The type before the handles it owns are marked. -/
def TypeImage.plain (t : TypeImage) : ObjectType :=
  let type : ObjectType := { name := t.name, fieldWords := t.fields, refCounted := t.refCounted }
  if t.scriptObject then type.asScriptObject else type

theorem TypeImage.name_plain (t : TypeImage) : t.plain.name = t.name := by
  unfold plain
  split <;> rfl

/-- There is room for the handles of the type in the 32-bit range. -/
def TypeImage.Fits (t : TypeImage) : Prop :=
  ∀ offset ∈ t.handleFields, offset.toNat + pointerWords < 4294967296

-- By the list: all words can be enumerated too, but there are too many.
instance (t : TypeImage) : Decidable t.Fits := List.decidableBAll _ t.handleFields

theorem ObjectType.addHandleFields?_isSome {offsets : List UInt32}
    (h : ∀ offset ∈ offsets, offset.toNat + pointerWords < 4294967296)
    (t : ObjectType) : ∃ t', t.addHandleFields? offsets = some t' := by
  induction offsets generalizing t with
  | nil => exact ⟨t, rfl⟩
  | cons offset offsets ih =>
    unfold addHandleFields?
    rw [List.foldlM_cons, addHandleField?, if_pos (h offset List.mem_cons_self)]
    exact ih (fun o ho => h o (List.mem_cons_of_mem _ ho)) _

namespace Image

theorem mapM_cases {α β ε : Type} (f : α → Except ε β) (l : List α) :
    (∃ bs, l.mapM f = .ok bs ∧ List.Forall₂ (fun a b => f a = .ok b) l bs) ∨
      ∃ a ∈ l, ∃ err, f a = .error err ∧ l.mapM f = .error err := by
  induction l with
  | nil => exact .inl ⟨[], rfl, .nil⟩
  | cons a l ih =>
    rw [List.mapM_cons]
    cases hfst : f a with
    | error err => exact .inr ⟨a, List.mem_cons_self, err, hfst, rfl⟩
    | ok b =>
      obtain ⟨bs, hrest, hall⟩ | ⟨c, hc, err, herr, hrest⟩ := ih
      · rw [hrest]
        exact .inl ⟨b :: bs, rfl, .cons hfst hall⟩
      · rw [hrest]
        exact .inr ⟨c, List.mem_cons_of_mem a hc, err, herr, rfl⟩

theorem parseType_error {r : Registry} {decl : String} {err : ImageError}
    (h : parseType r decl = .error err) : r.readType? decl = none ∧ err = .unknownType decl := by
  unfold parseType at h
  split at h
  · cases h
  · rename_i hnone
    cases h
    exact ⟨hnone, rfl⟩

theorem signature_cases (r : Registry) (returns : String) (params : List String) :
    (∃ s, signature r returns params = .ok s) ∨
      ∃ decl ∈ returns :: params, r.readType? decl = none ∧
        signature r returns params = .error (.unknownType decl) := by
  unfold signature
  cases hreturns : parseType r returns with
  | error err =>
    obtain ⟨hnone, rfl⟩ := parseType_error hreturns
    exact .inr ⟨returns, List.mem_cons_self, hnone, rfl⟩
  | ok type =>
    obtain ⟨types, hparams, -⟩ | ⟨decl, hdecl, err, herr, hparams⟩ := mapM_cases (parseType r) params
    · exact .inl ⟨.ofTypes type types, by rw [hparams]; rfl⟩
    · obtain ⟨hnone, rfl⟩ := parseType_error herr
      exact .inr ⟨decl, List.mem_cons_of_mem _ hdecl, hnone, by rw [hparams]; rfl⟩

end Image

namespace Load

variable {α β : Type}

theorem bind_of_ok {x : Load α} {e e' : Engine} {a : α} (h : x e = .ok a e') (f : α → Load β) :
    (x >>= f) e = f a e' := by
  simp only [bind, EStateM.bind, h]

theorem get_bind (f : Engine → Load β) (e : Engine) : (get >>= f) e = f e e := rfl

theorem bind_of_error {x : Load α} {e e' : Engine} {stop : Stop ImageError}
    (h : x e = .error stop e') (f : α → Load β) : (x >>= f) e = .error stop e' := by
  simp only [bind, EStateM.bind, h]

/-- A fold whose steps leave the engine as it is ends well, or stops at some element for a reason
that this element gives. -/
theorem foldlM_cases {P : α → List β → α → Prop} {Q : β → Stop ImageError → Prop}
    {f : α → β → Load α} {e : Engine}
    (hstep : ∀ a b, (∃ a', f a b e = .ok a' e ∧ ∀ l z, P a' l z → P a (b :: l) z) ∨ ∃ stop,
      Q b stop ∧ f a b e = .error stop e)
    (hnil : ∀ a, P a [] a) (l : List β) (a : α) :
    (∃ z, l.foldlM f a e = .ok z e ∧ P a l z) ∨ ∃ b ∈ l, ∃ stop, Q b stop ∧
      l.foldlM f a e = .error stop e := by
  induction l generalizing a with
  | nil => exact .inl ⟨a, rfl, hnil a⟩
  | cons b l ih =>
    rw [List.foldlM_cons]
    obtain ⟨a', hok, hcons⟩ | ⟨stop, hstop, herror⟩ := hstep a b
    · rw [bind_of_ok hok]
      obtain ⟨z, hz, hP⟩ | ⟨c, hc, stop, hstop, herror⟩ := ih a'
      · exact .inl ⟨z, hz, hcons l z hP⟩
      · exact .inr ⟨c, List.mem_cons_of_mem b hc, stop, hstop, herror⟩
    · rw [bind_of_error herror]
      exact .inr ⟨b, List.mem_cons_self, stop, hstop, rfl⟩

theorem objectType_cases (t : TypeImage) (e : Engine) :
    (∃ id types, objectType t e = .ok id { e with types } ∧ types.find? t.name = some id ∧
      e.types.Extends types) ∨
      ¬ t.Fits ∧ objectType t e = .error .overflow e := by
  unfold objectType
  rw [get_bind]
  cases hfind : e.types.find? t.name with
  | some id => exact .inl ⟨id, e.types, rfl, hfind, fun _ _ hid => hid⟩
  | none =>
    cases hfields : t.plain.addHandleFields? t.handleFields with
    | none =>
      refine .inr ⟨fun hfits => ?_, ?_⟩
      · obtain ⟨type, htype⟩ := ObjectType.addHandleFields?_isSome hfits t.plain
        rw [hfields] at htype
        cases htype
      · show (orOverflow (t.plain.addHandleFields? t.handleFields) >>= _) e = _
        rw [hfields]
        rfl
    | some type =>
      have hname : type.name = t.name := (ObjectType.name_addHandleFields hfields).trans t.name_plain
      have hnew : e.types.find? type.name = none := hname ▸ hfind
      obtain ⟨id, types, hregr⟩ : ∃ id types, e.types.register? type = some (id, types) := by
        simp only [Registry.register?, hnew]
        exact ⟨_, _, rfl⟩
      obtain ⟨hfd, hext⟩ := Registry.register?_some hregr
      refine .inl ⟨id, types, ?_, hname ▸ hfd, hext⟩
      show (orOverflow (t.plain.addHandleFields? t.handleFields) >>= _) e = _
      rw [hfields, bind_of_ok (x := orOverflow (some type)) (a := type) rfl, get_bind,
        Engine.registerType,
        hregr]
      rfl

theorem types_cases (ts : List TypeImage) (e : Engine) :
    (∃ ids types, ts.mapM objectType e = .ok ids { e with types } ∧
      List.Forall₂ (fun t id => types.find? t.name = some id) ts ids ∧ e.types.Extends types) ∨
      (∃ t ∈ ts, ¬ t.Fits) ∧ ∃ e', ts.mapM objectType e = .error .overflow e' := by
  induction ts generalizing e with
  | nil => exact .inl ⟨[], e.types, rfl, .nil, fun _ _ hid => hid⟩
  | cons t ts ih =>
    rw [List.mapM_cons]
    obtain ⟨id, types1, hok, hfd, hext1⟩ | ⟨hfits, hovf⟩ := objectType_cases t e
    · rw [bind_of_ok hok]
      obtain ⟨ids, types, hrest, hall, hext⟩ | ⟨⟨t', ht', hfits⟩, e', hovf⟩ :=
        ih { e with types := types1 }
      · rw [bind_of_ok hrest]
        exact .inl ⟨id :: ids, types, rfl, .cons (hext _ _ hfd) hall, hext1.trans hext⟩
      · rw [bind_of_error hovf]
        exact .inr ⟨⟨t', List.mem_cons_of_mem t ht', hfits⟩, e', rfl⟩
    · rw [bind_of_error hovf]
      exact .inr ⟨⟨t, List.mem_cons_self, hfits⟩, e, rfl⟩

theorem hosts_cases (names : List String) (e : Engine) :
    (∃ ids, names.mapM hostFunction e = .ok ids e ∧
      List.Forall₂ (fun name id => e.hostNamed? name = some id) names ids) ∨
      ∃ name ∈ names, e.hostNamed? name = none ∧
        names.mapM hostFunction e = .error (.cause (.unknownHostFunction name)) e := by
  induction names with
  | nil => exact .inl ⟨[], rfl, .nil⟩
  | cons name names ih =>
    rw [List.mapM_cons]
    cases hfind : e.hostNamed? name with
    | none =>
      have hstop : hostFunction name e = .error (.cause (.unknownHostFunction name)) e := by
        rw [hostFunction, get_bind, hfind]
        rfl
      rw [bind_of_error hstop]
      exact .inr ⟨name, List.mem_cons_self, hfind, rfl⟩
    | some id =>
      have hok : hostFunction name e = .ok id e := by
        rw [hostFunction, get_bind, hfind]
        rfl
      rw [bind_of_ok hok]
      obtain ⟨ids, hrest, hall⟩ | ⟨name', hname', hnone, hstop⟩ := ih
      · rw [bind_of_ok hrest]
        exact .inl ⟨id :: ids, rfl, .cons hfind hall⟩
      · rw [bind_of_error hstop]
        exact .inr ⟨name', List.mem_cons_of_mem name hname', hnone, rfl⟩

/-- Each text has an index at which it stands, as far as indices are 16-bit numbers. -/
structure Interned (texts : List String) (ids : Array UInt16) (strings : Array String) : Prop where
  size_eq : ids.size = texts.length
  few : strings.size ≤ texts.length
  found : ∀ (k : Nat) (text : String), k < 65536 → texts[k]? = some text → ∃ j, ids[k]? = some j ∧
    strings[j.toNat]? = some text

theorem addString_eq (d : Draft) (text : String) :
    ∃ (k : Nat) (strings : Array String), d.addString text = (k.toUInt16, { d with strings }) ∧
      k ≤ d.strings.size ∧
      strings[k]? = some text ∧ strings.size ≤ d.strings.size + 1 ∧ ∀ (j : Nat)
      (t : String), d.strings[j]? = some t → strings[j]? = some t := by
  cases hfind : d.strings.findIdx? (· == text) with
  | some k =>
    obtain ⟨hlt, heq, -⟩ := Array.findIdx?_eq_some_iff_getElem.mp hfind
    have htext : d.strings[k]? = some text := by simpa [Array.getElem?_eq_getElem hlt] using heq
    refine ⟨k, d.strings, ?_, Nat.le_of_lt hlt, htext, Nat.le_succ _, fun _ _ h => h⟩
    simp only [Draft.addString, hfind]
  | none =>
    refine ⟨d.strings.size, d.strings.push text, ?_, Nat.le_refl _, by simp, by simp,
      fun j t h => ?_⟩
    · simp only [Draft.addString, hfind]
    · exact getElem?_push_of_some h text

/-- An index is never above that of the text, so it is a 16-bit number if that is one. -/
theorem addStrings_interned {d : Draft} (hd : d.strings = #[]) (texts : List String) :
    ∃ ids strings, addStrings d texts = (ids, { d with strings }) ∧ Interned texts ids strings := by
  induction texts using List.reverseRecOn with
  | nil =>
    refine ⟨#[], #[], by rw [← hd]; rfl, rfl, Nat.le_refl _, fun k text _ htext => ?_⟩
    cases htext
  | append_singleton texts text ih =>
    obtain ⟨ids, strings, heq, hintd⟩ := ih
    obtain ⟨k, strings', hadd, hk, htext, hsize, hkept⟩ := addString_eq { d with strings } text
    refine ⟨ids.push k.toUInt16, strings', ?_, ?_, ?_, ?_⟩
    · unfold addStrings at heq ⊢
      rw [List.foldl_append, heq]
      simp only [List.foldl_cons, List.foldl_nil, hadd]
    · simp [hintd.size_eq]
    · have := hintd.few
      simp only [List.length_append, List.length_singleton]
      simp only at hsize
      omega
    · intro n t hn ht
      by_cases hlast : n < texts.length
      · rw [List.getElem?_append_left hlast] at ht
        obtain ⟨j, hj, hfd⟩ := hintd.found n t hn ht
        exact ⟨j, getElem?_push_of_some hj _, hkept _ _ hfd⟩
      · have hn' : n = texts.length := by
          have := (List.getElem?_eq_some_iff.mp ht).1
          simp only [List.length_append, List.length_singleton] at this
          omega
        subst hn'
        have ht : text = t := by simpa using ht
        subst ht
        have hfew := hintd.few
        simp only at hk
        refine ⟨k.toUInt16, ?_, ?_⟩
        · rw [← hintd.size_eq, Array.getElem?_push_size]
        · have hword : k.toUInt16.toNat = k := Nat.mod_eq_of_lt (by omega)
          rw [hword, htext]

theorem addGlobals_cases (d : Draft) (gs : List GlobalImage) (e : Engine) :
    (∃ globals storeWords, addGlobals d gs e = .ok { d with globals, storeWords } e) ∨
      ∃ g ∈ gs, e.types.readType? g.type = none ∧
        addGlobals d gs e = .error (.cause (.unknownType g.type)) e := by
  have hfold := foldlM_cases (e := e) (P := fun d _ d' => ∃ globals storeWords,
    d' = { d with globals, storeWords })
    (Q := fun g stop => e.types.readType? g.type = none ∧ stop = .cause (.unknownType g.type))
    (f := fun d g => do return (Draft.addGlobal d g.name
      (← ofExcept (Image.parseType (← get).types g.type))).2)
    (fun d g => by
      cases hread : Image.parseType e.types g.type with
      | ok type =>
        refine .inl ⟨(d.addGlobal g.name type).2, ?_, ?_⟩
        · rw [get_bind, hread]
          rfl
        · rintro l _ ⟨globals, storeWords, rfl⟩
          exact ⟨globals, storeWords, rfl⟩
      | error err =>
        obtain ⟨hnone, rfl⟩ := Image.parseType_error hread
        refine .inr ⟨_, ⟨hnone, rfl⟩, ?_⟩
        rw [get_bind, hread]
        rfl)
    (fun d => ⟨d.globals, d.storeWords, rfl⟩) gs d
  obtain ⟨d', hok, globals, storeWords, rfl⟩ | ⟨g, hg, stop, ⟨hnone, rfl⟩, herror⟩ := hfold
  · exact .inl ⟨globals, storeWords, hok⟩
  · exact .inr ⟨g, hg, hnone, herror⟩

theorem addImports_cases (d : Draft) (gs : List ImportImage) (e : Engine) : (∃ imports,
      addImports d gs e = .ok { d with imports } e ∧ imports.size = d.imports.size + gs.length) ∨
      ∃ g ∈ gs, ∃ decl ∈ g.returns :: g.params, e.types.readType? decl = none ∧
        addImports d gs e = .error (.cause (.unknownType decl)) e := by
  have hfold := foldlM_cases (e := e)
    (P := fun d gs d' => ∃ imports,
      d' = { d with imports } ∧ imports.size = d.imports.size + gs.length)
    (Q := fun g stop => ∃ decl ∈ g.returns :: g.params,
      e.types.readType? decl = none ∧ stop = .cause (.unknownType decl))
    (f := fun d g => do
      let signature ← ofExcept (Image.signature (← get).types g.returns g.params)
      return (Draft.addImport d { name := g.name, source := some g.source, signature }).2)
    (fun d g => by
      obtain ⟨signature, hread⟩ | ⟨decl, hdecl, hnone, hread⟩ :=
        Image.signature_cases e.types g.returns g.params
      · refine .inl ⟨(d.addImport { name := g.name, source := some g.source, signature }).2, ?_, ?_⟩
        · rw [get_bind, hread]
          rfl
        · rintro l _ ⟨imports, rfl, hsize⟩
          refine ⟨imports, rfl, ?_⟩
          simp only [hsize, Draft.addImport, Array.size_push, List.length_cons]
          omega
      · refine .inr ⟨_, ⟨decl, hdecl, hnone, rfl⟩, ?_⟩
        rw [get_bind, hread]
        rfl)
    (fun d => ⟨d.imports, rfl, rfl⟩) gs d
  obtain ⟨d', hok, imports, rfl, hsize⟩ | ⟨g, hg, stop, ⟨decl, hdecl, hnone, rfl⟩, herror⟩ := hfold
  · exact .inl ⟨imports, hok, hsize⟩
  · exact .inr ⟨g, hg, decl, hdecl, hnone, herror⟩

theorem declareAll_ok (d : Draft) (fs : List FuncImage) (e : Engine) :
    ∃ (ids : Array FunctionId) (declared : Array (FunctionId × String)) (e' : Engine),
      declareAll d fs e = .ok (ids, { d with declared }) e' ∧ ids.size = fs.length ∧
        declared.toList.map Prod.fst = d.declared.toList.map Prod.fst ++ ids.toList ∧
        e'.types = e.types ∧ e'.modules = e.modules ∧
          e'.functions.size = e.functions.size + fs.length := by
  induction fs using List.reverseRecOn with
  | nil => exact ⟨#[], d.declared, e, rfl, rfl, by simp, rfl, rfl, rfl⟩
  | append_singleton fs f ih =>
    obtain ⟨ids, declared, e', hok, hsize, hdeclared, htypes, hmods, hfns⟩ := ih
    refine ⟨ids.push e'.reserveFunction.1, declared.push (e'.reserveFunction.1, f.name),
      e'.reserveFunction.2, ?_, ?_, ?_, htypes,
      hmods, ?_⟩
    · unfold declareAll at hok ⊢
      rw [List.foldlM_append, bind_of_ok hok]
      rfl
    · simp [hsize]
    · simp [hdeclared]
    · show (Array.push _ _).size = _
      simp [hfns]
      omega

/-- Why the function of an image cannot be made: it has no stack size, or something in it is not
known. -/
inductive Fails (r : Registry) (n : Image.Names) (f : FuncImage) : Stop ImageError → Prop where
  | overflow (h : Image.function r n f = .ok none) : Fails r n f .overflow
  | cause {err : ImageError} (h : Image.function r n f = .error err) : Fails r n f (.cause err)

theorem function_cases (n : Image.Names) (f : FuncImage) (e : Engine) :
    (∃ g, Image.function e.types n f = .ok (some g) ∧ function n f e = .ok g e) ∨
      ∃ stop, Fails e.types n f stop ∧ function n f e = .error stop e := by
  unfold function
  rw [get_bind]
  cases hfn : Image.function e.types n f with
  | error err => exact .inr ⟨.cause err, .cause hfn, rfl⟩
  | ok result =>
    cases result with
    | none => exact .inr ⟨.overflow, .overflow hfn, rfl⟩
    | some g => exact .inl ⟨g, rfl, rfl⟩

theorem find?_define (d : Draft) (id k : FunctionId) (f : Func) :
    ((d.define id f).defined.find? fun p => p.1 == k) =
      if k = id then some (id, { f with id, module := some d.id })
      else d.defined.find? fun p => p.1 == k := by
  unfold Draft.define
  rw [List.find?_cons]
  by_cases hk : k = id
  · simp [hk]
  · have hne : (id == k) = false := by simpa using fun h : id = k => hk h.symm
    simp only [hne, if_neg hk, List.find?_filter]
    congr 1
    funext p
    by_cases hp : p.1 = k
    · simp [hp, hk]
    · simp [hp]

/-- Under each id a function is found that its image describes, and other ids are left alone. -/
structure Defines (r : Registry) (n : Image.Names) (d : Draft) (fs : List (FuncImage × FunctionId))
    (defined : List (FunctionId × Func)) : Prop where
  made : ∀ p ∈ fs, ∃ g, Image.function r n p.1 = .ok (some g) ∧
    (defined.find? fun q => q.1 == p.2) = some (p.2, { g with id := p.2, module := some d.id })
  other : ∀ k, k ∉ fs.map Prod.snd →
    (defined.find? fun p => p.1 == k) = d.defined.find? fun p => p.1 == k

theorem Defines.cons {r : Registry} {n : Image.Names} {d : Draft} {f : FuncImage} {id : FunctionId}
    {g : Func} {fs : List (FuncImage × FunctionId)} {defined : List (FunctionId × Func)}
    (h : Defines r n (d.define id g) fs defined) (hg : Image.function r n f = .ok (some g))
    (hnew : id ∉ fs.map Prod.snd) :
    Defines r n d ((f, id) :: fs) defined where
  made p hp := by
    obtain rfl | hp := List.mem_cons.mp hp
    · refine ⟨g, hg, ?_⟩
      rw [h.other id hnew, find?_define, if_pos rfl]
    · exact h.made p hp
  other k hk := by
    simp only [List.map_cons, List.mem_cons, not_or] at hk
    rw [h.other k hk.2, find?_define, if_neg hk.1]

theorem defineAll_cases (n : Image.Names) (d : Draft) {fs : List (FuncImage × FunctionId)}
    (hnodup : (fs.map Prod.snd).Nodup) (e : Engine) :
    (∃ defined, defineAll n d fs e = .ok { d with defined } e ∧ Defines e.types n d fs defined) ∨
      ∃ p ∈ fs, ∃ stop, Fails e.types n p.1 stop ∧ defineAll n d fs e = .error stop e := by
  have hfold := foldlM_cases (e := e)
    (P := fun d fs d' => (fs.map Prod.snd).Nodup → ∃ defined,
      d' = { d with defined } ∧ Defines e.types n d fs defined)
    (Q := fun p stop => Fails e.types n p.1 stop)
    (f := fun d p => do return Draft.define d p.2 (← function n p.1))
    (fun d p => by
      obtain ⟨g, hg, hok⟩ | ⟨stop, hfails, herror⟩ := function_cases n p.1 e
      · refine .inl ⟨d.define p.2 g, by rw [bind_of_ok hok]; rfl, fun fs d' ih hnodup => ?_⟩
        obtain ⟨hnew, hnodup⟩ := List.nodup_cons.mp hnodup
        obtain ⟨defined, rfl, hdefs⟩ := ih hnodup
        exact ⟨defined, rfl, hdefs.cons hg hnew⟩
      · exact .inr ⟨stop, hfails, bind_of_error herror _⟩)
    (fun d _ => ⟨d.defined, rfl, fun p hp => absurd hp List.not_mem_nil, fun _ _ => rfl⟩) fs d
  obtain ⟨d', hok, hend⟩ | hfails := hfold
  · obtain ⟨defined, rfl, hdefs⟩ := hend hnodup
    exact .inl ⟨defined, hok, hdefs⟩
  · exact .inr hfails

theorem addInitializer_cases (n : Image.Names) (d : Draft) (init : Option FuncImage) (e : Engine) :
    (∃ initializer, addInitializer n d init e = .ok { d with initializer } e ∧
      (init = none → initializer = d.initializer) ∧
      ∀ f, init = some f → ∃ g, Image.function e.types n f = .ok (some g) ∧
        initializer = some { g with id := .moduleInit, module := some d.id }) ∨
      ∃ f, init = some f ∧ ∃ stop, Fails e.types n f stop ∧
        addInitializer n d init e = .error stop e := by
  cases init with
  | none => exact .inl ⟨d.initializer, rfl, fun _ => rfl, fun f hf => by cases hf⟩
  | some f =>
    obtain ⟨g, hg, hok⟩ | ⟨stop, hfails, herror⟩ := function_cases n f e
    · refine .inl ⟨_, bind_of_ok hok _, fun hf => (by cases hf), fun f' hf' => ?_⟩
      cases hf'
      exact ⟨g, hg, rfl⟩
    · exact .inr ⟨f, rfl, stop, hfails, bind_of_error herror _⟩

end Load

theorem Engine.Making.drafting {e e' : Engine} {d : Draft} (h : e.Making e' d)
    (hmods : e'.modules.size < 4294967296) (hfns : e'.functions.size ≤ 4294967296) :
    e'.Drafting [d] := by
  induction h with
  | begun name => exact (Engine.drafting_nil e).beginModule name hmods
  | @declared e' d h name ih =>
    have hsize : (e'.declare d name).2.1.functions.size = e'.functions.size + 1 := Array.size_push _
    have hbef : e'.Drafting ([] ++ d :: []) := ih hmods (by omega)
    exact hbef.declare name hfns
  | @edited e' d _ _ hedit ih =>
    have hbef : e'.Drafting ([] ++ d :: []) := ih hmods hfns
    exact hbef.edit hedit

namespace Image

/-- The types that are declared outside of functions: for globals, and for results and parameters of
imports. -/
def headDecls (i : Image) : List String :=
  i.globals.map GlobalImage.type ++ i.imports.flatMap fun g => g.returns :: g.params

def bodies (i : Image) : List FuncImage := i.functions ++ i.initializer.toList

/-- The ids that the loader gives out are numbers of 32 bits, and those of import slots have two
bits less. -/
structure Fits (i : Image) (e : Engine) : Prop where
  modules : e.modules.size + 1 < 4294967296
  functions : e.functions.size + i.functions.length ≤ 4294967296
  imports : i.imports.length < 1073741824

end Image

namespace Load

/-- The tables of an image when its functions are declared. -/
structure Outlined (i : Image) (types : List TypeId) (hosts : List FunctionId) (n : Image.Names)
    (d : Draft) : Prop where
  types_eq : n.types = types.toArray
  hosts_eq : n.hosts = hosts.toArray
  strings : Interned i.strings n.strings d.strings
  functions_size : n.functions.size = i.functions.length
  declared : d.declared.toList.map Prod.fst = n.functions.toList
  imports_eq : n.imports = i.imports.length
  imports_size : d.imports.size = i.imports.length

theorem makes_ok {e0 e : Engine} {d : Draft} (h : Makes e0 (.ok d e)) : e0.Making e d := by
  cases h with
  | ok h => exact h

theorem draft_outlined (i : Image) (types : List TypeId) (hosts : List FunctionId) (e : Engine) :
    (∃ decl ∈ i.headDecls, e.types.readType? decl = none ∧
      ∃ e', draft i types hosts e = .error (.cause (.unknownType decl)) e') ∨
    ∃ n d e', Outlined i types hosts n d ∧ d.initializer = none ∧ e.Making e' d ∧
      e'.types = e.types ∧
      e'.modules.size = e.modules.size + 1 ∧
        e'.functions.size = e.functions.size + i.functions.length ∧
      draft i types hosts e =
        (defineAll n d (i.functions.zip n.functions.toList) >>= fun d =>
          addInitializer n d i.initializer) e' := by
  -- The draft that is begun stays a variable, or each later draft would be written out in full.
  obtain ⟨d0, e0, hbegin⟩ : ∃ d0 e0, e.beginModule i.name = (d0, e0) := ⟨_, _, rfl⟩
  have hd0 : d0.strings = #[] ∧ d0.declared = #[] ∧ d0.imports = #[] ∧ d0.initializer = none := by
    cases hbegin
    exact ⟨rfl, rfl, rfl, rfl⟩
  have he0 : e0.types = e.types ∧ e0.functions = e.functions ∧
      e0.modules.size = e.modules.size + 1 := by
    cases hbegin
    exact ⟨rfl, rfl, Array.size_push _⟩
  have hmade0 : e.Making e0 d0 := by
    have hbegun : e.Making (e.beginModule i.name).2 (e.beginModule i.name).1 := .begun i.name
    rwa [hbegin] at hbegun
  have hstart : (modifyGet fun e => e.beginModule i.name : Load Draft) e = .ok d0 e0 := by
    cases hbegin
    rfl
  unfold draft
  rw [bind_of_ok hstart]
  obtain ⟨ids, strings, hstrings, hintd⟩ := addStrings_interned hd0.1 i.strings
  have hmade := addStrings_made i.strings hmade0
  rw [hstrings] at hmade ⊢
  obtain ⟨globals, storeWords, hgls⟩ | ⟨g, hg, hnone, herror⟩ :=
    addGlobals_cases { d0 with strings } i.globals e0
  · have hmade := makes_ok (hgls ▸ addGlobals_made i.globals hmade)
    obtain ⟨functions, declared, e1, hdeclare, hsize, hdeclared, htypes, hmods, hfns⟩ :=
      declareAll_ok { d0 with strings, globals, storeWords } i.functions e0
    have hmade : e.Making e1 { d0 with strings, globals, storeWords, declared } := by
      have hends := hdeclare ▸ declareAll_made i.functions hmade
      cases hends with
      | ok h => exact h
    obtain ⟨imports, himps, hcnt⟩ | ⟨g, hg, decl, hdecl, hnone, herror⟩ :=
      addImports_cases { d0 with strings, globals, storeWords, declared } i.imports e1
    · refine .inr
        ⟨{ types := types.toArray, hosts := hosts.toArray, functions, strings := ids,
           imports := i.imports.length },
        { d0 with strings, globals, storeWords, declared, imports }, e1, ⟨rfl, rfl, hintd, hsize,
          ?_, rfl, ?_⟩, hd0.2.2.2,
        makes_ok (himps ▸ addImports_made i.imports hmade), htypes.trans he0.1, ?_, ?_, ?_⟩
      · rw [hdeclared, hd0.2.1]
        rfl
      · rw [hcnt, hd0.2.2.1]
        exact Nat.zero_add _
      · rw [hmods, he0.2.2]
      · rw [hfns, he0.2.1]
      · exact (bind_of_ok hgls _).trans ((bind_of_ok hdeclare _).trans (bind_of_ok himps _))
    · rw [htypes, he0.1] at hnone
      exact .inl ⟨decl, List.mem_append_right _ (List.mem_flatMap.mpr ⟨g, hg, hdecl⟩), hnone, e1,
        (bind_of_ok hgls _).trans ((bind_of_ok hdeclare _).trans (bind_of_error herror _))⟩
  · rw [he0.1] at hnone
    exact .inl ⟨g.type, List.mem_append_left _ (List.mem_map_of_mem hg), hnone, e0,
      bind_of_error herror _⟩

/-- What the draft of an image holds when it is finished. -/
structure Drafted (i : Image) (types : List TypeId) (hosts : List FunctionId) (r : Registry)
    (n : Image.Names) (d : Draft) : Prop
    extends Outlined i types hosts n d where
  defined : ∀ (k : Nat) (f : FuncImage), i.functions[k]? = some f →
    ∃ id g, n.functions[k]? = some id ∧
    Image.function r n f = .ok (some g) ∧
    (d.defined.find? fun p => p.1 == id) = some (id, { g with id, module := some d.id })
  bare : i.initializer = none → d.initializer = none
  initializer : ∀ f, i.initializer = some f → ∃ g, Image.function r n f = .ok (some g) ∧
    d.initializer = some { g with id := .moduleInit, module := some d.id }

theorem Outlined.drafted {i : Image} {types : List TypeId} {hosts : List FunctionId} {r : Registry}
    {n : Image.Names} {d : Draft}
    {defined : List (FunctionId × Func)} {initializer : Option Func} (h : Outlined i types hosts n d)
    (hdefs : Defines r n d (i.functions.zip n.functions.toList) defined)
    (hbare : i.initializer = none → initializer = none)
    (hinit : ∀ f, i.initializer = some f → ∃ g, Image.function r n f = .ok (some g) ∧
      initializer = some { g with id := .moduleInit, module := some d.id }) :
    Drafted i types hosts r n { d with defined, initializer } where
  toOutlined := { h with }
  bare := hbare
  initializer := hinit
  defined k f hf := by
    obtain ⟨id, hid⟩ : ∃ id, n.functions[k]? = some id := by
      have hlt := (List.getElem?_eq_some_iff.mp hf).1
      exact ⟨_, Array.getElem?_eq_getElem (h.functions_size ▸ hlt)⟩
    have hmem : (f, id) ∈ i.functions.zip n.functions.toList := by
      refine List.mem_of_getElem? (i := k) ?_
      simp [List.getElem?_zip_eq_some, hf, hid]
    obtain ⟨g, hg, hfind⟩ := hdefs.made (f, id) hmem
    exact ⟨id, g, hid, hg, hfind⟩

/-- The draft of an image is finished, a declaration is not read or a function cannot be made. -/
theorem draft_cases {i : Image} {e : Engine} (hfits : i.Fits e) (types : List TypeId)
    (hosts : List FunctionId) : (∃ n d e',
      Drafted i types hosts e.types n d ∧ e.Making e' d ∧ e'.types = e.types ∧ e'.Drafting [d] ∧
      draft i types hosts e = .ok d e') ∨
    (∃ decl ∈ i.headDecls, e.types.readType? decl = none ∧
      ∃ e', draft i types hosts e = .error (.cause (.unknownType decl)) e') ∨
    ∃ n d stop e', Outlined i types hosts n d ∧ (∃ f ∈ i.bodies, Fails e.types n f stop) ∧
      draft i types hosts e = .error stop e' := by
  obtain hhead | ⟨n, d, e', houtl, hbare, hmade, htypes, hmods, hfns, hdraft⟩ :=
    draft_outlined i types hosts e
  · exact .inr (.inl hhead)
  have hdr {d : Draft} (hmade : e.Making e' d) : e'.Drafting [d] :=
    hmade.drafting (by rw [hmods]; exact hfits.modules) (by rw [hfns]; exact hfits.functions)
  have hids : (i.functions.zip n.functions.toList).map Prod.snd = n.functions.toList :=
    List.map_snd_zip (by simp [houtl.functions_size])
  -- A definition takes the place of an earlier one of the same id, so the ids have to differ.
  have hnodup : ((i.functions.zip n.functions.toList).map Prod.snd).Nodup := by
    rw [hids, ← houtl.declared]
    simpa using (hdr hmade).declared_once
  have hmake := hdraft ▸ draft_made i types hosts e
  rw [hdraft]
  obtain ⟨defined, hdefine, hdefs⟩ | ⟨p, hp, stop, hfails, herror⟩ := defineAll_cases n d hnodup e'
  · obtain ⟨initializer, hinit, hnone, hsome⟩ | ⟨f, hf, stop, hfails, herror⟩ :=
      addInitializer_cases n { d with defined } i.initializer e'
    · have hok := (bind_of_ok hdefine fun d => addInitializer n d i.initializer).trans hinit
      rw [hok] at hmake
      have hmade := makes_ok hmake
      rw [htypes] at hdefs hsome
      exact .inl ⟨n, { d with defined, initializer }, e',
        houtl.drafted hdefs (fun h => (hnone h).trans hbare) hsome, hmade,
        htypes, hdr hmade, hok⟩
    · refine .inr (.inr ⟨n, d, stop, e', houtl, ⟨f, ?_, htypes ▸ hfails⟩,
        (bind_of_ok hdefine _).trans herror⟩)
      simp [Image.bodies, hf]
  · refine .inr (.inr ⟨n, d, stop, e', houtl, ⟨p.1, ?_, htypes ▸ hfails⟩, bind_of_error herror _⟩)
    exact List.mem_append_left _ (List.of_mem_zip hp).1

end Load

end ScriptVm
