import ScriptVm.Proofs.Image.Relocation

namespace ScriptVm

inductive Table where
  | strings | globals | imports
  deriving DecidableEq

/-- How many places of a table have a number of their own. -/
def Table.limit : Table → Nat
  | strings | globals => 65536
  | imports => 1073741823

/-- What is entered into a module in the making, and the number that is handed out for it. -/
inductive Ticket where
  | string (text : String) (index : UInt16)
  | global (name : String) (type : DataType) (index : UInt16)
  | imported (declaration : Func) (id : FunctionId)

namespace Ticket

def table : Ticket → Table
  | string _ _ => .strings
  | global _ _ _ => .globals
  | imported _ _ => .imports

/-- The entry stands at a place of its table. Of an import, the declaration is kept without code. -/
def StandsAt (m : Module) : Ticket → Nat → Prop
  | string text _, n => m.strings[n]? = some text
  | global name type _, n => ∃ g, m.globals[n]? = some g ∧ g.name = name ∧ g.type = type
  | imported f id, n =>
    m.imports[n]? =
      some { declaration := { f with id, kind := .imported, module := some m.id, code := #[] } }

/-- The number that is handed out for a place. -/
def Numbers : Ticket → Nat → Prop
  | string _ index, n | global _ _ index, n => index = n.toUInt16
  | imported _ id, n => id = FunctionId.ofImport n

/-- The place that a number names. -/
def place? : Ticket → Option Nat
  | string _ index | global _ _ index => some index.toNat
  | imported _ id => id.importIndex?

theorem place?_of_numbers {t : Ticket} {n : Nat} (h : t.Numbers n) (hn : n < t.table.limit) :
    t.place? = some n := by
  cases t with
  | string | global =>
    cases h
    have hn : n < 65536 := hn
    simp [place?, Nat.mod_eq_of_lt hn]
  | imported f id =>
    cases h
    exact FunctionId.importIndex?_ofImport hn

/-- Where the tables only grow, an entry stands where it stood. -/
theorem StandsAt.mono {m m' : Module} {t : Ticket} {n : Nat} (h : t.StandsAt m n)
    (hid : m'.id = m.id) (hstrings : ∀ text, m.strings[n]? = some text → m'.strings[n]? = some text)
    (hglobals : ∀ g, m.globals[n]? = some g → m'.globals[n]? = some g)
    (himports : ∀ i, m.imports[n]? = some i → m'.imports[n]? = some i) : t.StandsAt m' n := by
  cases t with
  | string text index => exact hstrings text h
  | global name type index =>
    obtain ⟨g, hg, hrest⟩ := h
    exact ⟨g, hglobals g hg, hrest⟩
  | imported f id =>
    rw [StandsAt, hid]
    exact himports _ h

end Ticket

/-- The tables of a draft hold what was entered. Globals and imports stand in the order in which
they were entered, and a string stands there once. -/
structure Draft.Lists (d : Draft) (tickets : List Ticket) : Prop where
  entries : ∀ k t, tickets[k]? = some t → ∃ n, t.StandsAt (d.toModule #[]) n ∧ t.Numbers n ∧
    (t.table ≠ .strings → n = (tickets.take k).countP (·.table = t.table))
  strings_once : d.strings.toList.Nodup
  globals_size : d.globals.size = tickets.countP (·.table = .globals)
  imports_size : d.imports.size = tickets.countP (·.table = .imports)

namespace Draft.Lists

variable {d d' : Draft} {tickets : List Ticket}

/-- A draft whose tables are those of another one. -/
theorem of_same (h : d.Lists tickets) (hid : d'.id = d.id) (hstrings : d'.strings = d.strings)
    (hglobals : d'.globals = d.globals) (himports : d'.imports = d.imports) : d'.Lists tickets := by
  have hstands (t : Ticket) (n : Nat) (hn : t.StandsAt (d.toModule #[]) n) :
      t.StandsAt (d'.toModule #[]) n := by
    cases t <;> simpa only [Ticket.StandsAt, toModule, hid, hstrings, hglobals, himports] using hn
  refine ⟨fun k t hk => ?_, hstrings ▸ h.strings_once, hglobals ▸ h.globals_size,
    himports ▸ h.imports_size⟩
  obtain ⟨n, hn, hrest⟩ := h.entries k t hk
  exact ⟨n, hstands t n hn, hrest⟩

/-- One more entry. -/
theorem push {t : Ticket} {n : Nat} (h : d.Lists tickets)
    (hkept : ∀ (t' : Ticket) (n' : Nat),
      t'.StandsAt (d.toModule #[]) n' → t'.StandsAt (d'.toModule #[]) n')
    (hstands : t.StandsAt (d'.toModule #[]) n) (hnumbers : t.Numbers n)
    (hrank : t.table ≠ .strings → n = tickets.countP (·.table = t.table))
    (honce : d'.strings.toList.Nodup)
    (hglobals : d'.globals.size = d.globals.size + [t].countP (·.table = .globals))
    (himports : d'.imports.size = d.imports.size + [t].countP (·.table = .imports)) :
    d'.Lists (tickets ++ [t]) where
  entries k t' hk := by
    by_cases hlt : k < tickets.length
    · rw [List.getElem?_append_left hlt] at hk
      rw [List.take_append_of_le_length (Nat.le_of_lt hlt)]
      obtain ⟨n', hn', hrest⟩ := h.entries k t' hk
      exact ⟨n', hkept t' n' hn', hrest⟩
    · have hlast : k = tickets.length := by
        have := (List.getElem?_eq_some_iff.mp hk).1
        simp only [List.length_append, List.length_singleton] at this
        omega
      subst hlast
      have ht : t = t' := by simpa using hk
      subst ht
      rw [List.take_left]
      exact ⟨n, hstands, hnumbers, hrank⟩
  strings_once := honce
  globals_size := by rw [hglobals, h.globals_size, List.countP_append]
  imports_size := by rw [himports, h.imports_size, List.countP_append]

/-- A string that is there is not entered again. -/
theorem strings_addString (h : d.strings.toList.Nodup) (text : String) :
    (d.addString text).2.strings.toList.Nodup := by
  unfold Draft.addString
  split
  · exact h
  · rename_i hnone
    have hnot : text ∉ d.strings := fun hmem => by
      simpa using Array.findIdx?_eq_none_iff.mp hnone text hmem
    show (d.strings.push text).toList.Nodup
    rw [Array.toList_push]
    exact List.nodup_append_comm.mp
      (List.nodup_cons.mpr ⟨fun hmem => hnot (Array.mem_toList_iff.mp hmem), h⟩)

theorem addString (h : d.Lists tickets) (text : String) :
    (d.addString text).2.Lists (tickets ++ [.string text (d.addString text).1]) := by
  have honce := strings_addString h.strings_once text
  obtain ⟨n, strings, hadd, -, htext, -, hkept⟩ := Load.addString_eq d text
  rw [hadd] at honce ⊢
  refine h.push (n := n) (fun t' n' hn' => ?_) htext rfl (fun hne => absurd rfl hne) honce rfl rfl
  exact hn'.mono rfl (hkept n') (fun _ h => h) fun _ h => h

theorem addGlobal (h : d.Lists tickets) (name : String) (type : DataType) :
    (d.addGlobal name type).2.Lists (tickets ++ [.global name type (d.addGlobal name type).1]) := by
  refine h.push (n := d.globals.size) (fun t' n' hn' => ?_) ⟨_, Array.getElem?_push_size, rfl,
    rfl⟩ rfl (fun _ => h.globals_size)
    h.strings_once (Array.size_push _) rfl
  exact hn'.mono rfl (fun _ h => h) (fun _ hg => getElem?_push_of_some hg _) fun _ h => h

theorem addImport (h : d.Lists tickets) (f : Func) :
    (d.addImport f).2.Lists (tickets ++ [.imported f (d.addImport f).1]) := by
  have himports : ((d.addImport f).2.toModule #[]).imports = (d.toModule #[]).imports.push
      { declaration := { f with id := (d.addImport f).1, kind := .imported, module := some d.id,
                                code := #[] } } := Array.map_push
  have hsize : (d.toModule #[]).imports.size = d.imports.size := Array.size_map
  refine h.push (n := d.imports.size) (fun t' n' hn' => ?_) ?_ rfl
    (fun _ => h.imports_size) h.strings_once rfl (Array.size_push _)
  · refine hn'.mono rfl (fun _ h => h) (fun _ h => h) fun i hi => ?_
    rw [himports]
    exact getElem?_push_of_some hi _
  · show ((d.addImport f).2.toModule #[]).imports[d.imports.size]? = some _
    rw [himports, ← hsize]
    exact Array.getElem?_push_size

end Draft.Lists

namespace Engine

/-- A module is being made: strings, globals and imports are entered in any order, and functions are
declared and defined meanwhile. -/
inductive Filling (e : Engine) : Engine → Draft → List Ticket → Prop where
  | begun (name : String) : Filling e (e.beginModule name).2 (e.beginModule name).1 []
  | declared {e' : Engine} {d : Draft} {tickets : List Ticket} (h : Filling e e' d tickets)
      (name : String) : Filling e (e'.declare d name).2.1 (e'.declare d name).2.2 tickets
  | defined {e' : Engine} {d : Draft} {tickets : List Ticket} (h : Filling e e' d tickets)
      (id : FunctionId) (f : Func) : Filling e e' (d.define id f) tickets
  | initialized {e' : Engine} {d : Draft} {tickets : List Ticket} (h : Filling e e' d tickets)
      (f : Func) : Filling e e' (d.setInitializer f) tickets
  | string {e' : Engine} {d : Draft} {tickets : List Ticket} (h : Filling e e' d tickets)
      (text : String) :
    Filling e e' (d.addString text).2 (tickets ++ [.string text (d.addString text).1])
  | global {e' : Engine} {d : Draft} {tickets : List Ticket} (h : Filling e e' d tickets)
    (name : String) (type : DataType) :
    Filling e e' (d.addGlobal name type).2 (tickets ++ [.global name type (d.addGlobal name type).1])
  | imported {e' : Engine} {d : Draft} {tickets : List Ticket} (h : Filling e e' d tickets)
      (f : Func) : Filling e e' (d.addImport f).2 (tickets ++ [.imported f (d.addImport f).1])

variable {e e' : Engine} {d : Draft} {tickets : List Ticket}

theorem Filling.lists (h : e.Filling e' d tickets) : d.Lists tickets := by
  induction h with
  | begun name =>
    refine ⟨fun k t hk => ?_, List.nodup_nil, rfl, rfl⟩
    rw [List.getElem?_nil] at hk
    cases hk
  | declared _ name ih => exact ih.of_same rfl rfl rfl rfl
  | defined _ id f ih => exact ih.of_same rfl rfl rfl rfl
  | initialized _ f ih => exact ih.of_same rfl rfl rfl rfl
  | string _ text ih => exact ih.addString text
  | global _ name type ih => exact ih.addGlobal name type
  | imported _ f ih => exact ih.addImport f

theorem Filling.begun_place (h : e.Filling e' d tickets) :
    e'.modules.size = e.modules.size + 1 ∧ d.id = ⟨(e.modules.size + 1).toUInt32⟩ := by
  induction h with
  | begun name => exact ⟨Array.size_push _, rfl⟩
  | declared _ name ih => exact ih
  | defined _ id f ih => exact ih
  | initialized _ f ih => exact ih
  | @string e' d _ _ text ih =>
    rw [(Draft.Edit.addString d text).id_eq]
    exact ih
  | global _ name type ih => exact ih
  | imported _ f ih => exact ih

theorem built?_install_self {m : Module} (hid : m.id.val ≠ 0)
    (hbegun : m.id.val.toNat ≤ e.modules.size) : (e.install m).built? m.id = some m := by
  simp [built?, hid, install, index_lt hid hbegun]

/-- The module that is built holds the tables of its draft, if the numbers for modules have not run
out. -/
theorem Filling.built {id : ModuleId} (h : e.Filling e' d tickets)
    (hroom : e.modules.size + 1 < 4294967296) (hbuild : (e'.build d).1 = .ok id) :
    ∃ functions, (e'.build d).2.built? id = some (d.toModule functions) := by
  obtain ⟨hsize, hid⟩ := h.begun_place
  obtain ⟨hidle, rfl, -⟩ := build_eq_ok.mp hbuild
  have hval : d.id.val.toNat = e.modules.size + 1 := by
    rw [hid]
    simp
    omega
  rw [build_of_idle hidle] at hbuild ⊢
  obtain ⟨err, herr⟩ | ⟨functions, -, -, -, hinst⟩ := finish_cases e' d
  · rw [herr] at hbuild
    cases hbuild
  · refine ⟨functions, ?_⟩
    rw [hinst]
    refine built?_install_self (m := d.toModule functions) ?_ ?_
    · intro h0
      have h0 : d.id.val = 0 := h0
      rw [h0] at hval
      simp at hval
    · show d.id.val.toNat ≤ e'.modules.size
      omega

theorem Filling.string_place (h : e.Filling e' d tickets) {text : String} {n n' : Nat}
    (hn : d.strings[n]? = some text) (hn' : d.strings[n']? = some text) : n = n' := by
  have hlt := (Array.getElem?_eq_some_iff.mp hn).1
  have hsame : d.strings.toList[n]? = d.strings.toList[n']? := by
    rw [Array.getElem?_toList, Array.getElem?_toList, hn, hn']
  exact (List.getElem?_inj (by simpa using hlt) h.lists.strings_once).mp hsame

/-- Strings that are equal have the same number; others have different ones if there are not too
many strings for that. -/
theorem Filling.string_numbers (h : e.Filling e' d tickets) {text text' : String}
    {index index' : UInt16} (hstring : .string text index ∈ tickets)
    (hstring' : .string text' index' ∈ tickets) :
    (text = text' → index = index') ∧ (d.strings.size ≤ 65536 → index = index' → text = text') := by
  obtain ⟨k, hk⟩ := List.mem_iff_getElem?.mp hstring
  obtain ⟨k', hk'⟩ := List.mem_iff_getElem?.mp hstring'
  obtain ⟨n, hn, hnumber, -⟩ := h.lists.entries k _ hk
  obtain ⟨n', hn', hnumber', -⟩ := h.lists.entries k' _ hk'
  have hn : d.strings[n]? = some text := hn
  have hn' : d.strings[n']? = some text' := hn'
  have hnumber : index = n.toUInt16 := hnumber
  have hnumber' : index' = n'.toUInt16 := hnumber'
  have hlt := (Array.getElem?_eq_some_iff.mp hn).1
  have hlt' := (Array.getElem?_eq_some_iff.mp hn').1
  constructor
  · rintro rfl
    rw [hnumber, hnumber', h.string_place hn hn']
  · rintro hfew rfl
    have hplace : n % 65536 = n' % 65536 := by
      have := congrArg UInt16.toNat (hnumber.symm.trans hnumber')
      simpa using this
    have hplaces : n = n' := by omega
    subst hplaces
    exact Option.some.inj (hn.symm.trans hn')

/-- Every number that is handed out stands for the place of its entry, and names it as long as the
place is below the limit of its table. Places of globals and imports are counted; a string has one
place only, which equal strings share. -/
theorem numbers_name_entries {id : ModuleId} (h : e.Filling e' d tickets)
    (hroom : e.modules.size + 1 < 4294967296) (hbuild : (e'.build d).1 = .ok id) :
    ∃ m, (e'.build d).2.built? id = some m ∧
      (∀ k t, tickets[k]? = some t → ∃ n,
        t.StandsAt m n ∧ t.Numbers n ∧ (n < t.table.limit → t.place? = some n) ∧
        (t.table ≠ .strings → n = (tickets.take k).countP (·.table = t.table)) ∧
        (t.table = .strings → ∀ n', t.StandsAt m n' → n' = n)) ∧
      ∀ text text' index index', .string text index ∈ tickets → .string text' index' ∈ tickets →
        (text = text' → index = index') ∧
          (m.strings.size ≤ 65536 → index = index' → text = text') := by
  obtain ⟨functions, hbuilt⟩ := h.built hroom hbuild
  refine ⟨d.toModule functions, hbuilt, fun k t hk => ?_, fun _ _ _ _ => h.string_numbers⟩
  obtain ⟨n, hstands, hnumbers, hrank⟩ := h.lists.entries k t hk
  -- The functions of a module do not change its tables.
  have hstands : t.StandsAt (d.toModule functions) n := by cases t <;> exact hstands
  refine ⟨n, hstands, hnumbers, Ticket.place?_of_numbers hnumbers, hrank, fun htable n' hn' => ?_⟩
  cases t with
  | string text index => exact h.string_place hn' hstands
  | global | imported => cases htable

/-- A module without functions is always built if it is the first one. -/
theorem build_without_functions (name : String) (hdecl : d.declared = #[])
    (hinit : d.initializer = none) : ((({} : Engine).beginModule name).2.build d).1 = .ok d.id := by
  refine build_eq_ok.mpr ⟨rfl, rfl, #[], ?_, fun _ => ?_, rfl⟩
  · rw [Draft.functions, hdecl, Array.mapM_empty]
    rfl
  · have hnone : (d.toModule #[]).initializer = none := hinit
    rw [checkModule_eq_ok, hnone]
    rfl

/-- A string that is entered twice, and a global between. -/
theorem numbers_name_entries_twice :
    let e := (({} : Engine).beginModule "small").2
    let d := ((((({} : Engine).beginModule "small").1.addString "ready").2.addGlobal "count"
      .int).2.addString "ready").2
    ∃ m, (e.build d).2.built? d.id = some m ∧ (Ticket.global "count" .int 0).StandsAt m 0 := by
  intro e d
  have hfilling :=
    (((Filling.begun (e := {}) "small").string "ready").global "count" .int).string "ready"
  have hsame (d : Draft) : (d.addString "ready").2.declared = d.declared ∧
      (d.addString "ready").2.initializer = d.initializer := by
    obtain ⟨_, _, hadd, -⟩ := Load.addString_eq d "ready"
    rw [hadd]
    exact ⟨rfl, rfl⟩
  have hbuild : (e.build d).1 = .ok d.id :=
    build_without_functions "small" ((hsame _).1.trans (hsame _).1) ((hsame _).2.trans (hsame _).2)
  obtain ⟨m, hbuilt, hentries, -⟩ := numbers_name_entries hfilling (by decide) hbuild
  obtain ⟨n, hstands, -, -, hrank, -⟩ := hentries 1 _ rfl
  rw [hrank (by decide)] at hstands
  exact ⟨m, hbuilt, hstands⟩

/-- Globals with one name, as many as asked for. -/
theorem filling_globals (n : Nat) :
    ∃ d tickets, ({} : Engine).Filling (({} : Engine).beginModule "many").2 d tickets ∧
    d.globals.size = n ∧ (0 < n → d.globals[0]?.map Global.name = some "first") ∧
      (0 < n → .global "first" .int 0 ∈ tickets) ∧
    d.declared = #[] ∧ d.initializer = none := by
  induction n with
  | zero => exact ⟨_, _, .begun "many", rfl, by simp, by simp, rfl, rfl⟩
  | succ n ih =>
    obtain ⟨d, tickets, hfilling, hsize, hfirst, hticket, hdecl, hinit⟩ := ih
    refine ⟨_, _, hfilling.global "first" .int, ?_, fun _ => ?_, fun _ => ?_, hdecl, hinit⟩
    · show (d.globals.push _).size = n + 1
      rw [Array.size_push, hsize]
    · show (d.globals.push _)[0]?.map Global.name = some "first"
      obtain rfl | hpos := Nat.eq_zero_or_pos n
      · rw [Array.getElem?_push, if_pos hsize.symm]
        rfl
      · rw [Array.getElem?_push, if_neg (by omega)]
        exact hfirst hpos
    · obtain rfl | hpos := Nat.eq_zero_or_pos n
      · have hzero : (d.addGlobal "first" .int).1 = 0 := congrArg Nat.toUInt16 hsize
        simp [hzero]
      · exact List.mem_append_left _ (hticket hpos)

/-- The global after the first 65536 ones has the number of the first one. -/
theorem global_number_repeats :
    ∃ e' d tickets m, ({} : Engine).Filling e' d tickets ∧ (e'.build d).1 = .ok d.id ∧
    (e'.build d).2.built? d.id = some m ∧ .global "first" .int 0 ∈ tickets ∧
      .global "last" .double 0 ∈ tickets ∧
    m.globals[0]?.map Global.name = some "first" := by
  obtain ⟨d, tickets, hfilling, hsize, hfirst, hticket, hdecl, hinit⟩ := filling_globals 65536
  have hlast := hfilling.global "last" .double
  have hzero : (d.addGlobal "last" .double).1 = 0 := by
    show d.globals.size.toUInt16 = 0
    rw [hsize]
    rfl
  rw [hzero] at hlast
  have hbuild := build_without_functions "many" (d := (d.addGlobal "last" .double).2) hdecl hinit
  obtain ⟨functions, hbuilt⟩ := hlast.built (by decide) hbuild
  refine ⟨_, _, _, _, hlast, hbuild, hbuilt,
    List.mem_append_left _ (hticket (by decide)), by simp, ?_⟩
  show (d.globals.push _)[0]?.map Global.name = some "first"
  rw [Array.getElem?_push, if_neg (by omega)]
  exact hfirst (by decide)

end Engine

end ScriptVm
