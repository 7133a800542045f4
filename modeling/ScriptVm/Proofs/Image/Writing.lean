import ScriptVm.Image.Json
import ScriptVm.Proofs.Instr.Canonical
import ScriptVm.Proofs.Json.Numbers
import ScriptVm.Proofs.Json.Text

namespace ScriptVm

open Json

/-- A value that can be written and stands for something when it is read. -/
structure Json.Means {α : Type} (read : Json → Option α) (j : Json) (a : α) : Prop where
  legible : j.Legible
  back : read j = some a

namespace Json

variable {α : Type} {read : Json → Option α} {fs : List (String × Json)}

theorem means_text (s : String) : Means string? (text s) s := ⟨.string s, rfl⟩

theorem means_bool (b : Bool) : Means bool? (.bool b) b := ⟨.bool b, rfl⟩

theorem legible_nat (n : Nat) : (nat n).Legible := by
  refine .number ?_
  rw [Nat.toString_eq_repr, Nat.toList_repr,
    show Number.read? (Nat.toDigits 10 n) = _ from Number.read?_digits false n]
  rfl

theorem legible_int (v : Int) : (int v).Legible := by
  refine .number ?_
  rw [Int.toString_eq_repr, Int.repr_eq_if]
  split
  · rw [Nat.toList_repr, show Number.read? (Nat.toDigits 10 _) = _ from Number.read?_digits false _]
    rfl
  · have htext : ("-" ++ (-v).toNat.repr).toList = ['-'] ++ Nat.toDigits 10 (-v).toNat := by
      rw [String.toList_append, Nat.toList_repr]
      rfl
    rw [htext, show Number.read? (['-'] ++ Nat.toDigits 10 _) = _ from Number.read?_digits true _]
    rfl

theorem means_word (w : UInt32) : Means word? (nat w.toNat) w := by
  refine ⟨legible_nat _, ?_⟩
  rw [word?, natural?_nat w.toNat_lt (by decide), Option.map_some, Nat.toUInt32_eq,
    UInt32.ofNat_toNat]

theorem means_half (w : UInt16) : Means half? (nat w.toNat) w := by
  refine ⟨legible_nat _, ?_⟩
  rw [half?, natural?_nat w.toNat_lt (by decide), Option.map_some, Nat.toUInt16_eq,
    UInt16.ofNat_toNat]

theorem means_offset (v : Int16) : Means offset? (int v.toInt) v := by
  refine ⟨legible_int _, ?_⟩
  rw [offset?, integer?_int (by decide) v.le_toInt v.toInt_lt, Option.map_some]
  simp

theorem Means.list {write : α → Json} {xs : List α} (h : ∀ x ∈ xs, Means read (write x) x) :
    Means (list? read) (.array (xs.map write)) xs := by
  constructor
  · refine .array fun v hv => ?_
    obtain ⟨x, hx, rfl⟩ := List.mem_map.mp hv
    exact (h x hx).legible
  · show (xs.map write).mapM read = some xs
    induction xs with
    | nil => rfl
    | cons x xs ih =>
      rw [List.map_cons, List.mapM_cons, (h x List.mem_cons_self).back,
        ih fun y hy => h y (List.mem_cons_of_mem _ hy)]
      rfl

/-- A value that may be missing is written as null if it is, so it must not be written as null if it
is not. -/
theorem Means.opt {write : α → Json} {o : Option α} (hnull : ∀ x, write x ≠ .null)
    (h : ∀ x ∈ o, Means read (write x) x) : Means (nullable? read) (.opt write o) o := by
  cases o with
  | none => exact ⟨.null, rfl⟩
  | some x =>
    obtain ⟨hleg, hback⟩ := h x rfl
    refine ⟨hleg, ?_⟩
    show nullable? read (write x) = some (some x)
    unfold nullable?
    split
    · exact absurd ‹_› (hnull x)
    · rw [hback]
      rfl

theorem legible_fields (h : ∀ f ∈ fs, f.2.Legible) : (fields fs).Legible := by
  refine .object (fun f hf => ?_) fun f hf => ?_
  · obtain ⟨g, -, rfl⟩ := List.mem_map.mp hf
    rfl
  · obtain ⟨g, hg, rfl⟩ := List.mem_map.mp hf
    exact h g hg

theorem filter_fields (hnames : (fs.map Prod.fst).Nodup) {f : String × Json} (hf : f ∈ fs) :
    (fs.map fun g => (some g.1, g.2)).filter (fun g => g.1 == some f.1) = [(some f.1, f.2)] := by
  induction fs with
  | nil => cases hf
  | cons g fs ih =>
    rw [List.map_cons, List.nodup_cons] at hnames
    obtain ⟨hnew, hnames⟩ := hnames
    obtain rfl | hf := List.mem_cons.mp hf
    · have hnone : (fs.map fun g => (some g.1, g.2)).filter (fun g => g.1 == some f.1) = [] := by
        refine List.filter_eq_nil_iff.mpr fun e he hsame => ?_
        obtain ⟨g, hg, rfl⟩ := List.mem_map.mp he
        refine hnew (List.mem_map.mpr ⟨g, hg, ?_⟩)
        simpa using hsame
      rw [List.map_cons, List.filter_cons_of_pos (by simp), hnone]
    · have hother : g.1 ≠ f.1 := fun e => hnew (e ▸ List.mem_map_of_mem hf)
      rw [List.map_cons, List.filter_cons_of_neg (by simpa using hother), ih hnames hf]

theorem record?_fields {part : List (String × Json)} (hnames : (fs.map Prod.fst).Nodup)
    (hpart : part ⊆ fs) :
    (fields fs).record? (part.map Prod.fst) = some (part.map fun f => some f.2) := by
  have hkeys : ((fs.map fun f => (some f.1, f.2)).all fun f => f.1.isSome) = true := by simp
  induction part with
  | nil => rw [fields, record?, if_pos hkeys, List.map_nil, List.mapM_nil]; rfl
  | cons f part ih =>
    have hrest := ih fun g hg => hpart (List.mem_cons_of_mem _ hg)
    rw [fields, record?, if_pos hkeys] at hrest ⊢
    rw [List.map_cons, List.mapM_cons, filter_fields hnames (hpart List.mem_cons_self), hrest]
    rfl

theorem bind_record? {names : List String} (hnames : names.Nodup) (hfs : fs.map Prod.fst = names)
    {k : List (Option Json) → Option α} {a : α} (hk : k (fs.map fun f => some f.2) = some a) :
    ((fields fs).record? names >>= k) = some a := by
  subst hfs
  rw [record?_fields hnames (List.Subset.refl fs), Option.bind_eq_bind, Option.bind_some, hk]

end Json

/-- No operand of an instruction is a floating-point number. -/
def Instr.FloatFree (i : Instr) : Prop := ∀ o ∈ i.operands, o.kind ≠ .single

instance (i : Instr) : Decidable i.FloatFree :=
  inferInstanceAs (Decidable (∀ o ∈ i.operands, o.kind ≠ .single))

namespace Opcode

theorem mnemonics_nodup : (table.map fun r => r.2.2).Nodup := by decide +kernel

theorem ofMnemonic?_mnemonic (op : Opcode) : ofMnemonic? op.mnemonic = some op :=
  find?_row Prod.snd mnemonics_nodup op

end Opcode

theorem means_operand {o : Operand} (h : o.kind ≠ .single) : Means o.kind.ofJson? o.toJson o := by
  cases o with
  | half v => exact ⟨(means_half v).legible, congrArg (Option.map _) (means_half v).back⟩
  | var v => exact ⟨(means_offset v).legible, congrArg (Option.map _) (means_offset v).back⟩
  | word v => exact ⟨(means_word v).legible, congrArg (Option.map _) (means_word v).back⟩
  | int v =>
    refine ⟨legible_int _, ?_⟩
    show (integer? 32 (int v.toInt)).map _ = _
    rw [integer?_int (by decide) v.le_toInt v.toInt_lt, Option.map_some]
    simp
  | qword v =>
    refine ⟨legible_nat _, ?_⟩
    show (natural? _ (nat v.toNat)).map _ = _
    rw [natural?_nat v.toNat_lt (by decide), Option.map_some, Nat.toUInt64_eq, UInt64.ofNat_toNat]
  | single v => exact absurd rfl h
  | function v | type v =>
    exact ⟨(means_word v.val).legible, congrArg (Option.map _) (means_word v.val).back⟩

theorem operandsOfJson?_toJson {os : List Operand} (h : ∀ o ∈ os, o.kind ≠ .single) :
    operandsOfJson? (os.map Operand.kind) (os.map Operand.toJson) = some os := by
  induction os with
  | nil => rfl
  | cons o os ih =>
    rw [List.map_cons, List.map_cons, operandsOfJson?, (means_operand (h o List.mem_cons_self)).back,
      ih fun o' ho' => h o' (List.mem_cons_of_mem _ ho')]
    rfl

/-- The number of operands decides the form, and the mnemonic decides the number. -/
theorem means_instr {i : Instr} (h : i.FloatFree) : Means Instr.ofJson? i.toJson i := by
  have hkinds := i.kinds_operands
  have hmade := i.ofOperands?_operands
  have hop := Opcode.ofMnemonic?_mnemonic i.opcode
  have hoperands := operandsOfJson?_toJson h
  unfold Instr.toJson
  cases hos : i.operands with
  | nil =>
    rw [hos] at hkinds hmade
    refine ⟨.string _, ?_⟩
    simp [Instr.ofJson?, text, hop, ← hkinds, hmade]
  | cons o os =>
    cases os with
    | nil =>
      have ho := means_operand (h o (hos ▸ List.mem_cons_self))
      rw [hos] at hkinds hmade
      refine ⟨legible_fields (by simpa using ho.legible), ?_⟩
      simp [Instr.ofJson?, fields, hop, ← hkinds, hmade, ho.back]
    | cons o' os =>
      rw [hos] at hkinds hmade hoperands
      constructor
      · have hleg : (array ((o :: o' :: os).map Operand.toJson)).Legible := by
          refine .array fun v hv => ?_
          obtain ⟨x, hx, rfl⟩ := List.mem_map.mp hv
          exact (means_operand (h x (hos ▸ hx))).legible
        exact legible_fields (by simpa using hleg)
      · simp only [List.map_cons] at hkinds hoperands
        simp only [Instr.ofJson?, fields, List.map_cons, List.map_nil, hop, ← hkinds,
          Option.bind_eq_bind, Option.bind_some,
          hoperands, hmade]

theorem means_typeImage (t : TypeImage) : Means TypeImage.ofJson? t.toJson t := by
  have hhandles : Means (list? Json.word?) _ t.handleFields := Means.list fun w _ => means_word w
  constructor
  · refine legible_fields ?_
    simp [(means_text t.name).legible, (means_word t.fields).legible, (means_bool _).legible,
      hhandles.legible]
  · refine bind_record? (by simp) rfl ?_
    simp [orDefault, (means_text t.name).back, (means_word t.fields).back, (means_bool _).back,
      hhandles.back]

theorem means_globalImage (g : GlobalImage) : Means GlobalImage.ofJson? g.toJson g := by
  constructor
  · refine legible_fields ?_
    simp [(means_text _).legible]
  · refine bind_record? (by simp) rfl ?_
    simp [(means_text _).back]

theorem means_texts (xs : List String) : Means (list? string?) (.array (xs.map .text)) xs :=
  Means.list fun x _ => means_text x

theorem means_importImage (i : ImportImage) : Means ImportImage.ofJson? i.toJson i := by
  constructor
  · refine legible_fields ?_
    simp [(means_text _).legible, (means_texts _).legible]
  · refine bind_record? (by simp) rfl ?_
    simp [orDefault, (means_text _).back, (means_texts _).back]

theorem means_varImage (v : VarImage) : Means VarImage.ofJson? v.toJson v := by
  constructor
  · refine legible_fields ?_
    simp [(means_text _).legible, (means_offset _).legible]
  · refine bind_record? (by simp) rfl ?_
    simp [(means_text _).back, (means_offset _).back]

theorem means_objectVarImage (v : ObjectVarImage) : Means ObjectVarImage.ofJson? v.toJson v := by
  constructor
  · refine legible_fields ?_
    simp [(means_offset _).legible, (means_word _).legible]
  · refine bind_record? (by simp) rfl ?_
    simp [(means_offset _).back, (means_word _).back]

theorem means_lineImage (l : LineImage) : Means LineImage.ofJson? l.toJson l := by
  have hpc : natural? 18446744073709551616 (nat l.pc.toNat) = some l.pc.toNat :=
    natural?_nat l.pc.toNat_lt (by decide)
  obtain ⟨pc, line, column⟩ := l
  constructor
  · refine .array fun v hv => ?_
    rcases List.mem_append.mp hv with hv | hv
    · rcases List.mem_pair.mp hv with rfl | rfl <;> exact legible_nat _
    · obtain ⟨c, -, rfl⟩ := List.mem_map.mp hv
      exact legible_nat _
  · cases column with
    | none | some c => simp [LineImage.toJson, LineImage.ofJson?, hpc, (means_word _).back]

theorem LineImage.length_of_ofJson? {j : Json} {l : LineImage} (h : ofJson? j = some l) :
    ∃ items, j = .array items ∧ items.length = if l.column.isSome then 3 else 2 := by
  unfold ofJson? at h
  split at h
  · rename_i pc line
    refine ⟨[pc, line], rfl, ?_⟩
    simp only [Option.bind_eq_bind, Option.bind_eq_some_iff] at h
    obtain ⟨n, -, w, -, hl⟩ := h
    cases hl
    rfl
  · rename_i pc line column
    refine ⟨[pc, line, column], rfl, ?_⟩
    simp only [Option.bind_eq_bind, Option.bind_eq_some_iff] at h
    obtain ⟨n, -, w, -, c, -, hl⟩ := h
    cases hl
    rfl
  · cases h

theorem means_funcImage {f : FuncImage} (h : ∀ i ∈ f.code, i.FloatFree) :
    Means FuncImage.ofJson? f.toJson f := by
  have hmethodOf : Means (nullable? string?) _ f.methodOf :=
    Means.opt (fun _ => Json.noConfusion) fun t _ => means_text t
  have hstk : Means (nullable? Json.word?) _ f.stack :=
    Means.opt (fun _ => Json.noConfusion) fun w _ => means_word w
  have hcode : Means (list? Instr.ofJson?) _ f.code := Means.list fun i hi => means_instr (h i hi)
  have hlines : Means (list? LineImage.ofJson?) _ f.lines := Means.list fun l _ => means_lineImage l
  have hvars : Means (list? VarImage.ofJson?) _ f.vars := Means.list fun v _ => means_varImage v
  have hovs : Means (list? ObjectVarImage.ofJson?) _ f.objectVars :=
    Means.list fun v _ => means_objectVarImage v
  constructor
  · refine legible_fields ?_
    simp [(means_text _).legible, (means_texts _).legible, (means_word _).legible,
      hmethodOf.legible, hstk.legible,
      hcode.legible, hlines.legible, hvars.legible, hovs.legible]
  · refine bind_record? (by simp) rfl ?_
    simp [orDefault, (means_text _).back, (means_texts _).back, (means_word _).back,
      hmethodOf.back, hstk.back,
      hcode.back, hlines.back, hvars.back, hovs.back]

namespace Image

/-- No instruction of any function has a floating-point operand. -/
def FloatFree (i : Image) : Prop :=
  ∀ f ∈ i.functions ++ i.initializer.toList, ∀ instr ∈ f.code, instr.FloatFree

instance (i : Image) : Decidable i.FloatFree :=
  inferInstanceAs
    (Decidable (∀ f ∈ i.functions ++ i.initializer.toList, ∀ instr ∈ f.code, instr.FloatFree))

theorem means_image {i : Image} (h : i.FloatFree) : Means ofJson? i.toJson i := by
  have htypes : Means (list? TypeImage.ofJson?) _ i.types := Means.list fun t _ => means_typeImage t
  have hgls : Means (list? GlobalImage.ofJson?) _ i.globals :=
    Means.list fun g _ => means_globalImage g
  have himps : Means (list? ImportImage.ofJson?) _ i.imports :=
    Means.list fun m _ => means_importImage m
  have hfns : Means (list? FuncImage.ofJson?) _ i.functions :=
    Means.list fun f hf => means_funcImage (h f (List.mem_append_left _ hf))
  have hini : Means (nullable? FuncImage.ofJson?) _ i.initializer :=
    Means.opt (fun _ => Json.noConfusion) fun f hf =>
      means_funcImage (h f (List.mem_append_right _ (Option.mem_toList.mpr hf)))
  constructor
  · refine legible_fields ?_
    simp [(means_text _).legible, (means_texts _).legible, htypes.legible, hgls.legible,
      himps.legible,
      hfns.legible, hini.legible]
  · refine bind_record? (by simp) rfl ?_
    simp [orDefault, (means_text _).back, (means_texts _).back, htypes.back, hgls.back,
      himps.back, hfns.back,
      hini.back]

/-- A written image is read back from its JSON and from its text. A source position is read with a
column from three numbers, and without one from two. -/
theorem written_read_back (i : Image) (h : i.FloatFree) :
    ofJson? i.toJson = some i ∧ read? i.write = some i ∧
      ∀ j l, LineImage.ofJson? j = some l → ∃ items, j = .array items ∧
        items.length = if l.column.isSome then 3 else 2 := by
  obtain ⟨hlegible, hback⟩ := means_image h
  refine ⟨hback, ?_, fun j l hl => LineImage.length_of_ofJson? hl⟩
  rw [read?, write, Json.read?_pretty hlegible, Option.bind_some, hback]

/-- An image with instructions of no, one and several operands, positions with and without a column,
and values that are left out. -/
def clock : Image where
  name := "clock"
  types := [{ name := "Clock", fields := 2, refCounted := true, handleFields := [1] }]
  strings := ["tick \"tock\"\n"]
  globals := [{ name := "ticks", type := "int" }]
  imports := [{ name := "now", source := "time", returns := "int" }]
  functions :=
    [{ name := "tick", returns := "int", params := ["int"], methodOf := some "Clock", locals := 1,
       stack := some 4
       code := [.suspend, .setVar 1 4294967295, .immediate .add 1 0 (-1), .toRegister 1, .ret 3]
       lines := [{ pc := 0, line := 7 }, { pc := 2, line := 8, column := some 3 }]
       vars := [{ name := "n", type := "int", offset := -1 }], objectVars :=
         [{ offset := 1, type := 0 }] }]
  initializer := some { name := "init", code := [.ret 0] }

theorem written_read_back_clock : clock.FloatFree ∧ read? clock.write = some clock :=
  have hfree : clock.FloatFree := by decide
  ⟨hfree, (written_read_back clock hfree).2.1⟩

end Image
end ScriptVm
