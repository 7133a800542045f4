import Mathlib.Data.List.Forall2
import ScriptVm.CommandLine.Perform
import ScriptVm.Proofs.Json.Numbers
import ScriptVm.Proofs.Session.ArgumentLayout

namespace ScriptVm

namespace Text

/-- The number that digits stand for, each with the weight of its place. -/
def placeValue : List Char → Nat
  | [] => 0
  | c :: cs => (c.toNat - 48) * 10 ^ cs.length + placeValue cs

def Digits (cs : List Char) : Prop := cs ≠ [] ∧ ∀ c ∈ cs, c.isDigit = true

/-- A decimal literal and its number. Only where numbers can be negative is there a minus sign. -/
inductive Literal (signed : Bool) : List Char → Int → Prop
  | plain {cs : List Char} : Digits cs → Literal signed cs (placeValue cs)
  | plus {cs : List Char} : Digits cs → Literal signed ('+' :: cs) (placeValue cs)
  | minus {cs : List Char} : signed = true → Digits cs → Literal signed ('-' :: cs) (-placeValue cs)

variable {cs : List Char} {signed : Bool} {v w : Int} {text : String} {bits n : Nat}

theorem digit?_eq_some_iff {c : Char} {d : Nat} :
    digit? c = some d ↔ c.isDigit = true ∧ d = c.toNat - 48 := by
  constructor
  · intro h
    unfold digit? at h
    split at h
    · rename_i hc
      cases h
      exact ⟨by simpa [Char.isDigit, Char.le_def] using hc, rfl⟩
    · cases h
  · rintro ⟨hc, rfl⟩
    exact digit?_of_isDigit hc

/-- Reading digit after digit gives each of them the weight of its place. -/
theorem digitsFrom?_eq_some_iff {acc : Nat} :
    digitsFrom? acc cs = some n ↔ (∀ c ∈ cs, c.isDigit = true) ∧
      n = acc * 10 ^ cs.length + placeValue cs := by
  induction cs generalizing acc with
  | nil => simpa [digitsFrom?, placeValue] using eq_comm
  | cons c cs ih =>
    have hshift : (10 * acc + (c.toNat - 48)) * 10 ^ cs.length + placeValue cs =
        acc * 10 ^ (c :: cs).length + placeValue (c :: cs) := by
      rw [placeValue, List.length_cons, Nat.pow_succ, Nat.add_mul, Nat.mul_comm 10 acc,
        Nat.mul_assoc, Nat.mul_comm 10, Nat.add_assoc]
    simp only [digitsFrom?, Option.bind_eq_some_iff, digit?_eq_some_iff, ih, List.forall_mem_cons]
    constructor
    · rintro ⟨d, ⟨hc, rfl⟩, hcs, rfl⟩
      exact ⟨⟨hc, hcs⟩, hshift⟩
    · rintro ⟨⟨hc, hcs⟩, rfl⟩
      exact ⟨_, ⟨hc, rfl⟩, hcs, hshift.symm⟩

theorem natural?_eq_some_iff : natural? cs = some n ↔ Digits cs ∧ n = placeValue cs := by
  cases cs with
  | nil => simp [natural?, Digits]
  | cons c cs =>
    rw [natural?, digitsFrom?_eq_some_iff, Nat.zero_mul, Nat.zero_add]
    · simp [Digits]
    · simp

theorem map_natural?_eq_some_iff {g : Nat → Int} :
    (natural? cs).map g = some v ↔ Digits cs ∧ g (placeValue cs) = v := by
  simp only [Option.map_eq_some_iff, natural?_eq_some_iff]
  constructor
  · rintro ⟨n, ⟨hdigits, rfl⟩, hv⟩
    exact ⟨hdigits, hv⟩
  · exact fun h => ⟨_, ⟨h.1, rfl⟩, h.2⟩

/-- Digits are not a sign. -/
theorem integer?_of_digits (h : Digits cs) : integer? signed cs = (natural? cs).map Int.ofNat := by
  obtain ⟨-, hdigits⟩ := h
  unfold integer?
  split
  · exact absurd (hdigits '+' List.mem_cons_self) (by decide)
  · exact absurd (hdigits '-' List.mem_cons_self) (by decide)
  · rfl

theorem integer?_eq_some_iff : integer? signed cs = some v ↔ Literal signed cs v := by
  constructor
  · intro h
    unfold integer? at h
    split at h
    · obtain ⟨hdigits, rfl⟩ := map_natural?_eq_some_iff.mp h
      exact .plus hdigits
    · split at h
      · rename_i hsigned
        obtain ⟨hdigits, rfl⟩ := map_natural?_eq_some_iff.mp h
        exact .minus hsigned hdigits
      · cases h
    · obtain ⟨hdigits, rfl⟩ := map_natural?_eq_some_iff.mp h
      exact .plain hdigits
  · intro h
    cases h with
    | plain hdigits =>
      rw [integer?_of_digits hdigits]
      exact map_natural?_eq_some_iff.mpr ⟨hdigits, rfl⟩
    | plus hdigits => exact map_natural?_eq_some_iff.mpr ⟨hdigits, rfl⟩
    | minus hsigned hdigits =>
      rw [integer?, if_pos hsigned]
      exact map_natural?_eq_some_iff.mpr ⟨hdigits, rfl⟩

theorem Literal.unique (hv : Literal signed cs v) (hw : Literal signed cs w) : v = w := by
  rw [← integer?_eq_some_iff] at hv hw
  exact Option.some.inj (hv.symm.trans hw)

theorem Literal.nonneg (h : Literal false cs v) : 0 ≤ v := by
  cases h with
  | plain | plus => exact Int.natCast_nonneg _
  | minus hsigned => cases hsigned

theorem signed?_eq_some_iff :
    signed? bits text = some v ↔ Literal true text.toList v ∧ -2 ^ (bits - 1) ≤ v ∧
      v < 2 ^ (bits - 1) := by
  simp [signed?, Option.filter_eq_some_iff, integer?_eq_some_iff]

theorem unsigned?_eq_some_iff :
    unsigned? bits text = some n ↔ Literal false text.toList n ∧ (n : Int) < 2 ^ bits := by
  simp only [unsigned?, Option.map_eq_some_iff, Option.filter_eq_some_iff, integer?_eq_some_iff,
    decide_eq_true_eq]
  constructor
  · rintro ⟨v, ⟨hlit, hlt⟩, rfl⟩
    rw [Int.toNat_of_nonneg hlit.nonneg]
    exact ⟨hlit, by simpa using hlt⟩
  · rintro ⟨hlit, hlt⟩
    exact ⟨n, ⟨hlit, by simpa using hlt⟩, Int.toNat_natCast n⟩

end Text

/-- The number in a slot, without a sign. -/
def SlotValue.toNat : SlotValue → Nat
  | word v => v.toNat
  | pair v => v.toNat

namespace Primitive

/-- Whether an integer type has negative numbers. -/
def sign? : Primitive → Option Bool
  | int8 | int16 | int32 | int64 => some true
  | uint8 | uint16 | uint32 | uint64 => some false
  | void | bool | float | double => none

def bits (p : Primitive) : Nat := 8 * p.bytes

/-- The numbers of an integer type. -/
def Contains (p : Primitive) (v : Int) : Prop :=
  match p.sign? with
  | some true => -2 ^ (p.bits - 1) ≤ v ∧ v < 2 ^ (p.bits - 1)
  | some false => 0 ≤ v ∧ v < 2 ^ p.bits
  | none => False

/-- The type as whose number a text is read: narrow types share one of four bytes. -/
def reader : Primitive → Primitive
  | int8 | int16 => int32
  | uint8 | uint16 => uint32
  | p => p

/-- A text is taken as this number. -/
def Takes (p : Primitive) (text : String) (v : Int) : Prop :=
  Text.Literal (p.sign? == some true) text.toList v ∧ p.reader.Contains v

/-- The slot of a parameter that is set to a number: as many of its bits as the type has. -/
def slotOf (p : Primitive) (v : Int) : SlotValue :=
  let low := (v % 2 ^ p.bits).toNat
  if p.bytes = 8 then .pair low.toUInt64 else .word low.toUInt32

/-- The number that a slot is for a parameter of the type. -/
def numberIn (p : Primitive) (c : SlotValue) : Int :=
  if p.sign? = some true then Int.bmod c.toNat (2 ^ p.bits) else c.toNat

/-- What the host is given to set a parameter to a number. -/
def argument (p : Primitive) (v : Int) : Argument :=
  let low := (v % 4294967296).toNat.toUInt32
  if p.bytes = 1 then .byte low.toUInt8
  else if p.bytes = 2 then .half low.toUInt16
  else if p.bytes = 4 then .word low
  else .qword (v % 2 ^ 64).toNat.toUInt64

variable {p : Primitive} {text : String} {v w : Int} {index : Nat}

theorem Takes.unique (hv : p.Takes text v) (hw : p.Takes text w) : v = w := hv.1.unique hw.1

theorem Takes.integer (h : p.Takes text v) : p.sign?.isSome = true := by
  cases p with
  | int8 | int16 | int32 | int64 | uint8 | uint16 | uint32 | uint64 => rfl
  | void | bool | float | double => exact h.2.elim

/-- A number in the range of the type is in the range of the type it is read as. -/
theorem Contains.reader (h : p.Contains v) : p.reader.Contains v := by
  cases p with
  | int8 | int16 | uint8 | uint16 =>
    simp only [Contains, sign?, Primitive.reader, bits, bytes, Nat.reduceMul, Nat.reduceSub,
      Int.reducePow] at h ⊢
    omega
  | int32 | int64 | uint32 | uint64 => exact h
  | void | bool | float | double => exact h.elim

theorem fits_argument (hint : p.sign?.isSome = true) (v : Int) :
    (p.argument v).fits (.ofPrimitive p) = true := by
  cases p with
  | int8 | int16 | int32 | int64 | uint8 | uint16 | uint32 | uint64 => rfl
  | void | bool | float | double => cases hint

theorem value_argument (hint : p.sign?.isSome = true) (v : Int) :
    (p.argument v).value = p.slotOf v := by
  cases p with
  | int8 | int16 | uint8 | uint16 =>
    refine congrArg SlotValue.word (UInt32.toNat_inj.mp ?_)
    simp only [Nat.toUInt32_eq, UInt32.toUInt8_ofNat', UInt32.toUInt16_ofNat', UInt8.toNat_toUInt32,
      UInt16.toNat_toUInt32,
      UInt8.toNat_ofNat', UInt16.toNat_ofNat', UInt32.toNat_ofNat', bits, bytes, Nat.reduceMul,
        Int.reducePow, Nat.reducePow]
    omega
  | int32 | int64 | uint32 | uint64 => rfl
  | void | bool | float | double => cases hint

theorem toNat_slotOf (hint : p.sign?.isSome = true) (v : Int) :
    (p.slotOf v).toNat = (v % 2 ^ p.bits).toNat := by
  cases p with
  | int8 | int16 | int32 | int64 | uint8 | uint16 | uint32 | uint64 =>
    simp only [slotOf, SlotValue.toNat, bits, bytes, Nat.reduceEqDiff, OfNat.one_ne_ofNat, if_true,
      if_false, Nat.reduceMul,
      Nat.toUInt32_eq, Nat.toUInt64_eq, UInt32.toNat_ofNat', UInt64.toNat_ofNat', Int.reducePow,
        Nat.reducePow]
    omega
  | void | bool | float | double => cases hint

/-- Exactly the numbers of the type can be read back. -/
theorem numberIn_slotOf_iff (hint : p.sign?.isSome = true) :
    p.numberIn (p.slotOf v) = v ↔ p.Contains v := by
  have hlow : ((p.slotOf v).toNat : Int) = v % 2 ^ p.bits := by
    rw [toNat_slotOf hint]
    exact Int.toNat_of_nonneg (Int.emod_nonneg _ (Int.pow_ne_zero (by decide)))
  rw [numberIn, hlow]
  cases p with
  | int8 | int16 | int32 | int64 =>
    simp only [Contains, sign?, bits, bytes, if_true, Nat.reduceMul, Nat.reduceSub, Int.reducePow,
      Nat.reducePow, Int.bmod_def]
    omega
  | uint8 | uint16 | uint32 | uint64 =>
    simp only [Contains, sign?, bits, bytes, Option.some.injEq, Bool.false_eq_true, if_false,
      Nat.reduceMul, Int.reducePow]
    omega
  | void | bool | float | double => cases hint

/-- The number of a text, in the range of the type that it is read as. -/
def number? (p : Primitive) (text : String) : Option Int :=
  match p.sign? with
  | some true => Text.signed? p.reader.bits text
  | some false => (Text.unsigned? p.reader.bits text).map Int.ofNat
  | none => none

theorem sign?_reader (p : Primitive) : p.reader.sign? = p.sign? := by cases p <;> rfl

theorem number?_eq_some_iff : p.number? text = some v ↔ p.Takes text v := by
  rw [number?, Takes, Contains, sign?_reader]
  cases p.sign? with
  | none => simp
  | some signed =>
    cases signed with
    | true => exact Text.signed?_eq_some_iff
    | false =>
      simp only [Option.map_eq_some_iff, Text.unsigned?_eq_some_iff]
      constructor
      · rintro ⟨n, ⟨hlit, hlt⟩, rfl⟩
        exact ⟨hlit, hlit.nonneg, hlt⟩
      · rintro ⟨hlit, hnonneg, hlt⟩
        obtain ⟨n, rfl⟩ := Int.eq_ofNat_of_zero_le hnonneg
        exact ⟨n, ⟨hlit, hlt⟩, rfl⟩

end Primitive

namespace Exec

variable {ε δ α : Type} {x : Exec ε α} {m m' : Machine}

theorem adaptExcept_of_ok {a : α} (h : x m = .ok a m') (g : Stop ε → Stop δ) :
    EStateM.adaptExcept g x m = .ok a m' := by
  rw [EStateM.adaptExcept, h]

theorem adaptExcept_of_error {stop : Stop ε} (h : x m = .error stop m') (g : Stop ε → Stop δ) :
    EStateM.adaptExcept g x m = .error (g stop) m' := by
  rw [EStateM.adaptExcept, h]

end Exec

namespace CommandLine

open Exec

variable {p : Primitive} {text : String} {v : Int} {index : Nat} {m m' : Machine} {f : Func}

theorem toUInt64_toInt64 (v : Int) : v.toInt64.toUInt64 = (v % 2 ^ 64).toNat.toUInt64 := by
  have htoNat : v.toInt64.toUInt64.toNat = (v % 2 ^ 64).toNat := by
    show (Int64.ofInt v).toBitVec.toNat = _
    rw [Int64.toBitVec_ofInt, BitVec.toNat_ofInt]
    rfl
  rw [← htoNat]
  exact (UInt64.ofNat_toNat).symm

theorem toUInt64_emod (n : Nat) : n.toUInt64 = ((n : Int) % 2 ^ 64).toNat.toUInt64 := by
  refine UInt64.toNat_inj.mp ?_
  simp only [Nat.toUInt64_eq, UInt64.toNat_ofNat']
  omega

/-- A text is read in the range of the reading type and set in the bytes of the parameter, or
refused. -/
theorem argument_eq (hint : p.sign?.isSome = true) (index : Nat) (text : String) :
    argument (.ofPrimitive p) index text =
      (p.number? text).elim (.error (.unreadable index text (DataType.ofPrimitive p).text)) fun v =>
        .ok ((p.argument v).set index) := by
  cases p with
  | int8 | int16 | int32 =>
    show argument _ index text = (Text.signed? 32 text).elim _ _
    unfold argument
    dsimp only [DataType.primitive?, DataType.ofPrimitive]
    cases Text.signed? 32 text <;> rfl
  | uint8 | uint16 | uint32 =>
    show argument _ index text = ((Text.unsigned? 32 text).map Int.ofNat).elim _ _
    unfold argument
    dsimp only [DataType.primitive?, DataType.ofPrimitive]
    cases Text.unsigned? 32 text <;> rfl
  | int64 =>
    show argument _ index text = (Text.signed? 64 text).elim _ _
    unfold argument
    dsimp only [DataType.primitive?, DataType.ofPrimitive]
    cases Text.signed? 64 text with
    | none => rfl
    | some v => exact congrArg (fun w => Except.ok (setArgQword index w)) (toUInt64_toInt64 v)
  | uint64 =>
    show argument _ index text = ((Text.unsigned? 64 text).map Int.ofNat).elim _ _
    unfold argument
    dsimp only [DataType.primitive?, DataType.ofPrimitive]
    cases Text.unsigned? 64 text with
    | none => rfl
    | some n => exact congrArg (fun w => Except.ok (setArgQword index w)) (toUInt64_emod n)
  | void | bool | float | double => cases hint

theorem argument_of_takes (h : p.Takes text v) (index : Nat) :
    argument (.ofPrimitive p) index text = .ok ((p.argument v).set index) := by
  rw [argument_eq h.integer, Primitive.number?_eq_some_iff.mpr h]
  rfl

theorem argument_of_not_takes (hint : p.sign?.isSome = true) (h : ¬∃ v, p.Takes text v)
    (index : Nat) : argument (.ofPrimitive p) index text =
      .error (.unreadable index text (DataType.ofPrimitive p).text) := by
  have hnone : p.number? text = none := by
    refine Option.eq_none_iff_forall_ne_some.mpr fun v hv => ?_
    exact h ⟨v, Primitive.number?_eq_some_iff.mp hv⟩
  rw [argument_eq hint, hnone]
  rfl

/-- What setting the arguments from an index on leaves as it was. -/
structure Keeps (f : Func) (index : Nat) (m m' : Machine) : Prop where
  awaits : m'.ctx.Awaits f
  engine : m'.engine = m.engine
  before : ∀ j < index, ∀ a : Argument, a.Stands f j m → a.Stands f j m'

theorem Keeps.refl (h : m.ctx.Awaits f) (index : Nat) : Keeps f index m m :=
  ⟨h, rfl, fun _ _ _ ha => ha⟩

theorem Keeps.trans {m1 : Machine} (h : Keeps f index m m1) (h' : Keeps f (index + 1) m1 m') :
    Keeps f index m m' where
  awaits := h'.awaits
  engine := h'.engine.trans h.engine
  before j hj a ha := h'.before j (Nat.lt_succ_of_lt hj) a (h.before j hj a ha)

theorem params_cons {types : List Primitive}
    (h : (f.signature.params.drop index).map Parameter.type = (p :: types).map .ofPrimitive) :
    ∃ param, f.signature.params[index]? = some param ∧ param.type = .ofPrimitive p ∧
      (f.signature.params.drop (index + 1)).map Parameter.type = types.map .ofPrimitive := by
  obtain ⟨param, rest, hdrop, htype, hrest⟩ := List.map_eq_cons_iff.mp h
  refine ⟨param, ?_, htype, ?_⟩
  · rw [← List.head?_drop, hdrop, List.head?_cons]
  · rw [← List.tail_drop, hdrop]
    exact hrest

/-- One text that is taken sets its parameter, and the others follow. -/
theorem setArguments_cons {param : Parameter} (types : List DataType) (texts : List String)
    (hawaits : m.ctx.Awaits f) (hparam : f.signature.params[index]? = some param)
    (htype : param.type = .ofPrimitive p) (h : p.Takes text v) :
    ∃ m1, setArguments index (.ofPrimitive p :: types) (text :: texts) m =
      setArguments (index + 1) types texts m1 ∧
      Keeps f index m m1 ∧ (p.argument v).Stands f index m1 := by
  have hfits : (p.argument v).fits param.type = true := htype ▸ Primitive.fits_argument h.integer v
  obtain ⟨q, stop, hplace, hspans, hset⟩ := Argument.set_eq hawaits hparam (p.argument v)
  rw [if_pos hfits] at hset
  rw [← Argument.size_eq_words hfits] at hspans
  refine ⟨_, ?_, ⟨hawaits.after hspans, rfl,
    fun j hj a ha => ha.set hawaits hset (Nat.ne_of_gt hj)⟩, Argument.stands_set hawaits hset⟩
  rw [setArguments, argument_of_takes h]
  exact bind_of_ok (adaptExcept_of_ok hset _)

/-- Each text is taken for the parameter of its place, and none is missing or left over. -/
abbrev Taken (types : List Primitive) (texts : List String) : Prop :=
  List.Forall₂ (fun p text => ∃ v, p.Takes text v) types texts

variable {types : List Primitive} {texts : List String}

/-- Why arguments are refused: their number is wrong, or else this is the first text that is not
taken. -/
inductive Refuses (f : Func) (types : List Primitive) (texts : List String) : ArgumentError → Prop
  | count : texts.length ≠ types.length →
      Refuses f types texts (.count f.declaration types.length texts.length)
  | unreadable {k : Nat} {p : Primitive} {text : String} :
      texts.length = types.length → types[k]? = some p → texts[k]? = some text →
    Taken (types.take k) (texts.take k) → (¬∃ v, p.Takes text v) →
    Refuses f types texts (.unreadable k text (DataType.ofPrimitive p).text)

/-- The arguments that have been set stand at their parameters. -/
def Placed (f : Func) (index : Nat) (types : List Primitive) (texts : List String)
    (m : Machine) : Prop :=
  ∀ (k : Nat) (p : Primitive) (text : String) (v : Int), types[k]? = some p →
    texts[k]? = some text → p.Takes text v →
    (p.argument v).Stands f (index + k) m

/-- Text after text is set, up to the first that is not taken. -/
theorem setArguments_cases (hawaits : m.ctx.Awaits f)
    (htypes : (f.signature.params.drop index).map Parameter.type = types.map .ofPrimitive)
    (hint : ∀ p ∈ types, p.sign?.isSome = true) (hlength : texts.length = types.length) :
    ∃ m', Keeps f index m m' ∧
      (Taken types texts ∧ setArguments index (types.map .ofPrimitive) texts m = .ok () m' ∧
        Placed f index types texts m' ∨
      ¬Taken types texts ∧ ∃ k p text, types[k]? = some p ∧ texts[k]? = some text ∧
        Taken (types.take k) (texts.take k) ∧
        (¬∃ v, p.Takes text v) ∧ setArguments index (types.map .ofPrimitive) texts m =
          .error (.cause (.unreadable (index + k) text (DataType.ofPrimitive p).text)) m') := by
  induction types generalizing index m texts with
  | nil =>
    obtain rfl := List.eq_nil_of_length_eq_zero hlength
    exact ⟨m, .refl hawaits index, .inl ⟨.nil, rfl, fun _ _ _ _ hp => by simp at hp⟩⟩
  | cons p types ih =>
    obtain ⟨text, texts, rfl⟩ := List.exists_cons_of_length_eq_add_one hlength
    by_cases htakes : ∃ v, p.Takes text v
    · obtain ⟨v, hv⟩ := htakes
      obtain ⟨param, hparam, htype, hrest⟩ := params_cons htypes
      obtain ⟨m1, hstep, hkeeps, hstands⟩ :=
        setArguments_cons (types.map .ofPrimitive) texts hawaits hparam htype hv
      obtain ⟨m', hlater, hends⟩ :=
        ih hkeeps.awaits hrest (List.forall_mem_cons.mp hint).2 (Nat.succ.inj hlength)
      refine ⟨m', hkeeps.trans hlater, ?_⟩
      rw [List.map_cons, hstep]
      obtain ⟨htaken, hset, hplaced⟩ | ⟨hnot, k, p', text', hp, ht, hfirst, hnone, hset⟩ := hends
      · refine .inl ⟨.cons ⟨v, hv⟩ htaken, hset, fun k p' text' v' hp ht hv' => ?_⟩
        cases k with
        | zero =>
          cases hp
          cases ht
          cases hv.unique hv'
          exact hlater.before index (Nat.lt_succ_self index) _ hstands
        | succ k =>
          rw [← Nat.add_assoc, Nat.add_right_comm]
          exact hplaced k p' text' v' hp ht hv'
      · refine .inr ⟨fun h => hnot (List.forall₂_cons.mp h).2, k + 1, p', text', hp, ht,
          .cons ⟨v, hv⟩ hfirst, hnone, ?_⟩
        rw [hset, ← Nat.add_assoc, Nat.add_right_comm]
    · refine ⟨m, .refl hawaits index,
        .inr ⟨fun h => htakes (List.forall₂_cons.mp h).1, 0, p, text, rfl, rfl, .nil, htakes, ?_⟩⟩
      rw [List.map_cons, setArguments, argument_of_not_takes (hint p List.mem_cons_self) htakes]
      rfl

theorem setAllArguments_cases (hawaits : m.ctx.Awaits f)
    (htypes : f.signature.params.map Parameter.type = types.map .ofPrimitive)
    (hint : ∀ p ∈ types, p.sign?.isSome = true) (texts : List String) : ∃ m', Keeps f 0 m m' ∧
      (Taken types texts ∧ setAllArguments f texts m = .ok () m' ∧ Placed f 0 types texts m' ∨
      ¬Taken types texts ∧ ∃ e,
        setAllArguments f texts m = .error (.cause e) m' ∧ Refuses f types texts e) := by
  have hparams : f.signature.params.length = types.length := by
    simpa using congrArg List.length htypes
  unfold setAllArguments
  rw [hparams, htypes]
  by_cases hlength : texts.length = types.length
  · rw [if_neg (not_not.mpr hlength)]
    obtain ⟨m', hkeeps, htaken | ⟨hnot, k, p, text, hp, ht, hfirst, hnone, hset⟩⟩ :=
      setArguments_cases hawaits (show (f.signature.params.drop 0).map _ = _ from htypes) hint hlength
    · exact ⟨m', hkeeps, .inl htaken⟩
    · rw [Nat.zero_add] at hset
      exact ⟨m', hkeeps, .inr ⟨hnot, _, hset, .unreadable hlength hp ht hfirst hnone⟩⟩
  · rw [if_pos hlength]
    exact ⟨m, .refl hawaits 0, .inr ⟨fun h => hlength h.length_eq.symm, _, rfl, .count hlength⟩⟩

/-- Nothing runs if an argument is refused. -/
theorem call_of_refused {m0 : Machine} {e : ArgumentError} (hprepare : prepare f.id m0 = .ok () m)
    (h : setAllArguments f texts m = .error (.cause e) m') (fuel timeout : Nat) :
    Task.call fuel f texts timeout m0 = .error (.cause (.argument e)) m' :=
  (bind_of_ok (adaptExcept_of_ok hprepare _)).trans (bind_of_error (adaptExcept_of_error h _) _)

/-- Arguments for integer parameters are set if and only if there are as many as parameters and each
is a decimal literal in the range of the type that it is read as, which for the narrow types is one
of four bytes. A parameter then has as many bits of the number as its type has: it is the number if
and only if that is one of its type. Otherwise the first cause is reported, and nothing has run. -/
theorem integer_arguments_cut {m0 : Machine} (hseated : m0.ctx.Seated)
    (hfound : m0.engine.function? f.id = some f) (hkind : f.kind ≠ .imported)
    (hprepare : prepare f.id m0 = .ok () m)
    (htypes : f.signature.params.map Parameter.type = types.map .ofPrimitive)
    (hint : ∀ p ∈ types, p.sign?.isSome = true) (texts : List String) :
    ((∃ m', setAllArguments f texts m = .ok () m') ↔ Taken types texts) ∧
    (∀ m', setAllArguments f texts m = .ok () m' →
      ∀ (k : Nat) (p : Primitive) (text : String) (v : Int),
      types[k]? = some p → texts[k]? = some text → p.Takes text v →
      ∃ q, f.place? m'.ctx.fp k = some q ∧ m'.ctx.stack.Shows q (p.slotOf v) ∧
        (p.numberIn (p.slotOf v) = v ↔ p.Contains v)) ∧
    (∀ (p : Primitive) (text : String) (v : Int),
      Text.Literal (p.sign? == some true) text.toList v → p.Contains v → p.Takes text v) ∧
    (¬Taken types texts → ∃ e m',
      setAllArguments f texts m = .error (.cause e) m' ∧ Refuses f types texts e ∧
      m'.engine = m.engine ∧ m'.ctx.state = .prepared ∧
      ∀ fuel timeout, Task.call fuel f texts timeout m0 = .error (.cause (.argument e)) m') := by
  have hawaits : m.ctx.Awaits f :=
    Func.awaits_of_prepared hseated hkind ((prepare_eq hfound hkind).symm.trans hprepare)
  obtain ⟨m', hkeeps, ⟨htaken, hset, hplaced⟩ | ⟨hnot, e, herr, hcause⟩⟩ :=
    setAllArguments_cases hawaits htypes hint texts
  · refine ⟨iff_of_true ⟨m', hset⟩ htaken, fun m1 hset1 k p text v hp ht hv => ?_,
      fun p text v hlit hv => ⟨hlit, hv.reader⟩,
      fun h => absurd htaken h⟩
    cases hset.symm.trans hset1
    obtain ⟨q, hgoes, hshows⟩ := hplaced k p text v hp ht hv
    rw [Nat.zero_add] at hgoes
    rw [Primitive.value_argument hv.integer] at hshows
    exact ⟨q, hgoes.place, hshows, Primitive.numberIn_slotOf_iff hv.integer⟩
  · refine ⟨iff_of_false (fun h => ?_) hnot, fun m1 hset => ?_,
      fun p text v hlit hv => ⟨hlit, hv.reader⟩,
      fun _ => ⟨e, m', herr, hcause, hkeeps.engine, hkeeps.awaits.state, call_of_refused hprepare herr⟩⟩
    · obtain ⟨m1, hset⟩ := h
      cases hset.symm.trans herr
    · cases hset.symm.trans herr

def mixed : Func :=
  { id := ⟨1⟩, name := "mixed",
    signature := .ofTypes .void [.ofPrimitive .int8, .ofPrimitive .uint64] }

def fresh : Machine :=
  { engine := { functions := #[none, some mixed], config := { initialStack := 8 } }, ctx := .new 0 }

/-- The greatest number of the wide type is the parameter, a number below those of the narrow one is
not; a minus sign is refused where there are no negative numbers. -/
theorem integer_arguments_cut_mixed : (∃ m' q r, setAllArguments mixed ["-129",
      "+18446744073709551615"] ((prepare ⟨1⟩).after fresh) = .ok () m' ∧
      mixed.place? m'.ctx.fp 0 = some q ∧ m'.ctx.stack.Shows q (.word 127) ∧
      mixed.place? m'.ctx.fp 1 = some r ∧ m'.ctx.stack.Shows r (.pair 18446744073709551615)) ∧
    ∃ e m', Refuses mixed [.int8, .uint64] ["7", "-1"] e ∧
      ∀ fuel timeout, Task.call fuel mixed ["7", "-1"] timeout fresh =
        .error (.cause (.argument e)) m' := by
  have hprepare : prepare ⟨1⟩ fresh = .ok () ((prepare ⟨1⟩).after fresh) :=
    ok_of_value (by decide +kernel)
  have hcut :=
    integer_arguments_cut (f := mixed) (Context.seated_new 0) (by decide) (by decide) hprepare
    (show _ = [Primitive.int8, .uint64].map DataType.ofPrimitive by decide) (by decide)
  have hbelow : Primitive.int8.Takes "-129" (-129) := Primitive.number?_eq_some_iff.mp (by decide)
  have hmost : Primitive.uint64.Takes "+18446744073709551615" 18446744073709551615 :=
    Primitive.number?_eq_some_iff.mp (by decide)
  have hminus : Primitive.uint64.number? "-1" = none := by decide
  constructor
  · obtain ⟨haccept, hslots, -⟩ := hcut ["-129", "+18446744073709551615"]
    obtain ⟨m', hset⟩ := haccept.mpr (.cons ⟨_, hbelow⟩ (.cons ⟨_, hmost⟩ .nil))
    obtain ⟨q, hq, hfirst, -⟩ := hslots m' hset 0 _ _ _ rfl rfl hbelow
    obtain ⟨r, hr, hsecond, -⟩ := hslots m' hset 1 _ _ _ rfl rfl hmost
    exact ⟨m', q, r, hset, hq, hfirst, hr, hsecond⟩
  · obtain ⟨-, -, -, hrefuse⟩ := hcut ["7", "-1"]
    have hnot : ¬Taken [.int8, .uint64] ["7", "-1"] := by
      intro h
      obtain ⟨-, h⟩ := List.forall₂_cons.mp h
      obtain ⟨⟨v, hv⟩, -⟩ := List.forall₂_cons.mp h
      cases hminus.symm.trans (Primitive.number?_eq_some_iff.mpr hv)
    obtain ⟨e, m', -, hcause, -, -, hcall⟩ := hrefuse hnot
    exact ⟨e, m', hcause, hcall⟩

/-- Three hundred is no number of one byte, and yet it is taken for a parameter that has one, as
forty-four. -/
theorem narrow_argument_wraps :
    (¬∃ v, Text.Literal true "300".toList v ∧ Primitive.int8.Contains v) ∧
      ∃ m', setAllArguments mixed ["300", "0"] ((prepare ⟨1⟩).after fresh) = .ok () m' ∧
        (mixed.place? m'.ctx.fp 0).bind m'.ctx.stack.read? = some 44 := by
  constructor
  · rintro ⟨v, hlit, -, hlt⟩
    have hread : Text.integer? true "300".toList = some 300 := by decide
    cases hread.symm.trans (Text.integer?_eq_some_iff.mpr hlit)
    exact absurd hlt (by decide)
  · exact ⟨_, ok_of_value (by decide +kernel), by decide +kernel⟩

end CommandLine
end ScriptVm
