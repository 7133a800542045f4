import ScriptVm.Proofs.Execution.Variables
import ScriptVm.Proofs.Session.Preparation

namespace ScriptVm

namespace Func

/-- Words from the first parameter on that come before this one. -/
def wordsBefore (f : Func) (index : Nat) : Nat :=
  total (fun p => p.type.words) (f.signature.params.take index)

variable {f : Func} {index : Nat} {p : Parameter}

theorem paramOffset?_eq (h : f.signature.params[index]? = some p) :
    f.paramOffset? index = some (f.thisWords + f.wordsBefore index) :=
  if_pos (List.getElem?_eq_some_iff.mp h).1

theorem wordsBefore_succ (h : f.signature.params[index]? = some p) :
    f.wordsBefore (index + 1) = f.wordsBefore index + p.type.words := by
  rw [wordsBefore, List.take_add_one, h, total_append]
  rfl

theorem wordsBefore_length (f : Func) :
    f.wordsBefore f.signature.params.length = f.signature.paramWords := by
  rw [wordsBefore, List.take_length]
  rfl

theorem wordsBefore_mono (f : Func) {i j : Nat} (h : i ≤ j) : f.wordsBefore i ≤ f.wordsBefore j := by
  induction h with
  | refl => exact Nat.le_refl _
  | step _ ih =>
    refine Nat.le_trans ih ?_
    rw [wordsBefore, wordsBefore, List.take_add_one, total_append]
    exact Nat.le_add_right _ _

theorem wordsBefore_le (h : f.signature.params[index]? = some p) :
    f.wordsBefore index + p.type.words ≤ f.signature.paramWords := by
  rw [← wordsBefore_succ h, ← f.wordsBefore_length]
  exact f.wordsBefore_mono (List.getElem?_eq_some_iff.mp h).1

end Func

/-- One word or two. -/
inductive SlotValue where
  | word (v : UInt32)
  | pair (v : UInt64)
  deriving DecidableEq, Repr

def SlotValue.size : SlotValue → Nat
  | word _ => 1
  | pair _ => 2

namespace Stack

def Shows (s : Stack) (p : Pointer) : SlotValue → Prop
  | .word v => s.read? p = some v
  | .pair v => s.read64? p = some v

def store (s : Stack) (p : Pointer) : SlotValue → Stack
  | .word v => s.set p v
  | .pair v => s.set64 p v

/-- So many words from a place on are there, and the place after them still has a number. -/
structure Spans (s : Stack) (p : Pointer) (words : Nat) : Prop where
  number : p.offset.toNat + words < 4294967296
  block : p.offset.toNat + words ≤ s.blockSize p.block.toNat

variable {s : Stack} {p q : Pointer} {c d : SlotValue} {words offset : Nat}

theorem Spans.shift? (h : s.Spans p words) (hoff : offset ≤ words) :
    ∃ q, p.shift? offset = some q ∧ s.Spans q (words - offset) := by
  have hnumber := h.number
  have hblk := h.block
  have hword : (p.offset.toNat + offset).toUInt32.toNat = p.offset.toNat + offset :=
    Nat.mod_eq_of_lt (by omega)
  refine ⟨⟨p.block, (p.offset.toNat + offset).toUInt32⟩,
    Pointer.shift?_eq_some_iff.mpr ⟨rfl, ?_⟩, ?_, ?_⟩ <;>
    dsimp only <;> omega

theorem Spans.contains (h : s.Spans p words) (hpos : 0 < words) : s.contains p = true := by
  have hblk := h.block
  exact decide_eq_true (by omega)

theorem Spans.next (h : s.Spans p 2) : ∃ q, p.shift? 1 = some q ∧ s.contains q = true := by
  obtain ⟨q, hq, hspans⟩ := h.shift? (show 1 ≤ 2 by omega)
  exact ⟨q, hq, hspans.contains (by omega)⟩

theorem Spans.contains64 (h : s.Spans p 2) : s.contains64 p = true := by
  obtain ⟨q, hq, hcont⟩ := h.next
  rw [Stack.contains64, hq]
  exact hcont

theorem shows_store (h : s.Spans p c.size) : (s.store p c).Shows p c := by
  cases c with
  | word v =>
    show (s.set p v).read? p = some v
    rw [read?_set, if_pos ⟨rfl, h.contains Nat.one_pos⟩]
  | pair v =>
    obtain ⟨old, hread⟩ := read64?_of_contains64 h.contains64
    exact s.read64?_set64_self hread v

theorem alters_store (h : s.Spans p c.size) : s.Alters (·.Among p c.size) (s.store p c) := by
  cases c with
  | word v => exact (s.alters_set p v).weaken fun q hq => hq ▸ p.among_self 0
  | pair v =>
    obtain ⟨q, hq, -⟩ := h.next
    exact s.alters_set64 hq v

theorem Alters.spans {P : Pointer → Prop} {t : Stack} (h : s.Alters P t) (hs : s.Spans p words) :
    t.Spans p words :=
  ⟨hs.number, by rw [blockSize_of_layout h.layout]; exact hs.block⟩

/-- What lies outside the words that are altered stays. -/
theorem Alters.shows {t : Stack} (h : s.Alters (·.Among p words) t) (hspans : s.Spans q c.size)
    (hc : s.Shows q c)
    (hapart : q.offset.toNat + c.size ≤ p.offset.toNat ∨ p.offset.toNat + words ≤ q.offset.toNat) :
    t.Shows q c := by
  have hsame {r : Pointer} (hr : r.Among q c.size) : t.read? r = s.read? r :=
    h.words r fun hother => hother.not_apart hr hapart
  cases c with
  | word v => exact (hsame (q.among_self 0)).trans hc
  | pair v =>
    obtain ⟨r, hr, -⟩ := hspans.next
    refine (read64?_congr (hsame (q.among_self 1)) fun r' hr' => ?_).trans hc
    exact hsame (Pointer.among_of_shift hr')

end Stack

/-- Where a parameter lies in a frame. -/
def Func.place? (f : Func) (fp : Pointer) (index : Nat) : Option Pointer :=
  (f.paramOffset? index).bind fun offset => fp.shift? offset

/-- A context that is prepared for a function and has its argument words. -/
structure Context.Awaits (c : Context) (f : Func) : Prop where
  state : c.state = .prepared
  entry : c.entry = some f
  room : c.stack.Spans c.fp f.argWords

theorem Context.Awaits.after {m : Machine} {f : Func} (h : m.ctx.Awaits f) {q : Pointer}
    {c : SlotValue} (hc : m.ctx.stack.Spans q c.size) :
    (m.onStack fun s => s.store q c).ctx.Awaits f :=
  ⟨h.state, h.entry, (Stack.alters_store hc).spans h.room⟩

/-- An argument of a primitive type, or an address, as the host gives it. -/
inductive Argument where
  | byte (v : UInt8)
  | half (v : UInt16)
  | word (v : UInt32)
  | qword (v : UInt64)
  | float (bits : UInt32)
  | double (bits : UInt64)
  | address (a : Address)

namespace Argument

open Exec

def set (index : Nat) : Argument → Exec RequestError Unit
  | byte v => setArgByte index v
  | half v => setArgHalf index v
  | word v => setArgWord index v
  | qword v => setArgQword index v
  | float bits => setArgFloat index bits
  | double bits => setArgDouble index bits
  | address a => setArgAddress index a

/-- The types of the parameters that take an argument. -/
def fits (type : DataType) : Argument → Bool
  | byte _ => type.isPrimitive && type.bytes == 1
  | half _ => type.isPrimitive && type.bytes == 2
  | word _ => type.isPrimitive && type.bytes == 4
  | qword _ => type.isPrimitive && type.bytes == 8
  | float _ => type == .float
  | double _ => type == .double
  | address _ => type.reference

def value : Argument → SlotValue
  | byte v => .word v.toUInt32
  | half v => .word v.toUInt32
  | word v | float v => .word v
  | qword v | double v => .pair v
  | address a => .pair a.bits

variable {m m' : Machine} {f : Func} {index : Nat} {p : Parameter} {q : Pointer} {a b : Argument}

theorem size_eq_words {type : DataType} (h : a.fits type = true) : a.value.size = type.words := by
  have hprimitive {bytes : Nat} (h : (type.isPrimitive && type.bytes == bytes) = true) :
      type.words = (bytes + 3) / 4 := by
    obtain ⟨hprimitive, hbytes⟩ := Bool.and_eq_true_iff.mp h
    obtain ⟨hobj, hreference⟩ := Bool.and_eq_true_iff.mp hprimitive
    have hbytes := beq_iff_eq.mp hbytes
    simp only [Bool.not_eq_true'] at hobj hreference
    simp [DataType.words, hobj, hreference, hbytes]
  cases a with
  | byte | half | word | qword => exact (hprimitive h).symm
  | float | double =>
    rw [beq_iff_eq.mp h]
    rfl
  | address a =>
    have hreference : type.reference = true := h
    simp [DataType.words, hreference, value, SlotValue.size, pointerWords]

theorem argSlot_of_param (h : m.ctx.Awaits f) (hp : f.signature.params[index]? = some p) :
    ∃ q, f.place? m.ctx.fp index = some q ∧ m.ctx.stack.Spans q p.type.words ∧
      argSlot index m = .ok (q, p.type) m := by
  have hle := Func.wordsBefore_le hp
  have hnumber := h.room.number
  unfold Func.argWords at hnumber
  have hword : m.ctx.fp.offset.toNat + (f.thisWords + f.wordsBefore index) < 4294967296 := by omega
  obtain ⟨q, hq, hspans⟩ := h.room.shift?
    (show f.thisWords + f.wordsBefore index ≤ f.argWords by unfold Func.argWords; omega)
  obtain ⟨hblk, hoff⟩ := Pointer.shift?_eq_some_iff.mp hq
  have hpl :
      q = { block := m.ctx.fp.block,
            offset := m.ctx.fp.offset + (f.thisWords + f.wordsBefore index).toUInt32 } := by
    obtain ⟨block, offset⟩ := q
    refine Pointer.mk.injEq .. ▸ ⟨hblk, UInt32.toNat_inj.mp ?_⟩
    rw [UInt32.toNat_add, Nat.toUInt32_eq, UInt32.toNat_ofNat']
    dsimp only at hoff
    omega
  have hfits : m.ctx.stack.Spans q p.type.words := by
    have hwhole := hspans.number
    have hblk := hspans.block
    unfold Func.argWords at hwhole hblk
    exact ⟨by omega, by omega⟩
  refine ⟨q, ?_, hfits, ?_⟩
  · rw [Func.place?, Func.paramOffset?_eq hp]
    exact hq
  · rw [argSlot_eq h.entry, argPlace, if_neg (not_not.mpr h.state), List.getElem?_map, hp,
      ← List.map_take, total_map]
    show (wordOrStop (m.ctx.fp.offset.toNat + (f.thisWords + f.wordsBefore index)) >>= fun _ =>
        pure _) m = _
    rw [wordOrStop, if_pos hword, hpl]
    rfl

theorem argSlot_of_none (h : m.ctx.Awaits f) (hp : f.signature.params[index]? = none) :
    argSlot index m = .error (.cause (.argIndex index)) m := by
  rw [argSlot_eq h.entry, argPlace, if_neg (not_not.mpr h.state), List.getElem?_map, hp]
  rfl

/-- Writes a value to words of the stack. -/
def fill (q : Pointer) : SlotValue → Exec RequestError Unit
  | .word v => setStack q v
  | .pair v => setStack64 q v

theorem fill_of_spans {c : SlotValue} (h : m.ctx.stack.Spans q c.size) :
    fill q c m = .ok () (m.onStack fun s => s.store q c) := by
  cases c with
  | word v =>
    show (if m.ctx.stack.contains q then _ else _ : Exec RequestError Unit) m = _
    rw [if_pos (h.contains Nat.one_pos)]
    rfl
  | pair v =>
    show EStateM.Result.ok () (m.setWords q v) = _
    rw [Machine.setWords, if_pos h.contains64]
    rfl

theorem bind_of_ok_or_error {α β ε : Type} {b : Bool} {x : Exec ε α} {v : α} {stop : Stop ε}
    (h : x m = if b then .ok v m else .error stop m) (g : α → Exec ε β) :
    (x >>= g) m = if b then g v m else .error stop m := by
  cases b with
  | false => exact bind_of_error h g
  | true => exact bind_of_ok h

theorem primitiveSlot_eq {bytes : Nat} {what : String}
    (hslot : argSlot index m = .ok (q, p.type) m) :
    primitiveSlot index bytes what m = if p.type.isPrimitive && p.type.bytes == bytes then .ok q m
      else .error (.cause (.argType index (what ++ " for " ++ p.type.text))) m := by
  have href : (p.type.isObject || p.type.reference || p.type.bytes != bytes) =
      !(p.type.isPrimitive && p.type.bytes == bytes) := by
    rw [DataType.isPrimitive, Bool.not_and, Bool.not_and, Bool.not_not, Bool.not_not]
    rfl
  unfold primitiveSlot
  rw [bind_of_ok hslot]
  dsimp only
  rw [href]
  cases p.type.isPrimitive && p.type.bytes == bytes <;> rfl

/-- A call either refuses the argument and changes nothing, or fills the slot of the parameter. -/
theorem set_eq (h : m.ctx.Awaits f) (hp : f.signature.params[index]? = some p) (a : Argument) :
    ∃ q stop, f.place? m.ctx.fp index = some q ∧ m.ctx.stack.Spans q p.type.words ∧
      a.set index m = if a.fits p.type then .ok () (m.onStack fun s => s.store q a.value)
        else .error stop m := by
  obtain ⟨q, hpl, hspans, hslot⟩ := argSlot_of_param h hp
  suffices hset :
    ∃ stop, a.set index m = if a.fits p.type then fill q a.value m else .error stop m by
    obtain ⟨stop, hset⟩ := hset
    refine ⟨q, stop, hpl, hspans,
      hset.trans (if_ctx_congr Iff.rfl (fun hfits => fill_of_spans ?_) fun _ => rfl)⟩
    rwa [size_eq_words hfits]
  cases a with
  | byte v | half v | word v | qword v =>
    exact ⟨_, bind_of_ok_or_error (x := primitiveSlot index _ _) (primitiveSlot_eq hslot) _⟩
  | float v | double v =>
    refine ⟨.cause (.argType index p.type.text), (bind_of_ok hslot).trans ?_⟩
    simp only [fits, beq_iff_eq, ne_eq, ite_not]
    split <;> rfl
  | address a =>
    refine ⟨.cause (.argType index p.type.text), (bind_of_ok hslot).trans ?_⟩
    show (if !p.type.reference then _ else _ : Exec RequestError Unit) m = if p.type.reference
        then _ else _
    cases p.type.reference <;> rfl

/-- The argument can be set for the parameter, and goes to this place. -/
structure Goes (a : Argument) (f : Func) (index : Nat) (m : Machine) (q : Pointer) : Prop where
  fits : ∃ p, f.signature.params[index]? = some p ∧ a.fits p.type = true
  place : f.place? m.ctx.fp index = some q
  room : m.ctx.stack.Spans q a.value.size

theorem set_ok_iff (h : m.ctx.Awaits f) :
    a.set index m = .ok () m' ↔ ∃ q, a.Goes f index m q ∧ m' = m.onStack fun s =>
      s.store q a.value := by
  constructor
  · intro hset
    cases hp : f.signature.params[index]? with
    | none =>
      have hslot := argSlot_of_none h hp
      cases a with
      | byte | half | word | qword =>
        refine absurd
          ((bind_of_error (x := primitiveSlot index _ _) (bind_of_error hslot _) _).symm.trans hset)
            ?_
        simp
      | float | double | address =>
        refine absurd ((bind_of_error hslot _).symm.trans hset) ?_
        simp
    | some p =>
      obtain ⟨q, stop, hpl, hspans, heq⟩ := set_eq h hp a
      rw [hset] at heq
      split at heq
      · rename_i hfits
        cases heq
        rw [← size_eq_words hfits] at hspans
        exact ⟨q, ⟨⟨p, hp, hfits⟩, hpl, hspans⟩, rfl⟩
      · cases heq
  · rintro ⟨q, ⟨⟨p, hp, hfits⟩, hpl, -⟩, rfl⟩
    obtain ⟨q', stop, hpl', -, heq⟩ := set_eq h hp a
    rw [hpl] at hpl'
    cases hpl'
    rw [heq, if_pos hfits]

theorem Goes.offset (h : a.Goes f index m q) :
    ∃ p, f.signature.params[index]? = some p ∧ a.value.size = p.type.words ∧
      q.block = m.ctx.fp.block ∧
      q.offset.toNat = m.ctx.fp.offset.toNat + (f.thisWords + f.wordsBefore index) := by
  obtain ⟨p, hp, hfits⟩ := h.fits
  have hpl := h.place
  rw [Func.place?, Func.paramOffset?_eq hp, Option.bind_some] at hpl
  obtain ⟨hblk, hoff⟩ := Pointer.shift?_eq_some_iff.mp hpl
  exact ⟨p, hp, size_eq_words hfits, hblk, by omega⟩

/-- Different parameters lie apart. -/
theorem Goes.apart {i j : Nat} {r : Pointer} (ha : a.Goes f i m q) (hb : b.Goes f j m r)
    (hne : i ≠ j) : q.offset.toNat + a.value.size ≤ r.offset.toNat ∨
      r.offset.toNat + b.value.size ≤ q.offset.toNat := by
  obtain ⟨p, hp, hsize, -, hoff⟩ := ha.offset
  obtain ⟨p', hp', hsize', -, hoff'⟩ := hb.offset
  have hnext := Func.wordsBefore_succ hp
  have hnext' := Func.wordsBefore_succ hp'
  obtain hlt | hlt := Nat.lt_or_gt_of_ne hne
  · have hmono := f.wordsBefore_mono (show i + 1 ≤ j from hlt)
    omega
  · have hmono := f.wordsBefore_mono (show j + 1 ≤ i from hlt)
    omega

/-- What can be set can still be set once something was set. -/
theorem Goes.after {c : SlotValue} {r : Pointer} (h : a.Goes f index m q)
    (hc : m.ctx.stack.Spans r c.size) : a.Goes f index (m.onStack fun s => s.store r c) q :=
  ⟨h.fits, h.place, (Stack.alters_store hc).spans h.room⟩

/-- The parameter has the argument as its value. -/
def Stands (a : Argument) (f : Func) (index : Nat) (m : Machine) : Prop :=
  ∃ q, a.Goes f index m q ∧ m.ctx.stack.Shows q a.value

theorem stands_set (h : m.ctx.Awaits f) (hset : a.set index m = .ok () m') :
    a.Stands f index m' := by
  obtain ⟨q, hgoes, rfl⟩ := (set_ok_iff h).mp hset
  exact ⟨q, hgoes.after hgoes.room, Stack.shows_store hgoes.room⟩

theorem Stands.set {i j : Nat} (hb : b.Stands f j m) (h : m.ctx.Awaits f)
    (hset : a.set i m = .ok () m') (hne : i ≠ j) : b.Stands f j m' := by
  obtain ⟨q, hgoes, rfl⟩ := (set_ok_iff h).mp hset
  obtain ⟨r, hr, hshows⟩ := hb
  exact ⟨r, hr.after hgoes.room,
    (Stack.alters_store hgoes.room).shows hr.room hshows (hr.apart hgoes (Ne.symm hne))⟩

end Argument

/-- An argument has this value for a host function. -/
def HostCall.Reads (call : HostCall) (s : Stack) (index : Nat) : SlotValue → Prop
  | .word v => call.word s index = v
  | .pair v => call.word64 s index = v

namespace Exec

variable {m m' : Machine} {f : Func} {index : Nat} {a : Argument}

end Exec

namespace Func

/-- The words that a caller pushes for a host function. The object of a method is among them unless
it is given. -/
def pushedWords (f : Func) (this : Option Handle) : Nat :=
  if this.isSome then f.signature.paramWords else f.argWords

end Func

namespace Exec

variable {m : Machine} {f : Func} {this : Option Handle}

end Exec

namespace Machine

end Machine

namespace Func

open Exec

variable {f : Func} {m m' : Machine} {args : List (Nat × Argument)}

/-- Where a context that is prepared has its arguments. -/
theorem awaits_of_prepared {m0 : Machine} (hseated : m0.ctx.Seated) (hkind : f.kind ≠ .imported)
    (h : prepareFunction f m0 = .ok () m) : m.ctx.Awaits f := by
  have hlay := layered_vacated hseated
  obtain ⟨hword, rfl⟩ := prepareFunction_ok hseated hkind h
  let s := m0.vacated.firstStack f
  have hent : s.HoldsEntry f := Machine.holdsEntry_firstStack hlay hword
  have hlyt := ((s.clearArgs f).alters_clearVars (s.entryFp f) f.objectVars).layout.trans
    (s.alters_clearArgs f).layout
  rw [Machine.settled_ctx]
  refine ⟨rfl, rfl, ?_, ?_⟩
  · show (s.entryFp f).offset.toNat + f.argWords < _
    rw [hent.top]
    exact hent.word
  · show (s.entryFp f).offset.toNat + f.argWords ≤ Stack.blockSize _ 0
    rw [Stack.blockSize_of_layout hlyt, hent.top]

end Func

end ScriptVm
