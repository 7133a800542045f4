import ScriptVm.Instr.Codec
import Mathlib.Algebra.Group.Nat.Defs
import Mathlib.Data.List.Basic
import Mathlib.Data.List.Nodup

namespace ScriptVm

@[simp] theorem length_littleEndian (n v : Nat) : (littleEndian n v).length = n := by
  induction n generalizing v with
  | zero => rfl
  | succ n ih => rw [littleEndian, List.length_cons, ih]

theorem ofLittleEndian_lt (bytes : List UInt8) : ofLittleEndian bytes < 256 ^ bytes.length := by
  induction bytes with
  | nil => decide
  | cons b bytes ih =>
    have hb := b.toNat_lt
    rw [ofLittleEndian, List.length_cons, Nat.pow_succ]
    omega

theorem ofLittleEndian_littleEndian {n v : Nat} (h : v < 256 ^ n) :
    ofLittleEndian (littleEndian n v) = v := by
  induction n generalizing v with
  | zero =>
    have hv : v = 0 := by simpa using h
    rw [hv]
    rfl
  | succ n ih =>
    have hrest : v / 256 < 256 ^ n := by
      rw [Nat.pow_succ] at h
      omega
    rw [littleEndian, ofLittleEndian, ih hrest]
    simp only [Nat.toUInt8_eq, UInt8.toNat_ofNat']
    omega

theorem littleEndian_ofLittleEndian (bytes : List UInt8) :
    littleEndian bytes.length (ofLittleEndian bytes) = bytes := by
  induction bytes with
  | nil => rfl
  | cons b bytes ih =>
    have hb := b.toNat_lt
    have hlow : (b.toNat + 256 * ofLittleEndian bytes).toUInt8 = b := by
      apply UInt8.toNat_inj.mp
      simp only [Nat.toUInt8_eq, UInt8.toNat_ofNat']
      omega
    have hrest : (b.toNat + 256 * ofLittleEndian bytes) / 256 = ofLittleEndian bytes := by omega
    rw [List.length_cons, ofLittleEndian, littleEndian, hlow, hrest, ih]

namespace Operand

theorem bits_lt (o : Operand) : o.bits < 256 ^ o.kind.bytes := by
  cases o with
  | half v => exact v.toNat_lt
  | var v => exact v.toUInt16.toNat_lt
  | word v => exact v.toNat_lt
  | int v => exact v.toUInt32.toNat_lt
  | qword v => exact v.toNat_lt
  | single v => exact v.bits.toNat_lt
  | function v => exact v.val.toNat_lt
  | type v => exact v.val.toNat_lt

theorem ofBits_bits (o : Operand) : o.kind.ofBits o.bits = o := by
  cases o <;> simp [kind, bits, OperandKind.ofBits]

theorem kind_ofBits (k : OperandKind) (n : Nat) : (k.ofBits n).kind = k := by
  cases k <;> rfl

theorem bits_ofBits (k : OperandKind) {n : Nat} (h : n < 256 ^ k.bytes) : (k.ofBits n).bits = n := by
  cases k <;> simp [bits, OperandKind.ofBits, OperandKind.bytes] at h ⊢ <;> omega

@[simp] theorem length_encode (o : Operand) : o.encode.length = o.kind.bytes :=
  length_littleEndian _ _

theorem ofBits_eq_iff {k : OperandKind} {bytes : List UInt8} (h : bytes.length = k.bytes)
    {o : Operand} : k.ofBits (ofLittleEndian bytes) = o ↔ o.kind = k ∧ o.encode = bytes := by
  constructor
  · rintro rfl
    have hlt : ofLittleEndian bytes < 256 ^ k.bytes := h ▸ ofLittleEndian_lt bytes
    refine ⟨kind_ofBits k _, ?_⟩
    rw [encode, kind_ofBits, bits_ofBits k hlt, ← h, littleEndian_ofLittleEndian]
  · rintro ⟨rfl, rfl⟩
    rw [encode, ofLittleEndian_littleEndian o.bits_lt, ofBits_bits]

end Operand

theorem decodeOperands_eq_ok_iff {kinds : List OperandKind} {bytes rest : List UInt8}
    {os : List Operand} :
    decodeOperands kinds bytes = .ok (os, rest) ↔ os.map Operand.kind = kinds ∧
      bytes = os.flatMap Operand.encode ++ rest := by
  induction kinds generalizing bytes os with
  | nil =>
    simp only [decodeOperands, Except.ok.injEq, Prod.mk.injEq, List.map_eq_nil_iff]
    constructor
    · rintro ⟨rfl, rfl⟩
      exact ⟨rfl, rfl⟩
    · rintro ⟨rfl, rfl⟩
      exact ⟨rfl, rfl⟩
  | cons k kinds ih =>
    rw [decodeOperands]
    constructor
    · intro h
      split at h
      · cases h
      · rename_i hlen
        cases hrest : decodeOperands kinds (bytes.drop k.bytes) with
        | error e => simp [hrest, bind, Except.bind] at h
        | ok r =>
          obtain ⟨os', rest'⟩ := r
          simp only [hrest, bind, Except.bind, pure, Except.pure, Except.ok.injEq,
            Prod.mk.injEq] at h
          obtain ⟨rfl, rfl⟩ := h
          obtain ⟨hkinds, hbytes⟩ := ih.mp hrest
          have htake : (bytes.take k.bytes).length = k.bytes := by
            rw [List.length_take]
            omega
          obtain ⟨hkind, hencode⟩ := (Operand.ofBits_eq_iff htake).mp rfl
          refine ⟨by rw [List.map_cons, hkind, hkinds], ?_⟩
          rw [List.flatMap_cons, hencode, List.append_assoc, ← hbytes, List.take_append_drop]
    · rintro ⟨hkinds, rfl⟩
      cases os with
      | nil => cases hkinds
      | cons o os =>
        rw [List.map_cons, List.cons.injEq] at hkinds
        obtain ⟨rfl, hkinds⟩ := hkinds
        have hlen : ¬ ((o :: os).flatMap Operand.encode ++ rest).length < o.kind.bytes := by
          simp only [List.flatMap_cons, List.length_append, Operand.length_encode]
          omega
        have hfst : ((o :: os).flatMap Operand.encode ++ rest).take o.kind.bytes = o.encode := by
          rw [List.flatMap_cons, List.append_assoc, List.take_left' o.length_encode]
        have hoth : ((o :: os).flatMap Operand.encode ++ rest).drop o.kind.bytes =
            os.flatMap Operand.encode ++ rest := by
          rw [List.flatMap_cons, List.append_assoc, List.drop_left' o.length_encode]
        rw [if_neg hlen, hfst, hoth, ih.mpr ⟨hkinds, rfl⟩,
          (Operand.ofBits_eq_iff o.length_encode).mpr ⟨rfl, rfl⟩]
        rfl

namespace Opcode

theorem lookup_isSome (op : Opcode) : (table.lookup op).isSome = true := by
  cases op with
  | write width | read width => cases width <;> decide +kernel
  | branch test | test test => cases test <;> decide +kernel
  | unary op | binary op | immediate op | immediateFloat op | unary64 op | binary64 op | shift64 op
  | convert op =>
    cases op <;> decide +kernel
  | compare kind => cases kind <;> decide +kernel
  | _ => decide +kernel

theorem mem_table (op : Opcode) : (op, op.row) ∈ table := by
  obtain ⟨row, hrow⟩ := Option.isSome_iff_exists.mp op.lookup_isSome
  obtain ⟨before, after, htable, -⟩ := List.lookup_eq_some_iff.mp hrow
  rw [Opcode.row, hrow, Option.getD_some, htable]
  exact List.mem_append_right _ List.mem_cons_self

theorem opcodes_nodup : (table.map Prod.fst).Nodup := by decide +kernel

theorem tags_nodup : (table.map fun r => r.2.1).Nodup := by
  have hchain : (table.map fun r => r.2.1).IsChain (· < ·) := by decide +kernel
  exact (List.isChain_iff_pairwise.mp hchain).imp UInt8.ne_of_lt

/-- A column of the table that has no value twice tells the opcodes apart. -/
theorem find?_row {β : Type} [BEq β] [LawfulBEq β] (column : UInt8 × String → β)
    (hcolumn : (table.map fun r => column r.2).Nodup) (op : Opcode) :
    (table.find? fun r => column r.2 == column op.row).map Prod.fst = some op := by
  cases hr : table.find? fun r => column r.2 == column op.row with
  | none => exact absurd (beq_self_eq_true _) (List.find?_eq_none.mp hr _ op.mem_table)
  | some r =>
    have hsame := List.find?_some hr
    have hmem := List.mem_of_find?_eq_some hr
    rw [List.inj_on_of_nodup_map hcolumn hmem op.mem_table (beq_iff_eq.mp hsame),
      Option.map_some]

theorem ofTag?_eq_some_iff {t : UInt8} {op : Opcode} : ofTag? t = some op ↔ op.tag = t := by
  constructor
  · intro h
    obtain ⟨r, hr, rfl⟩ := Option.map_eq_some_iff.mp h
    have hmem := List.mem_of_find?_eq_some hr
    have hrow := List.inj_on_of_nodup_map opcodes_nodup hmem r.1.mem_table rfl
    have htag := List.find?_some hr
    rw [← beq_iff_eq.mp htag, hrow]
    rfl
  · rintro rfl
    exact find?_row Prod.fst tags_nodup op

end Opcode

namespace Instr

theorem kinds_operands (i : Instr) : i.operands.map Operand.kind = i.opcode.shape := by
  cases i <;> rfl

theorem ofOperands?_operands (i : Instr) : ofOperands? i.opcode i.operands = some i := by
  cases i <;> rfl

theorem ofOperands?_ofBits (op : Opcode) {bits : List Nat} (h : bits.length = op.shape.length) :
    ∃ i, ofOperands? op (List.zipWith OperandKind.ofBits op.shape bits) = some i ∧ i.opcode = op ∧
      i.operands = List.zipWith OperandKind.ofBits op.shape bits := by
  -- The cases are split by the number of operands.
  cases op with
  | pushNull | swap | swap64 | load | load64 | popRegister | pushRegister | clearHigh | suspend
  | test | checkTop
  | checkReferent =>
    obtain rfl := List.length_eq_zero_iff.mp h
    exact ⟨_, rfl, rfl, rfl⟩
  | setVar | compareUInt | setVar64 | move | move64 | compare | convert | storeGlobal | loadGlobal
  | referLoadGlobal
  | setGlobal | compareInt | compareFloat | alloc =>
    obtain ⟨a, b, rfl⟩ := List.length_eq_two.mp h
    exact ⟨_, rfl, rfl, rfl⟩
  | binary | binary64 | shift64 | immediate | immediateFloat =>
    obtain ⟨a, b, c, rfl⟩ := List.length_eq_three.mp h
    exact ⟨_, rfl, rfl, rfl⟩
  | _ =>
    obtain ⟨a, rfl⟩ := List.length_eq_one_iff.mp h
    exact ⟨_, rfl, rfl, rfl⟩

theorem ofOperands?_of_kinds {op : Opcode} {os : List Operand} (h : os.map Operand.kind = op.shape) :
    ∃ i, ofOperands? op os = some i ∧ i.opcode = op ∧ i.operands = os := by
  have hos : List.zipWith OperandKind.ofBits op.shape (os.map Operand.bits) = os := by
    rw [← h, List.zipWith_map, List.zipWith_self]
    simp [Operand.ofBits_bits]
  rw [← hos]
  exact ofOperands?_ofBits op (by rw [List.length_map, ← h, List.length_map])

theorem decode_eq_ok_iff {bytes rest : List UInt8} {i : Instr} :
    decode bytes = .ok (i, rest) ↔ bytes = i.encode ++ rest := by
  constructor
  · intro h
    cases bytes with
    | nil => cases h
    | cons tag bytes =>
      rw [decode] at h
      split at h
      · cases h
      · rename_i op hop
        cases hoperands : decodeOperands op.shape bytes with
        | error e => simp [hoperands, bind, Except.bind] at h
        | ok r =>
          obtain ⟨os, rest'⟩ := r
          obtain ⟨hkinds, rfl⟩ := decodeOperands_eq_ok_iff.mp hoperands
          obtain ⟨i', hi', rfl, rfl⟩ := ofOperands?_of_kinds hkinds
          simp only [hoperands, bind, Except.bind, hi'] at h
          cases h
          rw [← Opcode.ofTag?_eq_some_iff.mp hop]
          rfl
  · rintro rfl
    have hoperands : decodeOperands i.opcode.shape (i.operands.flatMap Operand.encode ++ rest) =
        .ok (i.operands, rest) :=
      decodeOperands_eq_ok_iff.mpr ⟨i.kinds_operands, rfl⟩
    simp only [encode, List.cons_append, decode, Opcode.ofTag?_eq_some_iff.mpr rfl, hoperands, bind,
      Except.bind, ofOperands?_operands]
    rfl

end Instr

theorem decodeCode_nil : decodeCode [] = .ok [] := by
  rw [decodeCode]
  rfl

theorem decodeCode_of_decode {bytes rest : List UInt8} {i : Instr}
    (h : Instr.decode bytes = .ok (i, rest)) :
    decodeCode bytes = (decodeCode rest).map (i :: ·) := by
  have hbytes : bytes.isEmpty = false := by
    rw [Instr.decode_eq_ok_iff.mp h]
    rfl
  rw [decodeCode, hbytes]
  simp only [Bool.false_eq_true, if_false]
  split
  · rename_i herr
    rw [h] at herr
    cases herr
  · rename_i hok
    rw [h] at hok
    cases hok
    rfl

theorem decodeCode_encodeCode (code : List Instr) : decodeCode (encodeCode code) = .ok code := by
  induction code with
  | nil => exact decodeCode_nil
  | cons i code ih =>
    have hfst : Instr.decode (encodeCode (i :: code)) = .ok (i, encodeCode code) :=
      Instr.decode_eq_ok_iff.mpr rfl
    rw [decodeCode_of_decode hfst, ih]
    rfl

theorem eq_encodeCode_of_decodeCode {bytes : List UInt8} {code : List Instr}
    (h : decodeCode bytes = .ok code) : bytes = encodeCode code := by
  induction code generalizing bytes with
  | nil =>
    rw [decodeCode] at h
    split at h
    · rename_i hempty
      exact List.isEmpty_iff.mp hempty
    · split at h
      · cases h
      · rename_i rest hfst
        cases hrest : decodeCode rest <;> simp [hrest, Except.map] at h
  | cons i code ih =>
    rw [decodeCode] at h
    split at h
    · cases h
    · split at h
      · cases h
      · rename_i first rest hfst
        cases hrest : decodeCode rest with
        | error e => simp [hrest, Except.map] at h
        | ok others =>
          simp only [hrest, Except.map, Except.ok.injEq, List.cons.injEq] at h
          obtain ⟨rfl, rfl⟩ := h
          rw [Instr.decode_eq_ok_iff.mp hfst, ih hrest]
          rfl

theorem encodeCode_injective : Function.Injective encodeCode := by
  intro code code' h
  have hread := decodeCode_encodeCode code
  rw [h, decodeCode_encodeCode] at hread
  cases hread
  rfl

/-- Bytes are read as code if and only if they are what that code is written as. So reading undoes
writing, writing what was read gives the same bytes again, and different programs are written
differently. -/
theorem decodeCode_eq_ok_iff (code : List Instr) (bytes : List UInt8) :
    (decodeCode bytes = .ok code ↔ bytes = encodeCode code) ∧
      decodeCode (encodeCode code) = .ok code ∧
      (∀ code', decodeCode bytes = .ok code' → encodeCode code' = bytes) ∧
      Function.Injective encodeCode := by
  refine ⟨⟨eq_encodeCode_of_decodeCode, ?_⟩, decodeCode_encodeCode code, fun code' h => ?_,
    encodeCode_injective⟩
  · rintro rfl
    exact decodeCode_encodeCode code
  · exact (eq_encodeCode_of_decodeCode h).symm

end ScriptVm
