import Mathlib.Algebra.GroupWithZero.Nat
import ScriptVm.Instr.Blob
import ScriptVm.Proofs.Instr.Canonical

namespace ScriptVm

theorem cut_cases {bytes lost first others : List UInt8} (h : bytes ++ lost = first ++ others) :
    (∃ cut, first = bytes ++ cut ∧ cut ≠ []) ∨ ∃ rest, bytes = first ++ rest ∧
      rest ++ lost = others := by
  rcases List.append_eq_append_iff.mp h with ⟨cut, hfst, hlost⟩ | ⟨rest, hbytes, hoth⟩
  · by_cases hcut : cut = []
    · subst hcut
      exact .inr ⟨[], by simpa using hfst.symm, hlost⟩
    · exact .inl ⟨cut, hfst, hcut⟩
  · exact .inr ⟨rest, hbytes, hoth.symm⟩

theorem decodeOperands_of_length_lt {kinds : List OperandKind} {bytes : List UInt8}
    (h : bytes.length < (kinds.map OperandKind.bytes).sum) :
    decodeOperands kinds bytes = .error .endOfCode := by
  induction kinds generalizing bytes with
  | nil => simp at h
  | cons kind kinds ih =>
    rw [decodeOperands]
    split
    · rfl
    · rename_i hlen
      have hrest : (bytes.drop kind.bytes).length < (kinds.map OperandKind.bytes).sum := by
        simp only [List.map_cons, List.sum_cons] at h
        rw [List.length_drop]
        omega
      rw [ih hrest]
      rfl

namespace Instr

theorem length_operands (i : Instr) :
    (i.operands.flatMap Operand.encode).length = (i.opcode.shape.map OperandKind.bytes).sum := by
  rw [List.length_flatMap, ← kinds_operands, List.map_map]
  simp [Function.comp_def]

theorem decode_of_cut {i : Instr} {bytes lost : List UInt8} (h : i.encode = bytes ++ lost)
    (hlost : lost ≠ []) : decode bytes = .error .endOfCode := by
  cases bytes with
  | nil => rfl
  | cons tag bytes =>
    simp only [encode, List.cons_append, List.cons.injEq] at h
    obtain ⟨rfl, hoperands⟩ := h
    have hlen : bytes.length < (i.opcode.shape.map OperandKind.bytes).sum := by
      have := List.length_pos_iff.mpr hlost
      rw [← length_operands, hoperands, List.length_append]
      omega
    rw [decode, Opcode.ofTag?_eq_some_iff.mpr rfl]
    simp only [decodeOperands_of_length_lt hlen]
    rfl

end Instr

namespace Blob

variable {bytes : List UInt8} {code : List Instr}

theorem decodeCount_eq_ok_iff {n : Nat} {rest : List UInt8} :
    decodeCount n bytes = .ok (code, rest) ↔ code.length = n ∧ bytes = encodeCode code ++ rest := by
  induction n generalizing bytes code with
  | zero =>
    simp only [decodeCount, Except.ok.injEq, Prod.mk.injEq, List.length_eq_zero_iff]
    constructor
    · rintro ⟨rfl, rfl⟩
      exact ⟨rfl, rfl⟩
    · rintro ⟨rfl, rfl⟩
      exact ⟨rfl, rfl⟩
  | succ n ih =>
    rw [decodeCount]
    constructor
    · intro h
      cases hfst : Instr.decode bytes with
      | error e => simp [hfst, bind, Except.bind] at h
      | ok first =>
        obtain ⟨i, others⟩ := first
        cases hoth : decodeCount n others with
        | error e => simp [hfst, hoth, bind, Except.bind] at h
        | ok r =>
          obtain ⟨code', rest'⟩ := r
          simp only [hfst, hoth, bind, Except.bind, pure, Except.pure, Except.ok.injEq,
            Prod.mk.injEq] at h
          obtain ⟨rfl, rfl⟩ := h
          obtain ⟨rfl, rfl⟩ := ih.mp hoth
          refine ⟨rfl, ?_⟩
          rw [Instr.decode_eq_ok_iff.mp hfst, encodeCode, encodeCode, List.flatMap_cons,
            List.append_assoc]
    · rintro ⟨hlen, rfl⟩
      cases code with
      | nil => cases hlen
      | cons i code =>
        have hfst :
            Instr.decode (encodeCode (i :: code) ++ rest) = .ok (i, encodeCode code ++ rest) := by
          rw [Instr.decode_eq_ok_iff, encodeCode, encodeCode, List.flatMap_cons, List.append_assoc]
        have hoth : decodeCount n (encodeCode code ++ rest) = .ok (code, rest) :=
          ih.mpr ⟨Nat.succ.inj hlen, rfl⟩
        simp only [hfst, hoth, bind, Except.bind]
        rfl

/-- Code that lost bytes at its end. The cut falls into an instruction, or in front of one. -/
theorem decodeCount_of_cut {lost : List UInt8} (h : bytes ++ lost = encodeCode code)
    (hlost : lost ≠ []) : decodeCount code.length bytes = .error .endOfCode := by
  induction code generalizing bytes with
  | nil =>
    have hnone := (List.append_eq_nil_iff.mp h).2
    exact absurd hnone hlost
  | cons i code ih =>
    rw [List.length_cons, decodeCount]
    rcases cut_cases h with ⟨cut, hi, hcut⟩ | ⟨others, hbytes, hoth⟩
    · rw [Instr.decode_of_cut hi hcut]
      rfl
    · rw [Instr.decode_eq_ok_iff.mpr hbytes]
      simp only [bind, Except.bind, ih hoth]

theorem takeWord_of_length_lt (h : bytes.length < 4) : takeWord bytes = .error .endOfCode := if_pos h

theorem takeWord_eq_ok_iff {rest : List UInt8} {n : Nat} :
    takeWord bytes = .ok (n, rest) ↔ n < 4294967296 ∧ bytes = littleEndian 4 n ++ rest := by
  unfold takeWord
  constructor
  · intro h
    split at h
    · cases h
    · rename_i hlen
      simp only [Except.ok.injEq, Prod.mk.injEq] at h
      obtain ⟨rfl, rfl⟩ := h
      have htake : (bytes.take 4).length = 4 := by
        rw [List.length_take]
        omega
      have hlt := ofLittleEndian_lt (bytes.take 4)
      have hwritten := littleEndian_ofLittleEndian (bytes.take 4)
      rw [htake] at hlt hwritten
      exact ⟨hlt, by rw [hwritten, List.take_append_drop]⟩
  · rintro ⟨hn, rfl⟩
    have hlen : ¬ (littleEndian 4 n ++ rest).length < 4 := by simp
    rw [if_neg hlen, List.take_left' (length_littleEndian 4 n),
      List.drop_left' (length_littleEndian 4 n),
      ofLittleEndian_littleEndian hn]

theorem eq_littleEndian_of_takeWord {α : Type} {next : Nat × List UInt8 → Except CodeError α} {a : α}
    (h : takeWord bytes >>= next = .ok a) :
    ∃ n rest, n < 4294967296 ∧ bytes = littleEndian 4 n ++ rest ∧ next (n, rest) = .ok a := by
  cases hword : takeWord bytes with
  | error e =>
    rw [hword] at h
    cases h
  | ok r =>
    rw [hword] at h
    obtain ⟨hn, hbytes⟩ := takeWord_eq_ok_iff.mp hword
    exact ⟨r.1, r.2, hn, hbytes, h⟩

theorem readVersioned_version (bytes : List UInt8) :
    readVersioned (littleEndian 4 version.toNat ++ bytes) = readCounted bytes := by
  rw [readVersioned, takeWord_eq_ok_iff.mpr ⟨by decide, rfl⟩]
  rfl

theorem readCounted_count {count : Nat} (h : count < 4294967296) (bytes : List UInt8) :
    readCounted (littleEndian 4 count ++ bytes) = readBody count bytes := by
  rw [readCounted, takeWord_eq_ok_iff.mpr ⟨h, rfl⟩]
  rfl

theorem read_magic (bytes : List UInt8) : read (magic ++ bytes) = readVersioned bytes := by
  have hlen : ¬ (magic ++ bytes).length < 4 := by simp [magic]
  have htake : (magic ++ bytes).take 4 = magic := List.take_left' rfl
  have hdrop : (magic ++ bytes).drop 4 = bytes := List.drop_left' rfl
  rw [read, if_neg hlen, htake, hdrop, if_pos (beq_self_eq_true magic)]

theorem write_eq (code : List Instr) : write code = magic ++
      (littleEndian 4 version.toNat ++ (littleEndian 4 code.length ++ encodeCode code)) := by
  simp only [write, List.append_assoc]

theorem read_write_append (h : code.length < 4294967296) (extra : List UInt8) :
    read (write code ++ extra) = if extra.isEmpty then .ok code
      else .error (.trailing extra.length) := by
  have hcode : decodeCount code.length (encodeCode code ++ extra) = .ok (code, extra) :=
    decodeCount_eq_ok_iff.mpr ⟨rfl, rfl⟩
  simp only [write_eq, List.append_assoc]
  rw [read_magic, readVersioned_version, readCounted_count h, readBody, hcode]
  rfl

theorem eq_encodeCode_of_readBody {count : Nat} (h : readBody count bytes = .ok code) :
    code.length = count ∧ bytes = encodeCode code := by
  rw [readBody] at h
  cases hcode : decodeCount count bytes with
  | error e =>
    rw [hcode] at h
    cases h
  | ok r =>
    obtain ⟨code', rest⟩ := r
    have hend : (if rest.isEmpty then .ok code'
        else .error (.trailing rest.length) : Except CodeError (List Instr)) = .ok code := by
      rw [hcode] at h
      exact h
    split at hend
    · rename_i hrest
      cases hend
      obtain ⟨hlen, hbytes⟩ := decodeCount_eq_ok_iff.mp hcode
      rw [List.isEmpty_iff.mp hrest, List.append_nil] at hbytes
      exact ⟨hlen, hbytes⟩
    · cases hend

theorem eq_magic_of_read (h : read bytes = .ok code) :
    ∃ rest, bytes = magic ++ rest ∧ readVersioned rest = .ok code := by
  rw [read] at h
  split at h
  · cases h
  · split at h
    · rename_i hmagic
      refine ⟨bytes.drop 4, ?_, h⟩
      rw [← beq_iff_eq.mp hmagic, List.take_append_drop]
    · cases h

theorem eq_write_of_read (h : read bytes = .ok code) : bytes = write code := by
  obtain ⟨others, rfl, hversioned⟩ := eq_magic_of_read h
  obtain ⟨v, counted, -, rfl, hvsn⟩ := eq_littleEndian_of_takeWord hversioned
  dsimp only at hvsn
  split at hvsn
  · rename_i hv
    obtain ⟨count, body, -, rfl, hbody⟩ := eq_littleEndian_of_takeWord hvsn
    obtain ⟨hlen, hbytes⟩ := eq_encodeCode_of_readBody hbody
    rw [write_eq, beq_iff_eq.mp hv, hlen, hbytes]
  · cases hvsn

/-- A blob that lost bytes at its end. The cut falls into the magic, the version, the number of
instructions or behind them. -/
theorem read_of_cut (h : code.length < 4294967296) {lost : List UInt8}
    (hcut : bytes ++ lost = write code) (hlost : lost ≠ []) : read bytes = .error .endOfCode := by
  have hshort {bytes cut first : List UInt8} (hlen : first.length = 4) (hfst : first = bytes ++ cut)
      (hcut : cut ≠ []) :
      bytes.length < 4 := by
    have := List.length_pos_iff.mpr hcut
    rw [hfst, List.length_append] at hlen
    omega
  rw [write_eq] at hcut
  rcases cut_cases hcut with ⟨cut, hmagic, hne⟩ | ⟨others, rfl, hoth⟩
  · exact if_pos (hshort rfl hmagic hne)
  rw [read_magic]
  rcases cut_cases hoth with ⟨cut, hvsn, hne⟩ | ⟨counted, rfl, hcntd⟩
  · rw [readVersioned, takeWord_of_length_lt (hshort (length_littleEndian 4 _) hvsn hne)]
    rfl
  rw [readVersioned_version]
  rcases cut_cases hcntd with ⟨cut, hcnt, hne⟩ | ⟨body, rfl, hbody⟩
  · rw [readCounted, takeWord_of_length_lt (hshort (length_littleEndian 4 _) hcnt hne)]
    rfl
  rw [readCounted_count h, readBody, decodeCount_of_cut hbody hlost]
  rfl

theorem writeTo_eq {m : Type → Type} [Monad m] [LawfulMonad m] {put : List UInt8 → m Unit}
    (hput : ∀ a b, put (a ++ b) = put a >>= fun _ => put b) (code : List Instr) :
    writeTo put code = put (write code) := by
  rw [write_eq, hput, hput, hput]
  rfl

/-- Bytes are read as code if and only if they are the blob of that code, and a writer is given that
blob. A blob that lost its end ends too early, a longer one has as many bytes too many as were added
to it. -/
theorem read_exactly_written (code : List Instr) (hlength : code.length < 4294967296) :
    (∀ bytes, read bytes = .ok code ↔ bytes = write code) ∧
      (∀ (m : Type → Type) [Monad m] [LawfulMonad m] (put : List UInt8 → m Unit),
        (∀ a b, put (a ++ b) = put a >>= fun _ => put b) → writeTo put code = put (write code)) ∧
      (∀ bytes, bytes <+: write code → bytes ≠ write code → read bytes = .error .endOfCode) ∧
      ∀ extra, extra ≠ [] → read (write code ++ extra) = .error (.trailing extra.length) := by
  refine ⟨?_, ?_, ?_, ?_⟩
  · intro bytes
    constructor
    · exact eq_write_of_read
    · rintro rfl
      simpa using read_write_append hlength []
  · intro m _ _ put hput
    exact writeTo_eq hput code
  · rintro bytes ⟨lost, hcut⟩ hne
    apply read_of_cut hlength hcut
    rintro rfl
    exact hne (by simpa using hcut)
  · intro extra hextra
    rw [read_write_append hlength, if_neg (by simpa using hextra)]

/-- The last operand of the blob is cut, and what is added to it is an instruction. -/
theorem read_exactly_written_pause : [Instr.setVar 1 10, .suspend, .ret 0].length < 4294967296 ∧
      read (write [.setVar 1 10, .suspend, .ret 0]) = .ok [.setVar 1 10, .suspend, .ret 0] ∧
      ((writeTo (fun part => modify (· ++ part)) [.setVar 1 10, .suspend,
        .ret 0] : StateM (List UInt8) Unit).run []).2 =
        write [.setVar 1 10, .suspend, .ret 0] ∧
      read (write [.setVar 1 10, .suspend, .ret 0]).dropLast = .error .endOfCode ∧
      read (write [.setVar 1 10, .suspend, .ret 0] ++ Instr.encode .suspend) =
        .error (.trailing 1) := by
  obtain ⟨hread, hwriter, hcut, hextra⟩ :=
    read_exactly_written [.setVar 1 10, .suspend, .ret 0] (by decide)
  refine ⟨by decide, (hread _).mpr rfl, ?_, hcut _ (List.dropLast_prefix _) (by decide +kernel),
    hextra _ (by decide)⟩
  rw [hwriter (StateM (List UInt8))]
  · rfl
  · intro a b
    funext bytes
    exact congrArg (Prod.mk ()) (List.append_assoc bytes a b).symm

end Blob

end ScriptVm
