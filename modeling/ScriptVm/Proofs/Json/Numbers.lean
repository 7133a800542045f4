import Mathlib.Data.List.Basic
import Mathlib.Data.List.TakeWhile
import ScriptVm.Instr.Json

namespace ScriptVm

namespace Text

theorem digit?_of_isDigit {c : Char} (h : c.isDigit = true) : digit? c = some (c.toNat - 48) := by
  have hrng : '0' ≤ c ∧ c ≤ '9' := by
    simpa [Char.isDigit, Char.le_def] using h
  rw [digit?, if_pos hrng]

end Text

def digitsOf (n : Nat) : List Nat := (Nat.toDigits 10 n).map fun c => c.toNat - 48

theorem foldl_digitsOf (n : Nat) : (digitsOf n).foldl (fun m d => 10 * m + d) 0 = n := by
  rw [digitsOf, List.foldl_map]
  exact (Nat.ofDigitChars_eq_foldl.symm).trans Nat.ofDigitChars_ten_toDigits

theorem head_digitsOf {n : Nat} (h : 0 < n) : (digitsOf n).head? ≠ some 0 := by
  induction n using Nat.strongRecOn with
  | ind n ih =>
    by_cases hlt : n < 10
    · rw [digitsOf, Nat.toDigits_of_lt_base hlt]
      simp only [List.map_cons, List.head?_cons, ne_eq, Option.some.injEq,
        Nat.toNat_digitChar_sub_48_of_lt_ten hlt]
      omega
    · have hfst := ih (n / 10) (by omega) (by omega)
      have hdigits : digitsOf n = digitsOf (n / 10) ++ [n % 10] := by
        rw [digitsOf, Nat.toDigits_of_base_le (by decide) (by omega), List.map_append,
          List.map_singleton,
          Nat.toNat_digitChar_sub_48_of_lt_ten (Nat.mod_lt n (by decide))]
        rfl
      have hsome : digitsOf (n / 10) ≠ [] := by
        rw [digitsOf, ne_eq, List.map_eq_nil_iff]
        exact Nat.toDigits_ne_nil
      rw [hdigits, List.head?_append]
      obtain ⟨d, ds, hds⟩ := List.exists_cons_of_ne_nil hsome
      rw [hds] at hfst ⊢
      exact hfst

namespace Json.Number

theorem digits_toDigits (n : Nat) : digits (Nat.toDigits 10 n) = (digitsOf n, []) := by
  have hdigit (c : Char) (hc : c ∈ Nat.toDigits 10 n) : Text.digit? c = some (c.toNat - 48) :=
    Text.digit?_of_isDigit (Nat.isDigit_of_mem_toDigits (by decide) (by decide) hc)
  have hsome (c : Char) (hc : c ∈ Nat.toDigits 10 n) : (Text.digit? c).isSome = true := by
    rw [hdigit c hc]; rfl
  have htake : (Nat.toDigits 10 n).takeWhile (fun c => (Text.digit? c).isSome) = Nat.toDigits 10 n :=
    List.takeWhile_eq_self_iff.mpr hsome
  have hdrop : (Nat.toDigits 10 n).dropWhile (fun c => (Text.digit? c).isSome) = [] :=
    List.dropWhile_eq_nil_iff.mpr hsome
  rw [digits, htake, hdrop, digitsOf, List.filterMap_congr hdigit, List.filterMap_eq_map']

theorem wholeOk_digitsOf (n : Nat) : wholeOk (digitsOf n) = true := by
  cases n with
  | zero => rfl
  | succ n =>
    have hfst := head_digitsOf (Nat.succ_pos n)
    have hsome : digitsOf (n + 1) ≠ [] := by
      rw [digitsOf, ne_eq, List.map_eq_nil_iff]
      exact Nat.toDigits_ne_nil
    unfold wholeOk
    split
    · contradiction
    · rfl
    · rename_i d _ _ hds
      rw [hds] at hfst
      simpa using hfst

theorem le_foldl_digits (n : Nat) (ds : List Nat) : n ≤ ds.foldl (fun m d => 10 * m + d) n := by
  induction ds generalizing n with
  | nil => exact Nat.le_refl n
  | cons d ds ih =>
    have hstep := ih (10 * n + d)
    rw [List.foldl_cons]
    omega

theorem accumulate_eq {n : Nat} {ds : List Nat}
    (h : ds.foldl (fun m d => 10 * m + d) n < 18446744073709551616) :
    accumulate n ds = (ds.foldl (fun m d => 10 * m + d) n, 0) := by
  induction ds generalizing n with
  | nil => rfl
  | cons d ds ih =>
    rw [List.foldl_cons] at h ⊢
    have hle := le_foldl_digits (10 * n + d) ds
    rw [accumulate, if_pos (by omega), ih h]

/-- The parts of an integer that is written by its digits. -/
def ofDigits (negative : Bool) (n : Nat) : Number :=
  { negative, whole := digitsOf n, fraction := none, exponent := none }

theorem minus_notMem_toDigits (n : Nat) : '-' ∉ Nat.toDigits 10 n := by
  intro hminus
  exact absurd (Nat.isDigit_of_mem_toDigits (by decide) (by decide) hminus) (by decide)

theorem read?_digits (negative : Bool) (n : Nat) :
    read? ((if negative then ['-'] else []) ++ Nat.toDigits 10 n) = some (ofDigits negative n) := by
  unfold read?
  split
  rename_i sign cs hsign
  have hparts : negative = sign ∧ Nat.toDigits 10 n = cs := by
    cases negative with
    | true => exact Prod.mk.inj hsign
    | false =>
      split at hsign
      · rename_i cs' hcs
        have hminus : '-' ∈ Nat.toDigits 10 n := by
          rw [show Nat.toDigits 10 n = '-' :: cs' from hcs]
          exact List.mem_cons_self
        exact absurd hminus (minus_notMem_toDigits n)
      · exact Prod.mk.inj hsign
  obtain ⟨rfl, rfl⟩ := hparts
  rw [digits_toDigits]
  dsimp only
  rw [if_pos (wholeOk_digitsOf n)]
  rfl

theorem accumulate_digitsOf {n : Nat} (h : n < 18446744073709551616) :
    accumulate 0 (digitsOf n) = (n, 0) := by
  rw [accumulate_eq, foldl_digitsOf]
  rwa [foldl_digitsOf]

theorem value_ofDigits {n : Nat} (h : n < 18446744073709551616) :
    (ofDigits false n).value = .natural n := by
  simp [value, ofDigits, accumulate_digitsOf h]

theorem value_ofDigits_negative {n : Nat} (hpos : 0 < n) (h : n ≤ 9223372036854775808) :
    (ofDigits true n).value = .negative (-n) := by
  have hlt : n < 18446744073709551616 := by omega
  simp [value, ofDigits, accumulate_digitsOf hlt, hpos, h]

end Json.Number

namespace Json

theorem numberValue?_repr {n : Nat} (h : n < 18446744073709551616) :
    numberValue? n.repr = some (.natural n) := by
  rw [numberValue?, Nat.toList_repr,
    show Number.read? (Nat.toDigits 10 n) = _ from Number.read?_digits false n, Option.map_some,
    Number.value_ofDigits h]

theorem numberValue?_minus_repr {n : Nat} (hpos : 0 < n) (h : n ≤ 9223372036854775808) :
    numberValue? ("-" ++ n.repr) = some (.negative (-n)) := by
  have htext : ("-" ++ n.repr).toList = ['-'] ++ Nat.toDigits 10 n := by
    rw [String.toList_append, Nat.toList_repr]
    rfl
  rw [numberValue?, htext, show Number.read? (['-'] ++ Nat.toDigits 10 n) =
    _ from Number.read?_digits true n, Option.map_some,
    Number.value_ofDigits_negative hpos h]

theorem natural?_nat {n bound : Nat} (h : n < bound) (hbnd : bound ≤ 18446744073709551616) :
    natural? bound (.nat n) = some n := by
  have hvalue : numberValue? (toString n) = some (.natural n) := numberValue?_repr (by omega)
  rw [nat, natural?, hvalue]
  exact if_pos h

theorem integer?_int {bits : Nat} {v : Int} (hbits : bits ≤ 64)
    (hlow : -(Nat.pow 2 (bits - 1) : Int) ≤ v) (hhigh : v < Nat.pow 2 (bits - 1)) :
    integer? bits (.int v) = some v := by
  have hpow : Nat.pow 2 (bits - 1) ≤ 9223372036854775808 :=
    Nat.pow_le_pow_right (show 0 < 2 by decide) (show bits - 1 ≤ 63 by omega)
  have hrng :
      (decide (-(Nat.pow 2 (bits - 1) : Int) ≤ v) && decide (v < Nat.pow 2 (bits - 1))) = true :=
    Bool.and_eq_true_iff.mpr ⟨decide_eq_true hlow, decide_eq_true hhigh⟩
  rw [int, integer?, Int.toString_eq_repr, Int.repr_eq_if]
  by_cases hsign : 0 ≤ v
  · rw [if_pos hsign, numberValue?_repr (show v.toNat < 18446744073709551616 by omega)]
    simp only [Int.toNat_of_nonneg hsign, Option.filter_some, hrng, if_true]
  · have hback : -((-v).toNat : Int) = v := by omega
    rw [if_neg hsign, numberValue?_minus_repr (show 0 < (-v).toNat by omega) (by omega), hback]
    simp only [Option.filter_some, hrng, if_true]

end Json
end ScriptVm
