import Mathlib.Data.List.Forall2
import Mathlib.Data.List.TakeWhile
import ScriptVm.Json.Reader
import ScriptVm.Json.Writer

namespace ScriptVm.Json

variable {j : Json}

/-- Numbers are written as JSON allows, and every string and every key has characters. -/
inductive Legible : Json → Prop where
  | null : Legible .null
  | bool (b : Bool) : Legible (.bool b)
  | number {lexeme : String} (h : (Number.read? lexeme.toList).isSome = true) :
    Legible (.number lexeme)
  | string (s : String) : Legible (.string (some s))
  | array {items : List Json} (h : ∀ v ∈ items, Legible v) : Legible (.array items)
  | object {fields : List (Option String × Json)} (hkeys : ∀ f ∈ fields, f.1.isSome = true)
      (hvalues : ∀ f ∈ fields, Legible f.2) : Legible (.object fields)

mutual

def lexed : Json → List Token
  | .null => [.null]
  | .bool b => [.bool b]
  | .number lexeme => [.number lexeme]
  | .string s => [.string s]
  | .array items => .openArray :: ([.comma].intercalate (lexedItems items) ++ [.closeArray])
  | .object fields => .openObject :: ([.comma].intercalate (lexedFields fields) ++ [.closeObject])

def lexedItems : List Json → List (List Token)
  | [] => []
  | v :: vs => lexed v :: lexedItems vs

def lexedFields : List (Option String × Json) → List (List Token)
  | [] => []
  | (k, v) :: fs => (.string k :: .colon :: lexed v) :: lexedFields fs

end

namespace Scanner

variable {before : List Token} {rest cs : List Char} {c : Char} {ts : List Token}

/-- The scanner after some more characters, which are the last ones. -/
def run? (s : Scanner) (cs : List Char) : Option Scanner := (cs.foldlM step? s).bind finish?

theorem run?_cons (s : Scanner) (c : Char) (cs : List Char) :
    s.run? (c :: cs) = (s.step? c).bind fun s => s.run? cs := by
  rw [run?, List.foldlM_cons]
  exact Option.bind_assoc ..

theorem run?_of_step {s s' : Scanner} (h : s.step? c = some s') (cs : List Char) :
    s.run? (c :: cs) = s'.run? cs := by
  rw [run?_cons, h, Option.bind_some]

/-- The text is over, or a character follows that is in no word and in no number. -/
def Ends (cs : List Char) : Prop :=
  ∀ c, cs.head? = some c → c.isLower = false ∧ isNumberChar c = false

theorem ends_nil : Ends [] := by
  intro c h
  cases h

theorem ends_cons (hword : c.isLower = false) (hnumber : isNumberChar c = false) (cs : List Char) :
    Ends (c :: cs) := by
  intro d h
  cases h
  exact ⟨hword, hnumber⟩

theorem Ends.append (h : Ends cs) (hrest : Ends rest) : Ends (cs ++ rest) := by
  cases cs with
  | nil => exact hrest
  | cons c cs => exact h

/-- A piece of text stands for some tokens, if a delimiter follows. -/
def Spells (cs : List Char) (ts : List Token) : Prop :=
  ∀ before rest, Ends rest →
    run? ⟨before, .between⟩ (cs ++ rest) = run? ⟨ts.reverse ++ before, .between⟩ rest

theorem spells_nil : Spells [] [] := fun _ _ _ => rfl

theorem Spells.append {cs' : List Char} {ts' : List Token} (h : Spells cs ts) (h' : Spells cs' ts')
    (hends : Ends cs') : Spells (cs ++ cs') (ts ++ ts') := by
  intro before rest hrest
  rw [List.append_assoc, h _ _ (hends.append hrest), h' _ _ hrest, List.reverse_append,
    List.append_assoc]

theorem Spells.mark {t : Token} (hc : ∀ before, start? before c = some ⟨t :: before, .between⟩)
    (h : Spells cs ts) : Spells (c :: cs) (t :: ts) := by
  intro before rest hrest
  have hstep : step? ⟨before, .between⟩ c = some ⟨t :: before, .between⟩ := hc before
  rw [List.cons_append, run?_of_step hstep, h _ _ hrest, List.reverse_cons, List.append_assoc]
  rfl

theorem Spells.space (hc : isSpace c = true) (h : Spells cs ts) : Spells (c :: cs) ts := by
  intro before rest hrest
  have hstep : step? ⟨before, .between⟩ c = some ⟨before, .between⟩ := by
    show start? before c = _
    rw [start?, if_pos hc]
  rw [List.cons_append, run?_of_step hstep, h _ _ hrest]

theorem Spells.newline (depth : Nat) (h : Spells cs ts) :
    Spells ((Json.newline depth).toList ++ cs) ts := by
  have hblanks (n : Nat) : Spells (List.replicate n ' ' ++ cs) ts := by
    induction n with
    | zero => exact h
    | succ n ih => exact ih.space rfl
  have htext :
      (Json.newline depth).toList ++ cs = '\n' :: (List.replicate (2 * depth) ' ' ++ cs) := by
    simp [Json.newline]
  rw [htext]
  exact (hblanks _).space rfl

theorem Spells.intercalate {texts : List (List Char)} {tss : List (List Token)} (depth : Nat)
    (h : List.Forall₂ Spells texts tss) :
    Spells ((',' :: (Json.newline depth).toList).intercalate texts) ([.comma].intercalate tss) := by
  induction h with
  | nil => exact spells_nil
  | @cons text ts texts tss hfst hrest ih =>
    cases hrest with
    | nil => simpa using hfst
    | @cons text' ts' texts' tss' hsnd hoth =>
      have hcomma :
          Spells (',' :: ((Json.newline depth).toList ++
            (',' :: (Json.newline depth).toList).intercalate (text' :: texts')))
          (.comma :: [.comma].intercalate (ts' :: tss')) := (ih.newline depth).mark fun _ => rfl
      rw [List.intercalate_cons_cons, List.intercalate_cons_cons, List.append_assoc,
        List.append_assoc]
      exact hfst.append hcomma (ends_cons rfl rfl _)

/-- A word or a number is over when a delimiter follows. -/
theorem run?_finish {s : Scanner} {t : Token} (hmode : s.mode = .word cs ∨ s.mode = .number cs)
    (hfinish : s.finish? = some ⟨t :: s.tokens, .between⟩) (hrest : Ends rest) :
    s.run? rest = run? ⟨t :: s.tokens, .between⟩ rest := by
  cases rest with
  | nil =>
    show s.finish? = _
    rw [hfinish]
    rfl
  | cons c rest =>
    obtain ⟨hword, hnumber⟩ := hrest c rfl
    have hstep : s.step? c = start? (t :: s.tokens) c := by
      unfold step?
      obtain hmode | hmode := hmode
      · rw [hmode]
        simp [hword, hfinish]
      · rw [hmode]
        simp [hnumber, hfinish]
    rw [run?_cons, run?_cons, hstep]
    rfl

theorem spells_null : Spells "null".toList [.null] := by
  intro before rest hrest
  show run? ⟨before, .word ['l', 'l', 'u', 'n']⟩ rest = _
  exact run?_finish (.inl rfl) rfl hrest

theorem spells_bool (b : Bool) : Spells (if b then "true" else "false").toList [.bool b] := by
  intro before rest hrest
  cases b with
  | true =>
    show run? ⟨before, .word ['e', 'u', 'r', 't']⟩ rest = _
    exact run?_finish (.inl rfl) rfl hrest
  | false =>
    show run? ⟨before, .word ['e', 's', 'l', 'a', 'f']⟩ rest = _
    exact run?_finish (.inl rfl) rfl hrest

theorem run?_number (acc : List Char) (hcs : ∀ c ∈ cs, isNumberChar c = true) :
    run? ⟨before, .number acc⟩ (cs ++ rest) = run? ⟨before, .number (cs.reverse ++ acc)⟩ rest := by
  induction cs generalizing acc with
  | nil => rfl
  | cons c cs ih =>
    have hstep : step? ⟨before, .number acc⟩ c = some ⟨before, .number (c :: acc)⟩ :=
      if_pos (hcs c List.mem_cons_self)
    rw [List.cons_append, run?_of_step hstep, ih _ fun d hd => hcs d (List.mem_cons_of_mem _ hd),
      List.reverse_cons,
      List.append_assoc]
    rfl

end Scanner

namespace Number

open Scanner

variable {cs : List Char}

theorem isNumberChar_of_digit {c : Char} (h : (Text.digit? c).isSome = true) :
    isNumberChar c = true := by
  simp [isNumberChar, h]

theorem forall_of_digits (h : ∀ c ∈ (digits cs).2, isNumberChar c = true) :
    ∀ c ∈ cs, isNumberChar c = true := by
  intro c hc
  rw [← List.takeWhile_append_dropWhile (p := fun c => (Text.digit? c).isSome) (l := cs),
    List.mem_append] at hc
  obtain hdigit | hrest := hc
  · exact isNumberChar_of_digit (List.mem_takeWhile_imp (p := fun c => (Text.digit? c).isSome) hdigit)
  · exact h c hrest

theorem head_of_wholeOk (h : wholeOk (digits cs).1 = true) :
    ∃ c rest, cs = c :: rest ∧ (Text.digit? c).isSome = true := by
  cases cs with
  | nil => cases h
  | cons c rest =>
    refine ⟨c, rest, rfl, ?_⟩
    by_cases hdigit : (Text.digit? c).isSome = true
    · exact hdigit
    · rw [digits, List.takeWhile_cons_of_neg (p := fun c => (Text.digit? c).isSome) hdigit] at h
      cases h

theorem forall_of_readExponent? (h : (readExponent? cs).isSome = true) :
    ∀ c ∈ cs, isNumberChar c = true := by
  unfold readExponent? at h
  split at h
  · exact fun c hc => absurd hc List.not_mem_nil
  · rename_i c cs
    split at h
    · rename_i hletter
      have hfst : isNumberChar c = true := by
        obtain rfl | rfl := hletter
        · rfl
        · rfl
      split at h
      rename_i negative ds hsign
      split at h
      · cases h
      · cases h
      · rename_i hdigits
        have hds : ∀ c ∈ ds, isNumberChar c = true := by
          refine forall_of_digits fun c hc => ?_
          rw [hdigits] at hc
          exact absurd hc List.not_mem_nil
        -- A sign may stand between the letter and the digits.
        have hrest : ∀ c ∈ cs, isNumberChar c = true := by
          split at hsign
          · cases hsign
            exact List.forall_mem_cons.mpr ⟨rfl, hds⟩
          · cases hsign
            exact List.forall_mem_cons.mpr ⟨rfl, hds⟩
          · cases hsign
            exact hds
        exact List.forall_mem_cons.mpr ⟨hfst, hrest⟩
    · cases h

theorem chars_of_read? {lexeme : List Char} (h : (read? lexeme).isSome = true) :
    (∀ c ∈ lexeme, isNumberChar c = true) ∧ ∃ c rest, lexeme = c :: rest ∧
      (c = '-' ∨ (Text.digit? c).isSome = true) := by
  unfold read? at h
  split at h
  rename_i negative cs hsign
  have hcs : wholeOk (digits cs).1 = true ∧ ∀ c ∈ cs, isNumberChar c = true := by
    split at h
    rename_i whole rest hwhole
    split at h
    · rename_i hok
      refine ⟨by rwa [hwhole], forall_of_digits ?_⟩
      rw [hwhole]
      split at h
      · rename_i frac
        split at h
        · cases h
        · rename_i fraction rest' hfraction
          rw [Option.isSome_map] at h
          refine List.forall_mem_cons.mpr ⟨rfl, forall_of_digits ?_⟩
          rw [hfraction]
          exact forall_of_readExponent? h
      · rw [Option.isSome_map] at h
        exact forall_of_readExponent? h
    · cases h
  obtain ⟨c, rest, rfl, hdigit⟩ := head_of_wholeOk hcs.1
  split at hsign
  · cases hsign
    exact ⟨List.forall_mem_cons.mpr ⟨rfl, hcs.2⟩, '-', _, rfl, .inl rfl⟩
  · cases hsign
    exact ⟨hcs.2, c, rest, rfl, .inr hdigit⟩

end Number

namespace Scanner

variable {before : List Token} {rest : List Char} {c : Char} {d : Nat}

theorem start?_number (before : List Token) (h : c = '-' ∨ (Text.digit? c).isSome = true) :
    start? before c = some ⟨before, .number [c]⟩ := by
  obtain rfl | hdigit := h
  · rfl
  · have hrng : 48 ≤ c.toNat ∧ c.toNat ≤ 57 := by
      unfold Text.digit? at hdigit
      split at hdigit
      · assumption
      · cases hdigit
    have hother {d : Char} (hd : d.toNat < 48 ∨ 57 < d.toNat) : (c == d) = false := by
      refine beq_eq_false_iff_ne.mpr fun e => ?_
      subst e
      omega
    have hspace : isSpace c = false := by simp [isSpace, hother]
    have hopen : c.toNat ≠ 123 := by omega
    have hclose : c.toNat ≠ 125 := by omega
    simp [start?, hspace, hopen, hclose, hother, hdigit]

theorem spells_number {lexeme : String} (h : (Number.read? lexeme.toList).isSome = true) :
    Spells lexeme.toList [.number lexeme] := by
  obtain ⟨hchars, c, cs, hcs, hfst⟩ := Number.chars_of_read? h
  intro before rest hrest
  have hstart : step? ⟨before, .between⟩ c = some ⟨before, .number [c]⟩ := start?_number before hfst
  rw [hcs] at hchars
  have hfinish : finish? ⟨before, .number (cs.reverse ++ [c])⟩ =
      some ⟨.number lexeme :: before, .between⟩ := by
    have hback : (cs.reverse ++ [c]).reverse = lexeme.toList := by simp [hcs]
    unfold finish?
    dsimp only
    rw [hback, if_pos h, String.ofList_toList]
  rw [hcs, List.cons_append, run?_of_step hstart,
    run?_number _ fun d hd => hchars d (List.mem_cons_of_mem _ hd)]
  exact run?_finish (.inr rfl) hfinish hrest

theorem joinSurrogates_map (cs : List Char) : joinSurrogates (cs.map Char.toNat) = some cs := by
  induction cs with
  | nil => rfl
  | cons c cs ih =>
    have hvalid : c.toNat < 0xd800 ∨ 0xdfff < c.toNat ∧ c.toNat < 0x110000 := c.valid
    rw [List.map_cons]
    unfold joinSurrogates
    rw [if_neg (by omega), if_neg (by omega), ih, Option.map_some, Char.ofNat_toNat]

theorem hexDigit?_digitChar (h : d < 16) : Text.hexDigit? d.digitChar = some d := by
  revert d
  decide

theorem hexPadded_control {n : Nat} (h : n < 32) :
    (hexPadded 4 n).toList = ['0', '0', (n / 16).digitChar, (n % 16).digitChar] := by
  rw [hexPadded, String.toList_ofList]
  revert n
  decide

theorem run?_hexDigit {left value : Nat} (points : List Nat) (hc : Text.hexDigit? c = some d)
    (hleft : 1 < left) : run? ⟨before, .hex points left value⟩ (c :: rest) =
      run? ⟨before, .hex points (left - 1) (16 * value + d)⟩ rest := by
  have hnot : ¬ left ≤ 1 := by omega
  exact run?_of_step (by simp [step?, hc, hnot]) rest

theorem run?_lastHexDigit {value : Nat} (points : List Nat) (hc : Text.hexDigit? c = some d) :
    run? ⟨before, .hex points 1 value⟩ (c :: rest) =
      run? ⟨before, .string ((16 * value + d) :: points)⟩ rest :=
  run?_of_step (by simp [step?, hc]) rest

theorem run?_control {n : Nat} (points : List Nat) (h : n < 32) :
    run? ⟨before, .string points⟩ ('\\' :: 'u' :: ((hexPadded 4 n).toList ++ rest)) =
      run? ⟨before, .string (n :: points)⟩ rest := by
  have hzero : Text.hexDigit? '0' = some 0 := rfl
  have hhigh := hexDigit?_digitChar (show n / 16 < 16 by omega)
  have hlow := hexDigit?_digitChar (show n % 16 < 16 by omega)
  have hsum : 16 * (16 * (16 * (16 * 0 + 0) + 0) + n / 16) + n % 16 = n := by omega
  have hopen (cs : List Char) :
      run? ⟨before, .string points⟩ ('\\' :: 'u' :: cs) = run? ⟨before, .hex points 4 0⟩ cs := rfl
  rw [hopen, hexPadded_control h, List.cons_append, List.cons_append, List.cons_append,
    List.cons_append, List.nil_append]
  rw [run?_hexDigit points hzero (by decide), run?_hexDigit points hzero (by decide),
    run?_hexDigit points hhigh (by decide),
    run?_lastHexDigit points hlow, hsum]

theorem run?_escapeChar (points : List Nat) (c : Char) :
    run? ⟨before, .string points⟩ ((escapeChar c).toList ++ rest) =
      run? ⟨before, .string (c.toNat :: points)⟩ rest := by
  unfold escapeChar
  iterate 2
    split
    · rename_i h
      rw [beq_iff_eq.mp h]
      rfl
  iterate 5
    split
    · rename_i h
      rw [h]
      rfl
  split
  · rename_i h
    have hmark : "\\u".toList = ['\\', 'u'] := rfl
    rw [String.toList_append, hmark, List.append_assoc, List.cons_append, List.cons_append,
      List.nil_append]
    exact run?_control points h
  · rename_i hquote hbackslash _ _ _ _ _ hctl
    rw [String.toList_singleton]
    exact run?_of_step (by simp [step?, hquote, hbackslash, hctl]) rest

theorem run?_escaped (points : List Nat) (cs : List Char) :
    run? ⟨before, .string points⟩ (cs.flatMap (fun c => (escapeChar c).toList) ++ rest) =
      run? ⟨before, .string ((cs.map Char.toNat).reverse ++ points)⟩ rest := by
  induction cs generalizing points with
  | nil => rfl
  | cons c cs ih =>
    rw [List.flatMap_cons, List.append_assoc, run?_escapeChar, ih, List.map_cons, List.reverse_cons,
      List.append_assoc]
    rfl

theorem spells_quoted (s : String) : Spells (quoted s).toList [.string (some s)] := by
  intro before rest hrest
  have htext : (quoted s).toList ++ rest =
      '"' :: (s.toList.flatMap (fun c => (escapeChar c).toList) ++ '"' :: rest) := by
    simp [quoted, String.toList_join, List.flatMap_map]
  rw [htext, run?_of_step (show step? ⟨before, .between⟩ '"' = some ⟨before, .string []⟩ from rfl),
    run?_escaped, List.append_nil]
  have hclose : step? ⟨before, .string (s.toList.map Char.toNat).reverse⟩ '"' =
      some ⟨.string (some s) :: before, .between⟩ := by
    show some (Scanner.mk
        (.string ((joinSurrogates (s.toList.map Char.toNat).reverse.reverse).map String.ofList) ::
          before) .between) = _
    rw [List.reverse_reverse, joinSurrogates_map, Option.map_some, String.ofList_toList]
  rw [run?_of_step hclose]
  rfl

theorem spells_block {first last : String} {a b : Char} {s t : Token} (hfst : first.toList = [a])
    (hlast : last.toList = [b]) (ha : ∀ before, start? before a = some ⟨s :: before, .between⟩)
    (hb : ∀ before, start? before b = some ⟨t :: before, .between⟩)
    (depth : Nat) {lines : List String} {tss : List (List Token)}
    (h : List.Forall₂ Spells (lines.map String.toList) tss) :
    Spells (block first last depth lines).toList (s :: ([.comma].intercalate tss ++ [t])) := by
  have hclose : Spells [b] [t] := spells_nil.mark hb
  cases lines with
  | nil =>
    cases h
    rw [block, String.toList_append, hfst, hlast]
    exact hclose.mark ha
  | cons line lines =>
    have hcomma : ("," ++ newline (depth + 1)).toList = ',' :: (newline (depth + 1)).toList := by
      rw [String.toList_append]
      rfl
    have hbody := Spells.intercalate (depth + 1) h
    have hend : Ends ((newline depth).toList ++ [b]) := by
      rw [newline, String.toList_append]
      exact ends_cons rfl rfl _
    rw [block]
    · simp only [String.toList_append, String.toList_intercalate, hcomma, hfst, hlast,
        List.append_assoc]
      exact ((hbody.append (hclose.newline depth) hend).newline (depth + 1)).mark ha
    · exact List.cons_ne_nil line lines

theorem spells_stringText {k : Option String} (h : k.isSome = true) :
    Spells (stringText k).toList [.string k] := by
  obtain ⟨s, rfl⟩ := Option.isSome_iff_exists.mp h
  exact spells_quoted s

theorem spells_pretty {j : Json} (h : j.Legible) (depth : Nat) :
    Spells (pretty depth j).toList (lexed j) := by
  induction h generalizing depth with
  | null => exact spells_null
  | bool b => exact spells_bool b
  | number h => exact spells_number h
  | string s => exact spells_quoted s
  | @array items h ih =>
    have hlines : List.Forall₂ Spells ((prettyItems (depth + 1) items).map String.toList)
        (lexedItems items) := by
      clear h
      induction items with
      | nil => exact .nil
      | cons v vs ihs =>
        exact .cons (ih v List.mem_cons_self _) (ihs fun w hw => ih w (List.mem_cons_of_mem _ hw))
    exact spells_block rfl rfl (fun _ => rfl) (fun _ => rfl) depth hlines
  | @object fields hkeys h ih =>
    have hlines : List.Forall₂ Spells ((prettyFields (depth + 1) fields).map String.toList)
        (lexedFields fields) := by
      clear h
      induction fields with
      | nil => exact .nil
      | cons f fs ihs =>
        refine .cons ?_ (ihs (fun g hg => hkeys g (List.mem_cons_of_mem _ hg)) fun g hg =>
          ih g (List.mem_cons_of_mem _ hg))
        have hvalue := ih f List.mem_cons_self (depth + 1)
        have hcolon :
            Spells (": ".toList ++ (pretty (depth + 1) f.2).toList) (.colon :: lexed f.2) :=
          (hvalue.space rfl).mark fun _ => rfl
        have hfield :=
          (spells_stringText (hkeys f List.mem_cons_self)).append hcolon (ends_cons rfl rfl _)
        rw [String.toList_append, String.toList_append, List.append_assoc]
        exact hfield
    exact spells_block rfl rfl (fun _ => rfl) (fun _ => rfl) depth hlines

end Scanner

theorem tokens?_pretty (h : j.Legible) (depth : Nat) :
    tokens? (pretty depth j).toList = some (lexed j) := by
  have hrun := Scanner.spells_pretty h depth [] [] Scanner.ends_nil
  rw [List.append_nil, List.append_nil] at hrun
  show (Scanner.run? ⟨[], .between⟩ (pretty depth j).toList).map (fun s => s.tokens.reverse) = _
  rw [hrun]
  show some (lexed j).reverse.reverse = _
  rw [List.reverse_reverse]

namespace Builder

/-- Tokens that make up a value, wherever one may stand. -/
def Builds (ts : List Token) (v : Json) : Prop :=
  ∀ cs rest e, e = .value ∨ e = .item →
    (ts ++ rest).foldlM step? ⟨cs, e⟩ = rest.foldlM step? (put v cs)

theorem builds_of_value? {t : Token} {v : Json} (hnot : t ≠ .closeArray)
    (h : ∀ cs, value? cs t = some (put v cs)) : Builds [t] v := by
  intro cs rest e he
  have hstep : step? ⟨cs, e⟩ t = some (put v cs) := by
    obtain rfl | rfl := he
    · exact h cs
    · exact (if_neg hnot).trans (h cs)
  rw [List.singleton_append, List.foldlM_cons, hstep]
  rfl

theorem foldlM_of_step {b b' : Builder} {t : Token} (h : step? b t = some b') (ts : List Token) :
    (t :: ts).foldlM step? b = ts.foldlM step? b' := by
  rw [List.foldlM_cons, h]
  rfl

/-- Items with commas between them, each of which leads from a state `s` to a state `t`. The first
one may stand elsewhere. -/
theorem foldlM_intercalate {α : Type} {lex : α → List Token} {s t : List α → Builder}
    {first : Builder} {acc : List α} {a : α} {as : List α}
    (hfst : ∀ rest, (lex a ++ rest).foldlM step? first = rest.foldlM step? (t (a :: acc)))
    (hcomma : ∀ acc, step? (t acc) .comma = some (s acc))
    (hoth : ∀ b ∈ as, ∀ acc rest,
      (lex b ++ rest).foldlM step? (s acc) = rest.foldlM step? (t (b :: acc))) (rest : List Token) :
    ([.comma].intercalate ((a :: as).map lex) ++ rest).foldlM step? first =
      rest.foldlM step? (t ((a :: as).reverse ++ acc)) := by
  induction as generalizing a acc first with
  | nil =>
    rw [List.map_singleton, List.intercalate_singleton]
    exact hfst rest
  | cons b as ih =>
    rw [List.map_cons, List.map_cons, List.intercalate_cons_cons, List.append_assoc,
      List.append_assoc, hfst, List.singleton_append,
      foldlM_of_step (hcomma _), ← List.map_cons, ih (hoth b List.mem_cons_self _) fun c hc =>
        hoth c (List.mem_cons_of_mem _ hc),
      List.reverse_cons (a := a), List.append_assoc]
    rfl

theorem lexedItems_eq (items : List Json) : lexedItems items = items.map lexed := by
  induction items with
  | nil => rfl
  | cons v items ih => rw [lexedItems, ih, List.map_cons]

theorem lexedFields_eq (fields : List (Option String × Json)) :
    lexedFields fields = fields.map fun f => .string f.1 :: .colon :: lexed f.2 := by
  induction fields with
  | nil => rfl
  | cons f fields ih => rw [lexedFields, ih, List.map_cons]

/-- A field of an object that is open. -/
theorem foldlM_field {f : Option String × Json} (hf : Builds (lexed f.2) f.2) (cs : List Container)
    {e : Expect} (he : e = .key ∨ e = .field) (acc : List (Option String × Json))
    (rest : List Token) :
    (.string f.1 :: .colon :: lexed f.2 ++ rest).foldlM step? ⟨.object acc none :: cs, e⟩ =
      rest.foldlM step? ⟨.object (f :: acc) none :: cs, .more⟩ := by
  have hkey :
      step? ⟨.object acc none :: cs, e⟩ (.string f.1) = some ⟨.object acc f.1 :: cs, .colon⟩ := by
    obtain rfl | rfl := he
    · rfl
    · rfl
  rw [List.cons_append, List.cons_append, foldlM_of_step hkey,
    foldlM_of_step (show step? ⟨.object acc f.1 :: cs, .colon⟩ .colon = some ⟨_, .value⟩ from rfl)]
  exact hf _ _ _ (.inl rfl)

theorem builds_lexed {j : Json} (h : j.Legible) : Builds (lexed j) j := by
  induction h with
  | null => exact builds_of_value? (by decide) fun _ => rfl
  | bool b | number h | string s => exact builds_of_value? (by simp) fun _ => rfl
  | @array items h ih =>
    intro cs rest e he
    have hopen : step? ⟨cs, e⟩ .openArray = some ⟨.array [] :: cs, .item⟩ := by
      obtain rfl | rfl := he
      · rfl
      · rfl
    rw [lexed, List.cons_append, foldlM_of_step hopen, List.append_assoc]
    cases items with
    | nil => rfl
    | cons v vs =>
      rw [lexedItems_eq, foldlM_intercalate (t := fun acc => ⟨.array acc :: cs, .more⟩)
        (fun rest => ih v List.mem_cons_self _ rest _ (.inr rfl)) (fun _ => rfl)
        fun w hw acc rest => ih w (List.mem_cons_of_mem _ hw) _ rest _ (.inl rfl), List.append_nil]
      have hclose : step? ⟨.array (v :: vs).reverse :: cs, .more⟩ .closeArray =
          some (put (.array (v :: vs)) cs) := by
        show some (put (.array (v :: vs).reverse.reverse) cs) = _
        rw [List.reverse_reverse]
      exact foldlM_of_step hclose rest
  | @object fields hkeys h ih =>
    intro cs rest e he
    have hopen : step? ⟨cs, e⟩ .openObject = some ⟨.object [] none :: cs, .field⟩ := by
      obtain rfl | rfl := he
      · rfl
      · rfl
    rw [lexed, List.cons_append, foldlM_of_step hopen, List.append_assoc]
    cases fields with
    | nil => rfl
    | cons f fs =>
      rw [lexedFields_eq, foldlM_intercalate (t := fun acc => ⟨.object acc none :: cs, .more⟩)
        (foldlM_field (ih f List.mem_cons_self) cs (.inr rfl) []) (fun _ => rfl)
        fun g hg => foldlM_field (ih g (List.mem_cons_of_mem _ hg)) cs (.inl rfl), List.append_nil]
      have hclose : step? ⟨.object (f :: fs).reverse none :: cs, .more⟩ .closeObject =
          some (put (.object (f :: fs)) cs) := by
        show some (put (.object (f :: fs).reverse.reverse) cs) = _
        rw [List.reverse_reverse]
      exact foldlM_of_step hclose rest

end Builder

theorem ofTokens?_lexed (h : j.Legible) : ofTokens? (lexed j) = some j := by
  have hbuild := Builder.builds_lexed h [] [] .value (.inl rfl)
  rw [List.append_nil] at hbuild
  rw [ofTokens?, hbuild]
  rfl

theorem read?_pretty (h : j.Legible) (depth : Nat) : read? (pretty depth j) = some j := by
  rw [read?, tokens?_pretty h, Option.bind_some, ofTokens?_lexed h]

end ScriptVm.Json
