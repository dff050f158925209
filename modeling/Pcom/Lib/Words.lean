import Pcom.Lib.Scan

/-!
# Texts as lists of words

`words` cuts a text at white space.  What a `scanf` conversion does to a text depends only on its words,
so that a line typed by a user and the same line with another word appended can be compared:

* `words_append_blank` — appending after a blank appends the words;
* `sscanf_words` — a format of `%s` conversions reads the first words;
* `scanInt_of_words` — `%d` reads its number from the first word and goes on inside that word.
-/

namespace Pcom.Lib.Words

open Pcom.Lib.Scan

/-- The maximal runs of non-space bytes of a text. -/
def words (s : Bytes) : List Bytes := (s.splitOnP isSpace).filter fun w => !w.isEmpty

/-! ### Words and scanning -/

@[simp] theorem words_nil : words [] = [] := rfl

theorem words_space {c : UInt8} (hc : isSpace c = true) (s : Bytes) : words (c :: s) = words s := by
  rw [words, List.splitOnP_cons_eq_if_modifyHead, if_pos hc]
  rfl

theorem words_skipSpace (s : Bytes) : words (skipSpace s) = words s := by
  induction s with
  | nil => rfl
  | cons c s ih =>
    by_cases hc : isSpace c = true
    · rw [words_space hc, ← ih, skipSpace, List.dropWhile_cons_of_pos hc]
      rfl
    · rw [skipSpace, List.dropWhile_cons_of_neg hc]

/-- A word in front of a text that does not prolong it is the first word. -/
theorem words_append {w rest : Bytes} (hne : w ≠ []) (hw : ∀ c ∈ w, isSpace c = false)
    (hr : StopsAt isWordByte rest) : words (w ++ rest) = w :: words rest := by
  have hkeep : ∀ ws, List.filter (fun w => !w.isEmpty) (w :: ws) = w :: ws.filter fun w => !w.isEmpty :=
    fun ws => List.filter_cons_of_pos (by simpa using hne)
  cases rest with
  | nil =>
    rw [List.append_nil, words, List.splitOnP_eq_singleton hw, hkeep]
    rfl
  | cons c rest =>
    have hc : isSpace c = true := by simpa [StopsAt, isWordByte] using hr
    rw [words_space hc, words, List.splitOnP_append_cons_of_forall_mem hw c hc, hkeep]
    rfl

/-- Appending after white space appends the words. -/
theorem words_append_space {c : UInt8} (hc : isSpace c = true) (a b : Bytes) :
    words (a ++ c :: b) = words a ++ words b := by
  rw [words, List.splitOnP_append_cons a b hc, List.filter_append]
  rfl

/-- **Appending after a blank** appends the words. -/
theorem words_append_blank (a b : Bytes) : words (a ++ 32 :: b) = words a ++ words b :=
  words_append_space (by decide) a b

/-- A clean text is one word. -/
theorem words_single {w : Bytes} (hne : w ≠ []) (hw : ∀ c ∈ w, isSpace c = false) : words w = [w] := by
  have h := @words_append _ [] hne hw trivial
  rwa [List.append_nil] at h

theorem words_token {n : ℕ} (t : Token n) : words t.bytes = [t.bytes] :=
  words_single t.ne_nil fun c hc => (t.clean c hc).1

theorem stopsAt_dropWhile (p : UInt8 → Bool) (s : Bytes) : StopsAt p (s.dropWhile p) := by
  induction s with
  | nil => trivial
  | cons c s ih =>
    cases hc : p c with
    | true => rwa [List.dropWhile_cons_of_pos hc]
    | false => rwa [List.dropWhile_cons_of_neg (by simp [hc])]

theorem skipSpace_skipSpace (s : Bytes) : skipSpace (skipSpace s) = skipSpace s :=
  skipSpace_of_stop (stopsAt_dropWhile isSpace s)

theorem scanWord_eq (s : Bytes) : scanWord s = if skipSpace s = [] then none
    else some ((skipSpace s).takeWhile isWordByte, (skipSpace s).dropWhile isWordByte) := rfl

/-- What `%s` reads: a clean non-empty word, and the words after it. -/
theorem scanWord_some {s w rest : Bytes} (h : scanWord s = some (w, rest)) :
    skipSpace s = w ++ rest ∧ w ≠ [] ∧ (∀ c ∈ w, isSpace c = false) ∧ StopsAt isWordByte rest := by
  rw [scanWord_eq] at h
  split at h
  · cases h
  · rename_i hne
    obtain ⟨rfl, rfl⟩ := Prod.mk.inj (Option.some.inj h)
    refine ⟨List.takeWhile_append_dropWhile.symm, ?_, fun c hc => ?_, stopsAt_dropWhile isWordByte _⟩
    · intro hnil
      have hhead : StopsAt isSpace (skipSpace s) := stopsAt_dropWhile isSpace s
      cases hs : skipSpace s with
      | nil => exact hne hs
      | cons c r =>
        rw [hs] at hhead
        have hsp : isSpace c = false := hhead
        have hc : isWordByte c = true := by rw [isWordByte, hsp]; rfl
        rw [hs, List.takeWhile_cons_of_pos hc] at hnil
        cases hnil
    · simpa [isWordByte] using List.mem_takeWhile_imp hc

theorem words_of_scanWord {s : Bytes} :
    words s = ((scanWord s).map fun r => r.1 :: words r.2).getD [] := by
  cases hs : scanWord s with
  | none =>
    rw [scanWord_eq] at hs
    split at hs
    · rename_i hnil
      rw [← words_skipSpace, hnil]
      rfl
    · cases hs
  | some r =>
    obtain ⟨w, rest⟩ := r
    obtain ⟨hskip, hne, hw, hr⟩ := scanWord_some hs
    rw [← words_skipSpace, hskip, words_append hne hw hr]
    rfl

/-- A text with a first word, cut behind it. -/
theorem words_cons {s w : Bytes} {ws : List Bytes} (h : words s = w :: ws) :
    ∃ rest, scanWord s = some (w, rest) ∧ words rest = ws := by
  rw [words_of_scanWord] at h
  cases hs : scanWord s with
  | none => simp [hs] at h
  | some r =>
    simp only [hs, Option.map_some, Option.getD_some, List.cons.injEq] at h
    exact ⟨r.2, by rw [← h.1], h.2⟩

theorem scanWord_none {s : Bytes} (h : words s = []) : scanWord s = none := by
  rw [words_of_scanWord] at h
  cases hs : scanWord s with
  | none => rfl
  | some r => simp [hs] at h

/-! ### Conversions -/

/-- **A format of `%s` conversions** reads the first words, each of which must fit its array. -/
theorem sscanf_words (cap k : ℕ) (s : Bytes) :
    sscanf (List.replicate k (.word cap)) s =
      if ∀ w ∈ (words s).take k, w.length < cap then some (((words s).take k).map .word) else none := by
  induction k generalizing s with
  | zero => simp [sscanf]
  | succ k ih =>
    rw [List.replicate_succ]
    cases hw : words s with
    | nil => simp [sscanf, scanWord_none hw]
    | cons w ws =>
      obtain ⟨rest, hs, hrest⟩ := words_cons hw
      simp only [sscanf, hs, ih, hrest, List.take_succ_cons, List.forall_mem_cons, List.map_cons]
      by_cases hfit : w.length < cap <;> by_cases hall : ∀ w ∈ ws.take k, w.length < cap <;>
        simp [hfit, hall]

/-- What a `char` array holds after a format of `%s` conversions. -/
theorem wordArg_words (ws : List Bytes) (i : ℕ) (old : Bytes) :
    wordArg (ws.map .word) i old = ws.getD i old := by
  rw [wordArg, List.getElem?_map, List.getD_eq_getElem?_getD]
  cases ws[i]? <;> rfl

/-- No digit is white space, so digits stop where the word does. -/
theorem stopsAt_digit {rest : Bytes} (hr : StopsAt isWordByte rest) : StopsAt isDigit rest := by
  cases rest with
  | nil => trivial
  | cons c rest =>
    have hc : isSpace c = true := by simpa [StopsAt, isWordByte] using hr
    show isDigit c = false
    cases hd : isDigit c with
    | false => rfl
    | true => rw [(isDigit_facts hd).1] at hc; cases hc

/-- The digits in front of a text that does not start with one. -/
theorem digits_append (w : Bytes) {rest : Bytes} (hr : StopsAt isDigit rest) :
    (w ++ rest).takeWhile isDigit = w.takeWhile isDigit ∧
      (w ++ rest).dropWhile isDigit = w.dropWhile isDigit ++ rest := by
  induction w with
  | nil =>
    exact ⟨takeWhile_append_stop (p := isDigit) (w := []) (by simp) hr,
      dropWhile_append_stop (p := isDigit) (w := []) (by simp) hr⟩
  | cons c w ih =>
    by_cases hc : isDigit c = true <;> simp [hc, ih]

theorem scanSign_append {w rest : Bytes} (hne : w ≠ []) :
    scanSign (w ++ rest) = ((scanSign w).1, (scanSign w).2 ++ rest) := by
  cases w with
  | nil => exact absurd rfl hne
  | cons c w =>
    by_cases hminus : c = 45
    · subst hminus; rfl
    · by_cases hplus : c = 43
      · subst hplus; rfl
      · rw [List.cons_append, scanSign_of_ne hminus hplus, scanSign_of_ne hminus hplus]
        rfl

/-- The number in front of the end of a word is read from that word alone. -/
theorem scanInt_append {w rest : Bytes} (hne : w ≠ []) (hw : ∀ c ∈ w, isSpace c = false)
    (hr : StopsAt isWordByte rest) :
    scanInt (w ++ rest) = (scanInt w).map fun r => (r.1, r.2 ++ rest) := by
  have hstop : StopsAt isSpace w ∧ StopsAt isSpace (w ++ rest) := by
    cases w with
    | nil => exact absurd rfl hne
    | cons c w => exact ⟨hw c List.mem_cons_self, hw c List.mem_cons_self⟩
  obtain ⟨htake, hdrop⟩ := digits_append (scanSign w).2 (stopsAt_digit hr)
  simp only [scanInt, skipSpace_of_stop hstop.1, skipSpace_of_stop hstop.2, scanSign_append hne,
    htake, hdrop]
  split <;> rfl

theorem scanInt_skipSpace (s : Bytes) : scanInt (skipSpace s) = scanInt s := by
  simp only [scanInt, skipSpace_skipSpace]

/-- The rest of a word behind a number is a suffix of the word. -/
theorem scanInt_suffix {s r : Bytes} {n : ℤ} (h : scanInt s = some (n, r)) : r <:+ s := by
  have hsign : ∀ t : Bytes, (scanSign t).2 <:+ t := by
    intro t
    unfold scanSign
    split
    · exact List.suffix_cons ..
    · exact List.suffix_cons ..
    · exact List.suffix_rfl
  simp only [scanInt] at h
  split at h
  · cases h
  · obtain ⟨-, rfl⟩ := Prod.mk.inj (Option.some.inj h)
    exact (List.dropWhile_suffix _).trans ((hsign _).trans (List.dropWhile_suffix _))

/-- **`%d` on a text** reads the number at the start of the first word; the conversions after it start
in what is left of that word. -/
theorem scanInt_of_words {s w : Bytes} {ws : List Bytes} (h : words s = w :: ws) :
    (scanInt w = none ∧ scanInt s = none) ∨
    ∃ n r rest, scanInt w = some (n, r) ∧ scanInt s = some (n, rest) ∧
      words rest = if r = [] then ws else r :: ws := by
  obtain ⟨rest, hs, hrest⟩ := words_cons h
  obtain ⟨hskip, hne, hw, hr⟩ := scanWord_some hs
  have hscan : scanInt s = (scanInt w).map fun r => (r.1, r.2 ++ rest) := by
    rw [← scanInt_skipSpace, hskip, scanInt_append hne hw hr]
  cases hn : scanInt w with
  | none => exact Or.inl ⟨rfl, by rw [hscan, hn]; rfl⟩
  | some p =>
    obtain ⟨n, r⟩ := p
    refine Or.inr ⟨n, r, r ++ rest, rfl, by rw [hscan, hn]; rfl, ?_⟩
    split
    · rename_i hnil
      rw [hnil, List.nil_append, hrest]
    · rename_i hne'
      rw [words_append hne' (fun c hc => hw c ((scanInt_suffix hn).subset hc)) hr, hrest]

theorem scanInt_none {s : Bytes} (h : words s = []) : scanInt s = none := by
  have hs := scanWord_none h
  rw [scanWord_eq] at hs
  split at hs
  · rename_i hnil
    rw [← scanInt_skipSpace, hnil]
    rfl
  · cases hs

/-- `atoi`: the number at the start of a text, `0` when there is none. -/
def atoi (s : Bytes) : ℤ := ((scanInt s).map Prod.fst).getD 0

theorem fitsInt_scanInt {s r : Bytes} {n : ℤ} (h : scanInt s = some (n, r)) : FitsInt n := by
  simp only [scanInt] at h
  split at h
  · cases h
  · obtain ⟨rfl, -⟩ := Prod.mk.inj (Option.some.inj h)
    exact fitsInt_toInt _

theorem fitsInt_atoi (s : Bytes) : FitsInt (atoi s) := by
  cases hs : scanInt s with
  | none => rw [atoi, hs]; exact ⟨by decide, by decide⟩
  | some r => rw [atoi, hs]; exact fitsInt_scanInt hs

/-- A text that goes on behind the number at its start may be made longer. -/
theorem atoi_append {w : Bytes} (h : (scanSign (skipSpace w)).2.dropWhile isDigit ≠ []) (t : Bytes) :
    (scanSign (skipSpace (w ++ t))).2.dropWhile isDigit ≠ [] ∧ atoi (w ++ t) = atoi w := by
  have hword : skipSpace w ≠ [] := by
    rintro hnil
    rw [hnil] at h
    exact h rfl
  have hskip : skipSpace (w ++ t) = skipSpace w ++ t := by
    rw [skipSpace, skipSpace, List.dropWhile_append, if_neg (by simpa [skipSpace] using hword)]
  have hdrop : ((scanSign (skipSpace w)).2 ++ t).dropWhile isDigit =
      (scanSign (skipSpace w)).2.dropWhile isDigit ++ t := by
    rw [List.dropWhile_append, if_neg (by simpa using h)]
  have htake : ((scanSign (skipSpace w)).2 ++ t).takeWhile isDigit = (scanSign (skipSpace w)).2.takeWhile isDigit := by
    have hlen := congrArg List.length (List.takeWhile_append_dropWhile (p := isDigit) (l := (scanSign (skipSpace w)).2))
    rw [List.length_append] at hlen
    have hpos := List.length_pos_iff.mpr h
    rw [List.takeWhile_append, if_neg (by omega)]
  rw [hskip, scanSign_append hword]
  refine ⟨?_, ?_⟩
  · rw [hdrop]
    exact List.append_ne_nil_of_left_ne_nil h t
  · simp only [atoi, scanInt, hskip, scanSign_append hword, htake]
    split <;> rfl

theorem length_scanSign_le (s : Bytes) : (scanSign (skipSpace s)).2.length ≤ s.length :=
  (scanSign_suffix _).length_le.trans (List.dropWhile_suffix _).length_le

theorem length_printInt_of_lt {n : ℤ} {k : ℕ} (hk : 0 < k) (hn : n.natAbs < 10 ^ k) :
    (printInt n).length ≤ k + 1 := by
  have hdec := length_decimal_le hk hn
  unfold printInt
  split
  · rw [List.length_cons]
    omega
  · omega

/-- A number of `k` digits, stored in an `int`, is printed with a sign and `k` digits at most. -/
theorem length_printInt_toInt {n : ℤ} {k : ℕ} (hk : 0 < k) (hn : n.natAbs < 10 ^ k) :
    (printInt (toInt (clampLong n))).length ≤ k + 1 := by
  by_cases hsmall : n.natAbs < 2 ^ 31
  · rw [clampLong, toInt_eq_self (by omega) (by omega)]
    exact length_printInt_of_lt hk (by omega)
  · -- a number that does not fit an `int` has ten digits
    have hten : 10 ≤ k := by
      by_contra hshort
      have hpow : 10 ^ k ≤ 10 ^ 9 := Nat.pow_le_pow_right (by decide) (by omega)
      omega
    have hint := fitsInt_toInt (clampLong n)
    have hprint := length_printInt_le hint.1 hint.2
    omega

/-- **A number is printed with one character more than it was typed with**, at most. -/
theorem length_printInt_atoi (s : Bytes) : (printInt (atoi s)).length ≤ s.length + 1 := by
  have hrest := length_scanSign_le s
  simp only [atoi, scanInt]
  generalize scanSign (skipSpace s) = signed at hrest
  have hdigits : (signed.2.takeWhile isDigit).length ≤ signed.2.length := (List.takeWhile_prefix _).length_le
  have hvalue : digitsValue (signed.2.takeWhile isDigit) < 10 ^ (signed.2.takeWhile isDigit).length :=
    digitsValue_lt fun d hd => List.mem_takeWhile_imp hd
  by_cases hds : signed.2.takeWhile isDigit = []
  · rw [if_pos hds]
    exact Nat.le_add_left _ _
  · have hlen : 0 < (signed.2.takeWhile isDigit).length := List.length_pos_iff.mpr hds
    rw [if_neg hds, Option.map_some, Option.getD_some]
    refine (length_printInt_toInt hlen ?_).trans (by omega)
    split
    · rwa [Int.natAbs_neg, Int.natAbs_natCast]
    · rwa [Int.natAbs_natCast]

end Pcom.Lib.Words
