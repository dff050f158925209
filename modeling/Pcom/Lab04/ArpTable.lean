import Pcom.Lab04.Forwarding
import Pcom.Tema1.ReadTable

/-!
# Reading the ARP table

`parse_arp_table` reads `arp_table.txt` with `fgets`, takes two words from each line and stores an entry: the first
word is an address for `inet_addr`, the second one a hardware address for `hwaddr_aton`, which ends the program when
it refuses the word.  The two arrays are declared inside the loop and `sscanf` is not checked; the index is not
compared with the size of the table.

* `hwaddrAton_eq_some_iff` — **what `hwaddr_aton` accepts**: six pairs of hexadecimal digits with colons between them,
  and whatever follows the last of them;
* `parseArpTable_print` — **the table is read back** from its text exactly when it fits the memory of 100 entries.
-/

namespace Pcom.Lab04.ArpTable

open Pcom.Lab04.Forwarding Pcom.Lib.Lines Pcom.Lib.Memory Pcom.Lib.Scan Pcom.Lib.Words
open Pcom.Lib.Ipv4 (swapBytes swapBytes_append toNat_append_eq)
open Pcom.Tema1.ReadTable (IsField digit_le)
open Pcom.Tema1.Router (ArpEntry)
open Pcom.Tema1.Skel (Mac inetNtoa toNat_byteOf)

/-! ### `hwaddr_aton` -/

/-- `hex2num`; `none` for `-1`. -/
def hex2num (c : UInt8) : Option ℕ :=
  if 48 ≤ c ∧ c ≤ 57 then some (c.toNat - 48)
  else if 97 ≤ c ∧ c ≤ 102 then some (c.toNat - 97 + 10)
  else if 65 ≤ c ∧ c ≤ 70 then some (c.toNat - 65 + 10)
  else none

/-- `hex2byte`: the byte of the first two characters of a string, which end with the terminator. -/
def hex2byte (hex : Bytes) : Option UInt8 := do
  let a ← hex2num (hex.headD 0)
  let b ← hex2num (hex.tail.headD 0)
  some (a <<< 4 ||| b).toUInt8

/-- The loop of `hwaddr_aton`, with the rounds left to do. -/
def hwaddrLoop : ℕ → Bytes → Option Bytes
  | 0, _ => some []
  | rounds + 1, txt => do
    let byte ← hex2byte txt
    if rounds = 0 then some [byte]
    else if (txt.drop 2).headD 0 ≠ 58 then none
    else (hwaddrLoop rounds (txt.drop 3)).map (byte :: ·)

/-- `hwaddr_aton`; `none` for `-1`. -/
def hwaddrAton (txt : Bytes) : Option Bytes := hwaddrLoop 6 txt

/-- A hexadecimal digit, of either case: its value is its place among the sixteen. -/
def Digit (c : UInt8) (value : ℕ) : Prop :=
  (ascii "0123456789abcdef")[value]? = some c ∨ (ascii "0123456789ABCDEF")[value]? = some c

instance (c : UInt8) (value : ℕ) : Decidable (Digit c value) := inferInstanceAs (Decidable (_ ∨ _))

/-- Two hexadecimal digits, and the byte they stand for. -/
def Pair (text : Bytes) (byte : UInt8) : Prop :=
  ∃ c d a b, text = [c, d] ∧ Digit c a ∧ Digit d b ∧ byte.toNat = 16 * a + b

theorem Digit.lt {c : UInt8} {value : ℕ} (h : Digit c value) : value < 16 := by
  obtain h | h := h <;> exact (List.getElem?_eq_some_iff.mp h).1

theorem hex2num_digits : ∀ value < 16, ∀ c ∈ (ascii "0123456789abcdef")[value]?.toList ++
    (ascii "0123456789ABCDEF")[value]?.toList, hex2num c = some value := by decide

/-- The three ranges, from their first characters on. -/
theorem hex2num_ranges {c : UInt8} {value : ℕ} (h : hex2num c = some value) :
    value < 10 ∧ c = (48 + value).toUInt8 ∨
      10 ≤ value ∧ value < 16 ∧ (c = (87 + value).toUInt8 ∨ c = (55 + value).toUInt8) := by
  have hback : ∀ {n : ℕ}, n = c.toNat → c = n.toUInt8 := fun hn => hn ▸ UInt8.ofNat_toNat.symm
  rw [hex2num] at h
  split_ifs at h with hdec hlow hup
  · obtain rfl := Option.some.inj h
    have hlo : 48 ≤ c.toNat := hdec.1
    have hhi : c.toNat ≤ 57 := hdec.2
    exact .inl ⟨by omega, hback (by omega)⟩
  · obtain rfl := Option.some.inj h
    have hlo : 97 ≤ c.toNat := hlow.1
    have hhi : c.toNat ≤ 102 := hlow.2
    exact .inr ⟨by omega, by omega, .inl (hback (by omega))⟩
  · obtain rfl := Option.some.inj h
    have hlo : 65 ≤ c.toNat := hup.1
    have hhi : c.toNat ≤ 70 := hup.2
    exact .inr ⟨by omega, by omega, .inr (hback (by omega))⟩

theorem digit_decimal : ∀ value < 10, Digit (48 + value).toUInt8 value := by decide

theorem digit_letter : ∀ value < 16, 10 ≤ value →
    Digit (87 + value).toUInt8 value ∧ Digit (55 + value).toUInt8 value := by decide

/-- `hex2num` reads the digits of either case, and nothing else. -/
theorem hex2num_eq_some_iff (c : UInt8) (value : ℕ) : hex2num c = some value ↔ Digit c value := by
  constructor
  · intro h
    obtain ⟨hten, rfl⟩ | ⟨hten, hlt, rfl | rfl⟩ := hex2num_ranges h
    · exact digit_decimal value hten
    · exact (digit_letter value hlt hten).1
    · exact (digit_letter value hlt hten).2
  · intro h
    refine hex2num_digits value h.lt c (List.mem_append.mpr ?_)
    exact h.imp Option.mem_toList.mpr Option.mem_toList.mpr

/-- Shifting by four bits is multiplying by sixteen. -/
theorem nibbles_toNat {a b : ℕ} (ha : a < 16) (hb : b < 16) : ((a <<< 4 ||| b).toUInt8).toNat = 16 * a + b := by
  have hsum : a <<< 4 ||| b = 16 * a + b := by
    rw [Nat.shiftLeft_eq, Nat.mul_comm, ← Nat.two_pow_add_eq_or_of_lt hb]
  rw [hsum]
  exact Nat.mod_eq_of_lt (by omega)

/-- `hex2byte` reads a pair of digits. -/
theorem hex2byte_pair {pair : Bytes} {byte : UInt8} (h : Pair pair byte) (rest : Bytes) :
    hex2byte (pair ++ rest) = some byte := by
  obtain ⟨c, d, a, b, rfl, ha, hb, hbyte⟩ := h
  show (hex2num c).bind (fun a => (hex2num d).bind fun b => some (a <<< 4 ||| b).toUInt8) = some byte
  rw [(hex2num_eq_some_iff c a).mpr ha, (hex2num_eq_some_iff d b).mpr hb, Option.bind_some, Option.bind_some,
    Option.some.injEq]
  apply UInt8.toNat_inj.mp
  rw [nibbles_toNat ha.lt hb.lt, hbyte]

theorem hex2num_zero : hex2num 0 = none := by decide

/-- The loop reads the first two characters, which are there. -/
theorem hex2byte_eq_some {txt : Bytes} {byte : UInt8} (h : hex2byte txt = some byte) :
    ∃ pair rest, txt = pair ++ rest ∧ Pair pair byte := by
  obtain ⟨a, ha, hsecond⟩ := Option.bind_eq_some_iff.mp h
  obtain ⟨b, hb, hbyte⟩ := Option.bind_eq_some_iff.mp hsecond
  match txt with
  | [] => cases hex2num_zero.symm.trans ha
  | [_] => cases hex2num_zero.symm.trans hb
  | c :: d :: rest =>
    have hdigitA := (hex2num_eq_some_iff c a).mp ha
    have hdigitB := (hex2num_eq_some_iff d b).mp hb
    refine ⟨[c, d], rest, rfl, c, d, a, b, rfl, hdigitA, hdigitB, ?_⟩
    rw [← Option.some.inj hbyte, nibbles_toNat hdigitA.lt hdigitB.lt]

/-- Pairs with colons between them. -/
def colons (pairs : List Bytes) : Bytes := [58].intercalate pairs

theorem colons_single (pair : Bytes) : colons [pair] = pair := by simp [colons, List.intercalate]

theorem colons_cons {pairs : List Bytes} (hne : pairs ≠ []) (pair : Bytes) :
    colons (pair :: pairs) = pair ++ 58 :: colons pairs := by
  obtain ⟨next, more, rfl⟩ := List.exists_cons_of_ne_nil hne
  rfl

/-- The last round reads a pair. -/
theorem hwaddrLoop_one {pair : Bytes} {byte : UInt8} (hpair : Pair pair byte) (rest : Bytes) :
    hwaddrLoop 1 (pair ++ rest) = some [byte] := by
  rw [hwaddrLoop, hex2byte_pair hpair]
  rfl

/-- The others read a pair and a colon. -/
theorem hwaddrLoop_more {pair : Bytes} {byte : UInt8} (hpair : Pair pair byte) (rounds : ℕ) (rest : Bytes) :
    hwaddrLoop (rounds + 2) (pair ++ rest) =
      if rest.headD 0 ≠ 58 then none else (hwaddrLoop (rounds + 1) rest.tail).map (byte :: ·) := by
  rw [hwaddrLoop, hex2byte_pair hpair]
  obtain ⟨c, d, _, _, rfl, -⟩ := hpair
  cases rest <;> rfl

/-- **The rounds of the loop**, one pair each. -/
theorem hwaddrLoop_eq_some_iff (rounds : ℕ) (txt mac : Bytes) : hwaddrLoop (rounds + 1) txt = some mac ↔
    ∃ pairs rest, txt = colons pairs ++ rest ∧ pairs.length = rounds + 1 ∧ List.Forall₂ Pair pairs mac := by
  have hfirst : ∀ {n txt mac}, hwaddrLoop (n + 1) txt = some mac →
      ∃ pair byte rest, txt = pair ++ rest ∧ Pair pair byte := by
    intro n txt mac h
    rw [hwaddrLoop] at h
    cases hbyte : hex2byte txt with
    | none => simp [hbyte] at h
    | some byte =>
      obtain ⟨pair, rest, htxt, hpair⟩ := hex2byte_eq_some hbyte
      exact ⟨pair, byte, rest, htxt, hpair⟩
  induction rounds generalizing txt mac with
  | zero =>
    constructor
    · intro h
      obtain ⟨pair, byte, rest, rfl, hpair⟩ := hfirst h
      rw [hwaddrLoop_one hpair, Option.some.injEq] at h
      subst h
      exact ⟨[pair], rest, by rw [colons_single], rfl, .cons hpair .nil⟩
    · rintro ⟨pairs, rest, rfl, hlen, hpairs⟩
      obtain ⟨pair, rfl⟩ := List.length_eq_one_iff.mp hlen
      cases hpairs with
      | cons hpair hnil =>
        cases hnil
        rw [colons_single]
        exact hwaddrLoop_one hpair rest
  | succ rounds ih =>
    constructor
    · intro h
      obtain ⟨pair, byte, rest, rfl, hpair⟩ := hfirst h
      rw [hwaddrLoop_more hpair] at h
      split at h
      · cases h
      · rename_i hcolon
        obtain ⟨mac', hmore, rfl⟩ := Option.map_eq_some_iff.mp h
        obtain ⟨pairs, rest', hrest, hlen, hpairs⟩ := (ih _ _).mp hmore
        have hne : pairs ≠ [] := fun hnil => by rw [hnil] at hlen; cases hlen
        refine ⟨pair :: pairs, rest', ?_, congrArg (· + 1) hlen, .cons hpair hpairs⟩
        cases rest with
        | nil => exact absurd (by decide : (0 : UInt8) ≠ 58) hcolon
        | cons c rest =>
          have hc : c = 58 := not_not.mp hcolon
          have htail : rest = colons pairs ++ rest' := hrest
          rw [colons_cons hne, hc, htail, List.append_assoc, List.cons_append]
    · rintro ⟨pairs, rest, rfl, hlen, hpairs⟩
      cases hpairs with
      | nil => cases hlen
      | @cons pair byte pairs mac hpair hpairs =>
        have hlen' : pairs.length = rounds + 1 := Nat.succ.inj hlen
        have hne : pairs ≠ [] := fun hnil => by rw [hnil] at hlen'; cases hlen'
        have hmore := (ih _ mac).mpr ⟨pairs, rest, rfl, hlen', hpairs⟩
        rw [colons_cons hne, List.append_assoc, hwaddrLoop_more hpair]
        show (if (58 : UInt8) ≠ 58 then none else (hwaddrLoop (rounds + 1) (colons pairs ++ rest)).map (byte :: ·)) = _
        rw [if_neg (not_not_intro rfl), hmore, Option.map_some]

/-- **What `hwaddr_aton` accepts.** -/
theorem hwaddrAton_eq_some_iff (txt mac : Bytes) : hwaddrAton txt = some mac ↔
    ∃ pairs rest, txt = colons pairs ++ rest ∧ pairs.length = 6 ∧ List.Forall₂ Pair pairs mac :=
  hwaddrLoop_eq_some_iff 5 txt mac

/-! ### Hardware addresses as text -/

/-- A hexadecimal digit, as `%x` prints it. -/
def hexDigit (n : ℕ) : UInt8 := if n < 10 then (48 + n).toUInt8 else (87 + n).toUInt8

/-- `%02x` of a byte. -/
def printPair (byte : UInt8) : Bytes := [hexDigit (byte.toNat / 16), hexDigit (byte.toNat % 16)]

/-- The text of a hardware address. -/
def printMac (mac : Mac) : Bytes := colons (mac.toList.map printPair)

theorem digit_hexDigit : ∀ n < 16, Digit (hexDigit n) n := by decide

theorem pair_printPair (byte : UInt8) : Pair (printPair byte) byte := by
  have hlt := byte.toNat_lt
  exact ⟨_, _, byte.toNat / 16, byte.toNat % 16, rfl, digit_hexDigit _ (by omega), digit_hexDigit _ (by omega),
    (Nat.div_add_mod _ 16).symm⟩

/-- The six bytes that have been stored. -/
def toMac (stored : Bytes) : Mac := Vector.ofFn fun i => stored.getD i 0

theorem toMac_toList (mac : Mac) : toMac mac.toList = mac := by
  ext i hi
  simp [toMac]

/-- **A hardware address is read back** from its text, in front of anything. -/
theorem hwaddrAton_printMac (mac : Mac) (rest : Bytes) : hwaddrAton (printMac mac ++ rest) = some mac.toList := by
  refine (hwaddrLoop_eq_some_iff 5 _ _).mpr ⟨mac.toList.map printPair, rest, rfl, by simp, ?_⟩
  exact List.forall₂_map_left_iff.mpr (List.forall₂_same.mpr fun byte _ => pair_printPair byte)

/-! ### `inet_addr` -/

/-- The longest run of digits of a base, its value and what follows. -/
def numeral (base : ℕ) (s : Bytes) : ℕ × Bytes :=
  let isDigit c := (hex2num c).any (· < base)
  ((s.takeWhile isDigit).foldl (fun acc c => base * acc + (hex2num c).getD 0) 0, s.dropWhile isDigit)

/-- `strtoul` with base 0, on a text that starts with a digit: `0x` in front of a digit stands for base 16, `0` for
base 8. -/
def strtoul : Bytes → ℕ × Bytes
  | 48 :: x :: c :: rest =>
    if (x = 120 ∨ x = 88) ∧ (hex2num c).isSome then numeral 16 (c :: rest) else numeral 8 (48 :: x :: c :: rest)
  | 48 :: rest => numeral 8 (48 :: rest)
  | s => numeral 10 s

/-- The numbers between the dots, of which there are `dots` at most, and what follows them. -/
def inetParts (dots : ℕ) (s : Bytes) : Option (List ℕ × Bytes) :=
  if isDigit (s.headD 0) then
    let (val, rest) := strtoul s
    if val > 0xffffffff then none
    else match dots, rest with
      | 0, 46 :: _ => none
      | dots + 1, 46 :: more => if val > 0xff then none else (inetParts dots more).map fun r => (val :: r.1, r.2)
      | _, _ => some ([val], rest)
  else none

/-- The address of up to four numbers: the first ones are a byte each, the last one fills what is left. -/
def inetWord : List ℕ → Option (BitVec 32)
  | [a] => if a ≤ 0xffffffff then some (swapBytes (BitVec.ofNat 32 a)) else none
  | [a, b] => if b ≤ 0xffffff then some (BitVec.ofNat 32 a ||| swapBytes (BitVec.ofNat 32 b)) else none
  | [a, b, c] =>
    if c ≤ 0xffff then some (BitVec.ofNat 32 (a + 2 ^ 8 * b) ||| swapBytes (BitVec.ofNat 32 c)) else none
  | [a, b, c, d] =>
    if d ≤ 0xff then some (BitVec.ofNat 32 (a + 2 ^ 8 * b + 2 ^ 16 * c) ||| swapBytes (BitVec.ofNat 32 d)) else none
  | _ => none

/-- `inet_addr`: `INADDR_NONE` for a text that is no address. -/
def inetAddr (cp : Bytes) : BitVec 32 :=
  ((inetParts 3 cp).bind fun r => if r.2 = [] ∨ isSpace (r.2.headD 0) then inetWord r.1 else none).getD 0xffffffff

theorem hex2num_digit {c : UInt8} (h : isDigit c = true) : hex2num c = some (c.toNat - 48) := by
  rw [hex2num, if_pos]
  simpa [isDigit] using h

/-- The digits of base 10 are the decimal ones. -/
theorem isDigit_base_ten (c : UInt8) : (hex2num c).any (· < 10) = isDigit c := by
  by_cases hc : isDigit c = true
  · have hrange := isDigit_range hc
    rw [hex2num_digit hc, hc, Option.any_some, decide_eq_true_eq]
    omega
  · have hnot : ¬ (48 ≤ c ∧ c ≤ 57) := by simpa [isDigit] using hc
    rw [Bool.not_eq_true] at hc
    rw [hex2num, if_neg hnot, hc]
    split_ifs with h h
    · rw [Option.any_some, decide_eq_false_iff_not]
      omega
    · rw [Option.any_some, decide_eq_false_iff_not]
      omega
    · rfl

/-- Decimal digits are read in base 10. -/
theorem numeral_decimal (n : ℕ) {rest : Bytes} (hr : StopsAt isDigit rest) :
    numeral 10 (decimal n ++ rest) = (n, rest) := by
  obtain ⟨htake, hdrop⟩ := digits_decimal n hr
  have hvalue : (decimal n).foldl (fun acc c => 10 * acc + (hex2num c).getD 0) 0 = n := by
    conv_rhs => rw [← digitsValue_decimal n, digitsValue]
    refine List.foldl_ext _ _ _ fun acc c hc => ?_
    rw [hex2num_digit (isDigit_of_mem_decimal hc)]
    rfl
  simp only [numeral, isDigit_base_ten, htake, hdrop, hvalue]

/-- Only zero is printed with a zero in front. -/
theorem head_decimal : ∀ n < 256, n ≠ 0 → (decimal n).headD 0 ≠ 48 := by decide +kernel

theorem strtoul_of_ne {c : UInt8} {s : Bytes} (hc : c ≠ 48) : strtoul (c :: s) = numeral 10 (c :: s) := by
  unfold strtoul
  split
  · rename_i heq
    exact absurd (List.cons.inj heq).1 hc
  · rename_i heq
    exact absurd (List.cons.inj heq).1 hc
  · rfl

/-- **A byte is read back** from its decimal digits, in front of a dot or the end. -/
theorem strtoul_decimal (b : UInt8) {rest : Bytes} (hr : rest.headD 0 = 46 ∨ rest = []) :
    strtoul (decimal b.toNat ++ rest) = (b.toNat, rest) := by
  have hstop : StopsAt isDigit rest := by
    cases rest with
    | nil => trivial
    | cons c rest =>
      have hc : c = 46 := hr.resolve_right (List.cons_ne_nil c rest)
      rw [hc]
      exact (show isDigit 46 = false by decide)
  by_cases hzero : b.toNat = 0
  · -- a single zero is read in base 8
    rw [hzero]
    cases rest with
    | nil => decide
    | cons c rest =>
      have hc : c = 46 := hr.resolve_right (List.cons_ne_nil c rest)
      subst hc
      cases rest with
      | nil => decide
      | cons d rest =>
        have hdot : ¬ (((46 : UInt8) = 120 ∨ (46 : UInt8) = 88) ∧ (hex2num d).isSome = true) := by
          rintro ⟨h | h, -⟩ <;> exact absurd h (by decide)
        show (if ((46 : UInt8) = 120 ∨ (46 : UInt8) = 88) ∧ (hex2num d).isSome = true then numeral 16 (d :: rest)
          else numeral 8 (48 :: 46 :: d :: rest)) = _
        rw [if_neg hdot]
        rfl
  · obtain ⟨c, cs, hd, -⟩ := decimal_cons b.toNat
    have hne : c ≠ 48 := by
      have hhead := head_decimal b.toNat b.toNat_lt hzero
      rwa [hd] at hhead
    have hnum := numeral_decimal b.toNat hstop
    rw [hd, List.cons_append] at hnum ⊢
    rw [strtoul_of_ne hne, hnum]

/-- A byte and a dot, in front of more. -/
theorem inetParts_dot (b : UInt8) (dots : ℕ) (more : Bytes) : inetParts (dots + 1) (decimal b.toNat ++ 46 :: more) =
    (inetParts dots more).map fun r => (b.toNat :: r.1, r.2) := by
  have hlt := b.toNat_lt
  obtain ⟨c, cs, hd, hc⟩ := decimal_cons b.toNat
  have hread := strtoul_decimal b (.inl rfl : (46 :: more).headD 0 = 46 ∨ 46 :: more = [])
  have hdigit : isDigit ((decimal b.toNat ++ 46 :: more).headD 0) = true := by
    rw [hd]
    exact hc
  rw [inetParts, if_pos hdigit, hread]
  show (if b.toNat > 0xffffffff then none else if b.toNat > 0xff then none else
    (inetParts dots more).map fun r => (b.toNat :: r.1, r.2)) = _
  rw [if_neg (by omega), if_neg (by omega)]

/-- The last byte. -/
theorem inetParts_last (b : UInt8) (dots : ℕ) : inetParts dots (decimal b.toNat) = some ([b.toNat], []) := by
  have hlt := b.toNat_lt
  obtain ⟨c, cs, hd, hc⟩ := decimal_cons b.toNat
  have hread := strtoul_decimal b (.inr rfl : ([] : Bytes).headD 0 = 46 ∨ ([] : Bytes) = [])
  rw [List.append_nil] at hread
  have hdigit : isDigit ((decimal b.toNat).headD 0) = true := by
    rw [hd]
    exact hc
  rw [inetParts, if_pos hdigit, hread]
  show (if b.toNat > 0xffffffff then none else _) = _
  rw [if_neg (by omega)]
  cases dots <;> rfl

/-- A byte, in network order, is the highest one of the word that is loaded. -/
theorem toNat_swapBytes_byte (b : UInt8) : (swapBytes (BitVec.ofNat 32 b.toNat)).toNat = 2 ^ 24 * b.toNat := by
  have hlt := b.toNat_lt
  have hword : BitVec.ofNat 32 b.toNat = 0#8 ++ 0#8 ++ 0#8 ++ b.toBitVec := by
    apply BitVec.eq_of_toNat_eq
    rw [toNat_append_eq, BitVec.toNat_ofNat]
    show b.toNat % 2 ^ 32 = 0 * 2 ^ 8 + b.toNat
    omega
  rw [hword, swapBytes_append, toNat_append_eq, toNat_append_eq, toNat_append_eq]
  show ((b.toNat * 2 ^ 8 + 0) * 2 ^ 8 + 0) * 2 ^ 8 + 0 = _
  omega

/-- The word of four bytes, the first one lowest. -/
theorem inetWord_quad (ip : BitVec 32) : inetWord [(byteOf ip 0).toNat, (byteOf ip 1).toNat, (byteOf ip 2).toNat,
    (byteOf ip 3).toNat] = some ip := by
  have hd := (byteOf ip 3).toNat_lt
  have hip := ip.isLt
  have h0 := toNat_byteOf ip 0
  have h1 := toNat_byteOf ip 1
  have h2 := toNat_byteOf ip 2
  have h3 := toNat_byteOf ip 3
  rw [inetWord, if_pos (by omega), Option.some.injEq]
  apply BitVec.eq_of_toNat_eq
  rw [BitVec.toNat_or, toNat_swapBytes_byte, BitVec.toNat_ofNat, Nat.or_comm, Nat.mod_eq_of_lt (by omega),
    ← Nat.two_pow_add_eq_or_of_lt (by omega)]
  omega

/-- **An address is read back** from its text. -/
theorem inetAddr_inetNtoa (ip : BitVec 32) : inetAddr (inetNtoa ip) = ip := by
  have htext : inetNtoa ip = decimal (byteOf ip 0).toNat ++ 46 :: (decimal (byteOf ip 1).toNat ++
      46 :: (decimal (byteOf ip 2).toNat ++ 46 :: decimal (byteOf ip 3).toNat)) := by
    simp [inetNtoa, ascii]
  rw [inetAddr, htext, inetParts_dot, inetParts_dot, inetParts_dot, inetParts_last]
  simp only [Option.map_some, Option.bind_some, inetWord_quad, true_or, if_true, Option.getD_some]

/-! ### `parse_arp_table` -/

/-- The end of the program, and what C leaves undefined. -/
inductive Failure
  | invalidMac
  | undefined
  deriving DecidableEq

/-- The memory `main` allocates for the table. -/
def ARP_ENTRIES : ℕ := 100

/-- One round of the loop: undefined where a word overflows its array or an array is used that has not been filled. -/
def parseLine (line : Bytes) : Except Failure ArpEntry :=
  match sscanf [.word 50, .word 50] (cString line) with
  | some [.word ipStr, .word macStr] =>
    match hwaddrAton macStr with
    | none => .error .invalidMac
    | some mac => .ok ⟨inetAddr ipStr, toMac mac⟩
  | _ => .error .undefined

/-- The loop, from the index `i` on; an entry outside the memory of the table is undefined. -/
def parseLoop (i : ℕ) : List Bytes → Except Failure (List ArpEntry)
  | [] => .ok []
  | line :: more =>
    if ARP_ENTRIES ≤ i then .error .undefined
    else do
      let entry ← parseLine line
      let rest ← parseLoop (i + 1) more
      .ok (entry :: rest)

/-- `parse_arp_table` on the contents of the file: the entries, `arp_table_len` of them. -/
def parseArpTable (file : Bytes) : Except Failure (List ArpEntry) :=
  parseLoop 0 (fgetsAll 100 (by decide) file)

/-- The line of an entry. -/
def printEntry (e : ArpEntry) : Bytes := inetNtoa e.ip ++ 32 :: printMac e.mac

/-- The file of a table. -/
def printArpTable (table : List ArpEntry) : Bytes := (table.map fun e => printEntry e ++ [10]).flatten

/-! ### The round trip -/

theorem isField_append {a b : Bytes} (ha : IsField a) (hb : ∀ c ∈ b, 43 ≤ c.toNat) : IsField (a ++ b) :=
  ⟨List.append_ne_nil_of_left_ne_nil ha.ne_nil b, fun c hc => (List.mem_append.mp hc).elim (ha.bytes c) (hb c)⟩

theorem isField_decimal (b : UInt8) : IsField (decimal b.toNat) :=
  ⟨decimal_ne_nil _, fun _ hc => digit_le (isDigit_of_mem_decimal hc)⟩

theorem length_decimal_byte (b : UInt8) : (decimal b.toNat).length ≤ 3 := by
  have hlt := b.toNat_lt
  exact length_decimal_le (by decide) (by omega)

/-- The text of an address is one word, of 15 bytes at most. -/
theorem isField_inetNtoa (ip : BitVec 32) : IsField (inetNtoa ip) ∧ (inetNtoa ip).length ≤ 15 := by
  have hdot : ∀ c ∈ ascii ".", 43 ≤ c.toNat := by decide
  have hbyte (i : ℕ) := (isField_decimal (byteOf ip i)).bytes
  have h0 := length_decimal_byte (byteOf ip 0)
  have h1 := length_decimal_byte (byteOf ip 1)
  have h2 := length_decimal_byte (byteOf ip 2)
  have h3 := length_decimal_byte (byteOf ip 3)
  have hone : (ascii ".").length = 1 := by decide
  refine ⟨?_, ?_⟩
  · rw [inetNtoa]
    exact isField_append (isField_append (isField_append (isField_append (isField_append (isField_append
      (isField_decimal _) hdot) (hbyte 1)) hdot) (hbyte 2)) hdot) (hbyte 3)
  · simp only [inetNtoa, List.length_append, hone]
    omega

theorem hexDigit_ge : ∀ n < 16, 43 ≤ (hexDigit n).toNat := by decide

theorem mem_colons {pairs : List Bytes} {c : UInt8} (h : c ∈ colons pairs) : c = 58 ∨ ∃ pair ∈ pairs, c ∈ pair := by
  induction pairs with
  | nil => cases h
  | cons pair pairs ih =>
    by_cases hnil : pairs = []
    · rw [hnil, colons_single] at h
      exact Or.inr ⟨pair, List.mem_cons_self, h⟩
    · rw [colons_cons hnil, List.mem_append, List.mem_cons] at h
      rcases h with h | rfl | h
      · exact Or.inr ⟨pair, List.mem_cons_self, h⟩
      · exact Or.inl rfl
      · exact (ih h).imp_right fun ⟨p, hp, hc⟩ => ⟨p, List.mem_cons_of_mem _ hp, hc⟩

theorem length_colons {pairs : List Bytes} (hlen : ∀ pair ∈ pairs, pair.length = 2) :
    (colons pairs).length ≤ 3 * pairs.length := by
  induction pairs with
  | nil => exact le_rfl
  | cons pair pairs ih =>
    rw [List.forall_mem_cons] at hlen
    have hmore := ih hlen.2
    by_cases hnil : pairs = []
    · rw [hnil, colons_single, hlen.1]
      exact (by decide : 2 ≤ 3 * 1)
    · rw [colons_cons hnil, List.length_append, List.length_cons, List.length_cons, hlen.1]
      omega

/-- The text of a hardware address is one word, of fewer than 19 bytes. -/
theorem isField_printMac (mac : Mac) : IsField (printMac mac) ∧ (printMac mac).length ≤ 18 := by
  have hlen : (mac.toList.map printPair).length = 6 := by simp
  refine ⟨⟨fun hnil => ?_, fun c hc => ?_⟩, ?_⟩
  · have hread := hwaddrAton_printMac mac []
    rw [hnil] at hread
    cases hread
  · obtain rfl | ⟨pair, hpair, hc⟩ := mem_colons hc
    · decide
    · obtain ⟨byte, -, rfl⟩ := List.mem_map.mp hpair
      have hlt := byte.toNat_lt
      rcases List.mem_cons.mp hc with rfl | hc
      · exact hexDigit_ge _ (by omega)
      · rw [List.mem_singleton.mp hc]
        exact hexDigit_ge _ (by omega)
  · have hle : (printMac mac).length ≤ 3 * (mac.toList.map printPair).length := by
      refine length_colons fun pair hpair => ?_
      obtain ⟨byte, -, rfl⟩ := List.mem_map.mp hpair
      rfl
    rwa [hlen] at hle

theorem words_printEntry (e : ArpEntry) : words (printEntry e) = [inetNtoa e.ip, printMac e.mac] := by
  rw [printEntry, words_append_blank, (isField_inetNtoa e.ip).1.words, (isField_printMac e.mac).1.words]
  rfl

theorem noNul_printEntry (e : ArpEntry) : NoNul (printEntry e) := by
  rw [printEntry, noNul_append, noNul_cons]
  exact ⟨(isField_inetNtoa e.ip).1.noNul, by decide, (isField_printMac e.mac).1.noNul⟩

theorem line_end_not_mem (e : ArpEntry) : 10 ∉ printEntry e := by
  intro h
  rcases List.mem_append.mp h with h | h
  · exact absurd ((isField_inetNtoa e.ip).1.bytes 10 h) (by decide)
  · rcases List.mem_cons.mp h with h | h
    · exact absurd h (by decide)
    · exact absurd ((isField_printMac e.mac).1.bytes 10 h) (by decide)

theorem length_printEntry (e : ArpEntry) : (printEntry e).length + 1 < 100 := by
  have hip := (isField_inetNtoa e.ip).2
  have hmac := (isField_printMac e.mac).2
  rw [printEntry, List.length_append, List.length_cons]
  omega

/-- **A line is read back**, with or without its line end. -/
theorem parseLine_print {e : ArpEntry} {line : Bytes} (h : Whole (printEntry e) line) : parseLine line = .ok e := by
  have hip := (isField_inetNtoa e.ip).2
  have hmac := (isField_printMac e.mac).2
  have hwords : words (cString line) = [inetNtoa e.ip, printMac e.mac] := by
    rcases h with rfl | rfl
    · rw [cString_eq_self (noNul_printEntry e), words_printEntry]
    · rw [cString_eq_self (noNul_append.mpr ⟨noNul_printEntry e, by decide⟩), words_append_space (by decide),
        words_printEntry]
      rfl
  have hscan : sscanf [.word 50, .word 50] (cString line) = some [.word (inetNtoa e.ip), .word (printMac e.mac)] := by
    have hfit : ∀ w ∈ (words (cString line)).take 2, w.length < 50 := by
      rw [hwords]
      intro w hw
      rcases List.mem_cons.mp hw with rfl | hw
      · omega
      · rw [List.mem_singleton.mp hw]
        omega
    have hread := sscanf_words 50 2 (cString line)
    rw [if_pos hfit, hwords] at hread
    exact hread
  have hmacStr := hwaddrAton_printMac e.mac []
  rw [List.append_nil] at hmacStr
  rw [parseLine, hscan]
  show (match hwaddrAton (printMac e.mac) with | none => _ | some mac => _) = _
  rw [hmacStr, inetAddr_inetNtoa]
  show Except.ok (ArpEntry.mk e.ip (toMac e.mac.toList)) = .ok e
  rw [toMac_toList]

theorem lines_printArpTable (table : List ArpEntry) : lines (printArpTable table) = table.map printEntry := by
  have hprint : printArpTable table = unlines (table.map printEntry) := by
    rw [unlines, List.flatMap_map]
    rfl
  rw [hprint, lines_unlines]
  intro line hline
  obtain ⟨e, -, rfl⟩ := List.mem_map.mp hline
  exact line_end_not_mem e

/-- The loop, on lines that are all right. -/
theorem parseLoop_print {table : List ArpEntry} {read : List Bytes}
    (h : List.Forall₂ Whole (table.map printEntry) read) (i : ℕ) :
    parseLoop i read = if i + table.length ≤ ARP_ENTRIES ∨ table = [] then .ok table else .error .undefined := by
  induction table generalizing read i with
  | nil =>
    cases h
    rw [if_pos (Or.inr rfl), parseLoop]
  | cons e table ih =>
    cases h with
    | cons hline hmore =>
      rw [parseLoop, parseLine_print hline, ih hmore, List.length_cons]
      by_cases hfull : ARP_ENTRIES ≤ i
      · rw [if_pos hfull, if_neg]
        rintro (hle | hnil)
        · omega
        · cases hnil
      · rw [if_neg hfull]
        by_cases hfits : i + (table.length + 1) ≤ ARP_ENTRIES
        · rw [if_pos (Or.inl (by omega)), if_pos (Or.inl hfits)]
          rfl
        · have hne : table ≠ [] := fun hnil => by
            rw [hnil] at hfits
            exact hfits (not_le.mp hfull)
          rw [if_neg, if_neg]
          · rfl
          · rintro (hle | hnil)
            · omega
            · cases hnil
          · rintro (hle | hnil)
            · omega
            · exact hne hnil

/-- **The table is read back** from its text exactly when it fits the memory. -/
theorem parseArpTable_print (table : List ArpEntry) : parseArpTable (printArpTable table) =
    if table.length ≤ ARP_ENTRIES then .ok table else .error .undefined := by
  have hshort : ∀ line ∈ lines (printArpTable table), line.length + 1 < 100 := by
    rw [lines_printArpTable]
    intro line hline
    obtain ⟨e, -, rfl⟩ := List.mem_map.mp hline
    exact length_printEntry e
  have hread := fgetsAll_short (by decide) hshort
  rw [lines_printArpTable] at hread
  rw [parseArpTable, parseLoop_print hread]
  refine if_congr ?_ rfl rfl
  rw [Nat.zero_add, or_iff_left_of_imp]
  rintro rfl
  exact Nat.zero_le _

end Pcom.Lab04.ArpTable
