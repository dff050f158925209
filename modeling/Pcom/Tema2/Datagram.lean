import Pcom.Lib.Scan

/-!
# The UDP datagrams of the broker and the lines made of them

`processUdpPacket` of `Tema2/server.cpp` reads a datagram from the zeroed receive buffer: 50 bytes of
topic, a type byte, and a value whose format the type selects.  `line` is the text `main` streams for
the subscribers.

The two real-number types go through a `double`.  `toDouble` is the round-to-nearest of IEEE binary64
(the values that occur are neither subnormal nor infinite) and `fixed` the exact rounding of
`ostream << fixed << setprecision`; `pow` is taken to be correctly rounded.
-/

namespace Pcom.Tema2.Datagram

open Pcom.Lib.Scan

def MAX_LEN : ℕ := 1600

def TOPIC_SIZE : ℕ := 50

/-! ### Addresses -/

/-- A `struct sockaddr_in`: the four octets of the address and `sin_port` as the `uint16_t` it is. -/
structure SockAddr where
  a : UInt8
  b : UInt8
  c : UInt8
  d : UInt8
  sinPort : UInt16
  deriving DecidableEq

/-- `inet_ntop(AF_INET, …)`. -/
def inetNtop (addr : SockAddr) : Bytes :=
  decimal addr.a.toNat ++ 46 :: (decimal addr.b.toNat ++ 46 :: (decimal addr.c.toNat ++
    46 :: decimal addr.d.toNat))

/-! ### Numbers in and out of text -/

/-- The number a big-endian byte sequence denotes. -/
def bigEndian (bs : Bytes) : ℕ := bs.foldl (fun acc b => 256 * acc + b.toNat) 0

/-- The integer nearest to `num / den`, ties to even. -/
def roundHalfEven (num den : ℕ) : ℕ :=
  let q := num / den
  let r := num % den
  if 2 * r < den ∨ (2 * r = den ∧ q % 2 = 0) then q else q + 1

/-- `num / den · 2 ^ (-e)` as a fraction. -/
def scaled (num den : ℕ) (e : ℤ) : ℕ × ℕ :=
  if 0 ≤ e then (num, den * 2 ^ e.toNat) else (num * 2 ^ (-e).toNat, den)

/-- The exponent for which the mantissa of `num / den` has 53 bits. -/
def exponent (num den : ℕ) : ℤ :=
  let e : ℤ := (Nat.log2 num : ℤ) - Nat.log2 den - 52
  let s := scaled num den e
  if s.1 / s.2 < 2 ^ 52 then e - 1 else e

/-- The `double` nearest to `num / den`, as a fraction. -/
def toDouble (num den : ℕ) : ℕ × ℕ :=
  if num = 0 then (0, 1)
  else
    let e := exponent num den
    let s := scaled num den e
    let m := roundHalfEven s.1 s.2
    if 0 ≤ e then (m * 2 ^ e.toNat, 1) else (m, 2 ^ (-e).toNat)

/-- `<< fixed << setprecision(digits) <<` of the fraction `x`. -/
def fixed (digits : ℕ) (x : ℕ × ℕ) : Bytes :=
  let n := roundHalfEven (x.1 * 10 ^ digits) x.2
  let frac := decimal (n % 10 ^ digits)
  decimal (n / 10 ^ digits) ++
    if digits = 0 then [] else 46 :: (List.replicate (digits - frac.length) 48 ++ frac)

/-- `pow(10, power)`. -/
def pow10 (power : ℕ) : ℕ × ℕ := toDouble (10 ^ power) 1

/-- The quotient of two `double`s. -/
def divDouble (x y : ℕ × ℕ) : ℕ × ℕ := toDouble (x.1 * y.2) (x.2 * y.1)

/-! ### The texts of numbers -/

theorem bigEndian_lt (bs : Bytes) : bigEndian bs < 256 ^ bs.length := by
  have hfold : ∀ (bs : Bytes) (acc k : ℕ), acc < 256 ^ k →
      bs.foldl (fun acc b => 256 * acc + b.toNat) acc < 256 ^ (k + bs.length) := by
    intro bs
    induction bs with
    | nil => intro acc k h; exact h
    | cons b bs ih =>
      intro acc k h
      have hb := b.toNat_lt
      have hnext : 256 * acc + b.toNat < 256 ^ (k + 1) := by
        rw [pow_succ]
        omega
      rw [List.foldl_cons, List.length_cons, show k + (bs.length + 1) = k + 1 + bs.length by omega]
      exact ih _ _ hnext
  have h := hfold bs 0 0 (by decide)
  rwa [Nat.zero_add] at h

theorem roundHalfEven_le (num den : ℕ) : roundHalfEven num den ≤ num / den + 1 := by
  unfold roundHalfEven
  dsimp only
  split
  · exact Nat.le_succ _
  · exact le_rfl

theorem exponent_bounds (num den : ℕ) :
    (Nat.log2 num : ℤ) - Nat.log2 den - 53 ≤ exponent num den ∧
      exponent num den ≤ (Nat.log2 num : ℤ) - Nat.log2 den - 52 := by
  unfold exponent
  dsimp only
  split <;> omega

/-- Rounding to a `double` at most doubles a fraction, roughly; the denominator is a power of two. -/
theorem toDouble_bounds (num den : ℕ) :
    0 < (toDouble num den).2 ∧ (toDouble num den).1 / (toDouble num den).2 ≤ 2 * num + 1 := by
  by_cases hzero : num = 0
  · simp [toDouble, hzero]
  · simp only [toDouble, if_neg hzero]
    have hexp : exponent num den ≤ (Nat.log2 num : ℤ) := by
      have := exponent_bounds num den
      omega
    generalize exponent num den = e at hexp
    by_cases hpos : 0 ≤ e
    · simp only [scaled, if_pos hpos, Nat.div_one]
      refine ⟨Nat.one_pos, ?_⟩
      have hpow : 2 ^ e.toNat ≤ num :=
        (Nat.pow_le_pow_right (by decide) (by omega)).trans (Nat.log2_self_le hzero)
      have hround := roundHalfEven_le num (den * 2 ^ e.toNat)
      have hquot : num / (den * 2 ^ e.toNat) * 2 ^ e.toNat ≤ num := by
        rw [← Nat.div_div_eq_div_mul]
        exact (Nat.div_mul_le_self _ _).trans (Nat.div_le_self _ _)
      calc roundHalfEven num (den * 2 ^ e.toNat) * 2 ^ e.toNat
          ≤ (num / (den * 2 ^ e.toNat) + 1) * 2 ^ e.toNat := Nat.mul_le_mul_right _ hround
        _ = num / (den * 2 ^ e.toNat) * 2 ^ e.toNat + 2 ^ e.toNat := by rw [Nat.succ_mul]
        _ ≤ 2 * num + 1 := by omega
    · simp only [scaled, if_neg hpos]
      have hpow : 0 < 2 ^ (-e).toNat := Nat.pow_pos (by decide)
      refine ⟨hpow, ?_⟩
      have hround := roundHalfEven_le (num * 2 ^ (-e).toNat) den
      have hquot : num * 2 ^ (-e).toNat / den ≤ num * 2 ^ (-e).toNat := Nat.div_le_self _ _
      have hle : roundHalfEven (num * 2 ^ (-e).toNat) den ≤ (num + 1) * 2 ^ (-e).toNat := by
        rw [Nat.succ_mul]
        omega
      calc roundHalfEven (num * 2 ^ (-e).toNat) den / 2 ^ (-e).toNat
          ≤ (num + 1) * 2 ^ (-e).toNat / 2 ^ (-e).toNat := Nat.div_le_div_right hle
        _ = num + 1 := Nat.mul_div_cancel _ hpow
        _ ≤ 2 * num + 1 := by omega

/-- The denominator of a power of ten fits the mantissa. -/
theorem pow10_den_le (power : ℕ) : (pow10 power).2 ≤ 2 ^ 53 := by
  have hne : (10 : ℕ) ^ power ≠ 0 := (Nat.pow_pos (by decide)).ne'
  have hone : Nat.log2 1 = 0 := by decide
  have hexp := (exponent_bounds (10 ^ power) 1).1
  simp only [pow10, toDouble, if_neg hne]
  split
  · exact Nat.one_le_two_pow
  · apply Nat.pow_le_pow_right (by decide)
    omega

theorem decimal_clean {n : ℕ} {c : UInt8} (h : c ∈ decimal n) : c ≠ 0 ∧ c ≠ 10 := by
  obtain ⟨-, -, -, h0, h10⟩ := isDigit_facts (isDigit_of_mem_decimal h)
  exact ⟨h0, h10⟩

/-- Number text: digits and the decimal point. -/
theorem fixed_clean {digits : ℕ} {x : ℕ × ℕ} {c : UInt8} (h : c ∈ fixed digits x) :
    c ≠ 0 ∧ c ≠ 10 := by
  have hdec : ∀ n, c ∈ decimal n → c ≠ 0 ∧ c ≠ 10 := fun n hc => decimal_clean hc
  rcases List.mem_append.mp h with h | h
  · exact hdec _ h
  · split at h
    · cases h
    · rcases List.mem_cons.mp h with rfl | h
      · decide
      · rcases List.mem_append.mp h with h | h
        · rw [List.eq_of_mem_replicate h]
          decide
        · exact hdec _ h

theorem length_fixed_le (digits k : ℕ) {x : ℕ × ℕ} (hden : 0 < x.2) (hk : 0 < k)
    (h : x.1 / x.2 + 1 < 10 ^ k) : (fixed digits x).length ≤ k + (digits + 1) := by
  have hpow : 0 < 10 ^ digits := Nat.pow_pos (by decide)
  have hround := roundHalfEven_le (x.1 * 10 ^ digits) x.2
  have hx : x.1 < (x.1 / x.2 + 1) * x.2 := by
    rw [Nat.succ_mul, ← Nat.succ_mul, mul_comm]
    exact Nat.lt_mul_div_succ _ hden
  have hscaled : x.1 * 10 ^ digits / x.2 < (x.1 / x.2 + 1) * 10 ^ digits := by
    rw [Nat.div_lt_iff_lt_mul hden]
    calc x.1 * 10 ^ digits < (x.1 / x.2 + 1) * x.2 * 10 ^ digits :=
          Nat.mul_lt_mul_of_pos_right hx hpow
      _ = (x.1 / x.2 + 1) * 10 ^ digits * x.2 := by ring
  have hint : roundHalfEven (x.1 * 10 ^ digits) x.2 / 10 ^ digits ≤ x.1 / x.2 + 1 := by
    apply Nat.div_le_of_le_mul
    rw [mul_comm (10 ^ digits)]
    omega
  have hwhole := length_decimal_le hk (lt_of_le_of_lt hint h)
  unfold fixed
  dsimp only
  rw [List.length_append]
  split
  · rw [List.length_nil]
    omega
  · rename_i hdigits
    have hfrac := length_decimal_le (Nat.pos_of_ne_zero hdigits)
      (Nat.mod_lt (roundHalfEven (x.1 * 10 ^ digits) x.2) hpow)
    rw [List.length_cons, List.length_append, List.length_replicate]
    omega

/-! ### `processUdpPacket` -/

/-- `struct udp_packet`, without the two fields that are never set. -/
structure UdpPacket where
  type : Bytes := []
  payload : Bytes := []
  topic : Bytes := []
  valid : Bool := true
  deriving DecidableEq

/-- Byte `i` of the zeroed buffer the datagram was received into. -/
def byteAt (datagram : Bytes) (i : ℕ) : UInt8 := datagram.getD i 0

/-- `n` bytes of the buffer from `i` on. -/
def bytesAt (datagram : Bytes) (i n : ℕ) : Bytes := (List.range n).map fun k => byteAt datagram (i + k)

/-- The type and payload text the type byte selects; `none` when the type is unknown. The payload is
`none` when the string conversion reads on past the buffer. -/
def payloadOf (datagram : Bytes) : Option (Bytes × Option Bytes) :=
  let sign := byteAt datagram (TOPIC_SIZE + 1)
  match byteAt datagram TOPIC_SIZE with
  | 0 =>
    let digits := decimal (bigEndian (bytesAt datagram (TOPIC_SIZE + 2) 4))
    some (ascii "INT", some (if sign = 1 then 45 :: digits else digits))
  | 1 =>
    let numberShort := bigEndian (bytesAt datagram (TOPIC_SIZE + 1) 2)
    some (ascii "SHORT_REAL", some (fixed 2 (toDouble numberShort 100)))
  | 2 =>
    let number := bigEndian (bytesAt datagram (TOPIC_SIZE + 2) 4)
    let power := (byteAt datagram (TOPIC_SIZE + 6)).toNat
    let text := fixed power (divDouble (number, 1) (pow10 power))
    some (ascii "FLOAT", some (if sign = 1 then 45 :: text else text))
  | 3 =>
    some (ascii "STRING",
      bufferString (MAX_LEN - (TOPIC_SIZE + 1)) (datagram.drop (TOPIC_SIZE + 1)))
  | _ => none

/-- `processUdpPacket`; `none` where it reads past the buffer or builds a string from the null pointer
`strtok` returns for an empty topic. -/
def processUdpPacket (datagram : Bytes) : Option UdpPacket :=
  match payloadOf datagram with
  | none => some { valid := false }
  | some (_, none) => none
  | some (type, some payload) =>
    -- `buf[50] = '\0'` ends the topic; with no delimiters `strtok` returns all of it
    let topic := cString (datagram.take TOPIC_SIZE)
    if topic = [] then none else some { type, payload, topic }

/-- The text `main` streams for a packet; the port is printed as it stands in the `sockaddr_in`. -/
def line (sender : SockAddr) (pkt : UdpPacket) : Bytes :=
  inetNtop sender ++ ascii ":" ++ decimal sender.sinPort.toNat ++ ascii " - " ++ pkt.topic ++
    ascii " - " ++ pkt.type ++ ascii " - " ++ pkt.payload ++ ascii "\n"

end Pcom.Tema2.Datagram
