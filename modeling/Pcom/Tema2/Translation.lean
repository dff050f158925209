import Pcom.Tema2.Datagram

/-!
# From datagrams to lines

`processUdpPacket` and the line made of its result, against the format.  Three inputs go wrong: an empty
topic makes `strtok` return the null pointer, a string that fills the buffer has no terminator in it, and
the port is printed as the machine word it has in network order.

* `payloadOf_cases` — the payload text by the type byte, with the text of an integer read as a number;
* `translated_iff` — a datagram is translated as specified **exactly when** none of the three applies.
-/

namespace Pcom.Tema2.Translation

open Pcom.Lib.Scan Pcom.Tema2.Datagram

/-! ### The format -/

/-- The number a decimal text denotes. -/
def denotes (text : Bytes) : Option ℤ :=
  let signed := scanSign text
  let n : ℤ := digitsValue signed.2
  if signed.2 ≠ [] ∧ signed.2.all isDigit = true then some (if signed.1 then -n else n) else none

/-- The type byte of the zeroed buffer. -/
def typeByte (datagram : Bytes) : UInt8 := byteAt datagram TOPIC_SIZE

/-- `(-1) ^ s * N`. -/
def intValue (datagram : Bytes) : ℤ :=
  (-1) ^ (if byteAt datagram (TOPIC_SIZE + 1) = 1 then 1 else 0) *
    bigEndian (bytesAt datagram (TOPIC_SIZE + 2) 4)

/-- The port as a number: `sin_port` holds its high byte first. -/
def portNumber (sender : SockAddr) : ℕ := 256 * (sender.sinPort.toNat % 256) + sender.sinPort.toNat / 256

/-- `ip:port - topic - type - payload`. -/
def specLine (sender : SockAddr) (pkt : UdpPacket) : Bytes :=
  inetNtop sender ++ ascii ":" ++ decimal (portNumber sender) ++ ascii " - " ++ pkt.topic ++
    ascii " - " ++ pkt.type ++ ascii " - " ++ pkt.payload ++ ascii "\n"

/-- A valid packet carries the topic and the value of the datagram, and its line the numeric port. -/
structure Rendered (sender : SockAddr) (datagram : Bytes) (pkt : UdpPacket) : Prop where
  topic : pkt.topic = cString (datagram.take TOPIC_SIZE)
  int : typeByte datagram = 0 → denotes pkt.payload = some (intValue datagram)
  string : typeByte datagram = 3 → pkt.payload = cString (datagram.drop (TOPIC_SIZE + 1))
  line : line sender pkt = specLine sender pkt

/-- The datagram is processed without a fault, and translated if its type is known. -/
def Translated (sender : SockAddr) (datagram : Bytes) : Prop :=
  ∃ pkt, processUdpPacket datagram = some pkt ∧ (pkt.valid = true ↔ typeByte datagram ≤ 3) ∧
    (pkt.valid = true → Rendered sender datagram pkt)

/-! ### The condition -/

/-- The string ends before the buffer does. -/
def Terminated (datagram : Bytes) : Prop :=
  datagram.length < MAX_LEN ∨ (0 : UInt8) ∈ datagram.drop (TOPIC_SIZE + 1)

/-- If the type is known: the topic is not empty, a string ends in the buffer, and the two bytes of the
port are the same in either order. -/
def Clean (sender : SockAddr) (datagram : Bytes) : Prop :=
  typeByte datagram ≤ 3 → byteAt datagram 0 ≠ 0 ∧ (typeByte datagram = 3 → Terminated datagram) ∧
    portNumber sender = sender.sinPort.toNat

/-! ### The parts of a datagram -/

theorem denotes_decimal (n : ℕ) :
    denotes (decimal n) = some (n : ℤ) ∧ denotes (45 :: decimal n) = some (-(n : ℤ)) := by
  have hdigits : decimal n ≠ [] ∧ (decimal n).all isDigit = true :=
    ⟨decimal_ne_nil n, List.all_eq_true.mpr fun _ hc => isDigit_of_mem_decimal hc⟩
  have hsign := scanSign_decimal n []
  rw [List.append_nil] at hsign
  constructor
  · unfold denotes
    simp only [hsign, if_pos hdigits, digitsValue_decimal, Bool.false_eq_true, if_false]
  · unfold denotes
    simp only [scanSign, if_pos hdigits, digitsValue_decimal, if_true]

theorem decimal_injective {m n : ℕ} (h : decimal m = decimal n) : m = n := by
  rw [← digitsValue_decimal m, h, digitsValue_decimal]

theorem topic_eq_nil_iff (datagram : Bytes) :
    cString (datagram.take TOPIC_SIZE) = [] ↔ byteAt datagram 0 = 0 := by
  cases datagram with
  | nil => exact iff_of_true rfl rfl
  | cons b rest =>
    show cString (b :: rest.take 49) = [] ↔ b = 0
    by_cases hb : b = 0
    · subst hb
      exact iff_of_true rfl rfl
    · have hpos : (b != 0) = true := bne_iff_ne.mpr hb
      rw [cString, List.takeWhile_cons, if_pos hpos]
      exact iff_of_false (List.cons_ne_nil _ _) hb

/-- What fits the buffer is a string of the buffer when it leaves room or has a zero byte. -/
theorem bufferString_of_fits {cap : ℕ} {b : Bytes} (hfits : b.length ≤ cap) :
    (b.length < cap ∨ (0 : UInt8) ∈ b) ∧ bufferString cap b = some (cString b) ∨
      ¬ (b.length < cap ∨ (0 : UInt8) ∈ b) ∧ bufferString cap b = none := by
  have hshort : (cString b).length < cap ↔ b.length < cap ∨ (0 : UInt8) ∈ b := by
    by_cases hzero : (0 : UInt8) ∈ b
    · refine iff_of_true ?_ (Or.inr hzero)
      have hstart : cString b <+: b := List.takeWhile_prefix _
      refine lt_of_lt_of_le (lt_of_le_of_ne hstart.length_le fun hlen => ?_) hfits
      have hself := hstart.eq_of_length hlen
      exact noNul_cString b 0 (hself.symm ▸ hzero) rfl
    · have hself : cString b = b := cString_eq_self fun c hc heq => hzero (heq ▸ hc)
      rw [hself]
      exact (or_iff_left hzero).symm
  unfold bufferString
  rw [List.take_of_length_le hfits]
  by_cases h : (cString b).length < cap
  · exact Or.inl ⟨hshort.mp h, if_pos h⟩
  · exact Or.inr ⟨mt hshort.mpr h, if_neg h⟩

/-- **The payload by the type byte.** -/
theorem payloadOf_cases {datagram : Bytes} (hlen : datagram.length ≤ MAX_LEN) :
    (∃ type payload, payloadOf datagram = some (type, some payload) ∧ typeByte datagram ≤ 3 ∧
        (typeByte datagram = 0 → denotes payload = some (intValue datagram)) ∧
        (typeByte datagram = 3 →
          Terminated datagram ∧ payload = cString (datagram.drop (TOPIC_SIZE + 1)))) ∨
      (∃ type, payloadOf datagram = some (type, none) ∧ typeByte datagram = 3 ∧
        ¬ Terminated datagram) ∨
      (payloadOf datagram = none ∧ ¬ typeByte datagram ≤ 3) := by
  unfold payloadOf typeByte
  split
  · rename_i h
    rw [h]
    refine Or.inl ⟨_, _, rfl, by decide, fun _ => ?_, fun h3 => absurd h3 (by decide)⟩
    obtain ⟨hplus, hminus⟩ := denotes_decimal (bigEndian (bytesAt datagram (TOPIC_SIZE + 2) 4))
    unfold intValue
    split
    · rw [hminus, pow_one, neg_one_mul]
    · rw [hplus, pow_zero, one_mul]
  · rename_i h
    rw [h]
    exact Or.inl ⟨_, _, rfl, by decide, fun h0 => absurd h0 (by decide), fun h3 => absurd h3 (by decide)⟩
  · rename_i h
    rw [h]
    exact Or.inl ⟨_, _, rfl, by decide, fun h0 => absurd h0 (by decide), fun h3 => absurd h3 (by decide)⟩
  · rename_i h
    rw [h]
    have hdrop : (datagram.drop (TOPIC_SIZE + 1)).length = datagram.length - (TOPIC_SIZE + 1) :=
      List.length_drop
    have hfits : (datagram.drop (TOPIC_SIZE + 1)).length ≤ MAX_LEN - (TOPIC_SIZE + 1) := by omega
    have hroom : (datagram.drop (TOPIC_SIZE + 1)).length < MAX_LEN - (TOPIC_SIZE + 1) ↔
        datagram.length < MAX_LEN := by
      have hsize : TOPIC_SIZE + 1 < MAX_LEN := by decide
      omega
    rcases bufferString_of_fits hfits with ⟨hend, hbuf⟩ | ⟨hend, hbuf⟩
    · rw [hroom] at hend
      rw [hbuf]
      exact Or.inl ⟨_, _, rfl, by decide, fun h0 => absurd h0 (by decide), fun _ => ⟨hend, rfl⟩⟩
    · rw [hroom] at hend
      rw [hbuf]
      exact Or.inr (Or.inl ⟨_, rfl, rfl, hend⟩)
  · rename_i h0 h1 h2 h3
    refine Or.inr (Or.inr ⟨rfl, fun hle => ?_⟩)
    generalize byteAt datagram TOPIC_SIZE = b at h0 h1 h2 h3 hle
    have hlt : b.toNat ≤ 3 := UInt8.le_iff_toNat_le.mp hle
    have hcases : b.toNat = 0 ∨ b.toNat = 1 ∨ b.toNat = 2 ∨ b.toNat = 3 := by omega
    rcases hcases with hb | hb | hb | hb
    · exact h0 (UInt8.toNat_inj.mp hb)
    · exact h1 (UInt8.toNat_inj.mp hb)
    · exact h2 (UInt8.toNat_inj.mp hb)
    · exact h3 (UInt8.toNat_inj.mp hb)

/-- The line has the numeric port exactly when printing the word as it stands gives the same digits. -/
theorem line_eq_specLine_iff (sender : SockAddr) (pkt : UdpPacket) :
    line sender pkt = specLine sender pkt ↔ portNumber sender = sender.sinPort.toNat := by
  constructor
  · intro h
    simp only [line, specLine, List.append_assoc] at h
    have hrest := List.append_cancel_left (List.append_cancel_left h)
    simp only [← List.append_assoc] at hrest
    simp only [List.append_left_inj] at hrest
    exact (decimal_injective hrest).symm
  · intro h
    unfold line specLine
    rw [h]

/-- **The exact condition for the translation of a datagram.** -/
theorem translated_iff (sender : SockAddr) {datagram : Bytes} (hlen : datagram.length ≤ MAX_LEN) :
    Translated sender datagram ↔ Clean sender datagram := by
  have htopic := topic_eq_nil_iff datagram
  unfold Translated Clean processUdpPacket
  rcases payloadOf_cases hlen with ⟨type, payload, hpayload, htype, hint, hstring⟩ |
    ⟨type, hpayload, htype, hopen⟩ | ⟨hpayload, htype⟩
  · rw [hpayload]
    dsimp only
    by_cases hnil : cString (datagram.take TOPIC_SIZE) = []
    · rw [if_pos hnil]
      refine iff_of_false (fun ⟨pkt, hpkt, _⟩ => by cases hpkt) fun hclean => ?_
      exact (hclean htype).1 (htopic.mp hnil)
    · rw [if_neg hnil]
      constructor
      · intro ⟨pkt, hpkt, hvalid, hrendered⟩ _
        have hline := (hrendered (hvalid.mpr htype)).line
        exact ⟨mt htopic.mpr hnil, fun h3 => (hstring h3).1, (line_eq_specLine_iff ..).mp hline⟩
      · intro hclean
        obtain ⟨-, -, hport⟩ := hclean htype
        refine ⟨_, rfl, iff_of_true rfl htype, fun _ => ⟨rfl, hint, fun h3 => (hstring h3).2, ?_⟩⟩
        exact (line_eq_specLine_iff ..).mpr hport
  · rw [hpayload]
    dsimp only
    refine iff_of_false (fun ⟨pkt, hpkt, _⟩ => by cases hpkt) fun hclean => ?_
    have hle : typeByte datagram ≤ 3 := by rw [htype]; decide
    exact hopen ((hclean hle).2.1 htype)
  · rw [hpayload]
    refine iff_of_true ⟨_, rfl, iff_of_false Bool.false_ne_true htype, fun hv => ?_⟩ fun hle => absurd hle htype
    cases hv

/-- An announcement of `10` on the topic `a`. -/
def tenOnA : Bytes := ascii "a" ++ List.replicate 49 0 ++ [0, 0, 0, 0, 0, 10]

/-- **The port comes out with its bytes swapped**: a sender on port 5000 is announced with 34835. -/
theorem port_swapped :
    portNumber ⟨127, 0, 0, 1, 0x8813⟩ = 5000 ∧ ¬ Translated ⟨127, 0, 0, 1, 0x8813⟩ tenOnA := by
  refine ⟨by decide, fun ⟨pkt, _, hvalid, hrendered⟩ => ?_⟩
  have htype : typeByte tenOnA ≤ 3 := by decide
  have hport := (line_eq_specLine_iff _ _).mp (hrendered (hvalid.mpr htype)).line
  exact absurd hport (by decide)

/-- A port whose two bytes are equal. -/
theorem port_symmetric : Translated ⟨127, 0, 0, 1, 0x1313⟩ tenOnA := by
  refine (translated_iff ⟨127, 0, 0, 1, 0x1313⟩ (by decide)).mpr fun _ => ⟨by decide, ?_, by decide⟩
  exact fun h3 => absurd h3 (by decide)

end Pcom.Tema2.Translation
