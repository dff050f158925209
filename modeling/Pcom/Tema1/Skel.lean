import Mathlib.Data.Int.Notation
import Pcom.Lib.Ipv4
import Pcom.Lib.Memory
import Pcom.Lib.Scan

/-!
# Packets, headers and checksums of `Tema1/skel.c`

A packet is a buffer with a length; the headers are overlaid on the buffer.  The machine is little-endian
and a field holds the word as it is loaded, so that `htons` shows in the constants a field is compared with.

* `ipChecksum` and `icmpChecksum` are the two checksum routines, with the address dependence of the first;
* `sendArp`, `sendIcmp` and `sendIcmpError` build the frames the router originates;
* `foldCarries_lt` — the carry loop of `ip_checksum` ends within the turns the model gives it;
* `ipToInt_inetNtoa` — an address is read back from its text.
-/

namespace Pcom.Tema1.Skel

open Pcom.Lib.Ipv4 Pcom.Lib.Memory Pcom.Lib.Scan

/-- The size of the payload array. -/
def MAX_LEN : ℕ := 1600

/-- A hardware address. -/
abbrev Mac := Vector UInt8 6

/-- `packet`: the buffer given to `read` and `write`, and the length that counts. -/
structure Packet where
  len : ℕ
  payload : Buf
  interface : ℤ

/-- The bytes that go over the link. -/
def Packet.frame (p : Packet) : Bytes := bytes p.payload 0 p.len

/-- `htons`, `ntohs`. -/
def htons (w : BitVec 16) : BitVec 16 := w.extractLsb' 0 8 ++ w.extractLsb' 8 8

/-! ### Header fields -/

/-- `ether_header`. -/
def etherDhost : ByteField Mac := raw 0 6
def etherShost : ByteField Mac := raw 6 6
def etherType : ByteField (BitVec 16) := le16 12

/-- `iphdr`, behind the Ethernet header. -/
def ttl : ByteField UInt8 := u8 22
def protocol : ByteField UInt8 := u8 23
def check : ByteField (BitVec 16) := le16 24
def saddr : ByteField (BitVec 32) := le32 26
def daddr : ByteField (BitVec 32) := le32 30

/-- `icmphdr`, behind an IPv4 header without options. -/
def icmpType : ByteField UInt8 := u8 34

/-- `arp_header`, behind the Ethernet header. -/
def op : ByteField (BitVec 16) := le16 20
def sha : ByteField Mac := raw 22 6
def spa : ByteField (BitVec 32) := le32 28

def ETHERTYPE_IP : BitVec 16 := 0x0800
def ETHERTYPE_ARP : BitVec 16 := 0x0806
def ARPOP_REQUEST : BitVec 16 := 1
def ARPOP_REPLY : BitVec 16 := 2
def ARPHRD_ETHER : BitVec 16 := 1
def IPPROTO_ICMP : UInt8 := 1
def ICMP_ECHO : UInt8 := 8
def ICMP_DEST_UNREACH : UInt8 := 3
def ICMP_TIME_EXCEEDED : UInt8 := 11
def ICMP_NET_UNREACH : UInt8 := 0

/-! ### `ip_checksum` -/

/-- `word = 0; memcpy(at + (char *)&word, bytes, …)`, then `ntohl(word)`, widened to 64 bits. -/
def block (at_ : ℕ) (data : Bytes) : BitVec 64 :=
  (swapBytes ((le32 0).get fun i => if i < at_ then 0 else data.getD (i - at_) 0)).setWidth 64

/-- The loop over complete 32-bit blocks: the accumulator and what is left of the data. -/
def fullBlocks : Bytes → BitVec 64 → BitVec 64 × Bytes
  | b₀ :: b₁ :: b₂ :: b₃ :: data, acc => fullBlocks data (acc + block 0 [b₀, b₁, b₂, b₃])
  | data, acc => (acc, data)

/-- `while (acc >> 16) acc = (acc & 0xffff) + (acc >> 16)`, with a bound on the turns. -/
def foldCarries : ℕ → BitVec 64 → BitVec 64
  | 0, acc => acc
  | turns + 1, acc =>
    if acc >>> 16 = 0 then acc else foldCarries turns ((acc &&& 0xffff#64) + (acc >>> 16))

/-- `ip_checksum` of data at an address. -/
def ipChecksum (vdata : ℕ) (data : Bytes) : BitVec 16 :=
  let acc : BitVec 64 := 0xffff
  let offset := vdata % 4
  let count := if offset = 0 then 0 else min (4 - offset) data.length
  let acc := if offset = 0 then acc else acc + block offset (data.take count)
  let (acc, data) := fullBlocks (data.drop count) acc
  let acc := if data = [] then acc else acc + block 0 data
  let acc := (acc &&& 0xffffffff#64) + (acc >>> 32)
  let acc := foldCarries 3 acc
  let acc := if offset % 2 = 1 then ((acc &&& 0xff00#64) >>> 8) ||| ((acc &&& 0x00ff#64) <<< 8) else acc
  htons ((~~~acc).setWidth 16)

/-- Adding the upper part of a word to the lower part, as a number. -/
theorem toNat_fold {n : ℕ} {mask : BitVec 64} (hmask : mask.toNat = 2 ^ n - 1) (acc : BitVec 64)
    (hn : acc.toNat % 2 ^ n + acc.toNat / 2 ^ n < 2 ^ 64) :
    ((acc &&& mask) + (acc >>> n)).toNat = acc.toNat % 2 ^ n + acc.toNat / 2 ^ n := by
  rw [BitVec.toNat_add, BitVec.toNat_and, hmask, Nat.and_two_pow_sub_one_eq_mod, BitVec.toNat_ushiftRight,
    Nat.shiftRight_eq_div_pow, Nat.mod_eq_of_lt hn]

/-- **The carry loop ends**: after the deferred carries, three turns leave nothing above 16 bits. -/
theorem foldCarries_lt (acc : BitVec 64) :
    (foldCarries 3 ((acc &&& 0xffffffff#64) + (acc >>> 32))).toNat < 2 ^ 16 := by
  have hdone : ∀ a : BitVec 64, a >>> 16 = 0 ↔ a.toNat < 2 ^ 16 := by
    intro a
    rw [← BitVec.toNat_inj, BitVec.toNat_ushiftRight, Nat.shiftRight_eq_div_pow]
    show a.toNat / 2 ^ 16 = 0 ↔ a.toNat < 2 ^ 16
    omega
  have hturn : ∀ a : BitVec 64,
      ((a &&& 0xffff#64) + (a >>> 16)).toNat = a.toNat % 2 ^ 16 + a.toNat / 2 ^ 16 := by
    intro a
    have hlt := a.isLt
    exact toNat_fold rfl a (by omega)
  have hdeferred : ((acc &&& 0xffffffff#64) + (acc >>> 32)).toNat < 2 ^ 33 := by
    have hhigh : acc.toNat / 2 ^ 32 < 2 ^ 32 := by
      have hlt := acc.isLt
      omega
    rw [toNat_fold rfl acc (by omega)]
    omega
  generalize (acc &&& 0xffffffff#64) + (acc >>> 32) = a at hdeferred
  simp only [foldCarries, hdone, hturn]
  split
  · assumption
  split
  · rw [hturn]; assumption
  split
  · simp only [hturn]; assumption
  · simp only [hturn]; omega

/-! ### `icmp_checksum` -/

/-- The loop of `icmp_checksum`; an odd last turn loads a word that ends beyond the size. -/
def icmpSum (buffer : Buf) : ℕ → ℕ → BitVec 64 → BitVec 64
  | _, 0, cksum => cksum
  | at_, 1, cksum => cksum + ((le16 at_).get buffer).setWidth 64
  | at_, size + 2, cksum => icmpSum buffer (at_ + 2) size (cksum + ((le16 at_).get buffer).setWidth 64)

/-- `icmp_checksum`. -/
def icmpChecksum (buffer : Buf) (size : ℕ) : BitVec 16 :=
  let cksum := icmpSum buffer 0 size 0
  let cksum := (cksum >>> 16) + (cksum &&& 0xffff#64)
  let cksum := cksum + (cksum >>> 16)
  (~~~cksum).setWidth 16

/-! ### Addresses as text -/

/-- `inet_ntoa`. -/
def inetNtoa (ip : BitVec 32) : Bytes :=
  decimal (byteOf ip 0).toNat ++ ascii "." ++ decimal (byteOf ip 1).toNat ++ ascii "." ++
    decimal (byteOf ip 2).toNat ++ ascii "." ++ decimal (byteOf ip 3).toNat

/-- `strtoul`: what is too large for an `unsigned long` gives the largest one, whatever its sign. -/
def unsignedValue (negative : Bool) (n : ℕ) : ℤ :=
  if n < 2 ^ 64 then (if negative then -n else n) else 2 ^ 64 - 1

/-- `%u`: as `%d`, stored in an `unsigned int`. -/
def scanUnsigned (s : Bytes) : Option (BitVec 32 × Bytes) :=
  let signed := scanSign (skipSpace s)
  let ds := signed.2.takeWhile isDigit
  if ds = [] then none
  else some (BitVec.ofInt 32 (unsignedValue signed.1 (digitsValue ds)), signed.2.dropWhile isDigit)

/-- A literal `.` of a format. -/
def scanDot : Bytes → Option Bytes
  | 46 :: s => some s
  | _ => none

/-- `ipToInt`; `none` where a conversion fails and an uninitialised group would be read. -/
def ipToInt (ip : Bytes) : Option (BitVec 32) := do
  let (group3, s) ← scanUnsigned ip
  let (group2, s) ← scanUnsigned (← scanDot s)
  let (group1, s) ← scanUnsigned (← scanDot s)
  let (group0, _) ← scanUnsigned (← scanDot s)
  some ((group3 <<< 24) + (group2 <<< 16) + (group1 <<< 8) + group0)

/-- `inet_aton` on a dotted quad. -/
def inetAton (cp : Bytes) : Option (BitVec 32) := (ipToInt cp).map swapBytes

/-- Digits are read as the number they denote, which is wrapped into 32 bits. -/
theorem scanUnsigned_digits {ds rest : Bytes} (hne : ds ≠ []) (hds : ∀ d ∈ ds, isDigit d = true)
    (hlt : digitsValue ds < 2 ^ 64) (hr : StopsAt isDigit rest) :
    scanUnsigned (ds ++ rest) = some (BitVec.ofNat 32 (digitsValue ds), rest) := by
  have htake := takeWhile_append_stop hds hr
  have hdrop := dropWhile_append_stop hds hr
  have hvalue : unsignedValue false (digitsValue ds) = digitsValue ds := by
    rw [unsignedValue, if_pos hlt, if_neg Bool.false_ne_true]
  obtain ⟨c, cs, rfl⟩ := List.exists_cons_of_ne_nil hne
  obtain ⟨hspace, hminus, hplus, -, -⟩ := isDigit_facts (hds c List.mem_cons_self)
  have hskip : skipSpace (c :: cs ++ rest) = c :: cs ++ rest := skipSpace_of_stop hspace
  have hsign : scanSign (c :: cs ++ rest) = (false, c :: cs ++ rest) := scanSign_of_ne hminus hplus
  simp only [scanUnsigned, hskip, hsign, htake, hdrop, hvalue, if_neg hne, BitVec.ofInt_natCast]

/-- A decimal number from 0 to 255, which may have leading zeros. -/
structure IsOctet (text : Bytes) : Prop where
  ne_nil : text ≠ []
  digits : ∀ c ∈ text, isDigit c = true
  le : digitsValue text ≤ 255

instance (text : Bytes) : Decidable (IsOctet text) :=
  decidable_of_iff (text ≠ [] ∧ (∀ c ∈ text, isDigit c = true) ∧ digitsValue text ≤ 255)
    ⟨fun ⟨hne, hds, hle⟩ => ⟨hne, hds, hle⟩, fun ⟨hne, hds, hle⟩ => ⟨hne, hds, hle⟩⟩

/-- The byte an octet denotes. -/
def octet (text : Bytes) : BitVec 8 := BitVec.ofNat 8 (digitsValue text)

theorem IsOctet.toNat_octet {text : Bytes} (h : IsOctet text) : (octet text).toNat = digitsValue text := by
  have hle := h.le
  rw [octet, BitVec.toNat_ofNat, Nat.mod_eq_of_lt (by omega)]

theorem IsOctet.scan {text rest : Bytes} (h : IsOctet text) (hr : StopsAt isDigit rest) :
    scanUnsigned (text ++ rest) = some ((octet text).setWidth 32, rest) := by
  have hle := h.le
  have hword : BitVec.ofNat 32 (digitsValue text) = (octet text).setWidth 32 := by
    apply BitVec.eq_of_toNat_eq
    rw [BitVec.toNat_ofNat, BitVec.toNat_setWidth, h.toNat_octet]
  rw [scanUnsigned_digits h.ne_nil h.digits (by omega) hr, hword]

theorem toNat_byteOf {w : ℕ} (x : BitVec w) (i : ℕ) : (byteOf x i).toNat = x.toNat / 2 ^ (8 * i) % 2 ^ 8 := by
  show (x.extractLsb' (8 * i) 8).toNat = _
  rw [BitVec.extractLsb'_toNat, Nat.shiftRight_eq_div_pow]

/-- **A dotted quad is read** as the number whose bytes it lists, the highest first. -/
theorem ipToInt_quad {a b c d : Bytes} (ha : IsOctet a) (hb : IsOctet b) (hc : IsOctet c) (hd : IsOctet d) :
    ipToInt (a ++ 46 :: (b ++ 46 :: (c ++ 46 :: d))) = some (octet a ++ octet b ++ octet c ++ octet d) := by
  have hstop : ∀ rest, StopsAt isDigit (46 :: rest) := fun rest => show isDigit 46 = false by decide
  have hdot : ∀ rest, scanDot (46 :: rest) = some rest := fun _ => rfl
  have hlast : scanUnsigned d = some ((octet d).setWidth 32, []) := by
    have hscan : scanUnsigned (d ++ []) = some ((octet d).setWidth 32, []) := hd.scan trivial
    rwa [List.append_nil] at hscan
  simp only [ipToInt, ha.scan (hstop _), hb.scan (hstop _), hc.scan (hstop _), hdot, hlast, Option.bind_eq_bind,
    Option.bind_some, Option.some.injEq]
  apply BitVec.eq_of_toNat_eq
  rw [toNat_append_eq, toNat_append_eq, toNat_append_eq]
  have ha := (octet a).isLt
  have hb := (octet b).isLt
  have hc := (octet c).isLt
  have hd := (octet d).isLt
  simp only [BitVec.toNat_add, BitVec.toNat_shiftLeft, BitVec.toNat_setWidth, Nat.shiftLeft_eq]
  omega

/-- A byte is printed as an octet. -/
theorem isOctet_decimal (b : UInt8) : IsOctet (decimal b.toNat) where
  ne_nil := decimal_ne_nil _
  digits := fun _ hc => isDigit_of_mem_decimal hc
  le := by
    rw [digitsValue_decimal]
    exact Nat.le_of_lt_succ b.toNat_lt

theorem octet_decimal (b : UInt8) : octet (decimal b.toNat) = b.toBitVec := by
  rw [octet, digitsValue_decimal]
  exact BitVec.ofNat_toNat 8 b.toBitVec

/-- **An address is read back** from its text. -/
theorem ipToInt_inetNtoa (ip : BitVec 32) : ipToInt (inetNtoa ip) = some (swapBytes ip) := by
  have hquad := ipToInt_quad (isOctet_decimal (byteOf ip 0)) (isOctet_decimal (byteOf ip 1))
    (isOctet_decimal (byteOf ip 2)) (isOctet_decimal (byteOf ip 3))
  simp only [octet_decimal] at hquad
  have htext : inetNtoa ip = decimal (byteOf ip 0).toNat ++ 46 :: (decimal (byteOf ip 1).toNat ++
      46 :: (decimal (byteOf ip 2).toNat ++ 46 :: decimal (byteOf ip 3).toNat)) := by
    simp [inetNtoa, ascii]
  rw [htext, hquad]
  rfl

theorem inetAton_inetNtoa (ip : BitVec 32) : inetAton (inetNtoa ip) = some ip := by
  rw [inetAton, ipToInt_inetNtoa, Option.map_some, swapBytes_swapBytes]

/-! ### Frames the router originates -/

/-- Which code called `send_packet`. -/
inductive Origin
  | forward
  | arp
  | icmp
  deriving DecidableEq

/-- A call of `send_packet`. -/
structure Sent where
  origin : Origin
  interface : ℤ
  packet : Packet

/-- A word as it is laid out in memory. -/
def word {w : ℕ} (x : BitVec w) : Bytes := (List.range (w / 8)).map (byteOf x)

/-- A local packet with these bytes; what is behind them in the array is not sent, and nothing reads the
`interface` of such a packet. -/
def localPacket (frame : Bytes) : Packet := ⟨frame.length, ofBytes frame, 0⟩

/-- `build_ethhdr`. -/
def buildEthhdr (sha dha : Mac) (type : BitVec 16) : Bytes :=
  dha.toList ++ sha.toList ++ word type

/-- The local `ip_hdr` of `send_icmp`; its address is a multiple of 4. -/
def icmpIpHdr (daddr saddr : BitVec 32) : Bytes :=
  let ipHdr (check : BitVec 16) : Bytes :=
    [0x45, 0] ++ word (htons 28) ++ word (htons 1) ++ word (0 : BitVec 16) ++ [64, IPPROTO_ICMP] ++
      word check ++ word saddr ++ word daddr
  ipHdr (ipChecksum 0 (ipHdr 0))

/-- The local `icmp_hdr` of `send_icmp`. -/
def icmpHdr (type code : UInt8) (id sequence : BitVec 16) : Bytes :=
  let hdr (checksum : BitVec 16) : Bytes := [type, code] ++ word checksum ++ word id ++ word sequence
  hdr (icmpChecksum (ofBytes (hdr 0)) 8)

/-- `send_icmp`. -/
def sendIcmp (daddr saddr : BitVec 32) (sha dha : Mac) (type code : UInt8) (interface : ℤ)
    (id seq : BitVec 32) : Sent :=
  ⟨.icmp, interface, localPacket (buildEthhdr sha dha (htons ETHERTYPE_IP) ++ icmpIpHdr daddr saddr ++
    icmpHdr type code (id.setWidth 16) (seq.setWidth 16))⟩

/-- `send_icmp_error`: the fields behind the checksum are zero. -/
def sendIcmpError (daddr saddr : BitVec 32) (sha dha : Mac) (type code : UInt8) (interface : ℤ) : Sent :=
  sendIcmp daddr saddr sha dha type code interface 0 0

/-- `send_arp`; the Ethernet header is at the start of the buffer. -/
def sendArp (daddr saddr : BitVec 32) (ethHdr : Buf) (interface : ℤ) (arpOp : BitVec 16) : Sent :=
  ⟨.arp, interface, localPacket (bytes ethHdr 0 14 ++
    (word (htons ARPHRD_ETHER) ++ word (htons 2048) ++ [6, 4] ++ word arpOp ++
      (etherShost.get ethHdr).toList ++ word saddr ++ (etherDhost.get ethHdr).toList ++ word daddr))⟩

end Pcom.Tema1.Skel
