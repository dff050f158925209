import Pcom.Pirvu.Router
import Pcom.Tema1.Branches
import Pcom.Tema1.Checksum

/-!
# The frames of the trie router, byte by byte

The router builds its frames field by field in memory nobody has written, and sends as many bytes as it has set
the length to.

* `sendARPReply_byte` — where each byte of an ARP reply comes from;
* `frame_sendARPRequest`, `frame_sendICMPscratch` — the two frames of 42 bytes are written throughout;
* `onIpv4_frames`, `onArpReply_frames` — what the branches of the loop body send, as bytes.
-/

namespace Pcom.Pirvu.Frames

open Function Pcom.Lib.Memory Pcom.Lib.Scan Pcom.Pirvu.RTable Pcom.Pirvu.Router
open Pcom.Tema1.Branches (Summed)
open Pcom.Tema1.Checksum (finish finish_block_inj finish_block_byte toNat_block_lt)
open Pcom.Tema1.Skel (Mac Packet htons etherDhost etherShost etherType ttl protocol check saddr daddr icmpType op
  sha spa ETHERTYPE_IP ETHERTYPE_ARP ipChecksum block)
open Pcom.Tema1.Router (headerChecksum decrementTtl decrementTtl_congr get_decrementTtl
  ttl_decrementTtl)

/-- What goes over the links. -/
def frames (out : List Sent) : List (ℤ × Bytes) := out.map fun o => (o.interface, o.packet.frame)

variable {cfg : Config} {s : State} {m : Packet} {b : Buf}

/-! ### ARP replies -/

/-- The reply byte by byte; behind the header stands what was in the memory of the packet. -/
def replyByte (request : Buf) (newMac : Mac) (fresh : Buf) (k : ℕ) : UInt8 :=
  if k < 6 then request (k + 6)
  else if k < 12 then newMac.toList.getD (k - 6) 0
  else if k < 20 then request k
  else if k < 22 then byteOf (htons ARP_REPLY_CODE) (k - 20)
  else if k < 28 then newMac.toList.getD (k - 22) 0
  else if k < 32 then request (k + 10)
  else if k < 42 then request (k - 10)
  else fresh k

theorem sendARPReply_byte (origin : Origin) (m : Packet) (newMac : Mac) (fresh : Buf) (k : ℕ) :
    (sendARPReply origin m newMac fresh).packet.payload k = replyByte m.payload newMac fresh k := by
  have hmac (off : ℕ) (b : Buf) {i : ℕ} (hi : i < 6) :
      (raw off 6).set b newMac (off + i) = newMac.toList.getD (off + i - off) 0 := by
    rw [Nat.add_sub_cancel_left]
    exact (ByteField.set_of_covers (f := raw off 6) hi).trans (by simp [raw, hi])
  obtain hk | hk | hk | hk | hk | hk | hk | hk | hk | hk : 0 ≤ k ∧ k < 6 ∨ 6 ≤ k ∧ k < 12 ∨ 12 ≤ k ∧ k < 14 ∨
      14 ≤ k ∧ k < 20 ∨ 20 ≤ k ∧ k < 22 ∨ 22 ≤ k ∧ k < 28 ∨ 28 ≤ k ∧ k < 32 ∨ 32 ≤ k ∧ k < 38 ∨
        38 ≤ k ∧ k < 42 ∨ 42 ≤ k ∧ 42 ≤ k := by omega
  -- the last write that covers the place decides
  all_goals
    obtain ⟨i, rfl⟩ := Nat.exists_eq_add_of_le hk.1
    simp (disch := (simp only [ByteField.Covers, etherDhost, etherShost, etherType, etherArp, op, tpa, tha, spa, sha,
      raw, le32, le16]; omega)) only [sendARPReply, ByteField.set_of_not_covers]
    simp (disch := omega) only [replyByte, if_pos, if_neg]
  · exact (raw_copy 0 6 _ _ (by omega)).trans (congrArg _ (by omega))
  · exact hmac 6 _ (by omega)
  · exact le16_copy 12 12 _ _ (by omega)
  · exact raw_copy 14 14 _ _ (by omega)
  · exact (ByteField.set_of_covers (f := op) (by show i < 2; omega)).trans
      (congrArg (byteOf _) (Nat.add_sub_cancel_left 20 i).symm)
  · exact hmac 22 _ (by omega)
  · exact (le32_copy 28 38 _ _ (by omega)).trans (congrArg _ (by omega))
  · exact (raw_copy 32 22 _ _ (by omega)).trans (congrArg _ (by omega))
  · exact (le32_copy 38 28 _ _ (by omega)).trans (congrArg _ (by omega))

theorem frame_sendARPReply (origin : Origin) (m : Packet) (newMac : Mac) (fresh : Buf) :
    (sendARPReply origin m newMac fresh).packet.frame = bytes (replyByte m.payload newMac fresh) 0 m.len :=
  bytes_congr fun k _ _ => sendARPReply_byte origin m newMac fresh k

/-! ### Frames built from nothing -/

/-- Nothing is known of two buffers nobody has written. -/
theorem agreeOn_fresh (fresh fresh' : Buf) : AgreeOn (fun _ => False) fresh fresh' := fun _ h => h.elim

/-- **An ARP request is written throughout.** -/
theorem frame_sendARPRequest (cfg : Config) (entry : RTableEntry) (dest : BitVec 32) (fresh fresh' : Buf) :
    (sendARPRequest cfg entry dest fresh).packet.frame = (sendARPRequest cfg entry dest fresh').packet.frame := by
  have hagree := ((((((((((((agreeOn_fresh fresh fresh').set etherType (htons ETHERTYPE_ARP)).set etherDhost
    (Vector.replicate 6 0xff)).set etherShost (cfg.interfaceMac entry.interface)).set arHrd
    (htons ARP_HW_ETHER)).set arPro (htons ARP_P_IP)).set arPln 4).set arHln 6).set op
    (htons ARP_REQUEST_CODE)).set spa (cfg.interfaceIp entry.interface)).set sha
    (cfg.interfaceMac entry.interface)).set tpa dest).set tha (Vector.replicate 6 0)
  refine AgreeOn.bytes hagree fun k _ hk => ?_
  have hk : k < 0 + 42 := hk
  simp only [ByteField.Covers, etherType, etherDhost, etherShost, arHrd, arPro, arPln, arHln, op, spa, sha, tpa,
    tha, u8, raw, le16, le32]
  omega

/-- The Ethernet and IPv4 headers of an ICMP error, without checksum. -/
def errorHeader (pid : BitVec 16) (dhost shost : Mac) (src dst : BitVec 32) (fresh : Buf) : Buf :=
  let sent := etherType.set fresh (htons ETHERTYPE_IP)
  let sent := etherShost.set (etherDhost.set sent dhost) shost
  let sent := totLen.set (tos.set (versionIhl.set sent 0x45) 0) (htons 28)
  let sent := protocol.set (ttl.set (fragOff.set (ipId.set sent (htons pid)) 0) 64) 1
  check.set (daddr.set (saddr.set sent src) dst) 0

/-- The ICMP header behind them, without checksum. -/
def errorBody (pid : BitVec 16) (type code : UInt8) (sent : Buf) : Buf :=
  icmpCheck.set (echoSequence.set (echoId.set (icmpType.set (icmpCode.set sent code) type) (htons pid)) 0) 0

/-- The two checksums. -/
def headerSummed (sent : Buf) : Buf := check.set sent (headerChecksum sent)

def icmpSummed (sent : Buf) : Buf := icmpCheck.set sent (icmpHeaderChecksum sent)

theorem sendICMPscratch_eq (cfg : Config) (m : Packet) (type code : UInt8) (fresh : Buf) :
    sendICMPscratch cfg m type code fresh = ⟨.icmp, m.interface, ⟨42, icmpSummed (errorBody (cfg.pid.setWidth 16)
      type code (headerSummed (errorHeader (cfg.pid.setWidth 16) (etherShost.get m.payload)
        (etherDhost.get m.payload) (daddr.get m.payload) (saddr.get m.payload) fresh))), m.interface⟩⟩ :=
  rfl

theorem errorHeader_agree (pid : BitVec 16) (dhost shost : Mac) (src dst : BitVec 32) (fresh fresh' : Buf) :
    AgreeOn (· < 34) (errorHeader pid dhost shost src dst fresh) (errorHeader pid dhost shost src dst fresh') := by
  have hagree := (((((((((((((agreeOn_fresh fresh fresh').set etherType (htons ETHERTYPE_IP)).set etherDhost
    dhost).set etherShost shost).set versionIhl 0x45).set tos 0).set totLen (htons 28)).set ipId (htons pid)).set
    fragOff 0).set ttl 64).set protocol 1).set saddr src).set daddr dst).set check 0
  refine hagree.mono fun k hk => ?_
  simp only [ByteField.Covers, etherType, etherDhost, etherShost, versionIhl, tos, totLen, ipId, fragOff, ttl,
    protocol, saddr, daddr, check, u8, raw, le16, le32]
  omega

theorem errorBody_agree (pid : BitVec 16) (type code : UInt8) {b b' : Buf} (h : AgreeOn (· < 34) b b') :
    AgreeOn (· < 42) (errorBody pid type code b) (errorBody pid type code b') := by
  have hagree := ((((h.set icmpCode code).set icmpType type).set echoId (htons pid)).set echoSequence 0).set
    icmpCheck 0
  refine hagree.mono fun k hk => ?_
  simp only [ByteField.Covers, icmpCode, icmpType, echoId, echoSequence, icmpCheck, u8, le16]
  omega

theorem headerSummed_agree {n : ℕ} (hn : 34 ≤ n) {b b' : Buf} (h : AgreeOn (· < n) b b') :
    AgreeOn (· < n) (headerSummed b) (headerSummed b') := by
  have hsum : headerChecksum b = headerChecksum b' :=
    congrArg (ipChecksum 18) (h.bytes fun k _ (hk : k < 34) => lt_of_lt_of_le hk hn)
  rw [headerSummed, headerSummed, hsum]
  exact (h.set check _).mono fun _ hk => Or.inr hk

theorem icmpSummed_agree {n : ℕ} (hn : 42 ≤ n) {b b' : Buf} (h : AgreeOn (· < n) b b') :
    AgreeOn (· < n) (icmpSummed b) (icmpSummed b') := by
  have hsum : icmpHeaderChecksum b = icmpHeaderChecksum b' :=
    congrArg (ipChecksum 38) (h.bytes fun k _ (hk : k < 42) => lt_of_lt_of_le hk hn)
  rw [icmpSummed, icmpSummed, hsum]
  exact (h.set icmpCheck _).mono fun _ hk => Or.inr hk

/-- **An ICMP error is written throughout**, and of the packet it answers only the header is read. -/
theorem frame_sendICMPscratch (cfg : Config) {b : Buf} (h : ∀ k < 34, b k = m.payload k) (type code : UInt8)
    (fresh fresh' : Buf) :
    (sendICMPscratch cfg { m with payload := b } type code fresh).packet.frame =
      (sendICMPscratch cfg m type code fresh').packet.frame := by
  have hget {α : Type} (f : ByteField α) (hf : f.off + f.size ≤ 34) : f.get b = f.get m.payload :=
    ByteField.get_congr fun k hk => h k (lt_of_lt_of_le hk.2 hf)
  simp only [sendICMPscratch_eq, hget etherShost (by decide), hget etherDhost (by decide), hget daddr (by decide),
    hget saddr (by decide)]
  have hagree := icmpSummed_agree le_rfl (errorBody_agree (cfg.pid.setWidth 16) type code
    (headerSummed_agree le_rfl (errorHeader_agree (cfg.pid.setWidth 16) (etherShost.get m.payload)
      (etherDhost.get m.payload) (daddr.get m.payload) (saddr.get m.payload) fresh fresh')))
  exact hagree.bytes fun k _ (hk : k < 0 + 42) => by omega

/-! ### Echo replies -/

/-- The echo request turned into the reply, without checksums. -/
def echoBody (payload : Buf) : Buf :=
  let payload := icmpCode.set (icmpType.set payload 0) 0
  let payload := saddr.set (daddr.set payload (saddr.get payload)) (daddr.get payload)
  check.set (ttl.set payload 64) 0

/-- The reply in front of the ICMP checksum. -/
def echoUnsummed (payload : Buf) : Buf := icmpCheck.set (headerSummed (echoBody payload)) 0

theorem sendICMPReply_eq (m : Packet) :
    sendICMPReply m = { m with payload := icmpSummed (echoUnsummed m.payload) } :=
  rfl

/-- Type, code and checksum are zero in front of the ICMP checksum. -/
theorem echoUnsummed_zero (b : Buf) {k : ℕ} (hlo : 34 ≤ k) (hhi : k < 38) : echoUnsummed b k = 0 := by
  obtain rfl | rfl | rfl | rfl : k = 34 ∨ k = 35 ∨ k = 36 ∨ k = 37 := by omega
  · simp (disch := decide) only [echoUnsummed, headerSummed, echoBody, ByteField.set_of_not_covers]
    exact ByteField.set_of_covers (f := icmpType) (i := 0) (by decide)
  · simp (disch := decide) only [echoUnsummed, headerSummed, echoBody, ByteField.set_of_not_covers]
    exact ByteField.set_of_covers (f := icmpCode) (i := 0) (by decide)
  · exact ByteField.set_of_covers (f := icmpCheck) (i := 0) (by decide)
  · exact ByteField.set_of_covers (f := icmpCheck) (i := 1) (by decide)

/-- Behind the ICMP checksum nothing is written. -/
theorem echoUnsummed_byte (b : Buf) {k : ℕ} (hk : 38 ≤ k) : echoUnsummed b k = b k := by
  simp (disch := (simp only [ByteField.Covers, icmpCheck, check, ttl, saddr, daddr, icmpCode, icmpType,
    le16, le32, u8]; omega)) only [echoUnsummed, headerSummed, echoBody, ByteField.set_of_not_covers]

theorem echoBody_agree {n : ℕ} (hn : 34 ≤ n) {b b' : Buf} (h : AgreeOn (· < n) b b') :
    AgreeOn (· < n) (echoBody b) (echoBody b') := by
  have hicmp := (h.set icmpType 0).set icmpCode 0
  have hsaddr := hicmp.get saddr fun k hk => Or.inr (Or.inr (lt_of_lt_of_le hk.2 (le_trans (by decide) hn)))
  have hdaddr := hicmp.get daddr fun k hk => Or.inr (Or.inr (lt_of_lt_of_le hk.2 (le_trans (by decide) hn)))
  simp only [echoBody, hsaddr, hdaddr]
  refine (((((hicmp.set daddr _).set saddr _).set ttl 64).set check 0).mono fun k hk => ?_)
  exact Or.inr (Or.inr (Or.inr (Or.inr (Or.inr (Or.inr hk)))))

theorem echoUnsummed_agree {n : ℕ} (hn : 34 ≤ n) {b b' : Buf} (h : AgreeOn (· < n) b b') :
    AgreeOn (· < n) (echoUnsummed b) (echoUnsummed b') :=
  ((headerSummed_agree hn (echoBody_agree hn h)).set icmpCheck 0).mono fun _ hk => Or.inr hk

/-- **The reply to an echo request** is a matter of the received bytes if they hold all of the ICMP header, or do not
reach its checksum. -/
theorem frame_sendICMPReply {b : Buf} (hlen : 34 ≤ m.len) (hicmp : m.len ≤ 36 ∨ 42 ≤ m.len)
    (h : ∀ k < m.len, b k = m.payload k) :
    (sendICMPReply { m with payload := b }).frame = (sendICMPReply m).frame := by
  have hagree := echoUnsummed_agree hlen h
  refine bytes_congr fun k _ (hk : k < 0 + m.len) => ?_
  rw [Nat.zero_add] at hk
  rcases hicmp with hshort | hlong
  · have hnot : ¬ icmpCheck.Covers k := fun hc => absurd hc.1 (Nat.not_le.mpr (lt_of_lt_of_le hk hshort))
    show icmpSummed (echoUnsummed b) k = icmpSummed (echoUnsummed m.payload) k
    rw [icmpSummed, icmpSummed, ByteField.set_of_not_covers hnot, ByteField.set_of_not_covers hnot]
    exact hagree k hk
  · exact icmpSummed_agree hlong hagree k hk

/-- The sum over the ICMP header of a reply, but for its last word. -/
def echoSum (b : Buf) : BitVec 64 := 0xffff + block 2 [0, 0] + block 0 [0, 0, b 38, b 39]

theorem echoSum_lt (b : Buf) : (echoSum b).toNat < 2 ^ 48 := by
  have h₁ := toNat_block_lt 2 [0, 0]
  have h₂ := toNat_block_lt 0 [0, 0, b 38, b 39]
  have h₀ : (0xffff : BitVec 64).toNat = 65535 := rfl
  simp only [echoSum, BitVec.toNat_add, h₀]
  omega

/-- The ICMP checksum of a reply takes in the bytes 38 to 41, received or not. -/
theorem icmpHeaderChecksum_echo (b : Buf) :
    icmpHeaderChecksum (echoUnsummed b) = finish (echoSum b + block 0 [b 40, b 41]) := by
  have hsum (y : Buf) : icmpHeaderChecksum y = finish (0xffff + block 2 [y 34, y 35] +
      block 0 [y 36, y 37, y 38, y 39] + block 0 [y 40, y 41]) := rfl
  rw [hsum, echoUnsummed_zero b (by decide) (by decide), echoUnsummed_zero b (by decide) (by decide),
    echoUnsummed_zero b (by decide) (by decide), echoUnsummed_zero b (by decide) (by decide),
    echoUnsummed_byte b (by decide), echoUnsummed_byte b (by decide), echoUnsummed_byte b (by decide),
    echoUnsummed_byte b (by decide), echoSum]

/-- **A reply cut off inside the ICMP header** shows bytes behind the frame through its checksum. -/
theorem frame_sendICMPReply_ne {b b' : Buf} {n : ℕ} (hlo : 37 ≤ n) (h38 : b 38 = b' 38) (h39 : b 39 = b' 39)
    (h : b 40 = 0 ∧ b' 40 = 1 ∧ b 41 = b' 41 ∨ 38 ≤ n ∧ b 40 = b' 40 ∧ b 41 ≠ b' 41) :
    bytes (icmpSummed (echoUnsummed b)) 0 n ≠ bytes (icmpSummed (echoUnsummed b')) 0 n := by
  intro heq
  have hbyte {k : ℕ} (hk : k < 2) (hn : 36 + k < n) :
      byteOf (icmpHeaderChecksum (echoUnsummed b)) k = byteOf (icmpHeaderChecksum (echoUnsummed b')) k := by
    have hread (y : Buf) : icmpSummed y (36 + k) = byteOf (icmpHeaderChecksum y) k :=
      ByteField.set_of_covers (f := icmpCheck) hk
    rw [← hread, ← hread]
    exact bytes_inj heq hn
  have hsum : echoSum b = echoSum b' := by rw [echoSum, echoSum, h38, h39]
  simp only [icmpHeaderChecksum_echo, hsum] at hbyte
  obtain ⟨h40, h40', h41⟩ | ⟨hn, h40, h41⟩ := h
  · rw [h40, h40', h41] at hbyte
    exact finish_block_byte (echoSum_lt b') _ (hbyte (by decide) (by omega))
  · rw [h40] at hbyte
    have hword := le16_ext fun k hk => hbyte hk (by omega)
    exact h41 (finish_block_inj (echoSum_lt b') hword)

/-! ### The branches of the loop body -/

/-- **A request** is answered if its address is known, in a frame of its own length. -/
theorem onArpRequest_frames (cfg : Config) (s : State) (fresh : Buf) : frames (onArpRequest cfg s fresh).2 =
    (answer cfg s.arpTable s.m.interface (tpa.get s.m.payload)).toList.map fun r =>
      (s.m.interface, bytes (replyByte s.m.payload r.2 fresh) 0 s.m.len) := by
  unfold onArpRequest
  cases answer cfg s.arpTable s.m.interface (tpa.get s.m.payload) with
  | none => rfl
  | some r => exact congrArg (fun f => [(s.m.interface, f)]) (frame_sendARPReply r.1 s.m r.2 fresh)

/-- A released packet shows the MAC it is sent to as far as it is long. -/
theorem frame_rewrite_eq_iff (mac mac' : Mac) (p : Packet) :
    (rewrite mac p).frame = (rewrite mac' p).frame ↔ mac.toList.take p.len = mac'.toList.take p.len := by
  have hread (mac : Mac) {k : ℕ} (hk : k < 6) : (rewrite mac p).payload k = mac[k] := by
    have hset := ByteField.set_of_covers (f := etherDhost) (b := decrementTtl p.payload) (a := mac) hk
    rwa [show etherDhost.off + k = k from Nat.zero_add k] at hset
  constructor
  · intro h
    refine List.ext_getElem (by simp) fun k hk _ => ?_
    simp only [List.length_take, Vector.length_toList, lt_inf_iff] at hk
    have hbyte := bytes_inj h hk.1
    rw [hread mac hk.2, hread mac' hk.2] at hbyte
    simpa using hbyte
  · intro h
    refine bytes_congr fun k _ (hk : k < 0 + p.len) => ?_
    rw [Nat.zero_add] at hk
    by_cases hmac : k < 6
    · have hbyte : (mac.toList.take p.len)[k]? = (mac'.toList.take p.len)[k]? := by rw [h]
      simp only [List.getElem?_take, hk, if_true, Vector.getElem?_toList, Vector.getElem?_eq_getElem hmac,
        Option.some.injEq] at hbyte
      rw [hread mac hmac, hread mac' hmac, hbyte]
    · have hnot : ¬ etherDhost.Covers k := fun hc => hmac hc.2
      show etherDhost.set _ mac k = etherDhost.set _ mac' k
      rw [ByteField.set_of_not_covers hnot, ByteField.set_of_not_covers hnot]

/-- The MAC of an address once the sender of a reply has been noted. -/
def macNow (arpTable : ArpTable) (reply : Buf) (ip : BitVec 32) : Mac :=
  if ip = spa.get reply then sha.get reply else macOf arpTable ip

/-- **The queue is flushed** to the MACs the table has once the reply is noted. -/
theorem onArpReply_frames (cfg : Config) (s : State) : frames (onArpReply cfg s).2 = s.q.map fun p =>
    ((findBestEntry cfg.rtable (daddr.get p.payload)).interface,
      (rewrite (macNow s.arpTable s.m.payload (daddr.get p.payload)) p).frame) := by
  have hsent : (onArpReply cfg s).2 = s.q.map (released cfg (update s.arpTable (spa.get s.m.payload)
      (some ⟨spa.get s.m.payload, sha.get s.m.payload⟩))) := flush_snd cfg s.q _
  rw [frames, hsent, List.map_map]
  refine List.map_congr_left fun p _ => ?_
  simp only [comp_apply, released, macNow, macOf, update_apply]
  split <;> rfl

/-- The packet in the buffer is not dropped. -/
def Kept (payload : Buf) : Prop := Summed payload ∧ ¬ ttl.get payload < 1

/-- What becomes of a packet for another host: it is forwarded, or its destination is asked for. -/
def onward (cfg : Config) (s : State) (fresh : Buf) : Sent :=
  let bestMatch := findBestEntry cfg.rtable (daddr.get s.m.payload)
  match s.arpTable (daddr.get s.m.payload) with
  | none => sendARPRequest cfg bestMatch (daddr.get s.m.payload) fresh
  | some entry => ⟨.forward, bestMatch.interface, rewrite entry.mac s.m⟩

/-- What the IPv4 branch sends for a packet it does not drop. -/
def ipv4Answer (cfg : Config) (s : State) (fresh : Buf) : Sent :=
  if ttl.get s.m.payload = 1 then sendICMPscratch cfg (unchecked s.m) 11 0 fresh
  else if (findBestEntry cfg.rtable (daddr.get s.m.payload)).pfx = 0 then
    sendICMPscratch cfg (unchecked s.m) 3 0 fresh
  else if ownEcho cfg s.m then ⟨.icmp, s.m.interface, sendICMPReply (unchecked s.m)⟩
  else onward cfg s fresh

/-- **A packet that is not dropped has one consequence** on the links. -/
theorem onIpv4_sent (cfg : Config) (s : State) (fresh : Buf) : (Kept s.m.payload →
    (onIpv4 cfg s fresh).2 = [ipv4Answer cfg s fresh]) ∧ (¬ Kept s.m.payload → (onIpv4 cfg s fresh).2 = []) := by
  have httl := ttl_unchecked s.m
  have hdaddr := daddr_unchecked s.m
  have hecho := ownEcho_unchecked cfg s.m
  simp only [unchecked] at httl hdaddr hecho
  simp only [onIpv4, httl, hdaddr, hecho, Kept, Summed, ipv4Answer, onward]
  by_cases hsum : headerChecksum (check.set s.m.payload 0) = check.get s.m.payload
  swap
  · rw [if_pos hsum]
    exact ⟨fun h => absurd h.1 hsum, fun _ => rfl⟩
  rw [if_neg (not_not.mpr hsum)]
  by_cases hdead : ttl.get s.m.payload < 1
  · rw [if_pos hdead]
    exact ⟨fun h => absurd hdead h.2, fun _ => rfl⟩
  rw [if_neg hdead]
  refine ⟨fun _ => ?_, fun h => absurd ⟨hsum, hdead⟩ h⟩
  split
  · rfl
  split
  · rfl
  split
  · rfl
  cases harp : s.arpTable (daddr.get s.m.payload) with
  | none => rfl
  | some entry =>
    have hrewrite := rewrite_unchecked entry.mac s.m
    simp only [unchecked] at hrewrite
    simp only [hrewrite]

/-- What is sent for a packet is a matter of its bytes, unless they stop inside the ICMP header of an echo request to
the router. -/
theorem ipv4Answer_congr {b : Buf} (hlen : 34 ≤ s.m.len) (hsame : ∀ k < s.m.len, b k = s.m.payload k)
    (hecho : ttl.get s.m.payload ≠ 1 → (findBestEntry cfg.rtable (daddr.get s.m.payload)).pfx ≠ 0 →
      ownEcho cfg { s.m with payload := b } = ownEcho cfg s.m ∧
        (ownEcho cfg s.m = true → s.m.len ≤ 36 ∨ 42 ≤ s.m.len)) (fresh fresh' : Buf) :
    frames [ipv4Answer cfg { s with m.payload := b } fresh] = frames [ipv4Answer cfg s fresh'] := by
  have hget {α : Type} (f : ByteField α) (hf : f.off + f.size ≤ 34) : f.get b = f.get s.m.payload :=
    ByteField.get_congr fun k hk => hsame k (lt_of_lt_of_le hk.2 (le_trans hf hlen))
  have hzero : ∀ k < s.m.len, check.set b 0 k = check.set s.m.payload 0 k := fun k hk =>
    ByteField.set_congr fun _ => hsame k hk
  have hscratch (type code : UInt8) : (sendICMPscratch cfg (unchecked { s.m with payload := b }) type code
      fresh).packet.frame = (sendICMPscratch cfg (unchecked s.m) type code fresh').packet.frame :=
    frame_sendICMPscratch (m := unchecked s.m) cfg (fun k hk => hzero k (by omega)) type code fresh fresh'
  simp only [ipv4Answer, onward, hget ttl (by decide), hget daddr (by decide)]
  by_cases httl : ttl.get s.m.payload = 1
  · rw [if_pos httl, if_pos httl]
    exact congrArg (fun f => [(s.m.interface, f)]) (hscratch 11 0)
  rw [if_neg httl, if_neg httl]
  by_cases hroute : (findBestEntry cfg.rtable (daddr.get s.m.payload)).pfx = 0
  · rw [if_pos hroute, if_pos hroute]
    exact congrArg (fun f => [(s.m.interface, f)]) (hscratch 3 0)
  rw [if_neg hroute, if_neg hroute]
  obtain ⟨hown, hicmp⟩ := hecho httl hroute
  rw [hown]
  split
  · rename_i hown'
    exact congrArg (fun f => [(s.m.interface, f)])
      (frame_sendICMPReply (m := unchecked s.m) hlen (hicmp hown') hzero)
  · cases s.arpTable (daddr.get s.m.payload) with
    | none => exact congrArg (fun f => [(_, f)]) (frame_sendARPRequest cfg _ _ fresh fresh')
    | some entry =>
      refine congrArg (fun f => [(_, f)]) (bytes_congr fun k _ (hk : k < 0 + s.m.len) => ?_)
      rw [Nat.zero_add] at hk
      exact ByteField.set_congr fun _ => decrementTtl_congr hlen hsame k hk

/-- Clearing the ICMP type and the checksum keeps the other fields. -/
theorem get_cleared {α : Type} {f : ByteField α} (h₁ : f.Apart icmpCode) (h₂ : f.Apart icmpType)
    (h₃ : f.Apart check) :
    f.get (icmpCode.set (icmpType.set (unchecked m).payload 0) 0) = f.get m.payload := by
  rw [ByteField.get_set_of_apart h₁, ByteField.get_set_of_apart h₂]
  exact ByteField.get_set_of_apart h₃

theorem frame_echo_eq_forward {mac : Mac} (hlen : m.len = 34) (hmac : mac = etherDhost.get m.payload)
    (httl : ttl.get m.payload = 65) (haddr : saddr.get m.payload = daddr.get m.payload) :
    (sendICMPReply (unchecked m)).frame = (rewrite mac m).frame := by
  have hforward : (rewrite mac m).payload = headerSummed (check.set (ttl.set m.payload 64) 0) := by
    have hdhost : mac = etherDhost.get (decrementTtl m.payload) :=
      hmac.trans (get_decrementTtl (by decide) (by decide) m.payload).symm
    show etherDhost.set (decrementTtl m.payload) mac = _
    rw [hdhost, etherDhost, raw_set_get, decrementTtl, httl]
    rfl
  have hagree : AgreeOn (· < 34) (echoBody (unchecked m).payload) (check.set (ttl.set m.payload 64) 0) := by
    have hsaddr := get_cleared (f := saddr) (m := m) (by decide) (by decide) (by decide)
    have hdaddr := get_cleared (f := daddr) (m := m) (by decide) (by decide) (by decide)
    -- with equal addresses the swap stores what is there
    have hswap : ∀ x : Buf, saddr.get x = daddr.get x → saddr.set (daddr.set x (saddr.get x)) (daddr.get x) = x := by
      intro x hx
      rw [hx, daddr, le32_set_get, ← daddr, ← hx, saddr, le32_set_get]
    intro k hk
    rw [echoBody, hswap _ (hsaddr.trans (haddr.trans hdaddr.symm))]
    refine ByteField.set_congr fun hnot => ByteField.set_congr fun _ => ?_
    simp (disch := (simp only [ByteField.Covers, icmpCode, icmpType, u8]; omega)) only
      [ByteField.set_of_not_covers]
    exact ByteField.set_of_not_covers hnot
  have hsummed := headerSummed_agree le_rfl hagree
  rw [sendICMPReply_eq, Packet.frame, Packet.frame, hforward]
  refine bytes_congr fun k _ (hk : k < 0 + m.len) => ?_
  rw [Nat.zero_add, hlen] at hk
  rw [← hsummed k hk]
  simp (disch := (simp only [ByteField.Covers, icmpCheck, le16]; omega)) only
    [icmpSummed, echoUnsummed, ByteField.set_of_not_covers]

/-- **When a cut echo request may as well be forwarded**: the reply in 34 bytes is the frame forwarded to `mac` exactly
when that is the MAC it came to, the TTL comes out at 64, and it is for its own sender. -/
theorem frame_echo_eq_forward_iff {mac : Mac} (hlen : m.len = 34) :
    (sendICMPReply (unchecked m)).frame = (rewrite mac m).frame ↔ mac = etherDhost.get m.payload ∧
      ttl.get m.payload = 65 ∧ saddr.get m.payload = daddr.get m.payload := by
  refine ⟨fun heq => ?_, fun ⟨hmac, httl, haddr⟩ => frame_echo_eq_forward hlen hmac httl haddr⟩
  have hget {α : Type} (f : ByteField α) (hf : f.off + f.size ≤ 34) :
      f.get (icmpSummed (echoUnsummed (unchecked m).payload)) = f.get (rewrite mac m).payload :=
    ByteField.get_congr fun k hk => bytes_inj heq (lt_of_lt_of_le hk.2 (le_trans hf (ge_of_eq hlen)))
  have hswapped {α : Type} {f : ByteField α} (h₁ : f.Apart icmpCheck) (h₂ : f.Apart check) :
      f.get (icmpSummed (echoUnsummed (unchecked m).payload)) = f.get (ttl.set (saddr.set (daddr.set
        (icmpCode.set (icmpType.set (unchecked m).payload 0) 0) (saddr.get m.payload)) (daddr.get m.payload)) 64) := by
    rw [icmpSummed, ByteField.get_set_of_apart h₁, echoUnsummed, ByteField.get_set_of_apart h₁, headerSummed,
      ByteField.get_set_of_apart h₂, echoBody, ByteField.get_set_of_apart h₂,
      get_cleared (by decide) (by decide) (by decide), get_cleared (by decide) (by decide) (by decide)]
  have hforward {α : Type} {f : ByteField α} (h : f.Apart etherDhost) :
      f.get (rewrite mac m).payload = f.get (decrementTtl m.payload) := ByteField.get_set_of_apart h
  have hdhost := hget etherDhost (by decide)
  rw [hswapped (by decide) (by decide), ByteField.get_set_of_apart (by decide), ByteField.get_set_of_apart (by decide),
    ByteField.get_set_of_apart (by decide), get_cleared (by decide) (by decide) (by decide)] at hdhost
  have httl := hget ttl (by decide)
  rw [hswapped (by decide) (by decide), ByteField.get_set, hforward (by decide), ttl_decrementTtl] at httl
  have hsaddr := hget saddr (by decide)
  rw [hswapped (by decide) (by decide), ByteField.get_set_of_apart (by decide), ByteField.get_set,
    hforward (by decide), get_decrementTtl (by decide) (by decide)] at hsaddr
  refine ⟨(hdhost.trans (ByteField.get_set etherDhost _ mac)).symm, ?_, hsaddr.symm⟩
  rw [← UInt8.sub_add_cancel (ttl.get m.payload) 1, ← httl]
  rfl

end Pcom.Pirvu.Frames
