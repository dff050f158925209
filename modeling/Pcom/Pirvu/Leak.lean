import Pcom.Pirvu.Frames

/-!
# Memory that leaves the router

A frame is read over the start of a buffer that still holds the previous one, and the frames the router builds start
from memory nobody has written.  What is sent for a frame should depend on neither.

* `Settled` — by the length of the frame: its bytes, the tables and the configuration settle what is sent;
* `sent_independent_iff` — **the exact condition** under which no such memory leaves the router;
* `padded_request_leaks` — the reply to a padded ARP request ends in bytes that were never written.
-/

namespace Pcom.Pirvu.Leak

open Function Pcom.Lib.Memory Pcom.Lib.Scan Pcom.Pirvu.RTable Pcom.Pirvu.Router Pcom.Pirvu.Frames
open Pcom.Tema1.Branches (Summed)
open Pcom.Tema1.Checksum (not_summed_of_free)
open Pcom.Tema1.Skel (MAX_LEN Mac Packet htons etherDhost etherShost etherType ttl protocol check saddr daddr icmpType
  op sha spa ETHERTYPE_IP ETHERTYPE_ARP buildEthhdr word)
open Pcom.Tema1.Router (headerChecksum_congr decrementTtl_congr)

variable {cfg : Config} {s : State} {i : Input} {b fresh : Buf}

/-! ### What is sent for a frame -/

/-- The frames sent in one turn, with `b` in the buffer before it and `fresh` in the memory of packets made in it. -/
def sent (cfg : Config) (s : State) (i : Input) (b fresh : Buf) : Option (List (ℤ × Bytes)) :=
  (step cfg { s with m.payload := b } { i with fresh := fresh }).map fun r => frames r.2

/-- What is sent is the same, whatever was in the buffer and in the memory of new packets. -/
def Independent (cfg : Config) (s : State) (i : Input) : Prop :=
  ∀ b b' fresh fresh' : Buf, sent cfg s i b fresh = sent cfg s i b' fresh'

/-! ### The condition -/

/-- An ARP request: the reply is not longer than its header, and the address asked for is in the frame or has no
bearing on the reply. -/
def RequestSettled (cfg : Config) (s : State) (i : Input) : Prop :=
  let answer := answer cfg s.arpTable i.interface
  if i.received.length < 42 then
    i.received.length ≤ 28 ∧ (∃ mac, ∀ ip, (answer ip).map Prod.snd = some mac) ∨
      ∀ b, answer (tpa.get (overwrite b i.received)) = none
  else i.received.length = 42 ∨ answer (tpa.get (ofBytes i.received)) = none

/-- An ARP reply: the sender is in the frame, or does not change what the packets of the queue look like. -/
def ReplySettled (s : State) (i : Input) : Prop :=
  32 ≤ i.received.length ∨ ∀ b, ∀ p ∈ s.q, daddr.get p.payload = spa.get (overwrite b i.received) →
    (sha.get (overwrite b i.received)).toList.take p.len =
      (macOf s.arpTable (daddr.get p.payload)).toList.take p.len

/-- The header is that of an ICMP message to the router itself. -/
structure ToRouter (cfg : Config) (interface : ℤ) (payload : Buf) : Prop where
  kept : Kept payload
  alive : ttl.get payload ≠ 1
  routed : (findBestEntry cfg.rtable (daddr.get payload)).pfx ≠ 0
  icmp : protocol.get payload = 1
  own : cfg.interfaceIp interface = daddr.get payload

/-- Forwarding such a packet gives the frame that answers it. -/
def SameEitherWay (cfg : Config) (s : State) (interface : ℤ) (payload : Buf) : Prop :=
  ∃ entry, s.arpTable (daddr.get payload) = some entry ∧ entry.mac = etherDhost.get payload ∧
    (findBestEntry cfg.rtable (daddr.get payload)).interface = interface ∧ ttl.get payload = 65 ∧
      saddr.get payload = daddr.get payload

/-- IPv4: the header is in the frame or never passes the tests, and an ICMP message to the router has its type in the
frame and is not cut off behind the place of its checksum. -/
def Ipv4Settled (cfg : Config) (s : State) (i : Input) : Prop :=
  let payload := ofBytes i.received
  if i.received.length < 34 then ∀ b, ¬ Kept (overwrite b i.received)
  else if i.received.length = 34 then
    ToRouter cfg i.interface payload → SameEitherWay cfg s i.interface payload
  else if 37 ≤ i.received.length ∧ i.received.length < 42 then
    ToRouter cfg i.interface payload → icmpType.get payload ≠ 8
  else True

/-- The received bytes settle what is sent. -/
def Settled (cfg : Config) (s : State) (i : Input) : Prop :=
  let payload := ofBytes i.received
  if i.received.length < 14 then i.received.length = 13 ∧ payload 12 ≠ 8
  else if etherType.get payload = htons ETHERTYPE_ARP then
    if i.received.length < 22 then i.received.length = 21 ∧ payload 20 ≠ 0
    else if op.get payload = htons ARP_REQUEST_CODE then RequestSettled cfg s i
    else if op.get payload = htons ARP_REPLY_CODE then ReplySettled s i
    else True
  else if etherType.get payload = htons ETHERTYPE_IP then Ipv4Settled cfg s i
  else True

/-! ### The branches of the loop body -/

/-- The state in which a frame has been read. -/
def reading (s : State) (i : Input) (b : Buf) : State := getPacket { s with m.payload := b } i

theorem sent_of_neither (harp : etherType.get (overwrite b i.received) ≠ htons ETHERTYPE_ARP)
    (hip : etherType.get (overwrite b i.received) ≠ htons ETHERTYPE_IP) : sent cfg s i b fresh = some [] := by
  have hstep : handle cfg (reading s i b) fresh = (reading s i b, []) := (if_neg harp).trans (if_neg hip)
  show some (frames (handle cfg (reading s i b) fresh).2) = some []
  rw [hstep]
  rfl

theorem sent_of_op (harp : etherType.get (overwrite b i.received) = htons ETHERTYPE_ARP)
    (hreq : op.get (overwrite b i.received) ≠ htons ARP_REQUEST_CODE)
    (hrep : op.get (overwrite b i.received) ≠ htons ARP_REPLY_CODE) : sent cfg s i b fresh = some [] := by
  have hstep : handle cfg (reading s i b) fresh = (reading s i b, []) :=
    (if_pos harp).trans ((if_neg hreq).trans (if_neg hrep))
  show some (frames (handle cfg (reading s i b) fresh).2) = some []
  rw [hstep]
  rfl

/-- **A request** is answered if its address is known, in a frame of its own length. -/
theorem sent_of_request (harp : etherType.get (overwrite b i.received) = htons ETHERTYPE_ARP)
    (hop : op.get (overwrite b i.received) = htons ARP_REQUEST_CODE) : sent cfg s i b fresh =
    some ((answer cfg s.arpTable i.interface (tpa.get (overwrite b i.received))).toList.map fun r =>
      (i.interface, bytes (replyByte (overwrite b i.received) r.2 fresh) 0 i.received.length)) := by
  have hstep : handle cfg (reading s i b) fresh = onArpRequest cfg (reading s i b) fresh :=
    (if_pos harp).trans (if_pos hop)
  show some (frames (handle cfg (reading s i b) fresh).2) = _
  rw [hstep, onArpRequest_frames]
  rfl

theorem sent_of_reply (harp : etherType.get (overwrite b i.received) = htons ETHERTYPE_ARP)
    (hop : op.get (overwrite b i.received) = htons ARP_REPLY_CODE) : sent cfg s i b fresh =
    some (s.q.map fun p => ((findBestEntry cfg.rtable (daddr.get p.payload)).interface,
      (rewrite (macNow s.arpTable (overwrite b i.received) (daddr.get p.payload)) p).frame)) := by
  have hnot : op.get (overwrite b i.received) ≠ htons ARP_REQUEST_CODE := by
    rw [hop]
    decide
  have hstep : handle cfg (reading s i b) fresh = onArpReply cfg (reading s i b) :=
    (if_pos harp).trans ((if_neg hnot).trans (if_pos hop))
  show some (frames (handle cfg (reading s i b) fresh).2) = _
  rw [hstep, onArpReply_frames]
  rfl

/-- **A packet that is not dropped has one consequence.** -/
theorem sent_of_ipv4 (hip : etherType.get (overwrite b i.received) = htons ETHERTYPE_IP) :
    (Kept (overwrite b i.received) →
      sent cfg s i b fresh = some (frames [ipv4Answer cfg (reading s i b) fresh])) ∧
    (¬ Kept (overwrite b i.received) → sent cfg s i b fresh = some []) := by
  have hnot : etherType.get (overwrite b i.received) ≠ htons ETHERTYPE_ARP := by
    rw [hip]
    decide
  have hstep : handle cfg (reading s i b) fresh = onIpv4 cfg (reading s i b) fresh :=
    (if_neg hnot).trans (if_pos hip)
  have hsent : sent cfg s i b fresh = some (frames (onIpv4 cfg (reading s i b) fresh).2) := by
    rw [← hstep]
    rfl
  obtain ⟨hkept, hdropped⟩ := onIpv4_sent cfg (reading s i b) fresh
  rw [hsent]
  exact ⟨fun h => by rw [hkept h], fun h => by rw [hdropped h]; rfl⟩

/-- Nothing is sent with one memory, and something with another. -/
theorem not_independent_of_sent {b' fresh' : Buf} {f : ℤ × Bytes} (hsome : sent cfg s i b fresh = some [f])
    (hnone : sent cfg s i b' fresh' = some []) : ¬ Independent cfg s i := fun hind => by
  have heq := hind b b' fresh fresh'
  rw [hsome, hnone] at heq
  cases heq

/-! ### Bytes behind the frame -/

/-- What behind a short frame makes it an ARP request for an address. -/
def asking (ip : BitVec 32) : Buf := fun k =>
  if k = 12 then 8 else if k = 13 then 6 else if k = 21 then 1 else if 38 ≤ k then byteOf ip (k - 38) else 0

variable {frame : Bytes}

/-- A byte is what it should be if it is behind the frame or was received so. -/
theorem overwrite_eq {k : ℕ} (h : k < frame.length → ofBytes frame k = b k) : overwrite b frame k = b k := by
  by_cases hk : k < frame.length
  · rw [overwrite_eq_ofBytes hk, h hk]
  · exact overwrite_of_le (not_lt.mp hk)

theorem tpa_asking (hlen : frame.length ≤ 38) (ip : BitVec 32) : tpa.get (overwrite (asking ip) frame) = ip := by
  refine le32_get_eq fun k hk => ?_
  rw [overwrite_of_le (by omega), asking, if_neg (by omega), if_neg (by omega), if_neg (by omega),
    if_pos (by omega), Nat.add_sub_cancel_left]

theorem answer_own (cfg : Config) (arpTable : ArpTable) (interface : ℤ) :
    answer cfg arpTable interface (cfg.interfaceIp interface) = some (.ownReply, cfg.interfaceMac interface) :=
  if_pos rfl

/-- A frame that can be read as a request for the address of the router is answered. -/
theorem sent_of_asking (cfg : Config) (s : State) (fresh : Buf) (hlen : i.received.length < 22)
    (harp : etherType.get (overwrite (asking (cfg.interfaceIp i.interface)) i.received) = htons ETHERTYPE_ARP)
    (h20 : 20 < i.received.length → ofBytes i.received 20 = 0) :
    ∃ f, sent cfg s i (asking (cfg.interfaceIp i.interface)) fresh = some [f] := by
  have hop : op.get (overwrite (asking (cfg.interfaceIp i.interface)) i.received) = htons ARP_REQUEST_CODE :=
    le16_get_eq (overwrite_eq h20) (overwrite_of_le (by omega))
  rw [sent_of_request harp hop, tpa_asking (by omega), answer_own]
  exact ⟨_, rfl⟩

theorem not_independent_of_type (hlen : i.received.length < 14)
    (h8 : 12 < i.received.length → ofBytes i.received 12 = 8) : ¬ Independent cfg s i := by
  have harp : etherType.get (overwrite (asking (cfg.interfaceIp i.interface)) i.received) = htons ETHERTYPE_ARP :=
    le16_get_eq (overwrite_eq h8) (overwrite_of_le (by omega))
  obtain ⟨f, hf⟩ := sent_of_asking cfg s (fun _ => 0) (by omega) harp fun h => absurd h (by omega)
  have htype {w : BitVec 16} (hw : byteOf w 1 ≠ 0xff) : etherType.get (overwrite (fun _ => 0xff) i.received) ≠ w := by
    rintro rfl
    refine hw ((byteOf_le16 12 _ (by decide)).trans ?_)
    exact overwrite_of_le (by omega)
  have hnone : sent cfg s i (fun _ => 0xff) (fun _ => 0) = some [] :=
    sent_of_neither (htype (by decide)) (htype (by decide))
  exact not_independent_of_sent hf hnone

theorem not_independent_of_op (hlen : i.received.length < 22)
    (harp : ∀ b, etherType.get (overwrite b i.received) = htons ETHERTYPE_ARP)
    (h20 : 20 < i.received.length → ofBytes i.received 20 = 0) : ¬ Independent cfg s i := by
  obtain ⟨f, hf⟩ := sent_of_asking cfg s (fun _ => 0) hlen (harp _) h20
  have hop {w : BitVec 16} (hw : byteOf w 1 ≠ 0xff) : op.get (overwrite (fun _ => 0xff) i.received) ≠ w := by
    rintro rfl
    refine hw ((byteOf_le16 20 _ (by decide)).trans ?_)
    exact overwrite_of_le (by omega)
  have hnone : sent cfg s i (fun _ => 0xff) (fun _ => 0) = some [] :=
    sent_of_op (harp _) (hop (by decide)) (hop (by decide))
  exact not_independent_of_sent hf hnone

/-! ### ARP requests -/

/-- The part of a reply that a frame of this length shows is a matter of the frame. -/
theorem replyByte_congr {request request' fresh fresh' : Buf} {n k : ℕ} (hlo : 22 ≤ n) (hn : n ≤ 28 ∨ n = 42)
    (h : ∀ j < n, request j = request' j) (mac : Mac) (hk : k < n) :
    replyByte request mac fresh k = replyByte request' mac fresh' k := by
  unfold replyByte
  split_ifs
  all_goals first | rfl | exact h _ (by omega) | omega

section Request

variable (harp : ∀ b, etherType.get (overwrite b i.received) = htons ETHERTYPE_ARP)
  (hop : ∀ b, op.get (overwrite b i.received) = htons ARP_REQUEST_CODE)
include harp hop

theorem independent_of_unanswered
    (hnone : ∀ b, answer cfg s.arpTable i.interface (tpa.get (overwrite b i.received)) = none) :
    Independent cfg s i := by
  intro b b' fresh fresh'
  rw [sent_of_request (harp b) (hop b), sent_of_request (harp b') (hop b'), hnone b, hnone b']
  rfl

/-- The reply is the same if its MAC is and the frame shows no stale byte. -/
theorem independent_of_answered (hlo : 22 ≤ i.received.length)
    (hn : i.received.length ≤ 28 ∨ i.received.length = 42)
    (hmac : ∃ mac, ∀ b, (answer cfg s.arpTable i.interface (tpa.get (overwrite b i.received))).map Prod.snd = mac) :
    Independent cfg s i := by
  obtain ⟨mac, hmac⟩ := hmac
  have hsent (b fresh : Buf) : sent cfg s i b fresh = some (mac.toList.map fun mac =>
      (i.interface, bytes (replyByte (overwrite b i.received) mac fresh) 0 i.received.length)) := by
    rw [sent_of_request (harp b) (hop b), ← hmac b]
    cases answer cfg s.arpTable i.interface (tpa.get (overwrite b i.received)) <;> rfl
  intro b b' fresh fresh'
  rw [hsent, hsent]
  refine congrArg some (List.map_congr_left fun mac _ => congrArg _ (bytes_congr fun k _ hk => ?_))
  exact replyByte_congr hlo hn (overwrite_same b b' _) mac (by omega)

/-- If what is sent is independent, a reply to one memory is a reply to all, byte for byte. -/
theorem reply_of_independent (hind : Independent cfg s i) {r : Origin × Mac}
    (hans : answer cfg s.arpTable i.interface (tpa.get (overwrite b i.received)) = some r) (fresh : Buf)
    (b' fresh' : Buf) : ∃ r', answer cfg s.arpTable i.interface (tpa.get (overwrite b' i.received)) = some r' ∧
      ∀ k < i.received.length, replyByte (overwrite b i.received) r.2 fresh k =
        replyByte (overwrite b' i.received) r'.2 fresh' k := by
  have heq := hind b b' fresh fresh'
  rw [sent_of_request (harp b) (hop b), sent_of_request (harp b') (hop b'), hans] at heq
  cases hans' : answer cfg s.arpTable i.interface (tpa.get (overwrite b' i.received)) with
  | none =>
    rw [hans'] at heq
    simp at heq
  | some r' =>
    rw [hans'] at heq
    simp only [Option.toList_some, List.map_cons, List.map_nil, Option.some.injEq, List.cons.injEq, and_true,
      Prod.mk.injEq, true_and] at heq
    exact ⟨r', rfl, fun k hk => bytes_inj heq hk⟩

/-- Behind the header, the reply shows what was in the memory of its packet. -/
theorem answer_none_of_long (hlen : 42 < i.received.length) (hind : Independent cfg s i) :
    answer cfg s.arpTable i.interface (tpa.get (ofBytes i.received)) = none := by
  have htpa : tpa.get (overwrite (fun _ => 0) i.received) = tpa.get (ofBytes i.received) :=
    ByteField.get_overwrite (le_of_lt hlen)
  rw [← htpa]
  refine Option.eq_none_iff_forall_ne_some.mpr fun r hans => ?_
  obtain ⟨r', -, hbytes⟩ := reply_of_independent harp hop hind hans (fun _ => 0) (fun _ => 0) fun _ => 1
  have hbyte := hbytes 42 hlen
  simp [replyByte] at hbyte

/-- A reply of 29 to 41 bytes shows bytes of the address asked for that have not been received. -/
theorem answer_none_of_cut (hlo : 29 ≤ i.received.length) (hlen : i.received.length < 42)
    (hind : Independent cfg s i) (b : Buf) :
    answer cfg s.arpTable i.interface (tpa.get (overwrite b i.received)) = none := by
  refine Option.eq_none_iff_forall_ne_some.mpr fun r hans => ?_
  -- a byte of the address behind the frame, which the reply repeats ten places further to the front
  obtain ⟨j, hj, hstale, hshown⟩ : ∃ j, (38 ≤ j ∧ j < 42) ∧ i.received.length ≤ j ∧ j < i.received.length + 10 := by
    by_cases h38 : i.received.length ≤ 38
    · exact ⟨38, by omega⟩
    · exact ⟨41, by omega⟩
  obtain ⟨r', -, hbytes⟩ := reply_of_independent harp hop hind hans (fun _ => 0) (update b j (b j + 1)) fun _ => 0
  have hbyte := hbytes (j - 10) (by omega)
  have hread (request fresh : Buf) (mac : Mac) : replyByte request mac fresh (j - 10) = request j := by
    rw [replyByte, if_neg (by omega), if_neg (by omega), if_neg (by omega), if_neg (by omega),
      if_neg (by omega), if_pos (by omega)]
    exact congrArg request (by omega)
  rw [hread, hread, overwrite_of_le hstale, overwrite_of_le hstale, update_self] at hbyte
  exact absurd hbyte (by simp)

/-- The address asked for is behind a frame of at most 38 bytes: all are answered as the own one. -/
theorem answer_of_short (hlo : 22 ≤ i.received.length) (hlen : i.received.length ≤ 38)
    (hind : Independent cfg s i) (ip : BitVec 32) :
    (answer cfg s.arpTable i.interface ip).map Prod.snd = some (cfg.interfaceMac i.interface) := by
  have hown : answer cfg s.arpTable i.interface
      (tpa.get (overwrite (asking (cfg.interfaceIp i.interface)) i.received)) =
      some (.ownReply, cfg.interfaceMac i.interface) := by
    rw [tpa_asking hlen, answer_own]
  obtain ⟨r, hans, hbytes⟩ := reply_of_independent harp hop hind hown (fun _ => 0) (asking ip) fun _ => 0
  rw [tpa_asking hlen] at hans
  rw [hans, Option.map_some, Option.some.injEq]
  refine Vector.ext fun k hk => ?_
  have hread (request fresh : Buf) (mac : Mac) : replyByte request mac fresh (6 + k) = mac[k] := by
    rw [replyByte, if_neg (by omega), if_pos (by omega), Nat.add_sub_cancel_left]
    simp [hk]
  have hbyte := hbytes (6 + k) (by omega)
  rw [hread, hread] at hbyte
  exact hbyte.symm

/-- **The exact condition for ARP requests.** -/
theorem independent_request_iff (hlo : 22 ≤ i.received.length) :
    Independent cfg s i ↔ RequestSettled cfg s i := by
  unfold RequestSettled
  constructor
  · intro hind
    split
    · rename_i hlt
      by_cases h28 : i.received.length ≤ 28
      · exact Or.inl ⟨h28, _, answer_of_short harp hop hlo (by omega) hind⟩
      · exact Or.inr (answer_none_of_cut harp hop (by omega) hlt hind)
    · rename_i hge
      rcases eq_or_lt_of_le (not_lt.mp hge) with heq | hlong
      · exact Or.inl heq.symm
      · exact Or.inr (answer_none_of_long harp hop hlong hind)
  · split
    · rintro (⟨h28, mac, hmac⟩ | hnone)
      · exact independent_of_answered harp hop hlo (Or.inl h28) ⟨_, fun b => hmac _⟩
      · exact independent_of_unanswered harp hop hnone
    · rename_i hge
      have htpa (b : Buf) : tpa.get (overwrite b i.received) = tpa.get (ofBytes i.received) :=
        ByteField.get_overwrite (not_lt.mp hge)
      rintro (h42 | hnone)
      · exact independent_of_answered harp hop hlo (Or.inr h42) ⟨_, fun b => by rw [htpa b]⟩
      · exact independent_of_unanswered harp hop fun b => by rw [htpa b, hnone]

end Request

/-! ### ARP replies -/

/-- **The exact condition for ARP replies.** -/
theorem independent_reply_iff (harp : ∀ b, etherType.get (overwrite b i.received) = htons ETHERTYPE_ARP)
    (hop : ∀ b, op.get (overwrite b i.received) = htons ARP_REPLY_CODE) :
    Independent cfg s i ↔ ReplySettled s i := by
  have hshown : Independent cfg s i ↔ ∀ b b' : Buf, ∀ p ∈ s.q,
      (macNow s.arpTable (overwrite b i.received) (daddr.get p.payload)).toList.take p.len =
        (macNow s.arpTable (overwrite b' i.received) (daddr.get p.payload)).toList.take p.len := by
    have hpair (b b' fresh fresh' : Buf) : sent cfg s i b fresh = sent cfg s i b' fresh' ↔ ∀ p ∈ s.q,
        (macNow s.arpTable (overwrite b i.received) (daddr.get p.payload)).toList.take p.len =
          (macNow s.arpTable (overwrite b' i.received) (daddr.get p.payload)).toList.take p.len := by
      rw [sent_of_reply (harp b) (hop b), sent_of_reply (harp b') (hop b'), Option.some.injEq, List.map_inj_left]
      simp only [Prod.mk.injEq, true_and, frame_rewrite_eq_iff]
    exact ⟨fun hind b b' => (hpair b b' b b).mp (hind b b' b b), fun h b b' fresh fresh' =>
      (hpair b b' fresh fresh').mpr (h b b')⟩
  rw [hshown, ReplySettled]
  constructor
  · intro hall
    refine or_iff_not_imp_left.mpr fun hshort b p hp hd => ?_
    -- the sender ends behind the frame, so that it may be another one
    have hlast (b : Buf) : byteOf (spa.get (overwrite b i.received)) 3 = b 31 :=
      (byteOf_le32 28 _ (by decide)).trans (overwrite_of_le (by omega))
    have hother : daddr.get p.payload ≠ spa.get (overwrite (update b 31 (b 31 + 1)) i.received) := by
      rw [hd]
      intro heq
      have hbyte := congrArg (byteOf · 3) heq
      simp only [hlast, update_self] at hbyte
      exact absurd hbyte (by simp)
    have heq := hall b (update b 31 (b 31 + 1)) p hp
    rwa [macNow, if_pos hd, macNow, if_neg hother] at heq
  · rintro (hlong | hstale) b b' p hp
    · have hget {α : Type} (f : ByteField α) (hf : f.off + f.size ≤ 32) :
          f.get (overwrite b i.received) = f.get (overwrite b' i.received) :=
        ByteField.get_congr fun k hk => overwrite_same b b' _ k (lt_of_lt_of_le hk.2 (le_trans hf hlong))
      rw [macNow, macNow, hget spa (by decide), hget sha (by decide)]
    · have hsame (b : Buf) : (macNow s.arpTable (overwrite b i.received) (daddr.get p.payload)).toList.take p.len =
          (macOf s.arpTable (daddr.get p.payload)).toList.take p.len := by
        unfold macNow
        split
        · rename_i hd
          exact hstale b p hp hd
        · rfl
      rw [hsame, hsame]

/-! ### IPv4 -/

/-- A field of the header is in a frame of at least 34 bytes. -/
theorem get_header {α : Type} (hlen : 34 ≤ i.received.length) (f : ByteField α) (hf : f.off + f.size ≤ 34) (b : Buf) :
    f.get (overwrite b i.received) = f.get (ofBytes i.received) :=
  ByteField.get_overwrite (le_trans hf hlen)

theorem kept_iff (hlen : 34 ≤ i.received.length) (b : Buf) :
    Kept (overwrite b i.received) ↔ Kept (ofBytes i.received) := by
  have hhdr : ∀ k, 14 ≤ k → k < 34 → overwrite b i.received k = ofBytes i.received k := fun k _ hk =>
    overwrite_eq_ofBytes (by omega)
  rw [Kept, Kept, Summed, Summed, headerChecksum_congr hhdr, get_header hlen check (by decide),
    get_header hlen ttl (by decide)]

theorem ownEcho_reading (hlen : 34 ≤ i.received.length) (b : Buf) : ownEcho cfg (reading s i b).m = true ↔
    protocol.get (ofBytes i.received) = 1 ∧ icmpType.get (overwrite b i.received) = 8 ∧
      cfg.interfaceIp i.interface = daddr.get (ofBytes i.received) := by
  rw [← get_header hlen protocol (by decide) b, ← get_header hlen daddr (by decide) b]
  exact decide_eq_true_iff

section Ipv4

variable (hip : ∀ b, etherType.get (overwrite b i.received) = htons ETHERTYPE_IP)
include hip

theorem independent_of_dropped (hdrop : ∀ b, ¬ Kept (overwrite b i.received)) : Independent cfg s i := by
  intro b b' fresh fresh'
  rw [(sent_of_ipv4 (hip b)).2 (hdrop b), (sent_of_ipv4 (hip b')).2 (hdrop b')]

/-- A header that stale bytes complete is dropped with others. -/
theorem not_independent_of_kept (hlen : i.received.length < 34) (hkept : Kept (overwrite b i.received)) :
    ¬ Independent cfg s i := by
  have hbad : ¬ Kept (overwrite (update b 33 (b 33 + 1)) i.received) := fun h =>
    not_summed_of_free hlen hkept.1 h.1
  have hnone : sent cfg s i (update b 33 (b 33 + 1)) (fun _ => 0) = some [] := (sent_of_ipv4 (hip _)).2 hbad
  have hsome : sent cfg s i b (fun _ => 0) = some (frames [ipv4Answer cfg (reading s i b) fun _ => 0]) :=
    (sent_of_ipv4 (hip b)).1 hkept
  exact not_independent_of_sent hsome hnone

/-- What two memories lead to, for a packet that is not dropped. -/
theorem answers_of_independent (hlen : 34 ≤ i.received.length) (hkept : Kept (ofBytes i.received))
    (hind : Independent cfg s i) (b b' fresh fresh' : Buf) :
    frames [ipv4Answer cfg (reading s i b) fresh] = frames [ipv4Answer cfg (reading s i b') fresh'] := by
  have heq := hind b b' fresh fresh'
  rw [(sent_of_ipv4 (hip b)).1 ((kept_iff hlen b).mpr hkept),
    (sent_of_ipv4 (hip b')).1 ((kept_iff hlen b').mpr hkept), Option.some.injEq] at heq
  exact heq

theorem independent_of_answers (hlen : 34 ≤ i.received.length)
    (h : Kept (ofBytes i.received) → ∀ b b' fresh fresh' : Buf,
      frames [ipv4Answer cfg (reading s i b) fresh] = frames [ipv4Answer cfg (reading s i b') fresh']) :
    Independent cfg s i := by
  by_cases hkept : Kept (ofBytes i.received)
  · intro b b' fresh fresh'
    rw [(sent_of_ipv4 (hip b)).1 ((kept_iff hlen b).mpr hkept),
      (sent_of_ipv4 (hip b')).1 ((kept_iff hlen b').mpr hkept), h hkept b b' fresh fresh']
  · exact independent_of_dropped hip fun b hb => hkept ((kept_iff hlen b).mp hb)

/-- A packet is decided if it is no ICMP message to the router, or one whose type and checksum are in the frame. -/
theorem independent_of_decided (hlen : 34 ≤ i.received.length)
    (h : ToRouter cfg i.interface (ofBytes i.received) → 35 ≤ i.received.length ∧
      (icmpType.get (ofBytes i.received) = 8 → i.received.length ≤ 36 ∨ 42 ≤ i.received.length)) :
    Independent cfg s i := by
  refine independent_of_answers hip hlen fun hkept b b' fresh fresh' => ?_
  refine ipv4Answer_congr (s := reading s i b') hlen (overwrite_same b b' _) (fun httl hroute => ?_) fresh fresh'
  have httl' : ttl.get (ofBytes i.received) ≠ 1 := by
    rw [← get_header hlen ttl (by decide) b']
    exact httl
  have hroute' : (findBestEntry cfg.rtable (daddr.get (ofBytes i.received))).pfx ≠ 0 := by
    rw [← get_header hlen daddr (by decide) b']
    exact hroute
  show ownEcho cfg (reading s i b).m = ownEcho cfg (reading s i b').m ∧
    (ownEcho cfg (reading s i b').m = true → i.received.length ≤ 36 ∨ 42 ≤ i.received.length)
  rw [Bool.eq_iff_iff, ownEcho_reading hlen, ownEcho_reading hlen]
  by_cases hto : protocol.get (ofBytes i.received) = 1 ∧
      cfg.interfaceIp i.interface = daddr.get (ofBytes i.received)
  · obtain ⟨h35, hicmp⟩ := h ⟨hkept, httl', hroute', hto.1, hto.2⟩
    have htype (b : Buf) : icmpType.get (overwrite b i.received) = icmpType.get (ofBytes i.received) :=
      ByteField.get_overwrite h35
    rw [htype, htype]
    exact ⟨Iff.rfl, fun hecho => hicmp hecho.2.1⟩
  · exact ⟨iff_of_false (fun hc => hto ⟨hc.1, hc.2.2⟩) (fun hc => hto ⟨hc.1, hc.2.2⟩),
      fun hc => absurd ⟨hc.1, hc.2.2⟩ hto⟩

end Ipv4

/-- An ICMP message to the router is answered if it is an echo request, and goes its way otherwise. -/
theorem ipv4Answer_toRouter (hlen : 34 ≤ i.received.length) (hto : ToRouter cfg i.interface (ofBytes i.received))
    (b fresh : Buf) : ipv4Answer cfg (reading s i b) fresh =
    if icmpType.get (overwrite b i.received) = 8 then
      ⟨.icmp, i.interface, sendICMPReply (unchecked (reading s i b).m)⟩
    else onward cfg (reading s i b) fresh := by
  have httl : ttl.get (reading s i b).m.payload = ttl.get (ofBytes i.received) := get_header hlen ttl (by decide) b
  have hdaddr : daddr.get (reading s i b).m.payload = daddr.get (ofBytes i.received) :=
    get_header hlen daddr (by decide) b
  rw [ipv4Answer, httl, if_neg hto.alive, hdaddr, if_neg hto.routed]
  by_cases h8 : icmpType.get (overwrite b i.received) = 8
  · rw [if_pos h8, if_pos ((ownEcho_reading hlen b).mpr ⟨hto.icmp, h8, hto.own⟩)]
    rfl
  · rw [if_neg h8, if_neg fun hecho => h8 ((ownEcho_reading hlen b).mp hecho).2.1]

theorem onward_some (hlen : 34 ≤ i.received.length) {entry : ArpEntry}
    (harp : s.arpTable (daddr.get (ofBytes i.received)) = some entry) (b fresh : Buf) :
    onward cfg (reading s i b) fresh = ⟨.forward,
      (findBestEntry cfg.rtable (daddr.get (ofBytes i.received))).interface, rewrite entry.mac (reading s i b).m⟩ := by
  have hdaddr : daddr.get (reading s i b).m.payload = daddr.get (ofBytes i.received) :=
    get_header hlen daddr (by decide) b
  have htable : (reading s i b).arpTable (daddr.get (ofBytes i.received)) = some entry := harp
  simp only [onward, hdaddr, htable]

theorem onward_none (hlen : 34 ≤ i.received.length) (harp : s.arpTable (daddr.get (ofBytes i.received)) = none)
    (b fresh : Buf) : (onward cfg (reading s i b) fresh).packet.len = 42 := by
  have hdaddr : daddr.get (reading s i b).m.payload = daddr.get (ofBytes i.received) :=
    get_header hlen daddr (by decide) b
  have htable : (reading s i b).arpTable (daddr.get (ofBytes i.received)) = none := harp
  simp only [onward, hdaddr, htable, sendARPRequest]

/-- A complete header is rewritten in the same way. -/
theorem rewrite_reading (hlen : 34 ≤ i.received.length) (b b' : Buf) (mac : Mac) :
    (rewrite mac (reading s i b).m).frame = (rewrite mac (reading s i b').m).frame := by
  refine bytes_congr fun k _ (hk : k < 0 + i.received.length) => ByteField.set_congr fun _ => ?_
  rw [Nat.zero_add] at hk
  exact decrementTtl_congr hlen (overwrite_same b b' _) k hk

/-! ### ICMP messages to the router -/

section ToRouter

variable (hip : ∀ b, etherType.get (overwrite b i.received) = htons ETHERTYPE_IP)
include hip

/-- **The type is behind a frame of 34 bytes**: the packet is answered or goes its way, and the two must agree. -/
theorem sameEitherWay_of_independent (hlen : i.received.length = 34)
    (hto : ToRouter cfg i.interface (ofBytes i.received)) (hind : Independent cfg s i) :
    SameEitherWay cfg s i.interface (ofBytes i.received) := by
  have htype (x : UInt8) : icmpType.get (overwrite (fun _ => x) i.received) = x :=
    overwrite_of_le (b := fun _ => x) (le_of_eq hlen)
  have heq := answers_of_independent hip (ge_of_eq hlen) hto.kept hind (fun _ => 8) (fun _ => 0) (fun _ => 0)
    fun _ => 0
  rw [ipv4Answer_toRouter (ge_of_eq hlen) hto, ipv4Answer_toRouter (ge_of_eq hlen) hto, if_pos (htype 8),
    if_neg (by rw [htype]; decide)] at heq
  simp only [frames, List.map_cons, List.map_nil, List.cons.injEq, Prod.mk.injEq, and_true] at heq
  obtain ⟨hinterface, hframe⟩ := heq
  cases harp : s.arpTable (daddr.get (ofBytes i.received)) with
  | none =>
    have hlength := congrArg List.length hframe
    rw [Packet.frame, Packet.frame, onward_none (ge_of_eq hlen) harp] at hlength
    simp only [bytes, List.length_map, List.length_range] at hlength
    exact absurd (hlen.symm.trans hlength) (by decide)
  | some entry =>
    rw [onward_some (ge_of_eq hlen) harp] at hinterface hframe
    rw [rewrite_reading (ge_of_eq hlen) (fun _ => 0) fun _ => 8] at hframe
    obtain ⟨hmac, httl, haddr⟩ := (frame_echo_eq_forward_iff hlen).mp hframe
    have hread {α : Type} (f : ByteField α) (hf : f.off + f.size ≤ 34) :
        f.get (reading s i fun _ => 8).m.payload = f.get (ofBytes i.received) :=
      get_header (ge_of_eq hlen) f hf _
    rw [hread etherDhost (by decide)] at hmac
    rw [hread ttl (by decide)] at httl
    rw [hread saddr (by decide), hread daddr (by decide)] at haddr
    exact ⟨entry, harp, hmac, hinterface.symm, httl, haddr⟩

theorem independent_of_sameEitherWay (hlen : i.received.length = 34)
    (hto : ToRouter cfg i.interface (ofBytes i.received))
    (hsame : SameEitherWay cfg s i.interface (ofBytes i.received)) : Independent cfg s i := by
  obtain ⟨entry, harp, hmac, hinterface, httl, haddr⟩ := hsame
  have hforward (b fresh : Buf) : frames [ipv4Answer cfg (reading s i b) fresh] =
      [(i.interface, (rewrite entry.mac (reading s i b).m).frame)] := by
    have hread {α : Type} (f : ByteField α) (hf : f.off + f.size ≤ 34) :
        f.get (reading s i b).m.payload = f.get (ofBytes i.received) := get_header (ge_of_eq hlen) f hf b
    have hecho : (sendICMPReply (unchecked (reading s i b).m)).frame = (rewrite entry.mac (reading s i b).m).frame := by
      refine (frame_echo_eq_forward_iff hlen).mpr ⟨?_, ?_, ?_⟩
      · rw [hread etherDhost (by decide), hmac]
      · rw [hread ttl (by decide), httl]
      · rw [hread saddr (by decide), hread daddr (by decide), haddr]
    rw [ipv4Answer_toRouter (ge_of_eq hlen) hto, onward_some (ge_of_eq hlen) harp]
    split
    · exact congrArg (fun f => [(i.interface, f)]) hecho
    · rw [hinterface]
      rfl
  refine independent_of_answers hip (ge_of_eq hlen) fun _ b b' fresh fresh' => ?_
  rw [hforward, hforward, rewrite_reading (ge_of_eq hlen) b b']

/-- **The checksum of a reply cut off behind its place** is a matter of bytes that have not been received. -/
theorem not_independent_of_echo (hlo : 37 ≤ i.received.length) (hhi : i.received.length < 42)
    (hto : ToRouter cfg i.interface (ofBytes i.received)) (h8 : icmpType.get (ofBytes i.received) = 8) :
    ¬ Independent cfg s i := by
  intro hind
  have htype (b : Buf) : icmpType.get (overwrite b i.received) = 8 :=
    (ByteField.get_overwrite (le_trans (by decide) hlo)).trans h8
  have hanswer (b fresh : Buf) : frames [ipv4Answer cfg (reading s i b) fresh] =
      [(i.interface, bytes (icmpSummed (echoUnsummed (unchecked (reading s i b).m).payload)) 0 i.received.length)] := by
    rw [ipv4Answer_toRouter (by omega) hto, if_pos (htype b)]
    rfl
  have hbyte (b : Buf) {k : ℕ} (hk : 38 ≤ k) : (unchecked (reading s i b).m).payload k = overwrite b i.received k :=
    ByteField.set_of_not_covers fun hc => absurd hc.2 (Nat.not_lt.mpr (le_trans (by decide) hk))
  have hdiffer (b b' : Buf) := answers_of_independent hip (by omega) hto.kept hind b b' (fun _ => 0) fun _ => 0
  have hother (b : Buf) (x : UInt8) {j k : ℕ} (hk : k ≠ j) :
      overwrite (update b j x) i.received k = overwrite b i.received k := by
    rw [overwrite, overwrite, update_of_ne hk]
  simp only [hanswer, List.cons.injEq, Prod.mk.injEq, true_and, and_true] at hdiffer
  -- one of the last two bytes of the header is behind the frame
  by_cases h41 : i.received.length = 41
  · refine frame_sendICMPReply_ne hlo ?_ ?_ (Or.inr ⟨by omega, ?_, ?_⟩)
      (hdiffer (fun _ => 0) (update (fun _ => 0) 41 1))
    · rw [hbyte _ (by decide), hbyte _ (by decide), hother _ _ (by decide)]
    · rw [hbyte _ (by decide), hbyte _ (by decide), hother _ _ (by decide)]
    · rw [hbyte _ (by decide), hbyte _ (by decide), hother _ _ (by decide)]
    · rw [hbyte _ (by decide), hbyte _ (by decide), overwrite_of_le (le_of_eq h41), overwrite_of_le (le_of_eq h41),
        update_self]
      decide
  · refine frame_sendICMPReply_ne hlo ?_ ?_ (Or.inl ⟨?_, ?_, ?_⟩) (hdiffer (fun _ => 0) (update (fun _ => 0) 40 1))
    · rw [hbyte _ (by decide), hbyte _ (by decide), hother _ _ (by decide)]
    · rw [hbyte _ (by decide), hbyte _ (by decide), hother _ _ (by decide)]
    · rw [hbyte _ (by decide), overwrite_of_le (by omega)]
    · rw [hbyte _ (by decide), overwrite_of_le (by omega), update_self]
    · rw [hbyte _ (by decide), hbyte _ (by decide), hother _ _ (by decide)]

/-- **The exact condition for IPv4.** -/
theorem independent_ipv4_iff : Independent cfg s i ↔ Ipv4Settled cfg s i := by
  unfold Ipv4Settled
  dsimp only
  split_ifs with hshort h34 hcut
  · exact ⟨fun hind b hkept => not_independent_of_kept hip hshort hkept hind, independent_of_dropped hip⟩
  · refine ⟨fun hind hto => sameEitherWay_of_independent hip h34 hto hind, fun h => ?_⟩
    by_cases hto : ToRouter cfg i.interface (ofBytes i.received)
    · exact independent_of_sameEitherWay hip h34 hto (h hto)
    · exact independent_of_decided hip (not_lt.mp hshort) fun h => absurd h hto
  · exact ⟨fun hind hto h8 => not_independent_of_echo hip hcut.1 hcut.2 hto h8 hind, fun h =>
      independent_of_decided hip (not_lt.mp hshort) fun hto => ⟨by omega, fun h8 => absurd h8 (h hto)⟩⟩
  · exact ⟨fun _ => trivial, fun _ =>
      independent_of_decided hip (not_lt.mp hshort) fun _ => ⟨by omega, fun _ => by omega⟩⟩

end ToRouter

/-! ### The exact condition -/

theorem independent_of_silent (h : ∀ b fresh, sent cfg s i b fresh = some []) : Independent cfg s i := by
  intro b b' fresh fresh'
  rw [h, h]

/-- **What is sent for a frame is independent of unwritten and stale memory exactly when** the bytes received, the
tables and the configuration settle it. -/
theorem sent_independent_iff (cfg : Config) (s : State) (i : Input) : Independent cfg s i ↔ Settled cfg s i := by
  have htype (h : 14 ≤ i.received.length) (b : Buf) :
      etherType.get (overwrite b i.received) = etherType.get (ofBytes i.received) := ByteField.get_overwrite h
  have hop (h : 22 ≤ i.received.length) (b : Buf) :
      op.get (overwrite b i.received) = op.get (ofBytes i.received) := ByteField.get_overwrite h
  have hbyte {off : ℕ} {b : Buf} {w : BitVec 16} (h : (le16 off).get b = w) : b off = byteOf w 0 := by
    rw [← h]
    exact (byteOf_le16 off b (k := 0) (by decide)).symm
  simp only [Settled]
  split_ifs with hshort harp hcut hreq hrep hip
  · constructor
    · intro hind
      by_contra hno
      refine not_independent_of_type hshort (fun h => ?_) hind
      by_contra h8
      exact hno ⟨by omega, h8⟩
    · intro ⟨h13, h8⟩
      have hneither {w : BitVec 16} (hw : byteOf w 0 = 8) (b : Buf) : etherType.get (overwrite b i.received) ≠ w :=
        fun h => h8 ((overwrite_eq_ofBytes (by omega)).symm.trans ((hbyte h).trans hw))
      exact independent_of_silent fun b _ => sent_of_neither (hneither (by decide) b) (hneither (by decide) b)
  · have harp' (b : Buf) := (htype (not_lt.mp hshort) b).trans harp
    constructor
    · intro hind
      by_contra hno
      refine not_independent_of_op hcut harp' (fun h => ?_) hind
      by_contra h0
      exact hno ⟨by omega, h0⟩
    · intro ⟨h21, h0⟩
      have hneither {w : BitVec 16} (hw : byteOf w 0 = 0) (b : Buf) : op.get (overwrite b i.received) ≠ w :=
        fun h => h0 ((overwrite_eq_ofBytes (by omega)).symm.trans ((hbyte h).trans hw))
      exact independent_of_silent fun b _ => sent_of_op (harp' b) (hneither (by decide) b) (hneither (by decide) b)
  · exact independent_request_iff (fun b => (htype (not_lt.mp hshort) b).trans harp)
      (fun b => (hop (not_lt.mp hcut) b).trans hreq) (not_lt.mp hcut)
  · exact independent_reply_iff (fun b => (htype (not_lt.mp hshort) b).trans harp)
      fun b => (hop (not_lt.mp hcut) b).trans hrep
  · refine ⟨fun _ => trivial, fun _ => independent_of_silent fun b _ => ?_⟩
    refine sent_of_op ((htype (not_lt.mp hshort) b).trans harp) ?_ ?_
    · rw [hop (not_lt.mp hcut)]
      exact hreq
    · rw [hop (not_lt.mp hcut)]
      exact hrep
  · exact independent_ipv4_iff fun b => (htype (not_lt.mp hshort) b).trans hip
  · refine ⟨fun _ => trivial, fun _ => independent_of_silent fun b _ => ?_⟩
    refine sent_of_neither ?_ ?_
    · rw [htype (not_lt.mp hshort)]
      exact harp
    · rw [htype (not_lt.mp hshort)]
      exact hip

/-- An ARP request for the address of the router, padded to the 60 bytes of a minimal Ethernet frame. -/
def paddedRequest : Input where
  interface := 1
  frame := buildEthhdr (Vector.replicate 6 0x30) (Vector.replicate 6 0xff) (htons ETHERTYPE_ARP) ++
    word (htons ARP_HW_ETHER) ++ word (htons ARP_P_IP) ++ [6, 4] ++ word (htons ARP_REQUEST_CODE) ++
    List.replicate 6 0x30 ++ [10, 0, 0, 2] ++ List.replicate 6 0 ++ [10, 0, 0, 1] ++ List.replicate 18 0
  fresh := fun _ => 0

/-- **The reply to a padded request** ends in eighteen bytes of the memory it was built in. -/
theorem padded_request_leaks : ¬ Independent sampleConfig (init ⟨0, fun _ => 0, 0⟩) paddedRequest ∧
    sent sampleConfig (init ⟨0, fun _ => 0, 0⟩) paddedRequest (fun _ => 0) (fun _ => 0) ≠
      sent sampleConfig (init ⟨0, fun _ => 0, 0⟩) paddedRequest (fun _ => 0) fun _ => 1 := by
  have hdiff : sent sampleConfig (init ⟨0, fun _ => 0, 0⟩) paddedRequest (fun _ => 0) (fun _ => 0) ≠
      sent sampleConfig (init ⟨0, fun _ => 0, 0⟩) paddedRequest (fun _ => 0) fun _ => 1 := by
    decide +kernel
  exact ⟨fun hind => hdiff (hind _ _ _ _), hdiff⟩

end Pcom.Pirvu.Leak
