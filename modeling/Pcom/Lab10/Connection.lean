import Pcom.Lab10.Requests
import Pcom.Lib.HttpConnection

/-!
# The connection of the HTTP lab

`client.c` writes its requests one behind the other on one connection.  `send_to_server` writes a message in as many
pieces as it takes; `compute_get_request` has no body, and `compute_post_request` leaves a line end behind the body.

* `connection_read` — however the writes are cut, a server that passes over an empty line in front of a request reads
  **every request as it was given**;
* `strict_count` — a server that does not reads no further than the first POST request.
-/

namespace Pcom.Lab10.Connection

open Pcom.Lib.Scan Pcom.Lib.Http Pcom.Lab10.Requests

/-! ### The code -/

/-- The request line, with query parameters or without. -/
def getLine (url : Bytes) : Option Bytes → Option Bytes
  | some params => sprintf (ascii "GET " ++ url ++ ascii "?" ++ params ++ ascii " HTTP/1.1")
  | none => sprintf (ascii "GET " ++ url ++ ascii " HTTP/1.1")

def computeGetRequest (host url : Bytes) (queryParams : Option Bytes) (cookies : Option (List Bytes)) :
    Option Bytes := do
  let line ← getLine url queryParams
  let message ← computeMessage [] line
  let line ← sprintf (ascii "Host: " ++ host)
  let message ← computeMessage message line
  let message ← cookieLine message cookies
  computeMessage message []

/-- How `send_to_server` ends; it waits as long as a `write` has not come back. -/
inductive Ending
  | returned
  | exited
  | waiting
  deriving DecidableEq

/-- The loop of `send_to_server`, with what each `write` returns (`none` is an error): what has been written. -/
def sendLoop (message : Bytes) : ℕ → List (Option ℕ) → Bytes × Ending
  | _, [] => ([], .waiting)
  | _, none :: _ => ([], .exited)
  | sent, some bytes :: writes =>
    if bytes = 0 then ([], .returned)
    else
      let piece := (message.drop sent).take bytes
      if sent + bytes < message.length then
        (piece ++ (sendLoop message (sent + bytes) writes).1, (sendLoop message (sent + bytes) writes).2)
      else (piece, .returned)

def sendToServer (message : Bytes) (writes : List (Option ℕ)) : Bytes × Ending := sendLoop message 0 writes

/-- One message after the other; the program does not go on behind a call that does not return. -/
def sendAll : List (Bytes × List (Option ℕ)) → Bytes
  | [] => []
  | (message, writes) :: more =>
    match sendToServer message writes with
    | (written, .returned) => written ++ sendAll more
    | (written, _) => written

/-! ### Writing in pieces -/

/-- What has been written is the front of what was to be written. -/
theorem sendLoop_prefix (message : Bytes) (sent : ℕ) (writes : List (Option ℕ)) :
    (sendLoop message sent writes).1 <+: message.drop sent := by
  induction writes generalizing sent with
  | nil => exact List.nil_prefix
  | cons w writes ih =>
    cases w with
    | none => exact List.nil_prefix
    | some bytes =>
      rw [sendLoop]
      split
      · exact List.nil_prefix
      · dsimp only
        split
        · obtain ⟨rest, hrest⟩ := ih (sent + bytes)
          refine ⟨rest, ?_⟩
          rw [List.append_assoc, hrest, ← List.drop_drop, List.take_append_drop]
        · exact List.take_prefix _ _

/-- **A call that returns has written all of it**, unless a `write` has written nothing. -/
theorem sendLoop_returned {message : Bytes} {sent : ℕ} {writes : List (Option ℕ)}
    (hreturned : (sendLoop message sent writes).2 = .returned) (hzero : some 0 ∉ writes) :
    (sendLoop message sent writes).1 = message.drop sent := by
  induction writes generalizing sent with
  | nil => cases hreturned
  | cons w writes ih =>
    rw [List.mem_cons, not_or] at hzero
    cases w with
    | none => cases hreturned
    | some bytes =>
      have hpos : bytes ≠ 0 := fun heq => hzero.1 (congrArg some heq.symm)
      rw [sendLoop, if_neg hpos] at hreturned ⊢
      dsimp only at hreturned ⊢
      split at hreturned
      · rename_i hmore
        rw [if_pos hmore, ih hreturned hzero.2, ← List.drop_drop, List.take_append_drop]
      · rename_i hlast
        rw [if_neg hlast, List.take_of_length_le]
        rw [List.length_drop]
        omega

/-- What each message needs: every `write` writes something, and the last one the rest. -/
def Sent (message : Bytes) (writes : List (Option ℕ)) : Prop :=
  (sendToServer message writes).2 = .returned ∧ some 0 ∉ writes

theorem sendAll_flatMap {sends : List (Bytes × List (Option ℕ))} (h : ∀ s ∈ sends, Sent s.1 s.2) :
    sendAll sends = sends.flatMap Prod.fst := by
  induction sends with
  | nil => rfl
  | cons s sends ih =>
    obtain ⟨message, writes⟩ := s
    obtain ⟨hreturned, hzero⟩ := h _ List.mem_cons_self
    have hwritten : (sendToServer message writes).1 = message := sendLoop_returned hreturned hzero
    have hpair : sendToServer message writes = (message, .returned) := Prod.ext hwritten hreturned
    rw [sendAll, hpair, List.flatMap_cons]
    dsimp only
    rw [ih fun s hs => h s (List.mem_cons_of_mem _ hs)]

/-! ### GET requests -/

/-- What a caller of `compute_get_request` passes. -/
structure Get where
  host : Bytes
  url : Bytes
  queryParams : Option Bytes
  cookies : Option (List Bytes)
  clean_host : Clean host
  clean_url : Clean url
  clean_queryParams : ∀ params ∈ queryParams, Clean params
  clean_cookies : ∀ cs ∈ cookies, ∀ c ∈ cs, Clean c

def Get.message (g : Get) : Option Bytes := computeGetRequest g.host g.url g.queryParams g.cookies

/-- The target of a request. -/
def Get.target (g : Get) : Bytes := g.url ++ g.queryParams.elim [] fun params => ascii "?" ++ params

theorem Get.clean_target (g : Get) : Clean g.target := by
  rw [Get.target]
  refine g.clean_url.append ?_
  cases hparams : g.queryParams with
  | none => exact fun c hc => (List.not_mem_nil hc).elim
  | some params => exact Clean.append (by decide) (g.clean_queryParams params hparams)

theorem name_get : ascii "GET " ≠ [] ∧ Clean (ascii "GET ") := by decide

theorem name_host : ascii "Host: " ≠ [] ∧ Clean (ascii "Host: ") := by decide

theorem name_cookie : ascii "Cookie: " ≠ [] ∧ Clean (ascii "Cookie: ") := by decide

theorem Get.clean_version (g : Get) : Clean (g.target ++ ascii " HTTP/1.1") := g.clean_target.append (by decide)

/-- The lines of a request. -/
def Get.lines (g : Get) : List Line :=
  [line (ascii "GET ") (g.target ++ ascii " HTTP/1.1") name_get g.clean_version,
    line (ascii "Host: ") g.host name_host g.clean_host] ++
  g.cookies.attach.toList.map fun cs =>
    line (ascii "Cookie: ") (cookieText cs.1) name_cookie (clean_cookieText (g.clean_cookies cs.1 cs.2))

theorem Get.lines_bytes (g : Get) : g.lines.map Line.bytes =
    [ascii "GET " ++ (g.target ++ ascii " HTTP/1.1"), ascii "Host: " ++ g.host] ++
    g.cookies.toList.map fun cs => ascii "Cookie: " ++ cookieText cs := by
  rcases g with ⟨host, url, params, _ | cookies, _, _, _, _⟩ <;> rfl

/-- **The text of a GET request** that fits its buffers. -/
theorem Get.message_eq {g : Get} {msg : Bytes} (h : g.message = some msg) : msg = block g.lines := by
  rw [Get.message, computeGetRequest, Option.bind_eq_bind, Option.bind_eq_some_iff] at h
  obtain ⟨line, hline, h⟩ := h
  have hrequest : line = ascii "GET " ++ (g.target ++ ascii " HTTP/1.1") := by
    rw [Get.target]
    cases hparams : g.queryParams with
    | none =>
      rw [hparams] at hline
      rw [sprintf_some hline]
      simp
    | some params =>
      rw [hparams] at hline
      rw [sprintf_some hline]
      simp
  obtain ⟨_, h1, h⟩ := Option.bind_eq_some_iff.mp h
  obtain ⟨_, h2, h⟩ := Option.bind_eq_some_iff.mp h
  obtain ⟨_, h3, h⟩ := Option.bind_eq_some_iff.mp h
  obtain ⟨_, h4, h⟩ := Option.bind_eq_some_iff.mp h
  rw [computeMessage_some h, cookieLine_some h4, computeMessage_some h3, sprintf_some h2, computeMessage_some h1,
    hrequest, block_eq, Get.lines_bytes]
  cases g.cookies <;> simp

/-- What HTTP/1.1 has no room for is not given. -/
structure Get.Legal (g : Get) : Prop where
  url_ne : g.url ≠ []
  target : ∀ c ∈ g.target, c ≠ 32
  host : IsValue g.host
  cookies : ∀ cs ∈ g.cookies, ∀ c ∈ cs, IsValue c ∧ c ≠ [] ∧ (59 : UInt8) ∉ c

/-- The request has what was given. -/
structure Get.Carries (g : Get) (q : Request) : Prop where
  method : q.method = ascii "GET"
  target : q.target = g.target
  host : valuesOf q.fields (ascii "host") = [g.host]
  cookies : (valuesOf q.fields (ascii "cookie")).map readCookies = g.cookies.toList
  body : q.body = []

/-- The fields of a request as read. -/
def Get.sent (g : Get) : List (Bytes × Bytes) :=
  (ascii "host", g.host) :: g.cookies.toList.map fun cs => (ascii "cookie", cookieText cs)

theorem Get.mapM_readField {g : Get} (hl : g.Legal) :
    (g.lines.map Line.bytes).tail.mapM readField = some g.sent := by
  have hhost : readField (ascii "Host: " ++ g.host) = some (ascii "host", g.host) :=
    readField_value (ascii "Host") (by decide) (by decide) (by decide) hl.host
  have hcookie : ∀ cs ∈ g.cookies, readField (ascii "Cookie: " ++ cookieText cs) =
      some (ascii "cookie", cookieText cs) := fun cs hcs =>
    readField_value (ascii "Cookie") (by decide) (by decide) (by decide)
      (isValue_cookieText fun c hc => ⟨(hl.cookies cs hcs c hc).1, (hl.cookies cs hcs c hc).2.1⟩)
  rw [Get.lines_bytes, Get.sent]
  cases hc : g.cookies with
  | none => simp [hhost]
  | some cs => simp [hhost, hcookie cs hc]

/-- **All that was given is read**, and nothing is left. -/
theorem readRequest_get {g : Get} {msg : Bytes} (h : g.message = some msg) (hl : g.Legal) :
    ∃ q, readRequest msg = some (q, []) ∧ g.Carries q := by
  have hlen : g.lines.length < (block g.lines ++ []).length := by
    rw [List.append_nil]
    exact length_block g.lines
  have htarget : g.target ≠ [] := List.append_ne_nil_of_left_ne_nil hl.url_ne _
  have hline : (g.lines.map Line.bytes).head?.bind readRequestLine = some (ascii "GET", g.target) :=
    readRequestLine_spaced (show ascii "GET" ≠ [] ∧ ∀ c ∈ ascii "GET", c ≠ 32 by decide) ⟨htarget, hl.target⟩
  have hbody : bodyLength g.sent = some 0 := by
    rw [Get.sent]
    cases g.cookies <;> rfl
  refine ⟨⟨ascii "GET", g.target, g.sent, []⟩, ?_, ?_⟩
  · rw [Get.message_eq h, readRequest, ← List.append_nil (block g.lines), readLines_block _ _ hlen]
    simp only [Option.bind_eq_bind, Option.bind_some, hline, Get.mapM_readField hl, hbody]
    rfl
  · refine ⟨rfl, rfl, ?_, ?_, rfl⟩
    · simp only [Get.sent]
      cases g.cookies <;> rfl
    · simp only [Get.sent]
      cases hc : g.cookies with
      | none => rfl
      | some cs => exact congrArg (fun cs => [cs]) (readCookies_cookieText (hl.cookies cs hc))

/-! ### The requests of a connection -/

/-- A request of either kind. -/
inductive Call
  | get (g : Get)
  | post (p : Post)

namespace Call

def text : Call → Option Bytes
  | .get g => g.message
  | .post p => p.message

def Legal : Call → Prop
  | .get g => g.Legal
  | .post p => Requests.Legal p

def Carries : Call → Request → Prop
  | .get g => g.Carries
  | .post p => Requests.Carries p

/-- What is left when the request has been read. -/
def leaves : Call → Bytes
  | .get _ => []
  | .post _ => crlf

def isGet : Call → Bool
  | .get _ => true
  | .post _ => false

/-- The message written, and the fact that there is one. -/
def bytes (c : Call) : Bytes := c.text.getD []

/-- The request fits the buffers, and HTTP/1.1. -/
def Fits (c : Call) : Prop := c.text.isSome ∧ c.Legal

variable {c : Call}

theorem text_eq (h : c.Fits) : c.text = some c.bytes := by
  obtain ⟨msg, hmsg⟩ := Option.isSome_iff_exists.mp h.1
  rw [bytes, hmsg]
  rfl

theorem read (h : c.Fits) : ∃ q, readRequest c.bytes = some (q, c.leaves) ∧ c.Carries q := by
  have htext := text_eq h
  cases c with
  | get g => exact readRequest_get htext h.2
  | post p => exact readRequest_post htext h.2

/-- A message does not begin with a line end. -/
theorem skip_bytes (h : c.Fits) (rest : Bytes) : skipEmptyLine (c.bytes ++ rest) = c.bytes ++ rest := by
  have htext := text_eq h
  cases c with
  | get g =>
    rw [Get.message_eq htext]
    exact skipEmptyLine_block _ _ rest
  | post p =>
    rw [message_eq htext, List.append_assoc]
    exact skipEmptyLine_block _ _ _

theorem skip_leaves (d : Call) (h : c.Fits) (rest : Bytes) :
    skipEmptyLine (d.leaves ++ (c.bytes ++ rest)) = c.bytes ++ rest := by
  cases d with
  | get g => exact skip_bytes h rest
  | post p => rfl

end Call

/-- The requests as they are read. -/
theorem exists_read {calls : List Call} (h : ∀ c ∈ calls, c.Fits) : ∃ qs, List.Forall₂ Call.Carries calls qs ∧
    List.Forall₂ (fun c q => readRequest c.bytes = some (q, c.leaves)) calls qs := by
  induction calls with
  | nil => exact ⟨[], .nil, .nil⟩
  | cons c calls ih =>
    obtain ⟨q, hread, hcarries⟩ := Call.read (h c List.mem_cons_self)
    obtain ⟨qs, hall, hreads⟩ := ih fun d hd => h d (List.mem_cons_of_mem _ hd)
    exact ⟨q :: qs, .cons hcarries hall, .cons hread hreads⟩

/-- **The whole connection**: with each message sent in any pieces, a server that passes over an empty line reads
every request as it was given; only behind the last one something may be left. -/
theorem connection_read {sends : List (Call × List (Option ℕ))} (hfits : ∀ s ∈ sends, s.1.Fits)
    (hsent : ∀ s ∈ sends, Sent s.1.bytes s.2) :
    ∃ qs, List.Forall₂ Call.Carries (sends.map Prod.fst) qs ∧
      readAll skipEmptyLine sends.length (sendAll (sends.map fun s => (s.1.bytes, s.2))) =
        (qs, ((sends.map Prod.fst).getLast?.map Call.leaves).getD []) := by
  have hcalls : ∀ c ∈ sends.map Prod.fst, c.Fits := fun c hc => by
    obtain ⟨s, hs, rfl⟩ := List.mem_map.mp hc
    exact hfits s hs
  obtain ⟨qs, hcarries, hreads⟩ := exists_read hcalls
  refine ⟨qs, hcarries, ?_⟩
  have hstream : sendAll (sends.map fun s => (s.1.bytes, s.2)) = (sends.map Prod.fst).flatMap Call.bytes := by
    rw [sendAll_flatMap, List.flatMap_map, List.flatMap_map]
    intro s hs
    obtain ⟨t, ht, rfl⟩ := List.mem_map.mp hs
    exact hsent t ht
  have hread := readAll_of_each [] hreads (fun d _ c hc => Call.skip_leaves d (hcalls c hc))
    fun c hc => Call.skip_bytes (hcalls c hc)
  rw [List.length_map] at hread
  rw [hstream]
  exact hread

/-- The first GET request of `client.c`. -/
def dummyGet : Get where
  host := dummy.host
  url := dummy.url
  queryParams := none
  cookies := none
  clean_host := dummy.clean_host
  clean_url := dummy.clean_url
  clean_queryParams := by simp
  clean_cookies := dummy.clean_cookies

theorem fits_dummies : (Call.get dummyGet).Fits ∧ (Call.post dummy).Fits := by
  refine ⟨⟨by decide +kernel, ?_⟩, ⟨by decide +kernel, ?_⟩⟩
  · exact ⟨by decide, by decide, ⟨by decide, by decide, by decide⟩, by rintro cs ⟨⟩⟩
  · exact ⟨by decide, by decide, ⟨by decide, by decide, by decide⟩, ⟨by decide, by decide, by decide⟩,
      by rintro cs ⟨⟩⟩

/-- The first two requests, each written in two pieces. -/
theorem dummies_read : ∃ qs, List.Forall₂ Call.Carries [.get dummyGet, .post dummy] qs ∧
    readAll skipEmptyLine 2 (sendAll [((Call.get dummyGet).bytes, [some 10, some 90]),
      ((Call.post dummy).bytes, [some 100, some 90])]) = (qs, crlf) := by
  have hfits : ∀ s ∈ [(Call.get dummyGet, [some 10, some 90]), (Call.post dummy, [some 100, some 90])],
      s.1.Fits := by
    simpa using fits_dummies
  have hsent : ∀ s ∈ [(Call.get dummyGet, [some 10, some 90]), (Call.post dummy, [some 100, some 90])],
      Sent s.1.bytes s.2 := by
    simp only [List.forall_mem_cons, List.not_mem_nil, false_imp_iff, implies_true, and_true, Sent]
    decide +kernel
  exact connection_read hfits hsent

/-- **A server that expects a request line at once** reads as far as the first POST request. -/
theorem strict_count {calls : List Call} (hfits : ∀ c ∈ calls, c.Fits) :
    (readAll id calls.length (calls.flatMap Call.bytes)).1.length =
      min calls.length ((calls.takeWhile Call.isGet).length + 1) := by
  induction calls with
  | nil => rfl
  | cons c calls ih =>
    have hmore := ih fun d hd => hfits d (List.mem_cons_of_mem _ hd)
    obtain ⟨q, hread, -⟩ := Call.read (hfits c List.mem_cons_self)
    rw [List.length_cons, List.flatMap_cons, readAll, id, readRequest_append hread]
    dsimp only
    cases c with
    | get g =>
      rw [List.takeWhile_cons_of_pos rfl, List.length_cons, List.length_cons,
        show Call.leaves (.get g) ++ calls.flatMap Call.bytes = calls.flatMap Call.bytes from rfl, hmore]
      omega
    | post p =>
      -- the line end in front of the next request is no request line
      have hnone : readRequest (id (crlf ++ calls.flatMap Call.bytes)) = none := readRequest_crlf _
      have hstop := readAll_stops hnone calls.length
      rw [List.takeWhile_cons_of_neg Bool.false_ne_true, show Call.leaves (.post p) = crlf from rfl, hstop]
      simp

/-- Of one GET request and two POST requests the last one is not read. -/
theorem dummies_strict : (readAll id [Call.get dummyGet, .post dummy, .post dummy].length
    ([Call.get dummyGet, .post dummy, .post dummy].flatMap Call.bytes)).1.length = 2 := by
  have hfits : ∀ c ∈ [Call.get dummyGet, .post dummy, .post dummy], c.Fits := by
    simpa using fits_dummies
  rw [strict_count hfits]
  rfl

end Pcom.Lab10.Connection
