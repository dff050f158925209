import Pcom.Lib.Http

/-!
# POST requests of the HTTP lab

`compute_post_request` writes the lines of the header block with `compute_message`, sums up the length of the body
while it joins the fields, and appends the body with `compute_message` again, which ends it with CRLF as if it were a
line.

* `computePostRequest_eq` — the text of a request that fits the buffers;
* `readRequest_post` — read as HTTP/1.1 it carries all that was given, **and two bytes are left**;
* `never_delimited` — so no request ends where its body ends.
-/

namespace Pcom.Lab10.Requests

open Pcom.Lib.Scan Pcom.Lib.Http

/-! ### The code -/

def BUFLEN : ℕ := 4096

def LINELEN : ℕ := 1000

/-- `strcat` onto a string in an array of `size`; a text that does not fit is written past its end. -/
def strcat (size : ℕ) (s t : Bytes) : Option Bytes := if s.length + t.length < size then some (s ++ t) else none

/-- `sprintf` into `line`. -/
def sprintf (text : Bytes) : Option Bytes := strcat LINELEN [] text

def computeMessage (message line : Bytes) : Option Bytes := do
  let message ← strcat BUFLEN message line
  strcat BUFLEN message (ascii "\r\n")

/-- The loop over the fields of the body. -/
def bodyData : List Bytes → ℕ → Bytes → Option (ℕ × Bytes)
  | [], contentLen, buffer => some (contentLen, buffer)
  | field :: fields, contentLen, buffer => do
    let line ← sprintf field
    if fields = [] then
      let buffer ← strcat LINELEN buffer line
      bodyData fields (contentLen + field.length) buffer
    else
      let line ← strcat LINELEN line (ascii "&")
      let buffer ← strcat LINELEN buffer line
      bodyData fields (contentLen + field.length + 1) buffer

/-- The loop over the cookies. -/
def cookieData : List Bytes → Bytes → Option Bytes
  | [], line => some line
  | cookie :: cookies, line => do
    let line ← strcat LINELEN line cookie
    let line ← strcat LINELEN line (ascii ";")
    cookieData cookies line

/-- The line of the cookies, if there are any. -/
def cookieLine (message : Bytes) : Option (List Bytes) → Option Bytes
  | none => some message
  | some cookies => do
    let line ← sprintf (ascii "Cookie: ")
    let line ← cookieData cookies line
    computeMessage message line

def computePostRequest (host url contentType : Bytes) (fields : List Bytes) (cookies : Option (List Bytes)) :
    Option Bytes := do
  let line ← sprintf (ascii "POST " ++ url ++ ascii " HTTP/1.1")
  let message ← computeMessage [] line
  let line ← sprintf (ascii "Host: " ++ host)
  let message ← computeMessage message line
  let line ← sprintf (ascii "Content-Type: " ++ contentType)
  let message ← computeMessage message line
  let (contentLen, buffer) ← bodyData fields 0 []
  let line ← sprintf (ascii "Content-Length: " ++ printInt contentLen)
  let message ← computeMessage message line
  let message ← cookieLine message cookies
  let message ← computeMessage message []
  computeMessage message buffer

/-! ### The text of a request -/

/-- The fields of the body, joined. -/
def body (fields : List Bytes) : Bytes := (ascii "&").intercalate fields

theorem strcat_some {size : ℕ} {s t out : Bytes} (h : strcat size s t = some out) : out = s ++ t := by
  rw [strcat, Option.ite_none_right_eq_some] at h
  exact (Option.some.inj h.2).symm

theorem sprintf_some {text out : Bytes} (h : sprintf text = some out) : out = text := strcat_some h

theorem computeMessage_some {message line out : Bytes} (h : computeMessage message line = some out) :
    out = message ++ (line ++ crlf) := by
  rw [computeMessage, Option.bind_eq_bind, Option.bind_eq_some_iff] at h
  obtain ⟨_, hline, hend⟩ := h
  rw [strcat_some hend, strcat_some hline, List.append_assoc]
  rfl

/-- The length counted is the length of what is joined. -/
theorem bodyData_some {fields : List Bytes} {n m : ℕ} {buffer out : Bytes}
    (h : bodyData fields n buffer = some (m, out)) :
    out = buffer ++ body fields ∧ m = n + (body fields).length := by
  induction fields generalizing n buffer with
  | nil =>
    obtain ⟨rfl, rfl⟩ := Prod.mk.inj (Option.some.inj h)
    simp [body]
  | cons field fields ih =>
    simp only [bodyData, Option.bind_eq_bind, Option.bind_eq_some_iff] at h
    obtain ⟨line, hline, h⟩ := h
    obtain rfl := sprintf_some hline
    split at h
    · rename_i hnil
      obtain ⟨buffer', hbuffer, h⟩ := Option.bind_eq_some_iff.mp h
      obtain ⟨rfl, rfl⟩ := ih h
      subst hnil
      rw [strcat_some hbuffer]
      simp [body]
    · rename_i hne
      obtain ⟨line', hline', h⟩ := Option.bind_eq_some_iff.mp h
      obtain ⟨buffer', hbuffer, h⟩ := Option.bind_eq_some_iff.mp h
      obtain ⟨rfl, rfl⟩ := ih h
      obtain ⟨f, fs, rfl⟩ := List.exists_cons_of_ne_nil hne
      have hjoin : body (line :: f :: fs) = line ++ (ascii "&" ++ body (f :: fs)) := by
        simp [body, List.intercalate]
      rw [strcat_some hbuffer, strcat_some hline', hjoin]
      simp only [List.append_assoc, List.length_append, true_and]
      have hamp : (ascii "&").length = 1 := by decide
      omega

/-- The text behind `Cookie: `. -/
def cookieText (cookies : List Bytes) : Bytes := cookies.flatMap (· ++ ascii ";")

theorem cookieData_some {cookies : List Bytes} {line out : Bytes} (h : cookieData cookies line = some out) :
    out = line ++ cookieText cookies := by
  induction cookies generalizing line with
  | nil =>
    obtain rfl := Option.some.inj h
    simp [cookieText]
  | cons c cs ih =>
    simp only [cookieData, Option.bind_eq_bind, Option.bind_eq_some_iff] at h
    obtain ⟨_, hcookie, _, hend, h⟩ := h
    rw [ih h, strcat_some hend, strcat_some hcookie]
    simp [cookieText]

theorem cookieLine_some {message out : Bytes} {cookies : Option (List Bytes)}
    (h : cookieLine message cookies = some out) :
    out = message ++ cookies.elim [] fun cs => ascii "Cookie: " ++ cookieText cs ++ crlf := by
  cases cookies with
  | none =>
    obtain rfl := Option.some.inj h
    simp
  | some cs =>
    simp only [cookieLine, Option.bind_eq_bind, Option.bind_eq_some_iff] at h
    obtain ⟨_, hname, _, hcookies, hmessage⟩ := h
    rw [computeMessage_some hmessage, cookieData_some hcookies, sprintf_some hname]
    rfl

/-! ### Requests without line ends in their texts -/

/-- No line end in a text. -/
def Clean (text : Bytes) : Prop := ∀ c ∈ text, c ≠ 13 ∧ c ≠ 10

instance (text : Bytes) : Decidable (Clean text) := inferInstanceAs (Decidable (∀ _ ∈ _, _))

theorem Clean.append {a b : Bytes} (ha : Clean a) (hb : Clean b) : Clean (a ++ b) := fun c hc =>
  (List.mem_append.mp hc).elim (ha c) (hb c)

/-- What a caller of `compute_post_request` passes. -/
structure Post where
  host : Bytes
  url : Bytes
  contentType : Bytes
  fields : List Bytes
  cookies : Option (List Bytes)
  clean_host : Clean host
  clean_url : Clean url
  clean_contentType : Clean contentType
  clean_fields : ∀ f ∈ fields, Clean f
  clean_cookies : ∀ cs ∈ cookies, ∀ c ∈ cs, Clean c

/-- The message computed; there is none where a buffer is too small. -/
def Post.message (p : Post) : Option Bytes := computePostRequest p.host p.url p.contentType p.fields p.cookies

/-- A line that starts with a fixed text. -/
def line (name value : Bytes) (hname : name ≠ [] ∧ Clean name) (hvalue : Clean value) : Line where
  bytes := name ++ value
  ne_nil := List.append_ne_nil_of_left_ne_nil hname.1 _
  clean := hname.2.append hvalue

theorem clean_printInt (n : ℤ) : Clean (printInt n) := fun c hc => by
  obtain ⟨hspace, -, hnewline⟩ := printInt_clean hc
  refine ⟨?_, hnewline⟩
  rintro rfl
  exact absurd hspace (by decide)

theorem clean_cookieText {cookies : List Bytes} (h : ∀ c ∈ cookies, Clean c) : Clean (cookieText cookies) := by
  rintro b hb
  obtain ⟨c, hc, hbc⟩ := List.mem_flatMap.mp hb
  exact ((h c hc).append (show Clean (ascii ";") by decide)) b hbc

/-- The lines of a request. -/
def Post.lines (p : Post) : List Line :=
  [line (ascii "POST ") (p.url ++ ascii " HTTP/1.1") (by decide) (p.clean_url.append (by decide)),
    line (ascii "Host: ") p.host (by decide) p.clean_host,
    line (ascii "Content-Type: ") p.contentType (by decide) p.clean_contentType,
    line (ascii "Content-Length: ") (printInt (body p.fields).length) (by decide) (clean_printInt _)] ++
  p.cookies.attach.toList.map fun cs =>
    line (ascii "Cookie: ") (cookieText cs.1) (by decide) (clean_cookieText (p.clean_cookies cs.1 cs.2))

theorem lines_bytes (p : Post) : p.lines.map Line.bytes =
    [ascii "POST " ++ (p.url ++ ascii " HTTP/1.1"), ascii "Host: " ++ p.host, ascii "Content-Type: " ++ p.contentType,
      ascii "Content-Length: " ++ printInt (body p.fields).length] ++
    p.cookies.toList.map fun cs => ascii "Cookie: " ++ cookieText cs := by
  rcases p with ⟨host, url, contentType, fields, _ | cookies, _, _, _, _, _⟩ <;> rfl

theorem block_eq (ls : List Line) : block ls = (ls.map Line.bytes).flatMap (· ++ crlf) ++ crlf := by
  rw [block, List.flatMap_map]

/-- **The text of a request** that fits its buffers: two bytes follow the body. -/
theorem message_eq {p : Post} {msg : Bytes} (h : p.message = some msg) :
    msg = block p.lines ++ (body p.fields ++ crlf) := by
  simp only [Post.message, computePostRequest, Option.bind_eq_bind, Option.bind_eq_some_iff, Prod.exists] at h
  obtain ⟨_, h1, _, h2, _, h3, _, h4, _, h5, _, h6, n, buffer, h7, _, h8, _, h9, _, h10, _, h11, h12⟩ := h
  obtain ⟨rfl, rfl⟩ := bodyData_some h7
  obtain rfl := sprintf_some h1
  obtain rfl := sprintf_some h3
  obtain rfl := sprintf_some h5
  obtain rfl := sprintf_some h8
  rw [computeMessage_some h12, computeMessage_some h11, cookieLine_some h10, computeMessage_some h9,
    computeMessage_some h6, computeMessage_some h4, computeMessage_some h2, block_eq, lines_bytes]
  cases p.cookies <;> simp

/-! ### Reading it -/

/-- The cookies of a `Cookie` field. -/
def readCookies (value : Bytes) : List Bytes := ((value.splitOn 59).map trim).filter (· ≠ [])

/-- The request has what was given. -/
structure Carries (p : Post) (q : Request) : Prop where
  method : q.method = ascii "POST"
  target : q.target = p.url
  host : valuesOf q.fields (ascii "host") = [p.host]
  contentType : valuesOf q.fields (ascii "content-type") = [p.contentType]
  cookies : (valuesOf q.fields (ascii "cookie")).map readCookies = p.cookies.toList
  body : q.body = body p.fields

/-- A value that a field can carry as it is: no blank at either end. -/
structure IsValue (value : Bytes) : Prop where
  text : ∀ c ∈ value, isValueChar c = true
  front : value.dropWhile isBlank = value
  back : value.rdropWhile isBlank = value

/-- What HTTP/1.1 has no room for is not given. -/
structure Legal (p : Post) : Prop where
  url_ne : p.url ≠ []
  url : ∀ c ∈ p.url, c ≠ 32
  host : IsValue p.host
  contentType : IsValue p.contentType
  cookies : ∀ cs ∈ p.cookies, ∀ c ∈ cs, IsValue c ∧ c ≠ [] ∧ (59 : UInt8) ∉ c

theorem IsValue.trim_eq {value : Bytes} (h : IsValue value) : trim value = value := by
  rw [trim, h.front, h.back]

theorem cookieText_cons (c : Bytes) (cs : List Bytes) : cookieText (c :: cs) = c ++ 59 :: cookieText cs := by
  rw [cookieText, List.flatMap_cons, List.append_assoc]
  rfl

/-- The cookies make a value: neither end of their text is a blank. -/
theorem isValue_cookieText {cs : List Bytes} (h : ∀ c ∈ cs, IsValue c ∧ c ≠ []) : IsValue (cookieText cs) where
  text := by
    rintro b hb
    obtain ⟨c, hc, hbc⟩ := List.mem_flatMap.mp hb
    rcases List.mem_append.mp hbc with hbc | hbc
    · exact (h c hc).1.text b hbc
    · rw [List.mem_singleton.mp hbc]
      decide
  front := by
    cases cs with
    | nil => rfl
    | cons c cs =>
      obtain ⟨hc, hne⟩ := h c List.mem_cons_self
      rw [cookieText_cons, List.dropWhile_append, hc.front, if_neg (by simpa using hne)]
  back := by
    rcases List.eq_nil_or_concat cs with rfl | ⟨cs', c, rfl⟩
    · rfl
    · rw [cookieText, List.concat_eq_append, List.flatMap_append, List.flatMap_singleton, ← List.append_assoc]
      exact List.rdropWhile_concat_neg _ _ _ (by decide)

theorem readCookies_cookieText {cs : List Bytes} (h : ∀ c ∈ cs, IsValue c ∧ c ≠ [] ∧ (59 : UInt8) ∉ c) :
    readCookies (cookieText cs) = cs := by
  induction cs with
  | nil => decide
  | cons c cs ih =>
    obtain ⟨hc, hne, hsemicolon⟩ := h c List.mem_cons_self
    have hrest := ih fun d hd => h d (List.mem_cons_of_mem _ hd)
    rw [readCookies] at hrest ⊢
    rw [cookieText_cons, List.splitOn_append_cons_self_of_not_mem hsemicolon, List.map_cons, hc.trim_eq,
      List.filter_cons_of_pos (by simpa using hne), hrest]

theorem isValue_decimal (n : ℕ) : IsValue (decimal n) := by
  have hblank : ∀ c ∈ decimal n, isBlank c = false := fun c hc => by
    have hspace := (isDigit_facts (isDigit_of_mem_decimal hc)).1
    by_contra hb
    simp only [isBlank, Bool.not_eq_false, Bool.or_eq_true, beq_iff_eq] at hb
    rcases hb with rfl | rfl <;> exact absurd hspace (by decide)
  refine ⟨fun c hc => isValueChar_of_digit (isDigit_of_mem_decimal hc), ?_, ?_⟩
  · obtain ⟨c, cs, hd, -⟩ := decimal_cons n
    rw [hd, List.dropWhile_cons_of_neg]
    rw [hblank c (by simp [hd])]
    decide
  · refine List.rdropWhile_eq_self_iff.mpr fun hne => ?_
    rw [hblank _ (List.getLast_mem hne)]
    decide

/-- The fields of a request as read. -/
def Post.sent (p : Post) : List (Bytes × Bytes) :=
  [(ascii "host", p.host), (ascii "content-type", p.contentType),
    (ascii "content-length", decimal (body p.fields).length)] ++
  p.cookies.toList.map fun cs => (ascii "cookie", cookieText cs)

/-- A line of the request, read as a field. -/
theorem readField_value (name : Bytes) {label key value : Bytes} (hlabel : label = name ++ [58, 32])
    (hkey : lower name = key) (hname : name ≠ [] ∧ ∀ c ∈ name, isTokenChar c = true) (hvalue : IsValue value) :
    readField (label ++ value) = some (key, value) := by
  have hread := readField_spaced hname.1 hname.2 hvalue.text
  rw [hvalue.trim_eq, hkey] at hread
  rw [hlabel, List.append_assoc]
  exact hread

theorem mapM_readField {p : Post} (hl : Legal p) : (p.lines.map Line.bytes).tail.mapM readField = some p.sent := by
  have hhost : readField (ascii "Host: " ++ p.host) = some (ascii "host", p.host) :=
    readField_value (ascii "Host") (by decide) (by decide) (by decide) hl.host
  have htype : readField (ascii "Content-Type: " ++ p.contentType) = some (ascii "content-type", p.contentType) :=
    readField_value (ascii "Content-Type") (by decide) (by decide) (by decide) hl.contentType
  have hlength : readField (ascii "Content-Length: " ++ decimal (body p.fields).length) =
      some (ascii "content-length", decimal (body p.fields).length) :=
    readField_value (ascii "Content-Length") (by decide) (by decide) (by decide) (isValue_decimal _)
  have hcookie : ∀ cs ∈ p.cookies, readField (ascii "Cookie: " ++ cookieText cs) =
      some (ascii "cookie", cookieText cs) := fun cs hcs =>
    readField_value (ascii "Cookie") (by decide) (by decide) (by decide)
      (isValue_cookieText fun c hc => ⟨(hl.cookies cs hcs c hc).1, (hl.cookies cs hcs c hc).2.1⟩)
  rw [lines_bytes, printInt_natCast, Post.sent]
  cases hc : p.cookies with
  | none => simp [hhost, htype, hlength]
  | some cs => simp [hhost, htype, hlength, hcookie cs hc]

/-- **All that was given is read**, and a line end is left over. -/
theorem readRequest_post {p : Post} {msg : Bytes} (h : p.message = some msg) (hl : Legal p) :
    ∃ q, readRequest msg = some (q, crlf) ∧ Carries p q := by
  have hlen : p.lines.length < (block p.lines ++ (body p.fields ++ crlf)).length := by
    rw [List.length_append]
    exact Nat.lt_add_right _ (length_block p.lines)
  have hline : (p.lines.map Line.bytes).head?.bind readRequestLine = some (ascii "POST", p.url) :=
    readRequestLine_spaced (show ascii "POST" ≠ [] ∧ ∀ c ∈ ascii "POST", c ≠ 32 by decide) ⟨hl.url_ne, hl.url⟩
  have hcoding : valuesOf p.sent (ascii "transfer-encoding") = [] := by
    rw [Post.sent]
    cases p.cookies <;> rfl
  have hannounced : valuesOf p.sent (ascii "content-length") = [decimal (body p.fields).length] := by
    rw [Post.sent]
    cases p.cookies <;> rfl
  have hbody : bodyLength p.sent = some (body p.fields).length := by
    rw [bodyLength, hcoding, hannounced, if_neg (by simp)]
    simp only [digitsValue_decimal]
    exact if_pos ⟨decimal_ne_nil _, List.all_eq_true.mpr fun _ hc => isDigit_of_mem_decimal hc⟩
  refine ⟨⟨ascii "POST", p.url, p.sent, body p.fields⟩, ?_, ?_⟩
  · rw [message_eq h, readRequest, readLines_block _ _ hlen]
    simp only [Option.bind_eq_bind, Option.bind_some, hline, mapM_readField hl, hbody, List.length_append,
      List.take_left, List.drop_left]
    exact if_neg (by omega)
  · refine ⟨rfl, rfl, ?_, ?_, ?_, rfl⟩
    · simp only [Post.sent]
      cases p.cookies <;> rfl
    · simp only [Post.sent]
      cases p.cookies <;> rfl
    · simp only [Post.sent]
      cases hc : p.cookies with
      | none => rfl
      | some cs => exact congrArg (fun cs => [cs]) (readCookies_cookieText (hl.cookies cs hc))

/-- Read as HTTP/1.1, the message has what was given, and nothing is left of it. -/
def SelfDelimiting (p : Post) (msg : Bytes) : Prop := ∃ q, readRequest msg = some (q, []) ∧ Carries p q

/-- **No request ends where its body ends.** -/
theorem never_delimited {p : Post} {msg : Bytes} (h : p.message = some msg) : ¬ SelfDelimiting p msg := by
  rintro ⟨q, hread, hcarries⟩
  rw [message_eq h] at hread
  have hbody := readRequest_body hread
  rw [hcarries.body, List.append_nil] at hbody
  exact absurd (List.append_right_eq_self.mp hbody) (by decide)

/-- The first POST request of `client.c`. -/
def dummy : Post where
  host := ascii "34.118.48.238"
  url := ascii "/api/v1/dummy"
  contentType := ascii "application/x-www-form-urlencoded"
  fields := [ascii "key1=value1"]
  cookies := none
  clean_host := by decide
  clean_url := by decide
  clean_contentType := by decide
  clean_fields := by decide
  clean_cookies := by simp

def dummyText : Bytes := ascii "POST /api/v1/dummy HTTP/1.1\r\nHost: 34.118.48.238\r\n" ++
  ascii "Content-Type: application/x-www-form-urlencoded\r\nContent-Length: 11\r\n\r\nkey1=value1\r\n"

theorem dummy_message : dummy.message = some dummyText := by decide +kernel

theorem dummy_not_delimited : dummy.message = some dummyText ∧ ¬ SelfDelimiting dummy dummyText :=
  ⟨dummy_message, never_delimited dummy_message⟩

/-- It is read up to its last two bytes. -/
theorem dummy_leaves_crlf : ∃ p msg q, p.message = some msg ∧ readRequest msg = some (q, crlf) ∧
    ¬ SelfDelimiting p msg := by
  have hlegal : Legal dummy := ⟨by decide, by decide, ⟨by decide, by decide, by decide⟩,
    ⟨by decide, by decide, by decide⟩, by rintro cs ⟨⟩⟩
  obtain ⟨q, hread, -⟩ := readRequest_post dummy_message hlegal
  refine ⟨dummy, dummyText, q, dummy_message, hread, ?_⟩
  rintro ⟨q', hread', -⟩
  rw [hread] at hread'
  cases (Prod.mk.inj (Option.some.inj hread')).2

end Pcom.Lab10.Requests
