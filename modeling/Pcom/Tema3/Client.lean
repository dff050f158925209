import Pcom.Lib.StepSystem
import Pcom.Lib.Words

/-!
# The HTTP client of `Tema3/client.c`

One turn of the main loop is a step: the line of the command, what is typed at its prompts, and the response of the
server, which may be any bytes.  The two credentials are character arrays; what a C function would read or write
outside of an object is undefined.

* `step` — the loop body; `none` is the end of the program, or undefined;
* `step_effect` — **everything a step can do** to the credentials, with the request it sends.
-/

namespace Pcom.Tema3.Client

open Pcom.Lib.Scan Pcom.Lib.Words

/-! ### State and inputs -/

/-- The variables of `main`; the arrays hold what `strncpy` has copied into them. -/
structure State where
  cookie : Bytes
  jwt : Bytes
  jwtAccess : Bool
  loggedIn : Bool

/-- Before the loop; the arrays are uninitialised. -/
def init (cookie jwt : Bytes) : State := ⟨cookie, jwt, false, false⟩

/-- The line of a command, the texts typed at the prompts, and what `receive_from_server` returns. -/
structure Input where
  input : Bytes
  typed : ℕ → Bytes
  response : Bytes

/-! ### Requests -/

inductive Endpoint
  | register
  | login
  | access
  | books
  | book
  | addBook
  | deleteBook
  | logout
  deriving DecidableEq

/-- The requests that need the library: `get_books`, `get_book`, `add_book` and `delete_book`. -/
def Endpoint.isLibrary : Endpoint → Bool
  | .books | .book | .addBook | .deleteBook => true
  | _ => false

/-- A message sent, and the credentials printed into it. -/
structure Request where
  endpoint : Endpoint
  jwt : Option Bytes
  cookie : Option Bytes
  message : Bytes

def crlf : Bytes := ascii "\r\n"

/-- The text of a request: its first line up to the version, its credentials, its `Content-Length` and body. -/
def message (line : Bytes) (jwt cookie : Option Bytes) (body : Option (ℕ × Bytes)) : Bytes :=
  line ++ ascii " HTTP/1.1\r\nHost: 34.118.48.238\r\n" ++
    (body.elim [] fun _ => ascii "Content-Type: application/json\r\n") ++
    (jwt.elim [] fun jwt => ascii "Authorization: Bearer " ++ jwt ++ crlf) ++
    (cookie.elim [] fun cookie => ascii "Cookie: " ++ cookie ++ crlf) ++
    (body.elim [] fun b => ascii "Content-Length: " ++ printInt b.1 ++ crlf) ++ crlf ++
    (body.elim [] fun b => b.2 ++ crlf)

/-- `sprintf` into an array of 500. -/
def sprintf (r : Request) : Option Request := if r.message.length < 500 then some r else none

/-- A request, with the credentials it carries. -/
def request (endpoint : Endpoint) (line : Bytes) (jwt cookie : Option Bytes) (body : Option (ℕ × Bytes)) :
    Option Request := sprintf ⟨endpoint, jwt, cookie, message line jwt cookie body⟩

/-! ### Responses -/

/-- `strstr`: how far into the string the first occurrence is. -/
def strstr (s lit : Bytes) : Option ℕ :=
  if startsWith lit s then some 0
  else
    match s with
    | [] => none
    | _ :: s => (strstr s lit).map (· + 1)

def isError (response : Bytes) : Bool := (strstr (cString response) (ascii "error")).isSome

/-- A string in memory, after a byte of it has been set to 0: the string from a position on. -/
def cutAt (s : Bytes) (end_ start : ℕ) : Bytes := cString (((s ++ [0]).set end_ 0).drop start)

/-- The cookie of a response to `login`: `some none` where the login fails, `none` where a pointer in front of the
response is followed. -/
def loginCookie (response : Bytes) : Option (Option Bytes) :=
  if isError response then some none
  else
    let response := cString response
    match strstr response (ascii "connect.sid") with
    | none => some none
    | some start =>
      match strstr response (ascii "Date:") with
      | none => none
      | some end_ => if end_ < 20 then none else some (some ((cutAt response (end_ - 20) start).take 200))

/-- The JWT of a response to `enter_library`: `some none` where the server refuses, `none` where a null pointer is
followed. -/
def accessToken (response : Bytes) : Option (Option Bytes) :=
  if isError response then some none
  else
    let response := cString response
    match strstr response (ascii "\"\x7d") with
    | none => none
    | some end_ =>
      match strstr (cutAt response end_ 0) (ascii "\x7b\"token\":") with
      | none => none
      | some start => some (some ((cutAt response end_ (start + 10)).take 300))

/-- The books of a response, from `[{"` on: `some none` where the server refuses, `none` where a null pointer is
printed. -/
def bookList (response : Bytes) : Option (Option Bytes) :=
  if isError response then some none
  else
    let response := cString response
    (strstr response (ascii "[\x7b\"")).map fun start => some (response.drop start)

/-- An array filled by `strncpy`, printed with `%s`: a full one has no terminator. -/
def readString (size : ℕ) (copied : Bytes) : Option Bytes := if copied.length < size then some copied else none

/-! ### Commands -/

/-- The body of `register` and `login`. -/
def userBody (i : Input) : ℕ × Bytes :=
  (29 + (i.typed 1).length + (i.typed 0).length, ascii "\x7b\"username\":\"" ++ i.typed 0 ++
    ascii "\",\"password\":\"" ++ i.typed 1 ++ ascii "\"\x7d")

/-- `register`. -/
def register (s : State) (i : Input) : Option (State × List Request) :=
  (request .register (ascii "POST /api/v1/tema/auth/register") none none (userBody i)).map fun r => (s, [r])

/-- `login`. -/
def login (s : State) (i : Input) : Option (State × List Request) := do
  let r ← request .login (ascii "POST /api/v1/tema/auth/login") none none (userBody i)
  match ← loginCookie i.response with
  | none => some (s, [r])
  | some cookie => some ({ s with cookie := cookie, loggedIn := true }, [r])

/-- `enter_library`. -/
def enterLibrary (s : State) (i : Input) : Option (State × List Request) :=
  if s.loggedIn then do
    let cookie ← readString 200 s.cookie
    let r ← request .access (ascii "GET /api/v1/tema/library/access") none cookie none
    match ← accessToken i.response with
    | none => some (s, [r])
    | some jwt => some ({ s with jwt := jwt, jwtAccess := true }, [r])
  else some (s, [])

/-- A request with both credentials, if the client is in the library. -/
def authorized (s : State) (endpoint : Endpoint) (line : Bytes) (body : Option (ℕ × Bytes)) :
    Option (State × List Request) :=
  if s.loggedIn && s.jwtAccess then do
    let jwt ← readString 300 s.jwt
    let cookie ← readString 200 s.cookie
    (request endpoint line jwt cookie body).map fun r => (s, [r])
  else some (s, [])

/-- `get_books`; the books are printed. -/
def getBooks (s : State) (i : Input) : Option (State × List Request) :=
  if s.loggedIn && s.jwtAccess && (bookList i.response).isNone then none
  else authorized s .books (ascii "GET /api/v1/tema/library/books") none

/-- `get_book`; so is the book. -/
def getBook (s : State) (i : Input) : Option (State × List Request) :=
  if s.loggedIn && s.jwtAccess && (bookList i.response).isNone then none
  else authorized s .book (ascii "GET /api/v1/tema/library/books/" ++ i.typed 0) none

/-- The body of `add_book`. -/
def bookBody (i : Input) : ℕ × Bytes :=
  (21 + 45 + (i.typed 0).length + (i.typed 1).length + (i.typed 2).length + (i.typed 3).length +
    (i.typed 4).length, ascii "\x7b\"title\":\"" ++ i.typed 0 ++ ascii "\",\"author\":\"" ++ i.typed 1 ++
    ascii "\",\"genre\":\"" ++ i.typed 2 ++ ascii "\",\"publisher\":\"" ++ i.typed 3 ++
    ascii "\",\"page_count\":" ++ printInt (atoi (i.typed 4)) ++ ascii "\x7d")

/-- `add_book`; the body is printed into an array of 500 first. -/
def addBook (s : State) (i : Input) : Option (State × List Request) :=
  if s.loggedIn && s.jwtAccess && decide (500 ≤ (bookBody i).2.length) then none
  else authorized s .addBook (ascii "POST /api/v1/tema/library/books") (bookBody i)

/-- `delete_book`. -/
def deleteBook (s : State) (i : Input) : Option (State × List Request) :=
  authorized s .deleteBook (ascii "DELETE /api/v1/tema/library/books/" ++ i.typed 0) none

/-- `logout`, whatever the server answers. -/
def logout (s : State) : Option (State × List Request) :=
  if s.loggedIn && s.jwtAccess then
    (authorized s .logout (ascii "GET /api/v1/tema/auth/logout") none).map fun (s, out) =>
      ({ s with loggedIn := false, jwtAccess := false }, out)
  else some (s, [])

/-- The commands the loop tells apart. -/
inductive Command
  | exit
  | register
  | login
  | enterLibrary
  | getBooks
  | getBook
  | addBook
  | deleteBook
  | logout
  | unknown
  deriving DecidableEq

/-- The `strncmp` cascade. -/
def commandOf (input : Bytes) : Command :=
  if startsWith (ascii "exit") input then .exit
  else if startsWith (ascii "register") input then .register
  else if startsWith (ascii "login") input then .login
  else if startsWith (ascii "enter_library") input then .enterLibrary
  else if startsWith (ascii "get_books") input then .getBooks
  else if startsWith (ascii "get_book") input then .getBook
  else if startsWith (ascii "add_book") input then .addBook
  else if startsWith (ascii "delete_book") input then .deleteBook
  else if startsWith (ascii "logout") input then .logout
  else .unknown

/-- The commands that need the library. -/
def Command.isLibrary : Command → Bool
  | .getBooks | .getBook | .addBook | .deleteBook => true
  | _ => false

/-- The loop body. -/
def step (s : State) (i : Input) : Option (State × List Request) :=
  match commandOf i.input with
  | .exit => none
  | .register => register s i
  | .login => login s i
  | .enterLibrary => enterLibrary s i
  | .getBooks => getBooks s i
  | .getBook => getBook s i
  | .addBook => addBook s i
  | .deleteBook => deleteBook s i
  | .logout => logout s
  | .unknown => some (s, [])

/-! ### Everything a step can do -/

/-- The cookie a successful `login` returns. -/
def loginOf (i : Input) : Option Bytes :=
  if commandOf i.input = .login then (loginCookie i.response).join else none

/-- The JWT a successful `enter_library` returns. -/
def tokenOf (s : State) (i : Input) : Option Bytes :=
  if commandOf i.input = .enterLibrary ∧ s.loggedIn then (accessToken i.response).join else none

/-- The outcomes of a step. -/
inductive Effect (s : State) (i : Input) : State → List Request → Prop
  /-- No credential is sent or received. -/
  | plain {out : List Request} : loginOf i = none → tokenOf s i = none →
      ¬ ((commandOf i.input).isLibrary ∧ s.loggedIn ∧ s.jwtAccess) →
      (∀ r ∈ out, r.cookie = none ∧ r.jwt = none ∧ r.endpoint.isLibrary = false ∧ r.endpoint ≠ .logout) →
      Effect s i s out
  /-- A login succeeds. -/
  | loggedIn {r : Request} (cookie : Bytes) : loginOf i = some cookie → tokenOf s i = none →
      ¬ (commandOf i.input).isLibrary → r.endpoint = .login → r.cookie = none → r.jwt = none →
      Effect s i { s with cookie := cookie, loggedIn := true } [r]
  /-- The library refuses. -/
  | refused {r : Request} : s.loggedIn → loginOf i = none → tokenOf s i = none →
      (accessToken i.response).join = none → ¬ (commandOf i.input).isLibrary → r.endpoint = .access →
      r.cookie = some s.cookie → r.jwt = none →
      Effect s i s [r]
  /-- The library is entered. -/
  | entered {r : Request} (jwt : Bytes) : s.loggedIn → loginOf i = none → tokenOf s i = some jwt →
      (accessToken i.response).join = some jwt → ¬ (commandOf i.input).isLibrary → r.endpoint = .access →
      r.cookie = some s.cookie → r.jwt = none →
      Effect s i { s with jwt := jwt, jwtAccess := true } [r]
  /-- A library command is sent. -/
  | library {r : Request} : s.loggedIn → s.jwtAccess → loginOf i = none → tokenOf s i = none →
      (commandOf i.input).isLibrary → r.endpoint.isLibrary → r.cookie = some s.cookie → r.jwt = some s.jwt →
      Effect s i s [r]
  /-- The session ends. -/
  | loggedOut {r : Request} : s.loggedIn → s.jwtAccess → loginOf i = none → tokenOf s i = none →
      ¬ (commandOf i.input).isLibrary → r.endpoint = .logout → r.cookie = some s.cookie → r.jwt = some s.jwt →
      Effect s i { s with loggedIn := false, jwtAccess := false } [r]

theorem request_eq_some {endpoint : Endpoint} {line : Bytes} {jwt cookie : Option Bytes}
    {body : Option (ℕ × Bytes)} {r : Request} (h : request endpoint line jwt cookie body = some r) :
    r.endpoint = endpoint ∧ r.jwt = jwt ∧ r.cookie = cookie := by
  rw [request, sprintf, Option.ite_none_right_eq_some] at h
  obtain ⟨-, h⟩ := h
  obtain rfl := Option.some.inj h
  exact ⟨rfl, rfl, rfl⟩

theorem readString_eq_some {size : ℕ} {copied text : Bytes} (h : readString size copied = some text) :
    text = copied := by
  rw [readString, Option.ite_none_right_eq_some, Option.some.injEq] at h
  exact h.2.symm

variable {s s' : State} {i : Input} {out : List Request}

/-- What a request with both credentials does: nothing, outside the library. -/
theorem authorized_cases {endpoint : Endpoint} {line : Bytes} {body : Option (ℕ × Bytes)}
    (h : authorized s endpoint line body = some (s', out)) : s' = s ∧
      ((¬ (s.loggedIn ∧ s.jwtAccess) ∧ out = []) ∨ ∃ r, out = [r] ∧ s.loggedIn = true ∧ s.jwtAccess = true ∧
        request endpoint line (some s.jwt) (some s.cookie) body = some r) := by
  rw [authorized] at h
  split_ifs at h with hflags
  · simp only [Option.bind_eq_bind, Option.bind_eq_some_iff, Option.map_eq_some_iff, Prod.mk.injEq] at h
    obtain ⟨jwt, hjwt, cookie, hcookie, r, hr, rfl, rfl⟩ := h
    rw [readString_eq_some hjwt, readString_eq_some hcookie] at hr
    obtain ⟨hin, haccess⟩ := Bool.and_eq_true_iff.mp hflags
    exact ⟨rfl, Or.inr ⟨r, rfl, hin, haccess, hr⟩⟩
  · obtain ⟨rfl, rfl⟩ := Prod.mk.inj (Option.some.inj h)
    exact ⟨rfl, Or.inl ⟨fun hc => hflags (Bool.and_eq_true_iff.mpr hc), rfl⟩⟩

/-- What `login` does. -/
theorem login_cases (h : login s i = some (s', out)) : ∃ r answer,
    request .login (ascii "POST /api/v1/tema/auth/login") none none (userBody i) = some r ∧ out = [r] ∧
      loginCookie i.response = some answer ∧
      s' = answer.elim s fun cookie => { s with cookie := cookie, loggedIn := true } := by
  simp only [login, Option.bind_eq_bind, Option.bind_eq_some_iff] at h
  obtain ⟨r, hr, answer, hanswer, h⟩ := h
  refine ⟨r, answer, hr, ?_⟩
  cases answer with
  | none =>
    obtain ⟨rfl, rfl⟩ := Prod.mk.inj (Option.some.inj h)
    exact ⟨rfl, hanswer, rfl⟩
  | some cookie =>
    obtain ⟨rfl, rfl⟩ := Prod.mk.inj (Option.some.inj h)
    exact ⟨rfl, hanswer, rfl⟩

/-- What `enter_library` does for a client that is logged in. -/
theorem enterLibrary_cases (hin : s.loggedIn = true) (h : enterLibrary s i = some (s', out)) : ∃ r answer,
    request .access (ascii "GET /api/v1/tema/library/access") none (some s.cookie) none = some r ∧ out = [r] ∧
      accessToken i.response = some answer ∧
      s' = answer.elim s fun jwt => { s with jwt := jwt, jwtAccess := true } := by
  simp only [enterLibrary, if_pos hin, Option.bind_eq_bind, Option.bind_eq_some_iff] at h
  obtain ⟨cookie, hread, r, hr, answer, hanswer, h⟩ := h
  rw [readString_eq_some hread] at hr
  refine ⟨r, answer, hr, ?_⟩
  cases answer with
  | none =>
    obtain ⟨rfl, rfl⟩ := Prod.mk.inj (Option.some.inj h)
    exact ⟨rfl, hanswer, rfl⟩
  | some jwt =>
    obtain ⟨rfl, rfl⟩ := Prod.mk.inj (Option.some.inj h)
    exact ⟨rfl, hanswer, rfl⟩

/-- A request with both credentials carries the ones the client holds. -/
theorem authorized_eq_some {endpoint : Endpoint} {line : Bytes} {body : Option (ℕ × Bytes)}
    (h : authorized s endpoint line body = some (s', out)) : s' = s ∧
      ((¬ (s.loggedIn ∧ s.jwtAccess) ∧ out = []) ∨ ∃ r, out = [r] ∧ s.loggedIn = true ∧ s.jwtAccess = true ∧
        r.endpoint = endpoint ∧ r.cookie = some s.cookie ∧ r.jwt = some s.jwt) := by
  obtain ⟨hsame, hout | ⟨r, hout, hin, haccess, hr⟩⟩ := authorized_cases h
  · exact ⟨hsame, Or.inl hout⟩
  · obtain ⟨hendpoint, hjwt, hcookie⟩ := request_eq_some hr
    exact ⟨hsame, Or.inr ⟨r, hout, hin, haccess, hendpoint, hcookie, hjwt⟩⟩

theorem loginOf_of_ne (h : commandOf i.input ≠ .login) : loginOf i = none := if_neg h

theorem tokenOf_of_ne (h : commandOf i.input ≠ .enterLibrary) : tokenOf s i = none := if_neg fun hc => h hc.1

/-- The four library commands. -/
theorem library_effect (hlibrary : (commandOf i.input).isLibrary = true) {endpoint : Endpoint} {line : Bytes}
    {body : Option (ℕ × Bytes)} (hendpoint : endpoint.isLibrary = true)
    (h : authorized s endpoint line body = some (s', out)) : Effect s i s' out := by
  have hlogin : loginOf i = none := loginOf_of_ne (by rintro hc; rw [hc] at hlibrary; cases hlibrary)
  have htoken : tokenOf s i = none := tokenOf_of_ne (by rintro hc; rw [hc] at hlibrary; cases hlibrary)
  obtain ⟨rfl, ⟨hflags, rfl⟩ | ⟨r, rfl, hin, haccess, hr, hcookie, hjwt⟩⟩ := authorized_eq_some h
  · exact .plain hlogin htoken (fun hc => hflags hc.2) (by simp)
  · exact .library hin haccess hlogin htoken hlibrary (by rw [hr, hendpoint]) hcookie hjwt

/-- **Everything a step can do.** -/
theorem step_effect (h : step s i = some (s', out)) : Effect s i s' out := by
  cases hc : commandOf i.input with
  | exit => rw [step, hc] at h; cases h
  | unknown =>
    rw [step, hc] at h
    obtain ⟨rfl, rfl⟩ := Prod.mk.inj (Option.some.inj h)
    exact .plain (loginOf_of_ne (by simp [hc])) (tokenOf_of_ne (by simp [hc])) (by simp [hc, Command.isLibrary])
      (by simp)
  | register =>
    simp only [step, hc, register, Option.map_eq_some_iff, Prod.mk.injEq] at h
    obtain ⟨r, hr, rfl, rfl⟩ := h
    obtain ⟨hendpoint, hjwt, hcookie⟩ := request_eq_some hr
    exact .plain (loginOf_of_ne (by simp [hc])) (tokenOf_of_ne (by simp [hc])) (by simp [hc, Command.isLibrary])
      (by simp [hendpoint, hjwt, hcookie, Endpoint.isLibrary])
  | login =>
    rw [step, hc] at h
    obtain ⟨r, answer, hr, rfl, hanswer, rfl⟩ := login_cases h
    obtain ⟨hendpoint, hjwt, hcookie⟩ := request_eq_some hr
    have hlogin : loginOf i = answer := by rw [loginOf, if_pos hc, hanswer]; rfl
    have htoken : tokenOf s i = none := tokenOf_of_ne (by simp [hc])
    cases answer with
    | none =>
      exact .plain hlogin htoken (by simp [hc, Command.isLibrary])
        (by simp [hendpoint, hjwt, hcookie, Endpoint.isLibrary])
    | some cookie => exact .loggedIn cookie hlogin htoken (by simp [hc, Command.isLibrary]) hendpoint hcookie hjwt
  | enterLibrary =>
    have hlogin : loginOf i = none := loginOf_of_ne (by simp [hc])
    rw [step, hc] at h
    by_cases hin : s.loggedIn = true
    · obtain ⟨r, answer, hr, rfl, hanswer, rfl⟩ := enterLibrary_cases hin h
      obtain ⟨hendpoint, hjwt, hcookie⟩ := request_eq_some hr
      have hjoin : (accessToken i.response).join = answer := by rw [hanswer]; rfl
      have htoken : tokenOf s i = answer := by rw [tokenOf, if_pos ⟨hc, hin⟩, hjoin]
      cases answer with
      | none => exact .refused hin hlogin htoken hjoin (by simp [hc, Command.isLibrary]) hendpoint hcookie hjwt
      | some jwt =>
        exact .entered jwt hin hlogin htoken hjoin (by simp [hc, Command.isLibrary]) hendpoint hcookie hjwt
    · simp only [enterLibrary, if_neg hin] at h
      obtain ⟨rfl, rfl⟩ := Prod.mk.inj (Option.some.inj h)
      exact .plain hlogin (if_neg fun ht => hin ht.2) (by simp [hc, Command.isLibrary]) (by simp)
  | getBooks =>
    rw [step, hc] at h
    simp only [getBooks] at h
    split_ifs at h
    exact library_effect (by rw [hc]; rfl) rfl h
  | getBook =>
    rw [step, hc] at h
    simp only [getBook] at h
    split_ifs at h
    exact library_effect (by rw [hc]; rfl) rfl h
  | addBook =>
    rw [step, hc] at h
    simp only [addBook] at h
    split_ifs at h
    exact library_effect (by rw [hc]; rfl) rfl h
  | deleteBook =>
    rw [step, hc] at h
    exact library_effect (by rw [hc]; rfl) rfl h
  | logout =>
    have hlogin : loginOf i = none := loginOf_of_ne (by simp [hc])
    have htoken : tokenOf s i = none := tokenOf_of_ne (by simp [hc])
    simp only [step, hc, logout] at h
    split_ifs at h with hflags
    · simp only [Option.map_eq_some_iff, Prod.mk.injEq, Prod.exists] at h
      obtain ⟨s₁, out₁, h, rfl, rfl⟩ := h
      obtain ⟨rfl, ⟨hno, -⟩ | ⟨r, rfl, hin, haccess, hr, hcookie, hjwt⟩⟩ := authorized_eq_some h
      · exact absurd (Bool.and_eq_true_iff.mp hflags) hno
      · exact .loggedOut hin haccess hlogin htoken (by simp [hc, Command.isLibrary]) hr hcookie hjwt
    · obtain ⟨rfl, rfl⟩ := Prod.mk.inj (Option.some.inj h)
      exact .plain hlogin htoken (by simp [hc, Command.isLibrary]) (by simp)

end Pcom.Tema3.Client
