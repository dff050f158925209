import Pcom.Tema3.Client

/-!
# The texts the client formats

Every request is printed into `char message[500]`, the body of `add_book` into `char payload[500]` first, and the
credentials into them from the arrays `strncpy` has filled.  Nothing compares the lengths with the arrays.

* `step_error_isSome` — `Fits` is what keeps a command defined, whatever the server answers to it;
* `formatted_fits_iff` — **the room there is**: each command fits exactly as long as the texts typed and the credentials
  held do not exceed a number of characters of its own;
* `content_length_iff` — **the announced length** is right exactly when the number of pages is typed with no more
  characters than it is printed with.
-/

namespace Pcom.Tema3.Formats

open Pcom.Lib.Scan Pcom.Lib.Words Pcom.Tema3.Client

/-! ### What a command formats -/

/-- The command sends a request: its flags are set. -/
def sends (s : State) : Command → Bool
  | .register | .login => true
  | .enterLibrary => s.loggedIn
  | .getBooks | .getBook | .addBook | .deleteBook | .logout => s.loggedIn && s.jwtAccess
  | .exit | .unknown => false

/-- The first line of its request, up to the version. -/
def lineOf (i : Input) : Command → Bytes
  | .register => ascii "POST /api/v1/tema/auth/register"
  | .login => ascii "POST /api/v1/tema/auth/login"
  | .enterLibrary => ascii "GET /api/v1/tema/library/access"
  | .getBooks => ascii "GET /api/v1/tema/library/books"
  | .getBook => ascii "GET /api/v1/tema/library/books/" ++ i.typed 0
  | .addBook => ascii "POST /api/v1/tema/library/books"
  | .deleteBook => ascii "DELETE /api/v1/tema/library/books/" ++ i.typed 0
  | .logout => ascii "GET /api/v1/tema/auth/logout"
  | .exit | .unknown => []

/-- The length it announces, and its JSON body. -/
def bodyOf (i : Input) : Command → Option (ℕ × Bytes)
  | .register | .login => some (userBody i)
  | .addBook => some (bookBody i)
  | _ => none

def cookieOf (s : State) : Command → Option Bytes
  | .enterLibrary | .getBooks | .getBook | .addBook | .deleteBook | .logout => some s.cookie
  | _ => none

def jwtOf (s : State) : Command → Option Bytes
  | .getBooks | .getBook | .addBook | .deleteBook | .logout => some s.jwt
  | _ => none

/-- The text of the request. -/
def messageOf (s : State) (i : Input) : Bytes :=
  let c := commandOf i.input
  message (lineOf i c) (jwtOf s c) (cookieOf s c) (bodyOf i c)

/-- What a command formats: its `message`, and `add_book` its `payload`. -/
def formatted (s : State) (i : Input) : List Bytes :=
  if sends s (commandOf i.input) then
    (if commandOf i.input = .addBook then [(bookBody i).2] else []) ++ [messageOf s i]
  else []

/-- Every text fits its array of 500 with its terminator, and the credentials printed are terminated. -/
structure Fits (s : State) (i : Input) : Prop where
  texts : ∀ text ∈ formatted s i, text.length + 1 ≤ 500
  cookie : sends s (commandOf i.input) → ∀ c ∈ cookieOf s (commandOf i.input), c.length < 200
  jwt : sends s (commandOf i.input) → ∀ j ∈ jwtOf s (commandOf i.input), j.length < 300

/-! ### What a step sends -/

theorem request_isSome_iff {endpoint : Endpoint} {line : Bytes} {jwt cookie : Option Bytes}
    {body : Option (ℕ × Bytes)} : (request endpoint line jwt cookie body).isSome ↔
      (message line jwt cookie body).length < 500 := by
  rw [request, sprintf]
  split <;> simp_all

theorem request_message {endpoint : Endpoint} {line : Bytes} {jwt cookie : Option Bytes}
    {body : Option (ℕ × Bytes)} {r : Request} (h : request endpoint line jwt cookie body = some r) :
    r.message = message line jwt cookie body := by
  rw [request, sprintf, Option.ite_none_right_eq_some] at h
  obtain ⟨-, h⟩ := h
  obtain rfl := Option.some.inj h
  rfl

variable {s s' : State} {i : Input} {out : List Request}

/-- A step with one request. -/
theorem message_of_request {endpoint : Endpoint} {line : Bytes} {jwt cookie : Option Bytes} {body : Option (ℕ × Bytes)}
    {r : Request} (hout : out = [r]) (hr : request endpoint line jwt cookie body = some r) :
    ∀ r ∈ out, r.message = message line jwt cookie body := by
  intro r' hr'
  rw [hout] at hr'
  rw [List.mem_singleton.mp hr', request_message hr]

theorem authorized_message {endpoint : Endpoint} {line : Bytes} {body : Option (ℕ × Bytes)}
    (h : authorized s endpoint line body = some (s', out)) :
    ∀ r ∈ out, r.message = message line (some s.jwt) (some s.cookie) body := by
  obtain ⟨-, ⟨-, hout⟩ | ⟨r, hout, -, -, hr⟩⟩ := authorized_cases h
  · intro r hr
    rw [hout] at hr
    cases hr
  · exact message_of_request hout hr

/-- **The request of a step** is the text its command formats. -/
theorem step_message (h : step s i = some (s', out)) : ∀ r ∈ out, r.message = messageOf s i := by
  rw [messageOf]
  cases hc : commandOf i.input with
  | exit => rw [step, hc] at h; cases h
  | unknown =>
    rw [step, hc] at h
    obtain ⟨-, rfl⟩ := Prod.mk.inj (Option.some.inj h)
    simp
  | register =>
    simp only [step, hc, register, Option.map_eq_some_iff, Prod.mk.injEq] at h
    obtain ⟨r, hr, -, hout⟩ := h
    exact message_of_request hout.symm hr
  | login =>
    rw [step, hc] at h
    obtain ⟨r, -, hr, hout, -⟩ := login_cases h
    exact message_of_request hout hr
  | enterLibrary =>
    rw [step, hc] at h
    by_cases hin : s.loggedIn = true
    · obtain ⟨r, -, hr, hout, -⟩ := enterLibrary_cases hin h
      exact message_of_request hout hr
    · simp only [enterLibrary, if_neg hin] at h
      obtain ⟨-, rfl⟩ := Prod.mk.inj (Option.some.inj h)
      simp
  | getBooks =>
    simp only [step, hc, getBooks] at h
    split_ifs at h
    exact authorized_message h
  | getBook =>
    simp only [step, hc, getBook] at h
    split_ifs at h
    exact authorized_message h
  | addBook =>
    simp only [step, hc, addBook] at h
    split_ifs at h
    exact authorized_message h
  | deleteBook =>
    simp only [step, hc, deleteBook] at h
    exact authorized_message h
  | logout =>
    simp only [step, hc, logout] at h
    split_ifs at h
    · simp only [Option.map_eq_some_iff, Prod.mk.injEq, Prod.exists] at h
      obtain ⟨s₁, out₁, h, -, rfl⟩ := h
      exact authorized_message h
    · obtain ⟨-, rfl⟩ := Prod.mk.inj (Option.some.inj h)
      simp

/-! ### Fitting is being defined -/

theorem authorized_isSome_iff {endpoint : Endpoint} {line : Bytes} {body : Option (ℕ × Bytes)} :
    (authorized s endpoint line body).isSome ↔ ((s.loggedIn && s.jwtAccess) = true →
      s.jwt.length < 300 ∧ s.cookie.length < 200 ∧ (message line (some s.jwt) (some s.cookie) body).length < 500) := by
  rw [authorized]
  by_cases hflags : (s.loggedIn && s.jwtAccess) = true
  · rw [if_pos hflags, forall_prop_of_true hflags]
    simp only [readString, Option.bind_eq_bind]
    by_cases hjwt : s.jwt.length < 300
    · by_cases hcookie : s.cookie.length < 200
      · rw [if_pos hjwt, if_pos hcookie, Option.bind_some, Option.bind_some, Option.isSome_map,
          request_isSome_iff]
        simp [hjwt, hcookie]
      · rw [if_pos hjwt, if_neg hcookie]
        simp [hcookie]
    · rw [if_neg hjwt]
      simp [hjwt]
  · rw [if_neg hflags]
    simp [hflags]

/-- The same command, answered with an error. -/
def refused (i : Input) : Input := { i with response := ascii "error" }

/-- Nothing is searched in a response with an error. -/
theorem isError_cases {response : Bytes} (herror : isError response = true) :
    loginCookie response = some none ∧ accessToken response = some none ∧ bookList response = some none :=
  ⟨by rw [loginCookie, if_pos herror], by rw [accessToken, if_pos herror], by rw [bookList, if_pos herror]⟩

theorem refused_cases (i : Input) : loginCookie (refused i).response = some none ∧
    accessToken (refused i).response = some none ∧ bookList (refused i).response = some none :=
  isError_cases (show isError (ascii "error") = true by decide)

/-- `Fits`, array by array. -/
theorem fits_iff_arrays {c : Command} (hc : commandOf i.input = c) : Fits s i ↔ (sends s c = true →
    (∀ j ∈ jwtOf s c, j.length < 300) ∧ (∀ k ∈ cookieOf s c, k.length < 200) ∧
      (message (lineOf i c) (jwtOf s c) (cookieOf s c) (bodyOf i c)).length < 500 ∧
        (c = .addBook → (bookBody i).2.length < 500)) := by
  subst hc
  constructor
  · intro h hsends
    have htexts := h.texts
    rw [formatted, if_pos hsends] at htexts
    refine ⟨h.jwt hsends, h.cookie hsends, ?_, fun hadd => ?_⟩
    · exact htexts (messageOf s i) (by simp)
    · rw [if_pos hadd] at htexts
      exact htexts (bookBody i).2 (by simp)
  · intro h
    refine ⟨fun text htext => ?_, fun hsends => (h hsends).2.1, fun hsends => (h hsends).1⟩
    by_cases hsends : sends s (commandOf i.input) = true
    · obtain ⟨-, -, hmessage, hpayload⟩ := h hsends
      rw [formatted, if_pos hsends] at htext
      rcases List.mem_append.mp htext with hp | hm
      · by_cases hadd : commandOf i.input = .addBook
        · rw [if_pos hadd, List.mem_singleton] at hp
          rw [hp]
          exact hpayload hadd
        · rw [if_neg hadd] at hp
          cases hp
      · rw [List.mem_singleton.mp hm]
        exact hmessage
    · rw [formatted, if_neg hsends] at htext
      cases htext

/-- A command that needs the library is defined when its request is. -/
theorem authorized_isSome_iff_fits {c : Command} (hc : commandOf i.input = c) (hadd : c ≠ .addBook)
    (hsends : sends s c = (s.loggedIn && s.jwtAccess)) (hjwt : jwtOf s c = some s.jwt)
    (hcookie : cookieOf s c = some s.cookie) (endpoint : Endpoint) :
    (authorized s endpoint (lineOf i c) (bodyOf i c)).isSome ↔ Fits s i := by
  rw [authorized_isSome_iff, fits_iff_arrays hc, hsends, hjwt, hcookie]
  simp [hadd]

/-- **Fitting is being defined** when the server answers with an error. -/
theorem step_error_isSome :
    (step s (refused i)).isSome ↔ Fits s i ∧ commandOf i.input ≠ .exit := by
  have hinput : commandOf (refused i).input = commandOf i.input := rfl
  obtain ⟨hlogin, haccess, hbooks⟩ := refused_cases i
  cases hc : commandOf i.input with
  | exit => simp [step, hinput, hc]
  | unknown => simp [step, hinput, hc, fits_iff_arrays hc, sends]
  | register =>
    rw [fits_iff_arrays hc]
    simp only [step, hinput, hc, register, Option.isSome_map, request_isSome_iff]
    simp [sends, jwtOf, cookieOf, lineOf, bodyOf, userBody, refused]
  | login =>
    rw [fits_iff_arrays hc]
    have hbody : userBody (refused i) = userBody i := rfl
    simp only [step, hinput, hc, login, hbody]
    rw [hlogin]
    have hsome := @request_isSome_iff .login (ascii "POST /api/v1/tema/auth/login") none none (userBody i)
    simp only [sends, jwtOf, cookieOf, lineOf, bodyOf, ← hsome]
    cases request .login (ascii "POST /api/v1/tema/auth/login") none none (userBody i) <;> simp
  | enterLibrary =>
    rw [fits_iff_arrays hc]
    simp only [step, hinput, hc, enterLibrary]
    rw [haccess]
    by_cases hin : s.loggedIn = true
    · rw [if_pos hin]
      have hsome := @request_isSome_iff .access (ascii "GET /api/v1/tema/library/access") none s.cookie none
      simp only [sends, hin, jwtOf, cookieOf, lineOf, bodyOf, ← hsome, readString]
      by_cases hcookie : s.cookie.length < 200
      · rw [if_pos hcookie]
        cases hr : request .access (ascii "GET /api/v1/tema/library/access") none s.cookie none <;>
          simp [hr, hcookie]
      · rw [if_neg hcookie]
        simp [hcookie]
    · rw [if_neg hin]
      simp [sends, hin]
  | getBooks =>
    rw [← authorized_isSome_iff_fits hc (by decide) rfl rfl rfl .books, and_iff_left (by decide)]
    simp only [step, hinput, hc, getBooks]
    rw [hbooks, Option.isNone_some, Bool.and_false, if_neg (by decide)]
    rfl
  | getBook =>
    rw [← authorized_isSome_iff_fits hc (by decide) rfl rfl rfl .book, and_iff_left (by decide)]
    simp only [step, hinput, hc, getBook]
    rw [hbooks, Option.isNone_some, Bool.and_false, if_neg (by decide)]
    rfl
  | addBook =>
    have hbody : bookBody (refused i) = bookBody i := rfl
    have hsome := @authorized_isSome_iff s .addBook (ascii "POST /api/v1/tema/library/books") (some (bookBody i))
    rw [fits_iff_arrays hc, and_iff_left (by decide)]
    simp only [step, hinput, hc, addBook, hbody, sends, jwtOf, cookieOf, lineOf, bodyOf]
    by_cases hflags : (s.loggedIn && s.jwtAccess) = true
    · rw [forall_prop_of_true hflags] at hsome
      rw [forall_prop_of_true hflags, hflags, Bool.true_and]
      by_cases hpayload : (bookBody i).2.length < 500
      · rw [if_neg (by simpa using hpayload), hsome]
        simp [hpayload]
      · rw [if_pos (by simpa using hpayload)]
        simp [hpayload]
    · rw [Bool.not_eq_true] at hflags
      simp [authorized, hflags]
  | deleteBook =>
    rw [← authorized_isSome_iff_fits hc (by decide) rfl rfl rfl .deleteBook, and_iff_left (by decide)]
    simp only [step, hinput, hc, deleteBook]
    rfl
  | logout =>
    rw [← authorized_isSome_iff_fits hc (by decide) rfl rfl rfl .logout, and_iff_left (by decide)]
    simp only [step, hinput, hc, logout]
    split_ifs with hflags
    · rw [Option.isSome_map]
      rfl
    · simp [authorized, hflags]

/-! ### The room there is -/

/-- The number of characters of a request apart from its first line. -/
theorem length_message (line : Bytes) (jwt cookie : Option Bytes) (body : Option (ℕ × Bytes)) :
    (message line jwt cookie body).length = line.length + 34 + (jwt.elim 0 fun j => j.length + 24) +
      (cookie.elim 0 fun c => c.length + 10) +
        (body.elim 0 fun b => (printInt b.1).length + b.2.length + 52) := by
  have hcrlf : crlf.length = 2 := by decide
  have hhost : (ascii " HTTP/1.1\r\nHost: 34.118.48.238\r\n").length = 32 := by decide
  have hauth : (ascii "Authorization: Bearer ").length = 22 := by decide
  have hcookie : (ascii "Cookie: ").length = 8 := by decide
  have htype : (ascii "Content-Type: application/json\r\n").length = 32 := by decide
  have hlen : (ascii "Content-Length: ").length = 16 := by decide
  cases jwt <;> cases cookie <;> cases body <;>
    simp only [message, Option.elim, List.length_append, List.length_nil, hcrlf, hhost, hauth, hcookie, htype,
      hlen] <;> omega

/-- Numbers of three digits. -/
theorem length_printInt_nat (n : ℕ) : (100 ≤ n → 3 ≤ (printInt n).length) ∧
    (n < 1000 → (printInt n).length ≤ 3) := by
  have hprint : (printInt n).length = (decimal n).length := by rw [printInt_natCast]
  have htwo : (decimal n).length ≤ 2 ↔ n < 10 ^ 2 := by
    rw [decimal, List.length_map, Nat.length_toDigits_le_iff (by decide) (by decide)]
  rw [hprint]
  exact ⟨fun hlo => by omega, fun hhi => length_decimal_le (by decide) hhi⟩

theorem length_userBody (i : Input) :
    (userBody i).2.length = 29 + (i.typed 0).length + (i.typed 1).length := by
  simp only [userBody, List.length_append, show (ascii "\x7b\"username\":\"").length = 13 by decide,
    show (ascii "\",\"password\":\"").length = 14 by decide, show (ascii "\"\x7d").length = 2 by decide]
  omega

theorem length_bookBody (i : Input) :
    (bookBody i).2.length = 64 + (i.typed 0).length + (i.typed 1).length + (i.typed 2).length +
      (i.typed 3).length + (printInt (atoi (i.typed 4))).length := by
  simp only [bookBody, List.length_append, show (ascii "\x7b\"title\":\"").length = 10 by decide,
    show (ascii "\",\"author\":\"").length = 12 by decide, show (ascii "\",\"genre\":\"").length = 11 by decide,
    show (ascii "\",\"publisher\":\"").length = 15 by decide,
    show (ascii "\",\"page_count\":").length = 15 by decide, show (ascii "\x7d").length = 1 by decide]
  omega

/-- The credentials are terminated in their arrays, and fit together with `used` more characters. -/
def CredentialsFit (s : State) (used room : ℕ) : Prop :=
  s.loggedIn → s.jwtAccess → s.cookie.length < 200 ∧ s.jwt.length < 300 ∧
    s.cookie.length + s.jwt.length + used ≤ room

/-- What `add_book` prints of what is typed: four texts, the number, and their announced length. -/
def bookRoom (i : Input) : ℕ :=
  (i.typed 0).length + (i.typed 1).length + (i.typed 2).length + (i.typed 3).length +
    (printInt (atoi (i.typed 4))).length + (printInt (bookBody i).1).length

/-- **The room there is**, command by command. -/
def Room (s : State) (i : Input) : Prop :=
  match commandOf i.input with
  | .register => (i.typed 0).length + (i.typed 1).length ≤ 350
  | .login => (i.typed 0).length + (i.typed 1).length ≤ 353
  | .enterLibrary => s.loggedIn → s.cookie.length < 200
  | .getBooks => CredentialsFit s 0 401
  | .getBook => CredentialsFit s (i.typed 0).length 400
  | .addBook => CredentialsFit s (bookRoom i) 284
  | .deleteBook => CredentialsFit s (i.typed 0).length 397
  | .logout => CredentialsFit s 0 403
  | .exit | .unknown => True

/-- A command that needs the library, from the length of its request without the credentials. -/
theorem fits_iff_credentials {c : Command} (hc : commandOf i.input = c) (hadd : c ≠ .addBook)
    (hsends : sends s c = (s.loggedIn && s.jwtAccess)) (hjwt : jwtOf s c = some s.jwt)
    (hcookie : cookieOf s c = some s.cookie) (hbody : bodyOf i c = none) {used room : ℕ}
    (hlen : (lineOf i c).length + room = used + 431) : Fits s i ↔ CredentialsFit s used room := by
  rw [fits_iff_arrays hc, hsends, hjwt, hcookie, hbody, length_message, Bool.and_eq_true, and_imp, CredentialsFit]
  refine forall_congr' fun _ => forall_congr' fun _ => ?_
  simp only [Option.elim, Option.mem_def, Option.some.injEq, forall_eq']
  constructor
  · rintro ⟨hj, hk, hmessage, -⟩
    exact ⟨hk, hj, by omega⟩
  · rintro ⟨hk, hj, hroom⟩
    exact ⟨hj, hk, by omega, fun h => absurd h hadd⟩

/-- `register` and `login`, from the length of the first line. -/
theorem fits_iff_user {c : Command} (hc : commandOf i.input = c) (hadd : c ≠ .addBook) (hsends : sends s c = true)
    (hjwt : jwtOf s c = none) (hcookie : cookieOf s c = none) (hbody : bodyOf i c = some (userBody i)) {room : ℕ}
    (hlen : (lineOf i c).length + room = 381) (hlo : 71 ≤ room) :
    Fits s i ↔ (i.typed 0).length + (i.typed 1).length ≤ room := by
  have hlength : (userBody i).1 = 29 + (i.typed 1).length + (i.typed 0).length := rfl
  rw [fits_iff_arrays hc, forall_prop_of_true hsends, hjwt, hcookie, hbody, length_message]
  simp only [Option.elim, length_userBody, hlength, Option.mem_def, reduceCtorEq, false_implies, implies_true,
    true_and, hadd, and_true]
  obtain ⟨hmin, hmax⟩ := length_printInt_nat (29 + (i.typed 1).length + (i.typed 0).length)
  omega

/-- **The room there is.** -/
theorem formatted_fits_iff (s : State) (i : Input) : Fits s i ↔ Room s i := by
  rw [Room]
  cases hc : commandOf i.input with
  | exit | unknown => simp [fits_iff_arrays hc, sends]
  | register =>
    have hline : (ascii "POST /api/v1/tema/auth/register").length = 31 := by decide
    exact fits_iff_user hc (by decide) rfl rfl rfl rfl (by rw [lineOf, hline]) (by decide)
  | login =>
    have hline : (ascii "POST /api/v1/tema/auth/login").length = 28 := by decide
    exact fits_iff_user hc (by decide) rfl rfl rfl rfl (by rw [lineOf, hline]) (by decide)
  | enterLibrary =>
    have hline : (ascii "GET /api/v1/tema/library/access").length = 31 := by decide
    rw [fits_iff_arrays hc, length_message, lineOf, hline]
    simp only [sends, jwtOf, cookieOf, bodyOf, Option.elim, Option.mem_def, Option.some.injEq, forall_eq',
      reduceCtorEq, false_implies, implies_true, true_and, and_true]
    refine forall_congr' fun _ => ?_
    constructor
    · exact And.left
    · intro hcookie
      exact ⟨hcookie, by omega⟩
  | getBooks =>
    have hline : (ascii "GET /api/v1/tema/library/books").length = 30 := by decide
    exact fits_iff_credentials hc (by decide) rfl rfl rfl rfl (by rw [lineOf, hline])
  | getBook =>
    have hline : (ascii "GET /api/v1/tema/library/books/").length = 31 := by decide
    refine fits_iff_credentials hc (by decide) rfl rfl rfl rfl ?_
    rw [lineOf, List.length_append, hline]
    omega
  | addBook =>
    have hline : (ascii "POST /api/v1/tema/library/books").length = 31 := by decide
    rw [fits_iff_arrays hc, length_message, lineOf, hline]
    simp only [sends, jwtOf, cookieOf, bodyOf, Option.elim, Option.mem_def, Option.some.injEq, forall_eq',
      Bool.and_eq_true, and_imp, CredentialsFit, bookRoom, length_bookBody, true_implies]
    refine forall_congr' fun _ => forall_congr' fun _ => ?_
    constructor
    · rintro ⟨hj, hk, hmessage, -⟩
      exact ⟨hk, hj, by omega⟩
    · rintro ⟨hk, hj, hroom⟩
      exact ⟨hj, hk, by omega, by omega⟩
  | deleteBook =>
    have hline : (ascii "DELETE /api/v1/tema/library/books/").length = 34 := by decide
    refine fits_iff_credentials hc (by decide) rfl rfl rfl rfl ?_
    rw [lineOf, List.length_append, hline]
    omega
  | logout =>
    have hline : (ascii "GET /api/v1/tema/auth/logout").length = 28 := by decide
    exact fits_iff_credentials hc (by decide) rfl rfl rfl rfl (by rw [lineOf, hline])

/-- A name and a password of 199 characters each. -/
def longNames : Input := ⟨ascii "register", fun _ => List.replicate 199 97, []⟩

theorem length_longNames (k : ℕ) : (longNames.typed k).length = 199 := List.length_replicate

/-- **An array overflows** for lines that `fgets` delivers. -/
theorem register_overflows : ∃ s i, s.cookie.length ≤ 200 ∧ s.jwt.length ≤ 300 ∧
    (∀ k, (i.typed k).length ≤ 199) ∧ ¬ Fits s i := by
  refine ⟨init [] [], longNames, by decide, by decide, fun k => (length_longNames k).le, ?_⟩
  have hroom := @fits_iff_user (init [] []) longNames .register (by decide) (by decide) rfl rfl rfl rfl 350
    (by decide) (by decide)
  rw [hroom, length_longNames, length_longNames]
  decide

/-! ### The announced length -/

/-- The header block of a request, up to the announced length. -/
def headOf (line : Bytes) (jwt cookie : Option Bytes) : Bytes :=
  line ++ ascii " HTTP/1.1\r\nHost: 34.118.48.238\r\n" ++ ascii "Content-Type: application/json\r\n" ++
    (jwt.elim [] fun jwt => ascii "Authorization: Bearer " ++ jwt ++ crlf) ++
    (cookie.elim [] fun cookie => ascii "Cookie: " ++ cookie ++ crlf)

/-- A request with a body: the announced length, the blank line, and what is sent after it. -/
theorem message_body (line : Bytes) (jwt cookie : Option Bytes) (b : ℕ × Bytes) :
    message line jwt cookie (some b) =
      headOf line jwt cookie ++ (ascii "Content-Length: " ++ printInt b.1 ++ crlf ++ crlf) ++ (b.2 ++ crlf) := by
  simp only [message, headOf, Option.elim, List.append_assoc]

/-- The announced length covers the JSON text, and no more than what is sent after the blank line. -/
structure WellAnnounced (announced : ℕ) (json sent : Bytes) : Prop where
  covers : json.length ≤ announced
  arrives : announced ≤ sent.length

/-- The body of `add_book`: both bounds, of which the first always holds. -/
theorem wellAnnounced_bookBody (i : Input) :
    WellAnnounced (bookBody i).1 (bookBody i).2 ((bookBody i).2 ++ crlf) ↔
      (i.typed 4).length ≤ (printInt (atoi (i.typed 4))).length := by
  have hprint := length_printInt_atoi (i.typed 4)
  have hannounced : (bookBody i).1 = 21 + 45 + (i.typed 0).length + (i.typed 1).length + (i.typed 2).length +
      (i.typed 3).length + (i.typed 4).length := rfl
  have hsent : ((bookBody i).2 ++ crlf).length = (bookBody i).2.length + 2 := List.length_append
  constructor
  · intro h
    have := h.arrives
    rw [hannounced, hsent, length_bookBody] at this
    omega
  · intro h
    refine ⟨?_, ?_⟩
    · rw [hannounced, length_bookBody]
      omega
    · rw [hannounced, hsent, length_bookBody]
      omega

/-- The body of `register` and `login` is announced with its exact length. -/
theorem wellAnnounced_userBody (i : Input) :
    WellAnnounced (userBody i).1 (userBody i).2 ((userBody i).2 ++ crlf) := by
  have hannounced : (userBody i).1 = 29 + (i.typed 1).length + (i.typed 0).length := rfl
  have hsent : ((userBody i).2 ++ crlf).length = (userBody i).2.length + 2 := List.length_append
  have hlen := length_userBody i
  exact ⟨by omega, by omega⟩

/-- **The announced length**, in every request with a body. -/
theorem content_length_iff {s : State} {i : Input} {b : ℕ × Bytes}
    (hb : bodyOf i (commandOf i.input) = some b) :
    (∃ head, messageOf s i =
      head ++ (ascii "Content-Length: " ++ printInt b.1 ++ crlf ++ crlf) ++ (b.2 ++ crlf)) ∧
    (WellAnnounced b.1 b.2 (b.2 ++ crlf) ↔
      (commandOf i.input = .addBook → (i.typed 4).length ≤ (printInt (atoi (i.typed 4))).length)) := by
  constructor
  · simp only [messageOf, hb, message_body]
    exact ⟨_, rfl⟩
  · cases hc : commandOf i.input with
    | register | login =>
      rw [hc, bodyOf, Option.some.injEq] at hb
      subst hb
      exact iff_of_true (wellAnnounced_userBody i) (by rintro ⟨⟩)
    | addBook =>
      rw [hc, bodyOf, Option.some.injEq] at hb
      subst hb
      rw [wellAnnounced_bookBody, forall_prop_of_true rfl]
    | _ =>
      rw [hc] at hb
      cases hb

/-- A book of seven pages; the number is typed with leading zeros or without. -/
def sevenPages (pages : Bytes) : Input where
  input := ascii "add_book"
  typed := fun k => if k = 4 then pages else ascii "a"
  response := []

theorem seven_announced : WellAnnounced (bookBody (sevenPages (ascii "7"))).1 (bookBody (sevenPages (ascii "7"))).2
    ((bookBody (sevenPages (ascii "7"))).2 ++ crlf) :=
  (content_length_iff (s := init [] []) (i := sevenPages (ascii "7")) rfl).2.mpr fun _ => by decide

/-- **More bytes are announced than sent** for `0000007`: the server waits for the last six. -/
theorem leading_zeros_announced : ∃ i, bodyOf i (commandOf i.input) = some (bookBody i) ∧
    ((bookBody i).2 ++ crlf).length < (bookBody i).1 ∧
      ¬ WellAnnounced (bookBody i).1 (bookBody i).2 ((bookBody i).2 ++ crlf) := by
  refine ⟨sevenPages (ascii "0000007"), rfl, by decide, ?_⟩
  rw [wellAnnounced_bookBody]
  decide

end Pcom.Tema3.Formats
