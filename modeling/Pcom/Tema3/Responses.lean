import Pcom.Tema3.Formats

/-!
# What the client makes of a response

Without the word `error` in it, a response counts as a success.  What the handlers then look for they use as if it
had been found: `Date:` behind a cookie, `"}` and the token in front of it, `[{"` in front of the books.

* `step_isSome_iff` — a command whose request fits is defined as far as its searches succeed;
* `survives_iff` — **the exact condition** on the response, command by command;
* `library_without_token` — an empty response that ends the client.
-/

namespace Pcom.Tema3.Responses

open Pcom.Lib.Scan Pcom.Tema3.Client Pcom.Tema3.Formats

/-! ### What a response contains -/

/-- The response contains the cookie, with its name and `=`. -/
def HasCookie (response : Bytes) : Prop := ascii "connect.sid=" <:+: response

/-- The response contains a JSON object that starts with a token. -/
def HasToken (response : Bytes) : Prop := ∃ blanks token : Bytes, (∀ c ∈ blanks, isSpace c = true) ∧
  ascii "\x7b\"token\":" ++ blanks ++ ascii "\"" ++ token ++ ascii "\"" <:+: response

/-- The step goes through, takes a credential from a response that contains it only, and otherwise leaves the
session as it was; a logout ends it whatever the response. -/
structure Survives (s : State) (i : Input) : Prop where
  defined : (step s i).isSome
  cookie : (loginOf i).isSome → HasCookie i.response
  token : (tokenOf s i).isSome → HasToken i.response
  unchanged : ∀ s' out, step s i = some (s', out) → loginOf i = none → tokenOf s i = none →
    s' = s ∨ (∃ r ∈ out, r.endpoint = .logout) ∧ s' = { s with loggedIn := false, jwtAccess := false }

/-! ### The condition -/

/-- A successful `login` has a cookie only with a date behind its first 20 bytes. -/
def LoginOk (response : Bytes) : Prop :=
  strstr (cString response) (ascii "connect.sid") = none ∨
    (∃ d, strstr (cString response) (ascii "Date:") = some d ∧ 20 ≤ d) ∧ HasCookie response

/-- A successful `enter_library` has a token, which starts in front of the first `"}`. -/
def AccessOk (response : Bytes) : Prop :=
  (∃ e, strstr (cString response) (ascii "\"\x7d") = some e ∧
    strstr ((cString response).take e) (ascii "\x7b\"token\":") ≠ none) ∧ HasToken response

/-- A successful `get_books` or `get_book` has a list of objects. -/
def BooksOk (response : Bytes) : Prop := strstr (cString response) (ascii "[\x7b\"") ≠ none

/-- **The condition** on the response, command by command. -/
def Harmless (s : State) (i : Input) : Prop :=
  isError i.response = false →
    match commandOf i.input with
    | .login => LoginOk i.response
    | .enterLibrary => s.loggedIn → AccessOk i.response
    | .getBooks | .getBook => s.loggedIn → s.jwtAccess → BooksOk i.response
    | _ => True

/-! ### Searches -/

theorem strstr_le {s lit : Bytes} {k : ℕ} (h : strstr s lit = some k) : k ≤ s.length := by
  induction s generalizing k with
  | nil =>
    rw [strstr] at h
    split_ifs at h
    obtain rfl := Option.some.inj h
    exact Nat.zero_le _
  | cons c s ih =>
    rw [strstr] at h
    split_ifs at h
    · obtain rfl := Option.some.inj h
      exact Nat.zero_le _
    · obtain ⟨j, hj, rfl⟩ := Option.map_eq_some_iff.mp h
      exact Nat.succ_le_succ (ih hj)

/-- A string cut at a position, read from its start. -/
theorem cutAt_zero {s : Bytes} (hs : NoNul s) {e : ℕ} (he : e ≤ s.length) : cutAt s e 0 = s.take e := by
  have hset : (s ++ [0]).set e 0 = s.take e ++ 0 :: (s ++ [0]).drop (e + 1) := by
    rw [List.set_eq_take_append_cons_drop, if_pos (by simp; omega), List.take_append_of_le_length he]
  have hclean : ∀ c ∈ s.take e, (c != 0) = true := fun c hc => by simpa using hs c (List.mem_of_mem_take hc)
  rw [cutAt, List.drop_zero, hset]
  exact takeWhile_append_stop hclean (show StopsAt (· != 0) (0 :: _) by simp [StopsAt])

/-- What the searches of `login` come to. -/
theorem loginCookie_cases {response : Bytes} (herror : isError response = false) :
    ((loginCookie response).isSome ↔ strstr (cString response) (ascii "connect.sid") = none ∨
      ∃ d, strstr (cString response) (ascii "Date:") = some d ∧ 20 ≤ d) ∧
    ((loginCookie response).join.isSome ↔ strstr (cString response) (ascii "connect.sid") ≠ none ∧
      (loginCookie response).isSome) := by
  simp only [loginCookie, herror, Bool.false_eq_true, if_false]
  cases strstr (cString response) (ascii "connect.sid") with
  | none => simp
  | some start =>
    cases strstr (cString response) (ascii "Date:") with
    | none => simp
    | some d =>
      by_cases hd : d < 20
      · simp [hd]
      · simp [hd, not_lt.mp hd]

/-- What the searches of `enter_library` come to; where they succeed, there is a JWT. -/
theorem accessToken_cases {response : Bytes} (herror : isError response = false) :
    ((accessToken response).isSome ↔ ∃ e, strstr (cString response) (ascii "\"\x7d") = some e ∧
      strstr ((cString response).take e) (ascii "\x7b\"token\":") ≠ none) ∧
    ((accessToken response).join.isSome ↔ (accessToken response).isSome) := by
  simp only [accessToken, herror, Bool.false_eq_true, if_false]
  cases he : strstr (cString response) (ascii "\"\x7d") with
  | none => simp
  | some e =>
    have hcut : cutAt (cString response) e 0 = (cString response).take e :=
      cutAt_zero (noNul_cString response) (strstr_le he)
    simp only [hcut, Option.some.injEq, exists_eq_left']
    cases strstr ((cString response).take e) (ascii "\x7b\"token\":") with
    | none => simp
    | some start => simp

theorem bookList_cases {response : Bytes} (herror : isError response = false) :
    (bookList response).isSome ↔ BooksOk response := by
  simp only [bookList, herror, Bool.false_eq_true, if_false, Option.isSome_map]
  exact Option.isSome_iff_ne_none

/-! ### Where a step is defined -/

variable {s : State} {i : Input}

/-- The searches of the command succeed. -/
def Answered (s : State) (i : Input) : Prop :=
  match commandOf i.input with
  | .login => (loginCookie i.response).isSome
  | .enterLibrary => s.loggedIn → (accessToken i.response).isSome
  | .getBooks | .getBook => s.loggedIn → s.jwtAccess → (bookList i.response).isSome
  | _ => True

/-- A request with both credentials, and a search of its answer. -/
theorem guarded_isSome_iff {res : Option (State × List Request)} (hres : res.isSome) {β : Type} {found : Option β} :
    (if s.loggedIn && s.jwtAccess && found.isNone then none else res).isSome ↔
      (s.loggedIn → s.jwtAccess → found.isSome) := by
  cases found with
  | none =>
    cases hin : s.loggedIn <;> cases hacc : s.jwtAccess <;> simp [hres]
  | some b => simp [hres]

/-- **A command whose request fits** is defined as far as its searches succeed. -/
theorem step_isSome_iff (hfits : Fits s i) (hexit : commandOf i.input ≠ .exit) :
    (step s i).isSome ↔ Answered s i := by
  have hsent := step_error_isSome.mpr ⟨hfits, hexit⟩
  have hinput : commandOf (refused i).input = commandOf i.input := rfl
  rw [Answered]
  cases hc : commandOf i.input with
  | exit => exact absurd hc hexit
  | unknown => simp [step, hc]
  | register =>
    simp only [step, hinput, hc] at hsent ⊢
    exact iff_of_true hsent trivial
  | login =>
    simp only [step, hinput, hc, login, Option.bind_eq_bind] at hsent ⊢
    obtain ⟨res, hres⟩ := Option.isSome_iff_exists.mp hsent
    obtain ⟨r, hr, -⟩ := Option.bind_eq_some_iff.mp hres
    rw [show userBody i = userBody (refused i) from rfl, hr, Option.bind_some]
    rcases loginCookie i.response with _ | _ | cookie <;> simp
  | enterLibrary =>
    simp only [step, hinput, hc, enterLibrary, Option.bind_eq_bind] at hsent ⊢
    by_cases hin : s.loggedIn = true
    · rw [if_pos hin] at hsent
      obtain ⟨res, hres⟩ := Option.isSome_iff_exists.mp hsent
      obtain ⟨cookie, hcookie, hres⟩ := Option.bind_eq_some_iff.mp hres
      obtain ⟨r, hr, -⟩ := Option.bind_eq_some_iff.mp hres
      rw [if_pos hin, hcookie, Option.bind_some, hr, Option.bind_some, forall_prop_of_true hin]
      rcases accessToken i.response with _ | _ | jwt <;> simp
    · rw [if_neg hin]
      exact iff_of_true rfl fun h => absurd h hin
  | getBooks =>
    have hsent' : (authorized s .books (lineOf i .getBooks) none).isSome :=
      (authorized_isSome_iff_fits hc (by decide) rfl rfl rfl .books).mpr hfits
    simp only [step, hc, getBooks]
    exact guarded_isSome_iff hsent'
  | getBook =>
    have hsent' : (authorized s .book (lineOf i .getBook) none).isSome :=
      (authorized_isSome_iff_fits hc (by decide) rfl rfl rfl .book).mpr hfits
    simp only [step, hc, getBook]
    exact guarded_isSome_iff hsent'
  | addBook =>
    simp only [step, hinput, hc] at hsent ⊢
    exact iff_of_true hsent trivial
  | deleteBook =>
    simp only [step, hinput, hc] at hsent ⊢
    exact iff_of_true hsent trivial
  | logout =>
    simp only [step, hinput, hc] at hsent ⊢
    exact iff_of_true hsent trivial

/-! ### Surviving a response -/

/-- Nothing but a credential taken, or a logout, changes the session. -/
theorem step_unchanged {s' : State} {out : List Request} (h : step s i = some (s', out)) (hlogin : loginOf i = none)
    (htoken : tokenOf s i = none) :
    s' = s ∨ (∃ r ∈ out, r.endpoint = .logout) ∧ s' = { s with loggedIn := false, jwtAccess := false } := by
  cases step_effect h with
  | plain => exact Or.inl rfl
  | loggedIn cookie hsome => exact absurd (hsome.symm.trans hlogin) (by simp)
  | refused => exact Or.inl rfl
  | entered jwt _ _ hsome => exact absurd (hsome.symm.trans htoken) (by simp)
  | library => exact Or.inl rfl
  | loggedOut _ _ _ _ _ hendpoint => exact Or.inr ⟨⟨_, List.mem_cons_self, hendpoint⟩, rfl⟩

theorem survives_iff_answered (hfits : Fits s i) (hexit : commandOf i.input ≠ .exit) :
    Survives s i ↔ Answered s i ∧ ((loginOf i).isSome → HasCookie i.response) ∧
      ((tokenOf s i).isSome → HasToken i.response) := by
  rw [← step_isSome_iff hfits hexit]
  exact ⟨fun h => ⟨h.defined, h.cookie, h.token⟩, fun ⟨hdefined, hcookie, htoken⟩ =>
    ⟨hdefined, hcookie, htoken, fun _ _ h hl ht => step_unchanged h hl ht⟩⟩

/-- A response with an error takes nothing. -/
theorem survives_error (hfits : Fits s i) (hexit : commandOf i.input ≠ .exit) (herror : isError i.response = true) :
    Survives s i := by
  obtain ⟨hlogin, haccess, hbooks⟩ := isError_cases herror
  have hlogin' : loginOf i = none := by
    rw [loginOf, hlogin]
    split <;> rfl
  have htoken' : tokenOf s i = none := by
    rw [tokenOf, haccess]
    split <;> rfl
  rw [survives_iff_answered hfits hexit, hlogin', htoken', Answered, hlogin, haccess, hbooks]
  refine ⟨?_, by rintro ⟨⟩, by rintro ⟨⟩⟩
  cases commandOf i.input <;> simp

/-- **The exact condition on the response.** -/
theorem survives_iff (hfits : Fits s i) (hexit : commandOf i.input ≠ .exit) :
    Survives s i ↔ Harmless s i := by
  cases herror : isError i.response with
  | true =>
    rw [Harmless, herror]
    exact iff_of_true (survives_error hfits hexit herror) (by rintro ⟨⟩)
  | false =>
    rw [survives_iff_answered hfits hexit, Answered, Harmless, forall_prop_of_true herror]
    cases hc : commandOf i.input with
    | login =>
      obtain ⟨hsome, hjoin⟩ := loginCookie_cases herror
      have htoken : tokenOf s i = none := tokenOf_of_ne (by simp [hc])
      have hlogin : loginOf i = (loginCookie i.response).join := if_pos hc
      rw [hlogin, htoken, hjoin, hsome, LoginOk]
      simp only [Option.isSome_none, Bool.false_eq_true, false_imp_iff, and_true]
      constructor
      · rintro ⟨hfound, htaken⟩
        by_cases hnone : strstr (cString i.response) (ascii "connect.sid") = none
        · exact Or.inl hnone
        · exact Or.inr ⟨hfound.resolve_left hnone, htaken ⟨hnone, hfound⟩⟩
      · rintro (hnone | ⟨hdate, hcookie⟩)
        · exact ⟨Or.inl hnone, fun h => absurd hnone h.1⟩
        · exact ⟨Or.inr hdate, fun _ => hcookie⟩
    | enterLibrary =>
      obtain ⟨hsome, hjoin⟩ := accessToken_cases herror
      have hlogin : loginOf i = none := loginOf_of_ne (by simp [hc])
      rw [hlogin, tokenOf, AccessOk, ← hsome]
      by_cases hin : s.loggedIn = true
      · rw [if_pos ⟨hc, hin⟩, hjoin]
        constructor
        · rintro ⟨hfound, -, htaken⟩ -
          exact ⟨hfound hin, htaken (hfound hin)⟩
        · intro h
          exact ⟨fun _ => (h hin).1, by rintro ⟨⟩, fun _ => (h hin).2⟩
      · rw [if_neg fun h => hin h.2]
        exact iff_of_true ⟨fun h => absurd h hin, by rintro ⟨⟩, by rintro ⟨⟩⟩ fun h => absurd h hin
    | getBooks | getBook =>
      have hlogin : loginOf i = none := loginOf_of_ne (by simp [hc])
      have htoken : tokenOf s i = none := tokenOf_of_ne (by simp [hc])
      simp [hlogin, htoken, bookList_cases herror]
    | _ =>
      have hlogin : loginOf i = none := loginOf_of_ne (by simp [hc])
      have htoken : tokenOf s i = none := tokenOf_of_ne (by simp [hc])
      simp [hlogin, htoken]

/-! ### Two responses -/

/-- The line of a command, the same text for all prompts, and the response. -/
def answered (line : String) (response : Bytes) : Input := ⟨ascii line, fun _ => ascii "ana", response⟩

/-- A successful answer to `login`. -/
def cookieAnswer : Bytes :=
  ascii "HTTP/1.1 200 OK\r\nSet-Cookie: connect.sid=A; Path=/; HttpOnly\r\nDate: Sat\r\n\r\n"

theorem login_survives : Survives (init [] []) (answered "login" cookieAnswer) := by
  have hfits : Fits (init [] []) (answered "login" cookieAnswer) :=
    (step_error_isSome.mp (by decide +kernel)).1
  have hdate : strstr (cString cookieAnswer) (ascii "Date:") = some 62 := by decide +kernel
  have hcookie : HasCookie cookieAnswer :=
    ⟨ascii "HTTP/1.1 200 OK\r\nSet-Cookie: ", ascii "A; Path=/; HttpOnly\r\nDate: Sat\r\n\r\n", by decide +kernel⟩
  exact (survives_iff hfits (by decide)).mpr fun _ => Or.inr ⟨⟨62, hdate, by decide⟩, hcookie⟩

/-- **The client ends** when the server closes the connection without an answer to `enter_library`. -/
theorem library_without_token : ∃ s i, Fits s i ∧ commandOf i.input ≠ .exit ∧ ¬ Survives s i := by
  have hfits : Fits ⟨ascii "connect.sid=A", [], false, true⟩ (answered "enter_library" []) :=
    (step_error_isSome.mp (by decide +kernel)).1
  refine ⟨_, _, hfits, by decide, fun h => absurd h.defined ?_⟩
  decide +kernel

end Pcom.Tema3.Responses
