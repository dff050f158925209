import Pcom.Tema3.Client

/-!
# The credentials of a session

The client keeps a cookie and a JWT with a flag each.  A login renews the first and leaves the second alone.

* `Tracks` — the invariant: which login and which answer of the library the credentials held come from;
* `consistent_iff` — **the exact condition** under which all requests of a run carry credentials of the same
  session that belong together: the library is entered again after a login, before it is used;
* `token_of_another_user` — two logins without a logout between them, and a request with the JWT of the first.
-/

namespace Pcom.Tema3.Session

open Pcom.Lib.Scan Pcom.Lib.StepSystem Pcom.Tema3.Client

/-! ### What a request may carry -/

/-- The JWT a step obtains, with the cookie its request carried. -/
def obtained (st : Step State Input Request) : Option (Bytes × Bytes) :=
  st.out.findSome? fun r => if r.endpoint = .access then do
      let jwt ← (accessToken st.input.response).join
      let cookie ← r.cookie
      some (jwt, cookie)
    else none

/-- The step is a logout. -/
def endsSession (st : Step State Input Request) : Bool := st.out.any fun r => r.endpoint = .logout

/-- The steps since the last logout. -/
def session (h : List (Step State Input Request)) : List (Step State Input Request) :=
  h.takeWhile fun st => !endsSession st

/-- The request, sent after this history, is right. -/
structure Proper (h : List (Step State Input Request)) (r : Request) : Prop where
  /-- A cookie comes from a login since the last logout. -/
  cookie : ∀ c ∈ r.cookie, ∃ st ∈ session h, loginOf st.input = some c
  /-- A JWT has been obtained since the last logout. -/
  jwt : ∀ j ∈ r.jwt, ∃ st ∈ session h, ∃ c, obtained st = some (j, c)
  /-- A library request is sent while logged in, and carries the JWT obtained last, which was obtained under the
  cookie it carries. -/
  library : r.endpoint.isLibrary → (∃ st ∈ session h, (loginOf st.input).isSome) ∧ ∃ j c, r.jwt = some j ∧
    r.cookie = some c ∧ (session h).findSome? obtained = some (j, c)

/-- All requests of a history are right. -/
def Consistent : List (Step State Input Request) → Prop
  | [] => True
  | st :: h => Consistent h ∧ ∀ r ∈ st.out, Proper h r

/-! ### The condition -/

/-- The cookie of the last login. -/
def lastLogin (h : List (Step State Input Request)) : Option Bytes := h.findSome? fun st => loginOf st.input

/-- The cookie of the last login before the library was entered. -/
def cookieUsed : List (Step State Input Request) → Option Bytes
  | [] => none
  | st :: h => if (tokenOf st.before st.input).isSome then lastLogin h else cookieUsed h

/-- Since the library has been entered no login has succeeded, or the last one has given the cookie again that the
client had then. -/
def reentered : List (Step State Input Request) → Bool
  | [] => true
  | st :: h => (tokenOf st.before st.input).isSome ||
    match loginOf st.input with
    | some c => cookieUsed h == some c
    | none => reentered h

/-- Every library command typed in the library is typed after the library has been entered again. -/
def EntersAfterLogin : List (Step State Input Request) → Prop
  | [] => True
  | st :: h => EntersAfterLogin h ∧
      ((commandOf st.input.input).isLibrary → st.before.loggedIn → st.before.jwtAccess → reentered h)

instance decidableEntersAfterLogin : DecidablePred EntersAfterLogin
  | [] => inferInstanceAs (Decidable True)
  | _ :: h => @instDecidableAnd _ _ (decidableEntersAfterLogin h) inferInstance

/-! ### The credentials held -/

/-- The invariant: where the credentials come from. -/
structure Tracks (h : List (Step State Input Request)) (s : State) : Prop where
  cookie : s.loggedIn → lastLogin (session h) = some s.cookie
  token : s.jwtAccess → ∃ c, (session h).findSome? obtained = some (s.jwt, c) ∧ cookieUsed h = some c
  paired : s.loggedIn → s.jwtAccess → (reentered h ↔ cookieUsed h = some s.cookie)

/-- What is found since the last logout is found. -/
theorem findSome_session {β : Type} {f : Step State Input Request → Option β} {h : List (Step State Input Request)}
    {b : β} (hf : (session h).findSome? f = some b) : h.findSome? f = some b := by
  rw [← List.takeWhile_append_dropWhile (p := fun st => !endsSession st) (l := h), List.findSome?_append]
  exact Option.or_eq_some_iff.mpr (Or.inl hf)

theorem session_cons {st : Step State Input Request} {h : List (Step State Input Request)}
    (hst : endsSession st = false) : session (st :: h) = st :: session h := by
  rw [session, List.takeWhile_cons, hst]
  rfl

variable {h : List (Step State Input Request)} {s s' : State} {i : Input} {out : List Request}

/-- A step that neither logs in nor enters the library nor logs out changes nothing. -/
theorem Tracks.silent (hs : Tracks h s) (hlogin : loginOf i = none) (htoken : tokenOf s i = none)
    (hends : endsSession ⟨s, i, out⟩ = false) (hobtained : obtained ⟨s, i, out⟩ = none) :
    Tracks (⟨s, i, out⟩ :: h) s := by
  have hused : cookieUsed (⟨s, i, out⟩ :: h) = cookieUsed h := by simp [cookieUsed, htoken]
  refine ⟨fun hin => ?_, fun haccess => ?_, fun hin haccess => ?_⟩
  · rw [session_cons hends, lastLogin, List.findSome?_cons]
    simp only [hlogin]
    exact hs.cookie hin
  · rw [session_cons hends, List.findSome?_cons, hobtained, hused]
    exact hs.token haccess
  · rw [hused, ← hs.paired hin haccess]
    simp [reentered, htoken, hlogin]

/-- One step keeps the invariant. -/
theorem Tracks.step (hs : Tracks h s) (hstep : step s i = some (s', out)) :
    Tracks (⟨s, i, out⟩ :: h) s' := by
  cases step_effect hstep with
  | plain hlogin htoken hlib hout =>
    refine hs.silent hlogin htoken ?_ ?_
    · rw [endsSession, List.any_eq_false]
      intro r hr
      simpa using (hout r hr).2.2.2
    · rw [obtained, List.findSome?_eq_none_iff]
      intro r hr
      simp [(hout r hr).1]
  | @loggedIn r cookie hlogin htoken hlib hendpoint hcookie hjwt =>
    have hends : endsSession ⟨s, i, [r]⟩ = false := by simp [endsSession, hendpoint]
    have hobtained : obtained ⟨s, i, [r]⟩ = none := by simp [obtained, hendpoint]
    have hused : cookieUsed (⟨s, i, [r]⟩ :: h) = cookieUsed h := by simp [cookieUsed, htoken]
    refine ⟨fun _ => ?_, fun haccess => ?_, fun _ haccess => ?_⟩
    · rw [session_cons hends, lastLogin, List.findSome?_cons]
      simp only [hlogin]
    · rw [session_cons hends, List.findSome?_cons, hobtained, hused]
      exact hs.token haccess
    · simp [reentered, htoken, hlogin, hused]
  | @refused r hin hlogin htoken hjoin hlib hendpoint hcookie hjwt =>
    exact hs.silent hlogin htoken (by simp [endsSession, hendpoint]) (by simp [obtained, hjoin])
  | @entered r jwt hin hlogin htoken hjoin hlib hendpoint hcookie hjwt =>
    have hends : endsSession ⟨s, i, [r]⟩ = false := by simp [endsSession, hendpoint]
    have hobtained : obtained ⟨s, i, [r]⟩ = some (jwt, s.cookie) := by
      simp [obtained, hendpoint, hjoin, hcookie]
    have hlast : lastLogin h = some s.cookie := findSome_session (hs.cookie hin)
    have hused : cookieUsed (⟨s, i, [r]⟩ :: h) = some s.cookie := by simp [cookieUsed, htoken, hlast]
    refine ⟨fun _ => ?_, fun _ => ?_, fun _ _ => ?_⟩
    · rw [session_cons hends, lastLogin, List.findSome?_cons]
      simp only [hlogin]
      exact hs.cookie hin
    · rw [session_cons hends, List.findSome?_cons, hobtained, hused]
      exact ⟨s.cookie, rfl, rfl⟩
    · simp [reentered, htoken, hused]
  | @library r hin haccess hlogin htoken hlib hendpoint hcookie hjwt =>
    have hne : r.endpoint ≠ .logout ∧ r.endpoint ≠ .access := by
      constructor
      all_goals
        intro hc
        rw [hc] at hendpoint
        cases hendpoint
    exact hs.silent hlogin htoken (by simp [endsSession, hne.1]) (by simp [obtained, hne.2])
  | loggedOut => exact ⟨by rintro ⟨⟩, by rintro ⟨⟩, by rintro ⟨⟩⟩

/-- Whatever a step sends, its credentials are those held. -/
theorem carried (hstep : step s i = some (s', out)) {r : Request} (hr : r ∈ out) :
    (∀ c ∈ r.cookie, s.loggedIn ∧ c = s.cookie) ∧ ∀ j ∈ r.jwt, s.jwtAccess ∧ j = s.jwt := by
  cases step_effect hstep with
  | plain _ _ _ hout => simp [(hout r hr).1, (hout r hr).2.1]
  | loggedIn _ _ _ _ _ hcookie hjwt => simp [List.mem_singleton.mp hr, hcookie, hjwt]
  | refused hin _ _ _ _ _ hcookie hjwt => simp [List.mem_singleton.mp hr, hcookie, hjwt, hin]
  | entered _ hin _ _ _ _ _ hcookie hjwt => simp [List.mem_singleton.mp hr, hcookie, hjwt, hin]
  | library hin haccess _ _ _ _ hcookie hjwt => simp [List.mem_singleton.mp hr, hcookie, hjwt, hin, haccess]
  | loggedOut hin haccess _ _ _ _ hcookie hjwt => simp [List.mem_singleton.mp hr, hcookie, hjwt, hin, haccess]

/-! ### Runs -/

variable {cookie jwt : Bytes}

theorem tracks_of_run (run : Run (Steps step) (init cookie jwt) h s) : Tracks h s := by
  induction run with
  | start => exact ⟨by rintro ⟨⟩, by rintro ⟨⟩, by rintro ⟨⟩⟩
  | next _ hstep ih => exact ih.step hstep

/-- A login, and an answer of the library, since the last logout. -/
theorem Tracks.proper (hs : Tracks h s) (hstep : Client.step s i = some (s', out)) {r : Request} (hr : r ∈ out)
    (hlibrary : r.endpoint.isLibrary → (∃ st ∈ session h, (loginOf st.input).isSome) ∧ ∃ j c, r.jwt = some j ∧
      r.cookie = some c ∧ (session h).findSome? obtained = some (j, c)) : Proper h r := by
  refine ⟨fun c hc => ?_, fun j hj => ?_, hlibrary⟩
  · obtain ⟨hin, rfl⟩ := (carried hstep hr).1 c hc
    exact List.exists_of_findSome?_eq_some (hs.cookie hin)
  · obtain ⟨haccess, rfl⟩ := (carried hstep hr).2 j hj
    obtain ⟨c, htoken, -⟩ := hs.token haccess
    obtain ⟨st, hst, heq⟩ := List.exists_of_findSome?_eq_some htoken
    exact ⟨st, hst, c, heq⟩

/-- **One step** sends right requests only, exactly when a library command finds the library entered again. -/
theorem Tracks.proper_iff (hs : Tracks h s) (hstep : Client.step s i = some (s', out)) :
    (∀ r ∈ out, Proper h r) ↔
      ((commandOf i.input).isLibrary → s.loggedIn → s.jwtAccess → reentered h) := by
  have hother (hlib : ¬ (commandOf i.input).isLibrary = true) (hout : ∀ r ∈ out, r.endpoint.isLibrary = false) :
      (∀ r ∈ out, Proper h r) ↔
        ((commandOf i.input).isLibrary → s.loggedIn → s.jwtAccess → reentered h) :=
    iff_of_true (fun r hr => hs.proper hstep hr fun hc => absurd hc (by simp [hout r hr])) fun hc => absurd hc hlib
  cases step_effect hstep with
  | plain _ _ hflags hout =>
    refine iff_of_true (fun r hr => hs.proper hstep hr fun hc => ?_) fun hc hin haccess => ?_
    · exact absurd hc (by simp [(hout r hr).2.2.1])
    · exact absurd ⟨hc, hin, haccess⟩ hflags
  | loggedIn _ _ _ hlib hendpoint => exact hother hlib (by simp [hendpoint, Endpoint.isLibrary])
  | refused _ _ _ _ hlib hendpoint => exact hother hlib (by simp [hendpoint, Endpoint.isLibrary])
  | entered _ _ _ _ _ hlib hendpoint => exact hother hlib (by simp [hendpoint, Endpoint.isLibrary])
  | loggedOut _ _ _ _ hlib hendpoint => exact hother hlib (by simp [hendpoint, Endpoint.isLibrary])
  | @library r hin haccess _ _ hlib hendpoint hcookie hjwt =>
    obtain ⟨c, htoken, hused⟩ := hs.token haccess
    constructor
    · intro hall _ _ _
      obtain ⟨-, j, c', hj, hc', hfound⟩ := (hall r List.mem_cons_self).library hendpoint
      rw [hcookie, Option.some.injEq] at hc'
      rw [htoken, Option.some.injEq, Prod.mk.injEq] at hfound
      rw [hs.paired hin haccess, hused, hfound.2, hc']
    · intro hre r' hr'
      have hpaired := (hs.paired hin haccess).mp (hre hlib hin haccess)
      rw [hused, Option.some.injEq] at hpaired
      rw [List.mem_singleton.mp hr']
      refine hs.proper hstep List.mem_cons_self fun _ => ⟨?_, s.jwt, s.cookie, hjwt, hcookie, ?_⟩
      · obtain ⟨st, hst, hlogin⟩ := List.exists_of_findSome?_eq_some (hs.cookie hin)
        exact ⟨st, hst, by rw [hlogin]; rfl⟩
      · rw [htoken, hpaired]

/-- **All requests of a run carry credentials of one session that belong together, exactly when** every library
command typed in the library is typed after the library has been entered again. -/
theorem consistent_iff (run : Run (Steps step) (init cookie jwt) h s) : Consistent h ↔ EntersAfterLogin h := by
  induction run with
  | start => exact Iff.rfl
  | next run hstep ih => exact and_congr ih ((tracks_of_run run).proper_iff hstep)

/-! ### A sample session -/

/-- A successful answer to `login`. -/
def loginAnswer (sid : String) : Bytes :=
  ascii "HTTP/1.1 200 OK\r\nSet-Cookie: connect.sid=" ++ ascii sid ++ ascii "; Path=/; HttpOnly\r\nDate: Sat\r\n\r\n"

/-- A successful answer to `enter_library`. -/
def libraryAnswer (token : String) : Bytes :=
  ascii "HTTP/1.1 200 OK\r\n\r\n\x7b\"token\":\"" ++ ascii token ++ ascii "\"\x7d"

/-- A successful answer to `get_books`. -/
def booksAnswer : Bytes := ascii "HTTP/1.1 200 OK\r\n\r\n[\x7b\"id\":1,\"title\":\"Ion\"\x7d]"

/-- Everyone is called `ana`, with this password. -/
def typed (line : String) (response : Bytes) : Input := ⟨ascii line, fun _ => ascii "ana", response⟩

/-- A session, a logout, and a second session: two requests for books, with the credentials of their session. -/
theorem two_sessions_consistent : ∃ h s, Run (Steps step) (init [] []) h s ∧
    ((emitted h).filter fun r => r.endpoint = .books).map (fun r => (r.jwt, r.cookie)) =
      [(some (ascii "T1"), some (ascii "connect.sid=A")), (some (ascii "T2"), some (ascii "connect.sid=B"))] ∧
    Consistent h := by
  obtain ⟨h, s, run, hcheck⟩ := Run.of_check step (init [] [])
    [typed "login" (loginAnswer "A"), typed "enter_library" (libraryAnswer "T1"), typed "get_books" booksAnswer,
      typed "logout" [], typed "login" (loginAnswer "B"), typed "enter_library" (libraryAnswer "T2"),
      typed "get_books" booksAnswer]
    (fun h _ => decide (((emitted h).filter fun r => r.endpoint = .books).map (fun r => (r.jwt, r.cookie)) =
      [(some (ascii "T1"), some (ascii "connect.sid=A")), (some (ascii "T2"), some (ascii "connect.sid=B"))] ∧
      EntersAfterLogin h)) (by decide +kernel)
  obtain ⟨hsent, hok⟩ := of_decide_eq_true hcheck
  exact ⟨h, s, run, hsent, (consistent_iff run).mpr hok⟩

/-- **The JWT of another user**: after a second login without a logout, a request for books carries the cookie of
the second user and the JWT of the first. -/
theorem token_of_another_user : ∃ h s, Run (Steps step) (init [] []) h s ∧
    ((emitted h).filter fun r => r.endpoint = .books).map (fun r => (r.jwt, r.cookie)) =
      [(some (ascii "T1"), some (ascii "connect.sid=B"))] ∧ ¬ Consistent h := by
  obtain ⟨h, s, run, hcheck⟩ := Run.of_check step (init [] [])
    [typed "login" (loginAnswer "A"), typed "enter_library" (libraryAnswer "T1"), typed "login" (loginAnswer "B"),
      typed "get_books" booksAnswer]
    (fun h _ => decide (((emitted h).filter fun r => r.endpoint = .books).map (fun r => (r.jwt, r.cookie)) =
      [(some (ascii "T1"), some (ascii "connect.sid=B"))]) && h.head?.any fun st => st.out.any fun r =>
        r.endpoint.isLibrary && decide ((session h.tail).findSome? obtained =
          some (ascii "T1", ascii "connect.sid=A") ∧ r.cookie = some (ascii "connect.sid=B"))) (by decide +kernel)
  obtain ⟨hsent, hlast⟩ := Bool.and_eq_true_iff.mp hcheck
  refine ⟨h, s, run, of_decide_eq_true hsent, fun hall => ?_⟩
  cases h with
  | nil => cases hlast
  | cons st h =>
    obtain ⟨r, hr, hbad⟩ := List.any_eq_true.mp hlast
    obtain ⟨hlibrary, hbad⟩ := Bool.and_eq_true_iff.mp hbad
    obtain ⟨hobtained, hcookie⟩ := of_decide_eq_true hbad
    obtain ⟨-, j, c, -, hc, hfound⟩ := (hall.2 r hr).library hlibrary
    rw [hcookie, Option.some.injEq] at hc
    rw [List.tail_cons] at hobtained
    rw [hobtained, Option.some.injEq, Prod.mk.injEq, ← hc] at hfound
    exact absurd hfound.2 (by decide)

end Pcom.Tema3.Session
