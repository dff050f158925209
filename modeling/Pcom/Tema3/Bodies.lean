import Pcom.Lib.Json
import Pcom.Tema3.Formats

/-!
# The JSON bodies of the client

`register`, `login` and `add_book` print the texts typed at their prompts between the quotes of a JSON object, with
`sprintf` and `%s`.  A server that reads the body as JSON sees those texts as long as none of them would have to be
escaped.

* `bodyOf_eq_render` — the formats are those of a flat object;
* `body_decodes_iff` — **the exact condition**: no quote, no backslash and no control character is typed.
-/

namespace Pcom.Tema3.Bodies

open Pcom.Lib Pcom.Lib.Scan Pcom.Lib.Words Pcom.Lib.Json Pcom.Tema3.Client Pcom.Tema3.Formats

/-! ### What was typed -/

/-- `n` in decimal, with a sign or without, and with any number of leading zeros. -/
def IsDecimal (text : Bytes) (n : ℤ) : Prop :=
  ∃ ds, ds ≠ [] ∧ (∀ d ∈ ds, isDigit d = true) ∧ FitsInt n ∧
    (text = 45 :: ds ∧ n = -digitsValue ds ∨ (text = ds ∨ text = 43 :: ds) ∧ n = digitsValue ds)

/-- The texts that go into the body as they are. -/
def textsOf (i : Input) : Command → List Bytes
  | .register | .login => [i.typed 0, i.typed 1]
  | .addBook => [i.typed 0, i.typed 1, i.typed 2, i.typed 3]
  | _ => []

/-- The members a command means, for a book of `pages` pages. -/
def members (i : Input) (pages : ℤ) : Command → List (Bytes × Value)
  | .register | .login => [(ascii "username", .string (i.typed 0)), (ascii "password", .string (i.typed 1))]
  | .addBook => [(ascii "title", .string (i.typed 0)), (ascii "author", .string (i.typed 1)),
      (ascii "genre", .string (i.typed 2)), (ascii "publisher", .string (i.typed 3)),
      (ascii "page_count", .number pages 0)]
  | _ => []

/-- Read as JSON, the body is an object of exactly these members, in some order. -/
def Decodes (i : Input) (pages : ℤ) (body : Bytes) : Prop :=
  ∃ js, parse body = some (.object js) ∧ js.Perm (members i pages (commandOf i.input))

/-! ### The number of pages -/

theorem atoi_decimal {text : Bytes} {n : ℤ} (h : IsDecimal text n) : atoi text = n := by
  obtain ⟨ds, hne, hds, hfits, htext⟩ := h
  obtain ⟨c, cs, rfl⟩ := List.exists_cons_of_ne_nil hne
  obtain ⟨hspace, hminus, hplus, -⟩ := isDigit_facts (hds c List.mem_cons_self)
  have hskip : ∀ (d : UInt8) (s : Bytes), isSpace d = false → skipSpace (d :: s) = d :: s := fun d s hd =>
    skipSpace_of_stop (s := d :: s) hd
  have hscan : scanInt text = some (n, []) := by
    rcases htext with ⟨rfl, hn⟩ | ⟨rfl | rfl, hn⟩
    · have hsign : scanSign (45 :: c :: cs) = (true, (c :: cs) ++ []) := by
        rw [List.append_nil]
        rfl
      exact scanInt_of_digits (hskip 45 _ (by decide)) hsign hne hds trivial hn hfits
    · have hsign : scanSign (c :: cs) = (false, (c :: cs) ++ []) := by
        rw [List.append_nil, scanSign_of_ne hminus hplus]
      exact scanInt_of_digits (hskip c _ hspace) hsign hne hds trivial hn hfits
    · have hsign : scanSign (43 :: c :: cs) = (false, (c :: cs) ++ []) := by
        rw [List.append_nil]
        rfl
      exact scanInt_of_digits (hskip 43 _ (by decide)) hsign hne hds trivial hn hfits
  rw [atoi, hscan, Option.map_some, Option.getD_some]

/-! ### The bodies -/

theorem userBody_eq_render (i : Input) : (userBody i).2 =
    renderObject (ascii "username", .text (i.typed 0)) [(ascii "password", .text (i.typed 1))] := by
  simp only [userBody, renderObject, renderMembers, renderMember, Field.render, List.append_assoc,
    List.cons_append, List.nil_append]
  rfl

theorem bookBody_eq_render (i : Input) : (bookBody i).2 =
    renderObject (ascii "title", .text (i.typed 0))
      [(ascii "author", .text (i.typed 1)), (ascii "genre", .text (i.typed 2)),
        (ascii "publisher", .text (i.typed 3)), (ascii "page_count", .int (atoi (i.typed 4)))] := by
  simp only [bookBody, renderObject, renderMembers, renderMember, Field.render, List.append_assoc,
    List.cons_append, List.nil_append]
  rfl

/-- The keys of the formats are plain. -/
theorem plain_keys : Plain (ascii "username") ∧ Plain (ascii "password") ∧ Plain (ascii "title") ∧
    Plain (ascii "author") ∧ Plain (ascii "genre") ∧ Plain (ascii "publisher") ∧ Plain (ascii "page_count") := by
  decide

/-- **Decoding a body** gives what was typed exactly when no quote, no backslash and no control character was. -/
theorem body_decodes_iff {i : Input} {b : ℕ × Bytes} {pages : ℤ} (hb : bodyOf i (commandOf i.input) = some b)
    (hpages : commandOf i.input = .addBook → IsDecimal (i.typed 4) pages) :
    Decodes i pages b.2 ↔ ∀ t ∈ textsOf i (commandOf i.input), Plain t := by
  obtain ⟨huser, hpass, htitle, hauthor, hgenre, hpublisher, hcount⟩ := plain_keys
  cases hc : commandOf i.input with
  | register | login =>
    rw [hc, bodyOf, Option.some.injEq] at hb
    subst hb
    rw [Decodes, hc, userBody_eq_render]
    refine parse_renderObject_iff.trans ?_
    simp [PlainMembers, memberJson, Field.json, stringsOfMembers, Value.strings, textsOf, huser, hpass]
  | addBook =>
    rw [hc, bodyOf, Option.some.injEq] at hb
    subst hb
    rw [Decodes, hc, bookBody_eq_render, ← atoi_decimal (hpages hc)]
    refine parse_renderObject_iff.trans ?_
    simp [PlainMembers, memberJson, Field.json, stringsOfMembers, Value.strings, textsOf, htitle, hauthor, hgenre,
      hpublisher, hcount]
  | _ =>
    rw [hc] at hb
    cases hb

theorem book_decodes : Decodes (sevenPages (ascii "+07")) 7 (bookBody (sevenPages (ascii "+07"))).2 :=
  (body_decodes_iff (i := sevenPages (ascii "+07")) rfl fun _ =>
    ⟨ascii "07", by decide, by decide, by decide, .inr ⟨.inr rfl, rfl⟩⟩).mpr (by decide)

/-- The registration of `name`. -/
def registration (name : Bytes) : Input where
  input := ascii "register"
  typed := fun k => if k = 0 then name else ascii "p"
  response := []

/-- The name `bob","username":"root` **overrides the key** it stands under. -/
theorem quoted_name_overrides : ∃ i, bodyOf i (commandOf i.input) = some (userBody i) ∧
    i.typed 0 = ascii "bob\",\"username\":\"root" ∧
    parse (userBody i).2 = some (.object [(ascii "username", .string (ascii "bob")),
      (ascii "username", .string (ascii "root")), (ascii "password", .string (ascii "p"))]) ∧
    ∀ pages, ¬ Decodes i pages (userBody i).2 := by
  have hprinted : (userBody (registration (ascii "bob\",\"username\":\"root"))).2 =
      renderObject (ascii "username", .text (ascii "bob"))
        [(ascii "username", .text (ascii "root")), (ascii "password", .text (ascii "p"))] := by decide
  have hplain : PlainMembers [(ascii "username", .text (ascii "bob")), (ascii "username", .text (ascii "root")),
      (ascii "password", .text (ascii "p"))] := by
    simp only [PlainMembers, memberJson, Field.json, stringsOfMembers, Value.strings, List.map_cons, List.map_nil]
    decide
  have hparse := parse_renderObject hplain
  rw [← hprinted] at hparse
  refine ⟨registration (ascii "bob\",\"username\":\"root"), rfl, rfl, hparse, ?_⟩
  rintro pages ⟨js, hjs, hperm⟩
  obtain rfl : _ = js := Value.object.inj (Option.some.inj (hparse.symm.trans hjs))
  have hthree : 3 = 2 := hperm.length_eq
  omega

end Pcom.Tema3.Bodies
