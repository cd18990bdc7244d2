/-
**`server.c`: which module a URL names.**

`handle_connection` takes the method, the URL and the protocol from what it reads; `handle_get` cuts
the URL at `?` with `strtok`, and if the page is one name behind a slash it opens the module of this
name.

* `handleGet` — the names given to `module_open`, and the answer. It is undefined where `*page` is
  read and `page` is `NULL`.
* `handleConnection` — undefined if there are no three tokens, since `protocol` then has no value.
  `url_of_connection` — the URL it passes on is not empty and has no blanks.
* `handleGet_eq` — what `handle_get` does in terms of the tokens of the URL.
* `pagina` — the page that `strtok` finds: it skips the question marks in front.
* `page_names` — **`module_open` gets the text between the leading slash and the first `?`, and `.so`,
  and every other URL gets 404, exactly if the URL is `Regular`**: it has a page, this is no name if
  there is a `?` in front of it, and a name fits `module_file_name`.
* `only_question_mark`, `leading_question_mark`, `long_name` — `strtok` finds no page; it skips a
  leading `?`; `snprintf` cuts the suffix off.

Reading on until the blank line of the header is left out.
-/

import SistemasOperacionais.Data.CString
import SistemasOperacionais.Data.Numeral
import Mathlib.Data.List.TakeDrop

namespace Alp

open CString

/-! ### The code -/

/-- `bad_request_response` -/
def badRequestResponse : String :=
  "HTTP/1.0 400 Bad Request\nContent-type: text/html\n\n<html>\n <body>\n  <h1>Bad Request</h1>\n" ++
  "  <p>This server did not understand your request.</p>\n </body>\n</html>\n"

/-- `not_found_response_template`, printed into `response[1024]` -/
def notFoundResponse (page : List Char) : List Char :=
  (("HTTP/1.0 404 Not Found\nContent-type: text/html\n\n<html>\n <body>\n  <h1>Not Found</h1>\n" ++
    "  <p>Nao encontrada a URL ").toList ++ page ++
      " neste servidor.</p>\n </body>\n</html>\n".toList).take 1023

/-- `bad_method_response_template`, printed into `response[1024]` -/
def badMethodResponse (method : List Char) : List Char :=
  (("HTTP/1.0 501 Method Not Implemented\nContent-type: text/html\n\n<html>\n <body>\n" ++
    "  <h1>Method Not Implemented</h1>\n  <p>The method ").toList ++ method ++
      " is not implemented by this server.</p>\n </body>\n</html>\n".toList).take 1023

/-- How `handle_get` answers. -/
inductive Answer
  | notFound (response : List Char)
  /-- `ok_response`, and what the module generates from `parametros` -/
  | generate (parametros : Option ℕ) (st : State)

structure Handled where
  /-- the names given to `module_open` -/
  opened : List (List Char)
  answer : Answer

/-- `module_file_name`: `snprintf` into 64 bytes. -/
def moduleFileName (page : List Char) : List Char := (page ++ ".so".toList).take 63

/-- The page begins with a slash and contains no other. -/
def looksOk (page : List Char) : Prop := page.head? = some '/' ∧ '/' ∉ page.tail

instance (page : List Char) : Decidable (looksOk page) :=
  inferInstanceAs (Decidable (_ ∧ _))

/-- **`handle_get`** behind the two calls of `strtok`; `opens` is whether `module_open` succeeds. -/
def handlePage (opens : List Char → Bool) (parametros : Option ℕ) (st : State) (page : List Char) :
    Handled :=
  if looksOk page then
    { opened := [moduleFileName page.tail]
      answer :=
        if opens (moduleFileName page.tail) then .generate parametros st
        else .notFound (notFoundResponse page) }
  else ⟨[], .notFound (notFoundResponse page)⟩

/-- **`handle_get`** -/
def handleGet (opens : List Char → Bool) (url : ℕ) (st : State) : Option Handled :=
  let (page, parametros, st) := strtokTwice (· = '?') (some url) st
  page.map fun page => handlePage opens parametros st (cstr st.buffer page)

inductive Reply
  /-- `sizeof (bad_request_response)` is that of a pointer -/
  | badRequest (response : List Char)
  | badMethod (response : List Char)
  | handled (handled : Handled)

/-- **`handle_connection`**, from the bytes read on. -/
def handleConnection (opens : List Char → Bool) (bytes : List Char) : Option Reply :=
  match tokens Numeral.space (bytes.takeWhile (· ≠ nul)) with
  | method :: url :: protocol :: _ =>
    if protocol ≠ "HTTP/1.0".toList ∧ protocol ≠ "HTTP/1.1".toList then
      some (.badRequest (badRequestResponse.toList.take 8))
    else if method ≠ "GET".toList then some (.badMethod (badMethodResponse method))
    else (handleGet opens 0 ⟨url ++ [nul], 0⟩).map .handled
  | _ => none

/-! ### The URL -/

theorem holds_url {url : List Char} (clean : nul ∉ url) : Holds (url ++ [nul]) 0 url :=
  ⟨clean, List.prefix_refl _⟩

/-- **The URL passed on** is a string without blanks, not empty. -/
theorem url_of_connection {opens : List Char → Bool} {bytes : List Char} {handled : Handled}
    (run : handleConnection opens bytes = some (.handled handled)) :
    ∃ url, url ≠ [] ∧ (∀ c ∈ url, Numeral.space c = false) ∧ Holds (url ++ [nul]) 0 url ∧
      handleGet opens 0 ⟨url ++ [nul], 0⟩ = some handled := by
  unfold handleConnection at run
  split at run
  · rename_i method url protocol rest found
    split at run
    · cases run
    split at run
    · cases run
    obtain ⟨reply, get, same⟩ := Option.map_eq_some_iff.mp run
    cases same
    have mem : url ∈ tokens Numeral.space (bytes.takeWhile (· ≠ nul)) := by
      rw [found]
      exact List.mem_cons_of_mem _ List.mem_cons_self
    obtain ⟨nonempty, solid⟩ := mem_tokens mem
    refine ⟨url, nonempty, fun c inside => (solid c inside).1, holds_url fun inside => ?_, get⟩
    have before := List.mem_takeWhile_imp (solid nul inside).2
    exact absurd rfl (of_decide_eq_true before)
  · cases run

/-- **`handle_get` by the tokens of the URL**: the page is the first, the parameters the second. -/
theorem handleGet_eq (opens : List Char → Bool) {p : ℕ} {st : State} {url : List Char}
    (held : Holds st.buffer p url) :
    ∃ parametros after, handleGet opens p st =
        (tokens (· = '?') url)[0]?.map (handlePage opens parametros after) ∧
      Located after.buffer p (p + url.length) parametros (tokens (· = '?') url)[1]? := by
  obtain ⟨page, parametros, after, ran, pair⟩ := strtok_pair (· = '?') (some p) held
  refine ⟨parametros, after, ?_, pair.two⟩
  rw [handleGet, ran, ← pair.one.read, Option.map_map]
  rfl

/-- The text behind the question marks that the URL starts with, up to the next one. -/
def pagina (url : List Char) : List Char := (url.dropWhile (· = '?')).takeWhile (· ≠ '?')

theorem page_of_url (url : List Char) :
    (tokens (· = '?') url)[0]? =
      if url.dropWhile (· = '?') = [] then none else some (pagina url) := by
  rw [tokens_zero, next, pagina]
  split
  · rfl
  · simp only [Option.map_some, decide_not]

/-- Nothing is skipped in front of a URL that does not start with `?`. -/
theorem dropWhile_of_head {url : List Char} (first : url.head? ≠ some '?') :
    url.dropWhile (· = '?') = url := by
  cases url with
  | nil => rfl
  | cons c cs =>
    exact List.dropWhile_cons_of_neg (by simpa using fun same => first (congrArg some same))

/-! ### Page names -/

/-- The URL names the module `name`: that is the text between its leading slash and the first `?`,
without another slash. -/
def Names (url name : List Char) : Prop := url.takeWhile (· ≠ '?') = '/' :: name ∧ '/' ∉ name

theorem looksOk_iff {page : List Char} : looksOk page ↔ ∃ name, page = '/' :: name ∧ '/' ∉ name := by
  unfold looksOk
  constructor
  · rintro ⟨head, tail⟩
    obtain ⟨name, rfl⟩ := List.head?_eq_some_iff.mp head
    exact ⟨name, rfl, tail⟩
  · rintro ⟨name, rfl, tail⟩
    exact ⟨rfl, tail⟩

/-- The suffix is not cut off exactly if the name leaves room for it. -/
theorem moduleFileName_iff {name : List Char} :
    moduleFileName name = name ++ ".so".toList ↔ name.length ≤ 60 := by
  have long : (name ++ ".so".toList).length = name.length + 3 := List.length_append ..
  rw [moduleFileName, List.take_eq_self_iff, long]
  omega

theorem handlePage_of_name {name : List Char} (single : '/' ∉ name) (opens : List Char → Bool)
    (parametros : Option ℕ) (st : State) :
    handlePage opens parametros st ('/' :: name) =
      ⟨[moduleFileName name], if opens (moduleFileName name) then .generate parametros st
        else .notFound (notFoundResponse ('/' :: name))⟩ :=
  if_pos (looksOk_iff.mpr ⟨name, rfl, single⟩)

/-- A URL with a name does not start with `?`, and its page is that name. -/
theorem Names.page {url name : List Char} (names : Names url name) :
    url.dropWhile (· = '?') ≠ [] ∧ pagina url = '/' :: name := by
  have start : url.head? ≠ some '?' := by
    intro question
    obtain ⟨rest, rfl⟩ := List.head?_eq_some_iff.mp question
    cases names.1
  refine ⟨fun none => ?_, ?_⟩
  · rw [dropWhile_of_head start] at none
    rw [none] at names
    cases names.1
  · rw [pagina, dropWhile_of_head start, names.1]

/-- **The URLs that `handle_get` serves as it should.** -/
structure Regular (url : List Char) : Prop where
  /-- the URL is not made of question marks only -/
  page : ∃ c ∈ url, c ≠ '?'
  /-- behind question marks in front the page is not a slash and a name -/
  leading : url.head? = some '?' → ∀ name, ¬ Names (url.dropWhile (· = '?')) name
  /-- a name leaves room for the suffix -/
  short : ∀ name, Names url name → name.length ≤ 60

/-- Behind question marks, or without them, a page that is a name is the name of the URL. -/
theorem Regular.names {url name : List Char} (regular : Regular url)
    (page : pagina url = '/' :: name) (single : '/' ∉ name) : Names url name := by
  by_cases first : url.head? = some '?'
  · exact absurd ⟨page, single⟩ (regular.leading first name)
  · rw [pagina, dropWhile_of_head first] at page
    exact ⟨page, single⟩

/-- **Page names map to modules.** There is a page, the only name given to `module_open` is the text
between the leading slash and the first `?` and `.so`, and without such a name, or a module of this
name, the answer is 404: this holds of the regular URLs and of no others. -/
theorem page_names (opens : List Char → Bool) {p : ℕ} {st : State} {url : List Char}
    (held : Holds st.buffer p url) :
    (∃ handled, handleGet opens p st = some handled ∧
      (∀ name, Names url name → handled.opened = [name ++ ".so".toList] ∧
        (opens (name ++ ".so".toList) = false →
          handled.answer = .notFound (notFoundResponse (pagina url)))) ∧
      ((∀ name, ¬ Names url name) → handled.opened = [] ∧
        handled.answer = .notFound (notFoundResponse (pagina url)))) ↔ Regular url := by
  obtain ⟨parametros, after, get, _⟩ := handleGet_eq opens held
  rw [page_of_url] at get
  constructor
  · rintro ⟨handled, run, named, nameless⟩
    have some_page : url.dropWhile (· = '?') ≠ [] := by
      intro none
      rw [if_pos none] at get
      cases run.symm.trans get
    rw [if_neg some_page] at get
    obtain rfl : handlePage opens parametros after (pagina url) = handled :=
      Option.some.inj (get.symm.trans run)
    refine ⟨?_, fun question name names => ?_, fun name names => ?_⟩
    · by_contra only
      push Not at only
      exact some_page (List.dropWhile_eq_nil_iff.mpr fun c mem => decide_eq_true (only c mem))
    · -- a module is opened though the URL names none
      obtain ⟨rest, rfl⟩ := List.head?_eq_some_iff.mp question
      have closed := (nameless fun other names => nomatch names.1).1
      rw [pagina, names.1, handlePage_of_name names.2] at closed
      cases closed
    · have opened := (named name names).1
      rw [names.page.2, handlePage_of_name names.2] at opened
      exact moduleFileName_iff.mp (List.cons.inj opened).1
  · intro regular
    have some_page : url.dropWhile (· = '?') ≠ [] := by
      intro none
      obtain ⟨c, mem, other⟩ := regular.page
      exact other (of_decide_eq_true (List.dropWhile_eq_nil_iff.mp none c mem))
    rw [if_neg some_page] at get
    refine ⟨_, get, fun name names => ?_, fun nameless => ?_⟩
    · rw [names.page.2, handlePage_of_name names.2, moduleFileName_iff.mpr (regular.short name names)]
      exact ⟨rfl, fun closed => if_neg (by rw [closed]; exact Bool.false_ne_true)⟩
    · have bad : ¬ looksOk (pagina url) := fun ok => by
        obtain ⟨name, page, single⟩ := looksOk_iff.mp ok
        exact nameless name (regular.names page single)
      rw [handlePage, if_neg bad]
      exact ⟨rfl, rfl⟩

/-- `/cal?mes=5` opens `cal.so`, and `?/a/b` gets the answer 404. -/
theorem page_names_cal :
    (∃ handled, handleGet (fun _ => true) 0 ⟨"/cal?mes=5".toList ++ [nul], 0⟩ = some handled ∧
      handled.opened = ["cal.so".toList]) ∧
    ∃ handled, handleGet (fun _ => true) 0 ⟨"?/a/b".toList ++ [nul], 0⟩ = some handled ∧
      handled.opened = [] ∧ handled.answer = .notFound (notFoundResponse "/a/b".toList) := by
  constructor
  · have names : Names "/cal?mes=5".toList "cal".toList := by
      unfold Names
      decide
    have held : Holds (State.mk ("/cal?mes=5".toList ++ [nul]) 0).buffer 0 "/cal?mes=5".toList :=
      holds_url (by decide)
    have regular : Regular "/cal?mes=5".toList := by
      refine ⟨⟨'/', by decide, by decide⟩, nofun, fun name other => ?_⟩
      rw [(List.cons.inj (other.1.symm.trans names.1)).2]
      decide
    obtain ⟨handled, get, opened, _⟩ := (page_names (fun _ => true) held).mpr regular
    exact ⟨handled, get, (opened _ names).1⟩
  · have held : Holds (State.mk ("?/a/b".toList ++ [nul]) 0).buffer 0 "?/a/b".toList :=
      holds_url (by decide)
    have regular : Regular "?/a/b".toList := by
      refine ⟨⟨'a', by decide, by decide⟩, fun _ name names => ?_, fun name names => ?_⟩
      · have page : pagina "?/a/b".toList = "/a/b".toList := by decide
        have same : "a/b".toList = name := (List.cons.inj (page.symm.trans names.1)).2
        exact names.2 (same ▸ by decide)
      · cases names.1
    obtain ⟨handled, get, _, closed⟩ := (page_names (fun _ => true) held).mpr regular
    exact ⟨handled, get, closed fun name names => nomatch names.1⟩

/-- **A URL of `?` alone has no page**, and `*page` reads `NULL`. -/
theorem only_question_mark :
    (handleGet (fun _ => true) 0 ⟨"?".toList ++ [nul], 0⟩).isNone = true :=
  rfl

/-- A URL that starts with `?` does not name a module, but opens one. -/
theorem leading_question_mark :
    (∀ name, ¬ Names "?/cal".toList name) ∧
      (handleGet (fun _ => true) 0 ⟨"?/cal".toList ++ [nul], 0⟩).map Handled.opened =
        some ["cal.so".toList] := by
  refine ⟨fun name names => ?_, by decide⟩
  cases names.1

/-- Behind a name of 61 bytes there is no room for the suffix. -/
theorem long_name :
    (handleGet (fun _ => true) 0 ⟨'/' :: List.replicate 61 'a' ++ [nul], 0⟩).map Handled.opened =
      some [List.replicate 61 'a' ++ ".s".toList] := by
  decide +kernel

end Alp
