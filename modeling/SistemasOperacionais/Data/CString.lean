/-
**C strings in a buffer, and `strtok`.**

A string is a pointer into a buffer: the bytes up to the next NUL. `strtok` cuts a string into tokens
in place: it overwrites the delimiter behind a token with NUL and remembers where to go on. A `Char`
stands for a byte.

* `Holds b p s` — the string at `p` in `b` is `s`.
* `strtok` — one call, with the buffer and the saved pointer passed along.
* `tokens` — what it is for: the maximal runs without a delimiter (`tokens_of_some`).
* `strtok_none`, `strtok_some` — one call returns the first token of the string it is given, and saves
  a pointer to what is behind it; the only write is inside the string (`Keeps`).
* `strtok_pair` — **a call on a string and a second with `NULL` return its first two tokens**, and no
  string outside it changes. So calls on different strings may follow each other.
* `Found` — what any number of calls has found so far, and what is left. A call with `NULL` adds the
  next token (`Found.call`), or there is none (`Found.stop`).
-/

import Mathlib.Data.List.TakeWhile

namespace CString

/-- The byte that ends a string. -/
def nul : Char := '\x00'

/-- The string at `p`. -/
def cstr (b : List Char) (p : ℕ) : List Char := (b.drop p).takeWhile (· ≠ nul)

/-- **The string at `p` is `s`.** -/
structure Holds (b : List Char) (p : ℕ) (s : List Char) : Prop where
  clean : nul ∉ s
  text : s ++ [nul] <+: b.drop p

variable {b : List Char} {p : ℕ} {s t : List Char}

theorem Holds.cstr_eq (held : Holds b p s) : cstr b p = s := by
  obtain ⟨post, text⟩ := held.text
  have clean : ∀ c ∈ s, decide (c ≠ nul) = true := by
    intro c mem
    exact decide_eq_true fun same => held.clean (same ▸ mem)
  rw [cstr, ← text, List.append_assoc, List.takeWhile_append_of_pos clean]
  exact List.append_nil s

/-- The rest of a string is a string. -/
theorem Holds.suffix (held : Holds b p (s ++ t)) : Holds b (p + s.length) t := by
  obtain ⟨post, text⟩ := held.text
  refine ⟨fun mem => held.clean (List.mem_append_right s mem), post, ?_⟩
  rw [← List.drop_drop, ← text]
  simp only [List.append_assoc, List.drop_left]

/-- A write outside a string leaves it. -/
theorem Holds.set_outside (held : Holds b p s) {e : ℕ} (outside : e < p ∨ p + s.length < e)
    (c : Char) : Holds (b.set e c) p s := by
  refine ⟨held.clean, ?_⟩
  rcases outside with before | behind
  · rw [List.drop_set_of_lt before]
    exact held.text
  · obtain ⟨post, text⟩ := held.text
    have long : ¬ e - p < (s ++ [nul]).length := by
      rw [List.length_append, List.length_singleton]
      omega
    rw [List.drop_set, if_neg (by omega), ← text, List.set_append, if_neg long]
    exact List.prefix_append _ _

/-- A NUL inside a string ends it there. -/
theorem Holds.cut {d : Char} (held : Holds b p (s ++ d :: t)) :
    Holds (b.set (p + s.length) nul) p s ∧
      Holds (b.set (p + s.length) nul) (p + s.length + 1) t := by
  obtain ⟨post, text⟩ := held.text
  have parts : s ++ d :: t = (s ++ [d]) ++ t := by rw [List.append_assoc]; rfl
  refine ⟨⟨fun mem => held.clean (List.mem_append_left _ mem), ?_⟩, ?_⟩
  · have ended : (s ++ d :: t ++ [nul] ++ post).set s.length nul =
        s ++ [nul] ++ (t ++ [nul] ++ post) := by
      simp
    rw [List.drop_set, if_neg (by omega), ← text, Nat.add_sub_cancel_left, ended]
    exact List.prefix_append _ _
  · rw [parts] at held
    have rest := held.suffix
    rw [List.length_append, List.length_singleton, ← Nat.add_assoc] at rest
    exact rest.set_outside (.inl (by omega)) nul

/-! ### Tokens -/

/-- **The maximal runs without a delimiter.** -/
def tokens (delim : Char → Bool) (s : List Char) : List (List Char) :=
  (s.splitOnP delim).filter (· ≠ [])

/-- The first token and what is behind its delimiter. -/
def next (delim : Char → Bool) (s : List Char) : Option (List Char × List Char) :=
  if s.dropWhile delim = [] then none
  else some ((s.dropWhile delim).takeWhile (!delim ·),
    ((s.dropWhile delim).dropWhile (!delim ·)).tail)

variable {delim : Char → Bool}

theorem tokens_dropWhile (s : List Char) : tokens delim (s.dropWhile delim) = tokens delim s := by
  induction s with
  | nil => rfl
  | cons c s ih =>
    by_cases stops : delim c = true
    · rw [List.dropWhile_cons_of_pos stops, ih, tokens, tokens,
        List.splitOnP_cons_eq_if_modifyHead, if_pos stops]
      rfl
    · rw [List.dropWhile_cons_of_neg stops]

/-- A string as the delimiters it starts with, its first token and the rest, which starts with a
delimiter if it is not empty. -/
structure Parts (delim : Char → Bool) (lead token back : List Char) : Prop where
  blank : ∀ c ∈ lead, delim c = true
  nonempty : token ≠ []
  solid : ∀ c ∈ token, delim c = false
  stops : ∀ c ∈ back.head?, delim c = true

/-- The string from its first token on. -/
theorem Parts.body {lead token back : List Char} (parts : Parts delim lead token back) :
    (lead ++ (token ++ back)).dropWhile delim = token ++ back := by
  obtain ⟨c, cs, rfl⟩ := List.exists_cons_of_ne_nil parts.nonempty
  have stop : ¬ delim c = true := by
    rw [parts.solid c List.mem_cons_self]
    exact Bool.false_ne_true
  rw [List.dropWhile_append_of_pos parts.blank, List.cons_append, List.dropWhile_cons_of_neg stop]

theorem Parts.lead {lead token back : List Char} (parts : Parts delim lead token back) :
    (lead ++ (token ++ back)).takeWhile delim = lead := by
  have whole := List.takeWhile_append_dropWhile (p := delim) (l := lead ++ (token ++ back))
  rw [parts.body] at whole
  exact List.append_cancel_right whole

theorem Parts.back {lead token back : List Char} (parts : Parts delim lead token back) :
    (token ++ back).dropWhile (!delim ·) = back := by
  have other : ∀ c ∈ token, (!delim c) = true := fun c mem => by rw [parts.solid c mem]; rfl
  rw [List.dropWhile_append_of_pos other]
  cases back with
  | nil => rfl
  | cons d rest => exact List.dropWhile_cons_of_neg (by rw [parts.stops d rfl]; exact nofun)

theorem Parts.token {lead token back : List Char} (parts : Parts delim lead token back) :
    (token ++ back).takeWhile (!delim ·) = token := by
  have whole := List.takeWhile_append_dropWhile (p := (!delim ·)) (l := token ++ back)
  rw [parts.back] at whole
  exact List.append_cancel_right whole

theorem next_eq_some {token rest : List Char} (found : next delim s = some (token, rest)) :
    ∃ lead back, s = lead ++ (token ++ back) ∧ rest = back.tail ∧ Parts delim lead token back := by
  unfold next at found
  split at found
  · cases found
  · rename_i some_body
    cases found
    obtain ⟨c, cs, body⟩ := List.exists_cons_of_ne_nil some_body
    refine ⟨s.takeWhile delim, _, ?_, rfl, fun c mem => List.mem_takeWhile_imp mem, ?_,
      fun c mem => ?_, fun c mem => ?_⟩
    · rw [List.takeWhile_append_dropWhile, List.takeWhile_append_dropWhile]
    · have solid : delim c = false := by
        have head := List.head_dropWhile_not delim some_body
        simpa only [body, List.head_cons] using head
      rw [body, List.takeWhile_cons_of_pos (by rw [solid]; rfl)]
      exact List.cons_ne_nil _ _
    · simpa using List.mem_takeWhile_imp mem
    · have head := List.head?_dropWhile_not (!delim ·) (s.dropWhile delim)
      rw [Option.mem_def.mp mem] at head
      simpa using head

theorem next_eq_none (none : next delim s = none) : ∀ c ∈ s, delim c = true := by
  unfold next at none
  split at none
  · rename_i empty
    exact List.dropWhile_eq_nil_iff.mp empty
  · cases none

theorem tokens_of_none (none : next delim s = none) : tokens delim s = [] := by
  rw [← tokens_dropWhile, List.dropWhile_eq_nil_iff.mpr (next_eq_none none)]
  rfl

/-- A string without delimiters is one token. -/
theorem tokens_single (nonempty : s ≠ []) (solid : ∀ c ∈ s, delim c = false) :
    tokens delim s = [s] := by
  rw [tokens, List.splitOnP_eq_singleton solid]
  exact List.filter_cons_of_pos (decide_eq_true nonempty)

theorem tokens_append (nonempty : s ≠ []) (solid : ∀ c ∈ s, delim c = false) {d : Char}
    (stops : delim d = true) : tokens delim (s ++ d :: t) = s :: tokens delim t := by
  rw [tokens, List.splitOnP_append_cons_of_forall_mem solid d stops]
  exact List.filter_cons_of_pos (decide_eq_true nonempty)

/-- **The tokens are found one by one.** -/
theorem tokens_of_some {token rest : List Char} (found : next delim s = some (token, rest)) :
    tokens delim s = token :: tokens delim rest := by
  obtain ⟨lead, back, rfl, rfl, parts⟩ := next_eq_some found
  rw [← tokens_dropWhile, parts.body]
  cases back with
  | nil =>
    rw [List.append_nil, tokens_single parts.nonempty parts.solid]
    rfl
  | cons d rest => exact tokens_append parts.nonempty parts.solid (parts.stops d rfl)

/-- The first token. -/
theorem tokens_zero (delim : Char → Bool) (s : List Char) :
    (tokens delim s)[0]? = (next delim s).map Prod.fst := by
  cases found : next delim s with
  | none =>
    rw [tokens_of_none found]
    rfl
  | some pair =>
    rw [tokens_of_some found]
    rfl

/-- A token is not empty and has no delimiters. -/
theorem mem_tokens {token : List Char} (mem : token ∈ tokens delim s) :
    token ≠ [] ∧ ∀ c ∈ token, delim c = false ∧ c ∈ s := by
  generalize long : s.length = n
  induction n using Nat.strong_induction_on generalizing s with
  | _ n ih =>
    cases found : next delim s with
    | none =>
      rw [tokens_of_none found] at mem
      cases mem
    | some pair =>
      obtain ⟨first, rest⟩ := pair
      rw [tokens_of_some found] at mem
      obtain ⟨lead, back, rfl, rfl, parts⟩ := next_eq_some found
      rcases List.mem_cons.mp mem with rfl | later
      · refine ⟨parts.nonempty, fun c inside => ⟨parts.solid c inside, ?_⟩⟩
        exact List.mem_append_right _ (List.mem_append_left _ inside)
      · have shorter : back.tail.length < n := by
          have some_length := List.length_pos_iff.mpr parts.nonempty
          have tail := List.length_tail (l := back)
          rw [List.length_append, List.length_append] at long
          omega
        obtain ⟨nonempty, solid⟩ := ih _ shorter later rfl
        refine ⟨nonempty, fun c inside => ⟨(solid c inside).1, ?_⟩⟩
        exact List.mem_append_right _ (List.mem_append_right _
          (List.mem_of_mem_tail (solid c inside).2))

/-! ### `strtok` -/

/-- The buffer, and the pointer `strtok` keeps between two calls. -/
structure State where
  buffer : List Char
  saved : ℕ

/-- **`strtok`**; `none` is `NULL`, as argument and as result. -/
def strtok (delim : Char → Bool) (start : Option ℕ) (st : State) : Option ℕ × State :=
  let p := start.getD st.saved
  let s := cstr st.buffer p
  let first := p + (s.takeWhile delim).length
  let body := s.dropWhile delim
  let last := first + (body.takeWhile (!delim ·)).length
  if body = [] then (none, { st with saved := first })
  else if body.dropWhile (!delim ·) = [] then (some first, { st with saved := last })
  else (some first, ⟨st.buffer.set last nul, last + 1⟩)

/-- The strings outside the `n` bytes from `p` on are kept. -/
def Keeps (p n : ℕ) (before after : List Char) : Prop :=
  ∀ (q : ℕ) (s : List Char), Holds before q s → q + s.length < p ∨ p + n ≤ q → Holds after q s

theorem Keeps.trans {n : ℕ} {first second third : List Char} (one : Keeps p n first second)
    (two : Keeps p n second third) : Keeps p n first third :=
  fun q s held outside => two q s (one q s held outside) outside

/-- A part of the bytes. -/
theorem Keeps.mono {q n m : ℕ} {before after : List Char} (keeps : Keeps q m before after)
    (low : p ≤ q) (high : q + m ≤ p + n) : Keeps p n before after :=
  fun q s held outside => keeps q s held (by omega)

variable {start : Option ℕ} {st : State}

/-- No token: the pointer saved is at the end of the string. -/
theorem strtok_none (held : Holds st.buffer (start.getD st.saved) s)
    (empty : next delim s = none) :
    ∃ saved, strtok delim start st = (none, { st with saved := saved }) ∧
      Holds st.buffer saved [] := by
  have all := next_eq_none empty
  have body : s.dropWhile delim = [] := List.dropWhile_eq_nil_iff.mpr all
  have lead : s.takeWhile delim = s := List.takeWhile_eq_self_iff.mpr all
  refine ⟨start.getD st.saved + s.length, ?_, ?_⟩
  · simp only [strtok, held.cstr_eq, body, lead, if_true]
  · refine Holds.suffix ?_
    rwa [List.append_nil]

/-- **What a call does that finds a token**: `first` points to it, the saved pointer to the rest, and
the delimiter between them, if there is one, is overwritten. -/
structure Taken (p : ℕ) (s token rest : List Char) (before : List Char) (first : ℕ)
    (after : State) : Prop where
  points : Holds after.buffer first token
  saves : Holds after.buffer after.saved rest
  keeps : Keeps p s.length before after.buffer
  low : p ≤ first
  high : after.saved + rest.length ≤ p + s.length
  apart : first + token.length < after.saved ∨
    first + token.length = after.saved ∧ rest = []

theorem strtok_some {token rest : List Char} (held : Holds st.buffer (start.getD st.saved) s)
    (found : next delim s = some (token, rest)) :
    ∃ first after, strtok delim start st = (some first, after) ∧
      Taken (start.getD st.saved) s token rest st.buffer first after := by
  obtain ⟨lead, back, rfl, rfl, parts⟩ := next_eq_some found
  have body : token ++ back ≠ [] := List.append_ne_nil_of_left_ne_nil parts.nonempty _
  cases back with
  | nil =>
    have ran : strtok delim start st = (some (start.getD st.saved + lead.length),
        { st with saved := start.getD st.saved + lead.length + token.length }) := by
      simp only [strtok, held.cstr_eq, parts.lead, parts.body, parts.token, parts.back, if_neg body,
        if_true]
    have here : Holds st.buffer (start.getD st.saved + lead.length) (token ++ []) := held.suffix
    have last := here.suffix
    rw [List.append_nil] at here
    refine ⟨_, _, ran, here, last, fun _ _ held _ => held, Nat.le_add_right _ _, ?_, .inr ⟨rfl, rfl⟩⟩
    simp only [List.length_append, List.length_nil, List.tail_nil]
    omega
  | cons d rest =>
    have last : start.getD st.saved + lead.length + token.length =
        start.getD st.saved + (lead ++ token).length := by
      rw [List.length_append]
      omega
    have ran : strtok delim start st = (some (start.getD st.saved + lead.length),
        ⟨st.buffer.set (start.getD st.saved + (lead ++ token).length) nul,
          start.getD st.saved + (lead ++ token).length + 1⟩) := by
      simp only [strtok, held.cstr_eq, parts.lead, parts.body, parts.token, parts.back, if_neg body,
        if_neg (List.cons_ne_nil d rest), last]
    have room : (lead ++ (token ++ d :: rest)).length = (lead ++ token).length + 1 + rest.length := by
      simp only [List.length_append, List.length_cons]
      omega
    rw [← List.append_assoc] at held
    obtain ⟨here, behind⟩ := held.cut
    refine ⟨_, _, ran, here.suffix, behind, fun _ _ held outside => ?_, Nat.le_add_right _ _, ?_,
      .inl ?_⟩
    · exact held.set_outside (by omega) nul
    · rw [room]
      simp only [List.tail_cons]
      omega
    · rw [last]
      exact Nat.lt_succ_self _

/-! ### Two tokens -/

/-- A pointer to a string between two places, or `NULL`. -/
inductive Located (b : List Char) (low high : ℕ) : Option ℕ → Option (List Char) → Prop
  | null : Located b low high none none
  | string {p : ℕ} {s : List Char} : Holds b p s → low ≤ p → p + s.length ≤ high →
      Located b low high (some p) (some s)

theorem Located.elim {low high : ℕ} {pointer : Option ℕ} {string : Option (List Char)}
    (located : Located b low high pointer string) :
    pointer = none ∧ string = none ∨
      ∃ p s, pointer = some p ∧ string = some s ∧ Holds b p s ∧ low ≤ p ∧ p + s.length ≤ high := by
  cases located with
  | null => exact .inl ⟨rfl, rfl⟩
  | string held inside bound => exact .inr ⟨_, _, rfl, rfl, held, inside, bound⟩

theorem Located.read {low high : ℕ} {pointer : Option ℕ} {string : Option (List Char)}
    (located : Located b low high pointer string) : pointer.map (cstr b) = string := by
  cases located with
  | null => rfl
  | string held _ _ => exact congrArg some held.cstr_eq

theorem Located.keeps {low high n : ℕ} {pointer : Option ℕ} {string : Option (List Char)}
    {after : List Char} (located : Located b low high pointer string) (keeps : Keeps p n b after)
    (outside : high < p ∨ p + n ≤ low) : Located after low high pointer string := by
  cases located with
  | null => exact .null
  | string held inside bound => exact .string (keeps _ _ held (by omega)) inside bound

/-- A call on a string, and one with `NULL`. -/
def strtokTwice (delim : Char → Bool) (start : Option ℕ) (st : State) :
    Option ℕ × Option ℕ × State :=
  let (first, st) := strtok delim start st
  let (second, st) := strtok delim none st
  (first, second, st)

/-- **The first two tokens of the string at `p`**: where they are, and that nothing else changed. -/
structure Pair (p : ℕ) (s : List Char) (parts : List (List Char)) (before : List Char)
    (first second : Option ℕ) (after : State) : Prop where
  one : Located after.buffer p (p + s.length) first parts[0]?
  two : Located after.buffer p (p + s.length) second parts[1]?
  apart : ∀ q ∈ first, ∀ token ∈ parts[0]?, ∀ r ∈ second, q + token.length < r
  keeps : Keeps p s.length before after.buffer
  spent : first = none → Holds after.buffer after.saved []

/-- **A call on a string and a second with `NULL` return its first two tokens.** -/
theorem strtok_pair (delim : Char → Bool) (start : Option ℕ)
    (held : Holds st.buffer (start.getD st.saved) s) :
    ∃ first second after, strtokTwice delim start st = (first, second, after) ∧
      Pair (start.getD st.saved) s (tokens delim s) st.buffer first second after := by
  cases found : next delim s with
  | none =>
    rw [tokens_of_none found]
    obtain ⟨saved, ran, empty⟩ := strtok_none held found
    obtain ⟨saved', again, empty'⟩ : ∃ saved', strtok delim none { st with saved := saved } =
        (none, { st with saved := saved' }) ∧ Holds st.buffer saved' [] := strtok_none empty rfl
    refine ⟨none, none, { st with saved := saved' }, by rw [strtokTwice, ran]; simp only [again], ?_⟩
    exact ⟨.null, .null, nofun, fun _ _ held _ => held, fun _ => empty'⟩
  | some pair =>
    obtain ⟨token, rest⟩ := pair
    obtain ⟨first, middle, ran, taken⟩ := strtok_some held found
    obtain ⟨bound, high⟩ := And.intro taken.apart taken.high
    have outside : first + token.length ≤ start.getD st.saved + s.length := by omega
    rw [tokens_of_some found]
    cases found' : next delim rest with
    | none =>
      rw [tokens_of_none found']
      obtain ⟨saved, again, _⟩ : ∃ saved, strtok delim none middle =
          (none, { middle with saved := saved }) ∧ Holds middle.buffer saved [] :=
        strtok_none taken.saves found'
      refine ⟨first, none, { middle with saved := saved },
        by rw [strtokTwice, ran]; simp only [again], ?_⟩
      exact ⟨.string taken.points taken.low outside, .null, nofun, taken.keeps, nofun⟩
    | some pair =>
      obtain ⟨token', rest'⟩ := pair
      rw [tokens_of_some found']
      obtain ⟨second, after, again, taken'⟩ : ∃ second after, strtok delim none middle =
          (some second, after) ∧ Taken middle.saved rest token' rest' middle.buffer second after :=
        strtok_some taken.saves found'
      obtain ⟨bound', high', low'⟩ := And.intro taken'.apart (And.intro taken'.high taken'.low)
      -- there is a second token, so a delimiter was overwritten
      have gap : first + token.length < middle.saved := by
        rcases bound with gap | ⟨_, rfl⟩
        · exact gap
        · cases found'
      have kept : Holds after.buffer first token := taken'.keeps _ _ taken.points (.inl gap)
      refine ⟨first, second, after, by rw [strtokTwice, ran]; simp only [again], ?_⟩
      refine ⟨.string kept taken.low outside, .string taken'.points ?_ ?_, ?_, ?_, nofun⟩
      · have := taken.low
        omega
      · omega
      · rintro q ⟨⟩ t ⟨⟩ r ⟨⟩
        omega
      · exact taken.keeps.trans (taken'.keeps.mono (by have := taken.low; omega) (by omega))

/-! ### Any number of tokens -/

/-- A call writes into the buffer and does not change its size. -/
theorem length_strtok (delim : Char → Bool) (start : Option ℕ) (st : State) :
    (strtok delim start st).2.buffer.length = st.buffer.length := by
  unfold strtok
  dsimp only
  split
  · rfl
  · split
    · rfl
    · exact List.length_set

/-- **The tokens found so far**, each with its pointer, and what is left of the string. -/
structure Found (st : State) (words : List (ℕ × List Char)) (rest : List Char) : Prop where
  saves : Holds st.buffer st.saved rest
  points : ∀ word ∈ words, Holds st.buffer word.1 word.2
  apart : ∀ word ∈ words, word.1 + word.2.length < st.saved ∨ rest = []

section Found

variable {words : List (ℕ × List Char)} {rest : List Char}

/-- The first call finds the first token. -/
theorem found_start {token : List Char} (held : Holds st.buffer p s)
    (found : next delim s = some (token, rest)) :
    ∃ first after, strtok delim (some p) st = (some first, after) ∧
      Found after [(first, token)] rest := by
  obtain ⟨first, after, ran, taken⟩ : ∃ first after, strtok delim (some p) st = (some first, after) ∧
      Taken p s token rest st.buffer first after := strtok_some held found
  refine ⟨first, after, ran, taken.saves, fun word member => ?_, fun word member => ?_⟩
  · rw [List.mem_singleton.mp member]
    exact taken.points
  · rw [List.mem_singleton.mp member]
    exact taken.apart.imp_right And.right

/-- **A call with `NULL` finds the next token**, and leaves those found before. -/
theorem Found.call (earlier : Found st words rest) {token behind : List Char}
    (found : next delim rest = some (token, behind)) :
    ∃ first after, strtok delim none st = (some first, after) ∧
      Found after (words ++ [(first, token)]) behind := by
  obtain ⟨first, after, ran, taken⟩ : ∃ first after, strtok delim none st = (some first, after) ∧
      Taken st.saved rest token behind st.buffer first after := strtok_some earlier.saves found
  have below : ∀ word ∈ words, word.1 + word.2.length < st.saved := by
    intro word member
    rcases earlier.apart word member with less | rfl
    · exact less
    · cases found
  obtain ⟨low, apart⟩ := And.intro taken.low taken.apart
  refine ⟨first, after, ran, taken.saves, fun word member => ?_, fun word member => ?_⟩
  · rcases List.mem_append.mp member with old | new
    · exact taken.keeps _ _ (earlier.points word old) (.inl (below word old))
    · rw [List.mem_singleton.mp new]
      exact taken.points
  · rcases List.mem_append.mp member with old | new
    · have less := below word old
      exact .inl (by omega)
    · rw [List.mem_singleton.mp new]
      exact apart.imp_right And.right

/-- A call that finds none leaves them too. -/
theorem Found.stop (earlier : Found st words rest) (none : next delim rest = none) :
    ∃ after, strtok delim .none st = (.none, after) ∧ Found after words [] := by
  obtain ⟨saved, ran, empty⟩ : ∃ saved, strtok delim .none st = (.none, { st with saved := saved }) ∧
      Holds st.buffer saved [] := strtok_none earlier.saves none
  exact ⟨_, ran, empty, earlier.points, fun _ _ => .inr rfl⟩

/-- The pointers point to the tokens. -/
theorem Found.read (found : Found st words rest) :
    (words.map Prod.fst).map (cstr st.buffer) = words.map Prod.snd := by
  rw [List.map_map]
  exact List.map_congr_left fun word member => (found.points word member).cstr_eq

end Found

end CString
