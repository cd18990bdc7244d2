/-
**`cal.c`: the calendar module.**

`module_generate` cuts the parameters of the request with `strtok`, first at `&` and then each of the
first two parts at `=`, checks month and year with `atoi`, and gives the strings to `cal`.

* `moduleGenerate` — the error blocks written and the arguments of `execv`, on the buffer the calls of
  `strtok` share. Where `strcmp` or `atoi` gets `NULL` the end is `nulo`.
* `responde` — the same answer as a function of the query. `moduleGenerate_eq` — **the interleaved
  calls of `strtok` read the names and values of the first two parts.**
* `parameter_order` — **`ano=Y&mes=M` and `mes=M&ano=Y` are answered alike**, from `handle_get` on.
* `nulo_iff` — which queries make it pass `NULL` to `strcmp` or `atoi`. `malformed_answered` — **all
  other malformed ones get an error block and `cal -h`.** `empty_query`, `name_only`: two that do not.
* `Pede` — what a query that is not malformed asks for. `arguments_valid` — **month and year
  arguments are numerals in their range**, exactly if the values that pass their checks are numerals
  of an `int`. `suffix_passed`: `atoi` reads a prefix, and the whole string is passed on.

`execv` is taken to succeed. The page around the calendar is left out.
-/

import SistemasOperacionais.Alp.Server
import SistemasOperacionais.Data.Wrap

namespace Alp

open CString

/-! ### The code -/

/-- `atoi`: `strtol`, which stops at the ends of `long`, converted to `int`. -/
def atoi (s : List Char) : ℤ :=
  let (minus, body) := Numeral.sign (Numeral.skip s)
  let number := Numeral.signed minus (Numeral.value 10 (Numeral.numeral 10 body))
  Wrap.int (max (-9223372036854775808) (min 9223372036854775807 number))

/-- A block written before `cal` runs. -/
abbrev Bloco := List Char

def erroParametros : Bloco :=
  "<div class='erro-parametros'>\n<h1>Parâmetros inválidos!</h1></div>\n".toList

def erroAno : Bloco :=
  "<div class='erro-parametros'>\n<h1>O ano deve ser um valor entre 0 e 9999</h1></div>\n".toList

def erroMes : Bloco :=
  "<div class='erro-parametros'>\n<h1>O mês deve ser um valor entre 1 e 12!</h1></div>\n".toList

inductive Fim
  | execv (argv : List (List Char))
  /-- `NULL` is passed to `strcmp` or `atoi` -/
  | nulo
  deriving DecidableEq, Repr

structure Resposta where
  blocos : List Bloco
  fim : Fim
  deriving DecidableEq, Repr

def cal : List Char := "/usr/bin/cal".toList

def ajuda : List (List Char) := [cal, "-h".toList]

/-- `!strcmp(s, t)` -/
def igual (s : Option (List Char)) (t : String) : Option Bool := s.map (· == t.toList)

/-- `&&` -/
def ambos (first second : Option Bool) : Option Bool :=
  first.bind fun holds => if holds then second else some false

/-- The error for a part without a name or a value. -/
def faltando {α : Type} (parametro valor : Option α) : List Bloco :=
  if parametro.isNone || valor.isNone then [erroParametros] else []

/-- Month and year, checked in this order: the year first. -/
def anoMes (ano mes : List Char) : List Bloco × List (List Char) :=
  if atoi ano < 1 ∨ atoi ano > 9999 then ([erroAno], ajuda)
  else if atoi mes < 1 ∨ atoi mes > 12 then ([erroMes], ajuda)
  else ([], [cal, mes, ano])

/-- A year alone. -/
def soAno (ano : List Char) : List Bloco × List (List Char) :=
  if atoi ano < 1 ∨ atoi ano > 9999 then ([erroAno], ajuda) else ([], [cal, ano])

/-- A month alone. -/
def soMes (mes : List Char) : List Bloco × List (List Char) :=
  if atoi mes < 1 ∨ atoi mes > 12 then ([erroMes], ajuda) else ([], [cal, "-m".toList, mes])

/-- The branches for two parts. -/
def dois (parametro01 valor1 parametro02 valor2 : Option (List Char)) :
    Option (List Bloco × List (List Char)) :=
  (ambos (igual parametro01 "ano") (igual parametro02 "mes")).bind fun anoPrimeiro =>
    if anoPrimeiro then valor1.bind fun ano => valor2.map fun mes => anoMes ano mes
    else (ambos (igual parametro01 "mes") (igual parametro02 "ano")).bind fun mesPrimeiro =>
      if mesPrimeiro then valor2.bind fun ano => valor1.map fun mes => anoMes ano mes
      else some ([erroParametros], ajuda)

/-- The branches for one part. -/
def um (parametro01 valor1 : Option (List Char)) : Option (List Bloco × List (List Char)) :=
  (igual parametro01 "ano").bind fun ano =>
    if ano then valor1.map soAno
    else (igual parametro01 "mes").bind fun mes =>
      if mes then valor1.map soMes else some ([erroParametros], ajuda)

/-- The blocks written so far, and how it ends. -/
def encerra (blocos : List Bloco) : Option (List Bloco × List (List Char)) → Resposta
  | none => ⟨blocos, .nulo⟩
  | some (mais, argv) => ⟨blocos ++ mais, .execv argv⟩

theorem encerra_execv {blocos : List Bloco} {decisao : Option (List Bloco × List (List Char))}
    {argv : List (List Char)} :
    (encerra blocos decisao).fim = .execv argv ↔ ∃ mais, decisao = some (mais, argv) := by
  cases decisao with
  | none => exact ⟨nofun, nofun⟩
  | some pair =>
    obtain ⟨mais, made⟩ := pair
    simp [encerra]

/-- **`module_generate`**, in the child. -/
def moduleGenerate (parametros : Option ℕ) (st : State) : Resposta :=
  match parametros with
  | none => ⟨[], .execv [cal]⟩
  | some p =>
    let (auxiliar, auxiliar2, st) := strtokTwice (· = '&') (some p) st
    let (parametro01, valor1, st) := strtokTwice (· = '=') auxiliar st
    match auxiliar2 with
    | some parte =>
      let (parametro02, valor2, st) := strtokTwice (· = '=') (some parte) st
      encerra (faltando parametro01 valor1 ++ faltando parametro02 valor2)
        (dois (parametro01.map (cstr st.buffer)) (valor1.map (cstr st.buffer))
          (parametro02.map (cstr st.buffer)) (valor2.map (cstr st.buffer)))
    | none =>
      encerra (faltando parametro01 valor1)
        (um (parametro01.map (cstr st.buffer)) (valor1.map (cstr st.buffer)))

/-! ### The tokens of the query -/

/-- The name of a part. -/
def nome (parte : Option (List Char)) : Option (List Char) :=
  parte.bind fun parte => (tokens (· = '=') parte)[0]?

/-- The value of a part. -/
def valor (parte : Option (List Char)) : Option (List Char) :=
  parte.bind fun parte => (tokens (· = '=') parte)[1]?

/-- The first two parts that are not empty. -/
def parte1 (query : List Char) : Option (List Char) := (tokens (· = '&') query)[0]?

def parte2 (query : List Char) : Option (List Char) := (tokens (· = '&') query)[1]?

/-- The errors for parts without a name or a value. -/
def erros (query : List Char) : List Bloco :=
  faltando (nome (parte1 query)) (valor (parte1 query)) ++
    if (parte2 query).isSome then faltando (nome (parte2 query)) (valor (parte2 query)) else []

/-- The branches. -/
def decisao (query : List Char) : Option (List Bloco × List (List Char)) :=
  if (parte2 query).isSome then
    dois (nome (parte1 query)) (valor (parte1 query)) (nome (parte2 query)) (valor (parte2 query))
  else um (nome (parte1 query)) (valor (parte1 query))

/-- **The answer to a query.** -/
def responde (query : List Char) : Resposta := encerra (erros query) (decisao query)

theorem faltando_map {α β : Type} (f : α → β) (parametro valor : Option α) :
    faltando (parametro.map f) (valor.map f) = faltando parametro valor := by
  cases parametro <;> cases valor <;> rfl

/-- **The calls of `strtok` read the names and values of the first two parts**: those on the first
part leave the second, and those on the second leave what was found in the first. -/
theorem moduleGenerate_eq {p : ℕ} {st : State} {query : List Char}
    (held : Holds st.buffer p query) : moduleGenerate (some p) st = responde query := by
  obtain ⟨auxiliar, auxiliar2, st1, cut, parts⟩ := strtok_pair (· = '&') (some p) held
  unfold responde erros decisao parte1 parte2
  rcases parts.one.elim with ⟨rfl, empty⟩ | ⟨q, primeira, rfl, found, here, _, _⟩
  · -- no part: `strtok(NULL, "=")` goes on at the end of the query
    have nothing : tokens (· = '&') query = [] := List.head?_eq_none_iff.mp (by simpa using empty)
    obtain ⟨first, second, st2, ran, fields⟩ := strtok_pair (· = '=') none (parts.spent rfl)
    have two := parts.two
    rw [nothing] at two ⊢
    cases two
    have one' := fields.one
    have two' := fields.two
    cases one'
    cases two'
    simp only [moduleGenerate, cut, ran]
    rfl
  · obtain ⟨parametro01, valor1, st2, ran, fields⟩ := strtok_pair (· = '=') (some q) here
    rcases parts.two.elim with ⟨rfl, single⟩ | ⟨r, segunda, rfl, found', there, _, _⟩
    · simp only [moduleGenerate, cut, ran, found, single]
      rw [← faltando_map (cstr st2.buffer), fields.one.read, fields.two.read]
      exact congrArg (encerra · _) (List.append_nil _).symm
    · have apart : q + primeira.length < r := parts.apart q rfl primeira found r rfl
      have kept : Holds st2.buffer r segunda := fields.keeps r segunda there (.inr apart.le)
      obtain ⟨parametro02, valor2, st3, ran', fields'⟩ := strtok_pair (· = '=') (some r) kept
      have name := (fields.one.keeps fields'.keeps (.inl apart)).read
      have value := (fields.two.keeps fields'.keeps (.inl apart)).read
      simp only [moduleGenerate, cut, ran, ran', found, found']
      rw [← faltando_map (cstr st3.buffer) parametro01, ← faltando_map (cstr st3.buffer) parametro02,
        name, value, fields'.one.read, fields'.two.read]
      rfl

/-! ### The order of the parameters -/

/-- A request for the calendar: `handle_get`, and the module if it is opened. -/
def atendeCal (opens : List Char → Bool) (url : ℕ) (st : State) : Option Resposta :=
  (handleGet opens url st).bind fun handled =>
    match handled.answer with
    | .generate parametros st => some (moduleGenerate parametros st)
    | .notFound _ => none

/-- What may stand behind `ano=` or `mes=`. -/
structure Valor (s : List Char) : Prop where
  nonempty : s ≠ []
  amp : '&' ∉ s
  eq : '=' ∉ s
  question : '?' ∉ s

theorem tokens_pair {c : Char} {s t : List Char} (some_s : s ≠ []) (some_t : t ≠ []) (left : c ∉ s)
    (right : c ∉ t) : tokens (· = c) (s ++ c :: t) = [s, t] := by
  have solid {u : List Char} (clean : c ∉ u) : ∀ x ∈ u, decide (x = c) = false :=
    fun x mem => decide_eq_false fun same => clean (same ▸ mem)
  rw [tokens_append some_s (solid left) (decide_eq_true rfl), tokens_single some_t (solid right)]

/-- `/cal` and a query of two parts. -/
theorem atendeCal_eq (opens : List Char → Bool) (module : opens "cal.so".toList = true) {p : ℕ}
    {st : State} {query : List Char} (nonempty : query ≠ []) (clean : '?' ∉ query)
    (held : Holds st.buffer p ("/cal".toList ++ '?' :: query)) :
    atendeCal opens p st = some (responde query) := by
  have cut := tokens_pair (c := '?') (s := "/cal".toList) (by decide) nonempty (by decide) clean
  obtain ⟨parametros, after, get, located⟩ := handleGet_eq opens held
  rw [cut] at get located
  rcases located.elim with ⟨_, none⟩ | ⟨q, s, rfl, same, there, _, _⟩
  · cases none
  · cases same
    have opened : opens (moduleFileName "cal".toList) = true := module
    have page : handlePage opens (some q) after "/cal".toList =
        ⟨[moduleFileName "cal".toList], .generate (some q) after⟩ := by
      rw [handlePage, if_pos (by decide)]
      exact congrArg _ (if_pos opened)
    have handled : handleGet opens p st = some (handlePage opens (some q) after "/cal".toList) := get
    rw [atendeCal, handled, page]
    exact congrArg some (moduleGenerate_eq there)

/-- A query of two parts with names and values. -/
theorem responde_pair {n1 v1 n2 v2 : List Char} (some_n1 : n1 ≠ []) (some_n2 : n2 ≠ [])
    (name1 : '&' ∉ n1 ∧ '=' ∉ n1) (name2 : '&' ∉ n2 ∧ '=' ∉ n2) (value1 : Valor v1)
    (value2 : Valor v2) :
    responde ((n1 ++ '=' :: v1) ++ '&' :: (n2 ++ '=' :: v2)) =
      encerra [] (dois (some n1) (some v1) (some n2) (some v2)) := by
  have clean {n v : List Char} (name : '&' ∉ n) (value : '&' ∉ v) : '&' ∉ n ++ '=' :: v := by
    simp [name, value]
  have parts := tokens_pair (s := n1 ++ '=' :: v1) (t := n2 ++ '=' :: v2) (by simp) (by simp)
    (clean name1.1 value1.amp) (clean name2.1 value2.amp)
  have fields1 := tokens_pair some_n1 value1.nonempty name1.2 value1.eq
  have fields2 := tokens_pair some_n2 value2.nonempty name2.2 value2.eq
  simp only [responde, erros, decisao, parte1, parte2, parts, nome, valor]
  simp [fields1, fields2, faltando]

/-- Year and month, or the other way round. -/
theorem encerra_anoMes (Y M : List Char) :
    encerra [] (some (anoMes Y M)) =
      if atoi Y < 1 ∨ atoi Y > 9999 then ⟨[erroAno], .execv [cal, "-h".toList]⟩
      else if atoi M < 1 ∨ atoi M > 12 then ⟨[erroMes], .execv [cal, "-h".toList]⟩
      else ⟨[], .execv [cal, M, Y]⟩ := by
  unfold anoMes
  split
  · rfl
  · split <;> rfl

/-- A request with two parts. -/
theorem atendeCal_pair (opens : List Char → Bool) (module : opens "cal.so".toList = true) {p : ℕ}
    {st : State} {n1 v1 n2 v2 : List Char} (some_n1 : n1 ≠ []) (some_n2 : n2 ≠ [])
    (name1 : '&' ∉ n1 ∧ '=' ∉ n1 ∧ '?' ∉ n1) (name2 : '&' ∉ n2 ∧ '=' ∉ n2 ∧ '?' ∉ n2)
    (value1 : Valor v1) (value2 : Valor v2)
    (held : Holds st.buffer p
      ("/cal".toList ++ '?' :: ((n1 ++ '=' :: v1) ++ '&' :: (n2 ++ '=' :: v2)))) :
    atendeCal opens p st = some (encerra [] (dois (some n1) (some v1) (some n2) (some v2))) := by
  have clean : '?' ∉ (n1 ++ '=' :: v1) ++ '&' :: (n2 ++ '=' :: v2) := by
    simp [name1, name2, value1.question, value2.question]
  rw [atendeCal_eq opens module (by simp) clean held,
    responde_pair some_n1 some_n2 ⟨name1.1, name1.2.1⟩ ⟨name2.1, name2.2.1⟩ value1 value2]

/-- **The order of the parameters does not matter**: for both orders `cal` gets the month and the year
if both are in range, and `-h` otherwise, with the error for the year if that is out of range. -/
theorem parameter_order (opens : List Char → Bool) (module : opens "cal.so".toList = true)
    {p q : ℕ} {st su : State} {Y M : List Char} (year : Valor Y) (month : Valor M)
    (first : Holds st.buffer p ("/cal?ano=".toList ++ Y ++ "&mes=".toList ++ M))
    (second : Holds su.buffer q ("/cal?mes=".toList ++ M ++ "&ano=".toList ++ Y)) :
    atendeCal opens p st = atendeCal opens q su ∧
      atendeCal opens p st = some (
        if atoi Y < 1 ∨ atoi Y > 9999 then ⟨[erroAno], .execv [cal, "-h".toList]⟩
        else if atoi M < 1 ∨ atoi M > 12 then ⟨[erroMes], .execv [cal, "-h".toList]⟩
        else ⟨[], .execv [cal, M, Y]⟩) := by
  have one : "/cal?ano=".toList ++ Y ++ "&mes=".toList ++ M = "/cal".toList ++ '?' ::
      (("ano".toList ++ '=' :: Y) ++ '&' :: ("mes".toList ++ '=' :: M)) := by simp
  have two : "/cal?mes=".toList ++ M ++ "&ano=".toList ++ Y = "/cal".toList ++ '?' ::
      (("mes".toList ++ '=' :: M) ++ '&' :: ("ano".toList ++ '=' :: Y)) := by simp
  rw [one] at first
  rw [two] at second
  have straight := atendeCal_pair opens module (by decide) (by decide) (by decide) (by decide)
    year month first
  have turned := atendeCal_pair opens module (by decide) (by decide) (by decide) (by decide)
    month year second
  exact ⟨straight.trans turned.symm, straight.trans (congrArg some (encerra_anoMes Y M))⟩

/-- May 2018, both ways. -/
theorem parameter_order_may :
    atendeCal (fun _ => true) 0 ⟨"/cal?ano=2018&mes=5".toList ++ [nul], 0⟩ =
      some ⟨[], .execv [cal, "5".toList, "2018".toList]⟩ ∧
    atendeCal (fun _ => true) 0 ⟨"/cal?mes=5&ano=2018".toList ++ [nul], 0⟩ =
      some ⟨[], .execv [cal, "5".toList, "2018".toList]⟩ := by
  have year : Valor "2018".toList := ⟨by decide, by decide, by decide, by decide⟩
  have month : Valor "5".toList := ⟨by decide, by decide, by decide, by decide⟩
  have first : Holds (State.mk ("/cal?ano=2018&mes=5".toList ++ [nul]) 0).buffer 0
      ("/cal?ano=".toList ++ "2018".toList ++ "&mes=".toList ++ "5".toList) := holds_url (by decide)
  have second : Holds (State.mk ("/cal?mes=5&ano=2018".toList ++ [nul]) 0).buffer 0
      ("/cal?mes=".toList ++ "5".toList ++ "&ano=".toList ++ "2018".toList) := holds_url (by decide)
  have order := parameter_order (fun _ => true) rfl year month first second
  have answer := order.2.trans (by decide +kernel :
    _ = some (⟨[], .execv [cal, "5".toList, "2018".toList]⟩ : Resposta))
  exact ⟨answer, order.1.symm.trans answer⟩

/-! ### Malformed queries -/

/-- A name that is known by itself. -/
def Conhecido (nome : Option (List Char)) : Prop :=
  nome = some "ano".toList ∨ nome = some "mes".toList

/-- Two names that belong together. -/
def Par (nome1 nome2 : Option (List Char)) : Prop :=
  nome1 = some "ano".toList ∧ nome2 = some "mes".toList ∨
    nome1 = some "mes".toList ∧ nome2 = some "ano".toList

theorem igual_of_eq (t : String) : igual (some t.toList) t = some true :=
  congrArg some (beq_self_eq_true t.toList)

theorem igual_of_ne {s : List Char} {t : String} (other : some s ≠ some t.toList) :
    igual (some s) t = some false :=
  congrArg some (beq_false_of_ne fun same => other (congrArg some same))

section Ramos

variable {nome1 valor1 nome2 valor2 : Option (List Char)}

/-- **One part**: an unknown name is an error, a known one needs a value. -/
theorem um_of_other (named : nome1 ≠ none) (other : ¬ Conhecido nome1) :
    um nome1 valor1 = some ([erroParametros], ajuda) := by
  obtain ⟨s, rfl⟩ := Option.ne_none_iff_exists'.mp named
  rw [um, igual_of_ne fun same => other (.inl same), igual_of_ne fun same => other (.inr same)]
  rfl

theorem um_eq_none : um nome1 valor1 = none ↔ nome1 = none ∨ Conhecido nome1 ∧ valor1 = none := by
  by_cases named : nome1 = none
  · subst named
    exact ⟨fun _ => .inl rfl, fun _ => rfl⟩
  by_cases known : Conhecido nome1
  · simp only [named, known, true_and, false_or]
    rcases known with rfl | rfl
    · exact Option.map_eq_none_iff
    · exact Option.map_eq_none_iff
  · simp only [um_of_other named known, named, known, false_and, or_self, reduceCtorEq]

/-- **Two parts**: the second name is looked at only if the first is known. -/
theorem dois_of_other (named : nome1 ≠ none) (second : Conhecido nome1 → nome2 ≠ none)
    (other : ¬ Par nome1 nome2) :
    dois nome1 valor1 nome2 valor2 = some ([erroParametros], ajuda) := by
  obtain ⟨s, rfl⟩ := Option.ne_none_iff_exists'.mp named
  by_cases year : some s = some "ano".toList
  · rw [year] at second other ⊢
    obtain ⟨t, rfl⟩ := Option.ne_none_iff_exists'.mp (second (.inl rfl))
    rw [dois, igual_of_eq, igual_of_ne fun same => other (.inl ⟨rfl, same⟩)]
    rfl
  by_cases month : some s = some "mes".toList
  · rw [month] at second other ⊢
    obtain ⟨t, rfl⟩ := Option.ne_none_iff_exists'.mp (second (.inr rfl))
    rw [dois, igual_of_eq, igual_of_ne fun same => other (.inr ⟨rfl, same⟩)]
    rfl
  · rw [dois, igual_of_ne year, igual_of_ne month]
    rfl

theorem dois_eq_none : dois nome1 valor1 nome2 valor2 = none ↔
    nome1 = none ∨ Conhecido nome1 ∧ nome2 = none ∨
      Par nome1 nome2 ∧ (valor1 = none ∨ valor2 = none) := by
  by_cases named : nome1 = none
  · subst named
    exact ⟨fun _ => .inl rfl, fun _ => rfl⟩
  by_cases lacking : Conhecido nome1 ∧ nome2 = none
  · refine ⟨fun _ => .inr (.inl lacking), fun _ => ?_⟩
    obtain ⟨rfl | rfl, rfl⟩ := lacking
    · rfl
    · rfl
  by_cases pair : Par nome1 nome2
  · simp only [named, lacking, pair, true_and, false_or]
    -- both values are read, the year first
    rcases pair with ⟨rfl, rfl⟩ | ⟨rfl, rfl⟩
    · cases valor1 <;> cases valor2 <;> simp [dois, igual, ambos]
    · cases valor1 <;> cases valor2 <;> simp [dois, igual, ambos]
  · have second : Conhecido nome1 → nome2 ≠ none := fun known none => lacking ⟨known, none⟩
    simp only [dois_of_other named second pair, named, lacking, pair, false_and, or_self,
      reduceCtorEq]

end Ramos

/-- **The queries that pass no `NULL` on**: the first part has a name; if that is known and there is a
second part, this has a name too; and where the names call for the values, there are values. -/
structure Completa (query : List Char) : Prop where
  nome1 : nome (parte1 query) ≠ none
  single : parte2 query = none → Conhecido (nome (parte1 query)) → valor (parte1 query) ≠ none
  nome2 : parte2 query ≠ none → Conhecido (nome (parte1 query)) → nome (parte2 query) ≠ none
  both : Par (nome (parte1 query)) (nome (parte2 query)) →
    valor (parte1 query) ≠ none ∧ valor (parte2 query) ≠ none

/-- A part lacks a name or a value, or the names are not `ano`, `mes`, `ano` and `mes`, or `mes` and
`ano`. -/
def Malformada (query : List Char) : Prop :=
  nome (parte1 query) = none ∨ valor (parte1 query) = none ∨
    parte2 query ≠ none ∧ (nome (parte2 query) = none ∨ valor (parte2 query) = none) ∨
    parte2 query = none ∧ ¬ Conhecido (nome (parte1 query)) ∨
    parte2 query ≠ none ∧ ¬ Par (nome (parte1 query)) (nome (parte2 query))

theorem encerra_nulo {blocos : List Bloco} {decisao : Option (List Bloco × List (List Char))} :
    (encerra blocos decisao).fim = .nulo ↔ decisao = none := by
  cases decisao <;> simp [encerra]

/-- Without a second part there are no two names. -/
theorem Par.parte2 {query : List Char} (pair : Par (nome (parte1 query)) (nome (parte2 query))) :
    parte2 query ≠ none := by
  intro none
  rw [none] at pair
  rcases pair with ⟨_, same⟩ | ⟨_, same⟩
  · cases same
  · cases same

theorem decisao_eq_none {query : List Char} : decisao query = none ↔ ¬ Completa query := by
  unfold decisao
  by_cases single : parte2 query = none
  · rw [if_neg (by simp [single]), um_eq_none]
    constructor
    · rintro (unnamed | ⟨known, lacking⟩) completa
      · exact completa.nome1 unnamed
      · exact completa.single single known lacking
    · intro incomplete
      by_contra fine
      push Not at fine
      exact incomplete ⟨fine.1, fun _ => fine.2, fun some => absurd single some,
        fun pair => absurd single pair.parte2⟩
  · rw [if_pos (Option.isSome_iff_ne_none.mpr single), dois_eq_none]
    constructor
    · rintro (unnamed | ⟨known, unnamed⟩ | ⟨pair, lacking⟩) completa
      · exact completa.nome1 unnamed
      · exact completa.nome2 single known unnamed
      · exact lacking.elim (completa.both pair).1 (completa.both pair).2
    · intro incomplete
      by_contra fine
      push Not at fine
      exact incomplete ⟨fine.1, fun none => absurd none single, fun _ => fine.2.1, fine.2.2⟩

/-- A malformed query that passes no `NULL` on does not have the right names. -/
theorem decisao_of_malformada {query : List Char} (completa : Completa query)
    (malformada : Malformada query) : decisao query = some ([erroParametros], ajuda) := by
  unfold decisao
  by_cases single : parte2 query = none
  · have other : ¬ Conhecido (nome (parte1 query)) := by
      intro known
      rcases malformada with unnamed | lacking | ⟨some, _⟩ | ⟨_, other⟩ | ⟨some, _⟩
      · exact completa.nome1 unnamed
      · exact completa.single single known lacking
      · exact some single
      · exact other known
      · exact some single
    rw [if_neg (by simp [single]), um_of_other completa.nome1 other]
  · have other : ¬ Par (nome (parte1 query)) (nome (parte2 query)) := by
      intro pair
      have values := completa.both pair
      rcases malformada with unnamed | lacking | ⟨_, unnamed | lacking⟩ | ⟨none, _⟩ | ⟨_, other⟩
      · exact completa.nome1 unnamed
      · exact values.1 lacking
      · rcases pair with ⟨_, same⟩ | ⟨_, same⟩ <;> cases same.symm.trans unnamed
      · exact values.2 lacking
      · exact single none
      · exact other pair
    rw [if_pos (Option.isSome_iff_ne_none.mpr single),
      dois_of_other completa.nome1 (completa.nome2 single) other]

/-- **Which queries pass `NULL` to `strcmp` or `atoi`.** -/
theorem nulo_iff {p : ℕ} {st : State} {query : List Char} (held : Holds st.buffer p query) :
    (moduleGenerate (some p) st).fim = .nulo ↔ ¬ Completa query := by
  rw [moduleGenerate_eq held, responde, encerra_nulo, decisao_eq_none]

/-- **Malformed queries are answered**: no `NULL` is passed on, and there is an error block and
`cal -h`. This holds of the complete queries and of no others. -/
theorem malformed_answered {p : ℕ} {st : State} {query : List Char}
    (held : Holds st.buffer p query) :
    ((moduleGenerate (some p) st).fim ≠ .nulo ∧
      (Malformada query → (moduleGenerate (some p) st).blocos ≠ [] ∧
        (moduleGenerate (some p) st).fim = .execv [cal, "-h".toList])) ↔ Completa query := by
  constructor
  · rintro ⟨answered, _⟩
    by_contra incomplete
    exact answered ((nulo_iff held).mpr incomplete)
  · intro completa
    refine ⟨fun null => (nulo_iff held).mp null completa, fun malformada => ?_⟩
    rw [moduleGenerate_eq held, responde, decisao_of_malformada completa malformada]
    exact ⟨List.append_ne_nil_of_right_ne_nil _ (List.cons_ne_nil _ _), rfl⟩

/-- `ano=2018&dia=3`: two names that do not belong together. -/
theorem malformed_answered_dia :
    (moduleGenerate (some 0) ⟨"ano=2018&dia=3".toList ++ [nul], 0⟩).blocos ≠ [] ∧
      (moduleGenerate (some 0) ⟨"ano=2018&dia=3".toList ++ [nul], 0⟩).fim =
        .execv [cal, "-h".toList] := by
  have held : Holds (State.mk ("ano=2018&dia=3".toList ++ [nul]) 0).buffer 0
      "ano=2018&dia=3".toList := holds_url (by decide)
  have name : nome (parte2 "ano=2018&dia=3".toList) = some "dia".toList := by decide +kernel
  have other : ¬ Par (nome (parte1 "ano=2018&dia=3".toList))
      (nome (parte2 "ano=2018&dia=3".toList)) := by
    rw [name]
    rintro (⟨_, same⟩ | ⟨_, same⟩) <;> cases same
  have second : parte2 "ano=2018&dia=3".toList ≠ none := by decide +kernel
  have completa : Completa "ano=2018&dia=3".toList :=
    ⟨by decide +kernel, fun none => absurd none second, fun _ _ => by decide +kernel,
      fun pair => absurd pair other⟩
  exact ((malformed_answered held).mpr completa).2 (.inr (.inr (.inr (.inr ⟨second, other⟩))))

/-- **`&` alone has no part**, and `strcmp` gets `NULL`. -/
theorem empty_query :
    moduleGenerate (some 0) ⟨"&".toList ++ [nul], 0⟩ = ⟨[erroParametros], .nulo⟩ := by
  decide +kernel

/-- A name without a value: `atoi` gets `NULL`. -/
theorem name_only :
    moduleGenerate (some 0) ⟨"ano".toList ++ [nul], 0⟩ = ⟨[erroParametros], .nulo⟩ := by
  decide +kernel

/-! ### What `cal` is given -/

/-- A decimal numeral and nothing else, of a number in a range. -/
structure Numerico (low high : ℕ) (s : List Char) : Prop where
  nonempty : s ≠ []
  digits : ∀ c ∈ s, c.isDigit = true
  low : low ≤ Numeral.value 10 s
  high : Numeral.value 10 s ≤ high

/-- A decimal numeral of an `int`, if it is not empty. -/
structure Inteiro (s : List Char) : Prop where
  digits : ∀ c ∈ s, c.isDigit = true
  small : Numeral.value 10 s ≤ 2147483647

/-- `atoi` reads a numeral of an `int` whole. -/
theorem atoi_eq {s : List Char} (nonempty : s ≠ []) (inteiro : Inteiro s) :
    atoi s = Numeral.value 10 s := by
  obtain ⟨c, cs, rfl⟩ := List.exists_cons_of_ne_nil nonempty
  have is := inteiro.digits c List.mem_cons_self
  have small := inteiro.small
  have whole : Numeral.numeral 10 (c :: cs) = c :: cs := by
    have all : ∀ d ∈ c :: cs, Numeral.digit d < 10 :=
      fun d mem => Numeral.digit_lt_ten.mpr (inteiro.digits d mem)
    have read : Numeral.numeral 10 (c :: cs ++ []) = c :: cs := Numeral.numeral_append all nofun
    rwa [List.append_nil] at read
  unfold atoi
  rw [Numeral.skip_of_isDigit is, Numeral.sign_of_isDigit is]
  show Wrap.int (max _ (min _ (Numeral.signed false _))) = _
  rw [whole, Numeral.signed, if_neg Bool.false_ne_true, min_eq_right (by omega),
    max_eq_right (by omega), Wrap.int_eq (by omega) (by omega)]

theorem numerico_of_atoi {s : List Char} (nonempty : s ≠ []) (inteiro : Inteiro s) {high : ℕ}
    (low : 1 ≤ atoi s) (below : atoi s ≤ high) : Numerico 1 high s := by
  rw [atoi_eq nonempty inteiro] at low below
  exact ⟨nonempty, inteiro.digits, by omega, by omega⟩

theorem Numerico.inteiro {s : List Char} {low high : ℕ} (numerico : Numerico low high s)
    (small : high ≤ 2147483647) : Inteiro s :=
  ⟨numerico.digits, numerico.high.trans small⟩

/-- What a query asks for. -/
inductive Pedido
  | ano (Y : List Char)
  | mes (M : List Char)
  | anoMes (Y M : List Char)

/-- The values given, each with the end of its range. -/
def Pedido.valores : Pedido → List (ℕ × List Char)
  | .ano Y => [(9999, Y)]
  | .mes M => [(12, M)]
  | .anoMes Y M => [(9999, Y), (12, M)]

/-- The arguments of `cal` if all values are in range. -/
def Pedido.argv : Pedido → List (List Char)
  | .ano Y => [cal, Y]
  | .mes M => [cal, "-m".toList, M]
  | .anoMes Y M => [cal, M, Y]

/-- The branch that it is read in. -/
def Pedido.ramo : Pedido → List Bloco × List (List Char)
  | .ano Y => soAno Y
  | .mes M => soMes M
  | .anoMes Y M => Alp.anoMes Y M

/-- **All values pass their checks**, as `atoi` reads them. -/
def Pedido.Passa (pedido : Pedido) : Prop :=
  ∀ v ∈ pedido.valores, 1 ≤ atoi v.2 ∧ atoi v.2 ≤ v.1

/-- The names and values of a query that asks for a calendar. -/
inductive Pede (query : List Char) : Pedido → Prop
  | ano {Y : List Char} : parte2 query = none → nome (parte1 query) = some "ano".toList →
      valor (parte1 query) = some Y → Pede query (.ano Y)
  | mes {M : List Char} : parte2 query = none → nome (parte1 query) = some "mes".toList →
      valor (parte1 query) = some M → Pede query (.mes M)
  | anoMes {Y M : List Char} : nome (parte1 query) = some "ano".toList →
      nome (parte2 query) = some "mes".toList → valor (parte1 query) = some Y →
      valor (parte2 query) = some M → Pede query (.anoMes Y M)
  | mesAno {Y M : List Char} : nome (parte1 query) = some "mes".toList →
      nome (parte2 query) = some "ano".toList → valor (parte1 query) = some M →
      valor (parte2 query) = some Y → Pede query (.anoMes Y M)

/-- A branch gives the values to `cal` if they pass, and asks for its help otherwise. -/
theorem Pedido.ramo_eq (pedido : Pedido) :
    pedido.Passa ∧ pedido.ramo = ([], pedido.argv) ∨
      ¬ pedido.Passa ∧ pedido.ramo.2 = ajuda := by
  have check {s : List Char} {high : ℤ} :
      (atoi s < 1 ∨ atoi s > high) ∨ 1 ≤ atoi s ∧ atoi s ≤ high := by omega
  have outside {s : List Char} {high : ℤ} (out : atoi s < 1 ∨ atoi s > high) :
      ¬ (1 ≤ atoi s ∧ atoi s ≤ high) := by omega
  have inside {s : List Char} {high : ℤ} (fits : 1 ≤ atoi s ∧ atoi s ≤ high) :
      ¬ (atoi s < 1 ∨ atoi s > high) := by omega
  unfold Pedido.Passa
  cases pedido with
  | ano Y =>
    simp only [valores, List.forall_mem_singleton, ramo, soAno]
    rcases @check Y 9999 with out | fits
    · exact .inr ⟨outside out, by rw [if_pos out]⟩
    · exact .inl ⟨fits, if_neg (inside fits)⟩
  | mes M =>
    simp only [valores, List.forall_mem_singleton, ramo, soMes]
    rcases @check M 12 with out | fits
    · exact .inr ⟨outside out, by rw [if_pos out]⟩
    · exact .inl ⟨fits, if_neg (inside fits)⟩
  | anoMes Y M =>
    simp only [valores, List.forall_mem_cons, ramo, Alp.anoMes]
    rcases @check Y 9999 with out | year
    · exact .inr ⟨fun both => outside out both.1, by rw [if_pos out]⟩
    rw [if_neg (inside year)]
    rcases @check M 12 with out | month
    · exact .inr ⟨fun both => outside out both.2.1, by rw [if_pos out]⟩
    · exact .inl ⟨⟨year, month, nofun⟩, if_neg (inside month)⟩

theorem decisao_of_pede {query : List Char} {pedido : Pedido} (pede : Pede query pedido) :
    decisao query = some pedido.ramo := by
  have second {parte : Option (List Char)} {s : List Char} (named : nome parte = some s) :
      parte.isSome = true := by
    cases parte with
    | none => cases named
    | some _ => rfl
  unfold decisao
  cases pede with
  | ano single name value => rw [single, name, value]; rfl
  | mes single name value => rw [single, name, value]; rfl
  | anoMes name1 name2 value1 value2 =>
    rw [if_pos (second name2), name1, name2, value1, value2]
    rfl
  | mesAno name1 name2 value1 value2 =>
    rw [if_pos (second name2), name1, name2, value1, value2]
    rfl

/-- A query that is not malformed asks for a calendar. -/
theorem pede_of_not_malformada {query : List Char} (regular : ¬ Malformada query) :
    ∃ pedido, Pede query pedido := by
  simp only [Malformada, not_or, not_and, not_not] at regular
  obtain ⟨_, some_value, complete, known, pair⟩ := regular
  obtain ⟨v, value⟩ := Option.ne_none_iff_exists'.mp some_value
  by_cases single : parte2 query = none
  · rcases known single with name | name
    · exact ⟨_, .ano single name value⟩
    · exact ⟨_, .mes single name value⟩
  · obtain ⟨w, value2⟩ := Option.ne_none_iff_exists'.mp (complete single).2
    rcases pair single with ⟨name1, name2⟩ | ⟨name1, name2⟩
    · exact ⟨_, .anoMes name1 name2 value value2⟩
    · exact ⟨_, .mesAno name1 name2 value value2⟩

theorem valor_ne_nil {parte : Option (List Char)} {s : List Char} (given : valor parte = some s) :
    s ≠ [] := by
  obtain ⟨parte, _, found⟩ := Option.bind_eq_some_iff.mp given
  exact (mem_tokens (List.mem_of_getElem? found)).1

theorem Pede.nonempty {query : List Char} {pedido : Pedido} (pede : Pede query pedido) :
    ∀ v ∈ pedido.valores, v.2 ≠ [] := by
  cases pede with
  | ano _ _ value => exact List.forall_mem_singleton.mpr (valor_ne_nil value)
  | mes _ _ value => exact List.forall_mem_singleton.mpr (valor_ne_nil value)
  | anoMes _ _ value1 value2 =>
    exact List.forall_mem_cons.mpr
      ⟨valor_ne_nil value1, List.forall_mem_singleton.mpr (valor_ne_nil value2)⟩
  | mesAno _ _ value1 value2 =>
    exact List.forall_mem_cons.mpr
      ⟨valor_ne_nil value2, List.forall_mem_singleton.mpr (valor_ne_nil value1)⟩

/-- **The queries whose values may be passed on**: if all the values asked for pass their checks, each
of them is a numeral of an `int` and nothing else. -/
def Numerais (query : List Char) : Prop :=
  ∀ pedido, Pede query pedido → pedido.Passa → ∀ v ∈ pedido.valores, Inteiro v.2

/-- **The arguments that `cal` should get**: month and year are decimal numerals in their range, with
no other characters in them. -/
def Validos (argv : List (List Char)) : Prop :=
  argv = [cal, "-h".toList] ∨
    (∃ mes ano, argv = [cal, mes, ano] ∧ Numerico 1 12 mes ∧ Numerico 1 9999 ano) ∨
    (∃ ano, argv = [cal, ano] ∧ Numerico 1 9999 ano) ∨
    ∃ mes, argv = [cal, "-m".toList, mes] ∧ Numerico 1 12 mes

theorem Pedido.validos {pedido : Pedido} (numerals : ∀ v ∈ pedido.valores, Numerico 1 v.1 v.2) :
    Validos pedido.argv := by
  cases pedido with
  | ano Y => exact .inr (.inr (.inl ⟨Y, rfl, numerals _ (.head _)⟩))
  | mes M => exact .inr (.inr (.inr ⟨M, rfl, numerals _ (.head _)⟩))
  | anoMes Y M =>
    exact .inr (.inl ⟨M, Y, rfl, numerals _ (.tail _ (.head _)), numerals _ (.head _)⟩)

/-- The arguments tell which values are which: no value that passes its check reads `-h` or `-m`. -/
theorem Pedido.inteiros {pedido : Pedido} (passa : pedido.Passa) (validos : Validos pedido.argv) :
    ∀ v ∈ pedido.valores, Inteiro v.2 := by
  have year {s : List Char} (numerico : Numerico 1 9999 s) : Inteiro s :=
    numerico.inteiro (by decide)
  have month {s : List Char} (numerico : Numerico 1 12 s) : Inteiro s :=
    numerico.inteiro (by decide)
  have option {s : List Char} (zero : atoi s = 0) : ¬ 1 ≤ atoi s := by omega
  cases pedido with
  | ano Y =>
    refine List.forall_mem_singleton.mpr ?_
    rcases validos with help | ⟨_, _, two, _⟩ | ⟨s, same, numerico⟩ | ⟨_, two, _⟩
    · have given : Y = "-h".toList := (List.cons.inj (List.cons.inj help).2).1
      exact absurd (passa _ (.head _)).1 (option (given ▸ by decide +kernel))
    · cases two
    · cases same
      exact year numerico
    · cases two
  | mes M =>
    refine List.forall_mem_singleton.mpr ?_
    rcases validos with help | ⟨m, _, same, numerico, _⟩ | ⟨_, one, _⟩ | ⟨_, same, numerico⟩
    · cases help
    · have given : "-m".toList = m := (List.cons.inj (List.cons.inj same).2).1
      exact absurd (numerico.digits '-' (given ▸ by decide)) (by decide)
    · cases one
    · cases same
      exact month numerico
  | anoMes Y M =>
    rcases validos with help | ⟨_, _, same, first, second⟩ | ⟨_, one, _⟩ | ⟨_, same, _⟩
    · cases help
    · cases same
      exact List.forall_mem_cons.mpr ⟨year second, List.forall_mem_singleton.mpr (month first)⟩
    · cases one
    · have given : M = "-m".toList := (List.cons.inj (List.cons.inj same).2).1
      exact absurd (passa _ (.tail _ (.head _))).1 (option (given ▸ by decide +kernel))

/-- **Month and year arguments are numerals in their range**: exactly for the queries whose values, if
they pass their checks, are numerals of an `int`. -/
theorem arguments_valid {p : ℕ} {st : State} {query : List Char} (held : Holds st.buffer p query) :
    (∀ argv, (moduleGenerate (some p) st).fim = .execv argv → Validos argv) ↔ Numerais query := by
  rw [moduleGenerate_eq held, responde]
  constructor
  · intro valid pedido pede passa
    rcases pedido.ramo_eq with ⟨_, branch⟩ | ⟨fails, _⟩
    · refine Pedido.inteiros passa (valid _ (encerra_execv.mpr ⟨[], ?_⟩))
      rw [decisao_of_pede pede, branch]
    · exact absurd passa fails
  · intro numerais argv run
    obtain ⟨blocos, decided⟩ := encerra_execv.mp run
    by_cases malformada : Malformada query
    · have completa : Completa query := by
        by_contra incomplete
        cases decided.symm.trans (decisao_eq_none.mpr incomplete)
      rw [decisao_of_malformada completa malformada] at decided
      cases decided
      exact .inl rfl
    obtain ⟨pedido, pede⟩ := pede_of_not_malformada malformada
    have branch : pedido.ramo = (blocos, argv) :=
      Option.some.inj ((decisao_of_pede pede).symm.trans decided)
    rcases pedido.ramo_eq with ⟨passa, given⟩ | ⟨_, help⟩
    · obtain rfl : pedido.argv = argv := (Prod.mk.inj (given.symm.trans branch)).2
      refine Pedido.validos fun v mem => ?_
      exact numerico_of_atoi (pede.nonempty v mem) (numerais pedido pede passa v mem)
        (passa v mem).1 (passa v mem).2
    · rw [branch] at help
      exact .inl help

/-- `2018` alone is passed on as it is. -/
theorem arguments_valid_2018 : ∃ ano, Numerico 1 9999 ano ∧
    (moduleGenerate (some 0) ⟨"ano=2018".toList ++ [nul], 0⟩).fim = .execv [cal, ano] := by
  have run : (moduleGenerate (some 0) ⟨"ano=2018".toList ++ [nul], 0⟩).fim =
      .execv [cal, "2018".toList] := by decide +kernel
  have held : Holds (State.mk ("ano=2018".toList ++ [nul]) 0).buffer 0 "ano=2018".toList :=
    holds_url (by decide)
  have name : nome (parte1 "ano=2018".toList) = some "ano".toList := by decide +kernel
  have year : valor (parte1 "ano=2018".toList) = some "2018".toList := by decide +kernel
  have single : nome (parte2 "ano=2018".toList) = none := by decide +kernel
  have digits : "2018".toList.all Char.isDigit = true := by decide
  have numerais : Numerais "ano=2018".toList := by
    intro pedido pede _
    cases pede with
    | ano _ _ given =>
      rw [Option.some.inj (given.symm.trans year)]
      exact List.forall_mem_singleton.mpr ⟨List.all_eq_true.mp digits, by decide +kernel⟩
    | mes _ other _ => cases other.symm.trans name
    | anoMes _ second _ _ => cases second.symm.trans single
    | mesAno _ second _ _ => cases second.symm.trans single
  rcases (arguments_valid held).mpr numerais _ run with
    wrong | ⟨_, _, wrong, _⟩ | ⟨ano, same, year⟩ | ⟨_, wrong, _⟩
  · cases wrong
  · cases wrong
  · exact ⟨ano, year, run.trans (congrArg Fim.execv same)⟩
  · cases wrong

/-- **`atoi` reads a prefix, and the whole string is passed on**: `12abc` is a month. -/
theorem suffix_passed :
    (moduleGenerate (some 0) ⟨"mes=12abc".toList ++ [nul], 0⟩).fim =
        .execv [cal, "-m".toList, "12abc".toList] ∧ ¬ Numerico 1 12 "12abc".toList := by
  refine ⟨by decide +kernel, fun numeral => ?_⟩
  exact absurd (numeral.digits 'a' (by decide)) (by decide)

end Alp
