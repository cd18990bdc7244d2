/-
**xv6 `sh.c`: the parser of the shell.**

The text is the list of its characters; the end of the list is the NUL at `es`. A pointer `*ps` into
it is the rest of the list, and the string from `q` to `eq`, which `nulterminate` ends with a NUL when
the parser is done, is the word itself.

* `gettoken`, `peek` — the two functions through which the parser sees the text.
* `parseredirs`, `parseargs` (the loop of `parseexec`), `parseback` (the loop of `parseline`),
  `parseline`, `parsepipe`, `parseexec`, `parseblock` — the recursive descent, with fuel.
* `parsecmd` — the whole text, with fuel for it.

In `parseexec`, `cmd` is the `execcmd` at the bottom of `ret`, under the redirections that
`parseredirs` has put around it: an argument stored through `cmd` is `Cmd.addArg` of `ret`.
-/

import Mathlib.Data.List.Basic

namespace Xv6

namespace Sh

/-- `MAXARGS` -/
def maxArgs : ℕ := 10

/-- `O_RDONLY` of `fcntl.h` -/
def oRdonly : ℕ := 0x000

/-- `O_WRONLY|O_CREATE` -/
def oWronlyCreate : ℕ := 0x001 ||| 0x200

/-- The fields of a `redircmd` other than its command. -/
structure Redir where
  file : List Char
  mode : ℕ
  fd : ℕ
  deriving DecidableEq

/-- `struct cmd`. -/
inductive Cmd
  | exec (argv : List (List Char))
  | redir (cmd : Cmd) (how : Redir)
  | pipe (left right : Cmd)
  | list (left right : Cmd)
  | back (cmd : Cmd)
  deriving DecidableEq

inductive Panic
  /-- `"syntax"` -/
  | notWord
  /-- `"leftovers: %s\n"`, then `"syntax"` -/
  | leftovers (rest : List Char)
  /-- `"missing file for redirection"` -/
  | missingFile
  /-- `"too many args"` -/
  | tooManyArgs
  /-- `"parseblock"` -/
  | parseblock
  /-- `"syntax - missing )"` -/
  | missingParen
  /-- the fuel of the model; `parsecmd` has enough -/
  | fuel
  deriving DecidableEq

/-! ### Tokens -/

def whitespace : List Char := [' ', '\t', '\r', '\n', '\x0b']

def symbols : List Char := ['<', '|', '>', '&', ';', '(', ')']

/-- What `gettoken` returns: the character of a symbol, `'+'` for `>>`, `'a'` for a word, which is
the text from `q` to `eq`. -/
inductive Token
  | symbol (c : Char)
  | append
  | word (text : List Char)
  deriving DecidableEq

/-- `while(s < es && strchr(whitespace, *s)) s++` -/
def skip (s : List Char) : List Char := s.dropWhile (· ∈ whitespace)

/-- A character of a word. -/
def isWord (c : Char) : Bool := c ∉ whitespace && c ∉ symbols

/-- `gettoken`, with the rest of the text; `none` for the end. -/
def gettoken (s : List Char) : Option Token × List Char :=
  match skip s with
  | [] => (none, [])
  | '>' :: '>' :: rest => (some .append, skip rest)
  | c :: rest =>
      if c ∈ symbols then (some (.symbol c), skip rest)
      else (some (.word ((c :: rest).takeWhile isWord)), skip ((c :: rest).dropWhile isWord))

/-- `peek`, with the rest of the text. -/
def peek (s toks : List Char) : Bool × List Char :=
  match skip s with
  | [] => (false, [])
  | c :: rest => (c ∈ toks, c :: rest)

/-! ### The parser -/

/-- `cmd->argv[argc] = q` where `cmd` is the `execcmd` at the bottom. -/
def Cmd.addArg : Cmd → List Char → Cmd
  | .exec argv, text => .exec (argv ++ [text])
  | .redir cmd how, text => .redir (cmd.addArg text) how
  | cmd, _ => cmd

/-- The redirection of a token: `>>` is `>`. -/
def redirOf (tok : Option Token) (file : List Char) : Redir :=
  if tok = some (.symbol '<') then ⟨file, oRdonly, 0⟩ else ⟨file, oWronlyCreate, 1⟩

def parseredirs : ℕ → Cmd → List Char → Except Panic (Cmd × List Char)
  | 0, _, _ => .error .fuel
  | fuel + 1, cmd, s =>
      match peek s ['<', '>'] with
      | (false, s) => .ok (cmd, s)
      | (true, s) =>
          let (tok, s) := gettoken s
          match gettoken s with
          | (some (.word file), s) => parseredirs fuel (.redir cmd (redirOf tok file)) s
          | _ => .error .missingFile

/-- The loop of `parseexec`; `argc` arguments are stored. -/
def parseargs : ℕ → Cmd → ℕ → List Char → Except Panic (Cmd × List Char)
  | 0, _, _, _ => .error .fuel
  | fuel + 1, ret, argc, s =>
      match peek s ['|', ')', '&', ';'] with
      | (true, s) => .ok (ret, s)
      | (false, s) =>
          match gettoken s with
          | (none, s) => .ok (ret, s)
          | (some (.word text), s) =>
              if argc + 1 ≥ maxArgs then .error .tooManyArgs
              else do
                let (ret, s) ← parseredirs fuel (ret.addArg text) s
                parseargs fuel ret (argc + 1) s
          | (some _, _) => .error .notWord

/-- The loop of `parseline`. -/
def parseback : ℕ → Cmd → List Char → Except Panic (Cmd × List Char)
  | 0, _, _ => .error .fuel
  | fuel + 1, cmd, s =>
      match peek s ['&'] with
      | (false, s) => .ok (cmd, s)
      | (true, s) => parseback fuel (.back cmd) (gettoken s).2

mutual

def parseline : ℕ → List Char → Except Panic (Cmd × List Char)
  | 0, _ => .error .fuel
  | fuel + 1, s => do
      let (cmd, s) ← parsepipe fuel s
      let (cmd, s) ← parseback fuel cmd s
      match peek s [';'] with
      | (false, s) => .ok (cmd, s)
      | (true, s) =>
          let (rest, s) ← parseline fuel (gettoken s).2
          .ok (.list cmd rest, s)

def parsepipe : ℕ → List Char → Except Panic (Cmd × List Char)
  | 0, _ => .error .fuel
  | fuel + 1, s => do
      let (cmd, s) ← parseexec fuel s
      match peek s ['|'] with
      | (false, s) => .ok (cmd, s)
      | (true, s) =>
          let (rest, s) ← parsepipe fuel (gettoken s).2
          .ok (.pipe cmd rest, s)

def parseexec : ℕ → List Char → Except Panic (Cmd × List Char)
  | 0, _ => .error .fuel
  | fuel + 1, s =>
      match peek s ['('] with
      | (true, s) => parseblock fuel s
      | (false, s) => do
          let (ret, s) ← parseredirs fuel (.exec []) s
          parseargs fuel ret 0 s

def parseblock : ℕ → List Char → Except Panic (Cmd × List Char)
  | 0, _ => .error .fuel
  | fuel + 1, s =>
      match peek s ['('] with
      | (false, _) => .error .parseblock
      | (true, s) => do
          let (cmd, s) ← parseline fuel (gettoken s).2
          match peek s [')'] with
          | (false, _) => .error .missingParen
          | (true, s) => parseredirs fuel cmd (gettoken s).2

end

/-- The fuel for a text of this length. -/
def fuelFor (length : ℕ) : ℕ := 4 * length + 4

/-- `parsecmd` -/
def parsecmd (s : List Char) : Except Panic Cmd := do
  let (cmd, s) ← parseline (fuelFor s.length) s
  match peek s [] with
  | (_, []) => .ok cmd
  | (_, rest) => .error (.leftovers rest)

end Sh

end Xv6
