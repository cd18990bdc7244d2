/-
**`pesquisa-em-diretorio.c`: the recursive search.**

`search` reads a directory entry by entry, tests the name of each, and calls itself for those that are
directories.

* `Dir`, `Entries` — what `opendir` and `readdir` give, in this order.
* `search`, `loop` — the function and its `do … while`. It is undefined if a path does not fit
  `directory_path[1000]`.
* `preorder` — the entries other than `.` and `..` with their paths, each before its own contents.
  `mem_preorder_iff` — these are the entries that can be reached through readable directories
  (`Reaches`).
* `search_eq` — **the search finds the first entry of this name in pre-order**, and prints its path.
* `search_complete` — **it returns 1 exactly if such an entry can be reached.**

What `stat` says about the file is left out, and `root`, which nothing reads.
-/

import Mathlib.Data.List.Basic

namespace Diretorios

/-! ### The code -/

mutual

/-- What is behind a path. -/
inductive Dir
  /-- `opendir` fails -/
  | unreadable
  | readable (entries : Entries)

/-- What `readdir` gives; `contents` is what is behind the path of the entry. -/
inductive Entries
  /-- `readdir` returns `NULL`, at the end or because of an error -/
  | nil
  | cons (name : List Char) (type : ℕ) (contents : Dir) (rest : Entries)

end

/-- `DT_DIR` -/
def dtDir : ℕ := 4

/-- What is printed. -/
inductive Line
  /-- `Can't open directory` -/
  | cantOpen
  /-- the path of a directory that is searched -/
  | enters (path : List Char)
  /-- `File found` -/
  | found (path : List Char) (type : ℕ)
  /-- `Fail while searching` -/
  | fail (argument : List Char)
  deriving DecidableEq, Repr

/-- `directory_path` -/
def join (path name : List Char) : List Char := path ++ '/' :: name

/-- The entries every directory has. -/
def dots (name : List Char) : Bool := name = ".".toList || name = "..".toList

mutual

/-- **`search`** -/
def search (argument : List Char) (path : List Char) : Dir → Option (Bool × List Line)
  | .unreadable => some (false, [.cantOpen])
  | .readable entries => loop argument path false entries

/-- The `do … while`, with the flag `found`. -/
def loop (argument : List Char) (path : List Char) (found : Bool) :
    Entries → Option (Bool × List Line)
  | .nil => if found then some (found, [.fail argument]) else some (found, [])
  | .cons name type contents rest =>
    if dots name then loop argument path found rest
    else if name = argument then
      if (join path name).length < 1000 then some (true, [.found (join path name) type]) else none
    else if type = dtDir then
      if (join path name).length < 1000 then
        (search argument (join path name) contents).bind fun (inside, lines) =>
          if inside then some (true, .enters (join path name) :: lines)
          else (loop argument path found rest).map fun (result, more) =>
            (result, .enters (join path name) :: lines ++ more)
      else none
    else loop argument path found rest

end

/-! ### Pre-order -/

mutual

/-- **The entries with their paths**, each before its own contents. -/
def Dir.preorder (path : List Char) : Dir → List (List Char × List Char)
  | .unreadable => []
  | .readable entries => entries.preorder path

def Entries.preorder (path : List Char) : Entries → List (List Char × List Char)
  | .nil => []
  | .cons name type contents rest =>
    if dots name then rest.preorder path
    else (name, join path name) ::
      ((if type = dtDir then contents.preorder (join path name) else []) ++ rest.preorder path)

end

/-- An entry of a directory. -/
inductive Entries.Has : Entries → List Char → ℕ → Dir → Prop
  | head {name : List Char} {type : ℕ} {contents : Dir} {rest : Entries} :
      Has (.cons name type contents rest) name type contents
  | tail {name name' : List Char} {type type' : ℕ} {contents contents' : Dir} {rest : Entries} :
      rest.Has name type contents → Has (.cons name' type' contents' rest) name type contents

/-- **The entries that can be reached** through readable directories, with their paths. -/
inductive Reaches : List Char → Dir → List Char → List Char → Prop
  | here {path name : List Char} {entries : Entries} {type : ℕ} {contents : Dir} :
      entries.Has name type contents → dots name = false →
      Reaches path (.readable entries) name (join path name)
  | inside {path name between full : List Char} {entries : Entries} {contents : Dir} :
      entries.Has between dtDir contents → dots between = false →
      Reaches (join path between) contents name full →
      Reaches path (.readable entries) name full

/-- The path of the first entry of a name. -/
def firstOf (argument : List Char) (entries : List (List Char × List Char)) : Option (List Char) :=
  (entries.find? (·.1 = argument)).map Prod.snd

/-- The paths reported. -/
def reported (lines : List Line) : List (List Char) :=
  lines.filterMap fun line =>
    match line with
    | .found path _ => some path
    | _ => none

/-! ### The search -/

section

variable {argument : List Char}

theorem firstOf_append (first second : List (List Char × List Char)) :
    firstOf argument (first ++ second) = (firstOf argument first).or (firstOf argument second) := by
  unfold firstOf
  rw [List.find?_append]
  cases first.find? (·.1 = argument) <;> rfl

theorem firstOf_cons_ne {name full : List Char} (other : name ≠ argument)
    (entries : List (List Char × List Char)) :
    firstOf argument ((name, full) :: entries) = firstOf argument entries := by
  unfold firstOf
  rw [List.find?_cons_of_neg]
  simpa using other

/-- What a run has to give: the flag, and the path reported. -/
def Finds (argument : List Char) (entries : List (List Char × List Char))
    (run : Option (Bool × List Line)) : Prop :=
  ∃ lines, run = some ((firstOf argument entries).isSome, lines) ∧
    reported lines = (firstOf argument entries).toList

/-- Every path fits the buffer. -/
def Fits (entries : List (List Char × List Char)) : Prop := ∀ e ∈ entries, e.2.length < 1000

/-- A directory that is entered, and what follows it. -/
theorem Finds.enter {inner outer : List (List Char × List Char)} {full : List Char}
    {inside outside : Option (Bool × List Line)} (one : Finds argument inner inside)
    (two : Finds argument outer outside) :
    Finds argument (inner ++ outer) (inside.bind fun (inside, lines) =>
      if inside then some (true, .enters full :: lines)
      else outside.map fun (result, more) => (result, .enters full :: lines ++ more)) := by
  obtain ⟨lines, rfl, told⟩ := one
  obtain ⟨more, rfl, told'⟩ := two
  unfold Finds
  rw [firstOf_append]
  cases found : firstOf argument inner with
  | some first =>
    rw [found] at told
    exact ⟨.enters full :: lines, rfl, told⟩
  | none =>
    rw [found] at told
    refine ⟨.enters full :: lines ++ more, rfl, ?_⟩
    show reported (lines ++ more) = _
    rw [reported, List.filterMap_append, ← reported, ← reported, told, told']
    rfl

/-- An entry of another name. -/
theorem Finds.cons {entries : List (List Char × List Char)} {run : Option (Bool × List Line)}
    (finds : Finds argument entries run) {name full : List Char} (other : name ≠ argument) :
    Finds argument ((name, full) :: entries) run := by
  unfold Finds
  rwa [firstOf_cons_ne other]

mutual

/-- **The search finds the first entry of this name in pre-order**, and reports its path. -/
theorem search_eq (argument path : List Char) : (dir : Dir) → Fits (dir.preorder path) →
    Finds argument (dir.preorder path) (search argument path dir)
  | .unreadable, _ => ⟨[.cantOpen], rfl, rfl⟩
  | .readable entries, fits => loop_eq argument path entries fits

theorem loop_eq (argument path : List Char) : (entries : Entries) → Fits (entries.preorder path) →
    Finds argument (entries.preorder path) (loop argument path false entries)
  | .nil, _ => ⟨[], rfl, rfl⟩
  | .cons name type contents rest, fits => by
    unfold loop
    unfold Entries.preorder at fits ⊢
    by_cases dot : dots name = true
    · simp only [if_pos dot] at fits ⊢
      exact loop_eq argument path rest fits
    simp only [if_neg dot] at fits ⊢
    have room : (join path name).length < 1000 := fits _ List.mem_cons_self
    have later : Fits (rest.preorder path) := fun e mem =>
      fits e (List.mem_cons_of_mem _ (List.mem_append_right _ mem))
    by_cases same : name = argument
    · subst same
      rw [if_pos rfl, if_pos room]
      refine ⟨[.found (join path name) type], ?_⟩
      simp [firstOf, reported]
    rw [if_neg same]
    by_cases directory : type = dtDir
    · rw [if_pos directory] at fits
      have below : Fits (contents.preorder (join path name)) := fun e mem =>
        fits e (List.mem_cons_of_mem _ (List.mem_append_left _ mem))
      rw [if_pos directory, if_pos room, if_pos directory]
      have inside := search_eq argument (join path name) contents below
      exact (inside.enter (loop_eq argument path rest later)).cons same
    · rw [if_neg directory, if_neg directory]
      exact (loop_eq argument path rest later).cons same

end

end

/-! ### The entries that can be reached -/

/-- What can be reached through the first entry, or through the others. -/
theorem reaches_cons_iff {path first name full : List Char} {type : ℕ} {contents : Dir}
    {rest : Entries} :
    Reaches path (.readable (.cons first type contents rest)) name full ↔
      dots first = false ∧ ((name, full) = (first, join path first) ∨
        type = dtDir ∧ Reaches (join path first) contents name full) ∨
      Reaches path (.readable rest) name full := by
  constructor
  · rintro (⟨has, plain⟩ | ⟨has, plain, below⟩)
    · cases has with
      | head => exact .inl ⟨plain, .inl rfl⟩
      | tail has => exact .inr (.here has plain)
    · cases has with
      | head => exact .inl ⟨plain, .inr ⟨rfl, below⟩⟩
      | tail has => exact .inr (.inside has plain below)
  · rintro (⟨plain, same | ⟨rfl, below⟩⟩ | later)
    · cases same
      exact .here .head plain
    · exact .inside .head plain below
    · cases later with
      | here has plain => exact .here (.tail has) plain
      | inside has plain below => exact .inside (.tail has) plain below

mutual

/-- **The entries in pre-order are those that can be reached.** -/
theorem mem_preorder_iff (name full path : List Char) : (dir : Dir) →
    ((name, full) ∈ dir.preorder path ↔ Reaches path dir name full)
  | .unreadable => by
    unfold Dir.preorder
    exact ⟨nofun, nofun⟩
  | .readable entries => mem_entries_iff name full path entries

theorem mem_entries_iff (name full path : List Char) : (entries : Entries) →
    ((name, full) ∈ entries.preorder path ↔ Reaches path (.readable entries) name full)
  | .nil => by
    unfold Entries.preorder
    refine ⟨nofun, ?_⟩
    rintro (⟨has, _⟩ | ⟨has, _, _⟩) <;> cases has
  | .cons first type contents rest => by
    have below := mem_preorder_iff name full (join path first) contents
    have later := mem_entries_iff name full path rest
    rw [Entries.preorder, reaches_cons_iff, ← below, ← later]
    by_cases dot : dots first = true
    · simp [dot]
    · by_cases directory : type = dtDir
      · simp [dot, directory, or_assoc]
      · simp [dot, directory]

end

/-- **The search is sound and complete**: it returns 1 exactly if an entry of this name, other than `.`
and `..`, can be reached through readable directories, and then reports the path of the first one in
pre-order; otherwise it returns 0 and reports none. -/
theorem search_complete (argument path : List Char) (dir : Dir)
    (fits : ∀ name full, Reaches path dir name full → full.length < 1000) :
    ∃ found lines, search argument path dir = some (found, lines) ∧
      (found = true ↔ ∃ full, Reaches path dir argument full) ∧
      reported lines = (firstOf argument (dir.preorder path)).toList := by
  have room : Fits (dir.preorder path) := fun e mem =>
    fits e.1 e.2 ((mem_preorder_iff e.1 e.2 path dir).mp mem)
  obtain ⟨lines, run, told⟩ := search_eq argument path dir room
  refine ⟨_, lines, run, ?_, told⟩
  rw [firstOf, Option.isSome_map, List.find?_isSome]
  constructor
  · rintro ⟨⟨name, full⟩, mem, same⟩
    have named : name = argument := of_decide_eq_true same
    exact ⟨full, named ▸ (mem_preorder_iff name full path dir).mp mem⟩
  · rintro ⟨full, reaches⟩
    exact ⟨(argument, full), (mem_preorder_iff argument full path dir).mpr reaches, decide_eq_true rfl⟩

/-- A file two directories deep, behind a directory that cannot be read. -/
def arvore : Dir :=
  .readable (.cons ".".toList dtDir .unreadable (.cons "a".toList dtDir .unreadable
    (.cons "b".toList dtDir (.readable (.cons "x".toList 8 .unreadable .nil))
      (.cons "x".toList 8 .unreadable .nil))))

theorem search_complete_arvore : ∃ lines, search "x".toList ".".toList arvore = some (true, lines) ∧
    reported lines = ["./b/x".toList] := by
  have room : ∀ e ∈ arvore.preorder ".".toList, e.2.length < 1000 := by decide +kernel
  have fits : ∀ name full, Reaches ".".toList arvore name full → full.length < 1000 :=
    fun name full reaches => room _ ((mem_preorder_iff name full _ _).mpr reaches)
  have reaches : Reaches ".".toList arvore "x".toList "./b/x".toList :=
    (mem_preorder_iff _ _ _ _).mp (by decide +kernel)
  obtain ⟨found, lines, run, complete, told⟩ := search_complete "x".toList ".".toList arvore fits
  rw [complete.mpr ⟨_, reaches⟩] at run
  exact ⟨lines, run, told.trans (by decide +kernel)⟩

end Diretorios
