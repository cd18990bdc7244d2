/-
**`processoNpipe.cpp`: one token goes around.**

What the ring is for, apart from processes and pipes: a token that holds a value is with one child
or in one pipe, and goes from child to child.

* `Spot`, `Hop` — the token and its moves, `Fits` — **where it is after `k` values were printed**;
  each hop keeps that (`fits_hop`).
* `Wired`, `Late` — the ends of the pipes: the parent keeps both ends of all of them until a child
  has ended, and no child leaves its loop before `VAL` was read.
* `Carries` — the processes and pipes, seen as a token. Each step is a hop or changes nothing
  (`carries_of_child`).
* `token_ring` — **at most one value is under way, the values printed are 1, 2, … in order, each by
  its own child, and no child leaves its loop before `VAL` was read.**
-/

import SistemasOperacionais.Pipes.Model
import Mathlib.Algebra.BigOperators.Group.Finset.Basic

namespace ProcessoNpipe

open Threads Pipes Transition

variable {NP VAL : ℕ}

/-! ### The token -/

/-- What a child holds. -/
inductive Load
  /-- child 0, before it has a value -/
  | home
  /-- a value to print and send -/
  | print (value : ℕ)
  /-- a value to send -/
  | send (value : ℕ)
  /-- a value read -/
  | got (value : ℕ)
  deriving DecidableEq

/-- Where the token is. -/
inductive Spot (NP : ℕ)
  | child (np : Fin NP) (load : Load)
  | pipe (np : Fin NP) (value : ℕ)
  /-- `VAL` was read -/
  | over
  deriving DecidableEq

/-- The values printed, and where the token is. -/
structure Token (NP : ℕ) where
  printed : ℕ
  spot : Spot NP

/-- **The moves of the token.** -/
inductive Hop (VAL : ℕ) : Token NP → Token NP → Prop
  | first {np : Fin NP} {k : ℕ} : Hop VAL ⟨k, .child np .home⟩ ⟨k, .child np (.print 1)⟩
  | print {np : Fin NP} {k value : ℕ} :
      Hop VAL ⟨k, .child np (.print value)⟩ ⟨k + 1, .child np (.send value)⟩
  | send {np : Fin NP} {k value : ℕ} :
      Hop VAL ⟨k, .child np (.send value)⟩ ⟨k, .pipe np value⟩
  | read {np : Fin NP} {k value : ℕ} :
      Hop VAL ⟨k, .pipe (anterior np) value⟩ ⟨k, .child np (.got value)⟩
  | increment {np : Fin NP} {k value : ℕ} : value ≠ VAL →
      Hop VAL ⟨k, .child np (.got value)⟩ ⟨k, .child np (.print (value + 1))⟩
  | last {np : Fin NP} {k : ℕ} : Hop VAL ⟨k, .child np (.got VAL)⟩ ⟨k, .over⟩

/-- **Where the token can be after `k` values were printed.** -/
def Fits (VAL : ℕ) : Token NP → Prop
  | ⟨k, .child np .home⟩ => np.val = 0 ∧ k = 0
  | ⟨k, .child np (.print value)⟩ => value = k + 1 ∧ value ≤ VAL ∧ np.val = k % NP
  | ⟨k, .child np (.send value)⟩ => value = k ∧ 1 ≤ k ∧ k ≤ VAL ∧ np.val = (k - 1) % NP
  | ⟨k, .child np (.got value)⟩ => value = k ∧ 1 ≤ k ∧ k ≤ VAL ∧ np.val = k % NP
  | ⟨k, .pipe np value⟩ => value = k ∧ 1 ≤ k ∧ k ≤ VAL ∧ np.val = (k - 1) % NP
  | ⟨k, .over⟩ => k = VAL

/-- The values read by then: all that were printed, but the one under way. -/
def Token.read : Token NP → ℕ
  | ⟨_, .child _ .home⟩ => 0
  | ⟨k, .child _ (.print _)⟩ => k
  | ⟨k, .child _ (.send _)⟩ => k - 1
  | ⟨k, .child _ (.got _)⟩ => k
  | ⟨k, .pipe _ _⟩ => k - 1
  | ⟨k, .over⟩ => k

theorem fits_le {token : Token NP} (fits : Fits VAL token) : token.printed ≤ VAL := by
  obtain ⟨k, spot⟩ := token
  match spot, fits with
  | .child _ .home, ⟨_, zero⟩ => exact zero ▸ Nat.zero_le VAL
  | .child _ (.print _), ⟨same, fit, _⟩ =>
    show k ≤ VAL
    omega
  | .child _ (.send _), ⟨_, _, fit, _⟩ => exact fit
  | .child _ (.got _), ⟨_, _, fit, _⟩ => exact fit
  | .pipe _ _, ⟨_, _, fit, _⟩ => exact fit
  | .over, fit => exact fit.le

/-- The child behind the one that sent value `k`. -/
theorem val_of_anterior {np : Fin NP} {k : ℕ} (some : 1 ≤ k)
    (before : (anterior np).val = (k - 1) % NP) : np.val = k % NP := by
  have small := np.isLt
  have back : ((anterior np).val + 1) % NP = np.val := by
    show ((np.val + NP - 1) % NP + 1) % NP = np.val
    rw [Nat.mod_add_mod, show np.val + NP - 1 + 1 = np.val + NP by omega, Nat.add_mod_right,
      Nat.mod_eq_of_lt small]
  rw [← back, before, Nat.mod_add_mod, Nat.sub_add_cancel some]

/-- **Each hop keeps the token in its place.** -/
theorem fits_hop (positive : 1 ≤ VAL) {token after : Token NP} (fits : Fits VAL token)
    (hop : Hop VAL token after) : Fits VAL after := by
  cases hop with
  | first =>
    obtain ⟨zero, rfl⟩ := fits
    exact ⟨rfl, positive, by rw [zero, Nat.zero_mod]⟩
  | print =>
    obtain ⟨rfl, fit, place⟩ := fits
    exact ⟨rfl, Nat.succ_pos _, fit, place⟩
  | send => exact fits
  | read =>
    obtain ⟨rfl, some, fit, place⟩ := fits
    exact ⟨rfl, some, fit, val_of_anterior some place⟩
  | increment other =>
    obtain ⟨rfl, _, fit, place⟩ := fits
    exact ⟨rfl, Nat.lt_of_le_of_ne fit other, place⟩
  | last =>
    obtain ⟨rfl, _⟩ := fits
    rfl

/-! ### The ends of the pipes -/

/-- Behind the loop. -/
def Place.left : Place → Bool
  | .closeWrite | .closeRead | .exit | .gone => true
  | _ => false

variable {s s' : Shared NP} {l l' : Local} {config : Config (Processo NP) (Shared NP) Local}

/-- **Who has which ends open.** -/
structure Wired (config : Config (Processo NP) (Shared NP) Local) : Prop where
  parent : (config.locals none).place ≠ .done →
    ∀ j, config.shared.fd.writer none j = true ∧ config.shared.fd.reader none j = true
  waited : (config.locals none).place = .leave ∨ (config.locals none).place = .done →
    0 < config.shared.exits
  born : ∀ np, (config.locals (some np)).place ≠ .unborn → config.shared.born np = true
  own : ∀ np, config.shared.born np = true → (config.locals (some np)).place.left = false →
    config.shared.fd.writer (some np) np = true ∧
      config.shared.fd.reader (some np) (anterior np) = true

/-- **A pipe has no writer, or no reader, only after a child has ended.** -/
theorem Wired.ended (wired : Wired config) {j : Fin NP}
    (closed : config.shared.fd.writer none j = false ∨ config.shared.fd.reader none j = false) :
    0 < config.shared.exits := by
  apply wired.waited
  right
  by_contra running
  obtain ⟨write, read⟩ := wired.parent running j
  rw [write, read] at closed
  rcases closed with closed | closed <;> cases closed

/-- What a child leaves alone. -/
theorem child_frame {np : Fin NP} (move : Move VAL s l (some np) s' l') :
    (∀ proc ≠ some np, s'.fd.writer proc = s.fd.writer proc ∧
      s'.fd.reader proc = s.fd.reader proc) ∧ s'.born = s.born ∧ s.exits ≤ s'.exits := by
  cases move with
  | closing _ _ => exact ⟨fun _ other => ⟨Function.update_of_ne other .., rfl⟩, rfl, le_rfl⟩
  | closingRead _ _ => exact ⟨fun _ other => ⟨rfl, Function.update_of_ne other ..⟩, rfl, le_rfl⟩
  | closeWrite _ => exact ⟨fun _ other => ⟨Function.update_of_ne other .., rfl⟩, rfl, le_rfl⟩
  | closeRead _ => exact ⟨fun _ other => ⟨rfl, Function.update_of_ne other ..⟩, rfl, le_rfl⟩
  | broken _ _ =>
    exact ⟨fun _ other => ⟨Function.update_of_ne other .., Function.update_of_ne other ..⟩, rfl,
      Nat.le_succ _⟩
  | exit _ =>
    exact ⟨fun _ other => ⟨Function.update_of_ne other .., Function.update_of_ne other ..⟩, rfl,
      Nat.le_succ _⟩
  | _ => exact ⟨fun _ _ => ⟨rfl, rfl⟩, rfl, le_rfl⟩

/-- A child keeps its own two ends until it leaves the loop. -/
theorem own_of_move {np : Fin NP} (move : Move VAL s l (some np) s' l')
    (own : l.place.left = false → s.fd.writer (some np) np = true ∧
      s.fd.reader (some np) (anterior np) = true) (inside : l'.place.left = false) :
    s'.fd.writer (some np) np = true ∧ s'.fd.reader (some np) (anterior np) = true := by
  cases move with
  | closing here other =>
    obtain ⟨write, read⟩ := own (by rw [here]; rfl)
    exact ⟨(ends_close (Ne.symm other) _).trans write, read⟩
  | closingRead here other =>
    obtain ⟨write, read⟩ := own (by rw [here]; rfl)
    exact ⟨write, (ends_close (Ne.symm other) _).trans read⟩
  | broken _ _ => cases inside
  | eof _ _ => cases inside
  | last _ _ => cases inside
  | closeWrite _ => cases inside
  | closeRead _ => cases inside
  | exit _ => cases inside
  | _ => exact own (by rw [‹l.place = _›]; rfl)

/-- A child that moves has been forked. -/
theorem born_of_move {np : Fin NP} (move : Move VAL s l (some np) s' l')
    (born : l.place ≠ .unborn → s.born np = true) : s.born np = true := by
  cases move with
  | born _ forked => exact forked
  | _ => exact born (by rw [‹l.place = _›]; exact Place.noConfusion)

theorem wired_of_child {np : Fin NP} (wired : Wired config)
    (move : Move VAL config.shared (config.locals (some np)) (some np) s' l') :
    Wired ⟨s', Function.update config.locals (some np) l'⟩ := by
  obtain ⟨ends, sameBorn, more⟩ := child_frame move
  have forked := born_of_move move (wired.born np)
  have self := update_some_none config.locals l' np
  refine ⟨?_, ?_, fun other => ?_, fun other => ?_⟩
  · show (Function.update config.locals (some np) l' none).place ≠ .done →
      ∀ j, s'.fd.writer none j = true ∧ s'.fd.reader none j = true
    rw [self, (ends none (by simp)).1, (ends none (by simp)).2]
    exact wired.parent
  · show (Function.update config.locals (some np) l' none).place = .leave ∨
      (Function.update config.locals (some np) l' none).place = .done → 0 < s'.exits
    rw [self]
    exact fun late => (wired.waited late).trans_le more
  · show (Function.update config.locals (some np) l' (some other)).place ≠ .unborn →
      s'.born other = true
    rw [sameBorn]
    by_cases same : other = np
    · rw [same]
      exact fun _ => forked
    · rw [update_some_of_ne _ _ same]
      exact wired.born other
  · show s'.born other = true →
      (Function.update config.locals (some np) l' (some other)).place.left = false →
        s'.fd.writer (some other) other = true ∧ s'.fd.reader (some other) (anterior other) = true
    rw [sameBorn]
    by_cases same : other = np
    · subst same
      rw [Function.update_self]
      exact fun _ => own_of_move move (wired.own other forked)
    · have different : some other ≠ some np := fun both => same (Option.some.inj both)
      rw [update_some_of_ne _ _ same, (ends _ different).1, (ends _ different).2]
      exact wired.own other

theorem wired_of_parent (wired : Wired config)
    (move : Move VAL config.shared (config.locals none) none s' l') :
    Wired ⟨s', Function.update config.locals none l'⟩ := by
  have children := update_none_some config.locals l'
  have parent : Function.update config.locals none l' none = l' := Function.update_self ..
  cases move with
  | @fork np here =>
    have running : (config.locals none).place ≠ .done := by rw [here]; exact Place.noConfusion
    refine ⟨fun _ j => ?_, fun late => ?_, fun other => ?_, fun other => ?_⟩
    · show Function.update config.shared.fd.writer (some np) (config.shared.fd.writer none) none j =
          true ∧
        Function.update config.shared.fd.reader (some np) (config.shared.fd.reader none) none j =
          true
      rw [ends_of_ne (by simp), ends_of_ne (by simp)]
      exact wired.parent running j
    · simp only [parent, reduceCtorEq, or_self] at late
    · simp only [children, Shared.fork]
      rw [Function.update_apply]
      split
      · exact fun _ => rfl
      · exact wired.born other
    · simp only [children, Shared.fork, Table.fork]
      by_cases same : other = np
      · -- the new child has the parent's ends, and those are all open
        subst same
        rw [Function.update_self, Function.update_self, Function.update_self]
        exact fun _ _ => ⟨(wired.parent running _).1, (wired.parent running _).2⟩
      · have different : some other ≠ some np := fun both => same (Option.some.inj both)
        rw [Function.update_of_ne same, ends_of_ne different, ends_of_ne different]
        exact wired.own other
  | forked here _ =>
    have running : (config.locals none).place ≠ .done := by rw [here]; exact Place.noConfusion
    refine ⟨fun _ => wired.parent running, fun late => ?_, fun other => ?_, fun other => ?_⟩
    · simp only [parent, reduceCtorEq, or_self] at late
    · simp only [children]
      exact wired.born other
    · simp only [children]
      exact wired.own other
  | waited here some =>
    have running : (config.locals none).place ≠ .done := by rw [here]; exact Place.noConfusion
    refine ⟨fun _ => wired.parent running, fun _ => some, fun other => ?_, fun other => ?_⟩
    · simp only [children]
      exact wired.born other
    · simp only [children]
      exact wired.own other
  | leave here =>
    refine ⟨fun running => ?_, fun _ => wired.waited (.inl here), fun other => ?_, fun other => ?_⟩
    · simp only [parent, ne_eq, not_true_eq_false] at running
    · simp only [children]
      exact wired.born other
    · simp only [children, Table.quit]
      rw [ends_of_ne (by simp), ends_of_ne (by simp)]
      exact wired.own other

/-! ### Nobody leaves early -/

/-- Children leave their loop, and end, only after `VAL` was read. -/
structure Late (VAL : ℕ) (config : Config (Processo NP) (Shared NP) Local) : Prop where
  left : ∀ np, (config.locals (some np)).place.left = true → VAL ∈ config.shared.lidos
  ended : 0 < config.shared.exits → VAL ∈ config.shared.lidos

/-- What was read stays read. -/
theorem lidos_of_move {proc : Processo NP} (move : Move VAL s l proc s' l') {value : ℕ}
    (member : value ∈ s.lidos) : value ∈ s'.lidos := by
  cases move with
  | read _ _ => exact List.mem_append_left _ member
  | _ => exact member

/-- A child leaves its loop by `break`, or because no process has its pipe open. -/
theorem left_of_move {np : Fin NP} (wired : Wired config) (late : Late VAL config)
    (tested : (config.locals (some np)).place = .test →
      (config.locals (some np)).val ∈ config.shared.lidos)
    (move : Move VAL config.shared (config.locals (some np)) (some np) s' l')
    (gone : l'.place.left = true ∨ config.shared.exits < s'.exits) :
    VAL ∈ config.shared.lidos := by
  cases move with
  | eof _ closed => exact late.ended (wired.ended (.inl (receive_eof closed none)))
  | broken _ closed => exact late.ended (wired.ended (.inr (send_broken closed none)))
  | last here same => exact same ▸ tested here
  | closeWrite here => exact late.left np (by rw [here]; rfl)
  | closeRead here => exact late.left np (by rw [here]; rfl)
  | exit here => exact late.left np (by rw [here]; rfl)
  | _ =>
    rcases gone with inside | more
    · cases inside
    · exact absurd more (Nat.lt_irrefl _)

theorem late_of_child {np : Fin NP} (wired : Wired config) (late : Late VAL config)
    (tested : (config.locals (some np)).place = .test →
      (config.locals (some np)).val ∈ config.shared.lidos)
    (move : Move VAL config.shared (config.locals (some np)) (some np) s' l') :
    Late VAL ⟨s', Function.update config.locals (some np) l'⟩ := by
  refine ⟨fun other => ?_, fun some => lidos_of_move move ?_⟩
  · show (Function.update config.locals (some np) l' (some other)).place.left = true → _
    by_cases same : other = np
    · subst same
      rw [Function.update_self]
      exact fun gone => lidos_of_move move (left_of_move wired late tested move (.inl gone))
    · rw [update_some_of_ne _ _ same]
      exact fun gone => lidos_of_move move (late.left other gone)
  · rcases Nat.eq_zero_or_pos config.shared.exits with none | before
    · exact left_of_move wired late tested move (.inr (none ▸ some))
    · exact late.ended before

theorem late_of_parent (late : Late VAL config)
    (move : Move VAL config.shared (config.locals none) none s' l') :
    Late VAL ⟨s', Function.update config.locals none l'⟩ := by
  have children := update_none_some config.locals l'
  have exits : s'.exits = config.shared.exits := by cases move <;> rfl
  refine ⟨fun np gone => lidos_of_move move (late.left np ?_), fun some => ?_⟩
  · simp only [children] at gone
    exact gone
  · exact lidos_of_move move (late.ended (exits ▸ some))

/-! ### The processes and pipes as a token -/

/-- What child `np` holds. A value that is to be passed on is held as its successor from the test
on. -/
def load (np : Fin NP) (l : Local) : Option Load :=
  match l.place with
  | .unborn | .closing _ | .closingRead _ | .start => if np.val = 0 then some .home else none
  | .print => some (.print l.val)
  | .write => some (.send l.val)
  | .test => some (.got l.val)
  | .increment => some (.print (l.val + 1))
  | _ => none

/-- What pipe `np` holds. -/
def Spot.content : Spot NP → Fin NP → List ℕ
  | .pipe np value, j => if j = np then [value] else []
  | _, _ => []

/-- **The state of the system is that of the token.** -/
structure Carries (VAL : ℕ) (config : Config (Processo NP) (Shared NP) Local) (token : Token NP) :
    Prop where
  child : ∀ np held, load np (config.locals (some np)) = some held ↔ token.spot = .child np held
  pipe : ∀ np, config.shared.fd.queue np = token.spot.content np
  printed : config.shared.printed = (List.range token.printed).map fun v => (v % NP + 1, v + 1)
  lidos : config.shared.lidos = List.range' 1 token.read
  fits : Fits VAL token

variable {token after : Token NP}

/-- A move of a child that keeps what it holds. -/
theorem Carries.quiet {np : Fin NP} (carries : Carries VAL config token)
    (same : load np l' = load np (config.locals (some np)))
    (queue : s'.fd.queue = config.shared.fd.queue) (printed : s'.printed = config.shared.printed)
    (lidos : s'.lidos = config.shared.lidos) :
    Carries VAL ⟨s', Function.update config.locals (some np) l'⟩ token := by
  refine ⟨fun other held => ?_, fun j => ?_, printed ▸ carries.printed, lidos ▸ carries.lidos,
    carries.fits⟩
  · show load other (Function.update config.locals (some np) l' (some other)) = some held ↔ _
    rw [← carries.child other held]
    by_cases mine : other = np
    · rw [mine, Function.update_self, same]
    · rw [update_some_of_ne _ _ mine]
  · show s'.fd.queue j = _
    rw [queue]
    exact carries.pipe j

/-- With child `np`, or with no child. -/
def Spot.near (np : Fin NP) : Spot NP → Prop
  | .child other _ => other = np
  | _ => True

theorem Spot.near_ne {np other : Fin NP} {spot : Spot NP} (near : spot.near np)
    (different : other ≠ np) (held : Load) : spot ≠ .child other held := by
  rintro rfl
  exact different near

/-- A move of a child that is a hop of the token. -/
theorem Carries.hop {np : Fin NP} (positive : 1 ≤ VAL) (carries : Carries VAL config token)
    (hop : Hop VAL token after) (before : token.spot.near np) (later : after.spot.near np)
    (mine : ∀ held, load np l' = some held ↔ after.spot = .child np held)
    (pipe : ∀ j, s'.fd.queue j = after.spot.content j)
    (printed : s'.printed = (List.range after.printed).map fun v => (v % NP + 1, v + 1))
    (lidos : s'.lidos = List.range' 1 after.read) :
    Carries VAL ⟨s', Function.update config.locals (some np) l'⟩ after := by
  refine ⟨fun other held => ?_, pipe, printed, lidos, fits_hop positive carries.fits hop⟩
  show load other (Function.update config.locals (some np) l' (some other)) = some held ↔ _
  by_cases same : other = np
  · subst same
    rw [Function.update_self]
    exact mine held
  · rw [update_some_of_ne _ _ same, carries.child]
    exact iff_of_false (Spot.near_ne before same held) (Spot.near_ne later same held)

/-- `VAL` has been read only when the token is with the reader of `VAL`, or gone. -/
theorem Carries.read_of_mem (carries : Carries VAL config token)
    (member : VAL ∈ config.shared.lidos) : VAL ≤ token.read := by
  rw [carries.lidos, List.mem_range'_1] at member
  omega

/-- A value at the test was read. -/
theorem Carries.tested {np : Fin NP} (carries : Carries VAL config token)
    (here : (config.locals (some np)).place = .test) :
    (config.locals (some np)).val ∈ config.shared.lidos := by
  have spot : token.spot = .child np (.got (config.locals (some np)).val) :=
    (carries.child np _).mp (by rw [load, here])
  obtain ⟨k, _⟩ := token
  subst spot
  obtain ⟨value, some, _⟩ := carries.fits
  rw [carries.lidos, List.mem_range'_1, value]
  exact ⟨some, Nat.lt_one_add_iff.mpr le_rfl⟩

/-- A write fails only when `VAL` was read, and then nobody writes. -/
theorem Carries.not_broken {np : Fin NP} (carries : Carries VAL config token)
    (here : (config.locals (some np)).place = .write) : VAL ∉ config.shared.lidos := by
  intro member
  have enough := carries.read_of_mem member
  have spot : token.spot = .child np (.send (config.locals (some np)).val) :=
    (carries.child np _).mp (by rw [load, here])
  obtain ⟨k, _⟩ := token
  subst spot
  obtain ⟨_, some, fit, _⟩ := carries.fits
  change VAL ≤ k - 1 at enough
  omega

/-- What a child holds is where the token is. -/
theorem Carries.spot {np : Fin NP} {held : Load} (carries : Carries VAL config token)
    (holds : load np (config.locals (some np)) = some held) :
    ∃ k, token = ⟨k, .child np held⟩ := by
  have here := (carries.child np held).mp holds
  obtain ⟨k, _⟩ := token
  subst here
  exact ⟨k, rfl⟩

/-- Child `np` prints its value. -/
theorem carries_print {np : Fin NP} {k value : ℕ} (positive : 1 ≤ VAL)
    (carries : Carries VAL config ⟨k, .child np (.print value)⟩) (same : l'.val = value)
    (place : l'.place = .write) :
    Carries VAL ⟨{ config.shared with printed := config.shared.printed ++ [(np.val + 1, value)] },
      Function.update config.locals (some np) l'⟩ ⟨k + 1, .child np (.send value)⟩ := by
  obtain ⟨number, _, child⟩ := carries.fits
  refine carries.hop positive .print rfl rfl ?_ carries.pipe ?_ ?_
  · simp [load, place, same]
  · show config.shared.printed ++ [(np.val + 1, value)] = (List.range (k + 1)).map _
    rw [carries.printed, List.range_succ, List.map_append, child, number]
    rfl
  · exact carries.lidos

/-- Child `np` sends its value. -/
theorem carries_write {np : Fin NP} {k value : ℕ} (positive : 1 ≤ VAL)
    (carries : Carries VAL config ⟨k, .child np (.send value)⟩) (place : l'.place = .reading) :
    Carries VAL
      ⟨{ config.shared with
          fd := config.shared.fd.setQueue np (config.shared.fd.queue np ++ [value]) },
        Function.update config.locals (some np) l'⟩ ⟨k, .pipe np value⟩ := by
  refine carries.hop positive .send rfl trivial ?_ ?_ carries.printed carries.lidos
  · simp [load, place]
  · intro j
    show Function.update config.shared.fd.queue np (config.shared.fd.queue np ++ [value]) j =
      if j = np then [value] else []
    rw [Function.update_apply, carries.pipe np, carries.pipe j]
    rfl

/-- Child `np` reads the value in the pipe before it. -/
theorem carries_read {np : Fin NP} {k value : ℕ} (positive : 1 ≤ VAL)
    (carries : Carries VAL config ⟨k, .pipe (anterior np) value⟩) :
    Carries VAL
      ⟨{ config.shared with
          fd := config.shared.fd.setQueue (anterior np) []
          lidos := config.shared.lidos ++ [value] },
        Function.update config.locals (some np) { place := .test, val := value }⟩
      ⟨k, .child np (.got value)⟩ := by
  obtain ⟨number, some, _⟩ := carries.fits
  refine carries.hop positive .read trivial rfl ?_ ?_ carries.printed ?_
  · simp [load]
  · intro j
    show Function.update config.shared.fd.queue (anterior np) [] j = []
    rw [Function.update_apply, carries.pipe j]
    split
    · rfl
    · exact if_neg ‹_›
  · show config.shared.lidos ++ [value] = List.range' 1 k
    obtain ⟨before, rfl⟩ := Nat.exists_eq_add_of_le' some
    rw [carries.lidos, List.range'_concat, number, Nat.one_mul, Nat.add_comm 1 before]
    rfl

/-- What is read is the token. -/
theorem Carries.received {np : Fin NP} {value : ℕ} {rest : List ℕ}
    (carries : Carries VAL config token)
    (received : config.shared.fd.queue (anterior np) = value :: rest) :
    rest = [] ∧ ∃ k, token = ⟨k, .pipe (anterior np) value⟩ := by
  rw [carries.pipe] at received
  obtain ⟨k, spot⟩ := token
  match spot, received with
  | .pipe other _, received =>
    unfold Spot.content at received
    dsimp only at received
    split at received
    · rename_i same
      cases received
      exact ⟨rfl, k, by rw [same]⟩
    · cases received

/-- **Each step of a child is a hop of the token, or leaves it where it is.** -/
theorem carries_of_child {np : Fin NP} (positive : 1 ≤ VAL) (wired : Wired config)
    (late : Late VAL config) (carries : Carries VAL config token)
    (move : Move VAL config.shared (config.locals (some np)) (some np) s' l') :
    ∃ after, (after = token ∨ Hop VAL token after) ∧
      Carries VAL ⟨s', Function.update config.locals (some np) l'⟩ after := by
  have forked := born_of_move move (wired.born np)
  cases move with
  | born here _ | keepWrite here | closing here _ | closed here _ | keepRead here
  | closingRead here _ | eof here _ | increment here | closeWrite here | closeRead here
  | exit here =>
    exact ⟨token, .inl rfl, carries.quiet (by simp [load, here]) rfl rfl rfl⟩
  | start here other =>
    exact ⟨token, .inl rfl, carries.quiet (by simp [load, here, other]) rfl rfl rfl⟩
  | first here zero =>
    obtain ⟨k, rfl⟩ := carries.spot (show load np _ = some .home by simp [load, here, zero])
    obtain ⟨_, rfl⟩ := carries.fits
    refine ⟨⟨0, .child np (.print 1)⟩, .inr .first, carries.hop positive .first rfl rfl ?_
      carries.pipe carries.printed carries.lidos⟩
    simp [load]
  | print here =>
    obtain ⟨k, rfl⟩ := carries.spot (show load np _ = some (.print _) by rw [load, here])
    exact ⟨_, .inr .print, carries_print positive carries rfl rfl⟩
  | write here _ =>
    obtain ⟨k, rfl⟩ := carries.spot (show load np _ = some (.send _) by rw [load, here])
    exact ⟨_, .inr .send, carries_write positive carries rfl⟩
  | broken here closed =>
    exact absurd (late.ended (wired.ended (.inr (send_broken closed none))))
      (carries.not_broken here)
  | badWrite here closed =>
    obtain ⟨write, _⟩ := wired.own np forked (by rw [here]; rfl)
    rw [send_error closed] at write
    cases write
  | read here received =>
    obtain ⟨rfl, k, rfl⟩ := carries.received (receive_value received)
    exact ⟨_, .inr .read, carries_read positive carries⟩
  | badRead here closed =>
    obtain ⟨_, read⟩ := wired.own np forked (by rw [here]; rfl)
    rw [receive_error closed] at read
    cases read
  | last here same =>
    obtain ⟨k, rfl⟩ := carries.spot (show load np _ = some (.got VAL) by rw [load, here, same])
    refine ⟨⟨k, .over⟩, .inr .last, carries.hop positive .last rfl trivial ?_ carries.pipe
      carries.printed carries.lidos⟩
    simp [load]
  | test here other =>
    obtain ⟨k, rfl⟩ := carries.spot (show load np _ = some (.got _) by rw [load, here])
    refine ⟨⟨k, .child np (.print _)⟩, .inr (.increment other),
      carries.hop positive (.increment other) rfl rfl ?_ carries.pipe carries.printed
        carries.lidos⟩
    simp [load]

theorem carries_of_parent (carries : Carries VAL config token)
    (move : Move VAL config.shared (config.locals none) none s' l') :
    Carries VAL ⟨s', Function.update config.locals none l'⟩ token := by
  have children := update_none_some config.locals l'
  have child : ∀ np held, load np (Function.update config.locals none l' (some np)) = some held ↔
      token.spot = .child np held := by
    intro np held
    rw [children]
    exact carries.child np held
  cases move <;> exact ⟨child, carries.pipe, carries.printed, carries.lidos, carries.fits⟩

/-! ### The result -/

/-- The invariant of the system. -/
structure Sound (VAL : ℕ) (config : Config (Processo NP) (Shared NP) Local) : Prop where
  wired : Wired config
  late : Late VAL config
  token : ∃ token, Carries VAL config token

theorem sound_inicio (positive : 0 < NP) : Sound VAL (inicio NP) := by
  refine ⟨⟨fun _ _ => ⟨rfl, rfl⟩, fun late => ?_, fun np moved => ?_, fun np forked => ?_⟩,
    ⟨fun np gone => ?_, fun ended => ?_⟩, ⟨0, .child ⟨0, positive⟩ .home⟩, ?_⟩
  · rcases late with late | late <;> cases late
  · exact absurd rfl moved
  · cases forked
  · cases gone
  · cases ended
  · refine ⟨fun np held => ?_, fun _ => rfl, rfl, rfl, rfl, rfl⟩
    show (if np.val = 0 then some Load.home else none) = some held ↔ _
    by_cases zero : np.val = 0
    · simp [zero, Fin.ext_iff]
    · simp [zero, Fin.ext_iff, Ne.symm zero]

theorem sound_of_step (positive : 1 ≤ VAL) {proc : Processo NP}
    {later : Config (Processo NP) (Shared NP) Local} (sound : Sound VAL config)
    (run : step (program VAL) config proc = some later) : Sound VAL later := by
  obtain ⟨s', l', move, rfl⟩ := move_of_step run
  obtain ⟨wired, late, token, carries⟩ := sound
  cases proc with
  | none =>
    exact ⟨wired_of_parent wired move, late_of_parent late move, token,
      carries_of_parent carries move⟩
  | some np =>
    obtain ⟨after, _, kept⟩ := carries_of_child positive wired late carries move
    exact ⟨wired_of_child wired move, late_of_child wired late carries.tested move, after, kept⟩

/-- The values in the pipes. -/
def inFlight (config : Config (Processo NP) (Shared NP) Local) : ℕ :=
  ∑ np, (config.shared.fd.queue np).length

/-- A child holds a value that it will still write. -/
def holding (VAL : ℕ) : Processo NP → Local → Bool
  | some _, ⟨.print, _⟩ | some _, ⟨.write, _⟩ | some _, ⟨.increment, _⟩ => true
  | some _, ⟨.test, val⟩ => val != VAL
  | _, _ => false

theorem load_of_holding {np : Fin NP} (holds : holding VAL (some np) l = true) :
    ∃ held, load np l = some held := by
  obtain ⟨place, val⟩ := l
  cases place <;> first | exact ⟨_, rfl⟩ | simp [holding] at holds

/-- Who holds a value has the token. -/
theorem spot_of_holding {proc : Processo NP} (carries : Carries VAL config token)
    (holds : holding VAL proc (config.locals proc) = true) :
    ∃ np held, proc = some np ∧ token.spot = .child np held := by
  cases proc with
  | none => simp [holding] at holds
  | some np =>
    obtain ⟨held, here⟩ := load_of_holding holds
    exact ⟨np, held, rfl, (carries.child np held).mp here⟩

/-- **One value at a time is under way.** -/
theorem Carries.single (carries : Carries VAL config token) :
    inFlight config + count (holding VAL) config.locals ≤ 1 := by
  have queues : inFlight config = ∑ np, (token.spot.content np).length :=
    Finset.sum_congr rfl fun np _ => by rw [carries.pipe np]
  rw [queues]
  match spot : token.spot with
  | .pipe np value =>
    have nobody : count (holding VAL) config.locals = 0 := by
      apply count_eq_zero
      intro proc
      by_contra holds
      obtain ⟨_, _, _, here⟩ := spot_of_holding carries (Bool.eq_true_of_not_eq_false holds)
      rw [spot] at here
      cases here
    have one : ∑ j, ((Spot.pipe np value).content j).length = 1 := by
      rw [Finset.sum_eq_single np]
      · simp [Spot.content]
      · intro j _ other
        simp [Spot.content, other]
      · simp
    rw [nobody, one]
  | .child np held =>
    have empty : ∑ j, ((Spot.child np held).content j).length = 0 :=
      Finset.sum_eq_zero fun _ _ => rfl
    rw [empty, Nat.zero_add]
    apply count_le_one
    intro one two first second
    obtain ⟨_, _, rfl, here⟩ := spot_of_holding carries first
    obtain ⟨_, _, rfl, there⟩ := spot_of_holding carries second
    rw [here] at there
    cases there
    rfl
  | .over =>
    have empty : ∑ j, ((Spot.over : Spot NP).content j).length = 0 :=
      Finset.sum_eq_zero fun _ _ => rfl
    rw [empty, Nat.zero_add]
    apply count_le_one
    intro one two first _
    obtain ⟨_, _, _, here⟩ := spot_of_holding carries first
    rw [spot] at here
    cases here

/-- **One token**, the values 1, 2, … printed in turn, and nobody out of the loop early. -/
structure TokenRing (VAL : ℕ) (config : Config (Processo NP) (Shared NP) Local) : Prop where
  single : inFlight config + count (holding VAL) config.locals ≤ 1
  printed : ∃ k ≤ VAL,
    config.shared.printed = (List.range k).map fun v => (v % NP + 1, v + 1)
  loops : ∀ np, (config.locals (some np)).place.left = true → VAL ∈ config.shared.lidos

/-- **The token ring**, in every interleaving of the parent and any number of children. -/
theorem token_ring (children : 1 ≤ NP) (positive : 1 ≤ VAL)
    (reach : Reachable (step (program VAL)) (inicio NP) config) : TokenRing VAL config := by
  have sound : Sound VAL config :=
    reach.invariant (Sound VAL) (sound_inicio children) fun _ _ _ kept _ run =>
      sound_of_step positive kept run
  obtain ⟨token, carries⟩ := sound.token
  exact ⟨carries.single, ⟨token.printed, fits_le carries.fits, carries.printed⟩, sound.late.left⟩

/-- Two children and `VAL` 3: both are forked, child 0 sends 1, child 1 reads it and prints 2. -/
theorem token_ring_two : ∃ config : Config (Processo 2) (Shared 2) Local,
    Reachable (step (program 3)) (inicio 2) config ∧
      config.shared.printed = [(1, 1), (2, 2)] ∧ TokenRing 3 config := by
  have evaluated : ∃ config : Config (Processo 2) (Shared 2) Local,
      Reachable (step (program 3)) (inicio 2) config ∧
        config.shared.printed = [(1, 1), (2, 2)] :=
    exists_reach_of_execute
      (List.replicate 3 none ++ List.replicate 9 (some 0) ++ List.replicate 11 (some 1)) _
      (by decide +kernel)
  obtain ⟨config, reach, printed⟩ := evaluated
  exact ⟨config, reach, printed, token_ring (by decide) (by decide) reach⟩

end ProcessoNpipe
