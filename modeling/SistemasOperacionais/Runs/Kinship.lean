/-
**A family of processes.**

Places for processes are free, or hold an embryo, a living process or a dead one. A living process
makes an embryo, names itself its parent and brings it to life, or loses it. When a process dies, its
children are adopted by the root; only its parent buries it, which frees the place.

* `Step` — the moves.
* `Tree` — the root lives and has no parent; everyone else who lives or is dead has a living parent.
  `Ages` — parents are older, and no two have one age: the age of a place is the number of the last
  embryo made there.
* `Tree.step`, `Ages.step` — **every move keeps them**, so that nobody is left whom no one will bury.
* `Tree.exists_root` — from everyone the parents lead to the root.
-/

import Mathlib.Logic.Function.Basic
import Mathlib.Logic.Relation
import Mathlib.Data.Option.Basic
import Mathlib.Data.Nat.Notation

set_option linter.unusedSectionVars false

namespace Kinship

variable {ι : Type} [DecidableEq ι]

inductive Kind
  | free
  | embryo
  | alive
  | dead
  deriving DecidableEq

/-- **The state of a family.** Who makes an embryo is `bearing` it; the flag says that the embryo has
its parent. -/
@[ext]
structure Family (ι : Type) where
  kind : ι → Kind
  parent : ι → Option ι
  bearing : ι → Option (ι × Bool)
  age : ι → ℕ
  clock : ℕ
  root : ι

/-- **The moves.** -/
inductive Step (f : Family ι) : Family ι → Prop
  | conceives {p c : ι} : f.kind p = .alive → f.bearing p = none → f.kind c = .free →
      Step f { f with
        kind := Function.update f.kind c .embryo
        bearing := Function.update f.bearing p (some (c, false))
        age := Function.update f.age c f.clock
        clock := f.clock + 1 }
  | loses {p c : ι} : f.bearing p = some (c, false) →
      Step f { f with
        kind := Function.update f.kind c .free
        bearing := Function.update f.bearing p none }
  | names {p c : ι} : f.bearing p = some (c, false) →
      Step f { f with
        parent := Function.update f.parent c (some p)
        bearing := Function.update f.bearing p (some (c, true)) }
  | bears {p c : ι} : f.bearing p = some (c, true) →
      Step f { f with
        kind := Function.update f.kind c .alive
        bearing := Function.update f.bearing p none }
  | dies {p : ι} : f.kind p = .alive → f.bearing p = none → p ≠ f.root →
      Step f { f with
        kind := Function.update f.kind p .dead
        parent := fun c => if f.parent c = some p then some f.root else f.parent c }
  | buries {p c : ι} : f.kind p = .alive → f.parent c = some p → f.kind c = .dead →
      Step f { f with
        kind := Function.update f.kind c .free
        parent := Function.update f.parent c none }

/-- **Everyone who lives or is dead has a living parent, but the root.** -/
structure Tree (f : Family ι) : Prop where
  root_alive : f.kind f.root = .alive
  root_parent : f.parent f.root = none
  parent_alive : ∀ c p, f.parent c = some p → f.kind p = .alive
  has_parent : ∀ c, f.kind c = .alive ∨ f.kind c = .dead → c ≠ f.root → f.parent c ≠ none
  free_parent : ∀ c, f.kind c = .free → f.parent c = none
  bearer : ∀ p c flag, f.bearing p = some (c, flag) → f.kind p = .alive
  borne : ∀ p c flag, f.bearing p = some (c, flag) → f.kind c = .embryo
  unnamed : ∀ p c, f.bearing p = some (c, false) → f.parent c = none
  named : ∀ p c, f.bearing p = some (c, true) → f.parent c = some p
  one_bearer : ∀ p q c flag flag', f.bearing p = some (c, flag) → f.bearing q = some (c, flag') →
    p = q

/-- **Parents are older, and no two have one age.** -/
structure Ages (f : Family ι) : Prop where
  pos : ∀ c, f.kind c ≠ .free → 0 < f.age c
  lt : ∀ c, f.age c < f.clock
  inj : ∀ c d, f.age c = f.age d → 0 < f.age c → c = d
  oldest : ∀ c, f.kind c ≠ .free → c ≠ f.root → f.age f.root < f.age c
  older : ∀ c p, f.parent c = some p → f.age p < f.age c
  bearer_older : ∀ p c flag, f.bearing p = some (c, flag) → f.age p < f.age c

variable {f f' : Family ι} {p c : ι}

/-! ### Every move keeps the tree -/

section Moves

variable (tree : Tree f)

include tree

/-- Only the living bear. -/
theorem Tree.bearing_eq_none (other : f.kind c ≠ .alive) : f.bearing c = none := by
  cases bearing : f.bearing c with
  | none => rfl
  | some borne => exact absurd (tree.bearer c borne.1 borne.2 bearing) other

/-- Only the living are parents. -/
theorem Tree.parent_ne (other : f.kind c ≠ .alive) (d : ι) : f.parent d ≠ some c :=
  fun parent => other (tree.parent_alive d c parent)

/-- A free place is nobody's child and borne by nobody. -/
theorem Tree.of_free (free : f.kind c = .free) :
    f.parent c = none ∧ (∀ q flag, f.bearing q ≠ some (c, flag)) ∧ f.root ≠ c := by
  grind [tree.free_parent, tree.borne, tree.root_alive]

/-- Who is borne is borne by one. -/
theorem Tree.of_borne {flag : Bool} (bearing : f.bearing p = some (c, flag)) :
    f.kind c = .embryo ∧ f.root ≠ c ∧ p ≠ c ∧
      ∀ q flag', f.bearing q = some (c, flag') → q = p := by
  have embryo := tree.borne p c flag bearing
  grind [tree.bearer, tree.root_alive, tree.one_bearer]

theorem Tree.step (step : Step f f') : Tree f' := by
  cases step with
  | @conceives p c alive idle free =>
    obtain ⟨orphan, unborne, root⟩ := tree.of_free free
    have childless := tree.parent_ne (c := c) (by rw [free]; decide)
    have barren := tree.bearing_eq_none (c := c) (by rw [free]; decide)
    constructor <;> simp only [Function.update_apply]
    · grind [tree.root_alive]
    · exact tree.root_parent
    · grind [tree.parent_alive]
    · grind [tree.has_parent]
    · grind [tree.free_parent]
    · grind [tree.bearer]
    · grind [tree.borne]
    · grind [tree.unnamed]
    · grind [tree.named]
    · grind [tree.one_bearer]
  | @loses p c bearing =>
    obtain ⟨embryo, root, apart, only⟩ := tree.of_borne bearing
    have childless := tree.parent_ne (c := c) (by rw [embryo]; decide)
    have barren := tree.bearing_eq_none (c := c) (by rw [embryo]; decide)
    constructor <;> simp only [Function.update_apply]
    · grind [tree.root_alive]
    · exact tree.root_parent
    · grind [tree.parent_alive]
    · grind [tree.has_parent]
    · grind [tree.free_parent, tree.unnamed]
    · grind [tree.bearer]
    · grind [tree.borne]
    · grind [tree.unnamed]
    · grind [tree.named]
    · grind [tree.one_bearer]
  | @names p c bearing =>
    obtain ⟨embryo, root, apart, only⟩ := tree.of_borne bearing
    have childless := tree.parent_ne (c := c) (by rw [embryo]; decide)
    have barren := tree.bearing_eq_none (c := c) (by rw [embryo]; decide)
    constructor <;> simp only [Function.update_apply]
    · exact tree.root_alive
    · grind [tree.root_parent]
    · grind [tree.parent_alive, tree.bearer]
    · grind [tree.has_parent]
    · grind [tree.free_parent]
    · grind [tree.bearer]
    · grind [tree.borne]
    · grind [tree.unnamed]
    · grind [tree.named]
    · grind [tree.one_bearer]
  | @bears p c bearing =>
    obtain ⟨embryo, root, apart, only⟩ := tree.of_borne bearing
    have childless := tree.parent_ne (c := c) (by rw [embryo]; decide)
    have barren := tree.bearing_eq_none (c := c) (by rw [embryo]; decide)
    constructor <;> simp only [Function.update_apply]
    · grind [tree.root_alive]
    · exact tree.root_parent
    · grind [tree.parent_alive]
    · have named := tree.named p c bearing
      grind [tree.has_parent]
    · grind [tree.free_parent]
    · grind [tree.bearer]
    · grind [tree.borne]
    · grind [tree.unnamed]
    · grind [tree.named]
    · grind [tree.one_bearer]
  | @dies p alive idle other =>
    -- who bears an embryo that it has named lives on, so no embryo is adopted
    constructor <;> simp only [Function.update_apply]
    · grind [tree.root_alive]
    · grind [tree.root_parent]
    · grind [tree.parent_alive, tree.root_alive]
    · grind [tree.has_parent]
    · grind [tree.free_parent]
    · grind [tree.bearer]
    · grind [tree.borne]
    · grind [tree.unnamed]
    · grind [tree.named]
    · exact tree.one_bearer
  | @buries p c alive parent dead =>
    constructor <;> simp only [Function.update_apply]
    · grind [tree.root_alive]
    · grind [tree.root_parent]
    · grind [tree.parent_alive]
    · grind [tree.has_parent]
    · grind [tree.free_parent]
    · grind [tree.bearer]
    · grind [tree.borne]
    · grind [tree.unnamed]
    · grind [tree.named, tree.borne]
    · exact tree.one_bearer

end Moves

/-! ### Ages -/

/-- Ages do not change, and who is not free was not free. -/
theorem Ages.congr (ages : Ages f) (same : f'.age = f.age) (clock : f'.clock = f.clock)
    (root : f'.root = f.root) (kind : ∀ c, f'.kind c ≠ .free → f.kind c ≠ .free)
    (older : ∀ c p, f'.parent c = some p → f.age p < f.age c)
    (bearing : ∀ p c flag, f'.bearing p = some (c, flag) → ∃ flag', f.bearing p = some (c, flag')) :
    Ages f' := by
  constructor
  · intro c solid
    rw [same]
    exact ages.pos c (kind c solid)
  · intro c
    rw [same, clock]
    exact ages.lt c
  · rw [same]
    exact ages.inj
  · intro c solid other
    rw [same, root]
    exact ages.oldest c (kind c solid) (root ▸ other)
  · rw [same]
    exact older
  · intro p c flag borne
    obtain ⟨flag', before⟩ := bearing p c flag borne
    rw [same]
    exact ages.bearer_older p c flag' before

/-- An embryo is the youngest. -/
theorem Ages.conceives (ages : Ages f) (tree : Tree f) (alive : f.kind p = .alive)
    (free : f.kind c = .free) : Ages { f with
      kind := Function.update f.kind c .embryo
      bearing := Function.update f.bearing p (some (c, false))
      age := Function.update f.age c f.clock
      clock := f.clock + 1 } := by
  obtain ⟨orphan, unborne, root⟩ := tree.of_free free
  have childless := tree.parent_ne (c := c) (by rw [free]; decide)
  have barren := tree.bearing_eq_none (c := c) (by rw [free]; decide)
  have newest : ∀ d, f.age d < f.clock := ages.lt
  constructor <;> simp only [Function.update_apply]
  · intro d solid
    split
    · exact Nat.lt_of_le_of_lt (Nat.zero_le _) (newest c)
    · rename_i other
      exact ages.pos d (by simpa only [if_neg other] using solid)
  · intro d
    have before := newest d
    split <;> omega
  · intro d e same pos
    have first := newest d
    have second := newest e
    split at same <;> split at same
    · rename_i here there
      rw [here, there]
    · omega
    · omega
    · rename_i other _
      exact ages.inj d e same (by simpa only [if_neg other] using pos)
  · intro d solid other
    rw [if_neg root]
    split
    · exact newest f.root
    · rename_i away
      exact ages.oldest d (by simpa only [if_neg away] using solid) other
  · intro d q parent
    have away : d ≠ c := by
      rintro rfl
      rw [orphan] at parent
      cases parent
    have apart : q ≠ c := by
      rintro rfl
      exact childless d parent
    rw [if_neg away, if_neg apart]
    exact ages.older d q parent
  · intro q d flag borne
    have apart : q ≠ c := by
      rintro rfl
      have other : q ≠ p := by
        rintro rfl
        rw [alive] at free
        cases free
      rw [if_neg other, barren] at borne
      cases borne
    rw [if_neg apart]
    split at borne
    · cases borne
      rw [if_pos rfl]
      exact newest q
    · have away : d ≠ c := by
        rintro rfl
        exact unborne q flag borne
      rw [if_neg away]
      exact ages.bearer_older q d flag borne

theorem Ages.step (ages : Ages f) (tree : Tree f) (step : Step f f') : Ages f' := by
  cases step with
  | conceives alive idle free => exact ages.conceives tree alive free
  | @loses p c bearing =>
    obtain ⟨embryo, -⟩ := tree.of_borne bearing
    refine ages.congr rfl rfl rfl ?_ ages.older ?_ <;> grind [Function.update_apply]
  | @names p c bearing =>
    refine ages.congr rfl rfl rfl (fun _ => id) ?_ ?_
    · intro d q parent
      simp only [Function.update_apply] at parent
      split at parent
      · rename_i here
        cases parent
        rw [here]
        exact ages.bearer_older p c false bearing
      · exact ages.older d q parent
    · grind [Function.update_apply]
  | @bears p c bearing =>
    obtain ⟨embryo, -⟩ := tree.of_borne bearing
    refine ages.congr rfl rfl rfl ?_ ages.older ?_ <;> grind [Function.update_apply]
  | @dies p alive idle other =>
    refine ages.congr rfl rfl rfl (by grind [Function.update_apply]) ?_
      fun p c flag borne => ⟨flag, borne⟩
    intro d q parent
    have differ : d ≠ f.root := by
      rintro rfl
      simp only [tree.root_parent] at parent
      cases parent
    have solid : f.kind d ≠ .free := by
      intro free
      simp only [tree.free_parent d free] at parent
      cases parent
    simp only at parent
    split at parent
    · cases parent
      exact ages.oldest d solid differ
    · exact ages.older d q parent
  | @buries p c alive parent dead =>
    refine ages.congr rfl rfl rfl (by grind [Function.update_apply]) ?_
      fun p c flag borne => ⟨flag, borne⟩
    intro d q named
    simp only [Function.update_apply] at named
    split at named
    · cases named
    · exact ages.older d q named

/-- **From everyone who lives or is dead the parents lead to the root.** -/
theorem Tree.exists_root (tree : Tree f) (ages : Ages f)
    (solid : f.kind c = .alive ∨ f.kind c = .dead) :
    Relation.ReflTransGen (fun child parent => f.parent child = some parent) c f.root := by
  induction ordered : f.age c using Nat.strongRecOn generalizing c with
  | ind age ih =>
    by_cases root : c = f.root
    · rw [root]
    · obtain ⟨p, parent⟩ := Option.ne_none_iff_exists'.mp (tree.has_parent c solid root)
      have older := ages.older c p parent
      exact .head parent (ih (f.age p) (ordered ▸ older) (.inl (tree.parent_alive c p parent)) rfl)

end Kinship
