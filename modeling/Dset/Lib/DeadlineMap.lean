import Dset.Lib.WrapClock

/-! A finite set whose members lapse: every key with the deadline it is kept to,
or no entry. Time only takes entries away. `Shows` compares such a map with a
representation of it that says which key is held to which deadline. -/

namespace Dset.Lib

variable {κ : Type*}

/-- Keys and their deadlines. -/
abbrev DeadlineMap (κ : Type*) := κ → Option Deadline

namespace DeadlineMap

/-- The entries left at tick `now`. -/
def remaining (m : DeadlineMap κ) (now : ℕ) : DeadlineMap κ := fun k =>
  (m k).filter fun d => !decide (d.passed now)

def insert [DecidableEq κ] (m : DeadlineMap κ) (k : κ) (d : Deadline) : DeadlineMap κ :=
  Function.update m k (some d)

def erase [DecidableEq κ] (m : DeadlineMap κ) (k : κ) : DeadlineMap κ := Function.update m k none

def empty : DeadlineMap κ := fun _ => none

/-- An update at a tick: a key with its new deadline, or without any. -/
structure Update (κ : Type*) where
  now : ℕ
  key : κ
  deadline : Option Deadline

def update [DecidableEq κ] (m : DeadlineMap κ) (u : Update κ) : DeadlineMap κ :=
  Function.update (m.remaining u.now) u.key u.deadline

/-- The entries behind updates made one after the other. -/
def updates [DecidableEq κ] (m : DeadlineMap κ) (l : List (Update κ)) : DeadlineMap κ :=
  l.foldl update m

/-- The entries of the map are what `P` says. -/
def Shows (m : DeadlineMap κ) (P : κ → Deadline → Prop) : Prop := ∀ k d, m k = some d ↔ P k d

variable {m : DeadlineMap κ} {P Q : κ → Deadline → Prop}

theorem remaining_eq_some {now : ℕ} {k : κ} {d : Deadline} :
    m.remaining now k = some d ↔ m k = some d ∧ ¬d.passed now := by
  simp [remaining, Option.filter_eq_some_iff]

/-- Time passes once. -/
theorem remaining_remaining (m : DeadlineMap κ) {now now' : ℕ} (h : now ≤ now') :
    (m.remaining now).remaining now' = m.remaining now' := by
  funext k
  apply Option.ext
  intro d
  rw [remaining_eq_some, remaining_eq_some, remaining_eq_some, and_assoc]
  have hlater : ¬d.passed now' → ¬d.passed now := fun hd hpast => hd (hpast.mono h)
  tauto

theorem Shows.congr (h : m.Shows P) (hPQ : ∀ k d, P k d ↔ Q k d) : m.Shows Q :=
  fun k d => (h k d).trans (hPQ k d)

theorem Shows.remaining {now : ℕ} (h : m.Shows P) :
    (m.remaining now).Shows fun k d => P k d ∧ ¬d.passed now :=
  fun k d => remaining_eq_some.trans (and_congr_left fun _ => h k d)

theorem Shows.insert [DecidableEq κ] {k : κ} {d : Deadline} (h : m.Shows P) :
    (m.insert k d).Shows fun k' d' => if k' = k then d' = d else P k' d' := by
  intro k' d'
  unfold DeadlineMap.insert
  by_cases hk : k' = k
  · subst hk
    simp [eq_comm]
  · simp [hk, h k' d']

theorem Shows.erase [DecidableEq κ] {k : κ} (h : m.Shows P) :
    (m.erase k).Shows fun k' d' => k' ≠ k ∧ P k' d' := by
  intro k' d'
  unfold DeadlineMap.erase
  by_cases hk : k' = k
  · subst hk
    simp
  · simp [hk, h k' d']

theorem shows_empty : (empty : DeadlineMap κ).Shows fun _ _ => False := by
  intro k d
  simp [empty]

/-- A key has an entry when it is held to some deadline. -/
theorem Shows.ne_none_iff (h : m.Shows P) (k : κ) : m k ≠ none ↔ ∃ d, P k d := by
  rw [Option.ne_none_iff_exists']
  exact exists_congr fun d => h k d

end DeadlineMap

end Dset.Lib
