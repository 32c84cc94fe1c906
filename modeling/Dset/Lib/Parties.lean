import Mathlib.Tactic.TypeStar
import Mathlib.Algebra.GroupWithZero.Nat
import Mathlib.Data.List.Basic

/-! Parties that share resources: the states of the parties in a list, of which a
step changes one. What all of them hold of a resource is a sum over the list, and a
step of one party changes it by what this party took or gave back. -/

namespace Dset.Lib

variable {σ : Type*} {w : σ → ℕ} {l : List σ} {i : ℕ} {p q : σ}

/-- What the parties hold together when a party in state `p` holds `w p`. -/
def held (w : σ → ℕ) (l : List σ) : ℕ := (l.map w).sum

@[simp] theorem held_nil : held w [] = 0 := rfl

@[simp] theorem held_cons : held w (p :: l) = w p + held w l := by simp [held]

@[simp] theorem held_append {l' : List σ} : held w (l ++ l') = held w l + held w l' := by
  simp [held]

theorem held_set (h : l[i]? = some p) (q : σ) : held w (l.set i q) + w p = held w l + w q := by
  induction l generalizing i with
  | nil => simp at h
  | cons a l ih =>
    cases i with
    | zero =>
      obtain rfl : a = p := by simpa using h
      simp only [List.set_cons_zero, held_cons]
      omega
    | succ i =>
      have := ih (by simpa using h)
      simp only [List.set_cons_succ, held_cons]
      omega

theorem held_set_same (h : l[i]? = some p) (hw : w q = w p) : held w (l.set i q) = held w l := by
  have := held_set (w := w) h q
  omega

theorem le_held (h : p ∈ l) : w p ≤ held w l := by
  induction l with
  | nil => cases h
  | cons a l ih =>
    rw [held_cons]
    rcases List.mem_cons.mp h with rfl | h
    · exact Nat.le_add_right _ _
    · exact Nat.le_trans (ih h) (Nat.le_add_left _ _)

theorem held_eq_zero : held w l = 0 ↔ ∀ p ∈ l, w p = 0 := by
  constructor
  · intro h p hp
    have := le_held (w := w) hp
    omega
  · intro h
    induction l with
    | nil => rfl
    | cons a l ih =>
      rw [held_cons, h a List.mem_cons_self, ih fun p hp => h p (List.mem_cons_of_mem _ hp)]

/-- What holds of every party holds after a step of one, when it holds of its new
state. -/
theorem all_set {P : σ → Prop} (h : ∀ p ∈ l, P p) (hq : P q) : ∀ p ∈ l.set i q, P p := by
  intro p hp
  rcases List.mem_or_eq_of_mem_set hp with hp | rfl
  · exact h p hp
  · exact hq

end Dset.Lib
