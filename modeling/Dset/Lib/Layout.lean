import Mathlib.Algebra.GroupWithZero.Divisibility
import Mathlib.Algebra.Ring.Nat
import Mathlib.Tactic.TypeStar

/-! Fields laid out one behind the other, each at a multiple of its alignment, in elements that
are packed in an array. The fields never overlap. All elements of every aligned array have their
fields aligned exactly when the alignment of each field divides that of the array and the size
of an element. -/

namespace Dset.Lib

/-- The least multiple of `a` that is not below `x`. -/
def alignUp (x a : ℕ) : ℕ := (x + a - 1) / a * a

theorem dvd_alignUp (x a : ℕ) : a ∣ alignUp x a := Nat.dvd_mul_left _ _

theorem alignUp_eq {x a : ℕ} (ha : 0 < a) : alignUp x a = x + a - 1 - (x + a - 1) % a := by
  have := Nat.div_add_mod (x + a - 1) a
  rw [alignUp, Nat.mul_comm]
  omega

theorem le_alignUp {x a : ℕ} (ha : 0 < a) : x ≤ alignUp x a := by
  have := Nat.mod_lt (x + a - 1) ha
  rw [alignUp_eq ha]
  omega

theorem alignUp_lt {x a : ℕ} (ha : 0 < a) : alignUp x a < x + a := by
  rw [alignUp_eq ha]
  omega

/-- There is one multiple of `a` in the `a` numbers from `x` on. -/
theorem eq_alignUp {x a m : ℕ} (ha : 0 < a) (hdvd : a ∣ m) (hle : x ≤ m) (hlt : m < x + a) :
    m = alignUp x a := by
  obtain ⟨n, rfl⟩ := hdvd
  have hn : (x + a - 1) / a = n := by
    apply Nat.div_eq_of_lt_le
    · rw [Nat.mul_comm]
      omega
    · rw [Nat.succ_mul, Nat.mul_comm]
      omega
  rw [alignUp, hn, Nat.mul_comm]

/-- A power of two is rounded to by clearing the bits of a mask. -/
theorem alignUp_two_pow (x k : ℕ) :
    alignUp x (2 ^ k) = x + (2 ^ k - 1) - ((x + (2 ^ k - 1)) &&& (2 ^ k - 1)) := by
  have hpos := Nat.two_pow_pos k
  rw [Nat.and_two_pow_sub_one_eq_mod, alignUp_eq hpos, ← Nat.add_sub_assoc hpos]

/-- Rounding up to one power of two gives a multiple of another when that is no larger, or less
than the first one is missing to its next multiple. -/
theorem two_pow_dvd_alignUp_iff (x i k : ℕ) :
    2 ^ i ∣ alignUp x (2 ^ k) ↔ 2 ^ i ≤ 2 ^ k ∨ alignUp x (2 ^ i) < x + 2 ^ k := by
  have hi := Nat.two_pow_pos i
  have hk := Nat.two_pow_pos k
  constructor
  · intro h
    right
    have hle := le_alignUp (x := x) hk
    have hlt := alignUp_lt (x := x) hk
    by_contra hnot
    -- A multiple of `2 ^ i` below the next one is below `x`.
    obtain ⟨n, hn⟩ := h
    obtain ⟨m, hm⟩ := dvd_alignUp x (2 ^ i)
    have hlt' := alignUp_lt (x := x) hi
    have hnm : n < m := by
      by_contra hle'
      have := Nat.mul_le_mul_left (2 ^ i) (not_lt.mp hle')
      omega
    have := Nat.mul_le_mul_left (2 ^ i) (Nat.succ_le_of_lt hnm)
    rw [Nat.mul_succ] at this
    omega
  · intro h
    rcases Nat.le_total i k with hik | hki
    · exact (pow_dvd_pow 2 hik).trans (dvd_alignUp x _)
    · rcases h with hle | hlt
      · have hik : i ≤ k := (Nat.pow_le_pow_iff_right (by omega)).mp hle
        exact (pow_dvd_pow 2 hik).trans (dvd_alignUp x _)
      · have hdvd : 2 ^ k ∣ alignUp x (2 ^ i) := (pow_dvd_pow 2 hki).trans (dvd_alignUp x _)
        rw [← eq_alignUp hk hdvd (le_alignUp hi) hlt]
        exact dvd_alignUp x _

structure Field where
  size : ℕ
  align : ℕ
  deriving DecidableEq

/-- The fields behind the first `x` bytes, with their offsets. -/
def placed : ℕ → List Field → List (ℕ × Field)
  | _, [] => []
  | x, f :: fs => (alignUp x f.align, f) :: placed (alignUp x f.align + f.size) fs

def fieldsEnd : ℕ → List Field → ℕ
  | x, [] => x
  | x, f :: fs => fieldsEnd (alignUp x f.align + f.size) fs

theorem le_fieldsEnd {fs : List Field} (hpos : ∀ f ∈ fs, 0 < f.align) (x : ℕ) :
    x ≤ fieldsEnd x fs := by
  induction fs generalizing x with
  | nil => exact le_rfl
  | cons f fs ih =>
    have hle := le_alignUp (x := x) (hpos f List.mem_cons_self)
    have hrest := ih (fun g hg => hpos g (List.mem_cons_of_mem f hg)) (alignUp x f.align + f.size)
    unfold fieldsEnd
    omega

/-- Every field stands behind the first bytes, before the end and at its alignment. -/
theorem placed_inside {fs : List Field} (hpos : ∀ f ∈ fs, 0 < f.align) {x : ℕ} {p : ℕ × Field}
    (hp : p ∈ placed x fs) :
    x ≤ p.1 ∧ p.1 + p.2.size ≤ fieldsEnd x fs ∧ p.2.align ∣ p.1 ∧ p.2 ∈ fs := by
  induction fs generalizing x with
  | nil => cases hp
  | cons f fs ih =>
    have hle := le_alignUp (x := x) (hpos f List.mem_cons_self)
    have hpos' : ∀ g ∈ fs, 0 < g.align := fun g hg => hpos g (List.mem_cons_of_mem f hg)
    rcases List.mem_cons.mp hp with rfl | hp
    · exact ⟨hle, le_fieldsEnd hpos' _, dvd_alignUp _ _, List.mem_cons_self⟩
    · obtain ⟨h1, h2, h3, h4⟩ := ih hpos' hp
      exact ⟨by omega, h2, h3, List.mem_cons_of_mem f h4⟩

/-- A later field begins behind the end of every earlier one. -/
theorem placed_pairwise {fs : List Field} (hpos : ∀ f ∈ fs, 0 < f.align) (x : ℕ) :
    (placed x fs).Pairwise fun p q => p.1 + p.2.size ≤ q.1 := by
  induction fs generalizing x with
  | nil => exact List.Pairwise.nil
  | cons f fs ih =>
    have hpos' : ∀ g ∈ fs, 0 < g.align := fun g hg => hpos g (List.mem_cons_of_mem f hg)
    exact List.Pairwise.cons (fun q hq => (placed_inside hpos' hq).1) (ih hpos' _)

/-- A field at a multiple of its alignment is aligned in every element of every array that starts
at a multiple of `base`, if and only if `base` and the size of an element are multiples too. -/
theorem aligned_in_arrays_iff {a base size o : ℕ} (ho : a ∣ o) :
    (∀ block, base ∣ block → ∀ i, a ∣ block + i * size + o) ↔ a ∣ base ∧ a ∣ size := by
  constructor
  · intro h
    have hbase := h base (dvd_refl base) 0
    have hsize := h 0 (dvd_zero base) 1
    rw [Nat.zero_mul, Nat.add_zero] at hbase
    rw [Nat.one_mul, Nat.zero_add] at hsize
    exact ⟨(Nat.dvd_add_left ho).mp hbase, (Nat.dvd_add_left ho).mp hsize⟩
  · rintro ⟨hbase, hsize⟩ block hblock i
    exact Nat.dvd_add (Nat.dvd_add (hbase.trans hblock) (hsize.mul_left i)) ho

end Dset.Lib
