import Mathlib.Data.List.Perm.Basic
import Mathlib.Algebra.BigOperators.Group.List.Basic
import Mathlib.Algebra.Ring.Int.Defs

/-! Arrays whose cells each hold a list of entries: writing one cell exchanges
the entries of that cell and keeps all others. The entries are compared up to
their order, so that a whole table is handled cell by cell. -/

namespace Dset.Lib

open List

variable {α β : Type*}

/-- The entries of an array, split at cell `i`. -/
theorem flatMap_perm_getElem (f : α → List β) (l : List α) {i : ℕ} (h : i < l.length) :
    l.flatMap f ~ f l[i] ++ (l.eraseIdx i).flatMap f := by
  have := (getElem_cons_eraseIdx_perm h).symm.flatMap_right f
  simpa using this

/-- The entries of an array after cell `i` is written. -/
theorem flatMap_set_perm (f : α → List β) (l : List α) {i : ℕ} (h : i < l.length) (a : α) :
    (l.set i a).flatMap f ~ f a ++ (l.eraseIdx i).flatMap f := by
  have := (set_perm_cons_eraseIdx h a).flatMap_right f
  simpa using this

/-- A sum over the cells after cell `i` is written. -/
theorem sum_map_set_add (g : α → ℤ) (l : List α) {i : ℕ} (h : i < l.length) (a : α) :
    ((l.set i a).map g).sum = (l.map g).sum - g l[i] + g a := by
  have h1 : ((l.set i a).map g).sum = g a + ((l.eraseIdx i).map g).sum := by
    simpa using ((set_perm_cons_eraseIdx h a).map g).sum_eq
  have h2 : (l.map g).sum = g l[i] + ((l.eraseIdx i).map g).sum := by
    simpa using ((getElem_cons_eraseIdx_perm h).symm.map g).sum_eq
  omega

theorem mem_flatMap_getElem {f : α → List β} {l : List α} {b : β} (h : b ∈ l.flatMap f) :
    ∃ i, ∃ hi : i < l.length, b ∈ f l[i] := by
  obtain ⟨a, ha, hb⟩ := mem_flatMap.mp h
  obtain ⟨i, hi, rfl⟩ := getElem_of_mem ha
  exact ⟨i, hi, hb⟩

/-- Entries that name their own cell are pairwise different across the array
when they are within each cell. -/
theorem nodup_flatMap_of_home {f : α → List β} {home : β → ℕ} {l : List α} {k : ℕ}
    (hhome : ∀ i, ∀ hi : i < l.length, ∀ b ∈ f l[i], home b = k + i)
    (hcell : ∀ a ∈ l, (f a).Nodup) : (l.flatMap f).Nodup := by
  induction l generalizing k with
  | nil => simp
  | cons a l ih =>
    rw [flatMap_cons, nodup_append]
    refine ⟨hcell a (by simp), ih (k := k + 1) ?_ (fun a' ha => hcell a' (by simp [ha])), ?_⟩
    · intro i hi b hb
      have := hhome (i + 1) (by simpa using hi) b (by simpa using hb)
      omega
    · rintro b hb b' hb' rfl
      obtain ⟨i, hi, hbi⟩ := mem_flatMap_getElem hb'
      have h0 := hhome 0 (by simp) b (by simpa using hb)
      have h1 := hhome (i + 1) (by simpa using hi) b (by simpa using hbi)
      omega

end Dset.Lib
