import Mathlib.Data.List.Nodup

/-! A container is scanned place by place while its keys come and go. Every key has a home, and
the scan reads each place once, in order: no key is read twice, and the keys read so far have
their homes in front of the cursor. -/

namespace Dset.Lib

variable {κ : Type*} {home : κ → ℕ} {cursor : ℕ} {keys : List κ}

/-- The keys that a scan has read in front of its cursor. -/
structure Scanned (home : κ → ℕ) (cursor : ℕ) (keys : List κ) : Prop where
  nodup : keys.Nodup
  home_lt : ∀ k ∈ keys, home k < cursor

namespace Scanned

theorem start : Scanned home 0 [] := ⟨List.nodup_nil, fun _ hk => absurd hk List.not_mem_nil⟩

theorem read (h : Scanned home cursor keys) {new : List κ} (hnodup : new.Nodup)
    (hhome : ∀ k ∈ new, home k = cursor) : Scanned home (cursor + 1) (keys ++ new) where
  nodup := by
    apply h.nodup.append hnodup
    intro k hk hnew
    exact absurd (hhome k hnew) (Nat.ne_of_lt (h.home_lt k hk))
  home_lt k hk := by
    rcases List.mem_append.mp hk with hk | hk
    · exact Nat.lt_succ_of_lt (h.home_lt k hk)
    · exact Nat.lt_succ_of_le (Nat.le_of_eq (hhome k hk))

end Scanned

/-- A key that is read in portions, with no key read twice, is in one portion only. -/
theorem countP_mem_of_nodup {α : Type*} {f : α → List κ} {k : κ} [∀ a, Decidable (k ∈ f a)]
    {l : List α} (h : (l.flatMap f).Nodup) (hk : k ∈ l.flatMap f) :
    l.countP (fun a => decide (k ∈ f a)) = 1 := by
  induction l with
  | nil => cases hk
  | cons a l ih =>
    rw [List.flatMap_cons] at h hk
    obtain ⟨-, hl, hdisjoint⟩ := List.nodup_append'.mp h
    by_cases ha : k ∈ f a
    · have hnone : l.countP (fun a => decide (k ∈ f a)) = 0 := by
        rw [List.countP_eq_zero]
        intro a' ha' hk'
        exact hdisjoint ha (List.mem_flatMap.mpr ⟨a', ha', of_decide_eq_true hk'⟩)
      rw [List.countP_cons, hnone, if_pos (decide_eq_true ha)]
    · rw [List.countP_cons, if_neg (by simpa using ha), Nat.add_zero]
      exact ih hl ((List.mem_append.mp hk).resolve_left ha)

end Dset.Lib
