import Mathlib.Data.List.Basic

/-! Names made of labels: on the wire every label behind its length, as text the
labels with dots between them. The suffixes of a name at its label boundaries are
the texts behind the dots, from the last dot to the first, and the whole name. -/

namespace Dset.Lib

def dot : UInt8 := 46

/-- The labels, each behind its length. -/
def wire (ls : List (List UInt8)) : List UInt8 := ls.flatMap fun l => UInt8.ofNat l.length :: l

def dots (ls : List (List UInt8)) : List UInt8 := ls.flatMap fun l => l ++ [dot]

def dotted : List (List UInt8) → List UInt8
  | [] => []
  | [l] => l
  | l :: ls => l ++ dot :: dotted ls

/-- The nonempty suffixes, the shortest first. -/
def suffixes {α : Type*} : List α → List (List α)
  | [] => []
  | a :: l => suffixes l ++ [a :: l]

/-- The texts behind the dots below position `i`, the last dot first, and the
whole text. -/
def suffixTexts (t : List UInt8) : ℕ → List (List UInt8)
  | 0 => [t]
  | i + 1 => if t[i]? = some dot then t.drop (i + 1) :: suffixTexts t i else suffixTexts t i

theorem mem_suffixes {α : Type*} {s l : List α} : s ∈ suffixes l ↔ s <:+ l ∧ s ≠ [] := by
  induction l with
  | nil => simp [suffixes]
  | cons a l ih =>
    rw [suffixes, List.mem_append, ih, List.mem_singleton, List.suffix_cons_iff]
    constructor
    · rintro (⟨h, hne⟩ | rfl)
      · exact ⟨.inr h, hne⟩
      · exact ⟨.inl rfl, by simp⟩
    · rintro ⟨rfl | h, hne⟩
      · exact .inr rfl
      · exact .inl ⟨h, hne⟩

theorem dots_eq {ls : List (List UInt8)} (h : ls ≠ []) : dots ls = dotted ls ++ [dot] := by
  induction ls with
  | nil => exact absurd rfl h
  | cons l ls ih =>
    cases ls with
    | nil => simp [dots, dotted]
    | cons l' ls => simp only [dots, dotted] at ih ⊢; simp [ih]

theorem suffixTexts_of_notMem {t : List UInt8} {i : ℕ} (h : dot ∉ t.take i) :
    suffixTexts t i = [t] := by
  induction i with
  | zero => rfl
  | succ i ih =>
    rw [List.take_add_one, List.mem_append, not_or] at h
    rw [suffixTexts, if_neg, ih h.1]
    intro hd
    exact h.2 (by simp [hd])

theorem suffixTexts_append {l t : List UInt8} (hl : dot ∉ l) (i : ℕ) :
    suffixTexts (l ++ dot :: t) (l.length + 1 + i) = suffixTexts t i ++ [l ++ dot :: t] := by
  induction i with
  | zero =>
    have hget : (l ++ dot :: t)[l.length]? = some dot := by simp
    have hdrop : (l ++ dot :: t).drop (l.length + 1) = t := by
      rw [← List.drop_drop]
      simp
    show (if (l ++ dot :: t)[l.length]? = some dot then
      (l ++ dot :: t).drop (l.length + 1) :: suffixTexts (l ++ dot :: t) l.length else _) = _
    rw [if_pos hget, hdrop, suffixTexts_of_notMem (by simpa using hl)]
    rfl
  | succ i ih =>
    have hget : (l ++ dot :: t)[l.length + 1 + i]? = t[i]? := by
      rw [Nat.add_assoc, List.getElem?_append_right (Nat.le_add_right _ _), Nat.add_sub_cancel_left,
        Nat.add_comm 1 i, List.getElem?_cons_succ]
    have hdrop : (l ++ dot :: t).drop (l.length + 1 + i + 1) = t.drop (i + 1) := by
      rw [show l.length + 1 + i + 1 = l.length + (i + 1 + 1) by omega, ← List.drop_drop]
      simp
    rw [← Nat.add_assoc, suffixTexts, suffixTexts, hget, hdrop, ih]
    split <;> simp

/-- The texts behind the dots of a name are the texts of its suffixes. -/
theorem suffixTexts_dotted {ls : List (List UInt8)} (h : ls ≠ []) (hls : ∀ l ∈ ls, dot ∉ l) :
    suffixTexts (dotted ls) (dotted ls).length = (suffixes ls).map dotted := by
  induction ls with
  | nil => exact absurd rfl h
  | cons l ls ih =>
    cases ls with
    | nil =>
      rw [dotted, suffixTexts_of_notMem (by simpa using hls l (by simp))]
      rfl
    | cons l' ls =>
      have := ih (by simp) (fun k hk => hls k (List.mem_cons_of_mem _ hk))
      have htext : dotted (l :: l' :: ls) = l ++ dot :: dotted (l' :: ls) := rfl
      rw [htext, show (l ++ dot :: dotted (l' :: ls)).length =
        l.length + 1 + (dotted (l' :: ls)).length by simp; omega,
        suffixTexts_append (hls l (by simp)), this]
      simp [suffixes, dotted]

theorem length_dotted_le {u ls : List (List UInt8)} (h : u <:+ ls) :
    (dotted u).length ≤ (dotted ls).length := by
  induction ls with
  | nil =>
    obtain rfl := List.suffix_nil.mp h
    exact Nat.le_refl _
  | cons l ls ih =>
    rcases List.suffix_cons_iff.mp h with rfl | h
    · exact Nat.le_refl _
    · refine Nat.le_trans (ih h) ?_
      cases ls with
      | nil => simp [dotted]
      | cons l' ls => simp [dotted]; omega

theorem notMem_dotted {ls : List (List UInt8)} {b : UInt8} (hb : b ≠ dot)
    (hls : ∀ l ∈ ls, b ∉ l) : b ∉ dotted ls := by
  induction ls with
  | nil => simp [dotted]
  | cons l ls ih =>
    cases ls with
    | nil => simpa [dotted] using hls l (by simp)
    | cons l' ls =>
      have := ih fun k hk => hls k (List.mem_cons_of_mem _ hk)
      simp [dotted, hls l (by simp), hb, this]

end Dset.Lib
