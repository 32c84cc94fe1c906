import Mathlib.Algebra.GroupWithZero.Nat
import Mathlib.Data.List.TakeWhile
import Mathlib.Data.List.TakeDrop

/-! Strings in fixed `char` buffers: a buffer is the list of its bytes and the
string in it ends before the first zero byte. A buffer is zero padded when it
has a zero byte and nothing but zero bytes from there on; on zero padded buffers
of one length the comparison of the strings decides equality of the bytes. -/

namespace Dset.Lib

def bytes (s : String) : List UInt8 := s.toList.map fun c => UInt8.ofNat c.toNat

/-- The string in a buffer: the bytes before the first zero byte. -/
def cstr (b : List UInt8) : List UInt8 := b.takeWhile (· != 0)

def cstrTail (b : List UInt8) : List UInt8 := b.dropWhile (· != 0)

/-- `strcmp (a, b) == 0`: byte by byte up to the first zero byte of both. -/
def strcmpEq : List UInt8 → List UInt8 → Bool
  | a :: as, b :: bs => if a = b then (if a = 0 then true else strcmpEq as bs) else false
  | [], [] => true
  | _, _ => false

theorem strcmpEq_refl (a : List UInt8) : strcmpEq a a = true := by
  induction a with
  | nil => rfl
  | cons x xs ih => simp [strcmpEq, ih]

/-- The buffer holds a terminated string and zero bytes behind it. -/
def ZeroPadded (b : List UInt8) : Prop :=
  cstrTail b ≠ [] ∧ ∀ x ∈ cstrTail b, x = 0

instance (b : List UInt8) : Decidable (ZeroPadded b) :=
  @instDecidableAnd _ _ inferInstance (List.decidableBAll (· = 0) (cstrTail b))

/-- A string at the start of a zeroed buffer of `n` bytes. -/
def zeroPad (n : ℕ) (t : List UInt8) : List UInt8 := t ++ List.replicate (n - t.length) 0

/-- `strncpy`: the `n` bytes it writes, if it does not run past the end of the
source. -/
def strncpy (src : List UInt8) (n : ℕ) : Option (List UInt8) :=
  if n ≤ src.length ∨ 0 ∈ src.take n then some (zeroPad n (cstr (src.take n))) else none

theorem cstr_append_tail (b : List UInt8) : cstr b ++ cstrTail b = b :=
  List.takeWhile_append_dropWhile

theorem zero_notMem_cstr (b : List UInt8) : (0 : UInt8) ∉ cstr b := by
  intro h
  have := List.mem_takeWhile_imp h
  simp at this

theorem strcmpEq_cstr (a b : List UInt8) (ha : cstrTail a ≠ []) (hb : cstrTail b ≠ []) :
    strcmpEq a b = true ↔ cstr a = cstr b := by
  induction a generalizing b with
  | nil => exact absurd rfl ha
  | cons x xs ih =>
    cases b with
    | nil => exact absurd rfl hb
    | cons y ys =>
      by_cases hx : x = 0 <;> by_cases hy : y = 0
      · simp [strcmpEq, cstr, hx, hy]
      · simp [strcmpEq, cstr, hx, hy, Ne.symm hy]
      · simp [strcmpEq, cstr, hx, hy]
      · have ha' : cstrTail xs ≠ [] := by simpa [cstrTail, hx] using ha
        have hb' : cstrTail ys ≠ [] := by simpa [cstrTail, hy] using hb
        have := ih ys ha' hb'
        by_cases hxy : x = y
        · subst hxy
          simpa [strcmpEq, cstr, hx] using this
        · simp [strcmpEq, cstr, hx, hy, hxy]

theorem ZeroPadded.tail_eq {b : List UInt8} (h : ZeroPadded b) :
    cstrTail b = List.replicate (b.length - (cstr b).length) 0 := by
  have hl : (cstr b).length + (cstrTail b).length = b.length := by
    rw [← List.length_append, cstr_append_tail]
  rw [show b.length - (cstr b).length = (cstrTail b).length by omega]
  exact List.eq_replicate_of_mem h.2

theorem ZeroPadded.eq_zeroPad {b : List UInt8} (h : ZeroPadded b) :
    b = zeroPad b.length (cstr b) := by
  conv_lhs => rw [← cstr_append_tail b]
  rw [zeroPad, ← h.tail_eq]

private theorem ne_zero_of_mem {t : List UInt8} (h0 : (0 : UInt8) ∉ t) :
    ∀ a ∈ t, (a != 0) = true := by
  intro a ha
  have : a ≠ 0 := by rintro rfl; exact h0 ha
  simpa using this

theorem cstr_zeroPad {n : ℕ} {t : List UInt8} (h0 : (0 : UInt8) ∉ t) (hn : t.length < n) :
    cstr (zeroPad n t) = t := by
  unfold cstr zeroPad
  rw [List.takeWhile_append_of_pos (ne_zero_of_mem h0)]
  obtain ⟨m, hm⟩ := Nat.exists_eq_succ_of_ne_zero (show n - t.length ≠ 0 by omega)
  simp [hm, List.replicate_succ]

theorem cstr_eq_self {t : List UInt8} (h0 : (0 : UInt8) ∉ t) : cstr t = t := by
  unfold cstr
  rw [List.takeWhile_eq_self_iff]
  exact ne_zero_of_mem h0

theorem strncpy_of_notMem {t rest : List UInt8} (h0 : (0 : UInt8) ∉ t) :
    strncpy (t ++ rest) t.length = some t := by
  rw [strncpy, if_pos (.inl (by simp)), List.take_left' rfl, cstr_eq_self h0]
  simp [zeroPad]

theorem strncpy_terminated {t rest : List UInt8} (h0 : (0 : UInt8) ∉ t) :
    strncpy (t ++ 0 :: rest) (t.length + 1) = some (t ++ [0]) := by
  have htake : (t ++ 0 :: rest).take (t.length + 1) = t ++ [0] := by
    rw [List.take_append]
    simp
  have hcstr : cstr (t ++ [0]) = t := by
    unfold cstr
    rw [List.takeWhile_append_of_pos (ne_zero_of_mem h0)]
    simp
  rw [strncpy, if_pos (.inl (by simp)), htake, hcstr]
  simp [zeroPad]

theorem length_zeroPad {n : ℕ} {t : List UInt8} (hn : t.length ≤ n) :
    (zeroPad n t).length = n := by
  simp [zeroPad]; omega

theorem zeroPadded_zeroPad {n : ℕ} {t : List UInt8} (h0 : (0 : UInt8) ∉ t) (hn : t.length < n) :
    ZeroPadded (zeroPad n t) := by
  have htail : cstrTail (zeroPad n t) = List.replicate (n - t.length) 0 := by
    unfold cstrTail zeroPad
    rw [List.dropWhile_append_of_pos (ne_zero_of_mem h0)]
    obtain ⟨m, hm⟩ := Nat.exists_eq_succ_of_ne_zero (show n - t.length ≠ 0 by omega)
    simp [hm, List.replicate_succ]
  refine ⟨?_, ?_⟩
  · rw [htail]
    intro h
    have := congrArg List.length h
    simp at this
    omega
  · rw [htail]
    intro x hx
    exact List.eq_of_mem_replicate hx

/-- On zero padded buffers of one length, equal strings are equal buffers. -/
theorem strcmpEq_iff_eq {a b : List UInt8} (ha : ZeroPadded a) (hb : ZeroPadded b)
    (hlen : a.length = b.length) : strcmpEq a b = true ↔ a = b := by
  rw [strcmpEq_cstr a b ha.1 hb.1]
  constructor
  · intro h
    rw [ha.eq_zeroPad, hb.eq_zeroPad, h, hlen]
  · rintro rfl
    rfl

end Dset.Lib
