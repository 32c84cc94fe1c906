import Dset.Lib.CString

/-! Strings behind one another in a buffer, each with a zero byte in front, and found again by
their offsets. What is written behind the last string becomes a part of it. -/

namespace Dset.Lib

/-- The strings, each with a zero byte in front. -/
def pack (es : List (List UInt8)) : List UInt8 := es.flatMap (0 :: ·)

/-- Where the strings start when `n` bytes precede them. -/
def offsets : ℕ → List (List UInt8) → List ℕ
  | _, [] => []
  | n, e :: es => (n + 1) :: offsets (n + 1 + e.length) es

theorem pack_cons (e : List UInt8) (es : List (List UInt8)) :
    pack (e :: es) = 0 :: e ++ pack es := rfl

theorem pack_concat (es : List (List UInt8)) (e : List UInt8) :
    pack (es ++ [e]) = pack es ++ 0 :: e := by
  simp [pack]

theorem offsets_concat (n : ℕ) (es : List (List UInt8)) (e : List UInt8) :
    offsets n (es ++ [e]) = offsets n es ++ [n + (pack es).length + 1] := by
  induction es generalizing n with
  | nil => rfl
  | cons e' es ih =>
    rw [List.cons_append, offsets, ih, offsets, List.cons_append, pack_cons, List.length_append,
      List.length_cons]
    congr 3
    omega

/-- Only the last string grows, and all start where they did. -/
theorem pack_grow (es : List (List UInt8)) (e t : List UInt8) :
    pack (es ++ [e ++ t]) = pack (es ++ [e]) ++ t := by
  rw [pack_concat, pack_concat, List.append_assoc, List.cons_append]

theorem offsets_grow (n : ℕ) (es : List (List UInt8)) (e t : List UInt8) :
    offsets n (es ++ [e ++ t]) = offsets n (es ++ [e]) := by
  rw [offsets_concat, offsets_concat]

theorem cstr_append_pack {e : List UInt8} (h0 : (0 : UInt8) ∉ e) (es : List (List UInt8)) :
    cstr (e ++ pack es) = e := by
  have hne : ∀ a ∈ e, (a != 0) = true := fun a ha => bne_iff_ne.mpr fun h => h0 (h ▸ ha)
  unfold cstr
  rw [List.takeWhile_append_of_pos hne]
  cases es with
  | nil => exact List.append_nil e
  | cons e' es =>
    rw [pack_cons, List.cons_append, List.takeWhile_cons_of_neg (by decide), List.append_nil]

/-- The strings are found at their offsets. -/
theorem cstr_at_offsets (h : List UInt8) {es : List (List UInt8)} (h0 : ∀ e ∈ es, (0 : UInt8) ∉ e) :
    (offsets h.length es).map (fun n => cstr ((h ++ pack es).drop n)) = es := by
  induction es generalizing h with
  | nil => rfl
  | cons e es ih =>
    -- the strings behind the first one are those of a longer buffer
    have hsplit : h ++ pack (e :: es) = (h ++ 0 :: e) ++ pack es := by
      rw [pack_cons, List.append_assoc]
    have hrest := ih (h ++ 0 :: e) fun e' he' => h0 e' (List.mem_cons_of_mem _ he')
    have hlen : (h ++ 0 :: e).length = h.length + 1 + e.length := by
      rw [List.length_append, List.length_cons]
      omega
    rw [hlen] at hrest
    rw [offsets, List.map_cons, hsplit, hrest]
    congr 1
    have hfront : (h ++ 0 :: e) ++ pack es = (h ++ [0]) ++ (e ++ pack es) := by simp
    rw [hfront, List.drop_left' (by simp)]
    exact cstr_append_pack (h0 e List.mem_cons_self) es

end Dset.Lib
