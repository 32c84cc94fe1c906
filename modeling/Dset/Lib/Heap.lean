import Mathlib.Data.List.Perm.Basic
import Mathlib.Data.List.Range

/-! An allocator as its callers see it: fresh addresses go out and are handed back.
A caller that starts at heap `h` and is at heap `h'` holds the blocks it was given
and has not handed back; that every other block went back once is one equation
between lists, and it survives each call of the allocator. -/

namespace Dset.Lib

open List

/-- The next fresh address and the addresses handed back so far. -/
structure Heap where
  next : ℕ
  freed : List ℕ

namespace Heap

def alloc (h : Heap) : ℕ × Heap := (h.next, { h with next := h.next + 1 })

def free (h : Heap) (p : ℕ) : Heap := { h with freed := p :: h.freed }

/-- Between `h` and `h'` the blocks `held` were allocated and kept, and all others
allocated on the way were handed back, each once. -/
structure Holds (h h' : Heap) (held : List ℕ) : Prop where
  le : h.next ≤ h'.next
  blocks : held ++ h'.freed ~ range' h.next (h'.next - h.next) ++ h.freed

variable {h h' : Heap} {p : ℕ} {held held' ps : List ℕ}

theorem Holds.refl (h : Heap) : h.Holds h [] := ⟨le_rfl, by simp⟩

theorem Holds.perm (hh : h.Holds h' held) (hp : held' ~ held) : h.Holds h' held' :=
  ⟨hh.le, (hp.append_right _).trans hh.blocks⟩

theorem Holds.alloc (hh : h.Holds h' held) : h.Holds h'.alloc.2 (h'.alloc.1 :: held) where
  le := hh.le.trans (Nat.le_succ _)
  blocks := by
    have hle := hh.le
    have hr : range' h.next (h'.next + 1 - h.next) =
        range' h.next (h'.next - h.next) ++ [h'.next] := by
      rw [show h'.next + 1 - h.next = h'.next - h.next + 1 by omega, range'_concat, Nat.one_mul,
        Nat.add_sub_cancel' hle]
    show h'.next :: held ++ h'.freed ~ range' h.next (h'.next + 1 - h.next) ++ h.freed
    rw [hr, append_assoc, singleton_append]
    exact (hh.blocks.cons _).trans perm_middle.symm

theorem Holds.free (hh : h.Holds h' (p :: held)) : h.Holds (h'.free p) held where
  le := hh.le
  blocks := perm_middle.trans hh.blocks

/-- A block from before, handed back on both sides. -/
theorem Holds.freeBefore (hh : h.Holds h' held) (p : ℕ) : (h.free p).Holds (h'.free p) held where
  le := hh.le
  blocks := (perm_middle.trans (hh.blocks.cons p)).trans perm_middle.symm

theorem Holds.freeAll (hh : h.Holds h' (ps ++ held)) : h.Holds (ps.foldl Heap.free h') held := by
  induction ps generalizing h' with
  | nil => exact hh
  | cons p ps ih => exact ih (Holds.free hh)

end Heap

end Dset.Lib
