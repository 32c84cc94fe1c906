import Mathlib.Algebra.Order.Ring.Nat
import Mathlib.Data.List.GetD

/-! Bytes in memory. A write of some bytes at an offset is read back from there, and changes
nothing that is read from a place apart from it. Numbers lie with the low byte first, or as a
machine has them, which network order is turned into and back. -/

namespace Dset.Lib

/-- The number whose bytes these are, the low byte first. -/
def leNat : List UInt8 → ℕ
  | [] => 0
  | b :: bs => b.toNat + 256 * leNat bs

/-- The `n` low bytes of a number, the low byte first. -/
def leBytes : ℕ → ℕ → List UInt8
  | 0, _ => []
  | n + 1, v => UInt8.ofNat v :: leBytes n (v / 256)

@[simp] theorem length_leBytes (n v : ℕ) : (leBytes n v).length = n := by
  induction n generalizing v with
  | zero => rfl
  | succ n ih => rw [leBytes, List.length_cons, ih]

/-- Only the low bytes of a number are kept. -/
theorem leNat_leBytes (n v : ℕ) : leNat (leBytes n v) = v % 256 ^ n := by
  induction n generalizing v with
  | zero => rw [pow_zero, Nat.mod_one]; rfl
  | succ n ih =>
    have hlow : (UInt8.ofNat v).toNat = v % 256 := UInt8.toNat_ofNat'
    rw [leBytes, leNat, ih, hlow, pow_succ', Nat.mod_mul]

theorem leNat_leBytes_of_lt {n v : ℕ} (h : v < 256 ^ n) : leNat (leBytes n v) = v := by
  rw [leNat_leBytes, Nat.mod_eq_of_lt h]

theorem leNat_lt (bs : List UInt8) : leNat bs < 256 ^ bs.length := by
  induction bs with
  | nil => exact Nat.one_pos
  | cons b bs ih =>
    have hb : b.toNat < 256 := b.toNat_lt
    rw [leNat, List.length_cons, pow_succ]
    omega

theorem leBytes_leNat (bs : List UInt8) : leBytes bs.length (leNat bs) = bs := by
  induction bs with
  | nil => rfl
  | cons b bs ih =>
    have hb : b.toNat < 256 := b.toNat_lt
    have hlow : UInt8.ofNat (b.toNat + 256 * leNat bs) = b := by
      apply UInt8.toNat_inj.mp
      rw [UInt8.toNat_ofNat']
      omega
    have hhigh : (b.toNat + 256 * leNat bs) / 256 = leNat bs := by omega
    rw [List.length_cons, leBytes, leNat, hlow, hhigh, ih]

/-- Bytes by their offsets. -/
abbrev Memory := ℕ → UInt8

namespace Memory

variable (m : Memory)

def read (off n : ℕ) : List UInt8 := (List.range n).map fun i => m (off + i)

def write (off : ℕ) (bs : List UInt8) : Memory :=
  fun i => if off ≤ i then bs.getD (i - off) (m i) else m i

@[simp] theorem length_read (off n : ℕ) : (m.read off n).length = n := by
  rw [read, List.length_map, List.length_range]

theorem write_apply {off i : ℕ} {bs : List UInt8} (h : i < bs.length) :
    m.write off bs (off + i) = bs[i] := by
  rw [write, if_pos (Nat.le_add_right _ _), Nat.add_sub_cancel_left, List.getD_eq_getElem _ _ h]

theorem write_apply_of_apart {off i : ℕ} {bs : List UInt8} (h : i < off ∨ off + bs.length ≤ i) :
    m.write off bs i = m i := by
  unfold write
  split
  · exact List.getD_eq_default _ _ (by omega)
  · rfl

theorem read_write_self (off : ℕ) (bs : List UInt8) :
    (m.write off bs).read off bs.length = bs := by
  apply List.ext_getElem
  · exact length_read _ _ _
  · intro i hi hi'
    simp only [read, List.getElem_map, List.getElem_range]
    exact write_apply m hi'

theorem read_write_of_apart {off off' n : ℕ} {bs : List UInt8}
    (h : off + n ≤ off' ∨ off' + bs.length ≤ off) :
    (m.write off' bs).read off n = m.read off n := by
  apply List.map_congr_left
  intro i hi
  have hi := List.mem_range.mp hi
  exact write_apply_of_apart m (by omega)

end Memory

/-- The byte order of a machine. -/
inductive Endian where
  | little
  | big
  deriving DecidableEq

namespace Endian

variable (e : Endian)

def store (n v : ℕ) : List UInt8 :=
  match e with
  | .little => leBytes n v
  | .big => (leBytes n v).reverse

def load (bs : List UInt8) : ℕ :=
  match e with
  | .little => leNat bs
  | .big => leNat bs.reverse

def htonl (v : ℕ) : ℕ := e.load (Endian.big.store 4 v)

def ntohl (v : ℕ) : ℕ := Endian.big.load (e.store 4 v)

theorem length_store (n v : ℕ) : (e.store n v).length = n := by
  cases e with
  | little => exact length_leBytes n v
  | big => exact (List.length_reverse).trans (length_leBytes n v)

theorem load_store {n v : ℕ} (h : v < 256 ^ n) : e.load (e.store n v) = v := by
  cases e with
  | little => exact leNat_leBytes_of_lt h
  | big =>
    show leNat (leBytes n v).reverse.reverse = v
    rw [List.reverse_reverse, leNat_leBytes_of_lt h]

theorem store_load (bs : List UInt8) : e.store bs.length (e.load bs) = bs := by
  cases e with
  | little => exact leBytes_leNat bs
  | big =>
    show (leBytes bs.length (leNat bs.reverse)).reverse = bs
    rw [← List.length_reverse, leBytes_leNat, List.reverse_reverse]

/-- A number comes back from network order. -/
theorem ntohl_htonl {v : ℕ} (h : v < 2 ^ 32) : e.ntohl (e.htonl v) = v := by
  have hstore := e.store_load (Endian.big.store 4 v)
  rw [length_store] at hstore
  unfold ntohl htonl
  rw [hstore]
  exact load_store .big (h.trans_eq (by rfl))

theorem htonl_ne_zero {v : ℕ} (h : v < 2 ^ 32) (hne : v ≠ 0) : e.htonl v ≠ 0 := by
  intro hzero
  apply hne
  rw [← e.ntohl_htonl h, hzero]
  cases e <;> decide

end Endian

end Dset.Lib
