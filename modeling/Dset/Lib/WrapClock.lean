import Mathlib.Tactic.TypeStar
import Mathlib.Data.BitVec
import Mathlib.Order.WithBot

/-! Deadlines against a tick counter that wraps. A tick is a natural number of
which the machine keeps the lowest `w` bits; two ticks less than half the range
apart compare as the sign of the difference of their low bits. A deadline is a
tick or never, and an encoding of it keeps the value zero for never. -/

namespace Dset.Lib

variable {w : ℕ}

/-- `a` lies before `now`: the difference read as signed is negative. -/
def wrapBefore (a now : BitVec w) : Bool := (a - now).msb

theorem ofNat_sub_ofNat_add (a k : ℕ) :
    BitVec.ofNat w (a + k) - BitVec.ofNat w a = BitVec.ofNat w k := by
  rw [BitVec.ofNat_add, BitVec.add_comm, BitVec.add_sub_cancel]

theorem wrapBefore_ofNat {d now : ℕ} (hw : 0 < w) (h1 : d < now + 2 ^ (w - 1))
    (h2 : now ≤ d + 2 ^ (w - 1)) :
    wrapBefore (BitVec.ofNat w d) (BitVec.ofNat w now) = true ↔ d < now := by
  have hpow : 2 ^ w = 2 * 2 ^ (w - 1) := by
    rw [← Nat.pow_succ']; congr 1; omega
  unfold wrapBefore
  rw [BitVec.msb_eq_decide, decide_eq_true_iff]
  rcases Nat.lt_or_ge d now with hlt | hge
  · obtain ⟨k, rfl⟩ := Nat.exists_eq_add_of_lt hlt
    have : BitVec.ofNat w d - BitVec.ofNat w (d + k + 1) = -BitVec.ofNat w (k + 1) := by
      rw [← ofNat_sub_ofNat_add d (k + 1), neg_sub, Nat.add_assoc]
    rw [this, BitVec.toNat_neg, BitVec.toNat_ofNat, Nat.mod_eq_of_lt (by omega : k + 1 < 2 ^ w),
      Nat.mod_eq_of_lt (by omega)]
    constructor <;> omega
  · obtain ⟨k, rfl⟩ := Nat.exists_eq_add_of_le hge
    rw [ofNat_sub_ofNat_add, BitVec.toNat_ofNat, Nat.mod_eq_of_lt (by omega)]
    constructor <;> omega

abbrev Deadline := WithTop ℕ

def Deadline.passed (d : Deadline) (now : ℕ) : Prop := d < WithTop.some now

/-- The machine word `t` stands for the deadline `d`. -/
def Encodes (t : BitVec w) : Deadline → Prop
  | ⊤ => t = 0
  | WithTop.some d => t = BitVec.ofNat w d ∧ t ≠ 0

instance (d : Deadline) (now : ℕ) : Decidable (d.passed now) :=
  inferInstanceAs (Decidable (d < WithTop.some now))

theorem Deadline.top_not_passed (now : ℕ) : ¬Deadline.passed ⊤ now := not_top_lt

theorem Deadline.coe_passed {n now : ℕ} : Deadline.passed (WithTop.some n) now ↔ n < now :=
  WithTop.coe_lt_coe

theorem Deadline.passed.mono {d : Deadline} {now now' : ℕ} (h : d.passed now) (hle : now ≤ now') :
    d.passed now' := lt_of_lt_of_le h (WithTop.coe_le_coe.mpr hle)

/-- The deadline of a word, counted from a tick before it. -/
def decodeDeadline (start : ℕ) (t : BitVec w) : Deadline :=
  if t = 0 then ⊤ else WithTop.some (start + (t - BitVec.ofNat w start).toNat)

/-- One word stands for one deadline in a range of the clock. -/
theorem Encodes.decode_eq {t : BitVec w} {d : Deadline} {start : ℕ} (h : Encodes t d)
    (hd : ∀ n : ℕ, d = WithTop.some n → start ≤ n ∧ n < start + 2 ^ w) :
    decodeDeadline start t = d := by
  unfold decodeDeadline
  induction d using WithTop.recTopCoe with
  | top =>
    have ht : t = 0 := h
    rw [if_pos ht]
  | coe n =>
    obtain ⟨ht, hne⟩ : t = BitVec.ofNat w n ∧ t ≠ 0 := h
    obtain ⟨h1, h2⟩ := hd n rfl
    obtain ⟨k, rfl⟩ := Nat.exists_eq_add_of_le h1
    rw [if_neg hne, ht, ofNat_sub_ofNat_add, BitVec.toNat_ofNat, Nat.mod_eq_of_lt (by omega)]

/-- The word of an encoded deadline compares with the clock as the deadline
does, as long as both stay within half the range. -/
theorem Encodes.passed_iff {t : BitVec w} {d : Deadline} {now : ℕ} (h : Encodes t d)
    (hw : 0 < w) (h1 : ∀ n : ℕ, d = WithTop.some n → n < now + 2 ^ (w - 1))
    (h2 : ∀ n : ℕ, d = WithTop.some n → now ≤ n + 2 ^ (w - 1)) :
    (t ≠ 0 ∧ wrapBefore t (BitVec.ofNat w now) = true) ↔ d.passed now := by
  induction d using WithTop.recTopCoe with
  | top =>
    have ht : t = 0 := h
    simp [ht, Deadline.passed]
  | coe n =>
    obtain ⟨rfl, hne⟩ : t = BitVec.ofNat w n ∧ t ≠ 0 := h
    rw [wrapBefore_ofNat hw (h1 n rfl) (h2 n rfl), Deadline.passed, WithTop.coe_lt_coe]
    exact and_iff_right hne

end Dset.Lib
