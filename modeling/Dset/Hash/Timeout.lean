import Dset.Hash.Types
import Dset.Lib.WrapClock

/-! Timeouts (`domain_set.h`, `domain_set_core.c`): seconds of a request, ticks
of the machine clock and deadlines stored in a record, `DSET_ELEM_PERMANENT`
being the zero word. The requested deadline of an accepted timeout is
`timeout * HZ` ticks away, one tick less when the sum hits zero. -/

namespace Dset.Hash

open Dset.Lib

/-- `DSET_MAX_TIMEOUT`: `(UINT_MAX >> 1) / MSEC_PER_SEC`. -/
def dsetMaxTimeout : ℕ := ((2 ^ 32 - 1) >>> 1) / 1000

/-- `domain_set_timeout_uget`, of the value in host order. -/
def domainSetTimeoutUget (timeout : ℕ) : ℕ :=
  if timeout > dsetMaxTimeout then dsetMaxTimeout else timeout

section
variable (A : Arch)

/-- `MAX_JIFFY_OFFSET`: `(LONG_MAX >> 1) - 1`. -/
def maxJiffyOffset : ℕ := (2 ^ (A.longBits - 1) - 1) / 2 - 1

/-- `msecs_to_jiffies` for a tick rate that divides 1000. -/
def msecsToJiffies (m : ℕ) : ℕ :=
  if 2 ^ 31 ≤ m then maxJiffyOffset A else (m + 1000 / A.hz - 1) / (1000 / A.hz)

/-- `jiffies_to_msecs`: an `unsigned int`. -/
def jiffiesToMsecs (j : BitVec A.longBits) : ℕ := 1000 / A.hz * j.toNat % 2 ^ 32

def jiffiesAt (now : ℕ) : BitVec A.longBits := BitVec.ofNat A.longBits now

end

variable {A : Arch}

def domainSetTimeoutExpired (jiffies timeout : BitVec A.longBits) : Bool :=
  timeout != 0 && wrapBefore timeout jiffies

/-- `domain_set_timeout_set`; the product is an `unsigned int`. -/
def domainSetTimeoutSet (jiffies : BitVec A.longBits) (value : ℕ) : BitVec A.longBits :=
  if value = 0 then 0
  else
    let t := BitVec.ofNat A.longBits (msecsToJiffies A (value * 1000 % 2 ^ 32)) + jiffies
    if t = 0 then t - 1 else t

def domainSetTimeoutGet (jiffies timeout : BitVec A.longBits) : ℕ :=
  if timeout = 0 then 0
  else
    let t := jiffiesToMsecs A (timeout - jiffies) / 1000
    if t = 0 then 1 else t

/-- The deadline an accepted timeout of `v` seconds asks for at tick `now`. -/
def requestedDeadline (A : Arch) (now v : ℕ) : Deadline :=
  if v = 0 then ⊤
  else if (now + v * A.hz) % 2 ^ A.longBits = 0 then WithTop.some (now + v * A.hz - 1)
  else WithTop.some (now + v * A.hz)

theorem Arch.longBits_pos (A : Arch) : 0 < A.longBits := by
  rcases A.longBits_eq with h | h <;> omega

theorem Arch.hz_pos (A : Arch) : 0 < A.hz :=
  Nat.pos_of_dvd_of_pos A.hz_dvd (by omega)

theorem Arch.hz_le (A : Arch) : A.hz ≤ 1000 := Nat.le_of_dvd (by omega) A.hz_dvd

theorem Arch.half_le (A : Arch) : 2 ^ 31 ≤ 2 ^ (A.longBits - 1) := by
  apply Nat.pow_le_pow_right (by omega)
  rcases A.longBits_eq with h | h <;> omega

theorem domainSetTimeoutUget_eq (t : ℕ) : domainSetTimeoutUget t = min t dsetMaxTimeout := by
  unfold domainSetTimeoutUget
  split <;> omega

theorem domainSetTimeoutUget_le (t : ℕ) : domainSetTimeoutUget t ≤ dsetMaxTimeout := by
  rw [domainSetTimeoutUget_eq]
  exact min_le_right _ _

theorem dsetMaxTimeout_eq : dsetMaxTimeout = 2147483 := by decide

theorem msecsToJiffies_seconds (A : Arch) {v : ℕ} (hv : v ≤ dsetMaxTimeout) :
    msecsToJiffies A (v * 1000 % 2 ^ 32) = v * A.hz := by
  rw [dsetMaxTimeout_eq] at hv
  obtain ⟨c, hc⟩ := A.hz_dvd
  have hz := A.hz_pos
  have hc0 : 0 < c := by
    rcases Nat.eq_zero_or_pos c with rfl | h
    · simp at hc
    · exact h
  have hdiv : 1000 / A.hz = c := by rw [hc, Nat.mul_div_cancel_left _ hz]
  have hv' : v * 1000 % 2 ^ 32 = v * 1000 := Nat.mod_eq_of_lt (by omega)
  rw [msecsToJiffies, hv', if_neg (by omega), hdiv, hc, ← Nat.mul_assoc]
  rw [show v * A.hz * c + c - 1 = (c - 1) + c * (v * A.hz) by
    rw [Nat.mul_comm c]; omega]
  rw [Nat.add_mul_div_left _ _ hc0, Nat.div_eq_of_lt (by omega), Nat.zero_add]

/-- `v * HZ` ticks stay below half of the range of either width. -/
theorem ticks_lt (A : Arch) {v : ℕ} (hv : v ≤ dsetMaxTimeout) : v * A.hz < 2 ^ 31 := by
  rw [dsetMaxTimeout_eq] at hv
  have := Nat.mul_le_mul hv A.hz_le
  omega

theorem requestedDeadline_le {now v : ℕ} (hv : v ≤ dsetMaxTimeout) (n : ℕ)
    (h : requestedDeadline A now v = WithTop.some n) : now ≤ n ∧ n < now + 2 ^ 31 := by
  have ht := ticks_lt A hv
  unfold requestedDeadline at h
  split at h
  · exact absurd h (WithTop.top_ne_coe)
  · rename_i h0
    have hpos : 0 < v * A.hz := Nat.mul_pos (Nat.pos_of_ne_zero h0) A.hz_pos
    split at h <;> have := WithTop.coe_injective h <;> omega

theorem domainSetTimeoutSet_encodes {now v : ℕ} (hv : v ≤ dsetMaxTimeout) :
    Encodes (domainSetTimeoutSet (jiffiesAt A now) v) (requestedDeadline A now v) := by
  unfold domainSetTimeoutSet requestedDeadline
  by_cases h0 : v = 0
  · simp [h0, Encodes]
  have hsum : BitVec.ofNat A.longBits (msecsToJiffies A (v * 1000 % 2 ^ 32)) + jiffiesAt A now =
      BitVec.ofNat A.longBits (now + v * A.hz) := by
    rw [msecsToJiffies_seconds A hv, jiffiesAt, ← BitVec.ofNat_add, Nat.add_comm]
  have hzero : BitVec.ofNat A.longBits (now + v * A.hz) = 0 ↔
      (now + v * A.hz) % 2 ^ A.longBits = 0 := by
    rw [← BitVec.toNat_inj, BitVec.toNat_ofNat]
    simp
  simp only [h0, if_false, hsum, hzero]
  have hpos : 0 < v * A.hz := Nat.mul_pos (Nat.pos_of_ne_zero h0) A.hz_pos
  split
  · rename_i hb
    have hsub : BitVec.ofNat A.longBits (now + v * A.hz) - 1 =
        BitVec.ofNat A.longBits (now + v * A.hz - 1) := by
      conv_lhs => rw [show now + v * A.hz = (now + v * A.hz - 1) + 1 by omega, BitVec.ofNat_add]
      simp
    refine ⟨hsub, ?_⟩
    rw [hzero.mpr hb, zero_sub]
    intro h
    have hw := A.longBits_pos
    have := congrArg BitVec.toNat h
    rcases A.longBits_eq with hl | hl <;> simp [BitVec.toNat_neg, hl] at this
  · rename_i hb
    exact ⟨rfl, fun h => hb (hzero.mp h)⟩

/-- The stored word of a deadline set within half the range is expired at `now`
exactly when the deadline has passed. -/
theorem domainSetTimeoutExpired_iff {t : BitVec A.longBits} {d : Deadline} {now : ℕ}
    (h : Encodes t d) (h1 : ∀ n : ℕ, d = WithTop.some n → n < now + 2 ^ 31)
    (h2 : ∀ n : ℕ, d = WithTop.some n → now ≤ n + 2 ^ (A.longBits - 1)) :
    domainSetTimeoutExpired (jiffiesAt A now) t = true ↔ d.passed now := by
  rw [← h.passed_iff A.longBits_pos (fun n hn => (h1 n hn).trans_le ?_) h2]
  · simp [domainSetTimeoutExpired, jiffiesAt]
  · exact Nat.add_le_add_left A.half_le now

end Dset.Hash
