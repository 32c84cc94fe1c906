import Dset.Hash.Timeout
import Mathlib.Tactic.Ring

/-! How long an accepted timeout lasts, for every width of `unsigned long`, tick rate and value
of `jiffies`. The element lives up to the tick of its deadline, which is one earlier when the
sum hits the word that stands for permanent, and is seen as expired for half the range of the
counter behind it. -/

namespace Dset.Hash

open Dset.Lib

variable {A : Arch}

/-- The last tick at which an element stored at `now` for `v` seconds is alive. -/
def lastTick (A : Arch) (now v : ℕ) : ℕ :=
  if (now + v * A.hz) % 2 ^ A.longBits = 0 then now + v * A.hz - 1 else now + v * A.hz

theorem requestedDeadline_of_pos {now v : ℕ} (hv : 0 < v) :
    requestedDeadline A now v = WithTop.some (lastTick A now v) := by
  unfold requestedDeadline lastTick
  rw [if_neg hv.ne']
  split <;> rfl

theorem lastTick_bounds {now v : ℕ} (hv : 0 < v) :
    now ≤ lastTick A now v ∧ lastTick A now v ≤ now + v * A.hz := by
  have hpos : 0 < v * A.hz := Nat.mul_pos hv A.hz_pos
  unfold lastTick
  split <;> omega

/-- Only a timeout of zero is stored as permanent. -/
theorem domainSetTimeoutSet_eq_zero_iff {now v : ℕ} (hv : v ≤ dsetMaxTimeout) :
    domainSetTimeoutSet (jiffiesAt A now) v = 0 ↔ v = 0 := by
  have henc : Encodes (domainSetTimeoutSet (jiffiesAt A now) v) (requestedDeadline A now v) :=
    domainSetTimeoutSet_encodes hv
  constructor
  · intro hzero
    by_contra h0
    rw [requestedDeadline_of_pos (Nat.pos_of_ne_zero h0)] at henc
    exact henc.2 hzero
  · rintro rfl
    exact if_pos rfl

/-- The tick of the deadline, with the low bits that are stored. -/
theorem domainSetTimeoutSet_eq {now v : ℕ} (hv : v ≤ dsetMaxTimeout) (h0 : 0 < v) :
    domainSetTimeoutSet (jiffiesAt A now) v = jiffiesAt A (lastTick A now v) := by
  have henc : Encodes (domainSetTimeoutSet (jiffiesAt A now) v) (requestedDeadline A now v) :=
    domainSetTimeoutSet_encodes hv
  rw [requestedDeadline_of_pos h0] at henc
  exact henc.1

/-- A stored deadline against the clock, up to half the range behind it. -/
theorem expired_domainSetTimeoutSet {now later v : ℕ} (hv : v ≤ dsetMaxTimeout) (h0 : 0 < v)
    (hnow : now ≤ later) (hlater : later ≤ lastTick A now v + 2 ^ (A.longBits - 1)) :
    domainSetTimeoutExpired (jiffiesAt A later) (domainSetTimeoutSet (jiffiesAt A now) v) = true ↔
      lastTick A now v < later := by
  have hticks := ticks_lt A hv
  have hlast : lastTick A now v ≤ now + v * A.hz := (lastTick_bounds h0).2
  have henc : Encodes (domainSetTimeoutSet (jiffiesAt A now) v) (requestedDeadline A now v) :=
    domainSetTimeoutSet_encodes hv
  rw [requestedDeadline_of_pos h0] at henc
  rw [domainSetTimeoutExpired_iff henc]
  · exact Deadline.coe_passed
  · rintro n hn
    obtain rfl := WithTop.coe_injective hn
    omega
  · rintro n hn
    obtain rfl := WithTop.coe_injective hn
    exact hlater

/-- The ticks that are left of a live element. -/
theorem toNat_remaining {now later v : ℕ} (hv : v ≤ dsetMaxTimeout) (h0 : 0 < v)
    (hnow : now ≤ later) (hlater : later ≤ lastTick A now v) :
    (domainSetTimeoutSet (jiffiesAt A now) v - jiffiesAt A later).toNat =
      lastTick A now v - later := by
  have hticks := ticks_lt A hv
  have hlast : lastTick A now v ≤ now + v * A.hz := (lastTick_bounds h0).2
  have hpow : 2 ^ 31 ≤ 2 ^ A.longBits :=
    A.half_le.trans (Nat.pow_le_pow_right (by omega) (Nat.sub_le _ _))
  obtain ⟨k, hk⟩ := Nat.exists_eq_add_of_le hlater
  rw [domainSetTimeoutSet_eq hv h0, hk, Nat.add_sub_cancel_left]
  unfold jiffiesAt
  rw [ofNat_sub_ofNat_add, BitVec.toNat_ofNat, Nat.mod_eq_of_lt (by omega)]

/-- `jiffies_to_msecs` of the ticks of `v` seconds does not overflow. -/
theorem msecs_le {k v : ℕ} (hk : k ≤ v * A.hz) : 1000 / A.hz * k ≤ v * 1000 := by
  have hdiv : A.hz * (1000 / A.hz) = 1000 := Nat.mul_div_cancel' A.hz_dvd
  calc 1000 / A.hz * k ≤ 1000 / A.hz * (v * A.hz) := Nat.mul_le_mul_left _ hk
    _ = v * (A.hz * (1000 / A.hz)) := by ring
    _ = v * 1000 := by rw [hdiv]

/-- What `domain_set_timeout_get` returns is never what stands for permanent. -/
theorem domainSetTimeoutGet_pos (jiffies : BitVec A.longBits) {t : BitVec A.longBits}
    (ht : t ≠ 0) : 1 ≤ domainSetTimeoutGet jiffies t := by
  simp only [domainSetTimeoutGet, if_neg ht]
  split <;> omega

/-- A live element is listed with at most the seconds it was stored for. -/
theorem domainSetTimeoutGet_le {now later v : ℕ} (hv : v ≤ dsetMaxTimeout) (h0 : 0 < v)
    (hnow : now ≤ later) (hlater : later ≤ lastTick A now v) :
    domainSetTimeoutGet (jiffiesAt A later) (domainSetTimeoutSet (jiffiesAt A now) v) ≤ v := by
  have hne : domainSetTimeoutSet (jiffiesAt A now) v ≠ 0 :=
    (domainSetTimeoutSet_eq_zero_iff hv).not.mpr h0.ne'
  have hlast : lastTick A now v ≤ now + v * A.hz := (lastTick_bounds h0).2
  have hmsecs : 1000 / A.hz * (lastTick A now v - later) ≤ v * 1000 := msecs_le (by omega)
  have hmod := Nat.mod_le (1000 / A.hz * (lastTick A now v - later)) (2 ^ 32)
  simp only [domainSetTimeoutGet, if_neg hne, jiffiesToMsecs, toNat_remaining hv h0 hnow hlater]
  split <;> omega

/-- For any tick rate and any value of `jiffies`: a request is cut to the greatest timeout, and a
timeout is stored as permanent only when it is zero. Any other one keeps the element alive up to its last tick, listed with a number of
seconds between one and the timeout; from then on it is expired for half the range of the
counter, and it is never listed as permanent. No product of milliseconds overflows. -/
theorem timeout_window (A : Arch) (now request : ℕ) :
    let v := domainSetTimeoutUget request
    let t := domainSetTimeoutSet (jiffiesAt A now) v
    let last := lastTick A now v
    v = min request dsetMaxTimeout ∧ (t = 0 ↔ v = 0) ∧ v * 1000 < 2 ^ 32 ∧
      (0 < v →
        (∀ later, now ≤ later → later ≤ last →
          domainSetTimeoutExpired (jiffiesAt A later) t = false ∧
            1 ≤ domainSetTimeoutGet (jiffiesAt A later) t ∧
            domainSetTimeoutGet (jiffiesAt A later) t ≤ v ∧
            1000 / A.hz * (t - jiffiesAt A later).toNat < 2 ^ 32) ∧
        (∀ later, last < later → later ≤ last + 2 ^ (A.longBits - 1) →
          domainSetTimeoutExpired (jiffiesAt A later) t = true) ∧
        ∀ later, domainSetTimeoutGet (jiffiesAt A later) t ≠ 0) := by
  intro v t last
  have hv : v ≤ dsetMaxTimeout := domainSetTimeoutUget_le request
  have hmax : v ≤ 2147483 := dsetMaxTimeout_eq ▸ hv
  refine ⟨domainSetTimeoutUget_eq request, domainSetTimeoutSet_eq_zero_iff hv, by omega,
    fun h0 => ?_⟩
  have hne : t ≠ 0 := (domainSetTimeoutSet_eq_zero_iff hv).not.mpr h0.ne'
  have hbounds : now ≤ last ∧ last ≤ now + v * A.hz := lastTick_bounds h0
  refine ⟨fun later hnow hlater => ⟨?_, domainSetTimeoutGet_pos _ hne,
    domainSetTimeoutGet_le hv h0 hnow hlater, ?_⟩, fun later hlast hlater => ?_,
    fun later => Nat.one_le_iff_ne_zero.mp (domainSetTimeoutGet_pos _ hne)⟩
  · have hiff := expired_domainSetTimeoutSet (A := A) hv h0 hnow
      (hlater.trans (Nat.le_add_right _ _))
    exact Bool.eq_false_iff.mpr (hiff.not.mpr hlater.not_gt)
  · have hmsecs : 1000 / A.hz * (lastTick A now v - later) ≤ v * 1000 := msecs_le (by omega)
    rw [toNat_remaining hv h0 hnow hlater]
    omega
  · exact (expired_domainSetTimeoutSet hv h0 (hbounds.1.trans hlast.le) hlater).mpr hlast

end Dset.Hash
