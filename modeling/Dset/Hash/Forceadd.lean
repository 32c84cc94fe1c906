import Dset.Hash.AddSlot
import Dset.Hash.Capacity

/-! Replacement in a full set with `forceadd`. The index of the slot is used even
when the walk has found no position to reuse, and then it is still `-1`; a bucket
with a hole or an expired element is served as in any other set. -/

namespace Dset.Hash

open Dset.Lib List

variable {A : Arch}

/-! ### The set -/

/-- The records that are not expired. -/
def DomainSet.live (jiffies : BitVec A.longBits) (set : DomainSet A) : List (Record A) :=
  set.table.records.filter fun r => !r.isExpired set.extensions jiffies

section
variable (jhash2 : HashDomainElem → BitVec 32 → BitVec 32) (jiffies : BitVec A.longBits)
  (o : AddAlloc) (set : DomainSet A) (d : HashDomainElem)

/-- The set is full behind the expiry pass that `mtype_add` makes, and the key's
bucket exists with a live element at each position. -/
def NoPlace : Prop :=
  (makeRoom jiffies o.expire set).full = true ∧ ∃ n, bucketOfKey jhash2 jiffies o set d = some n ∧
    ∀ s ∈ n.value.take n.pos, s.occupied set.extensions jiffies

/-- `mtype_add` keeps to the bucket of the key: it walks over positions of the
array and stores at one, what it stores is live and replaces no live record but
the one at that position, and a refusal as full leaves what the expiry pass
left. -/
structure StaysInBucket (ext : DomainSetExt) (flags : CmdFlags) : Prop where
  walk : ∀ n, bucketOfKey jhash2 jiffies o set d = some n → n.pos ≤ n.size
  slot : ∀ n j, storeTarget jhash2 jiffies o set d flags = some (n, j) → 0 ≤ j ∧ j < n.size
  expiry : (makeRoom jiffies o.expire set).live jiffies = set.live jiffies
  returns : ∃ ret set', mtypeAdd jhash2 jiffies o set d ext flags = .ok (ret, set') ∧
    (ret = .ok → ∃ out kept r, (makeRoom jiffies o.expire set).table.records ~ out ++ kept ∧
      set'.table.records ~ r :: kept ∧ r.elem = d ∧ r.isExpired set.extensions jiffies = false ∧
      out.length ≤ 1 ∧ ∀ k ∈ out, k.isExpired set.extensions jiffies = false →
        ∃ n j, storeTarget jhash2 jiffies o set d flags = some (n, j) ∧ k = n.data j.toNat) ∧
    (ret = .err .dsetErrHashFull → set' = makeRoom jiffies o.expire set)

variable {jhash2 o set d}

theorem makeRoom_expired (h : set.table.Good set.extensions (set.home jhash2)) :
    (makeRoom jiffies o.expire set).live jiffies = set.live jiffies := by
  unfold makeRoom
  split
  · rename_i hc
    simp only [Bool.and_eq_true] at hc
    unfold DomainSet.live
    rw [(mtypeExpire_good jiffies o.expire h).2, filter_filter]
    apply filter_congr
    intro r hr
    have hx : set.extensions.timeout = true := hc.2
    have he : (mtypeExpire jiffies o.expire set).extensions = set.extensions := rfl
    simp [Record.isExpired, Record.fresh, he, hx]
  · rfl

/-- A timeout that fits the clock has not run out when it is stored. -/
theorem domainSetTimeoutSet_live {now v : ℕ} (hv : v ≤ dsetMaxTimeout) :
    domainSetTimeoutExpired (jiffiesAt A now) (domainSetTimeoutSet (jiffiesAt A now) v) = false := by
  have hlow : ∀ n : ℕ, requestedDeadline A now v = WithTop.some n → now ≤ n ∧ n < now + 2 ^ 31 :=
    fun n hn => requestedDeadline_le hv n hn
  rw [← Bool.not_eq_true, domainSetTimeoutExpired_iff (domainSetTimeoutSet_encodes hv)
    (fun n hn => (hlow n hn).2) (fun n hn => (hlow n hn).1.trans (Nat.le_add_right _ _))]
  cases hd : requestedDeadline A now v with
  | none => exact Deadline.top_not_passed now
  | some n =>
    rw [show (some n : Deadline) = WithTop.some n from rfl, Deadline.coe_passed]
    exact not_lt.mpr (hlow n hd).1

section
variable {jiffies} {d : DomainKey} {flags : CmdFlags}

variable (flags) in
/-- A set with no place for the key sends `mtype_add` to position `-1`. -/
theorem storeTarget_blocked (h : set.table.Good set.extensions (set.home jhash2))
    (hforce : set.forceadd = true)
    (hdead : ∀ r ∈ set.table.records, r.elem = d.toHashDomainElem →
      r.isExpired set.extensions jiffies = true)
    (hno : NoPlace jhash2 jiffies o set d.toHashDomainElem) :
    ∃ n, storeTarget jhash2 jiffies o set d.toHashDomainElem flags = some (n, -1) := by
  obtain ⟨hfull, n, hn, hall⟩ := hno
  have hb := bucketOfKey_good jiffies h hn
  refine ⟨n, ?_⟩
  unfold storeTarget
  simp only [hn, full_of_makeRoom jiffies hfull, hfull, hforce, Bool.and_self]
  apply addTarget_blocked
  intro s hs
  rw [(makeRoom_config _ _ o.expire).extensions]
  refine ⟨hall s hs, ?_⟩
  rw [← Bool.not_eq_true]
  intro heq
  have hmem : s.data ∈ (makeRoom jiffies o.expire set).table.records := by
    refine Htable.mem_records_of_bucket
      (i := (makeRoom jiffies o.expire set).home jhash2 d.toHashDomainElem) ?_
    rw [show Htable.hbucket _ _ = some n from hn]
    exact Hbucket.mem_records_of_take hs (hall s hs).1
  have hexp := hdead _ (mem_of_mem_makeRoom jiffies h hmem)
    ((hb.equal_iff d.padded hs (hall s hs).1).mp heq)
  rw [(hall s hs).2] at hexp
  cases hexp

variable (flags) in
/-- Everywhere else its position is one of the array. -/
theorem storeTarget_bounds (h : set.table.Good set.extensions (set.home jhash2))
    (hplace : ¬NoPlace jhash2 jiffies o set d.toHashDomainElem) {t : Hbucket A × ℤ}
    (ht : storeTarget jhash2 jiffies o set d.toHashDomainElem flags = some t) :
    0 ≤ t.2 ∧ t.2 < t.1.size := by
  have hb : GoodBucket _ _ _ (bucketOfKey jhash2 jiffies o set d.toHashDomainElem) :=
    (makeRoom_good jiffies h o.expire).hbucket _
  rcases addTarget_bounds hb ht with hj | ⟨-, hforce, n, hn, hall⟩
  · exact hj
  · simp only [Bool.and_eq_true] at hforce
    refine absurd ⟨hforce.1.2, n, hn, fun s hs => ?_⟩ hplace
    rw [← (makeRoom_config set jiffies o.expire).extensions]
    exact hall s hs

end

/-- In a set with `forceadd`, an addition of a key that is not live stays in the
bucket unless the set is full and the bucket has no place to give. -/
theorem forceadd_stays_in_bucket {l : List Call} {now : ℕ}
    (h : (setSystem A jhash2 true).Run l set) (d : DomainKey) (o : AddAlloc) (ext : DomainSetExt)
    (flags : CmdFlags) (htimeout : set.withTimeout = true → ext.timeout ≤ dsetMaxTimeout)
    (hdead : ∀ r ∈ set.table.records, r.elem = d.toHashDomainElem →
      r.isExpired set.extensions (jiffiesAt A now) = true) :
    StaysInBucket jhash2 (jiffiesAt A now) o set d.toHashDomainElem ext flags ↔
      ¬NoPlace jhash2 (jiffiesAt A now) o set d.toHashDomainElem := by
  obtain ⟨hg, hforce⟩ := run_good h
  have hext := (makeRoom_config set (jiffiesAt A now) o.expire).extensions
  constructor
  · -- the walk ends without a position, and the index keeps its start value
    intro hstays hno
    obtain ⟨n, htarget⟩ := storeTarget_blocked flags hg.table hforce hdead hno
    exact absurd (hstays.slot n (-1) htarget).1 (by decide)
  · intro hplace
    have hbounds := fun t => storeTarget_bounds (t := t) flags hg.table hplace
    refine ⟨?_, fun n j ht => hbounds _ ht, makeRoom_expired _ hg.table, ?_⟩
    · intro n hn
      exact (bucketOfKey_good _ hg.table hn).pos_le
    have htarget := mtypeAdd_target (o := o) (d := d.toHashDomainElem) (jiffiesAt A now)
      hg.table ext flags
    cases ht : storeTarget jhash2 (jiffiesAt A now) o set d.toHashDomainElem flags with
    | none =>
      rw [ht] at htarget
      obtain ⟨e, next, hnext, heq⟩ := htarget
      refine ⟨_, _, heq, ?_, ?_⟩
      · intro hok
        cases hok
      · intro he
        rw [hnext (by cases he; decide)]
    | some t =>
      rw [ht] at htarget
      rcases htarget with ⟨hneg, -⟩ | ⟨-, -, -, set', -, -, heq⟩
      · have := (hbounds t ht).1
        omega
      refine ⟨_, _, heq, ?_, ?_⟩
      swap
      · intro he
        cases he
      intro _
      rcases mtypeAdd_result (jiffiesAt A now) o ext flags hg.table d.padded with
        ⟨-, -, he⟩ | ⟨ret, s, he, hres⟩
      · rw [heq] at he
        cases he
      rw [heq] at he
      obtain ⟨rfl, rfl⟩ := Prod.mk.inj (Except.ok.inj he)
      cases hres with
      | stored out kept r _ _ hold hnew helem hset _ hout hlen _ _ _ _ =>
        rw [hext] at hset hout
        refine ⟨out, kept, r, hold, hnew, helem, ?_, hlen, ?_⟩
        · unfold Record.isExpired
          cases hx : set.extensions.timeout
          · rfl
          · rw [hset hx, domainSetTimeoutSet_live (htimeout hx)]; rfl
        · intro k hk hlive
          have hexp : k.isExpired set.extensions (jiffiesAt A now) = true := by
            rcases hout k hk with ⟨he, -⟩ | he
            · have hmem := hold.mem_iff.mpr (mem_append_left kept hk)
              exact hdead k (mem_of_mem_makeRoom _ hg.table hmem) he
            · exact he
          rw [hexp] at hlive
          cases hlive

/-! ### A set of one element -/

/-- A set with `forceadd` (bit 5) that takes one element, and the addition of `a`. -/
def forceSet : DomainSet x64 := smallSet 1 32

def oneElement : List (ℕ × Op) := [(0, .add keyA plainExt plainFlags noFailure)]

variable (jhash2) in
theorem forceSet_init : (setSystem x64 jhash2 true).init forceSet :=
  ⟨rfl, true, _, true, true, 0, smallSet_created 1 32⟩

theorem oneElement_enabled : ∀ p ∈ oneElement, ∀ set : DomainSet A, p.2.Enabled set := by
  simp [oneElement, Op.Enabled]

/-- The set is full and the key hashes to an empty place: the addition is refused. -/
theorem forceadd_stays_in_bucket_full :
    ∃ l set, (setSystem x64 firstByte true).Run l set ∧ set.full = true ∧
      StaysInBucket firstByte (jiffiesAt x64 0) noFailure set keyB.toHashDomainElem plainExt
        plainFlags := by
  have htest : runOpsTest firstByte forceSet oneElement (fun s => s.full &&
      decide (bucketOfKey firstByte (jiffiesAt x64 0) noFailure s keyB.toHashDomainElem = none) &&
      s.table.records.all (fun r => decide (r.elem ≠ keyB.toHashDomainElem)) &&
      !s.withTimeout) = true := by decide +kernel
  obtain ⟨p, hp, hs⟩ := runOpsTest_iff.mp htest
  simp only [Bool.and_eq_true, decide_eq_true_eq, all_eq_true, Bool.not_eq_true'] at hs
  obtain ⟨⟨⟨hfull, hnone⟩, hkeys⟩, htime⟩ := hs
  have hrun := run_of_runOps (.start (forceSet_init firstByte)) oneElement_enabled hp
  refine ⟨_, p.2, hrun, hfull, (forceadd_stays_in_bucket hrun keyB noFailure plainExt plainFlags
    (fun ht => absurd ht (by rw [htime]; exact Bool.false_ne_true))
    (fun r hr he => absurd he (hkeys r hr))).mpr ?_⟩
  rintro ⟨-, n, hn, -⟩
  rw [hnone] at hn
  cases hn

/-- The key hashes to the place of the live element: position `-1`. -/
theorem forceadd_leaves_bucket :
    ¬∀ (l : List Call) (set : DomainSet x64), (setSystem x64 firstByte true).Run l set →
      ∀ (d : DomainKey) (o : AddAlloc) (ext : DomainSetExt) (flags : CmdFlags) (now : ℕ),
        (set.withTimeout = true → ext.timeout ≤ dsetMaxTimeout) →
        (∀ r ∈ set.table.records, r.elem = d.toHashDomainElem →
          r.isExpired set.extensions (jiffiesAt x64 now) = true) →
        StaysInBucket firstByte (jiffiesAt x64 now) o set d.toHashDomainElem ext flags := by
  intro h
  have htest : runOpsTest firstByte forceSet oneElement (fun s =>
      ((storeTarget firstByte (jiffiesAt x64 0) noFailure s
        (keyTwo 97 98 (by decide)).toHashDomainElem plainFlags).map Prod.snd == some (-1)) &&
      s.table.records.all (fun r => decide (r.elem ≠ (keyTwo 97 98 (by decide)).toHashDomainElem)) &&
      !s.withTimeout) = true := by decide +kernel
  obtain ⟨p, hp, hs⟩ := runOpsTest_iff.mp htest
  simp only [Bool.and_eq_true, decide_eq_true_eq, all_eq_true, Bool.not_eq_true', beq_iff_eq,
    Option.map_eq_some_iff] at hs
  obtain ⟨⟨⟨⟨n, j⟩, ht, rfl⟩, hkeys⟩, htime⟩ := hs
  have hrun := run_of_runOps (.start (forceSet_init firstByte)) oneElement_enabled hp
  have hstays := h _ _ hrun (keyTwo 97 98 (by decide)) noFailure plainExt plainFlags 0
    (fun htm => absurd htm (by rw [htime]; exact Bool.false_ne_true))
    (fun r hr he => absurd he (hkeys r hr))
  exact absurd (hstays.slot n (-1) ht).1 (by decide)

end

end Dset.Hash
