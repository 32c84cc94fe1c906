import Dset.Hash.Table

/-! `mtype_expire`: every bucket is walked once, expired records lose their bit
and their extensions, and a bucket with enough free positions is dropped or cut
down by `AHASH_INIT_SIZE`. The same cut is made by `mtype_del`. Per bucket, the
records left are those not expired, in their order. -/

namespace Dset.Hash

open List

variable {A : Arch}

/-- Bucket `tmp` of `mtype_expire` and `mtype_del`: the used slots packed into
an array shorter by `AHASH_INIT_SIZE`. -/
def Hbucket.shrink (n : Hbucket A) : Hbucket A :=
  let kept := (n.value.take n.pos).filter (·.used)
  ⟨kept.length, kept ++ replicate (n.size - ahashInitSize - kept.length) zeroSlot⟩

/-- The inner loop of `mtype_expire`: the slots, the count `d` and the accounts. -/
def expireSlots (x : Extensions) (jiffies : BitVec A.longBits) :
    List (Slot A) → ℕ → Accounts → List (Slot A) × ℕ × Accounts
  | [], d, a => ([], d, a)
  | s :: ss, d, a =>
    if !s.used then
      let p := expireSlots x jiffies ss (d + 1) a
      (s :: p.1, p.2)
    else if !domainSetTimeoutExpired jiffies s.data.timeout then
      let p := expireSlots x jiffies ss d a
      (s :: p.1, p.2)
    else
      let q := domainSetExtDestroy x a s.data
      let p := expireSlots x jiffies ss (d + 1) { q.1 with elements := q.1.elements - 1 }
      (⟨false, q.2⟩ :: p.1, p.2)

/-- One round of the outer loop; `alloc` is the outcome of its `kzalloc`. -/
def expireBucket (x : Extensions) (dsize : ℕ) (jiffies : BitVec A.longBits) (alloc : Bool)
    (a : Accounts) : Option (Hbucket A) → Accounts × Option (Hbucket A)
  | none => (a, none)
  | some n =>
    let p := expireSlots x jiffies (n.value.take n.pos) 0 a
    let d := p.2.1
    let a := p.2.2
    let n : Hbucket A := ⟨n.pos, p.1 ++ n.value.drop n.pos⟩
    if ahashInitSize ≤ d then
      if n.size ≤ d then ({ a with extSize := a.extSize - extSize A n.size dsize }, none)
      else if !alloc then (a, some n)
      else ({ a with extSize := a.extSize - extSize A ahashInitSize dsize }, some n.shrink)
    else (a, some n)

/-- The outer loop from bucket `i` on; `alloc i` belongs to bucket `i`. -/
def expireFrom (x : Extensions) (dsize : ℕ) (jiffies : BitVec A.longBits) (alloc : ℕ → Bool) :
    ℕ → Accounts → List (Option (Hbucket A)) → Accounts × List (Option (Hbucket A))
  | _, a, [] => (a, [])
  | i, a, o :: os =>
    let p := expireBucket x dsize jiffies (alloc i) a o
    let q := expireFrom x dsize jiffies alloc (i + 1) p.1 os
    (q.1, p.2 :: q.2)

def mtypeExpire (jiffies : BitVec A.longBits) (alloc : ℕ → Bool) (set : DomainSet A) :
    DomainSet A :=
  let p := expireFrom set.extensions set.dsize jiffies alloc 0 set.acct set.table.bucket
  { set with acct := p.1, table := { set.table with bucket := p.2 } }

/-! ### Destroying extensions -/

/-- Destroying the extensions of a record settles its comment. -/
theorem domainSetExtDestroy_settles (x : Extensions) (a : Accounts) (r : Record A) :
    Settles x a [r] { (domainSetExtDestroy x a r).1 with
      elements := (domainSetExtDestroy x a r).1.elements - 1 } [] 0 := by
  unfold domainSetExtDestroy
  split
  · rename_i hx
    cases hc : r.comment with
    | none =>
      constructor <;>
        simp [domainSetCommentFree, commentBytes, commentAddrs, hc, hx]
    | some c =>
      constructor <;>
        simp [domainSetCommentFree, commentBytes, commentAddrs, hc, hx]
  · rename_i hx
    constructor <;> simp [commentBytes, commentAddrs, hx]

/-! ### Slots -/

section
variable (x : Extensions) (jiffies : BitVec A.longBits)

/-- The record survives a run of `mtype_expire`. -/
def Record.fresh (r : Record A) : Bool := !domainSetTimeoutExpired jiffies r.timeout

/-- What the inner loop leaves of a slot. -/
def expireSlot (s : Slot A) : Slot A :=
  if s.used && !s.data.fresh jiffies then
    ⟨false, if x.comment then { s.data with comment := none } else s.data⟩
  else s

/-- Positions below `pos` that are unused or hold an expired record. -/
def Hbucket.holes (n : Hbucket A) : ℕ :=
  (n.value.take n.pos).countP fun s => !s.used || !s.data.fresh jiffies

theorem expireSlot_used (s : Slot A) :
    (expireSlot x jiffies s).used = (s.used && s.data.fresh jiffies) := by
  unfold expireSlot
  split <;> rename_i h
  · simp only [Bool.and_eq_true, Bool.not_eq_true'] at h
    simp [h.2]
  · cases hu : s.used <;> simp_all

theorem expireSlots_fst (v : List (Slot A)) (d : ℕ) (a : Accounts) :
    (expireSlots x jiffies v d a).1 = v.map (expireSlot x jiffies) := by
  induction v generalizing d a with
  | nil => rfl
  | cons s v ih =>
    cases hu : s.used <;> cases he : domainSetTimeoutExpired jiffies s.data.timeout <;>
      simp [expireSlots, expireSlot, Record.fresh, hu, he, ih]
    unfold domainSetExtDestroy
    split <;> rfl

theorem expireSlots_count (v : List (Slot A)) (d : ℕ) (a : Accounts) :
    (expireSlots x jiffies v d a).2.1 =
      d + v.countP fun s => !s.used || !s.data.fresh jiffies := by
  induction v generalizing d a with
  | nil => rfl
  | cons s v ih =>
    cases hu : s.used <;> cases he : domainSetTimeoutExpired jiffies s.data.timeout <;>
      simp [expireSlots, Record.fresh, hu, he, ih] <;> omega

theorem slotRecords_map_expireSlot (v : List (Slot A)) :
    slotRecords (v.map (expireSlot x jiffies)) = (slotRecords v).filter (·.fresh jiffies) := by
  induction v with
  | nil => rfl
  | cons s v ih =>
    have hused := expireSlot_used x jiffies s
    cases hu : s.used
    · have : expireSlot x jiffies s = s := by simp [expireSlot, hu]
      rw [map_cons, this, slotRecords_cons_unused _ hu, slotRecords_cons_unused _ hu, ih]
    · cases hf : s.data.fresh jiffies
      · rw [map_cons, slotRecords_cons_unused _ (by rw [hused, hu, hf]; rfl),
          slotRecords_cons_used _ hu, filter_cons_of_neg (by simp [hf]), ih]
      · have : expireSlot x jiffies s = s := by simp [expireSlot, hf]
        rw [map_cons, this, slotRecords_cons_used _ hu, slotRecords_cons_used _ hu,
          filter_cons_of_pos hf, ih]

theorem expireSlots_settles (v : List (Slot A)) (d : ℕ) (a : Accounts) :
    Settles x a (slotRecords v) (expireSlots x jiffies v d a).2.2
      ((slotRecords v).filter (·.fresh jiffies)) 0 := by
  induction v generalizing d a with
  | nil => exact .refl x a []
  | cons s v ih =>
    cases hu : s.used
    · rw [slotRecords_cons_unused _ hu]
      simpa [expireSlots, hu] using ih (d + 1) a
    · rw [slotRecords_cons_used _ hu]
      cases he : domainSetTimeoutExpired jiffies s.data.timeout
      · have hf : s.data.fresh jiffies = true := by simp [Record.fresh, he]
        rw [filter_cons_of_pos hf]
        have := (ih d a).frame [s.data]
        simp only [expireSlots, hu, he, Bool.not_true, Bool.not_false, if_true]
        exact this.perm (perm_append_singleton _ _).symm (perm_append_singleton _ _).symm
      · have hf : s.data.fresh jiffies = false := by simp [Record.fresh, he]
        rw [filter_cons_of_neg (by simp [hf])]
        have h1 := (domainSetExtDestroy_settles x a s.data).frame (slotRecords v)
        have h2 := h1.trans (ih (d + 1) _)
        simpa [expireSlots, hu, he] using h2

end

/-! ### Buckets -/

/-- Bytes `ext_size` should count for a bucket pointer. -/
def bucketBytes (dsize : ℕ) : Option (Hbucket A) → ℤ
  | none => 0
  | some n => extSize A n.size dsize

section
variable {x : Extensions} {home : HashDomainElem → ℕ} {i : ℕ} {n : Hbucket A}

/-- Packing a bucket with enough unused positions keeps its records. -/
theorem Hbucket.Good.shrink (h : n.Good x home i)
    (hd : ahashInitSize ≤ (n.value.take n.pos).countP fun s => !s.used) :
    n.shrink.Good x home i ∧ n.shrink.records = n.records ∧
      n.shrink.size = n.size - ahashInitSize := by
  have hkept : ((n.value.take n.pos).filter (·.used)).length +
      (n.value.take n.pos).countP (fun s => !s.used) = (n.value.take n.pos).length := by
    rw [← countP_eq_length_filter]
    simpa using (length_eq_countP_add_countP (fun s : Slot A => s.used)
      (l := n.value.take n.pos)).symm
  have htake : (n.value.take n.pos).length ≤ n.size := by
    rw [length_take]; exact min_le_right _ _
  have hrec : n.shrink.records = n.records := by
    rw [h.records_take, Hbucket.records, Hbucket.shrink, slotRecords_append, slotRecords_zeros,
      append_nil, slotRecords_filter_used]
  have hsize : n.shrink.size = n.size - ahashInitSize := by
    simp only [Hbucket.size, Hbucket.shrink, length_append, length_replicate] at htake ⊢
    omega
  refine ⟨⟨⟨?_, ?_, ?_, ?_, ?_⟩, ?_, ?_, ?_⟩, hrec, hsize⟩
  · rw [hsize]; exact Nat.dvd_sub h.size_dvd (dvd_refl _)
  · rw [hsize]; exact (Nat.sub_le _ _).trans h.size_le
  · rw [hsize]; simp only [Hbucket.shrink]; omega
  · intro s hs
    simp only [Hbucket.shrink, drop_left] at hs
    rw [eq_of_mem_replicate hs, zeroSlot]
  · intro _ s hs hu
    rcases mem_append.mp hs with hs | hs
    · simp [(mem_filter.mp hs).2] at hu
    · rw [eq_of_mem_replicate hs]; rfl
  · rw [hrec]; exact h.padded
  · rw [hrec]; exact h.home
  · rw [hrec]; exact h.nodup

variable (x) (jiffies : BitVec A.longBits)

def Hbucket.expired (n : Hbucket A) : Hbucket A :=
  ⟨n.pos, (n.value.take n.pos).map (expireSlot x jiffies) ++ n.value.drop n.pos⟩

theorem Hbucket.expired_size (n : Hbucket A) : (n.expired x jiffies).size = n.size := by
  simp only [Hbucket.size, Hbucket.expired, length_append, length_map]
  rw [← length_append, take_append_drop]

theorem Hbucket.Good.expired_take (h : n.Good x home i) :
    (n.expired x jiffies).value.take n.pos = (n.value.take n.pos).map (expireSlot x jiffies) := by
  have hp := h.pos_le
  rw [Hbucket.expired, take_left' (by simpa [Hbucket.size] using hp)]

theorem Hbucket.Good.expired_records (h : n.Good x home i) :
    (n.expired x jiffies).records = n.records.filter (·.fresh jiffies) := by
  rw [h.records_take, Hbucket.records, Hbucket.expired, slotRecords_append,
    slotRecords_eq_nil h.unused, append_nil, slotRecords_map_expireSlot]

theorem Hbucket.Good.expired (h : n.Good x home i) : (n.expired x jiffies).Good x home i := by
  have hrec := h.expired_records x jiffies
  have hsub : (n.expired x jiffies).records <+ n.records := hrec ▸ filter_sublist
  refine ⟨⟨?_, ?_, ?_, ?_, ?_⟩, ?_, ?_, ?_⟩
  · rw [Hbucket.expired_size]; exact h.size_dvd
  · rw [Hbucket.expired_size]; exact h.size_le
  · rw [Hbucket.expired_size]; exact h.pos_le
  · have hp := h.pos_le
    intro s hs
    rw [Hbucket.expired, drop_left' (by simpa [Hbucket.size] using hp)] at hs
    exact h.unused s hs
  · intro hx s hs hu
    rcases mem_append.mp hs with hs | hs
    · obtain ⟨t, ht, rfl⟩ := mem_map.mp hs
      unfold expireSlot at hu ⊢
      split <;> rename_i hc
      · simp
      · rw [if_neg hc] at hu
        exact h.clean hx t (mem_of_mem_take ht) hu
    · exact h.clean hx s (mem_of_mem_drop hs) hu
  · exact fun r hr => h.padded r (hsub.mem hr)
  · exact fun r hr => h.home r (hsub.mem hr)
  · exact h.nodup.sublist (hsub.map _)

theorem Hbucket.Good.expired_countP (h : n.Good x home i) :
    ((n.expired x jiffies).value.take n.pos).countP (fun s => !s.used) = n.holes jiffies := by
  rw [h.expired_take, countP_map, Hbucket.holes]
  apply countP_congr
  intro s _
  simp [expireSlot_used]

end

/-- `mtype_expire` cuts this bucket down instead of leaving or dropping it. -/
def Hbucket.Shrinks (jiffies : BitVec A.longBits) (alloc : Bool) (n : Hbucket A) : Prop :=
  ahashInitSize ≤ n.holes jiffies ∧ n.holes jiffies < n.size ∧ alloc = true

/-- One bucket under `mtype_expire`, by what happens to it. -/
theorem expireBucket_cases (x : Extensions) (dsize : ℕ) (jiffies : BitVec A.longBits)
    (alloc : Bool) (a : Accounts) (n : Hbucket A) :
    let a' := (expireSlots x jiffies (n.value.take n.pos) 0 a).2.2
    (n.size ≤ n.holes jiffies ∧ 0 < n.size ∧ expireBucket x dsize jiffies alloc a (some n) =
        ({ a' with extSize := a'.extSize - extSize A n.size dsize }, none)) ∨
      (n.Shrinks jiffies alloc ∧ expireBucket x dsize jiffies alloc a (some n) =
        ({ a' with extSize := a'.extSize - extSize A ahashInitSize dsize },
          some (n.expired x jiffies).shrink)) ∨
      (¬n.Shrinks jiffies alloc ∧ expireBucket x dsize jiffies alloc a (some n) =
        (a', some (n.expired x jiffies))) := by
  intro a'
  have hcount : (expireSlots x jiffies (n.value.take n.pos) 0 a).2.1 = n.holes jiffies := by
    rw [expireSlots_count, Nat.zero_add, Hbucket.holes]
  have hn : (⟨n.pos, (expireSlots x jiffies (n.value.take n.pos) 0 a).1 ++ n.value.drop n.pos⟩ :
      Hbucket A) = n.expired x jiffies := by
    rw [expireSlots_fst, Hbucket.expired]
  simp only [expireBucket, hcount, hn, Hbucket.expired_size]
  by_cases h1 : ahashInitSize ≤ n.holes jiffies
  · by_cases h2 : n.size ≤ n.holes jiffies
    · by_cases h0 : 0 < n.size
      · exact .inl ⟨h2, h0, by simp [h1, h2, a']⟩
      · -- an empty array has no positions to count
        have hz : n.value = [] := by
          simpa [Hbucket.size] using Nat.eq_zero_of_not_pos h0
        simp [Hbucket.holes, hz, ahashInitSize] at h1
    · refine .inr ?_
      cases alloc
      · exact .inr ⟨by simp [Hbucket.Shrinks], by simp [h1, h2, a']⟩
      · exact .inl ⟨⟨h1, by omega, rfl⟩, by simp [h1, h2, a']⟩
  · exact .inr (.inr ⟨fun h => h1 h.1, by simp [h1, a']⟩)

section
variable {home : HashDomainElem → ℕ} {i : ℕ} {o : Option (Hbucket A)} (x : Extensions)
  (dsize : ℕ) (jiffies : BitVec A.longBits) (alloc : Bool) (a : Accounts)

theorem Hbucket.Good.records_eq_nil {n : Hbucket A} (h : n.Good x home i)
    (hd : n.size ≤ n.holes jiffies) : n.records.filter (·.fresh jiffies) = [] := by
  rw [← h.expired_records x jiffies, (h.expired x jiffies).records_take]
  have h1 := length_slotRecords ((n.expired x jiffies).value.take n.pos)
  rw [h.expired_countP x jiffies] at h1
  have h2 : ((n.expired x jiffies).value.take n.pos).length ≤ n.size := by
    rw [length_take, ← Hbucket.expired_size x jiffies n]; exact min_le_right _ _
  exact length_eq_zero_iff.mp (by
    show (slotRecords ((n.expired x jiffies).value.take n.pos)).length = 0
    omega)

/-- Per bucket: the records that are left, and the bucket stays good. -/
theorem expireBucket_good (h : GoodBucket x home i o) :
    GoodBucket x home i (expireBucket x dsize jiffies alloc a o).2 ∧
      bucketRecords (expireBucket x dsize jiffies alloc a o).2 =
        (bucketRecords o).filter (·.fresh jiffies) := by
  cases o with
  | none => exact ⟨trivial, rfl⟩
  | some n =>
    have hn : n.Good x home i := h
    rcases expireBucket_cases x dsize jiffies alloc a n with
      ⟨hd, -, he⟩ | ⟨⟨hd, -, -⟩, he⟩ | ⟨-, he⟩ <;> rw [he]
    · exact ⟨trivial, (hn.records_eq_nil x jiffies hd).symm⟩
    · obtain ⟨hg, hr, -⟩ := (hn.expired x jiffies).shrink
        (by rw [show (n.expired x jiffies).pos = n.pos from rfl, hn.expired_countP]; exact hd)
      exact ⟨hg, hr.trans (hn.expired_records x jiffies)⟩
    · exact ⟨hn.expired x jiffies, hn.expired_records x jiffies⟩

/-- Per bucket: the accounts settle, and `ext_size` follows the bucket unless
it is cut down. -/
theorem expireBucket_settles (h : GoodBucket x home i o) :
    ∃ delta, Settles x a (bucketRecords o) (expireBucket x dsize jiffies alloc a o).1
        (bucketRecords (expireBucket x dsize jiffies alloc a o).2) delta ∧
      ((∀ n, o = some n → ¬n.Shrinks jiffies alloc) →
        delta = bucketBytes dsize (expireBucket x dsize jiffies alloc a o).2 -
          bucketBytes dsize o) := by
  cases o with
  | none => exact ⟨0, .refl x a [], fun _ => rfl⟩
  | some n =>
    have hn : n.Good x home i := h
    have hs := expireSlots_settles x jiffies (n.value.take n.pos) 0 a
    rw [← hn.records_take] at hs
    rw [(expireBucket_good x dsize jiffies alloc a h).2]
    rcases expireBucket_cases x dsize jiffies alloc a n with
      ⟨-, -, he⟩ | ⟨hsh, he⟩ | ⟨-, he⟩ <;> rw [he]
    · refine ⟨-extSize A n.size dsize, ?_, fun _ => by simp [bucketBytes]⟩
      refine ⟨hs.elements, ?_, hs.nextAddr_le, hs.addrs, hs.freed⟩
      have := hs.extSize
      simp only [bucketRecords] at this ⊢
      omega
    · refine ⟨-extSize A ahashInitSize dsize, ?_, fun hno => absurd hsh (hno n rfl)⟩
      refine ⟨hs.elements, ?_, hs.nextAddr_le, hs.addrs, hs.freed⟩
      have := hs.extSize
      simp only [bucketRecords] at this ⊢
      omega
    · exact ⟨0, hs, fun _ => by simp [bucketBytes, Hbucket.expired_size]⟩

end

/-! ### The whole table -/

section
variable {home : HashDomainElem → ℕ} (x : Extensions) (dsize : ℕ) (jiffies : BitVec A.longBits)
  (alloc : ℕ → Bool)

theorem expireFrom_length (i : ℕ) (a : Accounts) (os : List (Option (Hbucket A))) :
    (expireFrom x dsize jiffies alloc i a os).2.length = os.length := by
  induction os generalizing i a with
  | nil => rfl
  | cons o os ih => simp [expireFrom, ih]

theorem expireFrom_good (i : ℕ) (a : Accounts) (os : List (Option (Hbucket A)))
    (h : ∀ k, ∀ hk : k < os.length, GoodBucket x home (i + k) os[k]) :
    (∀ k, ∀ hk : k < (expireFrom x dsize jiffies alloc i a os).2.length,
        GoodBucket x home (i + k) (expireFrom x dsize jiffies alloc i a os).2[k]) ∧
      (expireFrom x dsize jiffies alloc i a os).2.flatMap bucketRecords =
        (os.flatMap bucketRecords).filter (·.fresh jiffies) := by
  induction os generalizing i a with
  | nil => simp [expireFrom]
  | cons o os ih =>
    have ho := expireBucket_good x dsize jiffies (alloc i) a (o := o) (h 0 (by simp))
    obtain ⟨hg, hr⟩ := ih (i + 1) (expireBucket x dsize jiffies (alloc i) a o).1 (fun k hk => by
      have := h (k + 1) (by simpa using hk)
      rw [show i + 1 + k = i + (k + 1) by omega]
      simpa using this)
    refine ⟨?_, ?_⟩
    · intro k hk
      cases k with
      | zero => simpa [expireFrom] using ho.1
      | succ k =>
        have := hg k (by simpa [expireFrom] using hk)
        rw [show i + 1 + k = i + (k + 1) by omega] at this
        simpa [expireFrom] using this
    · rw [flatMap_cons, filter_append, ← ho.2, ← hr]
      rfl

theorem expireFrom_settles (i : ℕ) (a : Accounts) (os : List (Option (Hbucket A)))
    (h : ∀ k, ∀ hk : k < os.length, GoodBucket x home (i + k) os[k]) :
    ∃ delta, Settles x a (os.flatMap bucketRecords) (expireFrom x dsize jiffies alloc i a os).1
        ((expireFrom x dsize jiffies alloc i a os).2.flatMap bucketRecords) delta ∧
      ((∀ (k : ℕ) (n : Hbucket A), os[k]? = some (some n) → ¬n.Shrinks jiffies (alloc (i + k))) →
        delta = ((expireFrom x dsize jiffies alloc i a os).2.map (bucketBytes dsize)).sum -
          (os.map (bucketBytes dsize)).sum) := by
  induction os generalizing i a with
  | nil => exact ⟨0, .refl x a [], fun _ => rfl⟩
  | cons o os ih =>
    obtain ⟨d, hd, hb⟩ := expireBucket_settles x dsize jiffies (alloc i) a (o := o)
      (h 0 (by simp))
    obtain ⟨e, he, hc⟩ := ih (i + 1) (expireBucket x dsize jiffies (alloc i) a o).1 (fun k hk => by
      have := h (k + 1) (by simpa using hk)
      rw [show i + 1 + k = i + (k + 1) by omega]
      simpa using this)
    refine ⟨d + e, ?_, ?_⟩
    · -- first this bucket with the others beside it, then the others
      have h1 := hd.frame (os.flatMap bucketRecords)
      have h2 := (he.frame (bucketRecords (expireBucket x dsize jiffies (alloc i) a o).2)).perm
        perm_append_comm perm_append_comm
      exact h1.trans h2
    · intro hno
      have hb' := hb (fun n hn => by simpa using hno 0 n (by simp [hn]))
      have hc' := hc (fun k n hk => by
        have := hno (k + 1) n (by simpa using hk)
        rwa [show i + 1 + k = i + (k + 1) by omega])
      simp only [expireFrom, map_cons, sum_cons]
      omega

end

def Htable.bucketBytes (dsize : ℕ) (t : Htable A) : ℤ := (t.bucket.map (Hash.bucketBytes dsize)).sum

section
variable {home : HashDomainElem → ℕ} {set : DomainSet A} (jiffies : BitVec A.longBits)
  (alloc : ℕ → Bool)

/-- `mtype_expire` keeps the records that are not expired and the table good. -/
theorem mtypeExpire_good (h : set.table.Good set.extensions home) :
    (mtypeExpire jiffies alloc set).table.Good set.extensions home ∧
      (mtypeExpire jiffies alloc set).table.records =
        set.table.records.filter (·.fresh jiffies) := by
  obtain ⟨hg, hr⟩ := expireFrom_good set.extensions set.dsize jiffies alloc 0 set.acct
    set.table.bucket (fun k hk => by simpa using h.bucket k hk)
  refine ⟨⟨?_, ?_⟩, hr⟩
  · simpa [mtypeExpire, expireFrom_length] using h.length
  · intro k hk
    have := hg k hk
    rw [Nat.zero_add] at this
    exact this

theorem mtypeExpire_settles (h : set.table.Good set.extensions home) :
    ∃ delta, Settles set.extensions set.acct set.table.records
        (mtypeExpire jiffies alloc set).acct (mtypeExpire jiffies alloc set).table.records delta ∧
      ((∀ (i : ℕ) (n : Hbucket A), set.table.bucket[i]? = some (some n) → ¬n.Shrinks jiffies (alloc i)) →
        delta = (mtypeExpire jiffies alloc set).table.bucketBytes set.dsize -
          set.table.bucketBytes set.dsize) := by
  obtain ⟨d, hd, hb⟩ := expireFrom_settles set.extensions set.dsize jiffies alloc 0 set.acct
    set.table.bucket (fun k hk => by simpa using h.bucket k hk)
  exact ⟨d, hd, fun hno => hb (fun k n hk => by simpa using hno k n hk)⟩

end

end Dset.Hash
