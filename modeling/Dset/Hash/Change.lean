import Dset.Hash.Expire

/-! One operation on a set, seen from outside: the configuration stays, the
table is good again and the accounts settle, `ext_size` moving by what the
buckets weigh and a drift, which is zero where the code counts right. What every
operation keeps follows from this alone (`DomainSet.Good.change`). -/

namespace Dset.Hash

open List Dset.Lib

variable {A : Arch} (jhash2 : HashDomainElem → BitVec 32 → BitVec 32)

/-- Where `HKEY` sends a key under the current table size. -/
def DomainSet.home (set : DomainSet A) (e : HashDomainElem) : ℕ :=
  hkey jhash2 e set.initval set.table.htableBits

/-- Bytes of the comments in the used slots of the table. -/
def DomainSet.commentBytes (set : DomainSet A) : ℤ :=
  Hash.commentBytes set.extensions set.table.records

/-- Addresses of the comments in the used slots of the table. -/
def DomainSet.commentAddrs (set : DomainSet A) : List ℕ :=
  Hash.commentAddrs set.extensions set.table.records

/-- The fields of the set that no element function writes. -/
structure DomainSet.SameConfig (set set' : DomainSet A) : Prop where
  extensions : set'.extensions = set.extensions
  forceadd : set'.forceadd = set.forceadd
  timeout : set'.timeout = set.timeout
  dsize : set'.dsize = set.dsize
  maxelem : set'.maxelem = set.maxelem
  initval : set'.initval = set.initval

/-- A set between two operations. -/
structure DomainSet.Good (set : DomainSet A) : Prop where
  table : set.table.Good set.extensions (set.home jhash2)
  elements : set.acct.elements = set.table.records.length
  addrs : set.commentAddrs ++ set.acct.freed ~ range set.acct.nextAddr

/-- `set->ext_size` is what buckets and comments of the current table take. -/
def DomainSet.Exact (set : DomainSet A) : Prop :=
  set.acct.extSize = set.table.bucketBytes set.dsize + set.commentBytes

/-- What one operation makes of the set. -/
structure DomainSet.Change (set set' : DomainSet A) (drift : ℤ) : Prop
    extends set.SameConfig set' where
  good : set'.table.Good set'.extensions (set'.home jhash2)
  settles : Settles set.extensions set.acct set.table.records set'.acct set'.table.records
    (set'.table.bucketBytes set.dsize - set.table.bucketBytes set.dsize + drift)

variable {jhash2} {set set' set'' : DomainSet A} {drift drift' : ℤ}

theorem DomainSet.SameConfig.refl (set : DomainSet A) : set.SameConfig set :=
  ⟨rfl, rfl, rfl, rfl, rfl, rfl⟩

theorem DomainSet.SameConfig.trans (h : set.SameConfig set') (h' : set'.SameConfig set'') :
    set.SameConfig set'' :=
  ⟨h'.1.trans h.1, h'.2.trans h.2, h'.3.trans h.3, h'.4.trans h.4, h'.5.trans h.5, h'.6.trans h.6⟩

theorem DomainSet.Change.refl (h : set.table.Good set.extensions (set.home jhash2)) :
    set.Change jhash2 set 0 where
  toSameConfig := .refl set
  good := h
  settles := by
    simpa using Settles.refl set.extensions set.acct set.table.records

theorem DomainSet.Change.trans (h : set.Change jhash2 set' drift)
    (h' : set'.Change jhash2 set'' drift') : set.Change jhash2 set'' (drift + drift') where
  toSameConfig := h.toSameConfig.trans h'.toSameConfig
  good := h'.good
  settles := by
    have h2 := h'.settles
    rw [h.extensions, h.dsize] at h2
    have h3 := h.settles.trans h2
    refine ⟨h3.elements, ?_, h3.nextAddr_le, h3.addrs, h3.freed⟩
    have := h3.extSize
    omega

theorem DomainSet.Good.change (hg : set.Good jhash2) (h : set.Change jhash2 set' drift) :
    set'.Good jhash2 where
  table := h.good
  elements := by
    have h1 := h.settles.elements
    have h2 := hg.elements
    omega
  addrs := by
    have hle := h.settles.nextAddr_le
    have hr : range' set.acct.nextAddr (set'.acct.nextAddr - set.acct.nextAddr) ++
        range set.acct.nextAddr ~ range set'.acct.nextAddr := by
      refine perm_append_comm.trans ?_
      rw [range_eq_range', range_eq_range']
      have := @range'_append 0 set.acct.nextAddr (set'.acct.nextAddr - set.acct.nextAddr) 1
      rw [Nat.one_mul, Nat.zero_add, Nat.add_sub_cancel' hle] at this
      exact .of_eq this
    rw [DomainSet.commentAddrs, h.extensions]
    exact h.settles.addrs.trans ((hg.addrs.append_left _).trans hr)

/-- An operation that does not drift keeps `ext_size` exact. -/
theorem DomainSet.Exact.change (he : set.Exact) (h : set.Change jhash2 set' 0) : set'.Exact := by
  have h1 := h.settles.extSize
  unfold DomainSet.Exact DomainSet.commentBytes at *
  rw [h.extensions, h.dsize]
  omega

/-- The home of a key is a bucket of the table. -/
theorem DomainSet.home_lt (h : set.table.Good set.extensions (set.home jhash2))
    (e : HashDomainElem) : set.home jhash2 e < set.table.bucket.length := by
  rw [h.length]
  exact hkey_lt jhash2 e set.initval set.table.htableBits

theorem DomainSet.Change.setBucket (h : set.table.Good set.extensions (set.home jhash2)) {i : ℕ}
    (hi : i < set.table.bucket.length) {b : Option (Hbucket A)} {a : Accounts} {delta : ℤ}
    (hgood : GoodBucket set.extensions (set.home jhash2) i b)
    (hs : Settles set.extensions set.acct (bucketRecords (set.table.hbucket i)) a
      (bucketRecords b) delta) (next : HashDomainElem) :
    set.Change jhash2
      { set with acct := a, next := next, table := set.table.setBucket i b }
      (delta - (bucketBytes set.dsize b - bucketBytes set.dsize (set.table.hbucket i))) where
  toSameConfig := ⟨rfl, rfl, rfl, rfl, rfl, rfl⟩
  good := h.setBucket hgood
  settles := by
    have h1 := (hs.frame (set.table.recordsBut i)).perm (set.table.records_perm hi)
      (set.table.records_setBucket_perm hi b)
    have h2 : (set.table.setBucket i b).bucketBytes set.dsize = set.table.bucketBytes set.dsize -
        bucketBytes set.dsize (set.table.hbucket i) + bucketBytes set.dsize b := by
      rw [set.table.hbucket_eq hi]
      exact sum_map_set_add _ _ hi b
    refine ⟨h1.elements, ?_, h1.nextAddr_le, h1.addrs, h1.freed⟩
    rw [h1.extSize]
    simp only [h2]
    omega

theorem mtypeExpire_change (h : set.table.Good set.extensions (set.home jhash2))
    (jiffies : BitVec A.longBits) (alloc : ℕ → Bool) :
    ∃ drift, set.Change jhash2 (mtypeExpire jiffies alloc set) drift ∧
      ((∀ (i : ℕ) (n : Hbucket A), set.table.bucket[i]? = some (some n) →
        ¬n.Shrinks jiffies (alloc i)) → drift = 0) := by
  obtain ⟨delta, hs, hd⟩ := mtypeExpire_settles jiffies alloc h
  refine ⟨delta - ((mtypeExpire jiffies alloc set).table.bucketBytes set.dsize -
    set.table.bucketBytes set.dsize), ⟨⟨rfl, rfl, rfl, rfl, rfl, rfl⟩,
    (mtypeExpire_good jiffies alloc h).1, ?_⟩, fun hno => by rw [hd hno]; omega⟩
  refine ⟨hs.elements, ?_, hs.nextAddr_le, hs.addrs, hs.freed⟩
  rw [hs.extSize]
  omega

end Dset.Hash
