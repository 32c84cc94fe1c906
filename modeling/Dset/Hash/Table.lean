import Dset.Hash.Ext
import Dset.Lib.SlotArray

/-! The content of a table: its records, the invariant of one bucket and the
ledger between the records and the counters of the set. The ledger relates the
accounts before and after an operation to the records it takes out and puts in;
it composes, so an operation is balanced when its pieces are. -/

namespace Dset.Hash

open Dset.Lib List

variable {A : Arch}

/-! ### Records -/

def Slot.records (s : Slot A) : List (Record A) := if s.used then [s.data] else []

theorem Slot.records_used {s : Slot A} (h : s.used = true) : s.records = [s.data] := if_pos h

theorem Slot.records_unused {s : Slot A} (h : s.used = false) : s.records = [] := by
  simp [Slot.records, h]

/-- The records of the used slots of an array. -/
def slotRecords (v : List (Slot A)) : List (Record A) := v.flatMap Slot.records

def Hbucket.records (n : Hbucket A) : List (Record A) := slotRecords n.value

/-- The records of a bucket pointer, none behind a null pointer. -/
def bucketRecords : Option (Hbucket A) → List (Record A)
  | none => []
  | some n => n.records

def Htable.records (t : Htable A) : List (Record A) := t.bucket.flatMap bucketRecords

@[simp] theorem slotRecords_nil : slotRecords ([] : List (Slot A)) = [] := rfl

theorem slotRecords_cons (s : Slot A) (v : List (Slot A)) :
    slotRecords (s :: v) = s.records ++ slotRecords v := rfl

theorem slotRecords_append (v w : List (Slot A)) :
    slotRecords (v ++ w) = slotRecords v ++ slotRecords w := flatMap_append

@[simp] theorem slotRecords_cons_used {s : Slot A} (v : List (Slot A)) (h : s.used = true) :
    slotRecords (s :: v) = s.data :: slotRecords v := by simp [slotRecords_cons, Slot.records, h]

@[simp] theorem slotRecords_cons_unused {s : Slot A} (v : List (Slot A)) (h : s.used = false) :
    slotRecords (s :: v) = slotRecords v := by simp [slotRecords_cons, Slot.records, h]

theorem slotRecords_eq_nil {v : List (Slot A)} (h : ∀ s ∈ v, s.used = false) :
    slotRecords v = [] := by
  induction v with
  | nil => rfl
  | cons s v ih =>
    rw [slotRecords_cons_unused _ (h s (by simp)), ih (fun t ht => h t (by simp [ht]))]

@[simp] theorem slotRecords_zeros (k : ℕ) :
    slotRecords (replicate k (zeroSlot : Slot A)) = [] := by
  apply slotRecords_eq_nil
  intro s hs
  rw [eq_of_mem_replicate hs, zeroSlot]

theorem mem_slotRecords {v : List (Slot A)} {r : Record A} :
    r ∈ slotRecords v ↔ ∃ s ∈ v, s.used = true ∧ s.data = r := by
  simp only [slotRecords, mem_flatMap, Slot.records]
  constructor
  · rintro ⟨s, hs, hr⟩
    split at hr
    · rename_i hu
      exact ⟨s, hs, hu, (mem_singleton.mp hr).symm⟩
    · simp at hr
  · rintro ⟨s, hs, hu, rfl⟩
    exact ⟨s, hs, by simp [hu]⟩

theorem length_slotRecords (v : List (Slot A)) :
    (slotRecords v).length + v.countP (fun s => !s.used) = v.length := by
  induction v with
  | nil => rfl
  | cons s v ih =>
    cases hu : s.used
    · rw [slotRecords_cons_unused _ hu, countP_cons_of_pos (by simp [hu]), length_cons]
      omega
    · rw [slotRecords_cons_used _ hu, countP_cons_of_neg (by simp [hu]), length_cons, length_cons]
      omega

theorem slotRecords_filter_used (v : List (Slot A)) :
    slotRecords (v.filter (·.used)) = slotRecords v := by
  induction v with
  | nil => rfl
  | cons s v ih =>
    cases hu : s.used
    · rw [filter_cons_of_neg (by simp [hu]), slotRecords_cons_unused _ hu, ih]
    · rw [filter_cons_of_pos (by simp [hu]), slotRecords_cons_used _ hu, slotRecords_cons_used _ hu,
        ih]

def recordsBut (v : List (Slot A)) (j : ℕ) : List (Record A) := slotRecords (v.eraseIdx j)

theorem slotRecords_perm {v : List (Slot A)} {j : ℕ} (h : j < v.length) :
    slotRecords v ~ v[j].records ++ recordsBut v j := flatMap_perm_getElem _ _ h

theorem slotRecords_set_perm {v : List (Slot A)} {j : ℕ} (h : j < v.length) (s : Slot A) :
    slotRecords (v.set j s) ~ s.records ++ recordsBut v j := flatMap_set_perm _ _ h s

theorem slotRecords_take_drop {v : List (Slot A)} {p : ℕ}
    (h : ∀ s ∈ v.drop p, s.used = false) : slotRecords v = slotRecords (v.take p) := by
  conv_lhs => rw [← take_append_drop p v]
  rw [slotRecords_append, slotRecords_eq_nil h, append_nil]

/-! ### Tables -/

/-- `rcu_assign_pointer(hbucket(t, i), n)`. -/
def Htable.setBucket (t : Htable A) (i : ℕ) (n : Option (Hbucket A)) : Htable A :=
  { t with bucket := t.bucket.set i n }

def Htable.recordsBut (t : Htable A) (i : ℕ) : List (Record A) :=
  (t.bucket.eraseIdx i).flatMap bucketRecords

theorem Htable.hbucket_eq (t : Htable A) {i : ℕ} (h : i < t.bucket.length) :
    t.hbucket i = t.bucket[i] := by simp [Htable.hbucket, h]

theorem Htable.records_perm (t : Htable A) {i : ℕ} (h : i < t.bucket.length) :
    t.records ~ bucketRecords (t.hbucket i) ++ t.recordsBut i := by
  rw [t.hbucket_eq h]
  exact flatMap_perm_getElem _ _ h

theorem Htable.records_setBucket_perm (t : Htable A) {i : ℕ} (h : i < t.bucket.length)
    (n : Option (Hbucket A)) :
    (t.setBucket i n).records ~ bucketRecords n ++ t.recordsBut i := flatMap_set_perm _ _ h n

theorem Htable.setBucket_self (t : Htable A) {i : ℕ} (h : i < t.bucket.length) :
    t.setBucket i (t.hbucket i) = t := by
  rw [t.hbucket_eq h, Htable.setBucket, set_getElem_self]

/-! ### The invariant of a bucket -/

/-- The form of a bucket. An unused slot of a set with comments keeps no comment
pointer behind. -/
structure Hbucket.Shape (x : Extensions) (n : Hbucket A) : Prop where
  size_dvd : ahashInitSize ∣ n.size
  size_le : n.size ≤ ahashMaxSize
  pos_le : n.pos ≤ n.size
  unused : ∀ s ∈ n.value.drop n.pos, s.used = false
  clean : x.comment = true → ∀ s ∈ n.value, s.used = false → s.data.comment = none

/-- A bucket as the operations leave it at place `i` of a table whose hash
sends a key to `home key`. -/
structure Hbucket.Good (x : Extensions) (home : HashDomainElem → ℕ) (i : ℕ) (n : Hbucket A) :
    Prop extends n.Shape x where
  padded : ∀ r ∈ n.records, ZeroPadded r.elem.domain
  home : ∀ r ∈ n.records, home r.elem = i
  nodup : (n.records.map Record.elem).Nodup

def GoodBucket (x : Extensions) (home : HashDomainElem → ℕ) (i : ℕ) :
    Option (Hbucket A) → Prop
  | none => True
  | some n => n.Good x home i

/-- Every bucket of the table is good at its place. -/
structure Htable.Good (x : Extensions) (home : HashDomainElem → ℕ) (t : Htable A) : Prop where
  length : t.bucket.length = jhashSize t.htableBits
  bucket : ∀ i, ∀ h : i < t.bucket.length, GoodBucket x home i t.bucket[i]

theorem Hbucket.Good.records_take {x : Extensions} {home : HashDomainElem → ℕ} {i : ℕ} {n : Hbucket A}
    (h : n.Good x home i) : n.records = slotRecords (n.value.take n.pos) :=
  slotRecords_take_drop h.unused

theorem GoodBucket.records {x : Extensions} {home : HashDomainElem → ℕ} {i : ℕ} {o : Option (Hbucket A)}
    (h : GoodBucket x home i o) :
    (∀ r ∈ bucketRecords o, ZeroPadded r.elem.domain ∧ home r.elem = i) ∧
      ((bucketRecords o).map Record.elem).Nodup := by
  cases o with
  | none => simp [bucketRecords]
  | some n =>
    have hn : n.Good x home i := h
    exact ⟨fun r hr => ⟨hn.padded r hr, hn.home r hr⟩, hn.nodup⟩

theorem Htable.Good.setBucket {x : Extensions} {home : HashDomainElem → ℕ} {t : Htable A} (h : t.Good x home)
    {i : ℕ} {o : Option (Hbucket A)} (ho : GoodBucket x home i o) : (t.setBucket i o).Good x home := by
  refine ⟨by simpa [Htable.setBucket] using h.length, ?_⟩
  intro j hj
  simp only [Htable.setBucket] at hj ⊢
  rw [getElem_set]
  split
  · rename_i hij
    exact hij ▸ ho
  · exact h.bucket j (by simpa using hj)

theorem Htable.Good.hbucket {x : Extensions} {home : HashDomainElem → ℕ} {t : Htable A} (h : t.Good x home) (i : ℕ) :
    GoodBucket x home i (t.hbucket i) := by
  by_cases hi : i < t.bucket.length
  · rw [t.hbucket_eq hi]
    exact h.bucket i hi
  · simp [Htable.hbucket, hi, GoodBucket]

theorem Htable.Good.mem_records {x : Extensions} {home : HashDomainElem → ℕ} {t : Htable A} (h : t.Good x home)
    {r : Record A} (hr : r ∈ t.records) :
    ZeroPadded r.elem.domain ∧ r ∈ bucketRecords (t.hbucket (home r.elem)) := by
  obtain ⟨i, hi, hri⟩ := mem_flatMap_getElem hr
  have hrec := (h.bucket i hi).records.1 r hri
  refine ⟨hrec.1, ?_⟩
  rw [hrec.2, t.hbucket_eq hi]
  exact hri

theorem Htable.mem_records_of_bucket {t : Htable A} {i : ℕ} {r : Record A}
    (hr : r ∈ bucketRecords (t.hbucket i)) : r ∈ t.records := by
  by_cases hi : i < t.bucket.length
  · exact (t.records_perm hi).mem_iff.mpr (mem_append_left _ hr)
  · simp [Htable.hbucket, hi, bucketRecords] at hr

/-- No two used slots of a good table hold the same key. -/
theorem Htable.Good.nodup {x : Extensions} {home : HashDomainElem → ℕ} {t : Htable A} (h : t.Good x home) :
    (t.records.map Record.elem).Nodup := by
  unfold Htable.records
  rw [map_flatMap]
  apply nodup_flatMap_of_home (k := 0)
  · intro i hi e he
    obtain ⟨r, hr, rfl⟩ := mem_map.mp he
    rw [Nat.zero_add]
    exact ((h.bucket i hi).records.1 r hr).2
  · intro o ho
    obtain ⟨i, hi, rfl⟩ := getElem_of_mem ho
    exact (h.bucket i hi).records.2

/-- The records of the other buckets have other keys than those at home in `i`. -/
theorem Htable.Good.recordsBut_ne {x : Extensions} {home : HashDomainElem → ℕ} {t : Htable A}
    (h : t.Good x home) {i : ℕ} (hi : i < t.bucket.length) {r : Record A}
    (hr : r ∈ t.recordsBut i) : i ≠ home r.elem := by
  rintro rfl
  have hperm := t.records_perm hi
  have hb := (h.mem_records (hperm.mem_iff.mpr (mem_append_right _ hr))).2
  have hn := (hperm.map Record.elem).nodup_iff.mp h.nodup
  rw [map_append, nodup_append] at hn
  exact hn.2.2 _ (mem_map_of_mem hb) _ (mem_map_of_mem hr) rfl

/-! ### The ledger -/

def commentBytes (x : Extensions) (rs : List (Record A)) : ℤ :=
  (rs.map fun r => if x.comment then (r.comment.elim 0 fun c => (commentSize A c : ℤ)) else 0).sum

def commentAddrs (x : Extensions) (rs : List (Record A)) : List ℕ :=
  rs.flatMap fun r => if x.comment then (r.comment.elim [] fun c => [c.addr]) else []

@[simp] theorem commentBytes_nil (x : Extensions) : commentBytes x ([] : List (Record A)) = 0 := rfl

@[simp] theorem commentAddrs_nil (x : Extensions) :
    commentAddrs x ([] : List (Record A)) = [] := rfl

theorem commentAddrs_eq_nil {x : Extensions} (h : x.comment = false) (rs : List (Record A)) :
    commentAddrs x rs = [] := by simp [commentAddrs, h]

theorem commentBytes_append (x : Extensions) (rs ss : List (Record A)) :
    commentBytes x (rs ++ ss) = commentBytes x rs + commentBytes x ss := by
  simp [commentBytes]

theorem commentAddrs_append (x : Extensions) (rs ss : List (Record A)) :
    commentAddrs x (rs ++ ss) = commentAddrs x rs ++ commentAddrs x ss := flatMap_append

theorem commentBytes_perm (x : Extensions) {rs ss : List (Record A)} (h : rs ~ ss) :
    commentBytes x rs = commentBytes x ss := (h.map _).sum_eq

theorem commentAddrs_perm (x : Extensions) {rs ss : List (Record A)} (h : rs ~ ss) :
    commentAddrs x rs ~ commentAddrs x ss := h.flatMap_right _

/-- From accounts `a` with the records `rs` to accounts `a'` with `rs'`: the
element counter moves with the number of records, `ext_size` with the bytes of
their comments and `delta` more, and every comment that was held or is freshly
allocated is held or freed afterwards, once. What is freed stays so. -/
structure Settles (x : Extensions) (a : Accounts) (rs : List (Record A)) (a' : Accounts)
    (rs' : List (Record A)) (delta : ℤ) : Prop where
  elements : a'.elements - rs'.length = a.elements - rs.length
  extSize : a'.extSize - commentBytes x rs' = a.extSize - commentBytes x rs + delta
  nextAddr_le : a.nextAddr ≤ a'.nextAddr
  addrs : commentAddrs x rs' ++ a'.freed ~
    range' a.nextAddr (a'.nextAddr - a.nextAddr) ++ (commentAddrs x rs ++ a.freed)
  freed : a.freed ⊆ a'.freed

namespace Settles

variable {x : Extensions} {a a' a'' : Accounts} {rs rs' rs'' ks : List (Record A)} {d e : ℤ}

theorem refl (x : Extensions) (a : Accounts) (rs : List (Record A)) : Settles x a rs a rs 0 where
  elements := rfl
  extSize := by omega
  nextAddr_le := le_rfl
  addrs := by simp
  freed := Subset.refl _

theorem trans (h : Settles x a rs a' rs' d) (h' : Settles x a' rs' a'' rs'' e) :
    Settles x a rs a'' rs'' (d + e) where
  elements := h'.elements.trans h.elements
  extSize := by rw [h'.extSize, h.extSize]; omega
  nextAddr_le := h.nextAddr_le.trans h'.nextAddr_le
  addrs := by
    have h1 := h.nextAddr_le
    have h2 := h'.nextAddr_le
    have hr : range' a.nextAddr (a''.nextAddr - a.nextAddr) =
        range' a.nextAddr (a'.nextAddr - a.nextAddr) ++
          range' a'.nextAddr (a''.nextAddr - a'.nextAddr) := by
      rw [show a''.nextAddr - a.nextAddr =
        (a'.nextAddr - a.nextAddr) + (a''.nextAddr - a'.nextAddr) by omega, ← range'_append]
      simp only [Nat.one_mul]
      rw [show a.nextAddr + (a'.nextAddr - a.nextAddr) = a'.nextAddr by omega]
    refine h'.addrs.trans ?_
    rw [hr]
    refine (h.addrs.append_left _).trans ?_
    rw [← append_assoc]
    exact perm_append_comm.append_right _
  freed := Subset.trans h.freed h'.freed

theorem perm (h : Settles x a rs a' rs' d) (hp : ks ~ rs) (hp' : rs'' ~ rs') :
    Settles x a ks a' rs'' d where
  elements := by rw [hp'.length_eq, hp.length_eq]; exact h.elements
  extSize := by rw [commentBytes_perm x hp', commentBytes_perm x hp]; exact h.extSize
  nextAddr_le := h.nextAddr_le
  addrs := ((commentAddrs_perm x hp').append_right _).trans
    (h.addrs.trans (((commentAddrs_perm x hp).symm.append_right _).append_left _))
  freed := h.freed

theorem frame (h : Settles x a rs a' rs' d) (ks : List (Record A)) :
    Settles x a (rs ++ ks) a' (rs' ++ ks) d where
  elements := by
    have := h.elements
    simp only [length_append]; push_cast; omega
  extSize := by
    have := h.extSize
    simp only [commentBytes_append]; omega
  nextAddr_le := h.nextAddr_le
  addrs := by
    have h1 : commentAddrs x (rs' ++ ks) ++ a'.freed ~
        commentAddrs x ks ++ (commentAddrs x rs' ++ a'.freed) := by
      rw [commentAddrs_append, append_assoc]
      exact perm_append_comm_assoc _ _ _
    have h2 : commentAddrs x (rs ++ ks) ++ a.freed ~
        commentAddrs x ks ++ (commentAddrs x rs ++ a.freed) := by
      rw [commentAddrs_append, append_assoc]
      exact perm_append_comm_assoc _ _ _
    refine h1.trans (((h.addrs.append_left _).trans ?_).trans (h2.symm.append_left _))
    exact perm_append_comm_assoc _ _ _
  freed := h.freed

end Settles

end Dset.Hash
