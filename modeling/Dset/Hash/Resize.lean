import Dset.Hash.Lookup
import Mathlib.Tactic.Ring

/-! `mtype_resize`: all records are copied into a table of twice the size, and
again twice that size as long as one of its buckets overflows. A copy keeps the
comment pointer. `ext_size` is set to the sum counted on the way, a header for
every `AHASH_INIT_SIZE` slots and nothing for the comments. -/

namespace Dset.Hash

open Dset.Lib List

variable {A : Arch}

/-- `sizeof(struct htable)`: two counters, the size and its padding. -/
def sizeofHtable (A : Arch) : ℕ := if A.longBits = 64 then 16 else 12

def htableSize (A : Arch) (hbits : ℕ) : ℕ :=
  if 31 < hbits then 0
  else if (2 ^ A.longBits - 1 - sizeofHtable A) / (A.longBits / 8) < jhashSize hbits then 0
  else jhashSize hbits * (A.longBits / 8) + sizeofHtable A

/-- The outcomes of the allocations of `mtype_resize`: of a table by its
`htable_bits`, and of a bucket by that and the number of records copied. -/
structure ResizeAlloc where
  table : ℕ → Bool
  bucket : ℕ → ℕ → Bool

/-- The used positions in the order in which the loops visit them. -/
def Htable.walk (t : Htable A) : List (Record A) :=
  t.bucket.flatMap fun o => match o with
    | none => []
    | some n => slotRecords (n.value.take n.pos)

/-- `memcpy` to the next free position. -/
def Hbucket.append (m : Hbucket A) (data : Record A) : Hbucket A :=
  ⟨m.pos + 1, m.value.set m.pos ⟨true, data⟩⟩

/-- One record copied to the bucket `m` of the new table, with `extsize`. -/
def resizeCopy (dsize : ℕ) (alloc : Bool) (data : Record A) (extsize : ℤ) :
    Option (Hbucket A) → Except Errno (Hbucket A × ℤ)
  | none =>
    if !alloc then .error .enomem
    else .ok (newBucket.append data, extsize + extSize A ahashInitSize dsize)
  | some m =>
    if m.size ≤ m.pos then
      if ahashMaxSize ≤ m.size then .error .eagain
      else if !alloc then .error .enomem
      else .ok (m.grow.append data, extsize + extSize A ahashInitSize dsize)
    else .ok (m.append data, extsize)

/-- The loops of `mtype_resize` over the records, `i` of them copied before. -/
def resizeFill (key : HashDomainElem → ℕ) (dsize : ℕ) (alloc : ℕ → Bool) :
    List (Record A) → ℕ → List (Option (Hbucket A)) → ℤ →
      Except Errno (List (Option (Hbucket A)) × ℤ)
  | [], _, t, extsize => .ok (t, extsize)
  | data :: rs, i, t, extsize => do
    let p ← resizeCopy dsize (alloc i) data extsize (t.getD (key data.elem) none)
    resizeFill key dsize alloc rs (i + 1) (t.set (key data.elem) (some p.1)) p.2

/-- From label `retry` on, with `room` increments of the `u8` left before it
wraps to zero. -/
def resizeRetry (jhash2 : HashDomainElem → BitVec 32 → BitVec 32) (alloc : ResizeAlloc)
    (set : DomainSet A) : ℕ → Except Fault (Ret × DomainSet A × Option (Htable A))
  | 0 => .ok (.err .dsetErrHashFull, set, none)
  | room + 1 =>
    let htableBits := 255 - room
    -- `kzalloc` of size zero does not fail, and the header is written
    if htableSize A htableBits = 0 then .error .zeroSizePtr
    else if !alloc.table htableBits then .ok (.err .enomem, set, none)
    else
      let orig := set.table
      match resizeFill (fun e => hkey jhash2 e set.initval htableBits) set.dsize
          (alloc.bucket htableBits) orig.walk 0 (replicate (jhashSize htableBits) none) 0 with
      | .ok p =>
        .ok (.ok, { set with
            acct := { set.acct with extSize := p.2 }
            table := ⟨0, 0, htableBits, p.1⟩ }, some { orig with ref := 1 })
      | .error e =>
        let set := { set with table := { orig with ref := 0 } }
        if e = .eagain then resizeRetry jhash2 alloc set room else .ok (.err e, set, none)

/-- `mtype_resize`: also the table that was replaced, which is destroyed here
when its `uref` is zero. -/
def mtypeResize (jhash2 : HashDomainElem → BitVec 32 → BitVec 32) (alloc : ResizeAlloc)
    (set : DomainSet A) : Except Fault (Ret × DomainSet A × Option (Htable A)) :=
  resizeRetry jhash2 alloc set (255 - set.table.htableBits)

/-! ### One table filled -/

/-- A bucket filled from its first position on, in the array it needs. -/
structure Hbucket.Packed (n : Hbucket A) : Prop where
  records : n.records.length = n.pos
  pos_pos : 0 < n.pos
  size_lt : n.size < n.pos + ahashInitSize

/-- What `extsize` counts for a bucket. -/
def resizeBytes (dsize : ℕ) : Option (Hbucket A) → ℤ
  | none => 0
  | some n => (n.size / ahashInitSize : ℕ) * (extSize A ahashInitSize dsize : ℤ)

/-- The new table after the records `rs` are copied. -/
structure Filled (x : Extensions) (key : HashDomainElem → ℕ) (dsize : ℕ) (rs : List (Record A))
    (t : List (Option (Hbucket A))) (extsize : ℤ) : Prop where
  good : ∀ i, ∀ h : i < t.length, GoodBucket x key i t[i]
  packed : ∀ n, some n ∈ t → n.Packed
  records : t.flatMap bucketRecords ~ rs
  extsize : extsize = (t.map (resizeBytes dsize)).sum

section
variable {x : Extensions} {key : HashDomainElem → ℕ} {dsize : ℕ}

/-- A record behind the last one of a bucket that has room. -/
theorem Hbucket.Good.append {m : Hbucket A} {i : ℕ} (hm : m.Good x key i) (hlt : m.pos < m.size)
    {data : Record A} (hd : ZeroPadded data.elem.domain) (hk : key data.elem = i)
    (hne : ∀ r ∈ m.records, r.elem ≠ data.elem) :
    (m.append data).Good x key i ∧ (m.append data).records ~ data :: m.records ∧
      (m.append data).size = m.size := by
  have hlen : m.pos < m.value.length := hlt
  have hu : m.value[m.pos].used = false := by
    refine hm.unused _ ?_
    rw [drop_eq_getElem_cons hlt]
    exact mem_cons_self
  have hrest : m.records ~ recordsBut m.value m.pos := by
    have := slotRecords_perm hlen
    rwa [Slot.records_unused hu] at this
  obtain ⟨hg, hr⟩ := (hm.append_shape hlt).store (i := i) (Nat.lt_succ_self m.pos)
    (r := data)
    (fun k hkm => by
      have hkr := hrest.mem_iff.mpr hkm
      exact ⟨hm.padded k hkr, hm.home k hkr, hne k hkr⟩)
    ((hrest.map Record.elem).nodup_iff.mp hm.nodup) hd hk
  exact ⟨hg, hr.trans (hrest.symm.cons data), by simp [Hbucket.size, Hbucket.append]⟩

/-- The grown copy of a full bucket is the same bucket with more room. -/
theorem Hbucket.Good.grow {m : Hbucket A} {i : ℕ} (hm : m.Good x key i)
    (hmax : m.size < ahashMaxSize) (hfull : m.size ≤ m.pos) :
    m.grow.Good x key i ∧ m.grow.records = m.records ∧ m.grow.size = m.size + ahashInitSize := by
  have hrec : m.grow.records = m.records := by
    rw [Hbucket.records, Hbucket.grow, slotRecords_append, slotRecords_zeros, append_nil]
    rfl
  have hsize : m.grow.size = m.size + ahashInitSize := by simp [Hbucket.size, Hbucket.grow]
  have hpos : m.pos = m.value.length := le_antisymm hm.pos_le hfull
  have hshape := hm.grow_shape hfull hmax
  refine ⟨⟨⟨hshape.size_dvd, hshape.size_le, ?_, ?_, hshape.clean⟩, ?_, ?_, ?_⟩, hrec, hsize⟩
  · rw [hsize]
    exact hm.pos_le.trans (Nat.le_add_right _ _)
  · intro s hs
    simp only [Hbucket.grow] at hs
    rw [drop_left' hpos.symm] at hs
    rw [eq_of_mem_replicate hs]; rfl
  · rw [hrec]; exact hm.padded
  · rw [hrec]; exact hm.home
  · rw [hrec]; exact hm.nodup

theorem newBucket_good {i : ℕ} : (newBucket : Hbucket A).Good x key i := by
  have hrec : (newBucket : Hbucket A).records = [] := slotRecords_zeros _
  have hsize : (newBucket : Hbucket A).size = ahashInitSize := by simp [Hbucket.size, newBucket]
  refine ⟨⟨hsize ▸ dvd_refl _, hsize ▸ by decide, Nat.zero_le _, ?_, ?_⟩, ?_, ?_, ?_⟩
  · intro s hs
    rw [eq_of_mem_replicate (mem_of_mem_drop hs)]; rfl
  · intro _ s hs _
    rw [eq_of_mem_replicate hs]; rfl
  all_goals simp [hrec]

variable (dsize) in
/-- One record copied: a good packed bucket with that record more, or a full
bucket behind `EAGAIN`. -/
theorem resizeCopy_spec {o : Option (Hbucket A)} {i : ℕ} (alloc : Bool) {data : Record A}
    (extsize : ℤ) (ho : GoodBucket x key i o) (hp : ∀ n, o = some n → n.Packed)
    (hd : ZeroPadded data.elem.domain) (hk : key data.elem = i)
    (hne : ∀ r ∈ bucketRecords o, r.elem ≠ data.elem) :
    match resizeCopy dsize alloc data extsize o with
    | .ok p => p.1.Good x key i ∧ p.1.Packed ∧ p.1.records ~ data :: bucketRecords o ∧
        p.2 - extsize = resizeBytes dsize (some p.1) - resizeBytes dsize o
    | .error e => (e = .enomem) ∨ (e = .eagain ∧ ahashMaxSize ≤ (bucketRecords o).length) := by
  unfold resizeCopy
  cases o with
  | none =>
    cases alloc
    · exact .inl rfl
    · simp only [Bool.not_true, Bool.false_eq_true, if_false]
      have hs0 : (newBucket : Hbucket A).size = ahashInitSize := by simp [Hbucket.size, newBucket]
      have hnil : (newBucket : Hbucket A).records = [] := slotRecords_zeros _
      obtain ⟨hg, hr, hs⟩ := (newBucket_good (A := A) (x := x) (i := i)).append
        (by rw [hs0]; exact Nat.zero_lt_succ 3) hd hk (by simp [hnil])
      rw [hnil] at hr
      refine ⟨hg, ⟨hr.length_eq, Nat.succ_pos _, ?_⟩, hr, ?_⟩
      · rw [hs, hs0]; simp [Hbucket.append, ahashInitSize]
      · rw [resizeBytes, resizeBytes, hs, hs0]
        simp [ahashInitSize]
  | some m =>
    have hm : m.Good x key i := ho
    have hpk := hp m rfl
    by_cases hfull : m.size ≤ m.pos
    · simp only [if_pos hfull]
      by_cases hmax : ahashMaxSize ≤ m.size
      · simp only [if_pos hmax]
        refine .inr ⟨trivial, ?_⟩
        show ahashMaxSize ≤ m.records.length
        rw [hpk.records]
        exact hmax.trans hfull
      simp only [if_neg hmax]
      cases alloc
      · exact .inl rfl
      · simp only [Bool.not_true, Bool.false_eq_true, if_false]
        obtain ⟨hg0, hr0, hs0⟩ := hm.grow (not_le.mp hmax) hfull
        have hlt : m.grow.pos < m.grow.size := by
          rw [hs0]
          exact Nat.lt_of_le_of_lt hm.pos_le (Nat.lt_add_of_pos_right (by decide))
        obtain ⟨hg, hr, hs⟩ := hg0.append hlt hd hk (by rw [hr0]; exact hne)
        rw [hr0] at hr
        refine ⟨hg, ⟨?_, Nat.succ_pos _, ?_⟩, hr, ?_⟩
        · rw [hr.length_eq, length_cons, hpk.records]; rfl
        · rw [hs, hs0]
          simp only [Hbucket.append, Hbucket.grow]
          have := hm.pos_le
          omega
        · rw [resizeBytes, resizeBytes, hs, hs0, Nat.add_div_right _ (by decide)]
          push_cast
          ring
    · simp only [if_neg hfull]
      obtain ⟨hg, hr, hs⟩ := hm.append (not_le.mp hfull) hd hk hne
      refine ⟨hg, ⟨?_, Nat.succ_pos _, ?_⟩, hr, ?_⟩
      · rw [hr.length_eq, length_cons, hpk.records]; rfl
      · have := hpk.size_lt
        rw [hs]
        simp only [Hbucket.append]
        omega
      · rw [resizeBytes, resizeBytes, hs]
        omega

end

section
variable {x : Extensions} {key : HashDomainElem → ℕ} {dsize : ℕ}

/-- The records of one bucket are those of the table that hash to it. -/
theorem Filled.length_bucket {rs : List (Record A)} {t : List (Option (Hbucket A))} {extsize : ℤ}
    (h : Filled x key dsize rs t extsize) {k : ℕ} (hk : k < t.length) :
    (bucketRecords t[k]).length ≤ rs.countP fun r => key r.elem = k := by
  rw [← h.records.countP_eq, (flatMap_perm_getElem bucketRecords t hk).countP_eq, countP_append,
    countP_eq_length.mpr]
  · exact Nat.le_add_right _ _
  · intro r hr
    simpa using ((h.good k hk).records.1 r hr).2

/-- What hashes to one place fits into a bucket. -/
theorem Filled.countP_le {rs : List (Record A)} {t : List (Option (Hbucket A))} {extsize : ℤ}
    (h : Filled x key dsize rs t extsize) (hkey : ∀ e, key e < t.length) (k : ℕ) :
    (rs.countP fun r => key r.elem = k) ≤ ahashMaxSize := by
  by_cases hk : k < t.length
  · have hother : ((t.eraseIdx k).flatMap bucketRecords).countP (fun r => key r.elem = k) = 0 := by
      rw [countP_eq_zero]
      intro r hr hrk
      obtain ⟨o, ho, hro⟩ := mem_flatMap.mp hr
      obtain ⟨j, hj, hne, rfl⟩ := mem_eraseIdx_iff_getElem.mp ho
      exact hne (((h.good j hj).records.1 r hro).2.symm.trans (of_decide_eq_true hrk))
    rw [← h.records.countP_eq, (flatMap_perm_getElem bucketRecords t hk).countP_eq, countP_append,
      hother, Nat.add_zero]
    refine countP_le_length.trans ?_
    have hg := h.good k hk
    cases ho : t[k] with
    | none => simp [bucketRecords]
    | some n =>
      rw [ho] at hg
      have hn : n.Good x key k := hg
      have h1 := length_slotRecords n.value
      have h2 : n.value.length ≤ ahashMaxSize := hn.size_le
      show (slotRecords n.value).length ≤ ahashMaxSize
      omega
  · rw [countP_eq_zero.mpr]
    · exact Nat.zero_le _
    · intro r _ hrk
      exact hk (of_decide_eq_true hrk ▸ hkey r.elem)

theorem Filled.empty (n : ℕ) :
    Filled x key dsize ([] : List (Record A)) (replicate n none) 0 where
  good i h := by simp [GoodBucket]
  packed n h := by simp at h
  records := by simp [bucketRecords]
  extsize := by simp [resizeBytes]

theorem Filled.set {rs : List (Record A)} {t : List (Option (Hbucket A))} {extsize extsize' : ℤ}
    (h : Filled x key dsize rs t extsize) {k : ℕ} (hk : k < t.length) {m : Hbucket A}
    {data : Record A} (hm : m.Good x key k) (hp : m.Packed)
    (hrec : m.records ~ data :: bucketRecords t[k])
    (hext : extsize' - extsize = resizeBytes dsize (some m) - resizeBytes dsize t[k]) :
    Filled x key dsize (rs ++ [data]) (t.set k (some m)) extsize' where
  good i hi := by
    rw [getElem_set]
    split
    · rename_i hki
      exact hki ▸ hm
    · exact h.good i (by simpa using hi)
  packed n hn := by
    rcases mem_or_eq_of_mem_set hn with hn | hn
    · exact h.packed n hn
    · rw [Option.some.inj hn]; exact hp
  records := by
    have h1 := flatMap_set_perm bucketRecords t hk (some m)
    have h2 := (flatMap_perm_getElem bucketRecords t hk).symm.trans h.records
    have h3 := h1.trans (hrec.append_right _)
    exact (h3.trans (h2.cons data)).trans (perm_append_singleton data rs).symm
  extsize := by
    rw [sum_map_set_add _ _ hk, ← h.extsize]
    omega

variable (key dsize) in
/-- All records copied, or more of them in one place than a bucket can take. -/
theorem resizeFill_spec (alloc : ℕ → Bool) {done : List (Record A)} (rs : List (Record A)) {i : ℕ}
    {t : List (Option (Hbucket A))} {extsize : ℤ} (hkey : ∀ e, key e < t.length)
    (hpad : ∀ r ∈ rs, ZeroPadded r.elem.domain) (hnodup : ((done ++ rs).map Record.elem).Nodup)
    (h : Filled x key dsize done t extsize) :
    match resizeFill key dsize alloc rs i t extsize with
    | .ok p => Filled x key dsize (done ++ rs) p.1 p.2 ∧ p.1.length = t.length
    | .error e => e = .enomem ∨ (e = .eagain ∧
        ∃ k, ahashMaxSize < (done ++ rs).countP fun r => key r.elem = k) := by
  induction rs generalizing done i t extsize with
  | nil => exact ⟨by simpa using h, rfl⟩
  | cons data rs ih =>
    have hk := hkey data.elem
    have hsplit : done ++ data :: rs = (done ++ [data]) ++ rs := by simp
    have hne : ∀ r ∈ bucketRecords t[key data.elem], r.elem ≠ data.elem := by
      intro r hr he
      have hmem : r ∈ done := h.records.mem_iff.mp (mem_flatMap.mpr ⟨_, getElem_mem hk, hr⟩)
      rw [map_append, nodup_append] at hnodup
      exact hnodup.2.2 _ (mem_map_of_mem hmem) _ (mem_map_of_mem mem_cons_self) he
    have hcopy := resizeCopy_spec dsize (alloc i) extsize
      (h.good _ hk) (fun n hn => h.packed n (hn ▸ getElem_mem hk)) (hpad data mem_cons_self) rfl hne
    have hget : t.getD (key data.elem) none = t[key data.elem] := by simp [hk]
    unfold resizeFill
    rw [hget]
    generalize resizeCopy dsize (alloc i) data extsize t[key data.elem] = res at hcopy
    cases res with
    | error e =>
      refine hcopy.imp id (fun hfull => ⟨hfull.1, key data.elem, ?_⟩)
      -- the full bucket and the record at hand
      have hle := h.length_bucket hk
      rw [countP_append, countP_cons_of_pos (by simp)]
      omega
    | ok p =>
      obtain ⟨hg, hp, hrec, hext⟩ := hcopy
      rw [hsplit] at hnodup ⊢
      have := ih (i := i + 1) (t := t.set (key data.elem) (some p.1)) (by simpa using hkey)
        (fun r hr => hpad r (mem_cons_of_mem _ hr)) hnodup (h.set hk hg hp hrec hext)
      simpa [bind, Except.bind] using this

/-- What `extsize` counts is what the buckets weigh while each has at most
`AHASH_INIT_SIZE` records. -/
theorem Filled.extsize_eq {rs : List (Record A)} {t : List (Option (Hbucket A))} {extsize : ℤ}
    (h : Filled x key dsize rs t extsize)
    (hspread : ∀ k, (rs.countP fun r => key r.elem = k) ≤ ahashInitSize) :
    extsize = (t.map (bucketBytes dsize)).sum := by
  rw [h.extsize]
  congr 1
  apply map_congr_left
  intro o ho
  cases o with
  | none => rfl
  | some n =>
    obtain ⟨k, hk, hn⟩ := getElem_of_mem ho
    have hg : n.Good x key k := by
      have := h.good k hk
      rwa [hn] at this
    have hp := h.packed n ho
    have hle := (h.length_bucket hk).trans (hspread k)
    have hlen : (bucketRecords t[k]).length = n.pos := by rw [hn]; exact hp.records
    have h1 := hp.pos_pos
    have h2 := hp.size_lt
    have h3 := hg.pos_le
    obtain ⟨c, hc⟩ := hg.size_dvd
    have hsize : n.size = ahashInitSize := by
      simp only [ahashInitSize] at *
      omega
    rw [resizeBytes, bucketBytes, hsize, Nat.div_self (by decide)]
    simp

end

/-! ### The set -/

section
variable (jhash2 : HashDomainElem → BitVec 32 → BitVec 32) (set : DomainSet A)

/-- Records of the set that a table of `htableBits` sends to bucket `k`. -/
def DomainSet.load (htableBits k : ℕ) : ℕ :=
  set.table.records.countP fun r => hkey jhash2 r.elem set.initval htableBits = k

/-- The first larger table in which no bucket overflows has at most
`AHASH_INIT_SIZE` records in each, and the set holds no comments. -/
def ResizeSettles : Prop :=
  set.commentBytes = 0 ∧
    ∀ b, set.table.htableBits < b → (∀ k, set.load jhash2 b k ≤ ahashMaxSize) →
      (∀ b', set.table.htableBits < b' → b' < b → ∃ k, ahashMaxSize < set.load jhash2 b' k) →
      ∀ k, set.load jhash2 b k ≤ ahashInitSize

/-- What `mtype_resize` makes of the set, and the table it replaces. -/
inductive ResizeResult : Ret → DomainSet A → Option (Htable A) → Prop
  | failed (e : Errno) (ref : ℤ) (he : e = .dsetErrHashFull ∨ e = .enomem) :
      ResizeResult (.err e) { set with table := { set.table with ref := ref } } none
  | resized (set' : DomainSet A) (drift : ℤ)
      (hbits : set.table.htableBits < set'.table.htableBits) (hmax : set'.table.htableBits ≤ 31)
      (hrec : set'.table.records ~ set.table.records) (hchange : set.Change jhash2 set' drift)
      (hacct : set'.acct = { set.acct with extSize := set'.acct.extSize })
      (hexact : ResizeSettles jhash2 set → set'.Exact) :
      ResizeResult .ok set' (some { set.table with ref := 1 })

variable {jhash2 set}

theorem Htable.Good.walk_eq {x : Extensions} {home : HashDomainElem → ℕ} {t : Htable A}
    (h : t.Good x home) : t.walk = t.records := by
  refine flatMap_congr fun o ho => ?_
  cases o with
  | none => rfl
  | some n =>
    obtain ⟨i, hi, hn⟩ := getElem_of_mem ho
    have hg : n.Good x home i := by
      have := h.bucket i hi
      rwa [hn] at this
    exact hg.records_take.symm

theorem htableSize_ne_zero {b : ℕ} (h : htableSize A b ≠ 0) : b ≤ 31 := by
  by_contra hb
  exact h (if_pos (not_le.mp hb))

/-- The set over a new table that holds its records. -/
theorem Filled.resized {b : ℕ} {t : List (Option (Hbucket A))} {extsize : ℤ} (hb : set.table.htableBits < b) (hmax : b ≤ 31)
    (hlen : t.length = jhashSize b)
    (hf : Filled set.extensions (fun e => hkey jhash2 e set.initval b) set.dsize
      set.table.records t extsize)
    (hover : ∀ b', set.table.htableBits < b' → b' < b → ∃ k, ahashMaxSize < set.load jhash2 b' k) :
    ResizeResult jhash2 set .ok
      { set with acct := { set.acct with extSize := extsize }, table := ⟨0, 0, b, t⟩ }
      (some { set.table with ref := 1 }) := by
  set set' : DomainSet A :=
    { set with acct := { set.acct with extSize := extsize }, table := ⟨0, 0, b, t⟩ } with hset
  have hrec : set'.table.records ~ set.table.records := hf.records
  have hbytes : set'.table.bucketBytes set.dsize = (t.map (bucketBytes set.dsize)).sum := rfl
  refine .resized set' (extsize - set.acct.extSize - (set'.table.bucketBytes set.dsize -
    set.table.bucketBytes set.dsize)) hb hmax hrec ⟨⟨rfl, rfl, rfl, rfl, rfl, rfl⟩, ?_, ?_⟩ rfl ?_
  · exact ⟨hlen, hf.good⟩
  · refine ⟨?_, ?_, le_rfl, ?_, Subset.refl _⟩
    · rw [hrec.length_eq]
    · rw [commentBytes_perm _ hrec]
      simp only [hset]
      omega
    · rw [show set'.acct.nextAddr = set.acct.nextAddr from rfl, Nat.sub_self]
      exact (commentAddrs_perm set.extensions hrec).append_right set.acct.freed
  · rintro ⟨hc, hfirst⟩
    have hle : ∀ k, set.load jhash2 b k ≤ ahashMaxSize :=
      hf.countP_le fun e => hlen ▸ hkey_lt jhash2 e set.initval b
    have h0 : set'.commentBytes = 0 := by
      rw [DomainSet.commentBytes, commentBytes_perm _ hrec]
      exact hc
    have h1 := hf.extsize_eq (hfirst b hb hle hover)
    unfold DomainSet.Exact
    rw [h0]
    show extsize = set'.table.bucketBytes set.dsize + 0
    rw [hbytes, h1]
    omega

/-- The retries of `mtype_resize`, all smaller tables having overflowed. -/
theorem resizeRetry_result (h : set.table.Good set.extensions (set.home jhash2))
    (alloc : ResizeAlloc) (room : ℕ) (ref : ℤ) (hroom : room ≤ 255 - set.table.htableBits)
    (hover : ∀ b', set.table.htableBits < b' → b' < 256 - room →
      ∃ k, ahashMaxSize < set.load jhash2 b' k) :
    match resizeRetry jhash2 alloc { set with table := { set.table with ref := ref } } room with
    | .error e => e = .zeroSizePtr ∧ ∃ b, set.table.htableBits < b ∧ htableSize A b = 0 ∧
        ∀ b', set.table.htableBits < b' → b' < b → ∃ k, ahashMaxSize < set.load jhash2 b' k
    | .ok p => ResizeResult jhash2 set p.1 p.2.1 p.2.2 := by
  induction room generalizing ref with
  | zero => exact .failed _ _ (.inl rfl)
  | succ room ih =>
    have hb : set.table.htableBits < 255 - room := by omega
    have hover' : ∀ b', set.table.htableBits < b' → b' < 255 - room →
        ∃ k, ahashMaxSize < set.load jhash2 b' k := fun b' h1 h2 => hover b' h1 (by omega)
    unfold resizeRetry
    simp only
    by_cases hz : htableSize A (255 - room) = 0
    · simp only [if_pos hz]
      exact ⟨trivial, _, hb, hz, hover'⟩
    simp only [if_neg hz]
    cases halloc : alloc.table (255 - room)
    · exact .failed _ _ (.inr rfl)
    simp only [Bool.not_true, Bool.false_eq_true, if_false]
    have hwalk : ({ set.table with ref := ref } : Htable A).walk = set.table.records := h.walk_eq
    rw [hwalk]
    have hfill := resizeFill_spec (x := set.extensions) (i := 0)
      (fun e => hkey jhash2 e set.initval (255 - room)) set.dsize (alloc.bucket (255 - room))
      set.table.records (t := replicate (jhashSize (255 - room)) none)
      (by simpa using fun e => hkey_lt jhash2 e set.initval (255 - room))
      (fun r hr => (h.mem_records hr).1) h.nodup (Filled.empty _)
    rw [nil_append, length_replicate] at hfill
    generalize resizeFill (fun e => hkey jhash2 e set.initval (255 - room)) set.dsize
      (alloc.bucket (255 - room)) set.table.records 0 (replicate (jhashSize (255 - room)) none) 0 =
        res at hfill
    cases res with
    | ok p => exact hfill.1.resized hb (htableSize_ne_zero hz) hfill.2 hover'
    | error e =>
      rcases hfill with rfl | ⟨rfl, k, hk⟩
      · exact .failed _ _ (.inr rfl)
      · -- on to twice the size
        simp only [if_true]
        refine ih 0 (by omega) ?_
        intro b' h1 h2
        rcases Nat.lt_or_ge b' (255 - room) with hlt | hge
        · exact hover' b' h1 hlt
        · obtain rfl : b' = 255 - room := by omega
          exact ⟨k, hk⟩

/-- `mtype_resize` on a good set: it fails, or the same records are in a larger
table, unless it asks for a table of no size. -/
theorem mtypeResize_result (h : set.table.Good set.extensions (set.home jhash2))
    (alloc : ResizeAlloc) :
    match mtypeResize jhash2 alloc set with
    | .error e => e = .zeroSizePtr ∧ ∃ b, set.table.htableBits < b ∧ htableSize A b = 0 ∧
        ∀ b', set.table.htableBits < b' → b' < b → ∃ k, ahashMaxSize < set.load jhash2 b' k
    | .ok p => ResizeResult jhash2 set p.1 p.2.1 p.2.2 :=
  resizeRetry_result h alloc (255 - set.table.htableBits) set.table.ref le_rfl
    (fun b' h1 h2 => by omega)

end

end Dset.Hash
