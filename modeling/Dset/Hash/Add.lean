import Dset.Hash.Expire

/-! `mtype_add`. The walk over the bucket finds the key, or the first position
to reuse; the key is then stored over an old record, into a hole, behind the
last position, into a grown copy of the bucket, or into a new bucket. Only a
set with `forceadd` can miss a position to reuse. -/

namespace Dset.Hash

open Dset.Lib List

variable {A : Arch}

/-- The outcomes of the allocations `mtype_add` can make: in `mtype_expire` by
bucket, its own `kzalloc` and the `kmalloc` of the comment. -/
structure AddAlloc where
  expire : ℕ → Bool
  kzalloc : Bool
  comment : Bool

inductive AddScan where
  /-- `goto overwrite_extensions` with this `j`. -/
  | overwrite (j : ℕ)
  /-- `return -DSET_ERR_EXIST`. -/
  | exist
  /-- The loop ran to its end; no `j` stands for `-1`. -/
  | done (j : Option ℕ) (deleted reuse : Bool)
  deriving DecidableEq

/-- The loop of `mtype_add` over the positions below `pos`, from `i` on. -/
def addScan (x : Extensions) (jiffies : BitVec A.longBits) (d : HashDomainElem)
    (flagExist : Bool) : List (Slot A) → ℕ → Option ℕ → Bool → Bool → AddScan
  | [], _, j, deleted, reuse => .done j deleted reuse
  | s :: ss, i, j, deleted, reuse =>
    if !s.used then
      if j.isNone then addScan x jiffies d flagExist ss (i + 1) (some i) true true
      else addScan x jiffies d flagExist ss (i + 1) j deleted reuse
    else if hashDomainDataEqual s.data.elem d then
      if flagExist || (x.timeout && domainSetTimeoutExpired jiffies s.data.timeout) then
        .overwrite i
      else .exist
    else if x.timeout && domainSetTimeoutExpired jiffies s.data.timeout && j.isNone then
      addScan x jiffies d flagExist ss (i + 1) (some i) deleted true
    else addScan x jiffies d flagExist ss (i + 1) j deleted reuse

/-- `ahash_data(n, j, dsize)`. -/
def Hbucket.data (n : Hbucket A) (j : ℕ) : Record A := (n.value.getD j zeroSlot).data

def Hbucket.store (n : Hbucket A) (j : ℕ) (r : Record A) : Hbucket A :=
  { n with value := n.value.set j ⟨true, r⟩ }

def newBucket : Hbucket A := ⟨0, replicate ahashInitSize zeroSlot⟩

/-- The copy of a full bucket with room for `AHASH_INIT_SIZE` more. -/
def Hbucket.grow (n : Hbucket A) : Hbucket A :=
  { n with value := n.value ++ replicate ahashInitSize zeroSlot }

/-- From label `copy_data` on, with the record at position `j`. -/
def copyData (x : Extensions) (jiffies : BitVec A.longBits) (alloc : Bool) (a : Accounts)
    (n : Hbucket A) (j : ℕ) (r : Record A) (d : HashDomainElem) (ext : DomainSetExt) :
    Ret × Accounts × Option (Hbucket A) :=
  let a := { a with elements := a.elements + 1 }
  let p := overwriteExtensions x jiffies alloc a { r with elem := d } ext
  (.ok, p.1, some (n.store j p.2))

/-- From label `copy_elem` on: the next free position. -/
def copyElem (x : Extensions) (jiffies : BitVec A.longBits) (alloc : Bool) (a : Accounts)
    (n : Hbucket A) (d : HashDomainElem) (ext : DomainSetExt) :
    Ret × Accounts × Option (Hbucket A) :=
  copyData x jiffies alloc a { n with pos := n.pos + 1 } n.pos (n.data n.pos) d ext

/-- `mtype_add` from the lookup of the bucket on; `full` is the test
`set->elements >= h->maxelem`. -/
def addBucket (x : Extensions) (dsize : ℕ) (jiffies : BitVec A.longBits) (o : AddAlloc)
    (full forceadd : Bool) (d : HashDomainElem) (ext : DomainSetExt) (flagExist : Bool)
    (a : Accounts) : Option (Hbucket A) → Except Fault (Ret × Accounts × Option (Hbucket A))
  | none =>
    if forceadd || full then .ok (.err .dsetErrHashFull, a, none)
    else if !o.kzalloc then .ok (.err .enomem, a, none)
    else
      let a := { a with extSize := a.extSize + extSize A ahashInitSize dsize }
      .ok (copyElem x jiffies o.comment a newBucket d ext)
  | some n =>
    match addScan x jiffies d flagExist (n.value.take n.pos) 0 none false false with
    | .overwrite j =>
      -- just the extensions are overwritten
      let p := overwriteExtensions x jiffies o.comment a (n.data j) ext
      .ok (.ok, p.1, some (n.store j p.2))
    | .exist => .ok (.err .dsetErrExist, a, some n)
    | .done j deleted reuse =>
      if reuse || forceadd then
        match j with
        | none => .error .outOfBounds
        | some j =>
          if deleted then .ok (copyData x jiffies o.comment a n j (n.data j) d ext)
          else
            let q := domainSetExtDestroy x a (n.data j)
            let a := { q.1 with elements := q.1.elements - 1 }
            .ok (copyData x jiffies o.comment a n j q.2 d ext)
      else if full then .ok (.err .dsetErrHashFull, a, some n)
      else if n.size ≤ n.pos then
        if ahashMaxSize ≤ n.size then .ok (.err .eagain, a, some n)
        else if !o.kzalloc then .ok (.err .enomem, a, some n)
        else
          let a := { a with extSize := a.extSize + extSize A ahashInitSize dsize }
          .ok (copyElem x jiffies o.comment a n.grow d ext)
      else .ok (copyElem x jiffies o.comment a n d ext)

/-- `hash_domain_data_next`: `strncpy` of the whole array. -/
def hashDomainDataNext (e : HashDomainElem) : HashDomainElem where
  domain := zeroPad dsetMaxDomainLen (cstr e.domain)
  length_domain := length_zeroPad (by
    rw [← e.length_domain]
    exact (takeWhile_sublist _).length_le)

/-- The test `set->elements >= h->maxelem`. -/
def DomainSet.full (set : DomainSet A) : Bool := decide ((set.maxelem : ℤ) ≤ set.acct.elements)

/-- The state in which `mtype_add` looks up the bucket: a full set with
timeouts is expired first. -/
def makeRoom (jiffies : BitVec A.longBits) (alloc : ℕ → Bool) (set : DomainSet A) : DomainSet A :=
  if set.full && set.withTimeout then mtypeExpire jiffies alloc set else set

theorem makeRoom_of_not_full {jiffies : BitVec A.longBits} {alloc : ℕ → Bool} {set : DomainSet A}
    (h : set.full = false) : makeRoom jiffies alloc set = set := by
  simp [makeRoom, h]

def mtypeAdd (jhash2 : HashDomainElem → BitVec 32 → BitVec 32) (jiffies : BitVec A.longBits)
    (o : AddAlloc) (set : DomainSet A) (value : HashDomainElem) (ext : DomainSetExt)
    (flags : CmdFlags) : Except Fault (Ret × DomainSet A) := do
  let forceadd := set.full && (makeRoom jiffies o.expire set).full && set.forceadd
  let set := makeRoom jiffies o.expire set
  let key := hkey jhash2 value set.initval set.table.htableBits
  let p ← addBucket set.extensions set.dsize jiffies o set.full forceadd value ext flags.exist
    set.acct (set.table.hbucket key)
  let next := if p.1 = .err .eagain then hashDomainDataNext value else set.next
  return (p.1, { set with
    acct := p.2.1, next := next, table := set.table.setBucket key p.2.2 })

/-! ### The walk -/

/-- Under the timeouts of the set the record is expired. -/
def Record.isExpired (x : Extensions) (jiffies : BitVec A.longBits) (r : Record A) : Bool :=
  x.timeout && domainSetTimeoutExpired jiffies r.timeout

/-- A position that a new key neither finds unused nor expired. -/
def Slot.occupied (x : Extensions) (jiffies : BitVec A.longBits) (s : Slot A) : Prop :=
  s.used = true ∧ s.data.isExpired x jiffies = false

/-- What the end of the walk says about the positions. -/
def AddScan.Holds (x : Extensions) (jiffies : BitVec A.longBits) (d : HashDomainElem)
    (flagExist : Bool) (v : List (Slot A)) : AddScan → Prop
  | .overwrite j => ∃ hj : j < v.length, v[j].used = true ∧
      hashDomainDataEqual v[j].data.elem d = true ∧
      (flagExist = true ∨ v[j].data.isExpired x jiffies = true)
  | .exist => flagExist = false ∧ ∃ s ∈ v, s.occupied x jiffies ∧
      hashDomainDataEqual s.data.elem d = true
  | .done none deleted reuse => deleted = false ∧ reuse = false ∧
      ∀ s ∈ v, s.occupied x jiffies ∧ hashDomainDataEqual s.data.elem d = false
  | .done (some j) deleted reuse => reuse = true ∧
      (∀ s ∈ v, s.used = true → hashDomainDataEqual s.data.elem d = false) ∧
      ∃ hj : j < v.length, deleted = !v[j].used ∧ ¬v[j].occupied x jiffies ∧
        ∀ s ∈ v.take j, s.occupied x jiffies

theorem addScan_holds_from (x : Extensions) (jiffies : BitVec A.longBits) (d : HashDomainElem)
    (flagExist : Bool) (u v : List (Slot A)) (j : Option ℕ) (deleted reuse : Bool)
    (h : AddScan.Holds x jiffies d flagExist u (.done j deleted reuse)) :
    AddScan.Holds x jiffies d flagExist (u ++ v)
      (addScan x jiffies d flagExist v u.length j deleted reuse) := by
  induction v generalizing u j deleted reuse with
  | nil => simpa [addScan] using h
  | cons s v ih =>
    have hs (_ : u.length < (u ++ s :: v).length) : (u ++ s :: v)[u.length] = s := by simp
    have hstep : ∀ j' deleted' reuse',
        AddScan.Holds x jiffies d flagExist (u ++ [s]) (.done j' deleted' reuse') →
        AddScan.Holds x jiffies d flagExist (u ++ s :: v)
          (addScan x jiffies d flagExist v (u.length + 1) j' deleted' reuse') := by
      intro j' deleted' reuse' h'
      simpa using ih (u ++ [s]) j' deleted' reuse' h'
    -- an earlier choice of `j` survives a position that does not hold the key
    have hkeep : ∀ k, j = some k → (s.used = true → hashDomainDataEqual s.data.elem d = false) →
        AddScan.Holds x jiffies d flagExist (u ++ [s]) (.done (some k) deleted reuse) := by
      rintro k rfl hne
      obtain ⟨hr, hall, hk, hdel, hocc, hbefore⟩ := h
      refine ⟨hr, ?_, by simp; omega, ?_, ?_, ?_⟩
      · intro t ht
        rcases mem_append.mp ht with ht | ht
        · exact hall t ht
        · rw [mem_singleton.mp ht]; exact hne
      · simpa [getElem_append_left hk] using hdel
      · simpa [getElem_append_left hk] using hocc
      · intro t ht
        rw [take_append_of_le_length hk.le] at ht
        exact hbefore t ht
    unfold addScan
    cases hu : s.used
    · cases j with
      | none =>
        simp only [Bool.not_false, if_true, Option.isNone_none]
        apply hstep
        obtain ⟨-, -, hall⟩ := h
        refine ⟨rfl, ?_, by simp, by simp [hu], by simp [Slot.occupied, hu], ?_⟩
        · intro t ht htu
          rcases mem_append.mp ht with ht | ht
          · exact (hall t ht).2
          · rw [mem_singleton.mp ht, hu] at htu; cases htu
        · intro t ht
          rw [take_left' rfl] at ht
          exact (hall t ht).1
      | some k =>
        simp only [Bool.not_false, if_true, Option.isNone_some, Bool.false_eq_true, if_false]
        exact hstep _ _ _ (hkeep k rfl (by simp [hu]))
    · simp only [Bool.not_true, Bool.false_eq_true, if_false]
      cases heq : hashDomainDataEqual s.data.elem d
      · simp only [Bool.false_eq_true, if_false]
        cases hx : x.timeout && domainSetTimeoutExpired jiffies s.data.timeout
        · simp only [Bool.false_and, Bool.false_eq_true, if_false]
          apply hstep
          cases j with
          | none =>
            obtain ⟨hd, hr, hall⟩ := h
            refine ⟨hd, hr, ?_⟩
            intro t ht
            rcases mem_append.mp ht with ht | ht
            · exact hall t ht
            · rw [mem_singleton.mp ht]; exact ⟨⟨hu, hx⟩, heq⟩
          | some k => exact hkeep k rfl (fun _ => heq)
        · cases j with
          | none =>
            simp only [Bool.true_and, Option.isNone_none, if_true]
            apply hstep
            obtain ⟨hd, -, hall⟩ := h
            refine ⟨rfl, ?_, by simp, by simp [hu, hd], by simp [Slot.occupied, Record.isExpired, hx],
              ?_⟩
            · intro t ht _
              rcases mem_append.mp ht with ht | ht
              · exact (hall t ht).2
              · rw [mem_singleton.mp ht]; exact heq
            · intro t ht
              rw [take_left' rfl] at ht
              exact (hall t ht).1
          | some k =>
            simp only [Bool.true_and, Option.isNone_some, Bool.false_eq_true, if_false]
            exact hstep _ _ _ (hkeep k rfl (fun _ => heq))
      · simp only [if_true]
        cases hf : flagExist <;>
          cases hx : x.timeout && domainSetTimeoutExpired jiffies s.data.timeout
        · simp only [Bool.or_self, Bool.false_eq_true, if_false]
          exact ⟨rfl, s, by simp, ⟨hu, hx⟩, heq⟩
        all_goals
          simp only [Bool.or_true, Bool.true_or, if_true]
          refine ⟨by simp, ?_⟩
          rw [hs]
          exact ⟨hu, heq, by simp [Record.isExpired, hx]⟩

theorem addScan_holds (x : Extensions) (jiffies : BitVec A.longBits) (d : HashDomainElem)
    (flagExist : Bool) (v : List (Slot A)) :
    AddScan.Holds x jiffies d flagExist v (addScan x jiffies d flagExist v 0 none false false) := by
  simpa using addScan_holds_from x jiffies d flagExist [] v none false false
    ⟨rfl, rfl, by simp⟩

/-! ### Positions and records -/

section
variable {x : Extensions} {home : HashDomainElem → ℕ} {i : ℕ} {d : HashDomainElem}

/-- A slot below `pos` as a record of the bucket. -/
theorem Hbucket.mem_records_of_take {n : Hbucket A} {s : Slot A} (hs : s ∈ n.value.take n.pos)
    (hu : s.used = true) : s.data ∈ n.records :=
  mem_slotRecords.mpr ⟨s, mem_of_mem_take hs, hu, rfl⟩

theorem Hbucket.Good.equal_iff {n : Hbucket A} (hn : n.Good x home i) (hd : ZeroPadded d.domain)
    {s : Slot A} (hs : s ∈ n.value.take n.pos) (hu : s.used = true) :
    hashDomainDataEqual s.data.elem d = true ↔ s.data.elem = d :=
  hashDomainDataEqual_iff (hn.padded _ (mem_records_of_take hs hu)) hd

/-- When no used position compares equal, no record has the key. -/
theorem Hbucket.Good.absent {n : Hbucket A} (hn : n.Good x home i) (hd : ZeroPadded d.domain)
    (h : ∀ s ∈ n.value.take n.pos, s.used = true → hashDomainDataEqual s.data.elem d = false) :
    ∀ r ∈ n.records, r.elem ≠ d := by
  intro r hr he
  rw [hn.records_take] at hr
  obtain ⟨s, hs, hu, rfl⟩ := mem_slotRecords.mp hr
  have := (hn.equal_iff hd hs hu).mpr he
  rw [h s hs hu] at this
  cases this

theorem Hbucket.getElem_take_pos (n : Hbucket A) {j : ℕ} (hj : j < (n.value.take n.pos).length) :
    j < n.pos ∧ ∃ hjv : j < n.value.length, (n.value.take n.pos)[j] = n.value[j] := by
  have h := hj
  rw [length_take] at h
  exact ⟨(lt_min_iff.mp h).1, (lt_min_iff.mp h).2, getElem_take⟩

theorem Hbucket.data_eq (n : Hbucket A) {j : ℕ} (hj : j < n.value.length) :
    n.data j = n.value[j].data := by simp [Hbucket.data, hj]

/-- The other records of a good bucket have other keys. -/
theorem Hbucket.Good.others_ne {n : Hbucket A} (hn : n.Good x home i) {j : ℕ}
    (hj : j < n.value.length) (hu : n.value[j].used = true) :
    ∀ k ∈ recordsBut n.value j, k.elem ≠ n.value[j].data.elem := by
  intro k hk he
  have h := ((slotRecords_perm hj).map Record.elem).nodup_iff.mp hn.nodup
  simp only [Slot.records, hu, if_true, singleton_append, map_cons, nodup_cons] at h
  exact h.1 (he ▸ mem_map_of_mem hk)

/-- One more position of a bucket that is not full. -/
theorem Hbucket.Good.append_shape {n : Hbucket A} (hn : n.Good x home i) (h : n.pos < n.size) :
    ({ n with pos := n.pos + 1 } : Hbucket A).Shape x := by
  refine ⟨hn.size_dvd, hn.size_le, h, ?_, hn.clean⟩
  intro s hs
  refine hn.unused s (mem_of_mem_drop (i := 1) ?_)
  rw [drop_drop]
  exact hs

/-- One more position in the grown copy of a full bucket. -/
theorem Hbucket.Good.grow_shape {n : Hbucket A} (hn : n.Good x home i) (hfull : n.size ≤ n.pos)
    (hmax : n.size < ahashMaxSize) :
    ({ n.grow with pos := n.pos + 1 } : Hbucket A).Shape x := by
  have hpos : n.pos = n.value.length := le_antisymm hn.pos_le hfull
  have hsize : ({ n.grow with pos := n.pos + 1 } : Hbucket A).size = n.size + ahashInitSize := by
    simp [Hbucket.size, Hbucket.grow]
  have hdvd := hn.size_dvd
  have hle := hn.size_le
  refine ⟨?_, ?_, ?_, ?_, ?_⟩
  · rw [hsize]; exact Nat.dvd_add hdvd (dvd_refl _)
  · rw [hsize]
    simp only [ahashMaxSize, ahashInitSize] at *
    omega
  · rw [hsize]
    have := hn.pos_le
    simp only [ahashInitSize]
    omega
  · intro s hs
    simp only [Hbucket.grow] at hs
    rw [← drop_drop, drop_left' hpos.symm] at hs
    rw [eq_of_mem_replicate (mem_of_mem_drop hs)]; rfl
  · intro hx s hs hu
    rcases mem_append.mp hs with hs | hs
    · exact hn.clean hx s hs hu
    · rw [eq_of_mem_replicate hs]; rfl

end

/-! ### Storing a record -/

/-- A new record at position `j` beside records with other keys makes a good
bucket again. -/
theorem Hbucket.Shape.store {x : Extensions} {home : HashDomainElem → ℕ} {i : ℕ} {n : Hbucket A}
    {j : ℕ} {r : Record A} (h : n.Shape x) (hj : j < n.pos)
    (hold : ∀ k ∈ recordsBut n.value j,
      ZeroPadded k.elem.domain ∧ home k.elem = i ∧ k.elem ≠ r.elem)
    (hnodup : ((recordsBut n.value j).map Record.elem).Nodup)
    (hr : ZeroPadded r.elem.domain) (hhome : home r.elem = i) :
    (n.store j r).Good x home i ∧ (n.store j r).records ~ r :: recordsBut n.value j := by
  have hrec : (n.store j r).records ~ r :: recordsBut n.value j :=
    slotRecords_set_perm (hj.trans_le h.pos_le) ⟨true, r⟩
  have hsize : (n.store j r).size = n.size := by simp [Hbucket.size, Hbucket.store]
  refine ⟨⟨⟨hsize ▸ h.size_dvd, hsize ▸ h.size_le, hsize ▸ h.pos_le, ?_, ?_⟩, ?_, ?_, ?_⟩, hrec⟩
  · intro s hs
    simp only [Hbucket.store, drop_set_of_lt hj] at hs
    exact h.unused s hs
  · intro hx s hs hu
    rcases mem_or_eq_of_mem_set hs with hs | rfl
    · exact h.clean hx s hs hu
    · cases hu
  · intro k hk
    rcases mem_cons.mp (hrec.mem_iff.mp hk) with rfl | hk
    · exact hr
    · exact (hold k hk).1
  · intro k hk
    rcases mem_cons.mp (hrec.mem_iff.mp hk) with rfl | hk
    · exact hhome
    · exact (hold k hk).2.1
  · rw [(hrec.map Record.elem).nodup_iff, map_cons, nodup_cons]
    refine ⟨?_, hnodup⟩
    intro hm
    obtain ⟨k, hk, he⟩ := mem_map.mp hm
    exact (hold k hk).2.2 he

end Dset.Hash
