import Dset.Hash.Add
import Dset.Hash.Change

/-! What `mtype_add` can do to the bucket of its key: refuse and leave it, report
the key, or store one record in place of at most one other. With `forceadd` it
can leave the array instead, where none of the positions can be reused. Every
later fact about `mtype_add` is read off this case list. -/

namespace Dset.Hash

open Dset.Lib List

variable {A : Arch}

/-! ### Filling the extensions -/

section
variable (x : Extensions) (jiffies : BitVec A.longBits) (alloc : Bool) (a : Accounts)
  (r : Record A) (ext : DomainSetExt)

theorem overwriteExtensions_elem :
    (overwriteExtensions x jiffies alloc a r ext).2.elem = r.elem := by
  unfold overwriteExtensions
  cases x.counter <;> cases x.skbinfo <;> cases x.timeout <;> rfl

theorem overwriteExtensions_timeout (hx : x.timeout = true) :
    (overwriteExtensions x jiffies alloc a r ext).2.timeout =
      domainSetTimeoutSet jiffies ext.timeout := by
  unfold overwriteExtensions
  simp [hx]

/-- The comment of a record, and the accounts, under `domain_set_init_comment`. -/
theorem overwriteExtensions_comment :
    ((overwriteExtensions x jiffies alloc a r ext).1,
      (overwriteExtensions x jiffies alloc a r ext).2.comment) =
      if x.comment then domainSetInitComment A alloc a r.comment ext else (a, r.comment) := by
  unfold overwriteExtensions
  cases x.counter <;> cases x.comment <;> cases x.skbinfo <;> cases x.timeout <;> rfl

/-- Filling a used record settles the old comment against the new one. -/
theorem overwriteExtensions_settles :
    Settles x a [r] (overwriteExtensions x jiffies alloc a r ext).1
      [(overwriteExtensions x jiffies alloc a r ext).2] 0 := by
  have hc := overwriteExtensions_comment x jiffies alloc a r ext
  generalize overwriteExtensions x jiffies alloc a r ext = p at hc
  obtain ⟨a', r'⟩ := p
  cases hx : x.comment
  · simp only [hx, Bool.false_eq_true, if_false, Prod.mk.injEq] at hc
    obtain ⟨rfl, -⟩ := hc
    constructor <;> simp [commentBytes, commentAddrs, hx]
  · simp only [hx, if_true] at hc
    unfold domainSetInitComment at hc
    cases hr : r.comment <;> cases alloc <;> simp only [hr, domainSetCommentFree] at hc <;>
      split at hc <;> simp only [Bool.not_true, Bool.not_false, Bool.false_eq_true, if_true,
        if_false, Prod.mk.injEq] at hc <;> obtain ⟨rfl, hr'⟩ := hc <;>
      constructor <;> simp [commentBytes, commentAddrs, hx, hr, hr']

end

/-- Storing over a position that holds no comment adds one record. -/
theorem copyData_settles (x : Extensions) (jiffies : BitVec A.longBits) (alloc : Bool)
    (a : Accounts) (r : Record A) (d : HashDomainElem) (ext : DomainSetExt)
    (hclean : x.comment = true → r.comment = none) :
    let p := overwriteExtensions x jiffies alloc { a with elements := a.elements + 1 }
      { r with elem := d } ext
    Settles x a [] p.1 [p.2] 0 := by
  have h1 : Settles x a [] { a with elements := a.elements + 1 } [{ r with elem := d }] 0 := by
    cases hx : x.comment
    · constructor <;> simp [commentBytes, commentAddrs, hx]
    · constructor <;> simp [commentBytes, commentAddrs, hclean hx]
  exact h1.trans (overwriteExtensions_settles x jiffies alloc _ _ ext)

/-! ### The cases of a bucket -/

/-- The first position of the bucket that a new key `d` can take is unused. -/
def ReusesHole (x : Extensions) (jiffies : BitVec A.longBits) (d : HashDomainElem) :
    Option (Hbucket A) → Prop
  | none => False
  | some n => (∀ r ∈ n.records, r.elem ≠ d) ∧ ∃ j, ∃ hj : j < (n.value.take n.pos).length,
      (n.value.take n.pos)[j].used = false ∧ ∀ s ∈ (n.value.take n.pos).take j, s.occupied x jiffies

/-- A new key `d` makes `mtype_add` replace the bucket by a larger copy. -/
def Grows (x : Extensions) (jiffies : BitVec A.longBits) (alloc full : Bool) (d : HashDomainElem) :
    Option (Hbucket A) → Prop
  | none => False
  | some n => (∀ r ∈ n.records, r.elem ≠ d) ∧ (∀ s ∈ n.value.take n.pos, s.occupied x jiffies) ∧
      n.size ≤ n.pos ∧ n.size < ahashMaxSize ∧ alloc = true ∧ full = false

/-- What `mtype_add` makes of the bucket `b` of its key and the accounts `a`. -/
inductive AddOutcome (x : Extensions) (home : HashDomainElem → ℕ) (i dsize : ℕ)
    (jiffies : BitVec A.longBits) (alloc full : Bool) (d : HashDomainElem) (ext : DomainSetExt)
    (flagExist : Bool) (a : Accounts) (b : Option (Hbucket A)) :
    Ret → Accounts → Option (Hbucket A) → Prop
  | refused (e : Errno) (he : e = .dsetErrHashFull ∨ e = .enomem ∨ e = .eagain)
      (habsent : ∀ r ∈ bucketRecords b, r.elem ≠ d) : AddOutcome x home i dsize jiffies alloc full d
        ext flagExist a b (.err e) a b
  | exist (r : Record A) (hr : r ∈ bucketRecords b) (helem : r.elem = d)
      (hlive : r.isExpired x jiffies = false) (hflag : flagExist = false) :
      AddOutcome x home i dsize jiffies alloc full d ext flagExist a b (.err .dsetErrExist) a b
  | stored (out kept : List (Record A)) (r : Record A) (a' : Accounts) (b' : Option (Hbucket A))
      (delta : ℤ) (hold : bucketRecords b ~ out ++ kept) (hnew : bucketRecords b' ~ r :: kept)
      (hgood : GoodBucket x home i b') (helem : r.elem = d)
      (htimeout : x.timeout = true → r.timeout = domainSetTimeoutSet jiffies ext.timeout)
      (hkept : ∀ k ∈ kept, k.elem ≠ d)
      (hout : ∀ k ∈ out, (k.elem = d ∧ flagExist = true) ∨ k.isExpired x jiffies = true)
      (hlen : out.length ≤ 1) (hroom : out = [] → full = true → ReusesHole x jiffies d b)
      (hsettles : Settles x a (bucketRecords b) a' (bucketRecords b') delta)
      (hbytes : ¬Grows x jiffies alloc full d b →
        delta = bucketBytes dsize b' - bucketBytes dsize b) :
      AddOutcome x home i dsize jiffies alloc full d ext flagExist a b .ok a' b'

section
variable {x : Extensions} {home : HashDomainElem → ℕ} {i dsize : ℕ} {jiffies : BitVec A.longBits}
  {full : Bool} {d : HashDomainElem} {ext : DomainSetExt} {flagExist : Bool} {a : Accounts}

/-- The case `stored`, for a bucket `n` that holds the records of `b` and room
for position `j`. -/
theorem AddOutcome.of_store (delta : ℤ) {alloc : Bool} {b : Option (Hbucket A)}
    (hb : GoodBucket x home i b) (hd : ZeroPadded d.domain) (hhome : home d = i) {n : Hbucket A}
    (hn : n.Shape x) {j : ℕ} (hj : j < n.pos) (hrec : slotRecords n.value = bucketRecords b)
    {s : Slot A} (hs : n.value.get ⟨j, hj.trans_le hn.pos_le⟩ = s) {r : Record A} {a' : Accounts}
    (helem : r.elem = d)
    (htimeout : x.timeout = true → r.timeout = domainSetTimeoutSet jiffies ext.timeout)
    (hkept : ∀ k ∈ recordsBut n.value j, k.elem ≠ d)
    (hout : s.used = true → (s.data.elem = d ∧ flagExist = true) ∨
      s.data.isExpired x jiffies = true)
    (hroom : s.used = false → full = true → ReusesHole x jiffies d b)
    (hset : Settles x a s.records a' [r] delta)
    (hbytes : ¬Grows x jiffies alloc full d b →
      delta = extSize A n.size dsize - bucketBytes dsize b) :
    AddOutcome x home i dsize jiffies alloc full d ext flagExist a b .ok a'
      (some (n.store j r)) := by
  have hjs : j < n.value.length := hj.trans_le hn.pos_le
  have hperm : bucketRecords b ~ s.records ++ recordsBut n.value j := by
    rw [← hrec, ← hs]
    exact slotRecords_perm hjs
  have hsub : recordsBut n.value j <+~ bucketRecords b :=
    (sublist_append_right _ _).subperm.trans hperm.symm.subperm
  obtain ⟨hgood, hnew⟩ := hn.store (i := i) hj
    (fun k hk => by
      have hk' := hb.records.1 k (hsub.subset hk)
      exact ⟨hk'.1, hk'.2, helem ▸ hkept k hk⟩)
    ((hperm.map Record.elem).nodup_iff.mp hb.records.2 |>.sublist
      ((sublist_append_right _ _).map _))
    (helem ▸ hd) (helem ▸ hhome)
  have hsize : (n.store j r).size = n.size := by simp [Hbucket.size, Hbucket.store]
  refine .stored s.records _ r a' _ delta hperm hnew hgood helem htimeout hkept ?_ ?_ ?_
    ((hset.frame _).perm hperm hnew) (fun hg => by simpa [bucketBytes, hsize] using hbytes hg)
  · intro k hk
    unfold Slot.records at hk
    split at hk
    · rename_i hu
      rw [mem_singleton.mp hk]
      exact hout hu
    · simp at hk
  · unfold Slot.records
    split <;> simp
  · intro hnil
    apply hroom
    unfold Slot.records at hnil
    split at hnil
    · simp at hnil
    · rename_i hu
      simpa using hu

/-- The same through `copy_data`, the old record at `j` being settled. -/
theorem AddOutcome.of_copyData (delta : ℤ) {kzalloc alloc : Bool} {b : Option (Hbucket A)}
    (hb : GoodBucket x home i b) (hd : ZeroPadded d.domain) (hhome : home d = i) {n : Hbucket A}
    (hn : n.Shape x) {j : ℕ} (hj : j < n.pos) (hrec : slotRecords n.value = bucketRecords b)
    {s : Slot A} (hs : n.value.get ⟨j, hj.trans_le hn.pos_le⟩ = s) {r : Record A} {a₁ : Accounts}
    (hclean : x.comment = true → r.comment = none)
    (hkept : ∀ k ∈ bucketRecords b, k.elem ≠ d)
    (hout : s.used = true → s.data.isExpired x jiffies = true)
    (hroom : s.used = false → full = true → ReusesHole x jiffies d b)
    (hset : Settles x a s.records a₁ ([] : List (Record A)) delta)
    (hbytes : ¬Grows x jiffies kzalloc full d b →
      delta = extSize A n.size dsize - bucketBytes dsize b) :
    AddOutcome x home i dsize jiffies kzalloc full d ext flagExist a b .ok
      (copyData x jiffies alloc a₁ n j r d ext).2.1 (copyData x jiffies alloc a₁ n j r d ext).2.2 := by
  have hsub : ∀ k ∈ recordsBut n.value j, k ∈ bucketRecords b := by
    intro k hk
    rw [← hrec]
    exact (slotRecords_perm (hj.trans_le hn.pos_le)).mem_iff.mpr (mem_append_right _ hk)
  refine AddOutcome.of_store delta hb hd hhome hn hj hrec hs ?_ ?_ (fun k hk => hkept k (hsub k hk))
    (fun hu => .inr (hout hu)) hroom ?_ hbytes
  · rw [overwriteExtensions_elem]
  · exact overwriteExtensions_timeout _ _ _ _ _ _
  · have := hset.trans (copyData_settles x jiffies alloc a₁ r d ext hclean)
    rwa [Int.add_zero] at this

variable (alloc : AddAlloc)

theorem newBucket_shape :
    ({ (newBucket : Hbucket A) with pos := (newBucket : Hbucket A).pos + 1 } : Hbucket A).Shape x := by
  have hsize : ({ (newBucket : Hbucket A) with pos := (newBucket : Hbucket A).pos + 1 } :
      Hbucket A).size = ahashInitSize := by simp [Hbucket.size, newBucket]
  refine ⟨hsize ▸ dvd_refl _, hsize ▸ by decide, hsize ▸ by simp [newBucket, ahashInitSize], ?_, ?_⟩
  · intro s hs
    rw [eq_of_mem_replicate (mem_of_mem_drop hs)]; rfl
  · intro _ s hs _
    rw [eq_of_mem_replicate hs]; rfl

variable (dsize jiffies full ext flagExist) in
/-- The cases of `addBucket`; `forceadd` is set in a full set only. -/
theorem addBucket_outcome {forceadd : Bool} (hforce : forceadd = true → full = true)
    {b : Option (Hbucket A)} (hb : GoodBucket x home i b) (hd : ZeroPadded d.domain)
    (hhome : home d = i) :
    (forceadd = true ∧ addBucket x dsize jiffies alloc full forceadd d ext flagExist a b =
        .error .outOfBounds) ∨
    ∃ ret a' b', addBucket x dsize jiffies alloc full forceadd d ext flagExist a b =
        .ok (ret, a', b') ∧
      AddOutcome x home i dsize jiffies alloc.kzalloc full d ext flagExist a b ret a' b' := by
  have hor : (forceadd || full) = full := by
    cases forceadd
    · rfl
    · rw [hforce rfl]; rfl
  cases b with
  | none =>
    right
    simp only [addBucket, hor]
    cases full
    · cases hk : alloc.kzalloc
      · exact ⟨_, _, _, rfl, .refused _ (by simp) (by simp [bucketRecords])⟩
      · -- a new bucket of `AHASH_INIT_SIZE` zeroed slots
        refine ⟨_, _, _, rfl, ?_⟩
        refine AddOutcome.of_copyData (extSize A ahashInitSize dsize) (s := zeroSlot) hb hd hhome
          newBucket_shape (Nat.lt_succ_self _) (by simp [newBucket, bucketRecords])
          (by simp [newBucket]) (fun _ => rfl) (by simp [bucketRecords]) (fun h => by cases h)
          (fun _ h => by cases h) (by constructor <;> simp [Slot.records, zeroSlot]) (fun _ => ?_)
        simp [Hbucket.size, newBucket, bucketBytes]
    · exact ⟨_, _, _, rfl, .refused _ (by simp) (by simp [bucketRecords])⟩
  | some n =>
    have hn : n.Good x home i := hb
    have hscan := addScan_holds x jiffies d flagExist (n.value.take n.pos)
    simp only [addBucket]
    generalize addScan x jiffies d flagExist (n.value.take n.pos) 0 none false false = scan at hscan
    cases scan with
    | overwrite j =>
      right
      obtain ⟨hj, hu, heq, hover⟩ := hscan
      obtain ⟨hjp, hjv, hget⟩ := n.getElem_take_pos hj
      have helem : n.value[j].data.elem = d :=
        hget ▸ (hn.equal_iff hd (getElem_mem hj) hu).mp heq
      rw [hget] at hu hover
      have hrec : n.value[j].records = [n.data j] := by
        rw [Slot.records_used hu, n.data_eq hjv]
      refine ⟨_, _, _, rfl, AddOutcome.of_store 0 hb hd hhome hn.toShape hjp rfl rfl ?_
        (overwriteExtensions_timeout _ _ _ _ _ _) (helem ▸ hn.others_ne hjv hu) ?_ (fun h => ?_)
        (hrec ▸ overwriteExtensions_settles _ _ _ _ _ _) (fun _ => by simp [bucketBytes])⟩
      · rw [overwriteExtensions_elem, n.data_eq hjv, helem]
      · exact fun _ => hover.imp (fun h => ⟨helem, h⟩) id
      · cases hu.symm.trans h
    | exist =>
      right
      obtain ⟨hflag, s, hs, ⟨hu, hlive⟩, heq⟩ := hscan
      exact ⟨_, _, _, rfl, .exist s.data (Hbucket.mem_records_of_take hs hu)
        ((hn.equal_iff hd hs hu).mp heq) hlive hflag⟩
    | done j deleted reuse =>
      cases j with
      | some j =>
        right
        obtain ⟨rfl, hne, hj, hdel, hocc, hbefore⟩ := hscan
        have habsent := hn.absent hd hne
        obtain ⟨hjp, hjv, hget⟩ := n.getElem_take_pos hj
        rw [hget] at hdel hocc
        simp only [Bool.true_or, if_true]
        cases hu : n.value[j].used
        · -- a hole
          rw [hu] at hdel
          simp only [hdel, Bool.not_false, if_true]
          refine ⟨_, _, _, rfl, AddOutcome.of_copyData 0 hb hd hhome hn.toShape hjp rfl
            rfl ?_ habsent (fun h => ?_) (fun _ _ => ?_) ?_ (fun _ => by simp [bucketBytes])⟩
          · rw [n.data_eq hjv]
            exact fun hx => hn.clean hx _ (getElem_mem hjv) hu
          · cases hu.symm.trans h
          · exact ⟨habsent, j, hj, hget ▸ hu, hbefore⟩
          · have hrec : n.value[j].records = [] := Slot.records_unused hu
            exact hrec ▸ Settles.refl x a []
        · -- an expired record
          rw [hu] at hdel
          simp only [hdel, Bool.not_true, Bool.false_eq_true, if_false]
          refine ⟨_, _, _, rfl, AddOutcome.of_copyData 0 hb hd hhome hn.toShape hjp rfl
            rfl ?_ habsent (fun _ => ?_) (fun h => ?_) ?_ (fun _ => by simp [bucketBytes])⟩
          · intro hx
            simp [domainSetExtDestroy, hx]
          · exact Bool.of_not_eq_false fun h => hocc ⟨hu, h⟩
          · cases hu.symm.trans h
          · have hrec : n.value[j].records = [n.data j] := by
              rw [Slot.records_used hu, n.data_eq hjv]
            exact hrec ▸ domainSetExtDestroy_settles x a _
      | none =>
        obtain ⟨rfl, rfl, hall⟩ := hscan
        have habsent := hn.absent hd (fun s hs _ => (hall s hs).2)
        simp only [Bool.false_or]
        cases hfa : forceadd
        swap
        · exact .inl ⟨rfl, rfl⟩
        right
        simp only [Bool.false_eq_true, if_false]
        cases full
        · simp only [Bool.false_eq_true, if_false]
          by_cases hfull : n.size ≤ n.pos
          · rw [if_pos hfull]
            by_cases hmax : ahashMaxSize ≤ n.size
            · rw [if_pos hmax]
              exact ⟨_, _, _, rfl, .refused _ (by simp) habsent⟩
            rw [if_neg hmax]
            cases hk : alloc.kzalloc
            · exact ⟨_, _, _, rfl, .refused _ (by simp) habsent⟩
            -- the grown copy
            have hpos : n.pos = n.value.length := le_antisymm hn.pos_le hfull
            have hgrows : Grows x jiffies true false d (some n) :=
              ⟨habsent, fun s hs => (hall s hs).1, hfull, not_le.mp hmax, rfl, rfl⟩
            refine ⟨_, _, _, rfl, AddOutcome.of_copyData (extSize A ahashInitSize dsize)
              (s := zeroSlot) hb hd hhome
              (hn.grow_shape hfull (not_le.mp hmax)) (Nat.lt_succ_self _) ?_ ?_ ?_ habsent
              (fun h => by cases h) (fun _ h => by cases h) ?_ (fun h => absurd hgrows h)⟩
            · simp only [Hbucket.grow, slotRecords_append, slotRecords_zeros, append_nil]
              rfl
            · simp [Hbucket.grow, hpos]
            · simp [Hbucket.data, Hbucket.grow, hpos, zeroSlot, zeroRecord, ahashInitSize]
            · constructor <;> simp [Slot.records, zeroSlot]
          · -- the next position of the array
            rw [if_neg hfull]
            have hjv : n.pos < n.value.length := not_le.mp hfull
            have hu : n.value[n.pos].used = false := by
              refine hn.unused _ ?_
              rw [drop_eq_getElem_cons hjv]
              exact mem_cons_self
            refine ⟨_, _, _, rfl, AddOutcome.of_copyData 0 hb hd hhome
              (hn.append_shape hjv) (Nat.lt_succ_self _) rfl rfl ?_ habsent (fun h => ?_)
              (fun _ h => by cases h) ?_ (fun _ => by simp [bucketBytes, Hbucket.size])⟩
            · rw [n.data_eq hjv]
              exact fun hx => hn.clean hx _ (getElem_mem hjv) hu
            · cases hu.symm.trans h
            · have hrec : n.value[n.pos].records = [] := Slot.records_unused hu
              exact hrec ▸ Settles.refl x a []
        · exact ⟨_, _, _, rfl, .refused _ (by simp) habsent⟩

end

/-! ### The set -/

section
variable {jhash2 : HashDomainElem → BitVec 32 → BitVec 32} {set : DomainSet A}
  {jiffies : BitVec A.longBits} {o : AddAlloc} {d : HashDomainElem} {ext : DomainSetExt}
  {flags : CmdFlags}

/-- What `mtype_add` makes of the set `s` behind `makeRoom`. -/
inductive AddResult (jhash2 : HashDomainElem → BitVec 32 → BitVec 32) (jiffies : BitVec A.longBits)
    (kzalloc : Bool) (d : HashDomainElem) (ext : DomainSetExt) (flagExist : Bool)
    (s : DomainSet A) : Ret → DomainSet A → Prop
  | refused (e : Errno) (next : HashDomainElem)
      (he : e = .dsetErrHashFull ∨ e = .enomem ∨ e = .eagain)
      (habsent : ∀ r ∈ s.table.records, r.elem ≠ d) :
      AddResult jhash2 jiffies kzalloc d ext flagExist s (.err e) { s with next := next }
  | exist (r : Record A) (hr : r ∈ s.table.records) (helem : r.elem = d)
      (hlive : r.isExpired s.extensions jiffies = false) (hflag : flagExist = false) :
      AddResult jhash2 jiffies kzalloc d ext flagExist s (.err .dsetErrExist) s
  | stored (out kept : List (Record A)) (r : Record A) (set' : DomainSet A) (drift : ℤ)
      (hold : s.table.records ~ out ++ kept) (hnew : set'.table.records ~ r :: kept)
      (helem : r.elem = d)
      (htimeout : s.extensions.timeout = true → r.timeout = domainSetTimeoutSet jiffies ext.timeout)
      (hkept : ∀ k ∈ kept, k.elem ≠ d)
      (hout : ∀ k ∈ out, (k.elem = d ∧ flagExist = true) ∨
        k.isExpired s.extensions jiffies = true)
      (hlen : out.length ≤ 1)
      (hroom : out = [] → s.full = true →
        ReusesHole s.extensions jiffies d (s.table.hbucket (s.home jhash2 d)))
      (hchange : s.Change jhash2 set' drift) (htable : set'.table.htableBits = s.table.htableBits)
      (hdrift : ¬Grows s.extensions jiffies kzalloc s.full d (s.table.hbucket (s.home jhash2 d)) →
        drift = 0) :
      AddResult jhash2 jiffies kzalloc d ext flagExist s .ok set'

variable (set jiffies) in
theorem makeRoom_config (alloc : ℕ → Bool) : set.SameConfig (makeRoom jiffies alloc set) := by
  unfold makeRoom
  split <;> exact ⟨rfl, rfl, rfl, rfl, rfl, rfl⟩

variable (jiffies) in
theorem makeRoom_good (h : set.table.Good set.extensions (set.home jhash2)) (alloc : ℕ → Bool) :
    (makeRoom jiffies alloc set).table.Good (makeRoom jiffies alloc set).extensions
      ((makeRoom jiffies alloc set).home jhash2) := by
  unfold makeRoom
  split
  · exact (mtypeExpire_good jiffies alloc h).1
  · exact h

variable (jiffies o ext flags) in
/-- `mtype_add` on a good set returns, or leaves the array of a full set with
`forceadd`. -/
theorem mtypeAdd_result (h : set.table.Good set.extensions (set.home jhash2))
    (hd : ZeroPadded d.domain) :
    (set.forceadd = true ∧ set.full = true ∧
      mtypeAdd jhash2 jiffies o set d ext flags = .error .outOfBounds) ∨
    ∃ ret set', mtypeAdd jhash2 jiffies o set d ext flags = .ok (ret, set') ∧
      AddResult jhash2 jiffies o.kzalloc d ext flags.exist (makeRoom jiffies o.expire set)
        ret set' := by
  have hs := makeRoom_good jiffies h o.expire
  unfold mtypeAdd
  simp only
  generalize hforce : (set.full && (makeRoom jiffies o.expire set).full && set.forceadd) = forceadd
  generalize makeRoom jiffies o.expire set = s at hs hforce
  have hfull : forceadd = true → set.forceadd = true ∧ set.full = true ∧ s.full = true := by
    rintro rfl
    simp only [Bool.and_eq_true] at hforce
    exact ⟨hforce.2, hforce.1⟩
  have hi := DomainSet.home_lt hs d
  have hout := addBucket_outcome s.dsize jiffies s.full ext flags.exist (a := s.acct) o
    (fun hf => (hfull hf).2.2)
    (hs.hbucket (s.home jhash2 d)) hd rfl
  rw [show hkey jhash2 d s.initval s.table.htableBits = s.home jhash2 d from rfl]
  rcases hout with ⟨hf, heq⟩ | ⟨ret, a, b, heq, hout⟩
  · left
    rw [heq]
    exact ⟨(hfull hf).1, (hfull hf).2.1, rfl⟩
  right
  rw [heq]
  refine ⟨ret, _, rfl, ?_⟩
  simp only
  cases hout with
  | refused e he habsent =>
    rw [s.table.setBucket_self hi]
    refine .refused e _ he ?_
    intro r hr hrd
    have hmem := (hs.mem_records hr).2
    rw [hrd] at hmem
    exact habsent r hmem hrd
  | exist r hr helem hlive hflag =>
    rw [s.table.setBucket_self hi]
    exact .exist r (Htable.mem_records_of_bucket hr) helem hlive hflag
  | stored out kept r _ _ delta hold hnew hgood helem htimeout hkept hout hlen hroom hsettles
      hbytes =>
    have hperm := s.table.records_perm hi
    refine .stored out (kept ++ s.table.recordsBut (s.home jhash2 d)) r _ _ ?_ ?_ helem htimeout ?_
      hout hlen hroom (.setBucket hs hi hgood hsettles _) rfl (fun hg => ?_)
    · rw [← append_assoc]
      exact hperm.trans (hold.append_right _)
    · exact (s.table.records_setBucket_perm hi b).trans (hnew.append_right _)
    · intro k hk hkd
      rcases mem_append.mp hk with hk | hk
      · exact hkept k hk hkd
      · exact hs.recordsBut_ne hi hk (by rw [hkd])
    · rw [hbytes hg]; omega

end

end Dset.Hash
