import Dset.Hash.Machine

/-! The slot that `mtype_add` stores in, named as the code names it: an array and
an `int` index. What it stores there is the key over the memory of the slot, with
the extensions filled in that the request gives. -/

namespace Dset.Hash

open Dset.Lib List

variable {A : Arch}

/-! ### The bucket -/

/-- The array `n` and the index `j` with which `mtype_add` comes to
`ahash_data(n, j, dsize)` behind the walk; nothing where it returns before. -/
def addTarget (x : Extensions) (jiffies : BitVec A.longBits) (kzalloc full forceadd : Bool)
    (d : HashDomainElem) (flagExist : Bool) : Option (Hbucket A) → Option (Hbucket A × ℤ)
  | none => if forceadd || full || !kzalloc then none else some (newBucket, 0)
  | some n =>
    match addScan x jiffies d flagExist (n.value.take n.pos) 0 none false false with
    | .overwrite j => some (n, j)
    | .exist => none
    | .done j _ reuse =>
      if reuse || forceadd then some (n, j.elim (-1) Nat.cast)
      else if full then none
      else if n.size ≤ n.pos then
        if ahashMaxSize ≤ n.size || !kzalloc then none else some (n.grow, n.pos)
      else some (n, n.pos)

/-- The call stored a record at position `j` of `n`: one with a key that compares
equal to `d`, over the counter that the slot held. -/
def StoresAt (x : Extensions) (jiffies : BitVec A.longBits) (alloc : Bool) (d : HashDomainElem)
    (ext : DomainSetExt) (n : Hbucket A) (j : ℕ) (p : Ret × Accounts × Option (Hbucket A)) : Prop :=
  p.1 = .ok ∧ ∃ pos a r, r.counter = (n.data j).counter ∧ hashDomainDataEqual r.elem d = true ∧
    p.2.2 = some (({ n with pos := pos } : Hbucket A).store j
      (overwriteExtensions x jiffies alloc a r ext).2)

theorem hashDomainDataEqual_refl (e : HashDomainElem) : hashDomainDataEqual e e = true := by
  exact strcmpEq_refl e.domain

theorem domainSetExtDestroy_counter (x : Extensions) (a : Accounts) (r : Record A) :
    (domainSetExtDestroy x a r).2.counter = r.counter := by
  unfold domainSetExtDestroy
  split <;> rfl

section
variable {x : Extensions} {dsize : ℕ} {jiffies : BitVec A.longBits} {o : AddAlloc} {alloc : Bool}
  {full forceadd flagExist : Bool} {d : HashDomainElem} {ext : DomainSetExt} {a : Accounts}
  {b : Option (Hbucket A)}

theorem copyData_storesAt (n : Hbucket A) (j : ℕ) {r : Record A}
    (hr : r.counter = (n.data j).counter) :
    StoresAt x jiffies alloc d ext n j (copyData x jiffies alloc a n j r d ext) :=
  ⟨rfl, n.pos, _, { r with elem := d }, hr, hashDomainDataEqual_refl d, rfl⟩

theorem copyElem_storesAt (n : Hbucket A) :
    StoresAt x jiffies alloc d ext n n.pos (copyElem x jiffies alloc a n d ext) :=
  ⟨rfl, n.pos + 1, _, { n.data n.pos with elem := d }, rfl, hashDomainDataEqual_refl d, rfl⟩

variable (x dsize jiffies full forceadd d ext flagExist a) in
/-- `addBucket` stores at its target, or leaves the array there. -/
theorem addBucket_target :
    match addTarget x jiffies o.kzalloc full forceadd d flagExist b with
    | none => ∃ e, addBucket x dsize jiffies o full forceadd d ext flagExist a b =
        .ok (.err e, a, b)
    | some t =>
      (t.2 = -1 ∧
        addBucket x dsize jiffies o full forceadd d ext flagExist a b = .error .outOfBounds) ∨
      (∃ j : ℕ, t.2 = j ∧ ∃ p, StoresAt x jiffies o.comment d ext t.1 j p ∧
        addBucket x dsize jiffies o full forceadd d ext flagExist a b = .ok p) := by
  cases b with
  | none =>
    unfold addTarget addBucket
    cases hf : forceadd || full
    · cases hk : o.kzalloc
      · exact ⟨_, rfl⟩
      · exact .inr ⟨0, rfl, _, copyElem_storesAt newBucket, rfl⟩
    · exact ⟨_, rfl⟩
  | some n =>
    have hscan := addScan_holds x jiffies d flagExist (n.value.take n.pos)
    unfold addTarget addBucket
    simp only
    generalize addScan x jiffies d flagExist (n.value.take n.pos) 0 none false false = scan at hscan
    cases scan with
    | overwrite j =>
      obtain ⟨hj, -, heq, -⟩ := hscan
      obtain ⟨-, hjv, hget⟩ := n.getElem_take_pos hj
      refine .inr ⟨j, rfl, _, ⟨rfl, n.pos, a, n.data j, rfl, ?_, rfl⟩, rfl⟩
      rw [n.data_eq hjv, ← hget]
      exact heq
    | exist => exact ⟨_, rfl⟩
    | done j deleted reuse =>
      cases hr : reuse || forceadd
      · simp only [hr, Bool.false_eq_true, if_false]
        cases full
        · simp only [Bool.false_eq_true, if_false]
          by_cases hfull : n.size ≤ n.pos
          · rw [if_pos hfull, if_pos hfull]
            by_cases hmax : ahashMaxSize ≤ n.size
            · simp only [hmax, decide_true, Bool.true_or, if_true]
              exact ⟨_, rfl⟩
            · simp only [hmax, decide_false, Bool.false_or, if_false]
              cases hk : o.kzalloc
              · exact ⟨_, rfl⟩
              · exact .inr ⟨n.pos, rfl, _, copyElem_storesAt n.grow, rfl⟩
          · rw [if_neg hfull, if_neg hfull]
            exact .inr ⟨n.pos, rfl, _, copyElem_storesAt n, rfl⟩
        · exact ⟨_, rfl⟩
      · simp only [hr, if_true]
        cases j with
        | none => exact .inl ⟨rfl, rfl⟩
        | some j =>
          right
          cases deleted
          · exact ⟨j, rfl, _, copyData_storesAt n j (domainSetExtDestroy_counter x a _), rfl⟩
          · exact ⟨j, rfl, _, copyData_storesAt n j rfl, rfl⟩

/-- The target lies in its array, except behind a walk over live elements only. -/
theorem addTarget_bounds {home : HashDomainElem → ℕ} {i : ℕ} {kzalloc : Bool}
    (hb : GoodBucket x home i b) {t : Hbucket A × ℤ}
    (h : addTarget x jiffies kzalloc full forceadd d flagExist b = some t) :
    (0 ≤ t.2 ∧ t.2 < t.1.size) ∨ (t.2 = -1 ∧ forceadd = true ∧
      ∃ n, b = some n ∧ ∀ s ∈ n.value.take n.pos, s.occupied x jiffies) := by
  cases b with
  | none =>
    unfold addTarget at h
    simp only at h
    split at h
    · cases h
    · obtain rfl := Option.some.inj h
      exact .inl ⟨le_rfl, by simp [Hbucket.size, newBucket, ahashInitSize]⟩
  | some n =>
    have hn : n.Good x home i := hb
    have hscan := addScan_holds x jiffies d flagExist (n.value.take n.pos)
    have hlt : ∀ j : ℕ, j < (n.value.take n.pos).length → (0 : ℤ) ≤ j ∧ (j : ℤ) < n.size := by
      intro j hj
      obtain ⟨-, hjv, -⟩ := n.getElem_take_pos hj
      exact ⟨Int.natCast_nonneg j, Int.ofNat_lt.mpr hjv⟩
    unfold addTarget at h
    simp only at h
    generalize addScan x jiffies d flagExist (n.value.take n.pos) 0 none false false = scan
      at h hscan
    cases scan with
    | overwrite j =>
      obtain ⟨hj, -⟩ := hscan
      obtain rfl := Option.some.inj h
      exact .inl (hlt j hj)
    | exist => cases h
    | done j deleted reuse =>
      simp only at h
      split at h
      · rename_i hr
        obtain rfl := Option.some.inj h
        cases j with
        | some j =>
          obtain ⟨-, -, hj, -⟩ := hscan
          exact .inl (hlt j hj)
        | none =>
          obtain ⟨-, rfl, hall⟩ := hscan
          exact .inr ⟨rfl, by simpa using hr, n, rfl, fun s hs => (hall s hs).1⟩
      split at h
      · cases h
      split at h
      · -- one position more than there were
        rename_i hfull
        split at h
        · cases h
        obtain rfl := Option.some.inj h
        have hsize : n.grow.size = n.size + ahashInitSize := by simp [Hbucket.size, Hbucket.grow]
        have hpos := hn.pos_le
        simp only [hsize, ahashInitSize]
        exact .inl (by omega)
      · rename_i hfull
        obtain rfl := Option.some.inj h
        exact .inl ⟨Int.natCast_nonneg _, Int.ofNat_lt.mpr (not_le.mp hfull)⟩

/-- Behind a walk over live elements with other keys, `forceadd` takes `-1`. -/
theorem addTarget_blocked {kzalloc : Bool} {n : Hbucket A}
    (hall : ∀ s ∈ n.value.take n.pos,
      s.occupied x jiffies ∧ hashDomainDataEqual s.data.elem d = false) :
    addTarget x jiffies kzalloc full true d flagExist (some n) = some (n, -1) := by
  have hscan := addScan_holds x jiffies d flagExist (n.value.take n.pos)
  unfold addTarget
  simp only
  generalize addScan x jiffies d flagExist (n.value.take n.pos) 0 none false false = scan at hscan
  cases scan with
  | overwrite j =>
    obtain ⟨hj, -, heq, -⟩ := hscan
    exact absurd heq (by rw [(hall _ (getElem_mem hj)).2]; exact Bool.false_ne_true)
  | exist =>
    obtain ⟨-, s, hs, -, heq⟩ := hscan
    exact absurd heq (by rw [(hall s hs).2]; exact Bool.false_ne_true)
  | done j deleted reuse =>
    cases j with
    | some j =>
      obtain ⟨-, -, hj, -, hocc, -⟩ := hscan
      exact absurd (hall _ (getElem_mem hj)).1 hocc
    | none => simp

end

/-! ### The set -/

section
variable (jhash2 : HashDomainElem → BitVec 32 → BitVec 32) (jiffies : BitVec A.longBits)
  (o : AddAlloc) (set : DomainSet A) (d : HashDomainElem)

/-- The bucket of the key in the state in which `mtype_add` looks it up. -/
def bucketOfKey : Option (Hbucket A) :=
  let s := makeRoom jiffies o.expire set
  s.table.hbucket (s.home jhash2 d)

/-- The slot of the set that `mtype_add` stores in. -/
def storeTarget (flags : CmdFlags) : Option (Hbucket A × ℤ) :=
  let s := makeRoom jiffies o.expire set
  addTarget s.extensions jiffies o.kzalloc s.full (set.full && s.full && set.forceadd) d flags.exist
    (bucketOfKey jhash2 jiffies o set d)

variable {jhash2 o set d}

theorem full_of_makeRoom (h : (makeRoom jiffies o.expire set).full = true) : set.full = true := by
  by_contra hne
  rw [makeRoom, if_neg (by simp [hne])] at h
  exact hne h

theorem mem_of_mem_makeRoom (h : set.table.Good set.extensions (set.home jhash2)) {r : Record A}
    (hr : r ∈ (makeRoom jiffies o.expire set).table.records) : r ∈ set.table.records := by
  unfold makeRoom at hr
  split at hr
  · rw [(mtypeExpire_good jiffies o.expire h).2] at hr
    exact mem_of_mem_filter hr
  · exact hr

theorem bucketOfKey_good (h : set.table.Good set.extensions (set.home jhash2)) {n : Hbucket A}
    (hn : bucketOfKey jhash2 jiffies o set d = some n) :
    n.Good (makeRoom jiffies o.expire set).extensions ((makeRoom jiffies o.expire set).home jhash2)
      ((makeRoom jiffies o.expire set).home jhash2 d) := by
  have hb := (makeRoom_good jiffies h o.expire).hbucket
    ((makeRoom jiffies o.expire set).home jhash2 d)
  rwa [show Htable.hbucket _ _ = some n from hn] at hb

theorem mtypeAdd_target (h : set.table.Good set.extensions (set.home jhash2))
    (ext : DomainSetExt) (flags : CmdFlags) :
    match storeTarget jhash2 jiffies o set d flags with
    | none => ∃ e next, (e ≠ .eagain → next = (makeRoom jiffies o.expire set).next) ∧
        mtypeAdd jhash2 jiffies o set d ext flags =
          .ok (.err e, { makeRoom jiffies o.expire set with next := next })
    | some t =>
      (t.2 = -1 ∧ mtypeAdd jhash2 jiffies o set d ext flags = .error .outOfBounds) ∨
      (∃ j : ℕ, t.2 = j ∧ ∃ p set', StoresAt set.extensions jiffies o.comment d ext t.1 j p ∧
        set'.table = (makeRoom jiffies o.expire set).table.setBucket
          ((makeRoom jiffies o.expire set).home jhash2 d) p.2.2 ∧
        mtypeAdd jhash2 jiffies o set d ext flags = .ok (.ok, set')) := by
  have hs := makeRoom_good jiffies h o.expire
  rw [← (makeRoom_config set jiffies o.expire).extensions]
  unfold storeTarget bucketOfKey mtypeAdd
  simp only
  generalize (set.full && (makeRoom jiffies o.expire set).full && set.forceadd) = forceadd
  generalize makeRoom jiffies o.expire set = s at hs
  have hi := DomainSet.home_lt hs d
  have ht := addBucket_target s.extensions s.dsize jiffies s.full forceadd flags.exist d ext s.acct
    (o := o) (b := s.table.hbucket (s.home jhash2 d))
  rw [show hkey jhash2 d s.initval s.table.htableBits = s.home jhash2 d from rfl]
  revert ht
  generalize addTarget s.extensions jiffies o.kzalloc s.full forceadd d flags.exist
    (s.table.hbucket (s.home jhash2 d)) = target
  intro ht
  cases target with
  | none =>
    obtain ⟨e, he⟩ := ht
    rw [he]
    simp only [bind, Except.bind, pure, Except.pure]
    rw [s.table.setBucket_self hi]
    refine ⟨e, _, ?_, rfl⟩
    intro hne
    rw [if_neg (by simpa using hne)]
  | some t =>
    rcases ht with ⟨hneg, he⟩ | ⟨j, hj, p, hp, he⟩
    · rw [he]
      exact .inl ⟨hneg, rfl⟩
    · rw [he]
      simp only [bind, Except.bind, pure, Except.pure]
      refine .inr ⟨j, hj, p, { s with acct := p.2.1, table := s.table.setBucket _ p.2.2 }, hp, rfl,
        ?_⟩
      rw [hp.1]
      rfl

end

end Dset.Hash
