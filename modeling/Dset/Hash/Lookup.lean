import Dset.Hash.Del

/-! `mtype_test` and `mtype_flush`. A lookup touches the counters of the record
it finds and nothing else; a flush drops every bucket and zeroes the counters of
the set whatever they were. -/

namespace Dset.Hash

open Dset.Lib List

variable {A : Arch}

/-! ### `mtype_test` -/

/-- The loop of `mtype_test`: the positions with the counters moved on and what
comes back in `mext`, or no match. -/
def testSlots (x : Extensions) (jiffies : BitVec A.longBits) (ext mext : DomainSetExt)
    (flags : CmdFlags) (d : HashDomainElem) :
    List (Slot A) → Option (List (Slot A) × DomainSetExt)
  | [] => none
  | s :: ss =>
    let rest := (testSlots x jiffies ext mext flags d ss).map fun p => (s :: p.1, p.2)
    if !s.used then rest
    else if !hashDomainDataEqual s.data.elem d then rest
    else
      match domainSetMatchExtensions x jiffies ext mext flags s.data with
      | none => rest
      | some p => some (⟨true, p.1⟩ :: ss, p.2)

/-- `mtype_test`: whether it is non-zero, the set and `mext` afterwards. -/
def mtypeTest (jhash2 : HashDomainElem → BitVec 32 → BitVec 32) (jiffies : BitVec A.longBits)
    (set : DomainSet A) (value : HashDomainElem) (ext mext : DomainSetExt) (flags : CmdFlags) :
    Bool × DomainSet A × DomainSetExt :=
  let key := hkey jhash2 value set.initval set.table.htableBits
  match set.table.hbucket key with
  | none => (false, set, mext)
  | some n =>
    match testSlots set.extensions jiffies ext mext flags value (n.value.take n.pos) with
    | none => (false, set, mext)
    | some p =>
      let n : Hbucket A := ⟨n.pos, p.1 ++ n.value.drop n.pos⟩
      (true, { set with table := set.table.setBucket key (some n) }, p.2)

theorem testSlots_spec (x : Extensions) (jiffies : BitVec A.longBits) (ext mext : DomainSetExt)
    (flags : CmdFlags) (d : HashDomainElem) (v : List (Slot A)) :
    match testSlots x jiffies ext mext flags d v with
    | none => ∀ s ∈ v, s.used = true → hashDomainDataEqual s.data.elem d = true →
        domainSetMatchExtensions x jiffies ext mext flags s.data = none
    | some p => ∃ j, ∃ hj : j < v.length, v[j].used = true ∧
        hashDomainDataEqual v[j].data.elem d = true ∧ ∃ r,
          domainSetMatchExtensions x jiffies ext mext flags v[j].data = some (r, p.2) ∧
          p.1 = v.set j ⟨true, r⟩ := by
  induction v with
  | nil => simp [testSlots]
  | cons s v ih =>
    -- a position without a match leaves the answer to the rest
    have hpass : (s.used = true → hashDomainDataEqual s.data.elem d = true →
          domainSetMatchExtensions x jiffies ext mext flags s.data = none) →
        testSlots x jiffies ext mext flags d (s :: v) =
          (testSlots x jiffies ext mext flags d v).map fun p => (s :: p.1, p.2) := by
      intro h
      rw [testSlots]
      cases hu : s.used
      · simp
      cases heq : hashDomainDataEqual s.data.elem d
      · simp
      · simp [h hu heq]
    by_cases h : s.used = true → hashDomainDataEqual s.data.elem d = true →
        domainSetMatchExtensions x jiffies ext mext flags s.data = none
    · rw [hpass h]
      cases hrest : testSlots x jiffies ext mext flags d v with
      | none =>
        rw [hrest] at ih
        intro t ht
        rcases mem_cons.mp ht with rfl | ht
        · exact h
        · exact ih t ht
      | some p =>
        rw [hrest] at ih
        obtain ⟨j, hj, hu, heq, r, hr, hp⟩ := ih
        exact ⟨j + 1, by simpa using hj, hu, heq, r, hr, by simp [hp]⟩
    · simp only [Classical.not_imp] at h
      obtain ⟨hu, heq, hsome⟩ := h
      obtain ⟨q, hq⟩ := Option.ne_none_iff_exists'.mp hsome
      have : testSlots x jiffies ext mext flags d (s :: v) = some (⟨true, q.1⟩ :: v, q.2) := by
        simp [testSlots, hu, heq, hq]
      rw [this]
      exact ⟨0, by simp, hu, heq, q.1, hq, by simp⟩

section
variable {jhash2 : HashDomainElem → BitVec 32 → BitVec 32} {set : DomainSet A}
  {jiffies : BitVec A.longBits} {d : HashDomainElem}

inductive TestResult (jhash2 : HashDomainElem → BitVec 32 → BitVec 32) (jiffies : BitVec A.longBits)
    (d : HashDomainElem) (ext mext : DomainSetExt) (flags : CmdFlags) (set : DomainSet A) :
    Bool → DomainSet A → DomainSetExt → Prop
  | missing (h : ∀ r ∈ set.table.records, r.elem = d →
        extensionsMatch set.extensions jiffies mext flags r = false) :
      TestResult jhash2 jiffies d ext mext flags set false set mext
  | found (r r' : Record A) (kept : List (Record A)) (set' : DomainSet A) (mext' : DomainSetExt)
      (hold : set.table.records ~ r :: kept) (hnew : set'.table.records ~ r' :: kept)
      (helem : r.elem = d) (hkept : ∀ k ∈ kept, k.elem ≠ d)
      (hmatch : domainSetMatchExtensions set.extensions jiffies ext mext flags r = some (r', mext'))
      (hchange : set.Change jhash2 set' 0) (hacct : set'.acct = set.acct)
      (htable : set'.table.htableBits = set.table.htableBits) :
      TestResult jhash2 jiffies d ext mext flags set true set' mext'

/-- Records with the same comment settle against each other. -/
theorem Settles.of_comment (x : Extensions) (a : Accounts) {r r' : Record A}
    (h : r'.comment = r.comment) : Settles x a [r] a [r'] 0 := by
  constructor <;> simp [Hash.commentBytes, Hash.commentAddrs, h]

variable (jiffies) in
theorem mtypeTest_result (h : set.table.Good set.extensions (set.home jhash2))
    (hd : ZeroPadded d.domain) (ext mext : DomainSetExt) (flags : CmdFlags) :
    TestResult jhash2 jiffies d ext mext flags set
      (mtypeTest jhash2 jiffies set d ext mext flags).1
      (mtypeTest jhash2 jiffies set d ext mext flags).2.1
      (mtypeTest jhash2 jiffies set d ext mext flags).2.2 := by
  have hi := DomainSet.home_lt h d
  have hgood := h.hbucket (set.home jhash2 d)
  have hmiss : ∀ o, set.table.hbucket (set.home jhash2 d) = o →
      (∀ r ∈ bucketRecords o, r.elem = d →
        extensionsMatch set.extensions jiffies mext flags r = false) →
      ∀ r ∈ set.table.records, r.elem = d →
        extensionsMatch set.extensions jiffies mext flags r = false := by
    rintro o rfl ho r hr he
    have := (h.mem_records hr).2
    rw [he] at this
    exact ho r this he
  unfold mtypeTest
  simp only
  rw [show hkey jhash2 d set.initval set.table.htableBits = set.home jhash2 d from rfl]
  cases hb : set.table.hbucket (set.home jhash2 d) with
  | none => exact .missing (hmiss none hb (by simp [bucketRecords]))
  | some n =>
    rw [hb] at hgood
    have hn : n.Good set.extensions (set.home jhash2) (set.home jhash2 d) := hgood
    have hspec := testSlots_spec set.extensions jiffies ext mext flags d (n.value.take n.pos)
    simp only
    cases hres : testSlots set.extensions jiffies ext mext flags d (n.value.take n.pos) with
    | none =>
      rw [hres] at hspec
      refine .missing (hmiss _ hb ?_)
      intro r hr he
      rw [bucketRecords, hn.records_take] at hr
      obtain ⟨s, hs, hu, rfl⟩ := mem_slotRecords.mp hr
      rw [← domainSetMatchExtensions_isSome set.extensions jiffies ext,
        hspec s hs hu ((hn.equal_iff hd hs hu).mpr he)]
      rfl
    | some p =>
      rw [hres] at hspec
      obtain ⟨j, hj, hu, heq, r, hr, hp⟩ := hspec
      obtain ⟨hjp, hjv, hget⟩ := n.getElem_take_pos hj
      have helem : n.value[j].data.elem = d := hget ▸ (hn.equal_iff hd (getElem_mem hj) hu).mp heq
      rw [hget] at hu hr
      obtain ⟨hre, -, -, hrc⟩ := domainSetMatchExtensions_frame hr
      -- the bucket with the new counters is the old one with one record stored
      have hstore : (⟨n.pos, p.1 ++ n.value.drop n.pos⟩ : Hbucket A) = n.store j r := by
        rw [hp, ← set_append_left _ _ hj, take_append_drop]; rfl
      have hold : n.records ~ n.value[j].data :: recordsBut n.value j := by
        have := slotRecords_perm hjv
        rwa [Slot.records_used hu] at this
      have hne := hn.others_ne hjv hu
      have hsub : ∀ k ∈ recordsBut n.value j, k ∈ n.records := fun k hk =>
        hold.mem_iff.mpr (mem_cons_of_mem _ hk)
      obtain ⟨hgood', hnew⟩ := hn.toShape.store hjp (r := r)
        (fun k hk => ⟨hn.padded k (hsub k hk), hn.home k (hsub k hk), by
          rw [hre]; exact hne k hk⟩)
        (by
          have hnd := (hold.map Record.elem).nodup_iff.mp hn.nodup
          exact (nodup_cons.mp hnd).2)
        (by rw [hre, helem]; exact hd) (by rw [hre, helem])
      simp only [hstore]
      have hperm := set.table.records_perm hi
      have hsettles := ((Settles.of_comment set.extensions set.acct hrc).frame
        (recordsBut n.value j)).perm hold hnew
      have hch := DomainSet.Change.setBucket (b := some (n.store j r)) h hi hgood'
        (by rw [hb]; exact hsettles) set.next
      rw [hb] at hperm hch
      have hdrift : (0 : ℤ) - (bucketBytes set.dsize (some (n.store j r)) -
          bucketBytes set.dsize (some n)) = 0 := by
        simp [bucketBytes, Hbucket.store, Hbucket.size]
      rw [hdrift] at hch
      refine .found n.value[j].data r (recordsBut n.value j ++ set.table.recordsBut _) _ _
        (hperm.trans (hold.append_right _))
        ((set.table.records_setBucket_perm hi _).trans (hnew.append_right _)) helem ?_ hr hch rfl rfl
      intro k hk hkd
      rcases mem_append.mp hk with hk | hk
      · exact hne k hk (hkd.trans helem.symm)
      · exact h.recordsBut_ne hi hk (by rw [hkd])

end

/-! ### `mtype_flush` -/

def mtypeExtCleanup (x : Extensions) (a : Accounts) (n : Hbucket A) : Accounts :=
  (n.value.take n.pos).foldl
    (fun a s => if s.used then (domainSetExtDestroy x a s.data).1 else a) a

def mtypeFlush (set : DomainSet A) : DomainSet A :=
  let a := set.table.bucket.foldl (fun a o => match o with
    | none => a
    | some n => if set.extensions.comment then mtypeExtCleanup set.extensions a n else a) set.acct
  { set with
    acct := { a with elements := 0, extSize := 0 }
    table := { set.table with bucket := set.table.bucket.map fun _ => none } }

/-- The comments freed on the way over one bucket. -/
theorem mtypeExtCleanup_freed {x : Extensions} (hx : x.comment = true) (v : List (Slot A))
    (a : Accounts) :
    (v.foldl (fun a s => if s.used then (domainSetExtDestroy x a s.data).1 else a) a).nextAddr =
        a.nextAddr ∧
      (v.foldl (fun a s => if s.used then (domainSetExtDestroy x a s.data).1 else a) a).freed ~
        commentAddrs x (slotRecords v) ++ a.freed := by
  induction v generalizing a with
  | nil => simp
  | cons s v ih =>
    rw [foldl_cons]
    cases hu : s.used
    · rw [slotRecords_cons_unused v hu]
      simpa [hu] using ih a
    · rw [slotRecords_cons_used v hu]
      obtain ⟨h1, h2⟩ := ih (domainSetExtDestroy x a s.data).1
      simp only [if_true]
      cases hc : s.data.comment with
      | none =>
        simp only [domainSetExtDestroy, hx, hc, domainSetCommentFree, if_true] at h1 h2 ⊢
        refine ⟨h1, h2.trans ?_⟩
        simp [commentAddrs, hc]
      | some c =>
        simp only [domainSetExtDestroy, hx, hc, domainSetCommentFree, if_true] at h1 h2 ⊢
        refine ⟨h1, h2.trans ?_⟩
        simp only [commentAddrs, flatMap_cons, hx, hc, if_true, Option.elim_some]
        exact perm_middle

section
variable {jhash2 : HashDomainElem → BitVec 32 → BitVec 32} {set : DomainSet A}

theorem mtypeFlush_freed {x : Extensions} {home : HashDomainElem → ℕ}
    (os : List (Option (Hbucket A))) (a : Accounts)
    (h : ∀ o ∈ os, ∃ i, GoodBucket x home i o) :
    (os.foldl (fun a o => match o with
      | none => a
      | some n => if x.comment then mtypeExtCleanup x a n else a) a).nextAddr = a.nextAddr ∧
    (os.foldl (fun a o => match o with
      | none => a
      | some n => if x.comment then mtypeExtCleanup x a n else a) a).freed ~
        commentAddrs x (os.flatMap bucketRecords) ++ a.freed := by
  induction os generalizing a with
  | nil => simp
  | cons o os ih =>
    rw [foldl_cons]
    cases o with
    | none => simpa [bucketRecords] using ih a (fun o ho => h o (by simp [ho]))
    | some n =>
      obtain ⟨i, hn⟩ := h (some n) (by simp)
      have hn : n.Good x home i := hn
      obtain ⟨h1, h2⟩ := ih (if x.comment then mtypeExtCleanup x a n else a)
        (fun o ho => h o (by simp [ho]))
      cases hx : x.comment
      · simp only [hx, Bool.false_eq_true, if_false] at h1 h2 ⊢
        rw [commentAddrs_eq_nil hx] at h2 ⊢
        exact ⟨h1, h2⟩
      · simp only [hx, if_true] at h1 h2 ⊢
        obtain ⟨h3, h4⟩ := mtypeExtCleanup_freed hx (n.value.take n.pos) a
        refine ⟨h1.trans h3, h2.trans ?_⟩
        rw [flatMap_cons, commentAddrs_append, bucketRecords, hn.records_take, append_assoc]
        exact (h4.append_left _).trans (perm_append_comm_assoc _ _ _)

theorem mtypeFlush_change (h : set.Good jhash2) :
    (∃ drift, set.Change jhash2 (mtypeFlush set) drift) ∧ (mtypeFlush set).table.records = [] ∧
      (mtypeFlush set).Exact ∧ (mtypeFlush set).table.htableBits = set.table.htableBits := by
  have hnil : (mtypeFlush set).table.records = [] := by
    simp [mtypeFlush, Htable.records, bucketRecords]
  have hbytes : (mtypeFlush set).table.bucketBytes set.dsize = 0 := by
    simp [mtypeFlush, Htable.bucketBytes, bucketBytes]
  have hgood : (mtypeFlush set).table.Good set.extensions (set.home jhash2) := by
    refine ⟨by simpa [mtypeFlush] using h.table.length, ?_⟩
    intro i hi
    simp [mtypeFlush, GoodBucket]
  have hfreed := mtypeFlush_freed (x := set.extensions) set.table.bucket set.acct (fun o ho => by
    obtain ⟨i, hi, rfl⟩ := getElem_of_mem ho
    exact ⟨i, h.table.bucket i hi⟩)
  refine ⟨⟨set.table.bucketBytes set.dsize - (set.acct.extSize - set.commentBytes),
    ⟨rfl, rfl, rfl, rfl, rfl, rfl⟩, hgood, ?_⟩, hnil, ?_, rfl⟩
  · rw [hnil]
    refine ⟨?_, ?_, le_of_eq hfreed.1.symm, ?_, fun a ha =>
      hfreed.2.symm.subset (mem_append_right _ ha)⟩
    · have := h.elements
      simp only [mtypeFlush, length_nil]
      omega
    · rw [hbytes]
      simp only [mtypeFlush, commentBytes_nil, DomainSet.commentBytes]
      omega
    · have hn : (mtypeFlush set).acct.nextAddr = set.acct.nextAddr := hfreed.1
      rw [hn, Nat.sub_self]
      exact hfreed.2
  · unfold DomainSet.Exact DomainSet.commentBytes
    rw [hnil]
    show _ = (mtypeFlush set).table.bucketBytes set.dsize + _
    rw [hbytes]
    rfl

end

end Dset.Hash
