import Dset.Hash.Machine
import Dset.Lib.Heap

/-! `mtype_resize` with the memory it takes: every table and every bucket of the
new tables has an address. A table that overflows or runs out of memory is
destroyed as far as it was filled, and `ref` and `uref` of the old table go back.
The records are those of the copy without addresses (`resizeMem_eq`). -/

namespace Dset.Hash

open Dset.Lib List

variable {A : Arch}

/-- A table being filled: the address of its block and its buckets with theirs. -/
structure NewTable (A : Arch) where
  addr : ℕ
  bucket : List (Option (ℕ × Hbucket A))

def blocksOf (t : List (Option (ℕ × Hbucket A))) : List ℕ :=
  t.flatMap fun o => o.elim [] fun n => [n.1]

def NewTable.blocks (t : NewTable A) : List ℕ := t.addr :: blocksOf t.bucket

def mtypeAhashDestroy (x : Extensions) (t : NewTable A) (extDestroy : Bool) (a : Accounts)
    (heap : Heap) : Accounts × Heap :=
  let a := t.bucket.foldl (fun a o => match o with
    | none => a
    | some n => if x.comment && extDestroy then mtypeExtCleanup x a n.2 else a) a
  let heap := t.bucket.foldl (fun heap o => match o with
    | none => heap
    | some n => heap.free n.1) heap
  (a, heap.free t.addr)

/-- One record copied, as `resizeCopy` does, into a bucket at an address. -/
def resizeCopyMem (dsize : ℕ) (alloc : Bool) (data : Record A) (extsize : ℤ) (heap : Heap) :
    Option (ℕ × Hbucket A) → Except Errno ((ℕ × Hbucket A) × ℤ × Heap)
  | none =>
    if !alloc then .error .enomem
    else .ok ((heap.alloc.1, newBucket.append data), extsize + extSize A ahashInitSize dsize,
      heap.alloc.2)
  | some (p, m) =>
    if m.size ≤ m.pos then
      if ahashMaxSize ≤ m.size then .error .eagain
      else if !alloc then .error .enomem
      else .ok ((heap.alloc.1, m.grow.append data), extsize + extSize A ahashInitSize dsize,
        heap.alloc.2.free p)
    else .ok ((p, m.append data), extsize, heap)

/-- The loops over the records; the table is handed out also where they stop. -/
def resizeFillMem (key : HashDomainElem → ℕ) (dsize : ℕ) (alloc : ℕ → Bool) :
    List (Record A) → ℕ → List (Option (ℕ × Hbucket A)) → ℤ → Heap →
      Except Errno ℤ × List (Option (ℕ × Hbucket A)) × Heap
  | [], _, t, extsize, heap => (.ok extsize, t, heap)
  | data :: rs, i, t, extsize, heap =>
    match resizeCopyMem dsize (alloc i) data extsize heap (t.getD (key data.elem) none) with
    | .error e => (.error e, t, heap)
    | .ok p =>
      resizeFillMem key dsize alloc rs (i + 1) (t.set (key data.elem) (some p.1)) p.2.1 p.2.2

structure Resized (A : Arch) where
  ret : Ret
  set : DomainSet A
  old : Option (Htable A)
  new : Option (NewTable A)
  heap : Heap

/-- From label `retry` on, as `resizeRetry`. -/
def resizeRetryMem (jhash2 : HashDomainElem → BitVec 32 → BitVec 32) (alloc : ResizeAlloc)
    (set : DomainSet A) (heap : Heap) : ℕ → Except Fault (Resized A)
  | 0 => .ok ⟨.err .dsetErrHashFull, set, none, none, heap⟩
  | room + 1 =>
    let htableBits := 255 - room
    if htableSize A htableBits = 0 then .error .zeroSizePtr
    else if !alloc.table htableBits then .ok ⟨.err .enomem, set, none, none, heap⟩
    else
      let orig := { set.table with ref := 1, uref := set.table.uref + 1 }
      let p := resizeFillMem (fun e => hkey jhash2 e set.initval htableBits) set.dsize
        (alloc.bucket htableBits) orig.walk 0 (replicate (jhashSize htableBits) none) 0 heap.alloc.2
      let t : NewTable A := ⟨heap.alloc.1, p.2.1⟩
      match p.1 with
      | .ok extsize =>
        .ok ⟨.ok, { set with
            acct := { set.acct with extSize := extsize }
            table := ⟨0, 0, htableBits, t.bucket.map (Option.map Prod.snd)⟩ },
          some { orig with uref := orig.uref - 1 }, some t, p.2.2⟩
      | .error e =>
        let d := mtypeAhashDestroy set.extensions t false set.acct p.2.2
        let set := { set with
          acct := d.1
          table := { orig with ref := 0, uref := orig.uref - 1 } }
        if e = .eagain then resizeRetryMem jhash2 alloc set d.2 room
        else .ok ⟨.err e, set, none, none, d.2⟩

def resizeMem (jhash2 : HashDomainElem → BitVec 32 → BitVec 32) (alloc : ResizeAlloc)
    (set : DomainSet A) (heap : Heap) : Except Fault (Resized A) :=
  resizeRetryMem jhash2 alloc set heap (255 - set.table.htableBits)

/-! ### The copy -/

section
variable {key : HashDomainElem → ℕ} {dsize : ℕ}

/-- Without its addresses a bucket is copied as `resizeCopy` does it. -/
theorem resizeCopyMem_eq (alloc : Bool) (data : Record A) (extsize : ℤ) (heap : Heap)
    (o : Option (ℕ × Hbucket A)) :
    (resizeCopyMem dsize alloc data extsize heap o).map (fun p => (p.1.2, p.2.1)) =
      resizeCopy dsize alloc data extsize (o.map Prod.snd) := by
  unfold resizeCopyMem resizeCopy
  cases o with
  | none => cases alloc <;> rfl
  | some m =>
    obtain ⟨p, m⟩ := m
    simp only [Option.map_some]
    split
    · split
      · rfl
      · cases alloc <;> rfl
    · rfl

variable (key dsize) in
theorem resizeFillMem_eq (alloc : ℕ → Bool) (rs : List (Record A)) (i : ℕ)
    (t : List (Option (ℕ × Hbucket A))) (extsize : ℤ) (heap : Heap) :
    resizeFill key dsize alloc rs i (t.map (Option.map Prod.snd)) extsize =
      (resizeFillMem key dsize alloc rs i t extsize heap).1.map fun e =>
        ((resizeFillMem key dsize alloc rs i t extsize heap).2.1.map (Option.map Prod.snd), e) := by
  induction rs generalizing i t extsize heap with
  | nil => rfl
  | cons data rs ih =>
    have hget : (t.map (Option.map Prod.snd)).getD (key data.elem) none =
        (t.getD (key data.elem) none).map Prod.snd := by
      simp only [getD_eq_getElem?_getD, getElem?_map]
      cases t[key data.elem]? <;> rfl
    unfold resizeFill resizeFillMem
    rw [hget, ← resizeCopyMem_eq (alloc i) data extsize heap]
    cases resizeCopyMem dsize (alloc i) data extsize heap (t.getD (key data.elem) none) with
    | error e => rfl
    | ok p =>
      have := ih (i + 1) (t.set (key data.elem) (some p.1)) p.2.1 p.2.2
      rw [map_set] at this
      exact this

variable (key dsize) in
/-- Where one record goes, the blocks of the table are what is held. -/
theorem resizeFillMem_holds (alloc : ℕ → Bool) (rs : List (Record A)) (i : ℕ)
    {t : List (Option (ℕ × Hbucket A))} (extsize : ℤ) {h heap : Heap} {addr : ℕ}
    (hkey : ∀ e, key e < t.length) (hh : h.Holds heap (addr :: blocksOf t)) :
    h.Holds (resizeFillMem key dsize alloc rs i t extsize heap).2.2
      (addr :: blocksOf (resizeFillMem key dsize alloc rs i t extsize heap).2.1) := by
  induction rs generalizing i t extsize heap with
  | nil => exact hh
  | cons data rs ih =>
    have hk := hkey data.elem
    have hget : t.getD (key data.elem) none = t[key data.elem] := by simp [hk]
    have hold := flatMap_perm_getElem (fun o : Option (ℕ × Hbucket A) => o.elim [] fun n => [n.1])
      t hk
    have hnew := flatMap_set_perm (fun o : Option (ℕ × Hbucket A) => o.elim [] fun n => [n.1]) t hk
    unfold resizeFillMem
    rw [hget]
    cases hcopy : resizeCopyMem dsize (alloc i) data extsize heap t[key data.elem] with
    | error e => exact hh
    | ok p =>
      refine ih (i + 1) p.2.1 (by simpa using hkey) ?_
      refine Heap.Holds.perm ?_ ((hnew (some p.1)).cons addr)
      have hh' := hh.perm (hold.symm.cons addr)
      unfold resizeCopyMem at hcopy
      split at hcopy
      · rename_i hnone
        rw [hnone] at hh'
        split at hcopy
        · cases hcopy
        obtain rfl := Except.ok.inj hcopy
        exact hh'.alloc.perm (Perm.swap _ _ _)
      · rename_i q m hsome
        rw [hsome] at hh'
        split at hcopy
        · split at hcopy
          · cases hcopy
          split at hcopy
          · cases hcopy
          obtain rfl := Except.ok.inj hcopy
          -- the smaller bucket goes back
          refine Heap.Holds.free (hh'.alloc.perm ?_)
          exact ((Perm.swap addr q _).trans ((Perm.swap _ q _).cons addr)).trans (Perm.swap _ addr _)
        · obtain rfl := Except.ok.inj hcopy
          exact hh'

end

/-! ### The retries -/

/-- Destroying a table without its extensions leaves the accounts of the set. -/
theorem mtypeAhashDestroy_acct (x : Extensions) (t : NewTable A) (a : Accounts) (heap : Heap) :
    (mtypeAhashDestroy x t false a heap).1 = a := by
  unfold mtypeAhashDestroy
  simp only [Bool.and_false, Bool.false_eq_true, if_false]
  induction t.bucket with
  | nil => rfl
  | cons o t ih => cases o <;> exact ih

theorem mtypeAhashDestroy_holds (x : Extensions) {t : NewTable A} (extDestroy : Bool) (a : Accounts)
    {h heap : Heap} {held : List ℕ} (hh : h.Holds heap (t.blocks ++ held)) :
    h.Holds (mtypeAhashDestroy x t extDestroy a heap).2 held := by
  have hfree : ∀ (b : List (Option (ℕ × Hbucket A))) (heap : Heap),
      b.foldl (fun heap o => match o with
        | none => heap
        | some n => heap.free n.1) heap = (blocksOf b).foldl Heap.free heap := by
    intro b
    induction b with
    | nil => intro heap; rfl
    | cons o b ih => intro heap; cases o <;> exact ih _
  unfold mtypeAhashDestroy
  simp only [hfree]
  refine Heap.Holds.free (Heap.Holds.freeAll (hh.perm ?_))
  exact perm_middle

section
variable {jhash2 : HashDomainElem → BitVec 32 → BitVec 32} {set : DomainSet A}

variable (jhash2) in
/-- Without its addresses this is `resizeRetry`. -/
theorem resizeRetryMem_eq (alloc : ResizeAlloc) (set : DomainSet A) (heap : Heap) (room : ℕ) :
    (resizeRetryMem jhash2 alloc set heap room).map (fun r => (r.ret, r.set, r.old)) =
      resizeRetry jhash2 alloc set room := by
  induction room generalizing set heap with
  | zero => rfl
  | succ room ih =>
    unfold resizeRetryMem resizeRetry
    simp only
    split
    · rfl
    split
    · rfl
    have hfill := resizeFillMem_eq (fun e => hkey jhash2 e set.initval (255 - room))
      set.dsize (alloc.bucket (255 - room)) set.table.walk 0
      (replicate (jhashSize (255 - room)) none) 0 heap.alloc.2
    rw [map_replicate, Option.map_none] at hfill
    have hwalk : ({ set.table with ref := 1, uref := set.table.uref + 1 } : Htable A).walk =
        set.table.walk := rfl
    rw [hwalk, hfill]
    generalize resizeFillMem (fun e => hkey jhash2 e set.initval (255 - room)) set.dsize
      (alloc.bucket (255 - room)) set.table.walk 0 (replicate (jhashSize (255 - room)) none) 0
      heap.alloc.2 = p
    obtain ⟨res, t, heap'⟩ := p
    have hu : set.table.uref + 1 - 1 = set.table.uref := by omega
    cases res with
    | ok extsize => simp [Except.map, hu]
    | error e =>
      simp only [mtypeAhashDestroy_acct, hu]
      by_cases he : e = .eagain
      · subst he
        exact ih _ _
      · simp only [if_neg he]
        simp [Except.map, he]

/-- An error leaves the set as it was when its table had no `ref`. -/
theorem resizeRetryMem_error {alloc : ResizeAlloc} {set : DomainSet A} {heap : Heap} {room : ℕ}
    {r : Resized A} (href : set.table.ref = 0)
    (h : resizeRetryMem jhash2 alloc set heap room = .ok r) (hret : r.ret ≠ .ok) : r.set = set := by
  induction room generalizing heap with
  | zero =>
    obtain rfl := Except.ok.inj h
    rfl
  | succ room ih =>
    unfold resizeRetryMem at h
    simp only at h
    split at h
    · cases h
    split at h
    · obtain rfl := Except.ok.inj h
      rfl
    split at h
    · obtain rfl := Except.ok.inj h
      exact absurd rfl hret
    · have hset : ∀ a, a = set.acct → ({ set with
          acct := a
          table := { set.table with ref := 0, uref := set.table.uref + 1 - 1 } } : DomainSet A) =
            set := by
        rintro a rfl
        rw [show set.table.uref + 1 - 1 = set.table.uref by omega, ← href]
      rw [hset _ (mtypeAhashDestroy_acct _ _ _ _)] at h
      split at h
      · exact ih h
      · obtain rfl := Except.ok.inj h
        rfl

/-- The blocks that a call keeps are those of the published table. -/
theorem resizeRetryMem_holds {alloc : ResizeAlloc} {set : DomainSet A} {h₀ heap : Heap} {room : ℕ}
    {r : Resized A} (hh : h₀.Holds heap [])
    (h : resizeRetryMem jhash2 alloc set heap room = .ok r) :
    h₀.Holds r.heap (r.new.elim [] NewTable.blocks) ∧ match r.new with
      | none => r.ret ≠ .ok
      | some t => r.ret = .ok ∧ t.bucket.map (Option.map Prod.snd) = r.set.table.bucket := by
  induction room generalizing set heap with
  | zero =>
    obtain rfl := Except.ok.inj h
    exact ⟨hh, Ret.noConfusion⟩
  | succ room ih =>
    unfold resizeRetryMem at h
    simp only at h
    split at h
    · cases h
    split at h
    · obtain rfl := Except.ok.inj h
      exact ⟨hh, Ret.noConfusion⟩
    have hempty : blocksOf (replicate (jhashSize (255 - room)) none : List (Option (ℕ × Hbucket A))) =
        [] := by simp [blocksOf]
    have hfill := resizeFillMem_holds (fun e => hkey jhash2 e set.initval (255 - room))
      set.dsize (alloc.bucket (255 - room)) set.table.walk 0
      (t := replicate (jhashSize (255 - room)) none) 0 (by simpa using fun e => hkey_lt jhash2 e set.initval (255 - room))
      (show h₀.Holds heap.alloc.2 (heap.alloc.1 :: blocksOf _) by rw [hempty]; exact hh.alloc)
    split at h
    · obtain rfl := Except.ok.inj h
      exact ⟨hfill, rfl, rfl⟩
    · have hd := mtypeAhashDestroy_holds set.extensions (t := ⟨heap.alloc.1, _⟩) false set.acct
        (show h₀.Holds _ (_ ++ []) by rw [append_nil]; exact hfill)
      split at h
      · exact ih hd h
      · obtain rfl := Except.ok.inj h
        exact ⟨hd, Ret.noConfusion⟩

/-! ### Runs -/

theorem resizeRetry_ref {alloc : ResizeAlloc} {set : DomainSet A} {room : ℕ}
    {p : Ret × DomainSet A × Option (Htable A)} (href : set.table.ref = 0)
    (h : resizeRetry jhash2 alloc set room = .ok p) : p.2.1.table.ref = 0 := by
  induction room generalizing set with
  | zero =>
    obtain rfl := Except.ok.inj h
    exact href
  | succ room ih =>
    unfold resizeRetry at h
    simp only at h
    split at h
    · cases h
    split at h
    · obtain rfl := Except.ok.inj h
      exact href
    split at h
    · obtain rfl := Except.ok.inj h
      rfl
    split at h
    · exact ih rfl h
    · obtain rfl := Except.ok.inj h
      rfl

theorem makeRoom_ref (jiffies : BitVec A.longBits) (alloc : ℕ → Bool) (set : DomainSet A) :
    (makeRoom jiffies alloc set).table.ref = set.table.ref := by
  unfold makeRoom
  split <;> rfl

/-- Outside `mtype_resize` the table of a set has no `ref`. -/
theorem applyOp_ref {now : ℕ} {set set' : DomainSet A} {op : Op} {out : Outcome}
    (href : set.table.ref = 0) (h : applyOp jhash2 now set op = .ok (out, set')) :
    set'.table.ref = 0 := by
  cases op with
  | add d ext flags alloc =>
    obtain ⟨p, hp, h⟩ := bind_ok h
    obtain ⟨-, rfl⟩ := Prod.mk.inj (Except.ok.inj h)
    obtain ⟨q, -, hq⟩ := bind_ok hp
    obtain rfl := Except.ok.inj hq
    exact (makeRoom_ref _ _ set).trans href
  | del d alloc =>
    obtain ⟨-, rfl⟩ := Prod.mk.inj (Except.ok.inj h)
    exact href
  | test d ext mext flags =>
    obtain ⟨-, rfl⟩ := Prod.mk.inj (Except.ok.inj h)
    unfold mtypeTest
    simp only
    split
    · exact href
    · split <;> exact href
  | expire alloc =>
    obtain ⟨-, rfl⟩ := Prod.mk.inj (Except.ok.inj h)
    exact href
  | flush =>
    obtain ⟨-, rfl⟩ := Prod.mk.inj (Except.ok.inj h)
    exact href
  | resize alloc =>
    obtain ⟨p, hp, h⟩ := bind_ok h
    obtain ⟨-, rfl⟩ := Prod.mk.inj (Except.ok.inj h)
    exact resizeRetry_ref href hp

theorem run_ref {l : List Call} {forceadd : Bool} {set : DomainSet A}
    (h : (setSystem A jhash2 forceadd).Run l set) : set.table.ref = 0 := by
  refine h.invariant (P := fun s => s.table.ref = 0) ?_ ?_
  · exact fun s hs => (init_created jhash2 hs).ref.1
  · exact fun s c s' href hstep => applyOp_ref href hstep.2

def DomainSet.dumped (set : DomainSet A) (uref : ℤ) : DomainSet A :=
  { set with table := { set.table with uref := uref } }

/-- When `mtype_resize` returns zero, the published table holds the records of the
old one, each in the bucket of its key, and of the memory taken only this table is
left. When it returns an error, the set is what it was and all memory taken is
handed back; the accounts being the same, no comment is freed. -/
theorem resize_all_or_nothing {l : List Call} {forceadd : Bool}
    (h : (setSystem A jhash2 forceadd).Run l set) (uref : ℤ) (alloc : ResizeAlloc) (heap : Heap)
    {r : Resized A} (hr : resizeMem jhash2 alloc (set.dumped uref) heap = .ok r) :
    (r.ret = .ok →
      r.set.table.records ~ set.table.records ∧
      r.set.table.bucket.length = jhashSize r.set.table.htableBits ∧
      (∀ (i : ℕ) (n : Hbucket A), r.set.table.bucket[i]? = some (some n) →
        ∀ k ∈ n.records, hkey jhash2 k.elem set.initval r.set.table.htableBits = i) ∧
      r.set.acct.elements = set.acct.elements ∧ r.set.acct.freed = set.acct.freed ∧
      ∃ t, r.new = some t ∧ t.bucket.map (Option.map Prod.snd) = r.set.table.bucket ∧
        heap.Holds r.heap t.blocks) ∧
    (∀ e, r.ret = .err e → r.set = set.dumped uref ∧ heap.Holds r.heap []) := by
  obtain ⟨hg, -⟩ := run_good h
  have htable : (set.dumped uref).table.Good (set.dumped uref).extensions
      ((set.dumped uref).home jhash2) := ⟨hg.table.length, hg.table.bucket⟩
  have hfree := run_ref h
  have href : (set.dumped uref).table.ref = 0 := hfree
  obtain ⟨hholds, hnew⟩ := resizeRetryMem_holds (Heap.Holds.refl heap) hr
  constructor
  · intro hok
    have hplain := resizeRetryMem_eq jhash2 alloc (set.dumped uref) heap
      (255 - (set.dumped uref).table.htableBits)
    rw [show resizeRetryMem jhash2 alloc _ heap _ = .ok r from hr] at hplain
    have hres := mtypeResize_result htable alloc
    rw [mtypeResize, ← hplain] at hres
    simp only [Except.map, hok] at hres
    generalize r.old = old at hres
    cases hres with
    | resized _ _ _ _ hrec hchange hacct =>
      refine ⟨hrec, hchange.good.length, ?_, by rw [hacct]; rfl, by rw [hacct]; rfl, ?_⟩
      · intro i n hn k hk
        obtain ⟨hi, hin⟩ := List.getElem?_eq_some_iff.mp hn
        have hb := hchange.good.bucket i hi
        rw [hin] at hb
        have hhome := Hbucket.Good.home hb k hk
        rwa [DomainSet.home, hchange.initval] at hhome
      · cases ht : r.new with
        | none =>
          rw [ht] at hnew
          exact absurd hok hnew
        | some t =>
          rw [ht] at hnew hholds
          exact ⟨t, rfl, hnew.2, hholds⟩
  · intro e he
    have hne : r.ret ≠ .ok := by
      rw [he]
      exact Ret.noConfusion
    refine ⟨resizeRetryMem_error href hr hne, ?_⟩
    cases ht : r.new with
    | none =>
      rw [ht] at hholds
      exact hholds
    | some t =>
      rw [ht] at hnew
      exact absurd hnew.1 hne

/-- A set of one element, resized with a dump session on its table. -/
theorem resize_all_or_nothing_one :
    ∃ l set, ∃ r : Resized x64, (setSystem x64 firstByte false).Run l set ∧
      resizeMem firstByte ⟨fun _ => true, fun _ _ => true⟩ (set.dumped 1) ⟨0, []⟩ = .ok r ∧
      r.set.table.records ~ set.table.records ∧ set.table.records.length = 1 := by
  have htest : runOpsTest firstByte (smallSet 2 0) [(0, .add keyA plainExt plainFlags noFailure)]
      (fun s => decide (s.table.records.length = 1) &&
        match resizeMem firstByte ⟨fun _ => true, fun _ _ => true⟩ (s.dumped 1) ⟨0, []⟩ with
        | .ok r => decide (r.ret = .ok)
        | .error _ => false) = true := by decide +kernel
  obtain ⟨p, hp, hs⟩ := runOpsTest_iff.mp htest
  have hrun := run_of_runOps (.start (smallSet_init firstByte 2 0 rfl)) (by simp [Op.Enabled]) hp
  rw [Bool.and_eq_true] at hs
  obtain ⟨hone, hs⟩ := hs
  split at hs
  · rename_i r hr
    exact ⟨_, p.2, r, hrun, hr, ((resize_all_or_nothing hrun 1 _ _ hr).1 (of_decide_eq_true hs)).1,
      of_decide_eq_true hone⟩
  · cases hs

end

end Dset.Hash
