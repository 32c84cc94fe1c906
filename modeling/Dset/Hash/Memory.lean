import Dset.Hash.Machine
import Mathlib.Algebra.Order.BigOperators.Group.List

/-! The counter `ext_size`. A bucket weighs one header and its slots, but growing
or cutting it down moves the counter by a header and `AHASH_INIT_SIZE` slots, and
a `mtype_resize` that succeeds counts so for the whole table and leaves the comments
out. In runs without such steps the counter is exact. -/

namespace Dset.Hash

open Dset.Lib List

variable {A : Arch}

/-- The call neither grows a bucket nor cuts one down, and a resize that succeeds
finds no comments and spreads the records over buckets of `AHASH_INIT_SIZE`. -/
def Steady (jhash2 : HashDomainElem → BitVec 32 → BitVec 32) (set : DomainSet A) (c : Call) : Prop :=
  let jiffies := jiffiesAt A c.now
  match c.op with
  | .add d _ _ alloc =>
    let s := makeRoom jiffies alloc.expire set
    (set.full = true → set.withTimeout = true → ∀ (i : ℕ) (n : Hbucket A),
      set.table.bucket[i]? = some (some n) → ¬n.Shrinks jiffies (alloc.expire i)) ∧
    ¬Grows s.extensions jiffies alloc.kzalloc s.full d.toHashDomainElem
      (s.table.hbucket (s.home jhash2 d.toHashDomainElem))
  | .del d alloc => ¬CutsDown set.extensions jiffies alloc d.toHashDomainElem
      (set.table.hbucket (set.home jhash2 d.toHashDomainElem))
  | .test _ _ _ _ => True
  | .expire alloc => ∀ (i : ℕ) (n : Hbucket A), set.table.bucket[i]? = some (some n) →
      ¬n.Shrinks jiffies (alloc i)
  | .flush => True
  | .resize _ => c.out = .ret .ok → ResizeSettles jhash2 set

section
variable {jhash2 : HashDomainElem → BitVec 32 → BitVec 32} {set set' : DomainSet A} {now : ℕ}
  {op : Op} {out : Outcome}

theorem applyOp_exact (hg : set.Good jhash2) (he : set.Exact)
    (hc : Steady jhash2 set ⟨now, op, out⟩) (h : applyOp jhash2 now set op = .ok (out, set')) :
    set'.Exact := by
  cases op with
  | add d ext flags alloc =>
    obtain ⟨ret, rfl, hres⟩ := applyOp_add hg h
    obtain ⟨drift, hch, hdrift⟩ := makeRoom_change hg.table (jiffiesAt A now) alloc.expire
    obtain rfl := hdrift hc.1
    cases hres with
    | refused e next => exact he.change { hch with }
    | exist => exact he.change hch
    | stored _ _ _ _ _ _ _ _ _ _ _ _ _ hchange _ hgrow =>
      obtain rfl := hgrow hc.2
      exact (he.change hch).change hchange
  | del d alloc =>
    have hres := mtypeDel_result (jiffiesAt A now) hg.table d.padded alloc
    obtain ⟨rfl, rfl⟩ := Prod.mk.inj (Except.ok.inj h)
    revert hres
    generalize mtypeDel jhash2 (jiffiesAt A now) alloc set d.toHashDomainElem = p
    obtain ⟨ret, s⟩ := p
    intro hres
    cases hres with
    | missing => exact he
    | removed _ _ _ _ _ _ _ _ _ hchange _ hdrift =>
      obtain rfl := hdrift hc
      exact he.change hchange
  | test d ext mext flags =>
    have hres := mtypeTest_result (jiffiesAt A now) hg.table d.padded ext mext flags
    obtain ⟨rfl, rfl⟩ := Prod.mk.inj (Except.ok.inj h)
    revert hres
    generalize mtypeTest jhash2 (jiffiesAt A now) set d.toHashDomainElem ext mext flags = p
    obtain ⟨b, s, m⟩ := p
    intro hres
    cases hres with
    | missing => exact he
    | found _ _ _ _ _ _ _ _ _ _ hchange => exact he.change hchange
  | expire alloc =>
    obtain ⟨rfl, rfl⟩ := Prod.mk.inj (Except.ok.inj h)
    obtain ⟨drift, hch, hdrift⟩ := mtypeExpire_change hg.table (jiffiesAt A now) alloc
    obtain rfl := hdrift hc
    exact he.change hch
  | flush =>
    obtain ⟨rfl, rfl⟩ := Prod.mk.inj (Except.ok.inj h)
    exact (mtypeFlush_change hg).2.2.1
  | resize alloc =>
    obtain ⟨ret, old, rfl, hres⟩ := applyOp_resize hg h
    cases hres with
    | failed e ref => exact he.change (.ref hg.table ref)
    | resized _ _ _ _ _ _ _ hexact => exact hexact (hc rfl)

theorem commentBytes_nonneg (x : Extensions) (rs : List (Record A)) : 0 ≤ commentBytes x rs := by
  refine sum_nonneg ?_
  intro b hb
  obtain ⟨r, -, rfl⟩ := mem_map.mp hb
  split
  · cases r.comment <;> simp
  · exact le_rfl

theorem bucketBytes_nonneg (dsize : ℕ) (t : Htable A) : 0 ≤ t.bucketBytes dsize := by
  refine sum_nonneg ?_
  intro b hb
  obtain ⟨o, -, rfl⟩ := mem_map.mp hb
  cases o <;> simp [bucketBytes]

/-- In a run of steady calls `ext_size` is what the buckets and the comments in
used slots take; in particular it stays above zero. -/
theorem run_ext_size {l : List Call}
    (h : ((setSystem A jhash2 false).guard (Steady jhash2)).Run l set) :
    set.acct.extSize =
      (set.table.bucket.map fun o => (o.map fun n => (extSize A n.size set.dsize : ℤ)).getD 0).sum +
      (set.table.records.map fun r => if set.withComment then
        (r.comment.map fun c => (commentSize A c : ℤ)).getD 0 else 0).sum ∧
    0 ≤ set.acct.extSize := by
  have hexact : set.Exact := by
    refine (h.invariant
      (P := fun s => (s.Good jhash2 ∧ s.forceadd = false) ∧ s.Exact) ?_ ?_).2
    · intro s hs
      have hc := init_created jhash2 hs
      exact ⟨⟨hc.good jhash2, hs.1⟩, hc.exact⟩
    · rintro s c s' ⟨⟨hg, hf⟩, he⟩ ⟨hc, -, hstep⟩
      obtain ⟨drift, hch⟩ := applyOp_change hg hstep
      exact ⟨⟨hg.change hch, hch.forceadd.trans hf⟩, applyOp_exact hg he hc hstep⟩
  have h1 := bucketBytes_nonneg set.dsize set.table
  have h2 := commentBytes_nonneg set.extensions set.table.records
  unfold DomainSet.Exact DomainSet.commentBytes at hexact
  refine ⟨?_, by omega⟩
  rw [hexact, Htable.bucketBytes, commentBytes]
  congr 3
  · funext o
    cases o <;> rfl
  · funext r
    cases r.comment <;> rfl

/-- Records with comments in two buckets, a resize that fails for want of memory, and a
deletion. -/
def commentedCalls : List Call :=
  let add (d : DomainKey) (str : List UInt8) : Call :=
    ⟨0, .add d { plainExt with comment := some str } plainFlags noFailure, .ret .ok⟩
  [add keyA [120], add keyB [121, 121], ⟨0, .resize ⟨fun _ => false, fun _ _ => true⟩,
    .ret (.err .enomem)⟩, ⟨0, .del keyA true, .ret .ok⟩]

theorem run_ext_size_commented :
    ∃ set, ((setSystem x64 firstByte false).guard (Steady firstByte)).Run commentedCalls set ∧
      set.commentBytes ≠ 0 ∧ 0 ≤ set.acct.extSize := by
  let bucket (s : DomainSet x64) (d : DomainKey) : Option (Hbucket x64) :=
    s.table.hbucket (s.home firstByte d.toHashDomainElem)
  let P (s : DomainSet x64) (c : Call) : Bool :=
    match c.op with
    | .add d _ _ _ => !s.full && (bucket s d).isNone
    | .del d _ => (bucket s d).all fun n => n.pos + 1 < ahashInitSize
    | .resize _ => c.out ≠ .ret .ok
    | _ => false
  have hP (s : DomainSet x64) (c : Call) (h : P s c = true) : Steady firstByte s c := by
    unfold Steady
    cases hop : c.op with
    | add d ext flags alloc =>
      simp only [P, hop, Bool.and_eq_true, Bool.not_eq_true', Option.isNone_iff_eq_none] at h
      obtain ⟨hroom, hnone⟩ := h
      simp only [makeRoom_of_not_full hroom]
      refine ⟨fun hfull => absurd (hroom.symm.trans hfull) Bool.false_ne_true, ?_⟩
      show ¬Grows _ _ _ _ _ (bucket s d)
      rw [hnone]
      exact id
    | del d alloc =>
      simp only [P, hop] at h
      show ¬CutsDown _ _ _ _ (bucket s d)
      cases hb : bucket s d with
      | none => exact id
      | some n =>
        -- too few positions for as many holes
        simp only [hb, Option.all_some, decide_eq_true_eq] at h
        rintro ⟨-, j, hj, -, -, hholes⟩
        have hle := (countP_le_length (p := fun s => !s.used) (l := n.value.take n.pos)).trans
          (length_take_le n.pos n.value)
        split at hholes <;> omega
    | resize alloc =>
      simp only [P, hop, ne_eq, decide_not, Bool.not_eq_true', decide_eq_false_iff_not] at h
      exact fun hok => absurd hok h
    | _ => simp [P, hop] at h
  obtain ⟨set, hrun, hbytes⟩ := run_of_applyCall (l := commentedCalls) (P := P)
    (Q := fun s => s.commentBytes != 0) hP (smallSet_init firstByte 4 16 rfl) (by decide +kernel)
  exact ⟨set, hrun, bne_iff_ne.mp hbytes, (run_ext_size hrun).2⟩

/-- A comment, a resize that forgets its bytes, and the deletion that takes them
and the bucket away. -/
def underflow : List (ℕ × Op) :=
  [(0, .add keyA { plainExt with comment := some [120] } plainFlags noFailure),
    (0, .resize ⟨fun _ => true, fun _ _ => true⟩), (0, .del keyA true)]

/-- A run of a set with comments that ends below zero, far from what the table
takes. -/
theorem run_ext_size_underflow :
    ¬∀ (l : List Call) (set : DomainSet x64), (setSystem x64 firstByte false).Run l set →
      set.acct.extSize = set.table.bucketBytes set.dsize + set.commentBytes ∧
        0 ≤ set.acct.extSize := by
  intro h
  have htest : runOpsTest firstByte (smallSet 2 16) underflow
      (fun s => decide (s.acct.extSize < 0)) = true := by decide +kernel
  obtain ⟨p, hp, hlt⟩ := runOpsTest_iff.mp htest
  have hrun := run_of_runOps (.start (smallSet_init _ 2 16 rfl)) (by simp [underflow, Op.Enabled]) hp
  exact absurd (h _ _ hrun).2 (not_le.mpr (of_decide_eq_true hlt))

end

end Dset.Hash
