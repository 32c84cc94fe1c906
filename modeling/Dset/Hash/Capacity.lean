import Dset.Hash.Machine

/-! The limit `maxelem`. Of the three ways `mtype_add` finds a place, reusing one
is not behind a test against the limit. Reusing an expired record keeps the
number of elements; filling a hole that a deletion left adds one, also in a full
set. Runs in which no addition to a full set fills a hole keep to the limit. -/

namespace Dset.Hash

open Dset.Lib List

variable {A : Arch}

/-- The call adds a key that a full set lacks, and the first position of its
bucket that can be reused is a hole. -/
def FillsHole (jhash2 : HashDomainElem → BitVec 32 → BitVec 32) (set : DomainSet A) (c : Call) :
    Prop :=
  match c.op with
  | .add d _ _ alloc =>
    let jiffies := jiffiesAt A c.now
    let s := makeRoom jiffies alloc.expire set
    s.full = true ∧
      ReusesHole s.extensions jiffies d.toHashDomainElem (s.table.hbucket (s.home jhash2 d.toHashDomainElem))
  | _ => False

section
variable {jhash2 : HashDomainElem → BitVec 32 → BitVec 32} {set set' : DomainSet A} {now : ℕ}
  {op : Op} {out : Outcome}

theorem DomainSet.full_iff (set : DomainSet A) :
    set.full = true ↔ (set.maxelem : ℤ) ≤ set.acct.elements := by simp [DomainSet.full]

theorem makeRoom_records (h : set.table.Good set.extensions (set.home jhash2))
    (jiffies : BitVec A.longBits) (alloc : ℕ → Bool) :
    (makeRoom jiffies alloc set).table.records = set.table.records ∨
      (set.withTimeout = true ∧ (makeRoom jiffies alloc set).table.records =
        set.table.records.filter (·.fresh jiffies)) := by
  unfold makeRoom
  split
  · rename_i hc
    exact .inr ⟨(Bool.and_eq_true _ _ ▸ hc).2, (mtypeExpire_good jiffies alloc h).2⟩
  · exact .inl rfl

theorem makeRoom_elements_le (hg : set.Good jhash2) (jiffies : BitVec A.longBits)
    (alloc : ℕ → Bool) : (makeRoom jiffies alloc set).Good jhash2 ∧
      (makeRoom jiffies alloc set).acct.elements ≤ set.acct.elements := by
  obtain ⟨drift, hch, -⟩ := makeRoom_change hg.table jiffies alloc
  have hs := hg.change hch
  refine ⟨hs, ?_⟩
  rw [hs.elements, hg.elements]
  rcases makeRoom_records hg.table jiffies alloc with h | ⟨-, h⟩ <;> rw [h]
  exact_mod_cast length_filter_le _ _

/-- One call keeps to the limit unless it fills a hole of a full set. -/
theorem applyOp_capacity (hg : set.Good jhash2)
    (hle : set.acct.elements ≤ set.maxelem) (hc : ¬FillsHole jhash2 set ⟨now, op, out⟩)
    (h : applyOp jhash2 now set op = .ok (out, set')) : set'.acct.elements ≤ set'.maxelem := by
  obtain ⟨drift, hch⟩ := applyOp_change hg h
  have hg' := hg.change hch
  rw [hch.maxelem]
  cases op with
  | add d ext flags alloc =>
    obtain ⟨ret, rfl, hres⟩ := applyOp_add hg h
    obtain ⟨hs, hsle⟩ := makeRoom_elements_le hg (jiffiesAt A now) alloc.expire
    have hmax : (makeRoom (jiffiesAt A now) alloc.expire set).maxelem = set.maxelem :=
      (makeRoom_config _ _ alloc.expire).maxelem
    cases hres with
    | refused => exact hsle.trans hle
    | exist => exact hsle.trans hle
    | stored out kept r _ _ hold hnew _ _ _ _ hlen hroom =>
      have h1 := hold.length_eq
      have h2 := hnew.length_eq
      rw [length_append] at h1
      rw [length_cons] at h2
      have h3 := hs.elements
      have h4 := hg'.elements
      rcases Nat.eq_zero_or_pos out.length with h0 | h0
      · -- a new place: the set was not full
        have hnot : (makeRoom (jiffiesAt A now) alloc.expire set).full ≠ true := fun hfull =>
          hc ⟨hfull, hroom (length_eq_zero_iff.mp h0) hfull⟩
        rw [ne_eq, DomainSet.full_iff, hmax] at hnot
        omega
      · omega
  | del d alloc =>
    have hres := mtypeDel_result (jiffiesAt A now) hg.table d.padded alloc
    obtain ⟨rfl, rfl⟩ := Prod.mk.inj (Except.ok.inj h)
    have h1 := hg.elements
    have h2 := hg'.elements
    revert hres h2
    generalize mtypeDel jhash2 (jiffiesAt A now) alloc set d.toHashDomainElem = p
    obtain ⟨ret, s⟩ := p
    intro hres h2
    cases hres with
    | missing => exact hle
    | removed _ _ _ _ hold hnew =>
      have h3 := hold.length_eq
      have h4 := hnew.length_eq
      rw [length_cons] at h3
      simp only at h2 h4 ⊢
      omega
  | test d ext mext flags =>
    have hres := mtypeTest_result (jiffiesAt A now) hg.table d.padded ext mext flags
    obtain ⟨rfl, rfl⟩ := Prod.mk.inj (Except.ok.inj h)
    revert hres
    generalize mtypeTest jhash2 (jiffiesAt A now) set d.toHashDomainElem ext mext flags = p
    obtain ⟨b, s, m⟩ := p
    intro hres
    cases hres with
    | missing => exact hle
    | found _ _ _ _ _ _ _ _ _ _ _ hacct => rw [hacct]; exact hle
  | expire alloc =>
    obtain ⟨rfl, rfl⟩ := Prod.mk.inj (Except.ok.inj h)
    have h1 := hg.elements
    have h2 := hg'.elements
    rw [(mtypeExpire_good (jiffiesAt A now) alloc hg.table).2] at h2
    have h3 := length_filter_le (·.fresh (jiffiesAt A now)) set.table.records
    omega
  | flush =>
    obtain ⟨rfl, rfl⟩ := Prod.mk.inj (Except.ok.inj h)
    have h1 : (mtypeFlush set).acct.elements = 0 := rfl
    omega
  | resize alloc =>
    obtain ⟨ret, old, rfl, hres⟩ := applyOp_resize hg h
    cases hres with
    | failed e ref => exact hle
    | resized _ _ _ _ _ _ hacct =>
      rw [hacct]
      exact hle

/-- In a run in which no addition to a full set fills a hole, the elements never
exceed `maxelem`. -/
theorem run_capacity {l : List Call}
    (h : ((setSystem A jhash2 false).guard fun s c => ¬FillsHole jhash2 s c).Run l set) :
    set.acct.elements ≤ set.maxelem := by
  refine (h.invariant
    (P := fun s => (s.Good jhash2 ∧ s.forceadd = false) ∧ s.acct.elements ≤ s.maxelem) ?_ ?_).2
  · intro s hs
    have hc := init_created jhash2 hs
    exact ⟨⟨hc.good jhash2, hs.1⟩, by rw [hc.acct]; exact Int.natCast_nonneg _⟩
  · rintro s c s' ⟨⟨hg, hf⟩, hle⟩ ⟨hc, -, hstep⟩
    obtain ⟨drift, hch⟩ := applyOp_change hg hstep
    exact ⟨⟨hg.change hch, hch.forceadd.trans hf⟩, applyOp_capacity hg hle hc hstep⟩

def keyTwo (a b : UInt8) (h : 0 ∉ [a, b]) : DomainKey :=
  .ofText [a, b] h (by simp [dsetMaxDomainLen])

/-- Two keys of one bucket fill a set of two, a key of another bucket is refused, and a
hole is filled again when the set has room. -/
def refill : List Call :=
  let add (d : DomainKey) (ret : Ret) : Call := ⟨0, .add d plainExt plainFlags noFailure, .ret ret⟩
  [add (keyTwo 97 97 (by decide)) .ok, add (keyTwo 97 98 (by decide)) .ok,
    add keyB (.err .dsetErrHashFull), ⟨0, .del (keyTwo 97 97 (by decide)) true, .ret .ok⟩,
    add (keyTwo 97 99 (by decide)) .ok]

theorem run_capacity_refill :
    ∃ set, ((setSystem x64 firstByte false).guard fun s c => ¬FillsHole firstByte s c).Run refill
      set ∧ set.full = true ∧ set.acct.elements ≤ set.maxelem := by
  let P (s : DomainSet x64) (c : Call) : Bool :=
    match c.op with
    | .add d _ _ alloc =>
      let s := makeRoom (jiffiesAt x64 c.now) alloc.expire s
      !s.full || (s.table.hbucket (s.home firstByte d.toHashDomainElem)).isNone
    | _ => true
  have hP (s : DomainSet x64) (c : Call) (h : P s c = true) : ¬FillsHole firstByte s c := by
    unfold FillsHole
    intro hc
    cases hop : c.op with
    | add d ext flags alloc =>
      simp only [hop] at hc
      simp only [P, hop, Bool.or_eq_true, Bool.not_eq_true', Option.isNone_iff_eq_none] at h
      rcases h with h | h
      · exact Bool.false_ne_true (h.symm.trans hc.1)
      · rw [h] at hc
        exact hc.2
    | _ => simp [hop] at hc
  obtain ⟨set, hrun, hfull⟩ := run_of_applyCall (l := refill) (P := P) (Q := (·.full)) hP
    (smallSet_init firstByte 2 0 rfl) (by decide +kernel)
  exact ⟨set, hrun, hfull, run_capacity hrun⟩

/-- The limit is two: the first of two keys in one bucket is deleted, a key of
another bucket fills the set again, and a third takes the hole. -/
def overfill : List (ℕ × Op) :=
  let add (d : DomainKey) : Op := .add d plainExt plainFlags noFailure
  [(0, add (keyTwo 97 97 (by decide))), (0, add (keyTwo 97 98 (by decide))),
    (0, .del (keyTwo 97 97 (by decide)) true), (0, add keyB),
    (0, add (keyTwo 97 99 (by decide)))]

/-- A run of a set without `forceadd` that ends with more than `maxelem` elements. -/
theorem run_exceeds_capacity :
    ¬∀ (l : List Call) (set : DomainSet x64), (setSystem x64 firstByte false).Run l set →
      set.acct.elements ≤ set.maxelem := by
  intro h
  have htest : runOpsTest firstByte (smallSet 2 0) overfill
      (fun s => decide ((s.maxelem : ℤ) < s.acct.elements)) = true := by decide +kernel
  obtain ⟨p, hp, hlt⟩ := runOpsTest_iff.mp htest
  have hrun := run_of_runOps (.start (smallSet_init _ 2 0 rfl)) (by simp [overfill, Op.Enabled]) hp
  exact absurd (h _ _ hrun) (not_le.mpr (of_decide_eq_true hlt))

end

end Dset.Hash
