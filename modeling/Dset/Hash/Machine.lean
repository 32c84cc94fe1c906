import Dset.Hash.AddSpec
import Dset.Hash.Create
import Dset.Lib.Run

/-! A set under any sequence of its operations. A step is one call, with the tick it is made at, the outcomes of its allocations and what it
returns. Every state of every run is good: this is the representation invariant
of the table, spelled out here over buckets and slots. -/

namespace Dset.Hash

open Dset.Lib List

variable {A : Arch}

/-- An operation on the set and what it is given. -/
inductive Op where
  | add (d : DomainKey) (ext : DomainSetExt) (flags : CmdFlags) (alloc : AddAlloc)
  | del (d : DomainKey) (alloc : Bool)
  | test (d : DomainKey) (ext mext : DomainSetExt) (flags : CmdFlags)
  | expire (alloc : ℕ → Bool)
  | flush
  | resize (alloc : ResizeAlloc)

inductive Outcome where
  | ret (r : Ret)
  | found (b : Bool)
  | done
  deriving DecidableEq

/-- One call: the tick of the clock, the operation and what it returns. -/
structure Call where
  now : ℕ
  op : Op
  out : Outcome

def applyOp (jhash2 : HashDomainElem → BitVec 32 → BitVec 32) (now : ℕ) (set : DomainSet A) :
    Op → Except Fault (Outcome × DomainSet A)
  | .add d ext flags alloc => do
    let p ← mtypeAdd jhash2 (jiffiesAt A now) alloc set d.toHashDomainElem ext flags
    return (.ret p.1, p.2)
  | .del d alloc =>
    let p := mtypeDel jhash2 (jiffiesAt A now) alloc set d.toHashDomainElem
    return (.ret p.1, p.2)
  | .test d ext mext flags =>
    let p := mtypeTest jhash2 (jiffiesAt A now) set d.toHashDomainElem ext mext flags
    return (.found p.1, p.2.1)
  | .expire alloc => return (.done, mtypeExpire (jiffiesAt A now) alloc set)
  | .flush => return (.done, mtypeFlush set)
  | .resize alloc => do
    let p ← mtypeResize jhash2 alloc set
    return (.ret p.1, p.2.1)

/-- `mtype_expire` is called on sets with timeouts only. -/
def Op.Enabled (set : DomainSet A) : Op → Prop
  | .expire _ => set.withTimeout = true
  | _ => True

instance (set : DomainSet A) : (op : Op) → Decidable (op.Enabled set)
  | .expire _ => inferInstanceAs (Decidable (set.withTimeout = true))
  | .add .. | .del .. | .test .. | .flush | .resize _ => .isTrue trivial

/-- A set made by `hash_domain_create`, with `forceadd` or without, and any calls
on it. -/
def setSystem (A : Arch) (jhash2 : HashDomainElem → BitVec 32 → BitVec 32) (forceadd : Bool) :
    System (DomainSet A) Call where
  init set := set.forceadd = forceadd ∧ ∃ familyUnspec tb allocHtype allocTable initval,
    hashDomainCreate A familyUnspec tb allocHtype allocTable initval = .ok set
  step set c set' := c.op.Enabled set ∧ applyOp jhash2 c.now set c.op = .ok (c.out, set')

/-- A sequence of operations at given ticks, up to the first fault. -/
def runOps (jhash2 : HashDomainElem → BitVec 32 → BitVec 32) :
    DomainSet A → List (ℕ × Op) → Except Fault (List Call × DomainSet A)
  | s, [] => return ([], s)
  | s, (now, op) :: ops => do
    let p ← applyOp jhash2 now s op
    let q ← runOps jhash2 p.2 ops
    return (⟨now, op, p.1⟩ :: q.1, q.2)

section
variable {jhash2 : HashDomainElem → BitVec 32 → BitVec 32} {set set' : DomainSet A} {now : ℕ}
  {op : Op} {out : Outcome} {forceadd : Bool}

variable (jhash2) in
theorem init_created (h : (setSystem A jhash2 forceadd).init set) : set.Created := by
  obtain ⟨-, _, _, _, _, _, h⟩ := h
  exact (hashDomainCreate_created h).1

theorem run_of_runOps {l l' : List Call} {ops : List (ℕ × Op)} (h : (setSystem A jhash2 forceadd).Run l set)
    (hops : ∀ p ∈ ops, ∀ set : DomainSet A, p.2.Enabled set)
    (hrun : runOps jhash2 set ops = .ok (l', set')) : (setSystem A jhash2 forceadd).Run (l ++ l') set' := by
  induction ops generalizing l l' set with
  | nil =>
    rw [runOps] at hrun
    obtain ⟨rfl, rfl⟩ := Prod.mk.inj (Except.ok.inj hrun)
    simpa using h
  | cons p ops ih =>
    obtain ⟨now, op⟩ := p
    rw [runOps] at hrun
    cases hp : applyOp jhash2 now set op with
    | error e => rw [hp] at hrun; cases hrun
    | ok p =>
      rw [hp] at hrun
      cases hq : runOps jhash2 p.2 ops with
      | error e => simp [bind, Except.bind, hq] at hrun
      | ok q =>
        simp only [bind, Except.bind, hq] at hrun
        obtain ⟨rfl, rfl⟩ := Prod.mk.inj (Except.ok.inj hrun)
        have hstep := h.snoc (i := ⟨now, op, p.1⟩) ⟨hops _ mem_cons_self set, hp⟩
        have := ih hstep (fun p hp => hops p (mem_cons_of_mem _ hp)) hq
        simpa using this

/-- A sequence that returns, with an end state that passes the test `P`. -/
def runOpsTest (jhash2 : HashDomainElem → BitVec 32 → BitVec 32) (set : DomainSet A)
    (ops : List (ℕ × Op)) (P : DomainSet A → Bool) : Bool :=
  match runOps jhash2 set ops with
  | .ok p => P p.2
  | .error _ => false

theorem runOpsTest_iff {ops : List (ℕ × Op)} {P : DomainSet A → Bool} :
    runOpsTest jhash2 set ops P = true ↔
      ∃ p, runOps jhash2 set ops = .ok p ∧ P p.2 = true := by
  unfold runOpsTest
  cases runOps jhash2 set ops <;> simp

/-- A call that returns `ret`, with a set that passes the test `P`. -/
def returnsTest (ret : Ret) (r : Except Fault (Ret × DomainSet A)) (P : DomainSet A → Bool) : Bool :=
  r.toOption.any fun p => p.1 = ret && P p.2

theorem returnsTest_iff {ret : Ret} {r : Except Fault (Ret × DomainSet A)} {P : DomainSet A → Bool} :
    returnsTest ret r P = true ↔ ∃ s, r = .ok (ret, s) ∧ P s = true := by
  unfold returnsTest
  cases r with
  | error e => simp [Except.toOption]
  | ok p =>
    obtain ⟨ret', s⟩ := p
    simp only [Except.toOption, Option.any_some, Bool.and_eq_true, decide_eq_true_eq,
      Except.ok.injEq, Prod.mk.injEq]
    constructor
    · rintro ⟨rfl, hs⟩
      exact ⟨s, ⟨rfl, rfl⟩, hs⟩
    · rintro ⟨s', ⟨rfl, rfl⟩, hs⟩
      exact ⟨rfl, hs⟩

/-- The set behind the call `c`, if it may be made, returns what it says and passes the
test `P`. -/
def applyCall (jhash2 : HashDomainElem → BitVec 32 → BitVec 32) (P : DomainSet A → Call → Bool)
    (set : DomainSet A) (c : Call) : Option (DomainSet A) :=
  match applyOp jhash2 c.now set c.op with
  | .ok (out, set') => if c.op.Enabled set ∧ out = c.out ∧ P set c = true then some set' else none
  | .error _ => none

theorem applyCall_step {P : DomainSet A → Call → Bool} {c : Call}
    (h : applyCall jhash2 P set c = some set') :
    (setSystem A jhash2 forceadd).step set c set' ∧ P set c = true := by
  unfold applyCall at h
  split at h
  · next heq =>
    obtain ⟨⟨henabled, rfl, hP⟩, hset⟩ := Option.ite_none_right_eq_some.mp h
    obtain rfl := Option.some.inj hset
    exact ⟨⟨henabled, heq⟩, hP⟩
  · cases h

/-- A sequence of calls that may be made, with an end state that passes the test `Q`. -/
theorem run_of_applyCall {C : DomainSet A → Call → Prop} {P : DomainSet A → Call → Bool}
    (hC : ∀ set c, P set c = true → C set c) (h : (setSystem A jhash2 forceadd).init set)
    {l : List Call} {Q : DomainSet A → Bool}
    (htest : (l.foldlM (applyCall jhash2 P) set).any Q = true) :
    ∃ set', ((setSystem A jhash2 forceadd).guard C).Run l set' ∧ Q set' = true := by
  obtain ⟨set', hrun, hQ⟩ := (Option.any_eq_true _ _).mp htest
  refine ⟨set', System.Run.foldlM (l := []) (fun s c s' hstep => ?_) (.start h) hrun, hQ⟩
  obtain ⟨hstep, hP⟩ := applyCall_step hstep
  exact ⟨hC _ _ hP, hstep⟩

/-! ### One step -/

/-- What a call returns on a good set, by operation. -/
theorem applyOp_add {d : DomainKey} {ext : DomainSetExt} {flags : CmdFlags} {alloc : AddAlloc}
    (hg : set.Good jhash2)
    (h : applyOp jhash2 now set (.add d ext flags alloc) = .ok (out, set')) :
    ∃ ret, out = .ret ret ∧ AddResult jhash2 (jiffiesAt A now) alloc.kzalloc d.toHashDomainElem ext
      flags.exist (makeRoom (jiffiesAt A now) alloc.expire set) ret set' := by
  rcases mtypeAdd_result (jiffiesAt A now) alloc ext flags
    hg.table d.padded with ⟨-, -, heq⟩ | ⟨ret, s, heq, hres⟩
  · simp [applyOp, heq, bind, Except.bind] at h
  · simp only [applyOp, heq] at h
    obtain ⟨rfl, rfl⟩ := Prod.mk.inj (Except.ok.inj h)
    exact ⟨ret, rfl, hres⟩

theorem applyOp_resize {alloc : ResizeAlloc} (hg : set.Good jhash2)
    (h : applyOp jhash2 now set (.resize alloc) = .ok (out, set')) :
    ∃ ret old, out = .ret ret ∧ ResizeResult jhash2 set ret set' old := by
  have hres := mtypeResize_result hg.table alloc
  cases hp : mtypeResize jhash2 alloc set with
  | error e => simp [applyOp, hp, bind, Except.bind] at h
  | ok p =>
    rw [hp] at hres
    simp only [applyOp, hp] at h
    obtain ⟨rfl, rfl⟩ := Prod.mk.inj (Except.ok.inj h)
    exact ⟨_, _, rfl, hres⟩

theorem makeRoom_change (h : set.table.Good set.extensions (set.home jhash2))
    (jiffies : BitVec A.longBits) (alloc : ℕ → Bool) :
    ∃ drift, set.Change jhash2 (makeRoom jiffies alloc set) drift ∧
      ((set.full = true → set.withTimeout = true → ∀ (i : ℕ) (n : Hbucket A),
        set.table.bucket[i]? = some (some n) → ¬n.Shrinks jiffies (alloc i)) → drift = 0) := by
  unfold makeRoom
  split
  · rename_i hc
    obtain ⟨drift, hch, hd⟩ := mtypeExpire_change h jiffies alloc
    simp only [Bool.and_eq_true] at hc
    exact ⟨drift, hch, fun hno => hd (hno hc.1 hc.2)⟩
  · exact ⟨0, .refl h, fun _ => rfl⟩

theorem DomainSet.Change.ref (h : set.table.Good set.extensions (set.home jhash2)) (ref : ℤ) :
    set.Change jhash2 { set with table := { set.table with ref := ref } } 0 :=
  ⟨⟨rfl, rfl, rfl, rfl, rfl, rfl⟩, ⟨h.length, h.bucket⟩, by
    have := Settles.refl set.extensions set.acct set.table.records
    rwa [← Int.sub_self (set.table.bucketBytes set.dsize), ← Int.add_zero (_ - _)] at this⟩

theorem applyOp_change (hg : set.Good jhash2)
    (h : applyOp jhash2 now set op = .ok (out, set')) : ∃ drift, set.Change jhash2 set' drift := by
  cases op with
  | add d ext flags alloc =>
    obtain ⟨ret, rfl, hres⟩ := applyOp_add hg h
    obtain ⟨drift, hch, -⟩ := makeRoom_change hg.table (jiffiesAt A now) alloc.expire
    cases hres with
    | refused e next he habsent => exact ⟨drift, { hch with }⟩
    | exist => exact ⟨drift, hch⟩
    | stored _ _ _ _ drift' _ _ _ _ _ _ _ _ hchange => exact ⟨drift + drift', hch.trans hchange⟩
  | del d alloc =>
    have hres := mtypeDel_result (jiffiesAt A now) hg.table d.padded alloc
    obtain ⟨rfl, rfl⟩ := Prod.mk.inj (Except.ok.inj h)
    revert hres
    generalize mtypeDel jhash2 (jiffiesAt A now) alloc set d.toHashDomainElem = p
    obtain ⟨ret, s⟩ := p
    intro hres
    cases hres with
    | missing => exact ⟨0, .refl hg.table⟩
    | removed _ _ _ drift _ _ _ _ _ hchange => exact ⟨drift, hchange⟩
  | test d ext mext flags =>
    have hres := mtypeTest_result (jiffiesAt A now) hg.table d.padded ext mext flags
    obtain ⟨rfl, rfl⟩ := Prod.mk.inj (Except.ok.inj h)
    revert hres
    generalize mtypeTest jhash2 (jiffiesAt A now) set d.toHashDomainElem ext mext flags = p
    obtain ⟨b, s, m⟩ := p
    intro hres
    cases hres with
    | missing => exact ⟨0, .refl hg.table⟩
    | found _ _ _ _ _ _ _ _ _ _ hchange => exact ⟨0, hchange⟩
  | expire alloc =>
    obtain ⟨rfl, rfl⟩ := Prod.mk.inj (Except.ok.inj h)
    obtain ⟨drift, hch, -⟩ := mtypeExpire_change hg.table (jiffiesAt A now) alloc
    exact ⟨drift, hch⟩
  | flush =>
    obtain ⟨rfl, rfl⟩ := Prod.mk.inj (Except.ok.inj h)
    exact (mtypeFlush_change hg).1
  | resize alloc =>
    obtain ⟨ret, old, rfl, hres⟩ := applyOp_resize hg h
    cases hres with
    | failed e ref => exact ⟨0, .ref hg.table ref⟩
    | resized _ drift _ _ _ hchange => exact ⟨drift, hchange⟩

/-- A call on a good set without `forceadd` returns; only `mtype_resize` can ask for a table of no
size. -/
theorem applyOp_returns (hg : set.Good jhash2) (hf : set.forceadd = false) (now : ℕ) (op : Op) :
    (∃ out set', applyOp jhash2 now set op = .ok (out, set')) ∨
      (∃ alloc, op = .resize alloc ∧ applyOp jhash2 now set op = .error .zeroSizePtr ∧
        ∃ b, set.table.htableBits < b ∧ htableSize A b = 0 ∧
          ∀ b', set.table.htableBits < b' → b' < b → ∃ k, ahashMaxSize < set.load jhash2 b' k) := by
  cases op with
  | add d ext flags alloc =>
    rcases mtypeAdd_result (jiffiesAt A now) alloc ext flags
      hg.table d.padded with ⟨hforce, -, -⟩ | ⟨ret, s, heq, -⟩
    · rw [hf] at hforce; cases hforce
    · exact .inl ⟨_, _, by simp only [applyOp, heq]; rfl⟩
  | resize alloc =>
    have hres := mtypeResize_result hg.table alloc
    cases hp : mtypeResize jhash2 alloc set with
    | error e =>
      rw [hp] at hres
      obtain ⟨rfl, hb⟩ := hres
      exact .inr ⟨alloc, rfl, by simp [applyOp, hp, bind, Except.bind], hb⟩
    | ok p => exact .inl ⟨_, _, by simp only [applyOp, hp]; rfl⟩
  | del d alloc => exact .inl ⟨_, _, rfl⟩
  | test d ext mext flags => exact .inl ⟨_, _, rfl⟩
  | expire alloc => exact .inl ⟨_, _, rfl⟩
  | flush => exact .inl ⟨_, _, rfl⟩

/-! ### Runs -/

/-- Every state of every run is good. -/
theorem run_good {l : List Call} (h : (setSystem A jhash2 forceadd).Run l set) :
    set.Good jhash2 ∧ set.forceadd = forceadd := by
  refine h.invariant (P := fun s => s.Good jhash2 ∧ s.forceadd = forceadd) ?_ ?_
  · exact fun s hs => ⟨(init_created jhash2 hs).good jhash2, hs.1⟩
  · rintro s c s' ⟨hg, hf⟩ ⟨-, hstep⟩
    obtain ⟨drift, hch⟩ := applyOp_change hg hstep
    exact ⟨hg.change hch, hch.forceadd.trans hf⟩

/-- A run goes on with any operations but `mtype_resize`. -/
theorem run_extends {l : List Call} (h : (setSystem A jhash2 false).Run l set) (ops : List (ℕ × Op))
    (hops : ∀ p ∈ ops, ∀ set : DomainSet A, p.2.Enabled set)
    (hres : ∀ p ∈ ops, ∀ alloc, p.2 ≠ .resize alloc) :
    ∃ l' set', (setSystem A jhash2 false).Run l' set' ∧ l'.length = l.length + ops.length := by
  induction ops generalizing l set with
  | nil => exact ⟨l, set, h, rfl⟩
  | cons p ops ih =>
    obtain ⟨hg, hf⟩ := run_good h
    rcases applyOp_returns hg hf p.1 p.2 with ⟨out, s, hs⟩ | ⟨alloc, he, -⟩
    · obtain ⟨l', s', hrun, hlen⟩ := ih (h.snoc (i := ⟨p.1, p.2, out⟩)
        ⟨hops p mem_cons_self set, hs⟩) (fun q hq => hops q (mem_cons_of_mem _ hq))
        (fun q hq => hres q (mem_cons_of_mem _ hq))
      exact ⟨l', s', hrun, by simp only [hlen, length_append, length_cons, length_nil]; omega⟩
    · exact absurd he (hres p mem_cons_self alloc)

/-! ### Small sets -/

/-- A machine with 64-bit words and 1000 ticks a second. -/
def x64 : Arch := ⟨64, 1000, .inr rfl, dvd_refl 1000⟩

def firstByte (e : HashDomainElem) (_ : BitVec 32) : BitVec 32 :=
  BitVec.ofNat 32 (e.domain.headD 0).toNat

def smallAttrs (maxelem cadtFlags : ℕ) : CreateAttrs :=
  ⟨some ⟨64, true⟩, some ⟨maxelem, true⟩, none, some ⟨cadtFlags, true⟩⟩

def smallSet (maxelem cadtFlags : ℕ) : DomainSet x64 :=
  emptySet x64 (smallAttrs maxelem cadtFlags) maxelem 6 0

theorem smallSet_created (maxelem cadtFlags : ℕ) :
    hashDomainCreate x64 true (smallAttrs maxelem cadtFlags) true true 0 =
      .ok (smallSet maxelem cadtFlags) := by
  have hbits : htableBits 64 = 6 := by decide
  have hsize : htableSize x64 6 ≠ 0 := by decide
  simp [hashDomainCreate, smallAttrs, domainSetOptattrNetorder, dsetMiminalHashsize, hbits, hsize,
    smallSet]

variable (jhash2) in
theorem smallSet_init (maxelem cadtFlags : ℕ) (h : cadtFlags.testBit 5 = false) :
    (setSystem x64 jhash2 false).init (smallSet maxelem cadtFlags) :=
  ⟨h, true, _, true, true, 0, smallSet_created maxelem cadtFlags⟩

theorem zero_notMem_a : (0 : UInt8) ∉ [97] := by decide

/-- The keys `a`, `b` and those of two letters. -/
def keyA : DomainKey := .ofText [97] zero_notMem_a (by decide)

def keyB : DomainKey := .ofText [98] (by decide) (by decide)

def plainExt : DomainSetExt := ⟨⟨0, 0, 0, 0⟩, ullongMax, ullongMax, none, dsetNoTimeout, 0, 0⟩

def plainFlags : CmdFlags := ⟨false, false, false⟩

def noFailure : AddAlloc := ⟨fun _ => true, true, true⟩

/-! ### The representation invariant -/

/-- The slots of a table with their bit set. -/
def Htable.usedSlots (t : Htable A) : ℕ :=
  (t.bucket.map fun o => (o.map fun n => n.value.countP (·.used)).getD 0).sum

theorem Htable.usedSlots_eq (t : Htable A) : t.usedSlots = t.records.length := by
  unfold Htable.usedSlots Htable.records
  rw [length_flatMap]
  congr 2
  funext o
  cases o with
  | none => rfl
  | some n =>
    simp only [Option.map_some, Option.getD_some, bucketRecords, Hbucket.records, slotRecords,
      length_flatMap]
    induction n.value with
    | nil => rfl
    | cons s v ih =>
      rw [countP_cons, map_cons, sum_cons, ← ih]
      cases hu : s.used <;> simp [Slot.records, hu, Nat.add_comm]

/-- The table representation invariant of every run. -/
theorem run_representation {l : List Call} (h : (setSystem A jhash2 forceadd).Run l set) :
    set.acct.elements = set.table.usedSlots ∧
    (∀ (i : ℕ) (n : Hbucket A), set.table.bucket[i]? = some (some n) →
      ahashInitSize ∣ n.size ∧ n.size ≤ ahashMaxSize ∧ n.pos ≤ n.size ∧
      (∀ (j : ℕ) (s : Slot A), n.value[j]? = some s → s.used = true → j < n.pos ∧
        hkey jhash2 s.data.elem set.initval set.table.htableBits = i)) ∧
    set.table.records.Pairwise (fun r r' => hashDomainDataEqual r.elem r'.elem = false) := by
  obtain ⟨hg, -⟩ := run_good h
  refine ⟨by rw [hg.elements, Htable.usedSlots_eq], ?_, ?_⟩
  · intro i n hn
    obtain ⟨hi, hin⟩ := List.getElem?_eq_some_iff.mp hn
    have hb : n.Good set.extensions (set.home jhash2) i := by
      have := hg.table.bucket i hi
      rwa [hin] at this
    refine ⟨hb.size_dvd, hb.size_le, hb.pos_le, ?_⟩
    intro j s hj hu
    obtain ⟨hjv, rfl⟩ := List.getElem?_eq_some_iff.mp hj
    refine ⟨?_, hb.home _ (mem_slotRecords.mpr ⟨_, getElem_mem hjv, hu, rfl⟩)⟩
    by_contra hpos
    have hmem : n.value[j] ∈ n.value.drop n.pos := by
      rw [mem_iff_getElem]
      exact ⟨j - n.pos, by rw [length_drop]; omega, by
        rw [getElem_drop]; congr 1; omega⟩
    rw [hb.unused _ hmem] at hu
    cases hu
  · have hn := pairwise_map.mp hg.table.nodup
    refine hn.imp_of_mem ?_
    intro r r' hr hr' hne
    rw [← Bool.not_eq_true, hashDomainDataEqual_iff (hg.table.mem_records hr).1
      (hg.table.mem_records hr').1]
    exact hne

/-- Two additions to a small set, and the invariant behind them. -/
theorem run_representation_adds :
    ∃ l set, (setSystem x64 firstByte false).Run l set ∧ l.length = 2 ∧
      set.acct.elements = set.table.usedSlots := by
  obtain ⟨l, set, hrun, hlen⟩ := run_extends (.start (smallSet_init _ 2 0 rfl))
    [(0, .add keyA plainExt plainFlags noFailure), (1, .add keyB plainExt plainFlags noFailure)]
    (by simp [Op.Enabled]) (by simp)
  exact ⟨l, set, hrun, hlen, (run_representation hrun).1⟩

end

end Dset.Hash
