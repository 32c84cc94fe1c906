import Dset.Hash.Machine
import Dset.Lib.DeadlineMap

/-! The hash is a finite set with deadlines. A key is live when a used slot holds
it and its timeout has not expired; over a clock that stays within half the range
of `jiffies` the live keys and their deadlines are exactly the entries of a
deadline map on which every operation has its plain meaning. Slots, holes,
buckets, retries and failing allocations do not show. -/

namespace Dset.Hash

open Dset.Lib List

variable {A : Arch}

/-! ### The specification -/

/-- A set of keys with deadlines at a tick. -/
structure KeySet where
  timeouts : Bool
  now : ℕ
  live : DeadlineMap HashDomainElem

/-- The deadline a request asks for; never in a set without timeouts. -/
def KeySet.requested (A : Arch) (s : KeySet) (now : ℕ) (ext : DomainSetExt) : Deadline :=
  if s.timeouts then requestedDeadline A now ext.timeout else ⊤

/-- What a call may return and do to the entries `m` left at its tick. -/
def KeySet.Meets (A : Arch) (s : KeySet) (m m' : DeadlineMap HashDomainElem) (c : Call) : Prop :=
  match c.op, c.out with
  | .add d ext flags _, .ret ret =>
    (ret = .err .dsetErrExist ↔ m d.toHashDomainElem ≠ none ∧ flags.exist = false) ∧
    m' = if ret = .ok then m.insert d.toHashDomainElem (s.requested A c.now ext) else m
  | .del d _, .ret ret =>
    (ret = .ok ↔ m d.toHashDomainElem ≠ none) ∧ (ret = .ok ∨ ret = .err .dsetErrExist) ∧
    m' = m.erase d.toHashDomainElem
  | .test d _ _ flags, .found b =>
    (flags.matchCounters = false → (b = true ↔ m d.toHashDomainElem ≠ none)) ∧ m' = m
  | .expire _, .done => m' = m
  | .flush, .done => m' = .empty
  | .resize _, .ret ret =>
    (ret = .ok ∨ ret = .err .dsetErrHashFull ∨ ret = .err .enomem) ∧ m' = m
  | _, _ => False

/-- Calls at ticks that do not decrease. -/
def keySetSystem (A : Arch) (start : ℕ) : System KeySet Call where
  init s := s.now = start ∧ s.live = .empty
  step s c s' := s.now ≤ c.now ∧ s'.now = c.now ∧ s'.timeouts = s.timeouts ∧
    s.Meets A (s.live.remaining c.now) s'.live c

/-! ### The implementation -/

/-- The timeout of a request is one its callers let through. -/
def Op.Accepted (set : DomainSet A) : Op → Prop
  | .add _ ext _ _ => set.withTimeout = true → ext.timeout ≤ dsetMaxTimeout
  | _ => True

instance (set : DomainSet A) : (op : Op) → Decidable (op.Accepted set)
  | .add _ ext _ _ =>
    inferInstanceAs (Decidable (set.withTimeout = true → ext.timeout ≤ dsetMaxTimeout))
  | .del .. | .test .. | .expire _ | .flush | .resize _ => .isTrue trivial

/-- The set with the clock: it does not run back, and stays within half the
range of `jiffies` from `start` on. -/
def clockedSystem (A : Arch) (jhash2 : HashDomainElem → BitVec 32 → BitVec 32) (start : ℕ) :
    System (ℕ × DomainSet A) Call where
  init s := s.1 = start ∧ (setSystem A jhash2 false).init s.2
  step s c s' := s.1 ≤ c.now ∧ c.now ≤ start + 2 ^ (A.longBits - 1) ∧ s'.1 = c.now ∧
    c.op.Accepted s.2 ∧ (setSystem A jhash2 false).step s.2 c s'.2

def Record.deadline (x : Extensions) (start : ℕ) (r : Record A) : Deadline :=
  if x.timeout then decodeDeadline start r.timeout else ⊤

/-- One of the records holds the key `k` alive at tick `now`, to the deadline `d`. -/
def LiveIn (x : Extensions) (start now : ℕ) (rs : List (Record A)) (k : HashDomainElem)
    (d : Deadline) : Prop :=
  ∃ r ∈ rs, r.elem = k ∧ r.isExpired x (jiffiesAt A now) = false ∧ r.deadline x start = d

/-- A used slot of the table holds `k` alive at tick `now`, to the deadline `d`. -/
def DomainSet.Live (start now : ℕ) (set : DomainSet A) (k : HashDomainElem) (d : Deadline) : Prop :=
  LiveIn set.extensions start now set.table.records k d

/-- The deadline behind the timeout of a record lies in the range the clock and
one request can reach. -/
def Record.InRange (x : Extensions) (start now : ℕ) (r : Record A) : Prop :=
  x.timeout = true → ∃ d, Encodes r.timeout d ∧
    ∀ n : ℕ, d = WithTop.some n → start ≤ n ∧ n < now + 2 ^ 31

section
variable {x : Extensions} {start now now' : ℕ} {r r' : Record A}

theorem Record.InRange.mono (h : r.InRange x start now) (hle : now ≤ now') :
    r.InRange x start now' := by
  intro hx
  obtain ⟨d, he, hd⟩ := h hx
  exact ⟨d, he, fun n hn => ⟨(hd n hn).1, (hd n hn).2.trans_le (Nat.add_le_add_right hle _)⟩⟩

theorem Record.InRange.deadline_eq (h : r.InRange x start now)
    (hnow : now ≤ start + 2 ^ (A.longBits - 1)) (hx : x.timeout = true) :
    ∃ d, Encodes r.timeout d ∧ r.deadline x start = d ∧
      ∀ n : ℕ, d = WithTop.some n → start ≤ n ∧ n < now + 2 ^ 31 := by
  obtain ⟨d, he, hd⟩ := h hx
  have hhalf := A.half_le
  have hpow : 2 ^ A.longBits = 2 * 2 ^ (A.longBits - 1) := by
    rw [← Nat.pow_succ']; congr 1; have := A.longBits_pos; omega
  refine ⟨d, he, ?_, hd⟩
  rw [Record.deadline, if_pos hx]
  refine he.decode_eq fun n hn => ⟨(hd n hn).1, ?_⟩
  have := (hd n hn).2
  omega

/-- A record is expired when its deadline has passed. -/
theorem Record.InRange.isExpired_iff (h : r.InRange x start now)
    (hnow : now ≤ start + 2 ^ (A.longBits - 1)) :
    r.isExpired x (jiffiesAt A now) = true ↔ (r.deadline x start).passed now := by
  cases hx : x.timeout
  · simp [Record.isExpired, Record.deadline, hx, Deadline.top_not_passed]
  · obtain ⟨d, he, hd, hr⟩ := h.deadline_eq hnow hx
    rw [Record.isExpired, hx, Bool.true_and, hd]
    exact domainSetTimeoutExpired_iff he (fun n hn => (hr n hn).2)
      (fun n hn => hnow.trans (Nat.add_le_add_right (hr n hn).1 _))

/-- What a fresh timeout encodes is the requested deadline, and it has not
passed. -/
theorem Record.inRange_of_set {v : ℕ} (hstart : start ≤ now) (hv : v ≤ dsetMaxTimeout)
    (hr : r.timeout = domainSetTimeoutSet (jiffiesAt A now) v)
    (hnow : now ≤ start + 2 ^ (A.longBits - 1)) (hx : x.timeout = true) :
    r.InRange x start now ∧ r.deadline x start = requestedDeadline A now v ∧
      ¬(requestedDeadline A now v).passed now := by
  have he : Encodes r.timeout (requestedDeadline A now v) := hr ▸ domainSetTimeoutSet_encodes hv
  have hrange : ∀ n : ℕ, requestedDeadline A now v = WithTop.some n →
      start ≤ n ∧ n < now + 2 ^ 31 :=
    fun n hn => ⟨hstart.trans (requestedDeadline_le hv n hn).1, (requestedDeadline_le hv n hn).2⟩
  have hin : r.InRange x start now := fun _ => ⟨_, he, hrange⟩
  refine ⟨hin, ?_, ?_⟩
  · have hhalf := A.half_le
    have hpow : 2 ^ A.longBits = 2 * 2 ^ (A.longBits - 1) := by
      rw [← Nat.pow_succ']; congr 1; have := A.longBits_pos; omega
    rw [Record.deadline, if_pos hx]
    refine he.decode_eq fun n hn => ⟨(hrange n hn).1, ?_⟩
    have := (hrange n hn).2
    omega
  · intro hp
    induction hd : requestedDeadline A now v using WithTop.recTopCoe with
    | top =>
      rw [hd] at hp
      exact Deadline.top_not_passed now hp
    | coe n =>
      rw [hd, Deadline.coe_passed] at hp
      exact absurd hp (not_lt.mpr (requestedDeadline_le hv n hd).1)

end

/-! ### Live records -/

section
variable {x : Extensions} {start now now' : ℕ} {rs rs' : List (Record A)} {k : HashDomainElem}
  {d : Deadline}

theorem LiveIn.perm_iff (h : rs ~ rs') :
    LiveIn x start now rs k d ↔ LiveIn x start now rs' k d := by
  simp only [LiveIn, h.mem_iff]

/-- Time passes: those are live whose deadline has not passed. -/
theorem LiveIn.later_iff (hr : ∀ r ∈ rs, r.InRange x start now) (hle : now ≤ now')
    (hnow : now' ≤ start + 2 ^ (A.longBits - 1)) :
    LiveIn x start now' rs k d ↔ LiveIn x start now rs k d ∧ ¬d.passed now' := by
  have h1 : ∀ r ∈ rs, r.isExpired x (jiffiesAt A now) = true ↔ (r.deadline x start).passed now :=
    fun r hm => (hr r hm).isExpired_iff (hle.trans hnow)
  have h2 : ∀ r ∈ rs, r.isExpired x (jiffiesAt A now') = true ↔ (r.deadline x start).passed now' :=
    fun r hm => ((hr r hm).mono hle).isExpired_iff hnow
  constructor
  · rintro ⟨r, hm, he, hlive, rfl⟩
    have hp : ¬(r.deadline x start).passed now' := by
      rw [← h2 r hm, hlive]
      exact Bool.false_ne_true
    refine ⟨⟨r, hm, he, ?_, rfl⟩, hp⟩
    rw [← Bool.not_eq_true, h1 r hm]
    exact fun h => hp (h.mono hle)
  · rintro ⟨⟨r, hm, he, -, rfl⟩, hp⟩
    refine ⟨r, hm, he, ?_, rfl⟩
    rw [← Bool.not_eq_true, h2 r hm]
    exact hp

theorem LiveIn.filter_fresh_iff (hx : x.timeout = true) :
    LiveIn x start now (rs.filter (·.fresh (jiffiesAt A now))) k d ↔ LiveIn x start now rs k d := by
  refine exists_congr fun r => ?_
  rw [mem_filter]
  constructor
  · rintro ⟨⟨hm, -⟩, h⟩
    exact ⟨hm, h⟩
  · rintro ⟨hm, he, hlive, hd⟩
    refine ⟨⟨hm, ?_⟩, he, hlive, hd⟩
    simpa [Record.fresh, Record.isExpired, hx] using hlive

/-- Storing a record of `k₀` in place of records of that key and expired ones. -/
theorem LiveIn.stored_iff {r : Record A} {out kept : List (Record A)} {k₀ : HashDomainElem}
    (hr : r.elem = k₀) (hlive : r.isExpired x (jiffiesAt A now) = false)
    (hkept : ∀ q ∈ kept, q.elem ≠ k₀)
    (hout : ∀ q ∈ out, q.elem = k₀ ∨ q.isExpired x (jiffiesAt A now) = true) :
    LiveIn x start now (r :: kept) k d ↔
      if k = k₀ then d = r.deadline x start else LiveIn x start now (out ++ kept) k d := by
  split
  · rename_i hk
    subst hk
    constructor
    · rintro ⟨q, hq, he, -, rfl⟩
      rcases mem_cons.mp hq with rfl | hq
      · rfl
      · exact absurd he (hkept q hq)
    · rintro rfl
      exact ⟨r, mem_cons_self, hr, hlive, rfl⟩
  · rename_i hk
    constructor
    · rintro ⟨q, hq, he, h⟩
      rcases mem_cons.mp hq with rfl | hq
      · exact absurd (he.symm.trans hr) hk
      · exact ⟨q, mem_append_right _ hq, he, h⟩
    · rintro ⟨q, hq, he, hl, hd⟩
      rcases mem_append.mp hq with hq | hq
      · rcases hout q hq with ho | ho
        · exact absurd (he.symm.trans ho) hk
        · rw [hl] at ho; cases ho
      · exact ⟨q, mem_cons_of_mem _ hq, he, hl, hd⟩

theorem LiveIn.removed_iff {r : Record A} {kept : List (Record A)} {k₀ : HashDomainElem}
    (hr : r.elem = k₀) (hkept : ∀ q ∈ kept, q.elem ≠ k₀) :
    LiveIn x start now kept k d ↔ k ≠ k₀ ∧ LiveIn x start now (r :: kept) k d := by
  constructor
  · rintro ⟨q, hq, he, h⟩
    exact ⟨fun hk => hkept q hq (he.trans hk), q, mem_cons_of_mem _ hq, he, h⟩
  · rintro ⟨hk, q, hq, he, h⟩
    rcases mem_cons.mp hq with rfl | hq
    · exact absurd (he.symm.trans hr) hk
    · exact ⟨q, hq, he, h⟩

/-- A record exchanged for one with the same key and timeout. -/
theorem LiveIn.exchanged_iff {r r' : Record A} {kept : List (Record A)} (he : r'.elem = r.elem)
    (ht : r'.timeout = r.timeout) :
    LiveIn x start now (r' :: kept) k d ↔ LiveIn x start now (r :: kept) k d := by
  simp only [LiveIn, mem_cons, or_and_right, exists_or, exists_eq_left, Record.isExpired,
    Record.deadline, he, ht]

end

/-! ### The simulation -/

/-- The set represents the map. -/
structure Represents (jhash2 : HashDomainElem → BitVec 32 → BitVec 32) (start : ℕ)
    (s : ℕ × DomainSet A) (a : KeySet) : Prop where
  now : a.now = s.1
  timeouts : a.timeouts = s.2.withTimeout
  good : s.2.Good jhash2
  forceadd : s.2.forceadd = false
  clock : start ≤ s.1 ∧ s.1 ≤ start + 2 ^ (A.longBits - 1)
  inRange : ∀ r ∈ s.2.table.records, r.InRange s.2.extensions start s.1
  live : a.live.Shows (s.2.Live start s.1)

section
variable {jhash2 : HashDomainElem → BitVec 32 → BitVec 32} {start now : ℕ}
  {set set' : DomainSet A} {op : Op} {out : Outcome} {m : DeadlineMap HashDomainElem}

variable (start now) in
theorem makeRoom_live (h : set.table.Good set.extensions (set.home jhash2)) (alloc : ℕ → Bool) :
    (makeRoom (jiffiesAt A now) alloc set).extensions = set.extensions ∧
    (∀ r ∈ (makeRoom (jiffiesAt A now) alloc set).table.records, r ∈ set.table.records) ∧
    ∀ k d, LiveIn set.extensions start now (makeRoom (jiffiesAt A now) alloc set).table.records k d ↔
      LiveIn set.extensions start now set.table.records k d := by
  refine ⟨(makeRoom_config _ _ alloc).extensions, ?_, ?_⟩
  all_goals
    unfold makeRoom
    split
  · rw [(mtypeExpire_good _ alloc h).2]
    exact fun r hr => (mem_filter.mp hr).1
  · exact fun r hr => hr
  · rename_i hc
    simp only [Bool.and_eq_true] at hc
    rw [(mtypeExpire_good _ alloc h).2]
    exact fun k d => LiveIn.filter_fresh_iff hc.2
  · exact fun k d => Iff.rfl

/-- Calls at a tick within the range of the clock leave timeouts in range. -/
theorem applyOp_inRange (hg : set.Good jhash2)
    (hclock : start ≤ now ∧ now ≤ start + 2 ^ (A.longBits - 1)) (hacc : op.Accepted set)
    (hin : ∀ r ∈ set.table.records, r.InRange set.extensions start now)
    (h : applyOp jhash2 now set op = .ok (out, set')) :
    ∀ r ∈ set'.table.records, r.InRange set.extensions start now := by
  cases op with
  | add d ext flags alloc =>
    obtain ⟨ret, rfl, hres⟩ := applyOp_add hg h
    obtain ⟨hx, hsub, -⟩ := makeRoom_live start now hg.table alloc.expire
    generalize makeRoom (jiffiesAt A now) alloc.expire set = s at hres hx hsub
    cases hres with
    | refused => exact fun r hr => hin r (hsub r hr)
    | exist => exact fun r hr => hin r (hsub r hr)
    | stored out kept r _ drift hold hnew helem htimeout =>
      intro q hq
      rcases mem_cons.mp (hnew.mem_iff.mp hq) with rfl | hq
      · intro hxt
        exact (Record.inRange_of_set hclock.1 (hacc hxt) (htimeout (hx ▸ hxt)) hclock.2 hxt).1 hxt
      · exact hin q (hsub q (hold.mem_iff.mpr (mem_append_right _ hq)))
  | del d alloc =>
    obtain ⟨rfl, rfl⟩ := Prod.mk.inj (Except.ok.inj h)
    have hres := mtypeDel_result (jiffiesAt A now) hg.table d.padded alloc
    revert hres
    generalize mtypeDel jhash2 (jiffiesAt A now) alloc set d.toHashDomainElem = p
    obtain ⟨ret, s⟩ := p
    rintro (_ | ⟨r, kept, _, drift, hold, hnew⟩)
    · exact hin
    · exact fun q hq => hin q (hold.mem_iff.mpr (mem_cons_of_mem _ (hnew.mem_iff.mp hq)))
  | test d ext mext flags =>
    obtain ⟨rfl, rfl⟩ := Prod.mk.inj (Except.ok.inj h)
    have hres := mtypeTest_result (jiffiesAt A now) hg.table d.padded ext mext flags
    revert hres
    generalize mtypeTest jhash2 (jiffiesAt A now) set d.toHashDomainElem ext mext flags = p
    obtain ⟨b, s, mext'⟩ := p
    rintro (_ | ⟨r, r', kept, _, _, hold, hnew, helem, hkept, hmatch⟩)
    · exact hin
    · intro q hq
      rcases mem_cons.mp (hnew.mem_iff.mp hq) with rfl | hq
      · intro hx
        rw [(domainSetMatchExtensions_frame hmatch).2.1]
        exact hin r (hold.mem_iff.mpr mem_cons_self) hx
      · exact hin q (hold.mem_iff.mpr (mem_cons_of_mem _ hq))
  | expire alloc =>
    obtain ⟨rfl, rfl⟩ := Prod.mk.inj (Except.ok.inj h)
    rw [(mtypeExpire_good (jiffiesAt A now) alloc hg.table).2]
    exact fun r hr => hin r (mem_filter.mp hr).1
  | flush =>
    obtain ⟨rfl, rfl⟩ := Prod.mk.inj (Except.ok.inj h)
    rw [(mtypeFlush_change hg).2.1]
    exact fun r hr => absurd hr not_mem_nil
  | resize alloc =>
    obtain ⟨ret, old, rfl, hres⟩ := applyOp_resize hg h
    cases hres with
    | failed => exact hin
    | resized _ _ _ _ hrec => exact fun r hr => hin r (hrec.mem_iff.mp hr)

/-- What a step owes: entries that the call may leave, shown by the records afterwards. -/
def Owes (a : KeySet) (start now : ℕ) (x : Extensions) (m : DeadlineMap HashDomainElem) (op : Op)
    (out : Outcome) (rs : List (Record A)) : Prop :=
  ∃ m', a.Meets A m m' ⟨now, op, out⟩ ∧ m'.Shows (LiveIn x start now rs)

variable {a : KeySet}

theorem live_ne_none_iff (hm : m.Shows (set.Live start now)) (k : HashDomainElem) :
    m k ≠ none ↔ ∃ r ∈ set.table.records, r.elem = k ∧
      r.isExpired set.extensions (jiffiesAt A now) = false := by
  rw [hm.ne_none_iff]
  constructor
  · rintro ⟨d, r, hr, he, hl, -⟩
    exact ⟨r, hr, he, hl⟩
  · rintro ⟨r, hr, he, hl⟩
    exact ⟨_, r, hr, he, hl, rfl⟩

theorem owes_add {d : DomainKey} {ext : DomainSetExt} {flags : CmdFlags} {alloc : AddAlloc}
    (hg : set.Good jhash2) (hclock : start ≤ now ∧ now ≤ start + 2 ^ (A.longBits - 1))
    (ha : a.timeouts = set.withTimeout)
    (hacc : set.withTimeout = true → ext.timeout ≤ dsetMaxTimeout)
    (hm : m.Shows (set.Live start now)) {ret : Ret}
    (h : AddResult jhash2 (jiffiesAt A now) alloc.kzalloc d.toHashDomainElem ext flags.exist
      (makeRoom (jiffiesAt A now) alloc.expire set) ret set') :
    Owes a start now set.extensions m (.add d ext flags alloc) (.ret ret) set'.table.records := by
  obtain ⟨hx, hsub, hlive⟩ := makeRoom_live start now hg.table alloc.expire
  generalize makeRoom (jiffiesAt A now) alloc.expire set = s at h hx hsub hlive
  have hkey := live_ne_none_iff hm d.toHashDomainElem
  have hms : m.Shows (LiveIn set.extensions start now s.table.records) :=
    hm.congr fun k d => (hlive k d).symm
  cases h with
  | refused e next he habsent =>
    refine ⟨m, ⟨?_, ?_⟩, hms⟩
    · constructor
      · rintro heq
        rcases he with rfl | rfl | rfl <;> cases heq
      · rintro ⟨hne, -⟩
        obtain ⟨dl, q, hq, hqe, -⟩ := (hms.ne_none_iff _).mp hne
        exact absurd hqe (habsent q hq)
    · simp
  | exist r hr helem hl hflag =>
    refine ⟨m, ⟨?_, ?_⟩, hms⟩
    · refine iff_of_true rfl ⟨hkey.mpr ⟨r, hsub r hr, helem, hx ▸ hl⟩, hflag⟩
    · simp
  | stored out kept r _ drift hold hnew helem htimeout hkept hout hlen hroom hchange =>
    have hlater : ∀ hxt : set.withTimeout = true, r.InRange set.extensions start now ∧
        r.deadline set.extensions start = requestedDeadline A now ext.timeout ∧
        ¬(requestedDeadline A now ext.timeout).passed now := fun hxt =>
      Record.inRange_of_set hclock.1 (hacc hxt) (htimeout (hx ▸ hxt)) hclock.2 hxt
    have hrin : r.InRange set.extensions start now := fun hxt => (hlater hxt).1 hxt
    have hreq : r.deadline set.extensions start = a.requested A now ext := by
      unfold KeySet.requested
      cases hxt : set.withTimeout
      · simp [ha, hxt, Record.deadline]
      · rw [ha, hxt, if_pos rfl, (hlater hxt).2.1]
    have hrl : r.isExpired set.extensions (jiffiesAt A now) = false := by
      rw [← Bool.not_eq_true, hrin.isExpired_iff hclock.2]
      cases hxt : set.withTimeout
      · rw [Record.deadline, if_neg (by rw [show set.extensions.timeout = false from hxt]; simp)]
        exact Deadline.top_not_passed now
      · rw [(hlater hxt).2.1]
        exact (hlater hxt).2.2
    refine ⟨m.insert d.toHashDomainElem (a.requested A now ext), ⟨?_, by simp⟩, ?_⟩
    · refine iff_of_false (by simp) ?_
      rintro ⟨hne, hflag⟩
      obtain ⟨dl, q, hq, hqe, hql, -⟩ := (hms.ne_none_iff _).mp hne
      rcases mem_append.mp (hold.mem_iff.mp hq) with hq | hq
      · rcases hout q hq with ho | ho
        · rw [hflag] at ho; cases ho.2
        · rw [hx, hql] at ho; cases ho
      · exact hkept q hq hqe
    · refine hms.insert.congr fun k dl => ?_
      rw [LiveIn.perm_iff hnew, LiveIn.stored_iff helem hrl hkept, hreq, LiveIn.perm_iff hold]
      exact fun q hq => (hout q hq).imp And.left (fun ho => hx ▸ ho)

theorem owes_del {d : DomainKey} {alloc : Bool}
    (hm : m.Shows (set.Live start now)) {ret : Ret}
    (h : DelResult jhash2 (jiffiesAt A now) alloc d.toHashDomainElem set ret set') :
    Owes a start now set.extensions m (.del d alloc) (.ret ret) set'.table.records := by
  have hkey := live_ne_none_iff hm d.toHashDomainElem
  refine ⟨m.erase d.toHashDomainElem, ?_⟩
  cases h with
  | missing hexp =>
    have hnot : ¬m d.toHashDomainElem ≠ none := by
      rw [hkey]
      rintro ⟨r, hr, he, hl⟩
      rw [hexp r hr he] at hl; cases hl
    refine ⟨⟨iff_of_false (by simp) hnot, .inr rfl, rfl⟩, hm.erase.congr fun k dl => ?_⟩
    refine ⟨And.right, fun hl => ⟨?_, hl⟩⟩
    rintro rfl
    exact hnot ((hm.ne_none_iff _).mpr ⟨dl, hl⟩)
  | removed r kept _ drift hold hnew helem hl hkept =>
    refine ⟨⟨iff_of_true rfl (hkey.mpr ⟨r, hold.mem_iff.mpr mem_cons_self, helem, hl⟩), .inl rfl,
      rfl⟩, hm.erase.congr fun k dl => ?_⟩
    rw [LiveIn.perm_iff hnew, LiveIn.removed_iff helem hkept, DomainSet.Live,
      LiveIn.perm_iff hold]

theorem owes_test {d : DomainKey} {ext mext mext' : DomainSetExt} {flags : CmdFlags} {b : Bool}
    (hm : m.Shows (set.Live start now))
    (h : TestResult jhash2 (jiffiesAt A now) d.toHashDomainElem ext mext flags set b set' mext') :
    Owes a start now set.extensions m (.test d ext mext flags) (.found b) set'.table.records := by
  have hkey := live_ne_none_iff hm d.toHashDomainElem
  -- without counter matching the extensions match when the record is not expired
  have hext : flags.matchCounters = false → ∀ r : Record A,
      extensionsMatch set.extensions (jiffiesAt A now) mext flags r =
        !r.isExpired set.extensions (jiffiesAt A now) := by
    intro hf r
    simp [extensionsMatch, hf, Record.isExpired]
  refine ⟨m, ?_⟩
  cases h with
  | missing hno =>
    refine ⟨⟨fun hf => iff_of_false (by simp) ?_, rfl⟩, hm⟩
    rw [hkey]
    rintro ⟨r, hr, he, hl⟩
    have := hno r hr he
    rw [hext hf, hl] at this
    cases this
  | found r r' kept _ _ hold hnew helem hkept hmatch =>
    obtain ⟨he, ht, -, -⟩ := domainSetMatchExtensions_frame hmatch
    refine ⟨⟨fun hf => iff_of_true rfl (hkey.mpr ⟨r, hold.mem_iff.mpr mem_cons_self, helem, ?_⟩),
      rfl⟩, hm.congr fun k dl => ?_⟩
    · have hs := domainSetMatchExtensions_isSome set.extensions (jiffiesAt A now) ext mext flags r
      rw [hmatch, hext hf] at hs
      simpa using hs.symm
    · rw [LiveIn.perm_iff hnew, LiveIn.exchanged_iff he ht, DomainSet.Live, LiveIn.perm_iff hold]

/-- Every call does to the live keys what it may. -/
theorem owes_applyOp (hg : set.Good jhash2)
    (hclock : start ≤ now ∧ now ≤ start + 2 ^ (A.longBits - 1)) (ha : a.timeouts = set.withTimeout)
    (hacc : op.Accepted set) (hen : op.Enabled set) (hm : m.Shows (set.Live start now))
    (h : applyOp jhash2 now set op = .ok (out, set')) :
    Owes a start now set.extensions m op out set'.table.records := by
  cases op with
  | add d ext flags alloc =>
    obtain ⟨ret, rfl, hres⟩ := applyOp_add hg h
    exact owes_add hg hclock ha hacc hm hres
  | del d alloc =>
    obtain ⟨rfl, rfl⟩ := Prod.mk.inj (Except.ok.inj h)
    exact owes_del hm (mtypeDel_result _ hg.table d.padded alloc)
  | test d ext mext flags =>
    obtain ⟨rfl, rfl⟩ := Prod.mk.inj (Except.ok.inj h)
    exact owes_test hm (mtypeTest_result _ hg.table d.padded ext mext flags)
  | expire alloc =>
    obtain ⟨rfl, rfl⟩ := Prod.mk.inj (Except.ok.inj h)
    have hx : set.extensions.timeout = true := hen
    rw [(mtypeExpire_good (jiffiesAt A now) alloc hg.table).2]
    exact ⟨m, rfl, hm.congr fun k d => (LiveIn.filter_fresh_iff hx).symm⟩
  | flush =>
    obtain ⟨rfl, rfl⟩ := Prod.mk.inj (Except.ok.inj h)
    rw [(mtypeFlush_change hg).2.1]
    exact ⟨.empty, rfl, DeadlineMap.shows_empty.congr fun k d => by simp [LiveIn]⟩
  | resize alloc =>
    obtain ⟨ret, old, rfl, hres⟩ := applyOp_resize hg h
    cases hres with
    | failed e ref he =>
      refine ⟨m, ⟨.inr ?_, rfl⟩, hm⟩
      rcases he with rfl | rfl
      · exact .inl rfl
      · exact .inr rfl
    | resized _ _ _ _ hrec =>
      exact ⟨m, ⟨.inl rfl, rfl⟩, hm.congr fun k d => (LiveIn.perm_iff hrec).symm⟩

/-- The hash with its clock is simulated by the deadline map. -/
theorem represents_simulation (jhash2 : HashDomainElem → BitVec 32 → BitVec 32) (start : ℕ) :
    System.Simulation (clockedSystem A jhash2 start) (keySetSystem A start)
      (Represents jhash2 start) where
  init := by
    rintro ⟨now, set⟩ ⟨rfl, hinit⟩
    have hc := init_created jhash2 hinit
    have hnil := hc.records
    refine ⟨⟨set.withTimeout, now, .empty⟩, ⟨rfl, rfl⟩, rfl, rfl, hc.good jhash2, hinit.1,
      ⟨le_rfl, Nat.le_add_right _ _⟩, ?_, ?_⟩
    · simp [hnil]
    · exact DeadlineMap.shows_empty.congr fun k d => by simp [DomainSet.Live, LiveIn, hnil]
  step := by
    rintro ⟨now, set⟩ c ⟨now', set'⟩ a hR ⟨hle, hclock, hnow', hacc, hen, hstep⟩
    obtain ⟨hnow, htime, hg, hf, hcl, hin, hlive⟩ := hR
    simp only at *
    subst hnow'
    have hin' : ∀ r ∈ set.table.records, r.InRange set.extensions start c.now :=
      fun r hr => (hin r hr).mono hle
    have hm : (a.live.remaining c.now).Shows (set.Live start c.now) :=
      hlive.remaining.congr fun k d => (LiveIn.later_iff hin hle hclock).symm
    have hrange := applyOp_inRange hg ⟨hcl.1.trans hle, hclock⟩ hacc hin' hstep
    obtain ⟨m', hmeets, hshows⟩ := owes_applyOp hg ⟨hcl.1.trans hle, hclock⟩ htime hacc hen hm hstep
    obtain ⟨drift, hch⟩ := applyOp_change hg hstep
    refine ⟨⟨a.timeouts, c.now, m'⟩, ⟨hnow ▸ hle, rfl, rfl, hmeets⟩, rfl, ?_, hg.change hch,
      hch.forceadd.trans hf, ⟨hcl.1.trans hle, hclock⟩, ?_, ?_⟩
    · rw [htime, DomainSet.withTimeout, DomainSet.withTimeout, hch.extensions]
    · rw [hch.extensions]; exact hrange
    · change m'.Shows (LiveIn set'.extensions start c.now set'.table.records)
      rw [hch.extensions]
      exact hshows

/-- Every run of the hash is, call for call and return value for return value, a
run of the deadline map, with timeouts if the set has them, whose entries are the
live keys of the current table; and every further call returns, unless a resize asks for a table of no size. -/
theorem run_refines {l : List Call} {s : ℕ × DomainSet A}
    (h : (clockedSystem A jhash2 start).Run l s) :
    (∃ a, (keySetSystem A start).Run l a ∧ a.now = s.1 ∧ a.timeouts = s.2.withTimeout ∧
      ∀ k d, a.live k = some d ↔
        ∃ r ∈ s.2.table.records, r.elem = k ∧
          r.isExpired s.2.extensions (jiffiesAt A s.1) = false ∧
          r.deadline s.2.extensions start = d) ∧
    ∀ now op, (∃ out set', applyOp jhash2 now s.2 op = .ok (out, set')) ∨
      (∃ alloc, op = .resize alloc ∧ ∃ b, s.2.table.htableBits < b ∧ htableSize A b = 0 ∧
        ∀ b', s.2.table.htableBits < b' → b' < b → ∃ k, ahashMaxSize < s.2.load jhash2 b' k) := by
  obtain ⟨a, hrun, hR⟩ := (represents_simulation jhash2 start).run h
  refine ⟨⟨a, hrun, hR.now, hR.timeouts, hR.live⟩, fun now op => ?_⟩
  exact (applyOp_returns hR.good hR.forceadd now op).imp id
    fun ⟨alloc, hop, _, hb⟩ => ⟨alloc, hop, hb⟩

def timedAttrs : CreateAttrs := { smallAttrs 3 0 with timeout := some ⟨10, true⟩ }

def timedSet : DomainSet x64 := emptySet x64 timedAttrs 3 6 0

theorem timedSet_init : (clockedSystem x64 firstByte 0).init (0, timedSet) :=
  ⟨rfl, rfl, true, timedAttrs, true, true, 0, rfl⟩

/-- The call `c` by the clock, if its timeout is one that callers let through. -/
def applyClocked (s : ℕ × DomainSet x64) (c : Call) : Option (ℕ × DomainSet x64) :=
  if s.1 ≤ c.now ∧ c.now ≤ 2 ^ 63 then
    (applyCall firstByte (fun set c => decide (c.op.Accepted set)) s.2 c).map fun set => (c.now, set)
  else none

theorem applyClocked_step {s s' : ℕ × DomainSet x64} {c : Call} (h : applyClocked s c = some s') :
    (clockedSystem x64 firstByte 0).step s c s' := by
  obtain ⟨hclock, hcall⟩ := Option.ite_none_right_eq_some.mp h
  obtain ⟨set, hset, rfl⟩ := Option.map_eq_some_iff.mp hcall
  obtain ⟨hstep, hacc⟩ := applyCall_step hset
  exact ⟨hclock.1, by simpa [x64] using hclock.2, rfl, of_decide_eq_true hacc, hstep⟩

theorem run_of_applyClocked {s0 : ℕ × DomainSet x64} (h : (clockedSystem x64 firstByte 0).init s0)
    {l : List Call} {Q : ℕ × DomainSet x64 → Bool}
    (htest : (l.foldlM applyClocked s0).any Q = true) :
    ∃ s, (clockedSystem x64 firstByte 0).Run l s ∧ Q s = true := by
  obtain ⟨s, hrun, hQ⟩ := (Option.any_eq_true _ _).mp htest
  exact ⟨s, System.Run.foldlM (l := []) (fun _ _ _ => applyClocked_step) (.start h) hrun, hQ⟩

/-- Keys with and without a timeout, one of them added again, deleted and read; a resize
without memory, and an expiry when the first one's time is over. -/
def timedCalls : List Call :=
  let add (now : ℕ) (d : DomainKey) (v : ℕ) (ret : Ret) : Call :=
    ⟨now, .add d { plainExt with timeout := v } plainFlags noFailure, .ret ret⟩
  [add 1 keyA 5 .ok, add 2 keyB 0 .ok, add 3 keyA 9 (.err .dsetErrExist),
    ⟨4, .resize ⟨fun _ => false, fun _ _ => true⟩, .ret (.err .enomem)⟩,
    ⟨5, .del keyB true, .ret .ok⟩, ⟨6, .test keyB plainExt plainExt plainFlags, .found false⟩,
    add 7 keyB 60 .ok, ⟨6000, .expire fun _ => true, .done⟩]

theorem run_refines_timed : ∃ s a, (clockedSystem x64 firstByte 0).Run timedCalls s ∧
    (keySetSystem x64 0).Run timedCalls a ∧ a.timeouts = true ∧
    a.live keyB.toHashDomainElem ≠ none ∧ a.live keyA.toHashDomainElem = none := by
  let held (s : ℕ × DomainSet x64) (d : DomainKey) (r : Record x64) : Bool :=
    r.elem = d.toHashDomainElem && !r.isExpired s.2.extensions (jiffiesAt x64 s.1)
  obtain ⟨s, hrun, hQ⟩ := run_of_applyClocked (l := timedCalls) (Q := fun s => s.2.withTimeout &&
    s.2.table.records.any (held s keyB) && !s.2.table.records.any (held s keyA)) timedSet_init
    (by decide +kernel)
  simp only [Bool.and_eq_true, any_eq_true, Bool.not_eq_true', any_eq_false, held,
    decide_eq_true_eq] at hQ
  obtain ⟨⟨htimeouts, r, hr, he, hl⟩, hno⟩ := hQ
  obtain ⟨⟨a, ha, -, hflag, hlive⟩, -⟩ := run_refines hrun
  refine ⟨s, a, hrun, ha, hflag.trans htimeouts, ?_, ?_⟩
  · rw [(hlive _ _).mpr ⟨r, hr, he, hl, rfl⟩]
    exact Option.some_ne_none _
  · refine Option.eq_none_iff_forall_ne_some.mpr fun d hd => ?_
    obtain ⟨r, hr, he, hl, -⟩ := (hlive _ _).mp hd
    exact hno r hr ⟨he, hl⟩

end

end Dset.Hash
