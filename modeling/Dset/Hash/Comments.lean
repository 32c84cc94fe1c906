import Dset.Hash.ListRun

/-! Several dumps of a set at a time, and the comments that they follow. The table that a resizing
replaces keeps its pointers to the comments, which the set may free while a dump still has buckets
of that table to list. -/

namespace Dset.Hash

open Dset.Lib List

variable {A : Arch}

/-! ### The comments of a table -/

/-- The comment that is followed when the record is listed at tick `now`. -/
def Record.comment? (x : Extensions) (now : ℕ) (r : Record A) : Option ℕ :=
  if x.comment && !r.isExpired x (jiffiesAt A now) then r.comment.map (·.addr) else none

/-- The comments that `mtype_list` follows in bucket `i` at tick `now`, if all of it fits. -/
def Htable.comments (x : Extensions) (now : ℕ) (t : Htable A) (i : ℕ) : List ℕ :=
  match t.hbucket i with
  | none => []
  | some n => (slotRecords (n.value.take n.pos)).filterMap (Record.comment? x now)

section
variable {x : Extensions} {start now now' i a : ℕ} {t : Htable A}

theorem Htable.mem_comments : a ∈ t.comments x now i ↔ ∃ n r, t.hbucket i = some n ∧
    r ∈ slotRecords (n.value.take n.pos) ∧ r.comment? x now = some a := by
  unfold comments
  cases t.hbucket i with
  | none => simp
  | some n => simp

theorem Htable.lt_of_mem_comments (h : a ∈ t.comments x now i) : i < t.bucket.length := by
  obtain ⟨n, -, hn, -⟩ := mem_comments.mp h
  by_contra hge
  rw [hbucket, getD_eq_getElem?_getD, getElem?_eq_none (not_lt.mp hge)] at hn
  cases hn

theorem Htable.mem_records_of_listed {n : Hbucket A} {r : Record A} (hn : t.hbucket i = some n)
    (hr : r ∈ slotRecords (n.value.take n.pos)) : r ∈ t.records := by
  refine mem_records_of_bucket (i := i) ?_
  rw [hn, bucketRecords, Hbucket.records, ← take_append_drop n.pos n.value, slotRecords_append]
  exact mem_append_left _ hr

theorem Record.InRange.expired_mono {r : Record A} (h : r.InRange x start now) (hle : now ≤ now')
    (hclock : now' ≤ start + 2 ^ (A.longBits - 1))
    (hexp : r.isExpired x (jiffiesAt A now) = true) : r.isExpired x (jiffiesAt A now') = true := by
  rw [h.isExpired_iff (hle.trans hclock)] at hexp
  rw [(h.mono hle).isExpired_iff hclock]
  exact hexp.mono hle

/-- What is followed later is followed now. -/
theorem Htable.comments_mono (hr : ∀ r ∈ t.records, r.InRange x start now) (hle : now ≤ now')
    (hclock : now' ≤ start + 2 ^ (A.longBits - 1)) (h : a ∈ t.comments x now' i) :
    a ∈ t.comments x now i := by
  obtain ⟨n, r, hn, hmem, hcomment⟩ := mem_comments.mp h
  refine mem_comments.mpr ⟨n, r, hn, hmem, ?_⟩
  obtain ⟨hcond, hcomment⟩ := Option.ite_none_right_eq_some.mp hcomment
  rw [Bool.and_eq_true, Bool.not_eq_true'] at hcond
  have hlive : r.isExpired x (jiffiesAt A now) = false := by
    rw [← Bool.not_eq_true]
    intro hexp
    have hlater := (hr r (mem_records_of_listed hn hmem)).expired_mono hle hclock hexp
    rw [hcond.2] at hlater
    cases hlater
  rw [Record.comment?, hcond.1, hlive]
  exact hcomment

/-- No comment of a record of the set is freed. -/
theorem DomainSet.Good.comments_kept {jhash2 : HashDomainElem → BitVec 32 → BitVec 32}
    {set : DomainSet A} (hg : set.Good jhash2) (ht : t.records ⊆ set.table.records)
    (h : a ∈ t.comments set.extensions now i) : a ∉ set.acct.freed := by
  obtain ⟨n, r, hn, hmem, hcomment⟩ := Htable.mem_comments.mp h
  obtain ⟨hcond, hcomment⟩ := Option.ite_none_right_eq_some.mp hcomment
  rw [Bool.and_eq_true] at hcond
  obtain ⟨c, hc, rfl⟩ := Option.map_eq_some_iff.mp hcomment
  have haddr : c.addr ∈ set.commentAddrs := by
    refine mem_flatMap.mpr ⟨r, ht (Htable.mem_records_of_listed hn hmem), ?_⟩
    rw [if_pos hcond.1, hc]
    exact mem_singleton_self _
  have hnodup := hg.addrs.nodup_iff.mpr nodup_range
  exact disjoint_of_nodup_append hnodup haddr

end

/-! ### What a listing follows -/

/-- What `domain_set_put_extensions` puts in front of the comment. -/
def putBefore (x : Extensions) (jiffies : BitVec A.longBits) (r : Record A) : List Core.Attr :=
  .domain r.elem.domain ::
    ((if x.timeout then [.timeout (domainSetTimeoutGet jiffies r.timeout)] else []) ++
      if x.counter then [.bytes r.counter.bytes, .packets r.counter.packets] else [])

/-- The comments that `domain_set_put_comment` follows in the slots of a bucket. -/
def listComments (x : Extensions) (now : ℕ) : Core.Skb → List (Slot A) → List ℕ
  | _, [] => []
  | skb, s :: l =>
    if !s.used then listComments x now skb l
    else if s.data.isExpired x (jiffiesAt A now) then listComments x now skb l
    else match skb.put .data with
      | none => []
      | some skb =>
        let (fits, skb') := skb.putAll
          (.domain s.data.elem.domain :: domainSetPutExtensions x (jiffiesAt A now) s.data)
        (if (skb.putAll (putBefore x (jiffiesAt A now) s.data)).1 then
          (s.data.comment? x now).toList else []) ++
        if fits then listComments x now skb'.nestEnd l else []

/-- The comments that the next iteration of the loop of `mtype_list` follows. -/
def Lister.follows (s : Lister A) (now : ℕ) : List ℕ :=
  match s.phase with
  | .listing _ i _ skb =>
    if i < jhashSize s.table.htableBits then
      (s.table.hbucket i).elim [] fun n =>
        listComments s.set.extensions now skb (n.value.take n.pos)
    else []
  | _ => []

section
variable {x : Extensions} {start now a : ℕ}

theorem mem_listComments {skb : Core.Skb} {l : List (Slot A)} (h : a ∈ listComments x now skb l) :
    ∃ r ∈ slotRecords l, r.comment? x now = some a := by
  induction l generalizing skb with
  | nil => cases h
  | cons s l ih =>
    have hrest : ∀ {skb}, a ∈ listComments x now skb l →
        ∃ r ∈ slotRecords (s :: l), r.comment? x now = some a := by
      intro skb h
      obtain ⟨r, hr, ha⟩ := ih h
      exact ⟨r, mem_append_right _ hr, ha⟩
    rw [listComments] at h
    split at h
    · exact hrest h
    · rename_i hused
      split at h
      · exact hrest h
      · split at h
        · cases h
        · rename_i skb1 _
          generalize skb1.putAll (.domain s.data.elem.domain :: domainSetPutExtensions _ _ _) = q
            at h
          rcases mem_append.mp h with h | h
          · split at h
            · refine ⟨s.data, ?_, Option.mem_toList.mp h⟩
              rw [slotRecords_cons_used l (by simpa using hused)]
              exact mem_cons_self
            · cases h
          · split at h
            · exact hrest h
            · cases h

theorem put_comment (x : Extensions) (jiffies : BitVec A.longBits) (r : Record A) :
    ∃ rest, .domain r.elem.domain :: domainSetPutExtensions x jiffies r =
      putBefore x jiffies r ++ rest :=
  ⟨_, congrArg (Core.Attr.domain r.elem.domain :: ·) (append_assoc _ _ _)⟩

/-- In a bucket that fits every comment is followed. -/
theorem mem_listComments_of_fits {skb : Core.Skb} {l : List (Slot A)} (h : 4 ∣ skb.len)
    (hfits : ((slotRecords l).filter fun r => !r.isExpired x (jiffiesAt A now)).foldl
      (elementEnd skb.pad64 x) skb.len ≤ skb.cap) {r : Record A} (hr : r ∈ slotRecords l)
    (ha : r.comment? x now = some a) : a ∈ listComments x now skb l := by
  induction l generalizing skb with
  | nil => cases hr
  | cons s l ih =>
    rw [listComments]
    cases hu : s.used
    · rw [slotRecords_cons_unused l hu] at hfits hr
      exact ih h hfits hr
    rw [slotRecords_cons_used l hu] at hfits hr
    cases hx : s.data.isExpired x (jiffiesAt A now)
    · rw [filter_cons_of_pos (by simp [hx])] at hfits
      have hnext : 4 ∣ elementEnd skb.pad64 x skb.len s.data := four_dvd_elementEnd x h s.data
      have hone := (le_foldl_elementEnd x hnext _).trans hfits
      obtain ⟨skb1, skb2, hput, hall, hskb⟩ := (put_element x (jiffiesAt A now) h s.data).1 hone
      have hbefore : (skb1.putAll (putBefore x (jiffiesAt A now) s.data)).1 = true := by
        obtain ⟨rest, hrest⟩ := put_comment x (jiffiesAt A now) s.data
        apply Core.Skb.putAll_prefix
        rw [← hrest, hall]
      simp only [hput, hall, hskb, hbefore, Bool.not_true, Bool.false_eq_true, if_false, if_true]
      rcases mem_cons.mp hr with rfl | hr
      · exact mem_append_left _ (Option.mem_toList.mpr ha)
      · exact mem_append_right _ (ih hnext hfits hr)
    · rw [filter_cons_of_neg (by simp [hx])] at hfits
      rcases mem_cons.mp hr with rfl | hr
      · rw [Record.comment?, hx, Bool.not_true, Bool.and_false] at ha
        cases ha
      · exact ih h hfits hr

theorem Lister.mem_follows {s : Lister A} (h : a ∈ s.follows now) :
    ∃ first i atd skb, s.phase = .listing first i atd skb ∧
      a ∈ s.table.comments s.set.extensions now i := by
  unfold follows at h
  split at h
  · rename_i first i atd skb hphase
    split at h
    · cases hn : s.table.hbucket i with
      | none =>
        rw [hn] at h
        cases h
      | some n =>
        rw [hn] at h
        obtain ⟨r, hr, ha⟩ := mem_listComments h
        exact ⟨first, i, atd, skb, hphase, Htable.mem_comments.mpr ⟨n, r, hn, hr, ha⟩⟩
    · cases h
  · cases h

end

/-! ### Dumps of a set -/

/-- The first bucket that a later call of `mtype_list` may list: the first one of a message is
listed with it, or it is an error. -/
def ListPhase.later? : ListPhase → Option ℕ
  | .paused arg0 => some arg0
  | .listing first i _ _ => some (if i = first then i + 1 else i)
  | .ended _ => none

/-- A dump of the set: its listing, and the comments that were freed when its last call of
`mtype_list` began. -/
structure Dumping (A : Arch) where
  kept : Option (Htable A)
  phase : ListPhase
  sent : List (List Core.Attr)
  freed : List ℕ

/-- The comments that later calls of `mtype_list` find in a table that a resizing has replaced. -/
def Dumping.pending (x : Extensions) (now : ℕ) (p : Dumping A) : List ℕ :=
  match p.kept, p.phase.later? with
  | some t, some i => (range' i (t.bucket.length - i)).flatMap (t.comments x now)
  | _, _ => []

/-- A set with its clock and its dumps. -/
structure Dumps (A : Arch) where
  now : ℕ
  set : DomainSet A
  sessions : List (Dumping A)

def Lister.dumping (s : Lister A) (freed : List ℕ) : Dumping A := ⟨s.kept, s.phase, s.sent, freed⟩

namespace Dumps

variable (s : Dumps A)

def lister (p : Dumping A) : Lister A := ⟨s.now, s.set, p.kept, p.phase, p.sent⟩

def called (c : Call) (set : DomainSet A) : Dumps A :=
  ⟨c.now, set, s.sessions.map fun p => ((s.lister p).called c set).dumping p.freed⟩

def put (k : ℕ) (l : Lister A) (freed : List ℕ) : Dumps A :=
  ⟨l.now, l.set, s.sessions.set k (l.dumping freed)⟩

end Dumps

/-- A step: a call on the set, a dump that pins its table, a call of `mtype_list` for dump `k` and
its next bucket, or the end of dump `k`. -/
inductive DumpsMove where
  | call (c : Call)
  | uref
  | list (k : ℕ) (skb : Core.Skb)
  | bucket (k now : ℕ)
  | release (k : ℕ)

/-- A set from its creation on, with any number of dumps. -/
def dumpsSystem (A : Arch) (jhash2 : HashDomainElem → BitVec 32 → BitVec 32) (start : ℕ)
    (forceadd : Bool) : System (Dumps A) DumpsMove where
  init s := s.now = start ∧ (setSystem A jhash2 forceadd).init s.set ∧ s.sessions = []
  step s m s' := match m with
    | .call c => s.now ≤ c.now ∧ c.now ≤ start + 2 ^ (A.longBits - 1) ∧ c.op.Accepted s.set ∧
        ∃ set, (setSystem A jhash2 forceadd).step s.set c set ∧ s' = s.called c set
    | .uref => s' =
        { s with sessions := s.sessions ++ [⟨none, .paused 0, [], s.set.acct.freed⟩] }
    | .list k skb => ∃ p l, s.sessions[k]? = some p ∧ (s.lister p).message skb = some l ∧
        s' = s.put k l s.set.acct.freed
    | .bucket k now => s.now ≤ now ∧ now ≤ start + 2 ^ (A.longBits - 1) ∧
        ∃ p l, s.sessions[k]? = some p ∧ (s.lister p).bucket now = some l ∧
          s' = s.put k l p.freed
    | .release k => s' = { s with sessions := s.sessions.eraseIdx k }

/-- The comments that the call frees. -/
def DomainSet.frees (jhash2 : HashDomainElem → BitVec 32 → BitVec 32) (set : DomainSet A)
    (c : Call) : List ℕ :=
  match applyOp jhash2 c.now set c.op with
  | .ok (_, set') => set'.acct.freed.filter (· ∉ set.acct.freed)
  | .error _ => []

/-- No call frees a comment that a dump has still to follow in a table that a resizing has
replaced. -/
def Dumps.Spares (jhash2 : HashDomainElem → BitVec 32 → BitVec 32) (s : Dumps A) :
    DumpsMove → Prop
  | .call c => ∀ p ∈ s.sessions, ∀ a ∈ p.pending s.set.extensions c.now,
      a ∉ s.set.frees jhash2 c
  | .uref | .list .. | .bucket .. | .release _ => True

/-! ### One step -/

section
variable {jhash2 : HashDomainElem → BitVec 32 → BitVec 32} {x : Extensions} {start now now' a : ℕ}
  {dead : List ℕ} {p p' : Dumping A} {s s' : Dumps A} {forceadd : Bool}

theorem Dumping.mem_pending : a ∈ p.pending x now ↔ ∃ t i j, p.kept = some t ∧
    p.phase.later? = some i ∧ i ≤ j ∧ a ∈ t.comments x now j := by
  unfold pending
  constructor
  · intro h
    split at h
    · rename_i t i hkept hlater
      obtain ⟨j, hj, ha⟩ := mem_flatMap.mp h
      exact ⟨t, i, j, hkept, hlater, (mem_range'_1.mp hj).1, ha⟩
    · cases h
  · rintro ⟨t, i, j, hkept, hlater, hij, ha⟩
    rw [hkept, hlater]
    have hj := Htable.lt_of_mem_comments ha
    exact mem_flatMap.mpr ⟨j, mem_range'_1.mpr ⟨hij, by omega⟩, ha⟩

theorem Dumps.table_kept (s : Dumps A) {t : Htable A} (h : p.kept = some t) :
    (s.lister p).table = t := by
  show p.kept.getD s.set.table = t
  rw [h]
  rfl

theorem Dumps.table_current (s : Dumps A) (h : p.kept = none) :
    (s.lister p).table = s.set.table := by
  show p.kept.getD s.set.table = s.set.table
  rw [h]
  rfl

/-- What a dump may rely on: a table that the set no longer has holds no freed comment where it
will look. -/
structure Dumping.Sound (x : Extensions) (start now : ℕ) (dead : List ℕ) (p : Dumping A) :
    Prop where
  freed : p.freed ⊆ dead
  length : ∀ t, p.kept = some t → t.bucket.length = jhashSize t.htableBits
  inRange : ∀ t, p.kept = some t → ∀ r ∈ t.records, r.InRange x start now
  pending : ∀ a ∈ p.pending x now, a ∉ dead
  current : ∀ t first i atd skb, p.kept = some t → p.phase = .listing first i atd skb →
    ∀ a ∈ t.comments x now i, a ∉ p.freed

structure Dumps.Sound (jhash2 : HashDomainElem → BitVec 32 → BitVec 32) (start : ℕ)
    (s : Dumps A) : Prop where
  good : s.set.Good jhash2
  clock : start ≤ s.now ∧ s.now ≤ start + 2 ^ (A.longBits - 1)
  inRange : ∀ r ∈ s.set.table.records, r.InRange s.set.extensions start s.now
  sessions : ∀ p ∈ s.sessions, p.Sound s.set.extensions start s.now s.set.acct.freed

namespace Dumping

theorem pending_mono (hr : ∀ t, p.kept = some t → ∀ r ∈ t.records, r.InRange x start now)
    (hle : now ≤ now') (hclock : now' ≤ start + 2 ^ (A.longBits - 1))
    (h : a ∈ p.pending x now') : a ∈ p.pending x now := by
  obtain ⟨t, i, j, hkept, hlater, hij, ha⟩ := mem_pending.mp h
  exact mem_pending.mpr
    ⟨t, i, j, hkept, hlater, hij, Htable.comments_mono (hr t hkept) hle hclock ha⟩

/-- Time passes. -/
theorem Sound.tick (h : p.Sound x start now dead) (hle : now ≤ now')
    (hclock : now' ≤ start + 2 ^ (A.longBits - 1)) : p.Sound x start now' dead where
  freed := h.freed
  length := h.length
  inRange t hkept r hr := (h.inRange t hkept r hr).mono hle
  pending a ha := h.pending a (pending_mono h.inRange hle hclock ha)
  current t first i atd skb hkept hphase a ha :=
    h.current t first i atd skb hkept hphase a
      (Htable.comments_mono (h.inRange t hkept) hle hclock ha)

/-- A listing goes on in the table that it has. -/
theorem Sound.moves (h : p.Sound x start now dead) (hkept : p'.kept = p.kept)
    (hfreed : p'.freed ⊆ dead)
    (hlater : ∀ i', p'.phase.later? = some i' → ∃ i, p.phase.later? = some i ∧ i ≤ i')
    (hcurrent : ∀ t first i atd skb, p'.kept = some t → p'.phase = .listing first i atd skb →
      ∀ a ∈ t.comments x now i, a ∉ p'.freed) : p'.Sound x start now dead where
  freed := hfreed
  length t ht := h.length t (hkept ▸ ht)
  inRange t ht := h.inRange t (hkept ▸ ht)
  pending a ha := by
    obtain ⟨t, i', j, ht, hi', hij, ha⟩ := mem_pending.mp ha
    obtain ⟨i, hi, hle⟩ := hlater i' hi'
    exact h.pending a (mem_pending.mpr ⟨t, i, j, hkept ▸ ht, hi, hle.trans hij, ha⟩)
  current := hcurrent

end Dumping

theorem Lister.phase_of_message {s s' : Lister A} {skb : Core.Skb} (h : s.message skb = some s') :
    ∃ arg0, s.phase = .paused arg0 ∧ ((∃ ret, s'.phase = .ended ret) ∨
      ∃ body, s'.phase = .listing arg0 arg0 skb body) := by
  unfold message at h
  split at h
  · rename_i arg0 hphase
    refine ⟨arg0, hphase, ?_⟩
    split at h
    · obtain rfl := Option.some.inj h
      exact .inl ⟨_, rfl⟩
    · obtain rfl := Option.some.inj h
      exact .inr ⟨_, rfl⟩
  · cases h

theorem Lister.phase_of_bucket {s s' : Lister A} (h : s.bucket now = some s') :
    ∃ first i atd skb, s.phase = .listing first i atd skb ∧ ((∃ ret, s'.phase = .ended ret) ∨
      (i ≠ first ∧ s'.phase = .paused i) ∨ ∃ skb', s'.phase = .listing first (i + 1) atd skb') := by
  unfold bucket at h
  split at h
  · rename_i first i atd skb hphase
    refine ⟨first, i, atd, skb, hphase, ?_⟩
    split at h
    · split at h
      · obtain rfl := Option.some.inj h
        exact .inr (.inr ⟨_, rfl⟩)
      · split at h
        · obtain rfl := Option.some.inj h
          exact .inr (.inr ⟨_, rfl⟩)
        · obtain rfl := Option.some.inj h
          unfold full
          split
          · exact .inl ⟨_, rfl⟩
          · rename_i hne
            exact .inr (.inl ⟨hne, rfl⟩)
    · obtain rfl := Option.some.inj h
      exact .inl ⟨_, rfl⟩
  · cases h

namespace Dumping

theorem Sound.message (h : p.Sound x start now dead) {l l' : Lister A} {skb : Core.Skb}
    (hl : l.dumping p.freed = p) (hstep : l.message skb = some l') :
    (l'.dumping dead).Sound x start now dead := by
  obtain ⟨arg0, hphase, hnext⟩ := Lister.phase_of_message hstep
  have hp : p.phase = .paused arg0 := by
    rw [← hl]
    exact hphase
  have hkept : (l'.dumping dead).kept = p.kept := by
    rw [← hl]
    exact (Lister.kept_of_message hstep).2.1
  have hlater : p.phase.later? = some arg0 := by rw [hp]; rfl
  refine h.moves hkept (Subset.refl _) ?_ ?_
  · intro i' hi'
    refine ⟨arg0, hlater, ?_⟩
    rcases hnext with ⟨ret, hret⟩ | ⟨body, hbody⟩
    · rw [show (l'.dumping dead).phase = _ from hret] at hi'
      cases hi'
    · rw [show (l'.dumping dead).phase = _ from hbody, ListPhase.later?, if_pos rfl] at hi'
      obtain rfl := Option.some.inj hi'
      exact Nat.le_succ arg0
  · intro t first i atd skb' ht hlist a ha
    rcases hnext with ⟨ret, hret⟩ | ⟨body, hbody⟩
    · cases hret.symm.trans hlist
    · cases hbody.symm.trans hlist
      exact h.pending a (mem_pending.mpr ⟨t, _, _, hkept ▸ ht, hlater, le_rfl, ha⟩)

theorem Sound.bucket (h : p.Sound x start now dead) {l l' : Lister A}
    (hl : l.dumping p.freed = p) (hstep : l.bucket now' = some l') :
    (l'.dumping p.freed).Sound x start now dead := by
  obtain ⟨first, i, atd, skb, hphase, hnext⟩ := Lister.phase_of_bucket hstep
  have hp : p.phase = .listing first i atd skb := by
    rw [← hl]
    exact hphase
  have hkept : (l'.dumping p.freed).kept = p.kept := by
    conv_rhs => rw [← hl]
    exact (Lister.kept_of_bucket hstep).2.1
  have hlater : p.phase.later? = some (if i = first then i + 1 else i) := by rw [hp]; rfl
  refine h.moves hkept h.freed ?_ ?_
  · intro i' hi'
    refine ⟨_, hlater, ?_⟩
    rcases hnext with ⟨ret, hret⟩ | ⟨hne, hpaused⟩ | ⟨skb', hlist⟩
    · rw [show (l'.dumping p.freed).phase = _ from hret] at hi'
      cases hi'
    · rw [show (l'.dumping p.freed).phase = _ from hpaused] at hi'
      obtain rfl := Option.some.inj hi'
      rw [if_neg hne]
    · rw [show (l'.dumping p.freed).phase = _ from hlist] at hi'
      obtain rfl := Option.some.inj hi'
      split <;> split <;> omega
  · intro t first' i' atd' skb' ht hlist a ha hdead
    rcases hnext with ⟨ret, hret⟩ | ⟨hne, hpaused⟩ | ⟨skb'', hlist'⟩
    · cases hret.symm.trans hlist
    · cases hpaused.symm.trans hlist
    · cases hlist'.symm.trans hlist
      refine h.pending a (mem_pending.mpr ⟨t, _, _, hkept ▸ ht, hlater, ?_, ha⟩) (h.freed hdead)
      split <;> omega

end Dumping

theorem records_of_resized {c : Call} {set set' : DomainSet A} (hg : set.Good jhash2)
    (happly : applyOp jhash2 c.now set c.op = .ok (c.out, set')) (hres : c.resized = true) :
    set'.table.records ~ set.table.records := by
  obtain ⟨t, op, out⟩ := c
  unfold Call.resized at hres
  split at hres
  · rename_i alloc hop hout
    dsimp only at hop hout happly
    subst hop hout
    obtain ⟨ret, old, hret, hresult⟩ := applyOp_resize hg happly
    obtain rfl := Outcome.ret.inj hret
    cases hresult with
    | resized _ _ _ _ hrec => exact hrec
  · cases hres

/-- A call that frees no comment that the dump has still to follow. -/
theorem Dumping.Sound.called (hs : s.Sound jhash2 start) (h : p ∈ s.sessions) {c : Call}
    {set' : DomainSet A} (hle : s.now ≤ c.now) (hclock : c.now ≤ start + 2 ^ (A.longBits - 1))
    (happly : applyOp jhash2 c.now s.set c.op = .ok (c.out, set'))
    (hspares : ∀ a ∈ p.pending s.set.extensions c.now, a ∉ s.set.frees jhash2 c) :
    (((s.lister p).called c set').dumping p.freed).Sound s.set.extensions start c.now
      set'.acct.freed := by
  have hp := (hs.sessions p h).tick hle hclock
  obtain ⟨drift, hch⟩ := applyOp_change hs.good happly
  have hfreed : s.set.acct.freed ⊆ set'.acct.freed := hch.settles.freed
  cases hkept : p.kept with
  | some t =>
    have hkept' : (((s.lister p).called c set').dumping p.freed).kept = p.kept := by
      show (if c.resized then some (s.lister p).table else p.kept) = p.kept
      rw [s.table_kept hkept, hkept]
      exact ite_self _
    refine ⟨Subset.trans hp.freed hfreed, fun t ht => hp.length t (hkept' ▸ ht),
      fun t ht => hp.inRange t (hkept' ▸ ht), ?_, ?_⟩
    · intro a ha hdead
      obtain ⟨t, i, j, ht, hlater, hij, ha⟩ := mem_pending.mp ha
      have hpending : a ∈ p.pending s.set.extensions c.now :=
        mem_pending.mpr ⟨t, i, j, hkept' ▸ ht, hlater, hij, ha⟩
      apply hspares a hpending
      rw [DomainSet.frees, happly]
      exact mem_filter.mpr ⟨hdead, decide_eq_true (hp.pending a hpending)⟩
    · intro t first i atd skb ht hphase
      exact hp.current t first i atd skb (hkept' ▸ ht) hphase
  | none =>
    -- the table that is kept from now on is that of the set, which is copied with its comments
    have hresized {t : Htable A}
        (ht : (((s.lister p).called c set').dumping p.freed).kept = some t) :
        t = s.set.table ∧ ∀ i, ∀ a ∈ t.comments s.set.extensions c.now i, a ∉ set'.acct.freed := by
      change (if c.resized then some (s.lister p).table else p.kept) = some t at ht
      split at ht
      · rename_i hres
        rw [s.table_current hkept] at ht
        obtain rfl := Option.some.inj ht
        have hperm := records_of_resized hs.good happly hres
        refine ⟨rfl, fun i a ha => ?_⟩
        rw [← hch.extensions] at ha
        exact (hs.good.change hch).comments_kept hperm.symm.subset ha
      · rw [hkept] at ht
        cases ht
    refine ⟨Subset.trans hp.freed hfreed, ?_, ?_, ?_, ?_⟩
    · intro t ht
      obtain rfl := (hresized ht).1
      exact hs.good.table.length
    · intro t ht r hr
      obtain rfl := (hresized ht).1
      exact (hs.inRange r hr).mono hle
    · intro a ha
      obtain ⟨t, i, j, ht, -, -, ha⟩ := mem_pending.mp ha
      exact (hresized ht).2 j a ha
    · intro t first i atd skb ht hphase a ha hdead
      exact (hresized ht).2 i a ha (hfreed (hp.freed hdead))

theorem Dumps.Sound.put (hs : s.Sound jhash2 start) {k : ℕ} {l : Lister A} {dead : List ℕ}
    (hset : l.set = s.set) (hle : s.now ≤ l.now) (hclock : l.now ≤ start + 2 ^ (A.longBits - 1))
    (hl : (l.dumping dead).Sound s.set.extensions start l.now s.set.acct.freed) :
    (s.put k l dead).Sound jhash2 start := by
  obtain ⟨now, set, kept, phase, sent⟩ := l
  obtain rfl : set = s.set := hset
  refine ⟨hs.good, ⟨hs.clock.1.trans hle, hclock⟩, fun r hr => (hs.inRange r hr).mono hle, ?_⟩
  intro p hp
  rcases mem_or_eq_of_mem_set hp with hp | rfl
  · exact (hs.sessions p hp).tick hle hclock
  · exact hl

theorem Dumps.Sound.step (hs : s.Sound jhash2 start) {m : DumpsMove}
    (hstep : (dumpsSystem A jhash2 start forceadd).step s m s') (hspares : s.Spares jhash2 m) :
    s'.Sound jhash2 start := by
  cases m with
  | call c =>
    obtain ⟨hle, hclock, hacc, set', ⟨-, happly⟩, rfl⟩ := hstep
    obtain ⟨drift, hch⟩ := applyOp_change hs.good happly
    have hx : set'.extensions = s.set.extensions := hch.extensions
    refine ⟨hs.good.change hch, ⟨hs.clock.1.trans hle, hclock⟩, ?_, ?_⟩
    · show ∀ r ∈ set'.table.records, r.InRange set'.extensions start c.now
      rw [hx]
      exact applyOp_inRange hs.good ⟨hs.clock.1.trans hle, hclock⟩ hacc
        (fun r hr => (hs.inRange r hr).mono hle) happly
    · intro p' hp'
      obtain ⟨p, hp, rfl⟩ := mem_map.mp hp'
      show Dumping.Sound set'.extensions start c.now set'.acct.freed _
      rw [hx]
      exact .called hs hp hle hclock happly (hspares p hp)
  | uref =>
    obtain rfl := hstep
    refine ⟨hs.good, hs.clock, hs.inRange, ?_⟩
    intro p hp
    rcases mem_append.mp hp with hp | hp
    · exact hs.sessions p hp
    · obtain rfl := mem_singleton.mp hp
      exact ⟨Subset.refl _, nofun, nofun, nofun, nofun⟩
  | list k skb =>
    obtain ⟨p, l, hk, hl, rfl⟩ := hstep
    obtain ⟨hset, -, hnow⟩ := Lister.kept_of_message hl
    have hp := hs.sessions p (mem_of_getElem? hk)
    refine hs.put hset hnow.ge (hnow ▸ hs.clock.2) ?_
    rw [hnow]
    exact hp.message rfl hl
  | bucket k now =>
    obtain ⟨hle, hclock, p, l, hk, hl, rfl⟩ := hstep
    obtain ⟨hset, -, hnow⟩ := Lister.kept_of_bucket hl
    subst hnow
    have hp := (hs.sessions p (mem_of_getElem? hk)).tick hle hclock
    exact hs.put hset hle hclock (hp.bucket rfl hl)
  | release k =>
    obtain rfl := hstep
    exact ⟨hs.good, hs.clock, hs.inRange, fun p hp => hs.sessions p (mem_of_mem_eraseIdx hp)⟩

/-- What a dump follows next was not freed when its last call of `mtype_list` began. -/
theorem Dumps.Sound.follows (hs : s.Sound jhash2 start) (hp : p ∈ s.sessions) (hle : s.now ≤ now)
    (hclock : now ≤ start + 2 ^ (A.longBits - 1)) (ha : a ∈ (s.lister p).follows now) :
    a ∉ p.freed := by
  obtain ⟨first, i, atd, skb, hphase, ha⟩ := Lister.mem_follows ha
  have hsound := (hs.sessions p hp).tick hle hclock
  cases hkept : p.kept with
  | none =>
    rw [s.table_current hkept] at ha
    exact fun hfreed => hs.good.comments_kept (Subset.refl _) ha (hsound.freed hfreed)
  | some t =>
    rw [s.table_kept hkept] at ha
    exact hsound.current t first i atd skb hkept hphase a ha

theorem dumps_sound {l : List DumpsMove}
    (h : ((dumpsSystem A jhash2 start forceadd).guard (Dumps.Spares jhash2)).Run l s) :
    s.Sound jhash2 start := by
  refine h.invariant ?_ fun s m s' hs hstep => hs.step hstep.2 hstep.1
  rintro s ⟨hnow, hinit, hsessions⟩
  have hnil := (init_created jhash2 hinit).records
  refine ⟨(init_created jhash2 hinit).good jhash2, ⟨hnow.ge, hnow ▸ Nat.le_add_right _ _⟩, ?_, ?_⟩
  · intro r hr
    rw [hnil] at hr
    cases hr
  · intro p hp
    rw [hsessions] at hp
    cases hp

end

/-! ### A dump that goes on -/

/-- The records that are listed of `n` buckets from bucket `i` on. -/
def Htable.listedFrom (x : Extensions) (now : ℕ) (t : Htable A) (i n : ℕ) : List (Record A) :=
  (range' i n).flatMap fun i => listedRecords x (jiffiesAt A now) (t.hbucket i)

section
variable {x : Extensions} {start now i n cap a : ℕ} {t : Htable A}

theorem Htable.listedFrom_succ (x : Extensions) (now : ℕ) (t : Htable A) (i n : ℕ) :
    t.listedFrom x now i (n + 1) =
      t.listedFrom x now i n ++ listedRecords x (jiffiesAt A now) (t.hbucket (i + n)) := by
  simp [listedFrom, range'_concat]

theorem four_dvd_foldl_elementEnd {pad64 : Bool} (x : Extensions) {tail : ℕ} (h : 4 ∣ tail)
    (rs : List (Record A)) : 4 ∣ rs.foldl (elementEnd pad64 x) tail := by
  induction rs generalizing tail with
  | nil => exact h
  | cons r rs ih => exact ih (four_dvd_elementEnd x h r)

variable (now) in
/-- A bucket that fits is passed. -/
theorem Lister.bucket_fits {s : Lister A} {first : ℕ} {atd skb : Core.Skb}
    (hphase : s.phase = .listing first i atd skb) (hi : i < jhashSize s.table.htableBits)
    (h : 4 ∣ skb.len) (hfits : (listedRecords s.set.extensions (jiffiesAt A now)
      (s.table.hbucket i)).foldl (elementEnd skb.pad64 s.set.extensions) skb.len ≤ skb.cap) :
    ∃ attrs, s.bucket now = some { s with
      now := now
      phase := .listing first (i + 1) atd { skb with
        len := (listedRecords s.set.extensions (jiffiesAt A now) (s.table.hbucket i)).foldl
          (elementEnd skb.pad64 s.set.extensions) skb.len
        attrs := attrs } } := by
  unfold bucket
  rw [hphase]
  simp only [if_pos hi]
  cases hn : s.table.hbucket i with
  | none => exact ⟨skb.attrs, rfl⟩
  | some n =>
    rw [hn] at hfits
    refine ⟨skb.attrs ++ (listedRecords s.set.extensions (jiffiesAt A now) (some n)).flatMap
      (elementAttrs s.set.extensions (jiffiesAt A now)), ?_⟩
    simp only [listSlots_listed s.set.extensions (jiffiesAt A now) h hfits]
    rfl

variable {jhash2 : HashDomainElem → BitVec 32 → BitVec 32} {forceadd : Bool} {s : Dumps A}
  {p : Dumping A} {k : ℕ}

variable (jhash2 forceadd) in
/-- A message that has room for `n` buckets passes them. -/
theorem Dumps.lists (hk : s.sessions[k]? = some p) (hkept : p.kept = some t)
    (hphase : p.phase = .paused i) (hlen : t.bucket.length = jhashSize t.htableBits)
    (hclock : s.now ≤ start + 2 ^ (A.longBits - 1)) (hn : i + n ≤ t.bucket.length)
    (hcap : (t.listedFrom s.set.extensions s.now i n).foldl (elementEnd false s.set.extensions) 4 ≤
      cap) :
    ∃ l s2 p2 attrs, ((dumpsSystem A jhash2 start forceadd).startingAt s).Run l s2 ∧
      s2.now = s.now ∧ s2.set = s.set ∧ s2.sessions[k]? = some p2 ∧ p2.kept = some t ∧
      p2.freed = s.set.acct.freed ∧ p2.phase = .listing i (i + n) ⟨cap, false, 0, []⟩
        ⟨cap, false, (t.listedFrom s.set.extensions s.now i n).foldl
          (elementEnd false s.set.extensions) 4, attrs⟩ := by
  have hself {s : Dumps A} {p : Dumping A} (h : s.sessions[k]? = some p) (l : Lister A)
      (dead : List ℕ) : (s.put k l dead).sessions[k]? = some (l.dumping dead) :=
    getElem?_set_self (List.getElem?_eq_some_iff.mp h).1
  induction n with
  | zero =>
    have hput : (⟨cap, false, 0, []⟩ : Core.Skb).put .adt = some ⟨cap, false, 4, [.adt]⟩ :=
      if_pos hcap
    have hmessage : (s.lister p).message ⟨cap, false, 0, []⟩ = some { s.lister p with
        phase := .listing i i ⟨cap, false, 0, []⟩ ⟨cap, false, 4, [.adt]⟩ } := by
      unfold Lister.message
      rw [show (s.lister p).phase = p.phase from rfl, hphase]
      simp only [hput]
    have hstep : ((dumpsSystem A jhash2 start forceadd).startingAt s).step s
        (.list k ⟨cap, false, 0, []⟩) (s.put k _ s.set.acct.freed) := ⟨p, _, hk, hmessage, rfl⟩
    exact ⟨_, _, _, [.adt], .snoc (.start rfl) hstep, rfl, rfl, hself hk _ _, hkept, rfl, rfl⟩
  | succ n ih =>
    have hfour : 4 ∣ (t.listedFrom s.set.extensions s.now i n).foldl
        (elementEnd false s.set.extensions) 4 := four_dvd_foldl_elementEnd _ (dvd_refl 4) _
    rw [Htable.listedFrom_succ, foldl_append] at hcap
    obtain ⟨l, s2, p2, attrs, hrun, hnow, hset, hk2, hkept2, hfreed, hphase2⟩ :=
      ih (by omega) ((le_foldl_elementEnd _ hfour _).trans hcap)
    have htable : (s2.lister p2).table = t := s2.table_kept hkept2
    have hsize : i + n < jhashSize (s2.lister p2).table.htableBits := by
      rw [htable, ← hlen]
      omega
    have hext : (s2.lister p2).set = s.set := hset
    obtain ⟨attrs', hbucket⟩ := Lister.bucket_fits s.now hphase2 hsize hfour
      (by rw [htable, hext]; exact hcap)
    have hstep : ((dumpsSystem A jhash2 start forceadd).startingAt s).step s2 (.bucket k s.now)
        (s2.put k _ p2.freed) := ⟨hnow.le, hclock, p2, _, hk2, hbucket, rfl⟩
    refine ⟨_, _, _, attrs', .snoc hrun hstep, rfl, hset, hself hk2 _ _, hkept2, hfreed, ?_⟩
    rw [Htable.listedFrom_succ, foldl_append, ← htable, ← hext]
    rfl

theorem Lister.follows_of_fits {s : Lister A} {first : ℕ} {atd skb : Core.Skb}
    (hphase : s.phase = .listing first i atd skb) (hi : i < jhashSize s.table.htableBits)
    (h : 4 ∣ skb.len) (hfits : (listedRecords s.set.extensions (jiffiesAt A now)
      (s.table.hbucket i)).foldl (elementEnd skb.pad64 s.set.extensions) skb.len ≤ skb.cap)
    (ha : a ∈ s.table.comments s.set.extensions now i) : a ∈ s.follows now := by
  obtain ⟨n, r, hn, hr, hcomment⟩ := Htable.mem_comments.mp ha
  unfold follows
  rw [hphase]
  simp only [if_pos hi]
  rw [hn] at hfits ⊢
  exact mem_listComments_of_fits h hfits hr hcomment

/-- A comment that a call frees under a dump between two messages is followed by its next one, if
this has room for the buckets up to it. -/
theorem Dumps.Sound.lost_followed (hs : s.Sound jhash2 start) {c : Call} {s1 : Dumps A}
    (hstep : (dumpsSystem A jhash2 start forceadd).step s (.call c) s1)
    (hk : s.sessions[k]? = some p) (hphase : p.phase = .paused i)
    (ha : a ∈ p.pending s.set.extensions c.now) (hfrees : a ∈ s.set.frees jhash2 c) :
    ∃ l s2 p2, ((dumpsSystem A jhash2 start forceadd).startingAt s1).Run l s2 ∧
      s2.sessions[k]? = some p2 ∧ a ∈ (s2.lister p2).follows s2.now ∧ a ∈ p2.freed := by
  obtain ⟨-, hclock, -, set', ⟨-, happly⟩, rfl⟩ := hstep
  have hx : set'.extensions = s.set.extensions := by
    obtain ⟨drift, hch⟩ := applyOp_change hs.good happly
    exact hch.extensions
  rw [DomainSet.frees, happly] at hfrees
  obtain ⟨t, i', j, hkept, hlater, hij, ha⟩ := Dumping.mem_pending.mp ha
  rw [hphase] at hlater
  obtain rfl := Option.some.inj hlater
  have hlen := (hs.sessions p (mem_of_getElem? hk)).length t hkept
  have hj := Htable.lt_of_mem_comments ha
  have hk1 : (s.called c set').sessions[k]? =
      some (((s.lister p).called c set').dumping p.freed) := by
    show (s.sessions.map _)[k]? = _
    rw [getElem?_map, hk]
    rfl
  have hkept1 : (((s.lister p).called c set').dumping p.freed).kept = some t := by
    show (if c.resized then some (s.lister p).table else p.kept) = some t
    rw [s.table_kept hkept, hkept]
    exact ite_self _
  -- a message with room for everything up to bucket `j`
  have hfour : 4 ∣ (t.listedFrom set'.extensions c.now i (j - i)).foldl
      (elementEnd false set'.extensions) 4 := four_dvd_foldl_elementEnd _ (dvd_refl 4) _
  obtain ⟨cap, hcap⟩ : ∃ cap, (listedRecords set'.extensions (jiffiesAt A c.now)
      (t.hbucket j)).foldl (elementEnd false set'.extensions)
        ((t.listedFrom set'.extensions c.now i (j - i)).foldl
          (elementEnd false set'.extensions) 4) ≤ cap := ⟨_, le_rfl⟩
  obtain ⟨l, s2, p2, attrs, hrun, hnow, hset, hk2, hkept2, hfreed, hphase2⟩ :=
    Dumps.lists jhash2 forceadd hk1 hkept1 hphase hlen hclock (n := j - i) (by omega)
      ((le_foldl_elementEnd _ hfour _).trans hcap)
  have htable : (s2.lister p2).table = t := s2.table_kept hkept2
  have hset2 : (s2.lister p2).set = set' := hset
  rw [Nat.add_sub_cancel' hij] at hphase2
  refine ⟨l, s2, p2, hrun, hk2, ?_, hfreed ▸ (mem_filter.mp hfrees).1⟩
  apply Lister.follows_of_fits hphase2 (by rw [htable, ← hlen]; exact hj) hfour
  · rw [htable, hset2, hnow]
    exact hcap
  · rw [htable, hset2, hx, hnow]
    exact ha

end

/-- While no call frees what a dump has still to follow in a table that a resizing has replaced, no
dump follows a comment that was freed when its call of `mtype_list` began. The first call that frees
such a comment under a dump between two messages lets that dump follow it. -/
theorem dump_comments (jhash2 : HashDomainElem → BitVec 32 → BitVec 32) (start : ℕ)
    (forceadd : Bool) (l : List DumpsMove) (s : Dumps A)
    (h : ((dumpsSystem A jhash2 start forceadd).guard (Dumps.Spares jhash2)).Run l s) :
    (∀ p ∈ s.sessions, ∀ now, s.now ≤ now → now ≤ start + 2 ^ (A.longBits - 1) →
      ∀ a ∈ (s.lister p).follows now, a ∉ p.freed) ∧
    ∀ c s1, (dumpsSystem A jhash2 start forceadd).step s (.call c) s1 →
      ∀ (k : ℕ) (p : Dumping A) (arg0 : ℕ), s.sessions[k]? = some p → p.phase = .paused arg0 →
        ∀ a ∈ p.pending s.set.extensions c.now, a ∈ s.set.frees jhash2 c →
          ∃ l' s2 p2, ((dumpsSystem A jhash2 start forceadd).startingAt s1).Run l' s2 ∧
            s2.sessions[k]? = some p2 ∧ a ∈ (s2.lister p2).follows s2.now ∧ a ∈ p2.freed := by
  have hs := dumps_sound h
  constructor
  · intro p hp now hle hclock a ha
    exact hs.follows hp hle hclock ha
  · intro c s1 hstep k p arg0 hk hphase a ha hfrees
    exact hs.lost_followed hstep hk hphase ha hfrees

/-! ### A dump with a resizing in it -/

instance (jhash2 : HashDomainElem → BitVec 32 → BitVec 32) (s : Dumps A) :
    (m : DumpsMove) → Decidable (s.Spares jhash2 m)
  | .call c => inferInstanceAs (Decidable (∀ p ∈ s.sessions,
      ∀ a ∈ p.pending s.set.extensions c.now, a ∉ s.set.frees jhash2 c))
  | .uref | .list .. | .bucket .. | .release _ => .isTrue trivial

def applyDumps (s : Dumps x64) : DumpsMove → Option (Dumps x64)
  | .call c => (applyClocked (s.now, s.set) c).map fun q => s.called c q.2
  | .uref => some { s with sessions := s.sessions ++ [⟨none, .paused 0, [], s.set.acct.freed⟩] }
  | .list k skb => s.sessions[k]?.bind fun p =>
      ((s.lister p).message skb).map fun l => s.put k l s.set.acct.freed
  | .bucket k now => if s.now ≤ now ∧ now ≤ 2 ^ 63 then s.sessions[k]?.bind fun p =>
      ((s.lister p).bucket now).map fun l => s.put k l p.freed else none
  | .release k => some { s with sessions := s.sessions.eraseIdx k }

theorem applyDumps_step {s s' : Dumps x64} {m : DumpsMove} (h : applyDumps s m = some s') :
    (dumpsSystem x64 firstByte 0 false).step s m s' := by
  cases m with
  | call c =>
    obtain ⟨q, hq, rfl⟩ := Option.map_eq_some_iff.mp h
    obtain ⟨hle, hclock, -, hacc, hstep⟩ := applyClocked_step hq
    exact ⟨hle, hclock, hacc, q.2, hstep, rfl⟩
  | uref => exact (Option.some.inj h).symm
  | list k skb =>
    obtain ⟨p, hp, h⟩ := Option.bind_eq_some_iff.mp h
    obtain ⟨l, hl, rfl⟩ := Option.map_eq_some_iff.mp h
    exact ⟨p, l, hp, hl, rfl⟩
  | bucket k now =>
    obtain ⟨⟨hle, hclock⟩, h⟩ := Option.ite_none_right_eq_some.mp h
    obtain ⟨p, hp, h⟩ := Option.bind_eq_some_iff.mp h
    obtain ⟨l, hl, rfl⟩ := Option.map_eq_some_iff.mp h
    refine ⟨hle, ?_, p, l, hp, hl, rfl⟩
    show now ≤ 0 + 2 ^ 63
    omega
  | release k => exact (Option.some.inj h).symm

/-- A dump of eight domains with comments of 255 bytes. A message ends behind the first seven; then
the set is resized, the domain `d` is deleted and the next message begins. -/
def resizedDump (d : DomainKey) : List DumpsMove :=
  let skb : Core.Skb := ⟨pageSize, false, 0, []⟩
  (commented.take 7).map (fun c => .call ⟨0, c.2, .ret .ok⟩) ++
    [.call ⟨0, .add keyB { plainExt with comment := some (replicate 255 98) } plainFlags noFailure,
      .ret .ok⟩, .uref, .list 0 skb] ++
    replicate 35 (.bucket 0 0) ++
    [.call ⟨0, .resize ⟨fun _ => true, fun _ _ => true⟩, .ret .ok⟩,
      .call ⟨0, .del d true, .ret .ok⟩, .list 0 skb]

/-- Deleting the domain that is still to list frees the comment that the dump follows next. -/
theorem dump_comments_freed : ∃ l s, (dumpsSystem x64 firstByte 0 false).Run l s ∧
    ∃ p ∈ s.sessions, ∃ a ∈ (s.lister p).follows s.now, a ∈ p.freed := by
  have htest : ((resizedDump keyB).foldlM applyDumps ⟨0, smallSet 20 16, []⟩).any (fun s =>
      s.sessions.any fun p => ((s.lister p).follows s.now).any fun a => p.freed.contains a) =
        true := by
    decide +kernel
  obtain ⟨s, hrun, hQ⟩ := (Option.any_eq_true _ _).mp htest
  have hinit : (dumpsSystem x64 firstByte 0 false).init ⟨0, smallSet 20 16, []⟩ :=
    ⟨rfl, smallSet_init firstByte 20 16 rfl, rfl⟩
  simp only [any_eq_true, contains_iff_mem] at hQ
  exact ⟨_, s, System.Run.foldlM (l := []) (fun _ _ _ => applyDumps_step) (.start hinit) hrun, hQ⟩

/-- Deleting the domain that is listed already does not. -/
theorem dump_comments_spared : ∃ l s,
    ((dumpsSystem x64 firstByte 0 false).guard (Dumps.Spares firstByte)).Run l s ∧
    ∃ p ∈ s.sessions, p.freed ≠ [] ∧ ∃ a ∈ (s.lister p).follows s.now, a ∉ p.freed := by
  have htest : ((resizedDump (keyTwo 97 97 (by decide))).foldlM
      (fun (s : Dumps x64) m => if s.Spares firstByte m then applyDumps s m else none)
      ⟨0, smallSet 20 16, []⟩).any (fun s => s.now = 0 && s.sessions.any fun p =>
        p.freed ≠ [] && (s.lister p).follows s.now ≠ []) = true := by
    decide +kernel
  obtain ⟨s, hrun, hQ⟩ := (Option.any_eq_true _ _).mp htest
  have hinit : ((dumpsSystem x64 firstByte 0 false).guard (Dumps.Spares firstByte)).init
      ⟨0, smallSet 20 16, []⟩ := ⟨rfl, smallSet_init firstByte 20 16 rfl, rfl⟩
  simp only [any_eq_true, Bool.and_eq_true, decide_eq_true_eq] at hQ
  obtain ⟨hnow, p, hp, hfreed, hfollows⟩ := hQ
  have hguarded := System.Run.foldlM (l := []) (fun s m s' h => by
    obtain ⟨hspares, hstep⟩ := Option.ite_none_right_eq_some.mp h
    exact ⟨hspares, applyDumps_step hstep⟩) (.start hinit) hrun
  obtain ⟨a, ha⟩ := exists_mem_of_ne_nil _ hfollows
  have hnot := (dump_comments firstByte 0 false _ s hguarded).1 p hp s.now le_rfl
    (by rw [hnow]; exact Nat.zero_le _) a ha
  exact ⟨_, s, hguarded, p, hp, hfreed, a, ha, hnot⟩

end Dset.Hash
