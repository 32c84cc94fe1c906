import Dset.Hash.List
import Dset.Hash.Refinement
import Dset.Lib.Scan

/-! A set that is listed in several messages while it is changed. Between two buckets any call on
the set may come; a resizing leaves the listing the table that it replaces. What is alive all the
time is listed once, what is never alive is not, and nothing is listed twice. -/

namespace Dset.Hash

open Dset.Lib List

variable {A : Arch}

/-! ### A listing -/

/-- A resizing that has put a new table in place. -/
def Call.resized (c : Call) : Bool :=
  match c.op, c.out with
  | .resize _, .ret .ok => true
  | _, _ => false

/-- Where a listing is: between two messages with `DSET_CB_ARG0`, in the loop of `mtype_list` at
bucket `i`, or behind its last message. -/
inductive ListPhase where
  | paused (arg0 : ℕ)
  | listing (first i : ℕ) (atd skb : Core.Skb)
  | ended (ret : Ret)

/-- A set with its clock, the table that its listing holds once the set has got another one, and
the messages of the listing. -/
structure Lister (A : Arch) where
  now : ℕ
  set : DomainSet A
  kept : Option (Htable A)
  phase : ListPhase
  sent : List (List Core.Attr)

namespace Lister

variable (s : Lister A)

/-- The table in `DSET_CB_PRIVATE`. -/
def table : Htable A := s.kept.getD s.set.table

def message (skb : Core.Skb) : Option (Lister A) :=
  match s.phase with
  | .paused arg0 =>
    match skb.put .adt with
    | none => some { s with phase := .ended (.err .emsgsize) }
    | some body => some { s with phase := .listing arg0 arg0 skb body }
  | _ => none

/-- What `mtype_list` does when bucket `i` does not fit: as the first of the message it is an
error, otherwise the message ends in front of it. -/
def full (first i : ℕ) (skb : Core.Skb) : Lister A :=
  if i = first then { s with phase := .ended (.err .emsgsize) }
  else { s with phase := .paused i, sent := s.sent ++ [skb.nestEnd.attrs] }

/-- One iteration of the loop of `mtype_list` at tick `now`, or its end. -/
def bucket (now : ℕ) : Option (Lister A) :=
  match s.phase with
  | .listing first i atd skb =>
    if i < jhashSize s.table.htableBits then
      match s.table.hbucket i with
      | none => some { s with now := now, phase := .listing first (i + 1) atd skb }
      | some n =>
        match listSlots s.set.extensions (jiffiesAt A now) skb (n.value.take n.pos) with
        | .listed skb' => some { s with now := now, phase := .listing first (i + 1) atd skb' }
        | _ => some ({ s with now := now }.full first i skb)
    else some { s with now := now, phase := .ended .ok, sent := s.sent ++ [skb.nestEnd.attrs] }
  | _ => none

/-- A call on the set: behind a successful resizing the listing goes on with the table it had. -/
def called (c : Call) (set : DomainSet A) : Lister A :=
  { s with
    now := c.now
    set := set
    kept := if c.resized then some s.table else s.kept }

end Lister

/-- A step: a call on the set, a call of `mtype_list` with a buffer, or its next bucket. -/
inductive ListMove where
  | call (c : Call)
  | message (skb : Core.Skb)
  | bucket (now : ℕ)

def attrDomains (l : List Core.Attr) : List (List UInt8) :=
  l.filterMap fun | .domain d => some d | _ => none

/-- Listings of a set that any calls have led to. -/
def listSystem (A : Arch) (jhash2 : HashDomainElem → BitVec 32 → BitVec 32) (start : ℕ) :
    System (Lister A) ListMove where
  init s := (∃ l, (clockedSystem A jhash2 start).Run l (s.now, s.set)) ∧ s.kept = none ∧
    s.phase = .paused 0 ∧ s.sent = []
  step s m s' := match m with
    | .call c => ∃ set, (clockedSystem A jhash2 start).step (s.now, s.set) c (c.now, set) ∧
        s' = s.called c set
    | .message skb => attrDomains skb.attrs = [] ∧ s.message skb = some s'
    | .bucket now => s.now ≤ now ∧ now ≤ start + 2 ^ (A.longBits - 1) ∧ s.bucket now = some s'

/-! ### The attributes of a bucket -/

theorem attrDomains_append (l l' : List Core.Attr) :
    attrDomains (l ++ l') = attrDomains l ++ attrDomains l' := filterMap_append

theorem attrDomains_nestEnd (skb : Core.Skb) :
    attrDomains skb.nestEnd.attrs = attrDomains skb.attrs := by
  show attrDomains (skb.attrs ++ [.nestEnd]) = _
  rw [attrDomains_append]
  exact append_nil _

theorem attrDomains_element (x : Extensions) (jiffies : BitVec A.longBits) (r : Record A) :
    attrDomains (elementAttrs x jiffies r) = [r.elem.domain] := by
  have hite {b : Prop} [Decidable b] {l : List Core.Attr} (h : attrDomains l = []) :
      attrDomains (if b then l else []) = [] := by
    split
    · exact h
    · rfl
  have hskbinfo : attrDomains (domainSetPutSkbinfo r.skbinfo) = [] := by
    unfold domainSetPutSkbinfo
    rw [attrDomains_append, attrDomains_append, hite rfl, hite rfl, hite rfl]
    rfl
  have hcomment : attrDomains (r.comment.toList.map fun c => .comment c.str) = [] := by
    cases r.comment <;> rfl
  have hext : attrDomains (domainSetPutExtensions x jiffies r) = [] := by
    unfold domainSetPutExtensions
    rw [attrDomains_append, attrDomains_append, attrDomains_append, hite rfl, hite rfl,
      hite hcomment, hite hskbinfo]
    rfl
  unfold elementAttrs
  show r.elem.domain :: attrDomains (domainSetPutExtensions x jiffies r ++ [.nestEnd]) = _
  rw [attrDomains_append, hext]
  rfl

theorem listSlots_attrs {x : Extensions} {jiffies : BitVec A.longBits} {skb skb' : Core.Skb}
    {l : List (Slot A)} (h : listSlots x jiffies skb l = .listed skb') :
    attrDomains skb'.attrs = attrDomains skb.attrs ++
      ((slotRecords l).filter fun r => !r.isExpired x jiffies).map (·.elem.domain) := by
  induction l generalizing skb with
  | nil =>
    obtain rfl := BucketEnd.listed.inj h
    simp [slotRecords]
  | cons s l ih =>
    rw [listSlots] at h
    rw [slotRecords_cons]
    by_cases hused : s.used = true
    · rw [Slot.records_used hused, singleton_append]
      rw [hused, Bool.not_true, if_neg Bool.false_ne_true] at h
      by_cases hexp : s.data.isExpired x jiffies = true
      · rw [if_pos hexp] at h
        rw [filter_cons_of_neg (by simp [hexp])]
        exact ih h
      · rw [if_neg hexp] at h
        rw [filter_cons_of_pos (by simpa using hexp)]
        cases hdata : skb.put .data with
        | none => rw [hdata] at h; cases h
        | some skb1 =>
          rw [hdata] at h
          dsimp only at h
          obtain ⟨put, -, hattrs, hall⟩ := skb1.putAll_attrs
            (.domain s.data.elem.domain :: domainSetPutExtensions x jiffies s.data)
          generalize skb1.putAll _ = p at h hattrs hall
          obtain ⟨fits, skb2⟩ := p
          cases fits with
          | false => cases h
          | true =>
            simp only [Bool.not_true, Bool.false_eq_true, if_false] at h
            have hput : attrDomains skb2.nestEnd.attrs =
                attrDomains skb.attrs ++ [s.data.elem.domain] := by
              have hsplit : skb2.nestEnd.attrs =
                  skb.attrs ++ elementAttrs x jiffies s.data := by
                show skb2.attrs ++ [.nestEnd] = _
                rw [show skb2.attrs = _ from hattrs, hall rfl, Core.Skb.put_attrs hdata]
                simp [elementAttrs]
              rw [hsplit, attrDomains_append, attrDomains_element]
            rw [ih h, hput, append_assoc]
            rfl
    · rw [Slot.records_unused (by simpa using hused), nil_append]
      rw [Bool.eq_false_iff.mpr hused, Bool.not_false, if_pos rfl] at h
      exact ih h

/-! ### Tables and their homes -/

theorem elem_of_domain {e e' : HashDomainElem} (h : e.domain = e'.domain) : e = e' := by
  obtain ⟨d, hd⟩ := e
  obtain ⟨d', hd'⟩ := e'
  cases h
  rfl

/-- The records of bucket `i` that are listed hold the live keys at home there, once each. -/
theorem listed_bucket {x : Extensions} {home : HashDomainElem → ℕ} {t : Htable A}
    (h : t.Good x home) (start now : ℕ) {i : ℕ} {n : Hbucket A} (hn : t.hbucket i = some n) :
    let new := ((slotRecords (n.value.take n.pos)).filter
      fun r => !r.isExpired x (jiffiesAt A now)).map Record.elem
    new.Nodup ∧ (∀ e ∈ new, home e = i) ∧
      ∀ e, home e = i → (e ∈ new ↔ ∃ d, LiveIn x start now t.records e d) := by
  have hb : n.Good x home i := by
    have hgood := h.hbucket i
    rwa [hn] at hgood
  have hrecords : bucketRecords (t.hbucket i) = slotRecords (n.value.take n.pos) := by
    rw [hn]
    exact hb.records_take
  intro new
  refine ⟨?_, ?_, ?_⟩
  · apply Nodup.sublist (filter_sublist.map _)
    rw [← hb.records_take]
    exact hb.nodup
  · intro e he
    obtain ⟨r, hr, rfl⟩ := mem_map.mp he
    apply hb.home
    rw [hb.records_take]
    exact mem_of_mem_filter hr
  · intro e he
    constructor
    · intro hmem
      obtain ⟨r, hr, rfl⟩ := mem_map.mp hmem
      obtain ⟨hr, hlive⟩ := mem_filter.mp hr
      rw [← hrecords] at hr
      exact ⟨_, r, Htable.mem_records_of_bucket hr, rfl, by simpa using hlive, rfl⟩
    · rintro ⟨d, r, hr, rfl, hlive, -⟩
      have hbucket := (h.mem_records hr).2
      rw [he, hrecords] at hbucket
      exact mem_map_of_mem (mem_filter.mpr ⟨hbucket, by simp [hlive]⟩)

/-! ### What a step does -/

section
variable {jhash2 : HashDomainElem → BitVec 32 → BitVec 32} {start : ℕ} {s s' : Lister A}

theorem Represents.later {now now' : ℕ} {set : DomainSet A} {a : KeySet}
    (h : Represents jhash2 start (now, set) a) (hle : now ≤ now')
    (hclock : now' ≤ start + 2 ^ (A.longBits - 1)) :
    Represents jhash2 start (now', set) ⟨a.timeouts, now', a.live.remaining now'⟩ where
  now := rfl
  timeouts := h.timeouts
  good := h.good
  forceadd := h.forceadd
  clock := ⟨h.clock.1.trans hle, hclock⟩
  inRange r hr := (h.inRange r hr).mono hle
  live := h.live.remaining.congr fun _ _ => (LiveIn.later_iff h.inRange hle hclock).symm

/-- No call but a successful resizing changes the size of the table. -/
theorem applyOp_htableBits {set set' : DomainSet A} {now : ℕ} {op : Op} {out : Outcome}
    (hg : set.Good jhash2) (h : applyOp jhash2 now set op = .ok (out, set'))
    (hres : Call.resized ⟨now, op, out⟩ = false) :
    set'.table.htableBits = set.table.htableBits := by
  cases op with
  | add d ext flags alloc =>
    obtain ⟨ret, rfl, hadd⟩ := applyOp_add hg h
    have hroom : (makeRoom (jiffiesAt A now) alloc.expire set).table.htableBits =
        set.table.htableBits := by
      unfold makeRoom
      split <;> rfl
    cases hadd with
    | refused => exact hroom
    | exist => exact hroom
    | stored _ _ _ _ _ _ _ _ _ _ _ _ _ _ htable => exact htable.trans hroom
  | del d alloc =>
    have hdel := mtypeDel_result (jiffiesAt A now) hg.table d.padded alloc
    obtain ⟨rfl, rfl⟩ := Prod.mk.inj (Except.ok.inj h)
    revert hdel
    generalize mtypeDel jhash2 (jiffiesAt A now) alloc set d.toHashDomainElem = p
    intro hdel
    obtain ⟨ret, set'⟩ := p
    cases hdel with
    | missing => rfl
    | removed _ _ _ _ _ _ _ _ _ _ htable => exact htable
  | test d ext mext flags =>
    have htest := mtypeTest_result (jiffiesAt A now) hg.table d.padded ext mext flags
    obtain ⟨rfl, rfl⟩ := Prod.mk.inj (Except.ok.inj h)
    revert htest
    generalize mtypeTest jhash2 (jiffiesAt A now) set d.toHashDomainElem ext mext flags = p
    intro htest
    obtain ⟨b, set', mext'⟩ := p
    cases htest with
    | missing => rfl
    | found _ _ _ _ _ _ _ _ _ _ _ _ htable => exact htable
  | expire alloc =>
    obtain ⟨rfl, rfl⟩ := Prod.mk.inj (Except.ok.inj h)
    rfl
  | flush =>
    obtain ⟨rfl, rfl⟩ := Prod.mk.inj (Except.ok.inj h)
    exact (mtypeFlush_change hg).2.2.2
  | resize alloc =>
    obtain ⟨ret, old, rfl, hresize⟩ := applyOp_resize hg h
    cases hresize with
    | failed => rfl
    | resized => cases hres

namespace Lister

/-- Where `HKEY` sends a key under the size of the table that is listed. -/
def home (jhash2 : HashDomainElem → BitVec 32 → BitVec 32) (s : Lister A) (e : HashDomainElem) : ℕ :=
  hkey jhash2 e s.set.initval s.table.htableBits

/-- The key is alive in the table that is listed. -/
def LiveKept (start : ℕ) (s : Lister A) (e : HashDomainElem) (d : Deadline) : Prop :=
  LiveIn s.set.extensions start s.now s.table.records e d

/-- What the messages hold, and behind them the one that is being written. -/
def listed (s : Lister A) : List (List UInt8) :=
  attrDomains s.sent.flatten ++ match s.phase with
    | .listing _ _ _ skb => attrDomains skb.attrs
    | _ => []

def cursor? (s : Lister A) : Option ℕ :=
  match s.phase with
  | .paused i => some i
  | .listing _ i _ _ => some i
  | .ended _ => none

section
variable {s : Lister A} {first i : ℕ} {atd skb : Core.Skb} {ret : Ret}

theorem listed_paused (h : s.phase = .paused i) : s.listed = attrDomains s.sent.flatten := by
  unfold listed
  rw [h, append_nil]

theorem listed_listing (h : s.phase = .listing first i atd skb) :
    s.listed = attrDomains s.sent.flatten ++ attrDomains skb.attrs := by
  unfold listed
  rw [h]

theorem listed_ended (h : s.phase = .ended ret) : s.listed = attrDomains s.sent.flatten := by
  unfold listed
  rw [h, append_nil]

theorem cursor?_paused (h : s.phase = .paused i) : s.cursor? = some i := by
  unfold cursor?
  rw [h]

theorem cursor?_listing (h : s.phase = .listing first i atd skb) : s.cursor? = some i := by
  unfold cursor?
  rw [h]

theorem cursor?_ended (h : s.phase = .ended ret) : s.cursor? = none := by
  unfold cursor?
  rw [h]

end

/-- The set is a set of keys with deadlines, and the table that is listed is good. -/
structure Sound (jhash2 : HashDomainElem → BitVec 32 → BitVec 32) (start : ℕ) (s : Lister A) :
    Prop where
  represents : ∃ a, Represents jhash2 start (s.now, s.set) a
  good : s.table.Good s.set.extensions (s.home jhash2)
  inRange : ∀ r ∈ s.table.records, r.InRange s.set.extensions start s.now

/-- A call leaves the table that is listed alone, or it changes it in place, as the table of the
set, and keeps its size. -/
theorem called_table (hg : s.set.Good jhash2) {c : Call} {set : DomainSet A}
    (h : applyOp jhash2 c.now s.set c.op = .ok (c.out, set)) :
    (s.called c set).table = s.table ∨
      s.kept = none ∧ (s.called c set).table = set.table ∧
        set.table.htableBits = s.set.table.htableBits := by
  cases hres : c.resized with
  | true => exact .inl (by simp [called, table, hres])
  | false =>
    cases hk : s.kept with
    | some t => exact .inl (by simp [called, table, hres, hk])
    | none => exact .inr ⟨rfl, by simp [called, table, hres, hk], applyOp_htableBits hg h hres⟩

end Lister

/-! ### One step -/

theorem Lister.Sound.tick (hs : s.Sound jhash2 start) (hset : s'.set = s.set)
    (hkept : s'.kept = s.kept) (hle : s.now ≤ s'.now)
    (hclock : s'.now ≤ start + 2 ^ (A.longBits - 1)) :
    s'.Sound jhash2 start ∧ s'.home jhash2 = s.home jhash2 ∧
      ∀ e d, s'.LiveKept start e d ↔ s.LiveKept start e d ∧ ¬d.passed s'.now := by
  have htable : s'.table = s.table := by
    unfold Lister.table
    rw [hset, hkept]
  have hhome : s'.home jhash2 = s.home jhash2 := by
    funext e
    unfold Lister.home
    rw [hset, htable]
  obtain ⟨a, ha⟩ := hs.represents
  refine ⟨⟨⟨_, hset ▸ ha.later hle hclock⟩, ?_, ?_⟩, hhome, ?_⟩
  · rw [hhome, hset, htable]
    exact hs.good
  · intro r hr
    rw [htable] at hr
    rw [hset]
    exact (hs.inRange r hr).mono hle
  · intro e d
    unfold Lister.LiveKept
    rw [hset, htable]
    exact LiveIn.later_iff hs.inRange hle hclock

/-- A call on the set: the listing has the table that it had, or that of the set. -/
theorem Lister.Sound.call (hs : s.Sound jhash2 start) {c : Call} {set : DomainSet A}
    (h : (clockedSystem A jhash2 start).step (s.now, s.set) c (c.now, set)) :
    (s.called c set).Sound jhash2 start ∧ (s.called c set).home jhash2 = s.home jhash2 ∧
      ((∀ e d, (s.called c set).LiveKept start e d ↔ s.LiveKept start e d ∧ ¬d.passed c.now) ∨
        ∀ e d, (s.called c set).LiveKept start e d ↔ set.Live start c.now e d) := by
  obtain ⟨a, ha⟩ := hs.represents
  obtain ⟨a', -, ha'⟩ := (represents_simulation jhash2 start).step _ _ _ _ ha h
  obtain ⟨hle, hclock, -, -, -, happly⟩ := h
  obtain ⟨drift, hch⟩ := applyOp_change ha.good happly
  have hx : set.extensions = s.set.extensions := hch.extensions
  have hinit : set.initval = s.set.initval := hch.initval
  rcases called_table ha.good happly with htable | ⟨hnone, htable, hbits⟩
  · have hhome : (s.called c set).home jhash2 = s.home jhash2 := by
      funext e
      unfold Lister.home
      rw [htable]
      exact congrArg (fun v => hkey jhash2 e v s.table.htableBits) hinit
    refine ⟨⟨⟨a', ha'⟩, ?_, ?_⟩, hhome, .inl ?_⟩
    · rw [hhome, htable]
      exact hx ▸ hs.good
    · intro r hr
      rw [htable] at hr
      exact hx ▸ (hs.inRange r hr).mono hle
    · intro e d
      unfold Lister.LiveKept
      rw [htable]
      show LiveIn set.extensions start c.now s.table.records e d ↔ _
      rw [hx]
      exact LiveIn.later_iff hs.inRange hle hclock
  · have hold : s.table = s.set.table := by
      unfold Lister.table
      rw [hnone]
      rfl
    have hhome : (s.called c set).home jhash2 = s.home jhash2 := by
      funext e
      unfold Lister.home
      rw [htable, hold, hbits]
      exact congrArg (fun v => hkey jhash2 e v s.set.table.htableBits) hinit
    have hhome' : (s.called c set).home jhash2 = set.home jhash2 := by
      funext e
      unfold Lister.home
      rw [htable]
      rfl
    refine ⟨⟨⟨a', ha'⟩, ?_, ?_⟩, hhome, .inr ?_⟩
    · rw [hhome', htable]
      exact ha'.good.table
    · rw [htable]
      exact ha'.inRange
    · intro e d
      unfold Lister.LiveKept
      rw [htable]
      rfl

inductive Lister.Progress (jhash2 : HashDomainElem → BitVec 32 → BitVec 32) (start : ℕ)
    (s s' : Lister A) : Prop
  | idle (hlisted : s'.listed = s.listed) (hcursor : s'.cursor? = s.cursor?)
      (hended : s'.phase = .ended .ok → s.phase = .ended .ok)
  | read (i : ℕ) (new : List HashDomainElem) (hcursor : s.cursor? = some i)
      (hnext : s'.cursor? = some (i + 1)) (hlisted : s'.listed = s.listed ++ new.map (·.domain))
      (hnodup : new.Nodup) (hhome : ∀ e ∈ new, s.home jhash2 e = i)
      (hnew : ∀ e, s.home jhash2 e = i → (e ∈ new ↔ ∃ d, s'.LiveKept start e d))
  | failed (e : Errno) (hphase : s'.phase = .ended (.err e)) (hlisted : s'.listed <+: s.listed)
  | finished (i : ℕ) (hcursor : s.cursor? = some i) (hsize : jhashSize s.table.htableBits ≤ i)
      (hphase : s'.phase = .ended .ok) (hlisted : s'.listed = s.listed)

namespace Lister

theorem progress_message {skb : Core.Skb} (hskb : attrDomains skb.attrs = [])
    (h : s.message skb = some s') : s.Progress jhash2 start s' := by
  unfold message at h
  split at h
  · rename_i arg0 hphase
    split at h
    · obtain rfl := Option.some.inj h
      refine .failed .emsgsize rfl ?_
      rw [listed_paused hphase, listed_ended rfl]
    · rename_i body hput
      obtain rfl := Option.some.inj h
      have hbody : attrDomains body.attrs = [] := by
        rw [Core.Skb.put_attrs hput, attrDomains_append, hskb]
        rfl
      refine .idle ?_ ?_ ?_
      · rw [listed_paused hphase, listed_listing rfl, hbody, append_nil]
      · rw [cursor?_paused hphase, cursor?_listing rfl]
      · intro hended
        cases hended
  · cases h

theorem progress_full {first i now : ℕ} {atd skb : Core.Skb}
    (hphase : s.phase = .listing first i atd skb) :
    s.Progress jhash2 start ({ s with now := now }.full first i skb) := by
  unfold full
  split
  · refine .failed .emsgsize rfl ?_
    rw [listed_listing hphase, listed_ended rfl]
    exact prefix_append _ _
  · refine .idle ?_ ?_ ?_
    · rw [listed_listing hphase, listed_paused rfl, flatten_concat, attrDomains_append,
        attrDomains_nestEnd]
    · rw [cursor?_listing hphase, cursor?_paused rfl]
    · intro hended
      cases hended

theorem progress_bucket (hs : s.Sound jhash2 start) {now : ℕ} (h : s.bucket now = some s') :
    s.Progress jhash2 start s' := by
  unfold bucket at h
  split at h
  · rename_i first i atd skb hphase
    split at h
    · split at h
      · rename_i hnone
        obtain rfl := Option.some.inj h
        refine .read i [] (cursor?_listing hphase) rfl ?_ nodup_nil (by simp) ?_
        · rw [listed_listing hphase, listed_listing rfl, map_nil, append_nil]
        · intro e he
          refine iff_of_false not_mem_nil ?_
          rintro ⟨d, r, hr, rfl, -⟩
          have hbucket := (hs.good.mem_records hr).2
          rw [he, hnone] at hbucket
          cases hbucket
      · rename_i n hn
        split at h
        · rename_i skb' hslots
          obtain rfl := Option.some.inj h
          obtain ⟨hnodup, hhome, hnew⟩ := listed_bucket hs.good start now hn
          refine .read i _ (cursor?_listing hphase) rfl ?_ hnodup hhome hnew
          rw [listed_listing hphase, listed_listing rfl, listSlots_attrs hslots, map_map,
            append_assoc]
          rfl
        · obtain rfl := Option.some.inj h
          exact progress_full hphase
    · rename_i hsize
      obtain rfl := Option.some.inj h
      refine .finished i (cursor?_listing hphase) (not_lt.mp hsize) rfl ?_
      rw [listed_listing hphase, listed_ended rfl, flatten_concat, attrDomains_append,
        attrDomains_nestEnd]
  · cases h

theorem progress_call {c : Call} {set : DomainSet A} :
    s.Progress jhash2 start (s.called c set) := .idle rfl rfl id

theorem kept_of_message {skb : Core.Skb} (h : s.message skb = some s') :
    s'.set = s.set ∧ s'.kept = s.kept ∧ s'.now = s.now := by
  unfold message at h
  split at h
  · split at h
    all_goals
      obtain rfl := Option.some.inj h
      exact ⟨rfl, rfl, rfl⟩
  · cases h

theorem kept_of_bucket {now : ℕ} (h : s.bucket now = some s') :
    s'.set = s.set ∧ s'.kept = s.kept ∧ s'.now = now := by
  have hfull : ∀ (first i : ℕ) (skb : Core.Skb), ({ s with now := now }.full first i skb).set = s.set ∧
      ({ s with now := now }.full first i skb).kept = s.kept ∧
      ({ s with now := now }.full first i skb).now = now := by
    intro first i skb
    unfold full
    split <;> exact ⟨rfl, rfl, rfl⟩
  unfold bucket at h
  split at h
  · split at h
    · split at h
      · obtain rfl := Option.some.inj h
        exact ⟨rfl, rfl, rfl⟩
      · split at h
        · obtain rfl := Option.some.inj h
          exact ⟨rfl, rfl, rfl⟩
        · obtain rfl := Option.some.inj h
          exact hfull _ _ _
    · obtain rfl := Option.some.inj h
      exact ⟨rfl, rfl, rfl⟩
  · cases h

theorem Sound.step (hs : s.Sound jhash2 start) {m : ListMove}
    (h : (listSystem A jhash2 start).step s m s') :
    s'.Sound jhash2 start ∧ s'.home jhash2 = s.home jhash2 ∧ s.Progress jhash2 start s' ∧
      ((∀ e d, s'.LiveKept start e d ↔ s.LiveKept start e d ∧ ¬d.passed s'.now) ∨
        ∀ e d, s'.LiveKept start e d ↔ s'.set.Live start s'.now e d) := by
  obtain ⟨a, ha⟩ := hs.represents
  cases m with
  | call c =>
    obtain ⟨set, hstep, rfl⟩ := h
    obtain ⟨hs', hhome, hlive⟩ := hs.call hstep
    exact ⟨hs', hhome, progress_call, hlive⟩
  | message skb =>
    obtain ⟨hskb, h⟩ := h
    obtain ⟨hset, hkept, hnow⟩ := kept_of_message h
    obtain ⟨hs', hhome, hlive⟩ := hs.tick hset hkept hnow.ge (hnow ▸ ha.clock.2)
    exact ⟨hs', hhome, progress_message hskb h, .inl hlive⟩
  | bucket now =>
    obtain ⟨hle, hclock, h⟩ := h
    obtain ⟨hset, hkept, hnow⟩ := kept_of_bucket h
    obtain ⟨hs', hhome, hlive⟩ := hs.tick hset hkept (hnow ▸ hle) (hnow ▸ hclock)
    exact ⟨hs', hhome, progress_bucket hs h, .inl hlive⟩

/-- A listing that begins has the table of the set. -/
theorem sound_init (h : (listSystem A jhash2 start).init s) :
    s.Sound jhash2 start ∧ ∀ e d, s.LiveKept start e d ↔ s.set.Live start s.now e d := by
  obtain ⟨⟨l, hrun⟩, hkept, -, -⟩ := h
  obtain ⟨a, -, ha⟩ := (represents_simulation jhash2 start).run hrun
  have htable : s.table = s.set.table := by
    unfold table
    rw [hkept]
    rfl
  have hhome : s.home jhash2 = s.set.home jhash2 := by
    funext e
    unfold home
    rw [htable]
    rfl
  refine ⟨⟨⟨a, ha⟩, ?_, ?_⟩, ?_⟩
  · rw [hhome, htable]
    exact ha.good.table
  · rw [htable]
    exact ha.inRange
  · intro e d
    unfold LiveKept
    rw [htable]
    rfl

theorem listed_init (h : (listSystem A jhash2 start).init s) :
    s.listed = [] ∧ s.cursor? = some 0 := by
  obtain ⟨-, -, hphase, hsent⟩ := h
  rw [listed_paused hphase, hsent, cursor?_paused hphase]
  exact ⟨rfl, rfl⟩

/-! ### A message -/

/-- What `mtype_list` returns, as the listing goes on from it. -/
def Returned (s s' : Lister A) : Ret × ℕ × Core.Skb → Prop
  | (.ok, 0, skb) => s'.phase = .ended .ok ∧ s'.sent = s.sent ++ [skb.attrs]
  | (.ok, i + 1, skb) => s'.phase = .paused (i + 1) ∧ s'.sent = s.sent ++ [skb.attrs]
  | (ret, _, _) => s'.phase = .ended ret ∧ s'.sent = s.sent

theorem Returned.phase {ret : Ret × ℕ × Core.Skb} (h : s.Returned s' ret) (hok : ret.1 = .ok) :
    s'.phase = (if ret.2.1 = 0 then .ended .ok else .paused ret.2.1) ∧
      s'.sent.length = s.sent.length + 1 := by
  obtain ⟨r, i, skb⟩ := ret
  obtain rfl : r = .ok := hok
  cases i with
  | zero => exact ⟨h.1, by rw [h.2, length_append, length_singleton]⟩
  | succ i => exact ⟨h.1, by rw [h.2, length_append, length_singleton]⟩

section
variable {P : Lister A → Prop} {now : ℕ → ℕ}

theorem full_returned {first i : ℕ} {skb : Core.Skb} {ret : Ret × ℕ × Core.Skb}
    (hle : first ≤ i) (hfirst : i = first → ret.1 = .err .emsgsize)
    (hnext : i ≠ first → ret = (.ok, i, skb.nestEnd)) : s.Returned (s.full first i skb) ret := by
  unfold full
  split
  · rename_i heq
    obtain ⟨r, j, skb'⟩ := ret
    obtain rfl : r = .err .emsgsize := hfirst heq
    exact ⟨rfl, rfl⟩
  · rename_i hne
    rw [hnext hne]
    obtain ⟨j, rfl⟩ := Nat.exists_eq_succ_of_ne_zero (show i ≠ 0 by omega)
    exact ⟨rfl, rfl⟩

variable (jhash2) in
theorem listBuckets_moves (hgood : s.table.bucket.length = jhashSize s.table.htableBits)
    (hnow : Monotone now) (hclock : ∀ i, now i ≤ start + 2 ^ (A.longBits - 1))
    (hP : ∀ (t : Lister A) i, t.set = s.set → t.kept = s.kept → t.now = now i → P t)
    {first i : ℕ} {atd skb : Core.Skb} (hle : first ≤ i) (hs : s.now ≤ now i)
    (hphase : s.phase = .listing first i atd skb) :
    ∃ l s', (((listSystem A jhash2 start).within P).startingAt s).Run l s' ∧
      s'.set = s.set ∧ s'.kept = s.kept ∧
      s.Returned s' (listBuckets s.set.extensions (fun i => jiffiesAt A (now i)) first atd
        (s.table.bucket.drop i) i skb) := by
  have hstep : ∀ s', s.bucket (now i) = some s' →
      (((listSystem A jhash2 start).within P).startingAt s).Run ([] ++ [.bucket (now i)]) s' := by
    intro s' h
    obtain ⟨hset, hkept, ht⟩ := kept_of_bucket h
    exact .snoc (.start rfl) ⟨⟨hs, hclock i, h⟩, hP s' i hset hkept ht⟩
  generalize hl : s.table.bucket.drop i = l
  induction l generalizing s i skb with
  | nil =>
    have hsize : ¬i < jhashSize s.table.htableBits := by
      rw [← hgood]
      exact not_lt.mpr (drop_eq_nil_iff.mp hl)
    refine ⟨_, _, hstep { s with now := now i, phase := .ended .ok, sent := s.sent ++ [skb.nestEnd.attrs] } ?_, rfl,
      rfl, rfl, rfl⟩
    unfold bucket
    rw [hphase]
    exact if_neg hsize
  | cons o l ih =>
    have hi : i < s.table.bucket.length := by
      by_contra hi
      rw [drop_eq_nil_of_le (not_lt.mp hi)] at hl
      cases hl
    rw [drop_eq_getElem_cons hi] at hl
    obtain ⟨ho, hl⟩ := cons.inj hl
    have hbucket : s.table.hbucket i = o := (s.table.hbucket_eq hi).trans ho
    have hsize : i < jhashSize s.table.htableBits := hgood ▸ hi
    -- the rest of the loop, behind a bucket that is passed
    have hrest : ∀ skb', s.bucket (now i) =
        some { s with now := now i, phase := .listing first (i + 1) atd skb' } →
        ∃ l' s', (((listSystem A jhash2 start).within P).startingAt s).Run l' s' ∧
          s'.set = s.set ∧ s'.kept = s.kept ∧
          s.Returned s' (listBuckets s.set.extensions (fun i => jiffiesAt A (now i)) first atd l
            (i + 1) skb') := by
      intro skb' h
      have htable : ({ s with now := now i, phase := .listing first (i + 1) atd skb' } :
        Lister A).table = s.table := rfl
      obtain ⟨l', s', hrun, hset, hkept, hret⟩ := ih (s := { s with
        now := now i
        phase := .listing first (i + 1) atd skb' }) hgood hP (Nat.le_succ_of_le hle)
        (hnow (Nat.le_succ i)) rfl (by
          intro t h
          obtain ⟨hset, hkept, ht⟩ := kept_of_bucket h
          exact .snoc (.start rfl) ⟨⟨hnow (Nat.le_succ i), hclock _, h⟩, hP t _ hset hkept ht⟩) hl
      exact ⟨_, s', (hstep _ h).append hrun, hset, hkept, hret⟩
    -- a bucket that does not fit
    have hfull : ∀ ret : Ret × ℕ × Core.Skb, (i = first → ret.1 = .err .emsgsize) →
        (i ≠ first → ret = (.ok, i, skb.nestEnd)) →
        s.bucket (now i) = some ({ s with now := now i }.full first i skb) →
        ∃ l' s', (((listSystem A jhash2 start).within P).startingAt s).Run l' s' ∧
          s'.set = s.set ∧ s'.kept = s.kept ∧ s.Returned s' ret := by
      intro ret hfirst hnext h
      obtain ⟨hset, hkept, -⟩ := kept_of_bucket h
      exact ⟨_, _, hstep _ h, hset, hkept,
        full_returned (s := { s with now := now i }) hle hfirst hnext⟩
    unfold bucket at hrest hfull
    rw [hphase] at hrest hfull
    simp only [hsize, if_true, hbucket] at hrest hfull
    cases o with
    | none => exact hrest skb rfl
    | some n =>
      simp only [listBuckets] at hrest hfull ⊢
      cases hslots : listSlots s.set.extensions (jiffiesAt A (now i)) skb (n.value.take n.pos) with
      | listed skb' =>
        simp only [hslots] at hrest
        exact hrest skb' rfl
      | noNest =>
        simp only [hslots] at hfull
        exact hfull _ (fun heq => by simp [heq]) (fun hne => by simp [hne]) trivial
      | noPut =>
        simp only [hslots] at hfull
        exact hfull _ (fun heq => by simp [heq]) (fun hne => by simp [hne]) trivial

variable (now) in
/-- `mtype_list` is a run of steps of the listing. -/
theorem mtypeList_moves (hs : s.Sound jhash2 start) (hnow : Monotone now)
    (hclock : ∀ i, now i ≤ start + 2 ^ (A.longBits - 1))
    (hP : ∀ t : Lister A, t.set = s.set → t.kept = s.kept →
      (t.now = s.now ∨ ∃ i, t.now = now i) → P t)
    (set : Core.DomainSet (DomainSet A)) (hset : set.data = s.set) (cb : Core.CbArgs (Htable A))
    (hpriv : cb.priv = some s.table) (hphase : s.phase = .paused cb.arg0)
    (hfirst : s.now ≤ now cb.arg0) (skb : Core.Skb) (hskb : attrDomains skb.attrs = []) :
    ∃ l s', (((listSystem A jhash2 start).within P).startingAt s).Run l s' ∧
      s'.set = s.set ∧ s'.kept = s.kept ∧
      s.Returned s' (mtypeList (fun i => jiffiesAt A (now i)) set cb skb) := by
  have hstep : ∀ s', s.message skb = some s' →
      (((listSystem A jhash2 start).within P).startingAt s).Run ([] ++ [.message skb]) s' := by
    intro s' h
    obtain ⟨hset, hkept, ht⟩ := kept_of_message h
    exact .snoc (.start rfl) ⟨⟨hskb, h⟩, hP s' hset hkept (.inl ht)⟩
  unfold mtypeList
  rw [hpriv, hset]
  unfold message at hstep
  rw [hphase] at hstep
  cases hput : skb.put .adt with
  | none =>
    rw [hput] at hstep
    exact ⟨_, _, hstep _ rfl, rfl, rfl, rfl, rfl⟩
  | some body =>
    rw [hput] at hstep
    have hrest := listBuckets_moves jhash2
      (s := { s with phase := .listing cb.arg0 cb.arg0 skb body }) hs.good.length hnow hclock
      (fun t i hset hkept ht => hP t hset hkept (.inr ⟨i, ht⟩)) le_rfl hfirst rfl
    obtain ⟨l, s', hrun, hset, hkept, hret⟩ := hrest
    exact ⟨_, s', (hstep _ rfl).append hrun, hset, hkept, hret⟩

end

/-! ### Every run -/

def homeOf (home : HashDomainElem → ℕ) (d : List UInt8) : ℕ :=
  if h : d.length = dsetMaxDomainLen then home ⟨d, h⟩ else 0

theorem homeOf_domain (home : HashDomainElem → ℕ) (e : HashDomainElem) :
    homeOf home e.domain = home e := dif_pos e.length_domain

/-- The table is scanned as far as the cursor. -/
structure Reads (jhash2 : HashDomainElem → BitVec 32 → BitVec 32) (start : ℕ) (s : Lister A) : Prop
    extends s.Sound jhash2 start where
  nodup : s.listed.Nodup
  scanned : ∀ i, s.cursor? = some i → Scanned (homeOf (s.home jhash2)) i s.listed

/-- The key is alive in the table that is listed, and listed once its bucket is. -/
structure Keeps (jhash2 : HashDomainElem → BitVec 32 → BitVec 32) (start : ℕ) (e : HashDomainElem)
    (d : Deadline) (s : Lister A) : Prop extends s.Sound jhash2 start where
  live : s.LiveKept start e d
  passed : ∀ i, s.cursor? = some i → s.home jhash2 e < i → e.domain ∈ s.listed
  ended : s.phase = .ended .ok → e.domain ∈ s.listed

/-- The key is not alive in the table that is listed, and not listed. -/
structure Omits (jhash2 : HashDomainElem → BitVec 32 → BitVec 32) (start : ℕ) (e : HashDomainElem)
    (s : Lister A) : Prop extends s.Sound jhash2 start where
  dead : ∀ d, ¬s.LiveKept start e d
  absent : e.domain ∉ s.listed

theorem Reads.step (h : s.Reads jhash2 start) {m : ListMove}
    (hstep : (listSystem A jhash2 start).step s m s') : s'.Reads jhash2 start := by
  obtain ⟨hs', hhome, hprogress, -⟩ := h.toSound.step hstep
  cases hprogress with
  | idle hlisted hcursor =>
    refine ⟨hs', hlisted ▸ h.nodup, ?_⟩
    rw [hcursor, hlisted, hhome]
    exact h.scanned
  | read i new hcursor hnext hlisted hnodup hat =>
    have hread : Scanned (homeOf (s.home jhash2)) (i + 1) s'.listed := by
      rw [hlisted]
      apply (h.scanned i hcursor).read
      · exact hnodup.map fun _ _ => elem_of_domain
      · intro k hk
        obtain ⟨e, he, rfl⟩ := mem_map.mp hk
        rw [homeOf_domain]
        exact hat e he
    refine ⟨hs', hread.nodup, ?_⟩
    intro j hj
    obtain rfl := Option.some.inj (hnext.symm.trans hj)
    rw [hhome]
    exact hread
  | failed e hphase hlisted =>
    refine ⟨hs', h.nodup.sublist hlisted.sublist, ?_⟩
    intro j hj
    rw [cursor?_ended hphase] at hj
    cases hj
  | finished i _ _ hphase hlisted =>
    refine ⟨hs', hlisted ▸ h.nodup, ?_⟩
    intro j hj
    rw [cursor?_ended hphase] at hj
    cases hj

theorem Keeps.step {e : HashDomainElem} {d : Deadline} (h : s.Keeps jhash2 start e d)
    {m : ListMove} (hstep : (listSystem A jhash2 start).step s m s')
    (hlive : s'.set.Live start s'.now e d) : s'.Keeps jhash2 start e d := by
  obtain ⟨hs', hhome, hprogress, htable⟩ := h.toSound.step hstep
  have hkept : s'.LiveKept start e d := by
    rcases htable with htable | htable
    · obtain ⟨a, ha⟩ := hs'.represents
      exact (htable e d).mpr
        ⟨h.live, ((LiveIn.later_iff ha.inRange le_rfl ha.clock.2).mp hlive).2⟩
    · exact (htable e d).mpr hlive
  cases hprogress with
  | idle hlisted hcursor hended =>
    refine ⟨hs', hkept, ?_, ?_⟩
    · rw [hcursor, hlisted, hhome]
      exact h.passed
    · rw [hlisted]
      exact fun hp => h.ended (hended hp)
  | read i new hcursor hnext hlisted hnodup hat hnew =>
    refine ⟨hs', hkept, ?_, ?_⟩
    · intro j hj hlt
      obtain rfl := Option.some.inj (hnext.symm.trans hj)
      rw [hlisted, mem_append]
      rw [hhome] at hlt
      rcases Nat.lt_succ_iff_lt_or_eq.mp hlt with hlt | heq
      · exact .inl (h.passed i hcursor hlt)
      · exact .inr (mem_map_of_mem ((hnew e heq).mpr ⟨d, hkept⟩))
    · intro hp
      rw [cursor?_ended hp] at hnext
      cases hnext
  | failed err hphase =>
    refine ⟨hs', hkept, ?_, ?_⟩
    · intro j hj
      rw [cursor?_ended hphase] at hj
      cases hj
    · intro hp
      rw [hphase] at hp
      cases hp
  | finished i hcursor hsize hphase hlisted =>
    have hmem : e.domain ∈ s'.listed := by
      rw [hlisted]
      apply h.passed i hcursor
      exact (hkey_lt jhash2 e s.set.initval s.table.htableBits).trans_le hsize
    exact ⟨hs', hkept, fun _ _ _ => hmem, fun _ => hmem⟩

theorem Omits.step {e : HashDomainElem} (h : s.Omits jhash2 start e) {m : ListMove}
    (hstep : (listSystem A jhash2 start).step s m s')
    (hdead : ∀ d, ¬s'.set.Live start s'.now e d) : s'.Omits jhash2 start e := by
  obtain ⟨hs', -, hprogress, htable⟩ := h.toSound.step hstep
  have hkept : ∀ d, ¬s'.LiveKept start e d := by
    intro d hd
    rcases htable with htable | htable
    · exact h.dead d ((htable e d).mp hd).1
    · exact hdead d ((htable e d).mp hd)
  refine ⟨hs', hkept, ?_⟩
  cases hprogress with
  | idle hlisted => exact hlisted ▸ h.absent
  | read i new hcursor hnext hlisted hnodup hat hnew =>
    rw [hlisted, mem_append, not_or]
    refine ⟨h.absent, ?_⟩
    intro hmem
    obtain ⟨e', he', hdomain⟩ := mem_map.mp hmem
    obtain rfl := elem_of_domain hdomain
    obtain ⟨d, hd⟩ := (hnew e' (hat e' he')).mp he'
    exact hkept d hd
  | failed err hphase hlisted => exact fun hmem => h.absent (hlisted.subset hmem)
  | finished i _ _ _ hlisted => exact hlisted ▸ h.absent

theorem sent_subset : attrDomains s.sent.flatten <+: s.listed := prefix_append _ _

theorem run_reads {l : List ListMove} (h : (listSystem A jhash2 start).Run l s) :
    s.Reads jhash2 start := by
  refine h.invariant ?_ fun s m s' h hstep => h.step hstep
  intro s hinit
  obtain ⟨hlisted, hcursor⟩ := listed_init hinit
  refine ⟨(sound_init hinit).1, hlisted ▸ nodup_nil, ?_⟩
  intro i hi
  obtain rfl := Option.some.inj (hcursor.symm.trans hi)
  rw [hlisted]
  exact .start

theorem run_nodup {l : List ListMove} (h : (listSystem A jhash2 start).Run l s) :
    (attrDomains s.sent.flatten).Nodup := (run_reads h).nodup.sublist sent_subset.sublist

theorem run_keeps {e : HashDomainElem} {d : Deadline} {l : List ListMove}
    (h : ((listSystem A jhash2 start).within fun s => s.set.Live start s.now e d).Run l s) :
    s.Keeps jhash2 start e d := by
  refine h.invariant ?_ ?_
  · rintro s ⟨hinit, hlive⟩
    obtain ⟨hs, htable⟩ := sound_init hinit
    refine ⟨hs, (htable e d).mpr hlive, ?_, ?_⟩
    · intro i hi hlt
      rw [(listed_init hinit).2] at hi
      obtain rfl := Option.some.inj hi
      exact absurd hlt (Nat.not_lt_zero _)
    · intro hp
      have hcursor := (listed_init hinit).2
      rw [cursor?_ended hp] at hcursor
      cases hcursor
  · rintro s m s' h ⟨hstep, hlive⟩
    exact h.step hstep hlive

end Lister

/-- Whatever is done to a set while it is listed: no domain comes twice; one that is alive all the
time, to one deadline, comes, when the listing ends well; one that is never alive does not. -/
theorem listing_exact (jhash2 : HashDomainElem → BitVec 32 → BitVec 32) (start : ℕ)
    (e : HashDomainElem) :
    (∀ l (s : Lister A), (listSystem A jhash2 start).Run l s →
      (attrDomains s.sent.flatten).Nodup) ∧
    (∀ d l (s : Lister A),
      ((listSystem A jhash2 start).within fun s => s.set.Live start s.now e d).Run l s →
      s.phase = .ended .ok → e.domain ∈ attrDomains s.sent.flatten) ∧
    ∀ l (s : Lister A),
      ((listSystem A jhash2 start).within fun s => ∀ d, ¬s.set.Live start s.now e d).Run l s →
      e.domain ∉ attrDomains s.sent.flatten := by
  refine ⟨?_, ?_, ?_⟩
  · intro l s hrun
    exact Lister.run_nodup hrun
  · intro d l s hrun hended
    have hmem := (Lister.run_keeps hrun).ended hended
    rwa [Lister.listed_ended hended] at hmem
  · intro l s hrun hmem
    have homits : s.Omits jhash2 start e := by
      refine hrun.invariant ?_ ?_
      · rintro s ⟨hinit, hdead⟩
        obtain ⟨hs, htable⟩ := Lister.sound_init hinit
        refine ⟨hs, fun d hd => hdead d ((htable e d).mp hd), ?_⟩
        rw [(Lister.listed_init hinit).1]
        exact not_mem_nil
      · rintro s m s' h ⟨hstep, hdead⟩
        exact h.step hstep hdead
    exact homits.absent (Lister.sent_subset.subset hmem)

instance (now : ℕ) (set : DomainSet A) (e : HashDomainElem) (d : Deadline) :
    Decidable (set.Live start now e d) :=
  inferInstanceAs (Decidable (∃ r ∈ set.table.records, r.elem = e ∧ _ ∧ r.deadline _ start = d))

/-- Three domains, the second without a timeout. -/
def threeCalls : List Call :=
  let add (d : DomainKey) (v : ℕ) : Call :=
    ⟨1, .add d { plainExt with timeout := v } plainFlags noFailure, .ret .ok⟩
  [add keyA 5, add keyB 0, add (keyTwo 99 99 (by decide)) 60]

/-- `mtype_list` at tick `now`, on the set `set` with the table `t` from bucket `arg0` on. -/
def listFrom (now : ℕ) (set : DomainSet x64) (t : Htable x64) (arg0 capacity : ℕ) :
    Ret × ℕ × Core.Skb :=
  mtypeList (fun _ => jiffiesAt x64 now) (coreSet set) ⟨0, none, 0, some t, arg0⟩
    ⟨capacity, false, 0, []⟩

/-- A message of a listing as `listFrom` makes it. -/
theorem listFrom_moves {P : Lister x64 → Prop} {s : Lister x64} (hs : s.Sound firstByte 0)
    {now arg0 capacity next : ℕ} {set : DomainSet x64} {t : Htable x64} (hnow : s.now = now)
    (hclock : now ≤ 2 ^ 63) (hset : s.set = set) (htable : s.table = t)
    (hphase : s.phase = .paused arg0) (hP : ∀ t : Lister x64, t.set = set → t.now = now → P t)
    (hret : (listFrom now set t arg0 capacity).1 = .ok)
    (hnext : (listFrom now set t arg0 capacity).2.1 = next) :
    ∃ l s', (((listSystem x64 firstByte 0).within P).startingAt s).Run l s' ∧ s'.now = now ∧
      s'.set = set ∧ s'.kept = s.kept ∧ s'.sent.length = s.sent.length + 1 ∧
      s'.phase = if next = 0 then .ended .ok else .paused next := by
  subst hnow hset htable hnext
  obtain ⟨l, s', hmoves, hset, hkept, hreturned⟩ := Lister.mtypeList_moves (fun _ => s.now)
    (P := fun t => t.set = s.set ∧ t.now = s.now) hs monotone_const
    (fun _ => by simpa [x64] using hclock) (fun t ht _ hnow => ⟨ht, hnow.elim id fun ⟨_, h⟩ => h⟩)
    (coreSet s.set) rfl ⟨0, none, 0, some s.table, arg0⟩ rfl hphase le_rfl ⟨capacity, false, 0, []⟩ rfl
  obtain ⟨hrun, -, hnow⟩ := System.Run.within_mono (fun t ht => hP t ht.1 ht.2) ⟨rfl, rfl⟩ hmoves
  obtain ⟨hphase', hlen⟩ := hreturned.phase hret
  exact ⟨l, s', hrun, hnow, hset, hkept, hlen, hphase'⟩

/-- A listing of three domains in two messages. In between the set is resized and the first domain
is deleted. -/
theorem listing_exact_resized : ∃ l s,
    ((listSystem x64 firstByte 0).within fun s =>
      s.set.Live 0 s.now keyB.toHashDomainElem ⊤).Run l s ∧
    s.phase = .ended .ok ∧ s.sent.length = 2 ∧ (attrDomains s.sent.flatten).Nodup ∧
    keyB.domain ∈ attrDomains s.sent.flatten := by
  let resize : Call := ⟨2, .resize ⟨fun _ => true, fun _ _ => true⟩, .ret .ok⟩
  let del : Call := ⟨3, .del keyA true, .ret .ok⟩
  let live (s : ℕ × DomainSet x64) : Bool := s.2.Live 0 s.1 keyB.toHashDomainElem ⊤
  obtain ⟨⟨now, set⟩, hrun, hQ⟩ := run_of_applyClocked (l := threeCalls) (Q := fun s =>
    s.1 = 1 && live s && (listFrom 1 s.2 s.2.table 0 400).1 = .ok &&
      (listFrom 1 s.2 s.2.table 0 400).2.1 = 34 &&
      (applyClocked s resize).any fun s1 => s1.1 = 2 && live s1 &&
        (applyClocked s1 del).any fun s2 => s2.1 = 3 && live s2 &&
          (listFrom 3 s2.2 s.2.table 34 pageSize).1 = .ok &&
          (listFrom 3 s2.2 s.2.table 34 pageSize).2.1 = 0) timedSet_init (by decide +kernel)
  simp only [Bool.and_eq_true, decide_eq_true_eq, Option.any_eq_true, live] at hQ
  obtain ⟨⟨⟨⟨rfl, hlive⟩, hret⟩, harg0⟩, ⟨_, set1⟩, hresize, ⟨rfl, hlive1⟩, ⟨_, set2⟩, hdel,
    ⟨⟨rfl, hlive2⟩, hret'⟩, harg0'⟩ := hQ
  let P (s : Lister x64) : Prop := s.set.Live 0 s.now keyB.toHashDomainElem ⊤
  have hP {t : Lister x64} {now : ℕ} {set : DomainSet x64}
      (h : set.Live 0 now keyB.toHashDomainElem ⊤) (hset : t.set = set) (hnow : t.now = now) :
      P t := by
    subst hset hnow
    exact h
  have hinit : (listSystem x64 firstByte 0).init ⟨1, set, none, .paused 0, []⟩ :=
    ⟨⟨_, hrun⟩, rfl, rfl, rfl⟩
  -- the message that ends behind the bucket of the first domain
  obtain ⟨l, s, hmoves, hnow, hset, hkept, hlen, hphase⟩ := listFrom_moves (P := P)
    (Lister.sound_init hinit).1 rfl (show 1 ≤ 2 ^ 63 by decide) rfl rfl rfl (fun t => hP hlive) hret
    harg0
  -- the calls
  have hstep : (listSystem x64 firstByte 0).step s (.call resize) (s.called resize set1) :=
    ⟨set1, by rw [hnow, hset]; exact applyClocked_step hresize, rfl⟩
  have hstep' : (listSystem x64 firstByte 0).step (s.called resize set1) (.call del)
      ((s.called resize set1).called del set2) := ⟨set2, applyClocked_step hdel, rfl⟩
  have hstart : ((listSystem x64 firstByte 0).within P).Run [] ⟨1, set, none, .paused 0, []⟩ :=
    .start ⟨hinit, hlive⟩
  have hcalls := ((hstart.append hmoves).snoc ⟨hstep, hP hlive1 rfl rfl⟩).snoc
    ⟨hstep', hP hlive2 rfl rfl⟩
  -- the message with the rest, of the table that the listing has kept
  have htable : ((s.called resize set1).called del set2).table = set.table := by
    show s.table = _
    rw [Lister.table, hkept, hset]
    rfl
  obtain ⟨l', s', hmoves', -, -, -, hlen', hphase'⟩ := listFrom_moves (P := P)
    (Lister.run_reads (System.Run.of_within hcalls).1).toSound rfl
    (show 3 ≤ 2 ^ 63 by decide) rfl htable hphase (fun t => hP hlive2) hret' harg0'
  have hall := hcalls.append hmoves'
  refine ⟨_, s', hall, hphase', hlen'.trans (congrArg (· + 1) hlen), ?_, ?_⟩
  · exact (listing_exact firstByte 0 keyB.toHashDomainElem).1 _ s' (System.Run.of_within hall).1
  · exact (listing_exact firstByte 0 keyB.toHashDomainElem).2.1 ⊤ _ s' hall hphase'

end

end Dset.Hash
