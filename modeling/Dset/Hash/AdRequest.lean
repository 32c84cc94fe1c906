import Dset.Hash.CallAd
import Dset.Hash.ListRun

/-! The elements of a request to add or to delete. `call_ad` goes on with one element until
`mtype_add` needs no larger table; `domain_set_ad` takes the elements in order and stops at the
first that is refused. The set then holds what the elements before it ask for, and the reply
has its line. -/

namespace Dset.Hash

open Dset.Lib List

variable {A : Arch}

/-! ### One element -/

inductive DsetAdt where
  | add
  | del
  deriving DecidableEq

/-- The clock and the allocations that an element meets; those of an addition by the
`htable_bits` at which they are used. -/
structure AdWorld where
  now : ℕ → ℕ
  add : ℕ → AddAlloc
  resize : ResizeAlloc
  del : Bool
  reply : LineReply

/-- `hash_domain_uadt` for the del command. -/
def uadtDel (jhash2 : HashDomainElem → BitVec 32 → BitVec 32) (jiffies : BitVec A.longBits)
    (alloc : Bool) (set : DomainSet A) (tb : AdtAttrs) : Ret × DomainSet A :=
  hashDomainUadt set tb (fun e => (.err e, set)) fun value _ =>
    mtypeDel jhash2 jiffies alloc set value

/-- `set->variant->uadt` of `call_ad`. -/
def uadt (jhash2 : HashDomainElem → BitVec 32 → BitVec 32) (adt : DsetAdt) (w : AdWorld)
    (set : DomainSet A) (tb : AdtAttrs) (flags : CmdFlags) : Except Fault (Ret × DomainSet A) :=
  let htableBits := set.table.htableBits
  match adt with
  | .add => uadtAdd jhash2 (jiffiesAt A (w.now htableBits)) (w.add htableBits) set tb flags
  | .del => .ok (uadtDel jhash2 (jiffiesAt A (w.now htableBits)) w.del set tb)

/-- The loop of `call_ad`; no result stands for a loop cut off. -/
def callAdRounds (jhash2 : HashDomainElem → BitVec 32 → BitVec 32) (adt : DsetAdt) (w : AdWorld)
    (tb : AdtAttrs) (flags : CmdFlags) :
    ℕ → DomainSet A → Except Fault (Option (Ret × DomainSet A))
  | 0, _ => return none
  | fuel + 1, s => do
    let p ← uadt jhash2 adt w s tb flags
    if p.1 ≠ .err .eagain then return some p
    else
      let q ← mtypeResize jhash2 w.resize p.2
      if q.1 ≠ .ok then return some (q.1, q.2.1)
      else callAdRounds jhash2 adt w tb flags fuel q.2.1

/-- What the sender of a request is told: a return value with the acknowledgement, or the error
and the line in a message of `call_ad`. -/
inductive AdReply where
  | ack (ret : Ret)
  | errline (error : Ret) (lineno : ℕ)
  deriving DecidableEq

/-- What `call_ad` makes of the end of its loop. -/
def adReply (exist useLineno : Bool) (reply : LineReply) (lineno : ℕ) (ret : Ret) : AdReply :=
  match callAdReturn exist (decide (lineno ≠ 0) && useLineno) reply ret with
  | some ret => .ack ret
  | none => .errline ret lineno

def callAd (jhash2 : HashDomainElem → BitVec 32 → BitVec 32) (adt : DsetAdt) (w : AdWorld)
    (tb : AdtAttrs) (flags : CmdFlags) (useLineno : Bool) (fuel : ℕ) (set : DomainSet A) :
    Except Fault (Option (AdReply × DomainSet A)) := do
  let r ← callAdRounds jhash2 adt w tb flags fuel set
  return r.map fun p => (adReply flags.exist useLineno w.reply (tb.lineno.getD 0) p.1, p.2)

/-- The loop of `domain_set_ad` over the attributes of `DSET_ATTR_ADT`; one that is no nested
`DSET_ATTR_DATA` or does not parse has none. -/
def adElements (jhash2 : HashDomainElem → BitVec 32 → BitVec 32) (adt : DsetAdt) (flags : CmdFlags)
    (useLineno : Bool) (fuel : ℕ) :
    List (AdWorld × Option AdtAttrs) → DomainSet A → Except Fault (Option (AdReply × DomainSet A))
  | [], s => return some (.ack .ok, s)
  | (_, none) :: _, s => return some (.ack (.err .dsetErrProtocol), s)
  | (w, some tb) :: l, s => do
    match ← callAd jhash2 adt w tb flags useLineno fuel s with
    | none => return none
    | some (reply, s) =>
      if reply = .ack .ok then adElements jhash2 adt flags useLineno fuel l s
      else return some (reply, s)

/-- `domain_set_ad` with one `DSET_ATTR_DATA`. -/
def adData (jhash2 : HashDomainElem → BitVec 32 → BitVec 32) (adt : DsetAdt) (flags : CmdFlags)
    (useLineno : Bool) (fuel : ℕ) (x : AdWorld × Option AdtAttrs) (s : DomainSet A) :
    Except Fault (Option (AdReply × DomainSet A)) :=
  match x.2 with
  | none => return some (.ack (.err .dsetErrProtocol), s)
  | some tb => callAd jhash2 adt x.1 tb flags useLineno fuel s

/-! ### What an element asks for -/

/-- The domain of a request is a text: behind its first zero byte there are only zero bytes. -/
def AdtAttrs.Padded (tb : AdtAttrs) : Prop :=
  ∀ payload, tb.domain = some payload → ZeroPadded (nlaStrlcpy payload).domain

def KeySet.request (A : Arch) (s : KeySet) (adt : DsetAdt) (now : ℕ)
    (q : HashDomainElem × DomainSetExt) : DeadlineMap.Update HashDomainElem where
  now := now
  key := q.1
  deadline :=
    match adt with
    | .add => some (s.requested A now q.2)
    | .del => none

/-- A key that is known must not be added without `-exist`, one that is not known not be deleted. -/
def DsetAdt.Clash (adt : DsetAdt) (exist : Bool) (known : Prop) : Prop :=
  match adt with
  | .add => known ∧ exist = false
  | .del => ¬known

/-- What a request makes of the live keys, and what it returns. -/
inductive Answer (A : Arch) (adt : DsetAdt) (exist : Bool) (s s' : KeySet) :
    Except Errno (HashDomainElem × DomainSetExt) → Ret → Prop
  | refused (e : Errno) (hlive : s'.live = s.live.remaining s'.now) :
      Answer A adt exist s s' (.error e) (.err e)
  | done (q : HashDomainElem × DomainSetExt)
      (hkey : ¬adt.Clash exist (s.live.remaining s'.now q.1 ≠ none))
      (hlive : s'.live = s.live.update (s.request A adt s'.now q)) :
      Answer A adt exist s s' (.ok q) .ok
  | clash (q : HashDomainElem × DomainSetExt)
      (hkey : adt.Clash exist (s.live.remaining s'.now q.1 ≠ none))
      (hlive : s'.live = s.live.remaining s'.now) :
      Answer A adt exist s s' (.ok q) (.err .dsetErrExist)
  | noRoom (q : HashDomainElem × DomainSetExt) (e : Errno) (hadt : adt = .add)
      (he : e = .dsetErrHashFull ∨ e = .enomem) (hkey : s.live.remaining s'.now q.1 = none)
      (hlive : s'.live = s.live.remaining s'.now) :
      Answer A adt exist s s' (.ok q) (.err e)

/-- A set between two requests. -/
structure Serves (jhash2 : HashDomainElem → BitVec 32 → BitVec 32) (start : ℕ)
    (s : ℕ × DomainSet A) (a : KeySet) : Prop extends Represents jhash2 start s a where
  timeout_le : s.2.withTimeout = true → s.2.timeout ≤ dsetMaxTimeout
  bits_le : s.2.table.htableBits ≤ 31

section
variable {jhash2 : HashDomainElem → BitVec 32 → BitVec 32} {start : ℕ} {s s' : ℕ × DomainSet A}
  {a : KeySet}

theorem Serves.step (h : Serves jhash2 start s a) {c : Call}
    (hstep : (clockedSystem A jhash2 start).step s c s') :
    ∃ a', (keySetSystem A start).step a c a' ∧ Serves jhash2 start s' a' ∧
      s.2.SameConfig s'.2 := by
  obtain ⟨a', habs, hrep⟩ := (represents_simulation jhash2 start).step _ _ _ _ h.toRepresents hstep
  obtain ⟨-, -, -, -, -, hop⟩ := hstep
  obtain ⟨drift, hch⟩ := applyOp_change h.good hop
  refine ⟨a', habs, ⟨hrep, ?_, applyOp_bits h.good h.bits_le hop⟩, hch.toSameConfig⟩
  rw [hch.timeout, DomainSet.withTimeout, hch.extensions]
  exact h.timeout_le

/-- Every run of a set leads to one that serves requests. -/
theorem serves_of_run {l : List Call} (h : (clockedSystem A jhash2 start).Run l s) :
    ∃ a, Serves jhash2 start s a := by
  refine h.invariant (P := fun s => ∃ a, Serves jhash2 start s a) ?_ ?_
  · intro s hs
    obtain ⟨a, -, ha⟩ := (represents_simulation jhash2 start).init _ hs
    have hc := init_created jhash2 hs.2
    exact ⟨a, ha, hc.timeout, hc.bits_le⟩
  · rintro s c s' ⟨a, ha⟩ hstep
    obtain ⟨a', -, ha', -⟩ := ha.step hstep
    exact ⟨a', ha'⟩

theorem Serves.later {now now' : ℕ} {set : DomainSet A} (h : Serves jhash2 start (now, set) a)
    (hle : now ≤ now') (hclock : now' ≤ start + 2 ^ (A.longBits - 1)) :
    Serves jhash2 start (now', set) ⟨a.timeouts, now', a.live.remaining now'⟩ :=
  ⟨h.toRepresents.later hle hclock, h.timeout_le, h.bits_le⟩

end

section
variable {jhash2 : HashDomainElem → BitVec 32 → BitVec 32} {set : DomainSet A} {tb : AdtAttrs}

/-- A request that passes the checks is handed to the set. -/
theorem uadt_eq {adt : DsetAdt} {w : AdWorld} {flags : CmdFlags} :
    uadt jhash2 adt w set tb flags =
      match adtRequest set tb with
      | .error e => .ok (.err e, set)
      | .ok q =>
        match adt with
        | .add => mtypeAdd jhash2 (jiffiesAt A (w.now set.table.htableBits))
            (w.add set.table.htableBits) set q.1 q.2 flags
        | .del => .ok (mtypeDel jhash2 (jiffiesAt A (w.now set.table.htableBits)) w.del set q.1) := by
  unfold uadt
  cases adt with
  | add => exact uadtAdd_eq
  | del =>
    unfold uadtDel adtRequest hashDomainUadt
    cases tb.domain with
    | none => rfl
    | some payload =>
      simp only
      cases domainSetGetExtensions set tb (domainSetInitUext set) <;> rfl

/-- The key of a request is a padded text, and its timeout fits the clock. -/
theorem adtRequest_ok (htb : tb.Padded) (hset : set.withTimeout = true → set.timeout ≤ dsetMaxTimeout)
    {q : HashDomainElem × DomainSetExt} (h : adtRequest set tb = .ok q) :
    ∃ d : DomainKey, q.1 = d.toHashDomainElem ∧
      (set.withTimeout = true → q.2.timeout ≤ dsetMaxTimeout) := by
  unfold adtRequest hashDomainUadt at h
  split at h
  · cases h
  rename_i payload hpayload
  split at h
  · cases h
  rename_i ext hext
  obtain rfl := Except.ok.inj h
  exact ⟨⟨nlaStrlcpy payload, htb payload hpayload⟩, rfl, domainSetGetExtensions_timeout hset hext⟩

/-- A refused addition of a key finds it nowhere. -/
theorem absent_of_refused {start now : ℕ} {o : AddAlloc} {d : HashDomainElem}
    {m : DeadlineMap HashDomainElem} (hg : set.table.Good set.extensions (set.home jhash2))
    (hm : m.Shows (set.Live start now))
    (habsent : ∀ r ∈ (makeRoom (jiffiesAt A now) o.expire set).table.records, r.elem ≠ d) :
    m d = none := by
  by_contra hne
  obtain ⟨deadline, hlive⟩ := (hm.ne_none_iff d).mp hne
  obtain ⟨r, hr, he, -⟩ := ((makeRoom_live start now hg o.expire).2.2 d deadline).mpr hlive
  exact habsent r hr he

section
variable {start t now : ℕ} {a : KeySet} {q : HashDomainElem × DomainSetExt} {d : DomainKey}
  {flags : CmdFlags} {ret : Ret} {set' : DomainSet A}

/-- `mtype_add` answers the request, or it asks for a larger table and changes nothing. -/
theorem Serves.mtypeAdd (h : Serves jhash2 start (t, set) a) (hle : t ≤ now)
    (hclock : now ≤ start + 2 ^ (A.longBits - 1)) (hd : q.1 = d.toHashDomainElem)
    (htimeout : set.withTimeout = true → q.2.timeout ≤ dsetMaxTimeout) {o : AddAlloc}
    (hadd : mtypeAdd jhash2 (jiffiesAt A now) o set q.1 q.2 flags = .ok (ret, set')) :
    ∃ a', Serves jhash2 start (now, set') a' ∧ set.SameConfig set' ∧ a'.timeouts = a.timeouts ∧
      (Answer A .add flags.exist a a' (.ok q) ret ∨ ret = .err .eagain ∧
        a'.live = a.live.remaining a'.now ∧ a.live.remaining a'.now q.1 = none) := by
  have hstep : applyOp jhash2 now set (.add d q.2 flags o) = .ok (.ret ret, set') := by
    simp only [applyOp]
    rw [← hd, hadd]
    rfl
  have hclocked : (clockedSystem A jhash2 start).step (t, set) ⟨now, .add d q.2 flags o, .ret ret⟩
      (now, set') := ⟨hle, hclock, rfl, htimeout, trivial, hstep⟩
  obtain ⟨a', ⟨-, hnow, htime, hexist, hlive⟩, ha', hconfig⟩ := h.step hclocked
  obtain ⟨ret', hret', hres⟩ := applyOp_add h.good hstep
  cases hret'
  rw [← hd] at hexist hlive
  simp only at hnow hexist hlive
  rw [← hnow] at hexist hlive
  refine ⟨a', ha', hconfig, htime, ?_⟩
  cases hres with
  | refused e next he habsent =>
    have hnone : a.live.remaining a'.now q.1 = none := by
      rw [hnow]
      exact absent_of_refused h.good.table (h.later hle hclock).live (hd ▸ habsent)
    rw [if_neg (by simp)] at hlive
    rcases he with rfl | rfl | rfl
    · exact .inl (.noRoom q _ rfl (.inl rfl) hnone hlive)
    · exact .inl (.noRoom q _ rfl (.inr rfl) hnone hlive)
    · exact .inr ⟨rfl, hlive, hnone⟩
  | exist =>
    rw [if_neg (by simp)] at hlive
    exact .inl (.clash q (hexist.mp rfl) hlive)
  | stored =>
    rw [if_pos rfl] at hlive
    refine .inl (.done q (fun hclash => ?_) hlive)
    exact absurd (hexist.mpr hclash) (by simp)

theorem Serves.mtypeDel (h : Serves jhash2 start (t, set) a) (hle : t ≤ now)
    (hclock : now ≤ start + 2 ^ (A.longBits - 1)) (hd : q.1 = d.toHashDomainElem) {alloc : Bool}
    (hdel : mtypeDel jhash2 (jiffiesAt A now) alloc set q.1 = (ret, set')) :
    ∃ a', Serves jhash2 start (now, set') a' ∧ set.SameConfig set' ∧ a'.timeouts = a.timeouts ∧
      Answer A .del flags.exist a a' (.ok q) ret := by
  have hstep : applyOp jhash2 now set (.del d alloc) = .ok (.ret ret, set') := by
    simp only [applyOp]
    rw [← hd, hdel]
    rfl
  have hclocked : (clockedSystem A jhash2 start).step (t, set) ⟨now, .del d alloc, .ret ret⟩
      (now, set') := ⟨hle, hclock, rfl, trivial, trivial, hstep⟩
  obtain ⟨a', ⟨-, hnow, htime, hok, hret, hlive⟩, ha', hconfig⟩ := h.step hclocked
  rw [← hd] at hok hlive
  simp only at hnow hok hlive
  rw [← hnow] at hok hlive
  refine ⟨a', ha', hconfig, htime, ?_⟩
  rcases hret with rfl | rfl
  · exact .done q (not_not.mpr (hok.mp rfl)) hlive
  · have hnone : a.live.remaining a'.now q.1 = none := by
      by_contra hne
      cases hok.mpr hne
    refine .clash q (not_not.mpr hnone) (hlive.trans ?_)
    unfold DeadlineMap.erase
    rw [← hnone]
    exact Function.update_eq_self _ _

/-- One round of `call_ad` answers the request, or asks for a larger table and changes nothing. -/
theorem Serves.uadt {adt : DsetAdt} {w : AdWorld} (h : Serves jhash2 start (t, set) a)
    (htb : tb.Padded) (hle : t ≤ w.now set.table.htableBits)
    (hclock : w.now set.table.htableBits ≤ start + 2 ^ (A.longBits - 1))
    (hp : uadt jhash2 adt w set tb flags = .ok (ret, set')) :
    ∃ a', Serves jhash2 start (w.now set.table.htableBits, set') a' ∧ set.SameConfig set' ∧
      a'.timeouts = a.timeouts ∧ (Answer A adt flags.exist a a' (adtRequest set tb) ret ∨
        ret = .err .eagain ∧ adt = .add ∧ a'.live = a.live.remaining a'.now ∧
          ∃ q, adtRequest set tb = .ok q ∧ a.live.remaining a'.now q.1 = none) := by
  rw [uadt_eq] at hp
  cases hq : adtRequest set tb with
  | error e =>
    rw [hq] at hp
    obtain ⟨rfl, rfl⟩ := Prod.mk.inj (Except.ok.inj hp)
    exact ⟨_, h.later hle hclock, .refl set, rfl, .inl (.refused e rfl)⟩
  | ok q =>
    rw [hq] at hp
    obtain ⟨d, hd, htimeout⟩ := adtRequest_ok htb h.timeout_le hq
    cases adt with
    | add =>
      obtain ⟨a', ha', hconfig, htime, hans⟩ := h.mtypeAdd hle hclock hd htimeout hp
      refine ⟨a', ha', hconfig, htime, hans.imp id fun hagain => ?_⟩
      exact ⟨hagain.1, rfl, hagain.2.1, q, rfl, hagain.2.2⟩
    | del =>
      obtain ⟨a', ha', hconfig, htime, hans⟩ := h.mtypeDel hle hclock hd (Except.ok.inj hp)
      exact ⟨a', ha', hconfig, htime, .inl hans⟩

end

/-! ### The rounds of one element -/

/-- The ticks of an element: they do not decrease from round to round. -/
structure AdWorld.Timely (w : AdWorld) (lo hi : ℕ) : Prop where
  mono : Monotone w.now
  window : ∀ b, lo ≤ w.now b ∧ w.now b ≤ hi

theorem Answer.of_later {adt : DsetAdt} {exist : Bool} {s s₁ s' : KeySet} {now : ℕ}
    {r : Except Errno (HashDomainElem × DomainSetExt)} {ret : Ret} (htime : s₁.timeouts = s.timeouts)
    (hlive : s₁.live = s.live.remaining now) (hle : now ≤ s'.now)
    (h : Answer A adt exist s₁ s' r ret) : Answer A adt exist s s' r ret := by
  have hrem : s₁.live.remaining s'.now = s.live.remaining s'.now := by
    rw [hlive, DeadlineMap.remaining_remaining _ hle]
  have hreq (q : HashDomainElem × DomainSetExt) :
      s₁.live.update (s₁.request A adt s'.now q) = s.live.update (s.request A adt s'.now q) := by
    have hsame : s₁.request A adt s'.now q = s.request A adt s'.now q := by
      unfold KeySet.request KeySet.requested
      rw [htime]
    rw [hsame]
    unfold DeadlineMap.update
    rw [show (s.request A adt s'.now q).now = s'.now from rfl, hrem]
  cases h with
  | refused e hlive' => exact .refused e (hlive'.trans hrem)
  | done q hkey hlive' => exact .done q (hrem ▸ hkey) (hlive'.trans (hreq q))
  | clash q hkey hlive' => exact .clash q (hrem ▸ hkey) (hlive'.trans hrem)
  | noRoom q e hadt he hkey hlive' =>
    exact .noRoom q e hadt he (hrem ▸ hkey) (hlive'.trans hrem)

theorem Answer.ne_eagain {adt : DsetAdt} {exist : Bool} {s s' : KeySet} {ret : Ret}
    (h : Answer A adt exist s s' (adtRequest set tb) ret) : ret ≠ .err .eagain := by
  rintro rfl
  generalize hr : adtRequest set tb = r at h
  cases h with
  | refused => exact adtRequest_error hr rfl
  | noRoom q e hadt he => rcases he with he | he <;> cases he

/-- A set that asks for a larger table keeps its own. -/
theorem again_bits {w : AdWorld} {flags : CmdFlags} {set' : DomainSet A}
    (hg : set.table.Good set.extensions (set.home jhash2))
    (hp : uadt jhash2 .add w set tb flags = .ok (.err .eagain, set')) :
    set'.table.htableBits = set.table.htableBits := by
  have hround := uadtAdd_round hg (jiffiesAt A (w.now set.table.htableBits))
    (w.add set.table.htableBits) tb flags
  rw [show uadtAdd jhash2 _ _ set tb flags = _ from hp] at hround
  cases hround with
  | done _ _ hret => exact absurd rfl hret
  | again q s hq hfull hown hs =>
    rw [hs]
    exact makeRoom_bits _ _ _

section
variable {start t now hi : ℕ} {a : KeySet} {adt : DsetAdt} {w : AdWorld} {flags : CmdFlags}
  {ret : Ret} {set' : DomainSet A}

theorem Serves.mtypeResize (h : Serves jhash2 start (now, set) a)
    {p : Ret × DomainSet A × Option (Htable A)} {alloc : ResizeAlloc}
    (hp : mtypeResize jhash2 alloc set = .ok p) :
    ∃ a', Serves jhash2 start (now, p.2.1) a' ∧ set.SameConfig p.2.1 ∧
      a'.timeouts = a.timeouts ∧ a'.live = a.live.remaining now ∧
      (p.1 = .ok ∨ p.1 = .err .dsetErrHashFull ∨ p.1 = .err .enomem) := by
  have hstep : applyOp jhash2 now set (.resize alloc) = .ok (.ret p.1, p.2.1) := by
    simp only [applyOp, hp]
    rfl
  have hclocked : (clockedSystem A jhash2 start).step (now, set) ⟨now, .resize alloc, .ret p.1⟩
      (now, p.2.1) := ⟨le_rfl, h.clock.2, rfl, trivial, trivial, hstep⟩
  obtain ⟨a', ⟨-, -, htime, hret, hlive⟩, ha', hconfig⟩ := h.step hclocked
  exact ⟨a', ha', hconfig, htime, hlive, hret⟩

theorem callAdRounds_succ {set₁ : DomainSet A} {ret : Ret} (fuel : ℕ)
    (h : uadt jhash2 adt w set tb flags = .ok (ret, set₁)) :
    callAdRounds jhash2 adt w tb flags (fuel + 1) set =
      if ret ≠ .err .eagain then .ok (some (ret, set₁))
      else mtypeResize jhash2 w.resize set₁ >>= fun q =>
        if q.1 ≠ .ok then .ok (some (q.1, q.2.1))
        else callAdRounds jhash2 adt w tb flags fuel q.2.1 := by
  conv_lhs => unfold callAdRounds
  rw [h]
  rfl

variable (adt flags) in
/-- A round answers the request, or the next one has a larger table and the same live keys, or
there is no larger table. -/
theorem Serves.round (h : Serves jhash2 start (t, set) a) (htb : tb.Padded)
    (hle : t ≤ w.now set.table.htableBits)
    (hclock : w.now set.table.htableBits ≤ start + 2 ^ (A.longBits - 1)) (fuel : ℕ) :
    let n := w.now set.table.htableBits
    let r := callAdRounds jhash2 adt w tb flags (fuel + 1) set
    (∃ ret set' a', r = .ok (some (ret, set')) ∧ Serves jhash2 start (n, set') a' ∧
      set.SameConfig set' ∧ a'.timeouts = a.timeouts ∧
      Answer A adt flags.exist a a' (adtRequest set tb) ret) ∨
    adt = .add ∧ ((∃ set' a', r = callAdRounds jhash2 adt w tb flags fuel set' ∧
      Serves jhash2 start (n, set') a' ∧ set.SameConfig set' ∧ a'.timeouts = a.timeouts ∧
      a'.live = a.live.remaining n ∧ set.table.htableBits < set'.table.htableBits) ∨
    r = .error .zeroSizePtr) := by
  intro n r
  cases hp : Hash.uadt jhash2 adt w set tb flags with
  | error e =>
    exfalso
    rw [uadt_eq] at hp
    cases hq : adtRequest set tb with
    | error e' => simp [hq] at hp
    | ok q =>
      obtain ⟨d, hd, -⟩ := adtRequest_ok htb h.timeout_le hq
      cases adt with
      | add =>
        simp only [hq, hd] at hp
        rcases mtypeAdd_result (jiffiesAt A (w.now set.table.htableBits))
          (w.add set.table.htableBits) q.2 flags h.good.table d.padded with ⟨hforce, -⟩ | ⟨_, _, heq, -⟩
        · exact absurd (h.forceadd.symm.trans hforce) Bool.false_ne_true
        · rw [hp] at heq
          cases heq
      | del => simp [hq] at hp
  | ok p =>
    obtain ⟨ret, set₁⟩ := p
    obtain ⟨a₁, ha₁, hconfig, htime, hans⟩ := h.uadt htb hle hclock hp
    have hr : r = _ := callAdRounds_succ fuel hp
    by_cases hret : ret = .err .eagain
    swap
    · -- the round returns
      rw [if_pos hret] at hr
      exact .inl ⟨ret, set₁, a₁, hr, ha₁, hconfig, htime, hans.resolve_right fun hagain => hret hagain.1⟩
    rw [if_neg (not_not.mpr hret)] at hr
    obtain ⟨hadt, hlive, q, hq, hnone⟩ : adt = .add ∧ a₁.live = a.live.remaining a₁.now ∧
        ∃ q, adtRequest set tb = .ok q ∧ a.live.remaining a₁.now q.1 = none := by
      rcases hans with hans | ⟨-, hadt, hlive, hnone⟩
      · exact absurd hret hans.ne_eagain
      · exact ⟨hadt, hlive, hnone⟩
    cases hres : Hash.mtypeResize jhash2 w.resize set₁ with
    | error e =>
      rw [hres, (mtypeResize_error ha₁.good.table hres).1] at hr
      exact .inr ⟨hadt, .inr hr⟩
    | ok p =>
      obtain ⟨a₂, ha₂, hconfig₂, htime₂, hlive₂, hret₂⟩ := ha₁.mtypeResize hres
      have hnow : a₁.now = n := ha₁.now
      have hnow₂ : a₂.now = n := ha₂.now
      have hsame : a₂.live = a.live.remaining n := by
        rw [hlive₂, hlive, hnow, DeadlineMap.remaining_remaining _ le_rfl]
      rw [hres] at hr
      by_cases hok : p.1 = .ok
      · refine .inr ⟨hadt, .inl ⟨p.2.1, a₂, ?_, ha₂, hconfig.trans hconfig₂, htime₂.trans htime,
          hsame, ?_⟩⟩
        · rw [hr]
          exact if_neg (not_not.mpr hok)
        · rw [← again_bits h.good.table (hadt ▸ hret ▸ hp)]
          exact (mtypeResize_refilled ha₁.good hres hok).bits_lt
      · -- the resizing fails
        refine .inl ⟨p.1, p.2.1, a₂, hr.trans (if_pos hok), ha₂, hconfig.trans hconfig₂,
          htime₂.trans htime, ?_⟩
        rw [hq]
        rw [hnow] at hnone
        rcases hret₂.resolve_left hok with he | he <;> rw [he]
        · exact .noRoom q _ hadt (.inl rfl) (hnow₂.symm ▸ hnone) (hnow₂.symm ▸ hsame)
        · exact .noRoom q _ hadt (.inr rfl) (hnow₂.symm ▸ hnone) (hnow₂.symm ▸ hsame)

/-- The rounds of `call_ad` answer the request. -/
theorem Serves.callAdRounds (h : Serves jhash2 start (t, set) a) (htb : tb.Padded)
    (hmono : Monotone w.now) (hhi : ∀ b, w.now b ≤ hi) (hclock : hi ≤ start + 2 ^ (A.longBits - 1))
    (hle : t ≤ w.now set.table.htableBits) {fuel : ℕ}
    (hr : callAdRounds jhash2 adt w tb flags fuel set = .ok (some (ret, set'))) :
    ∃ n a', t ≤ n ∧ n ≤ hi ∧ Serves jhash2 start (n, set') a' ∧ set.SameConfig set' ∧
      a'.timeouts = a.timeouts ∧ Answer A adt flags.exist a a' (adtRequest set tb) ret := by
  induction fuel generalizing t set a with
  | zero => cases hr
  | succ fuel ih =>
    have hb := hhi set.table.htableBits
    rcases h.round adt flags htb hle (hb.trans hclock) fuel with ⟨ret₁, set₁, a₁, heq, ha₁, hconfig, htime, hans⟩ |
      ⟨-, ⟨set₁, a₁, heq, ha₁, hconfig, htime, hlive, hbits⟩ | heq⟩ <;> rw [heq] at hr
    · obtain ⟨rfl, rfl⟩ := Prod.mk.inj (Option.some.inj (Except.ok.inj hr))
      exact ⟨_, a₁, hle, hb, ha₁, hconfig, htime, hans⟩
    · obtain ⟨n, a', hn, hn', ha', hconfig', htime', hans'⟩ := ih ha₁ (hmono hbits.le) hr
      refine ⟨n, a', hle.trans hn, hn', ha', hconfig.trans hconfig', htime'.trans htime, ?_⟩
      rw [adtRequest_congr hconfig] at hans'
      exact hans'.of_later htime hlive (ha'.now ▸ hn)
    · cases hr

/-- The rounds of `call_ad` can go wrong only for want of a larger table. -/
theorem Serves.callAdRounds_error (h : Serves jhash2 start (t, set) a) (htb : tb.Padded)
    (hmono : Monotone w.now) (hclock : ∀ b, w.now b ≤ start + 2 ^ (A.longBits - 1))
    (hle : t ≤ w.now set.table.htableBits) {fuel : ℕ} {e : Fault}
    (hr : Hash.callAdRounds jhash2 adt w tb flags fuel set = .error e) : e = .zeroSizePtr := by
  induction fuel generalizing t set a with
  | zero => cases hr
  | succ fuel ih =>
    rcases h.round adt flags htb hle (hclock _) fuel with ⟨ret₁, set₁, a₁, heq, -⟩ |
      ⟨-, ⟨set₁, a₁, heq, ha₁, -, -, -, hbits⟩ | heq⟩ <;> rw [heq] at hr
    · cases hr
    · exact ih ha₁ (hmono hbits.le) hr
    · exact (Except.error.inj hr).symm

/-- The rounds of an addition are those of its loop. -/
theorem callAdRounds_add (fuel : ℕ) (set : DomainSet A) :
    callAdRounds jhash2 .add w tb flags fuel set =
      (callAdLoop jhash2 w.now w.add w.resize tb flags fuel set).map
        (Option.map fun r => (r.ret, r.set)) := by
  induction fuel generalizing set with
  | zero => rfl
  | succ fuel ih =>
    unfold callAdRounds callAdLoop uadt
    simp only [bind, Except.bind, pure, Except.pure]
    cases uadtAdd jhash2 (jiffiesAt A (w.now set.table.htableBits)) (w.add set.table.htableBits) set tb
      flags with
    | error e => rfl
    | ok p =>
      simp only
      split
      · rfl
      cases Hash.mtypeResize jhash2 w.resize p.2 with
      | error e => rfl
      | ok q =>
        simp only
        split
        · rfl
        rw [ih]
        cases callAdLoop jhash2 w.now w.add w.resize tb flags fuel q.2.1 with
        | error e => rfl
        | ok r => cases r <;> rfl

variable (adt flags) in
/-- With a round for every size the rounds end, unless no size that `htable_size` knows will do. -/
theorem Serves.callAdRounds_ends (h : Serves jhash2 start (t, set) a) (htb : tb.Padded)
    (hmono : Monotone w.now) (hclock : ∀ b, w.now b ≤ start + 2 ^ (A.longBits - 1))
    (hle : t ≤ w.now set.table.htableBits) {fuel : ℕ} (hfuel : 32 ≤ fuel) :
    (∃ p, Hash.callAdRounds jhash2 adt w tb flags fuel set = .ok (some p)) ∨
      adt = .add ∧ Hash.callAdRounds jhash2 adt w tb flags fuel set = .error .zeroSizePtr ∧
        NoSize jhash2 w.now w.add tb set := by
  cases adt with
  | add =>
    cases hr : Hash.callAdRounds jhash2 .add w tb flags fuel set with
    | error e =>
      obtain rfl := h.callAdRounds_error htb hmono hclock hle hr
      refine .inr ⟨rfl, rfl, ?_⟩
      rw [callAdRounds_add] at hr
      cases hloop : callAdLoop jhash2 w.now w.add w.resize tb flags fuel set with
      | error e =>
        rw [hloop] at hr
        exact callAdLoop_fault h.good (hloop.trans (congrArg Except.error (Except.error.inj hr)))
      | ok r =>
        rw [hloop] at hr
        cases hr
    | ok r =>
      have hends : callAdLoop jhash2 w.now w.add w.resize tb flags fuel set ≠ .ok none :=
        callAdLoop_ends h.good h.bits_le (by omega)
      rw [callAdRounds_add] at hr
      cases hloop : callAdLoop jhash2 w.now w.add w.resize tb flags fuel set with
      | error e =>
        rw [hloop] at hr
        cases hr
      | ok r' =>
        rw [hloop] at hr
        cases r' with
        | none => exact absurd hloop hends
        | some r' => exact .inl ⟨_, congrArg Except.ok (Except.ok.inj hr).symm⟩
  | del =>
    obtain ⟨fuel, rfl⟩ : ∃ k, fuel = k + 1 := ⟨fuel - 1, by omega⟩
    rcases h.round .del flags htb hle (hclock _) fuel with
      ⟨ret₁, set₁, a₁, heq, -⟩ | ⟨hadt, -⟩
    · exact .inl ⟨_, heq⟩
    · cases hadt

end

end

/-! ### One element and its reply -/

theorem adReply_ok_iff {exist : Bool} (useLineno : Bool) (reply : LineReply) (lineno : ℕ)
    {ret : Ret} :
    adReply exist useLineno reply lineno ret = .ack .ok ↔
      ret = .ok ∨ ret = .err .dsetErrExist ∧ exist = true := by
  unfold adReply callAdReturn
  by_cases hok : ret = .ok ∨ ret = .err .dsetErrExist ∧ exist = true
  · simp [hok]
  · rw [if_neg hok]
    refine iff_of_false ?_ hok
    have hret : ret ≠ .ok := fun heq => hok (.inl heq)
    cases decide (lineno ≠ 0) && useLineno
    · simpa using hret
    · cases reply <;> simp

theorem adtRequest_error_ne {set : DomainSet A} {tb : AdtAttrs} {e : Errno}
    (h : adtRequest set tb = .error e) : e ≠ .dsetErrExist := by
  rintro rfl
  unfold adtRequest hashDomainUadt at h
  split at h
  · cases h
  split at h
  · rename_i e' he
    obtain rfl := Except.error.inj h
    unfold domainSetGetExtensions at he
    split at he
    · cases he
    rcases bind_error he with he | ⟨_, -, he⟩
    rcases bind_error he with he | ⟨_, -, he⟩
    rcases bind_error he with he | ⟨_, -, he⟩
    rcases bind_error he with he | ⟨_, -, he⟩
    rcases bind_error he with he | ⟨_, -, he⟩
    all_goals exact absurd (extAttr_error he) (by decide)
  · cases h

/-- A request that is answered without an error, also because it may be, is carried out. -/
theorem Answer.update {set : DomainSet A} {tb : AdtAttrs} {adt : DsetAdt} {exist : Bool}
    {s s' : KeySet} {ret : Ret} (h : Answer A adt exist s s' (adtRequest set tb) ret)
    (hret : ret = .ok ∨ ret = .err .dsetErrExist ∧ exist = true) :
    ∃ q, adtRequest set tb = .ok q ∧ s'.live = s.live.update (s.request A adt s'.now q) := by
  generalize hr : adtRequest set tb = r at h
  cases h with
  | refused e =>
    rcases hret with hret | ⟨hret, -⟩
    · cases hret
    · exact absurd (Ret.err.inj hret) (adtRequest_error_ne hr)
  | done q hkey hlive => exact ⟨q, rfl, hlive⟩
  | clash q hkey hlive =>
    rcases hret with hret | ⟨-, hexist⟩
    · cases hret
    cases adt with
    | add => exact absurd (hexist.symm.trans hkey.2) (by decide)
    | del =>
      refine ⟨q, rfl, hlive.trans ?_⟩
      have hnone : s.live.remaining s'.now q.1 = none := not_not.mp hkey
      show _ = Function.update (s.live.remaining s'.now) q.1 none
      rw [← hnone]
      exact (Function.update_eq_self _ _).symm
  | noRoom q e hadt he =>
    rcases hret with hret | ⟨hret, -⟩
    · cases hret
    · rcases he with rfl | rfl <;> cases hret

theorem Answer.unchanged {adt : DsetAdt} {exist : Bool} {s s' : KeySet}
    {r : Except Errno (HashDomainElem × DomainSetExt)} {ret : Ret}
    (h : Answer A adt exist s s' r ret) (hret : ret ≠ .ok) :
    s'.live = s.live.remaining s'.now := by
  cases h with
  | done => exact absurd rfl hret
  | refused _ hlive | clash _ _ hlive | noRoom _ _ _ _ _ hlive => exact hlive

section
variable {jhash2 : HashDomainElem → BitVec 32 → BitVec 32} {start t lo hi fuel : ℕ}
  {set set' : DomainSet A} {a : KeySet} {adt : DsetAdt} {w : AdWorld} {tb : AdtAttrs}
  {flags : CmdFlags} {useLineno : Bool} {reply : AdReply}

variable (adt flags useLineno) in
/-- `call_ad` answers a request. -/
theorem Serves.callAd (h : Serves jhash2 start (t, set) a) (htb : tb.Padded)
    (hw : w.Timely t hi) (hclock : hi ≤ start + 2 ^ (A.longBits - 1)) (hfuel : 32 ≤ fuel) :
    (∃ ret set' n a', callAd jhash2 adt w tb flags useLineno fuel set = .ok (some
        (adReply flags.exist useLineno w.reply (tb.lineno.getD 0) ret, set')) ∧
      t ≤ n ∧ n ≤ hi ∧ Serves jhash2 start (n, set') a' ∧ set.SameConfig set' ∧
      a'.timeouts = a.timeouts ∧ Answer A adt flags.exist a a' (adtRequest set tb) ret) ∨
    adt = .add ∧ NoSize jhash2 w.now w.add tb set ∧
      callAd jhash2 adt w tb flags useLineno fuel set = .error .zeroSizePtr := by
  have hhi (b : ℕ) : w.now b ≤ hi := (hw.window b).2
  have hle : t ≤ w.now set.table.htableBits := (hw.window _).1
  rcases h.callAdRounds_ends adt flags htb hw.mono
    (fun b => (hhi b).trans hclock) hle hfuel with ⟨⟨ret, set'⟩, hr⟩ | ⟨hadt, hr, hno⟩
  · obtain ⟨n, a', hn, hn', ha', hconfig, htime, hans⟩ :=
      h.callAdRounds htb hw.mono hhi hclock hle hr
    refine .inl ⟨ret, set', n, a', ?_, hn, hn', ha', hconfig, htime, hans⟩
    unfold Hash.callAd
    rw [hr]
    rfl
  · refine .inr ⟨hadt, hno, ?_⟩
    unfold Hash.callAd
    rw [hr]
    rfl

end

/-! ### The elements of a request -/

/-- Elements met one after the other between two ticks. -/
def TimelyElements : ℕ → List (AdWorld × Option AdtAttrs) → ℕ → Prop
  | lo, [], hi => lo ≤ hi
  | lo, x :: l, hi => ∃ mid, x.1.Timely lo mid ∧ TimelyElements mid l hi

theorem TimelyElements.of_le {lo lo' hi : ℕ} {els : List (AdWorld × Option AdtAttrs)}
    (h : TimelyElements lo' els hi) (hle : lo ≤ lo') : TimelyElements lo els hi := by
  cases els with
  | nil => exact hle.trans h
  | cons x els =>
    obtain ⟨mid, hw, hrest⟩ := h
    exact ⟨mid, ⟨hw.mono, fun b => ⟨hle.trans (hw.window b).1, (hw.window b).2⟩⟩, hrest⟩

theorem TimelyElements.le {lo hi : ℕ} {els : List (AdWorld × Option AdtAttrs)}
    (h : TimelyElements lo els hi) : lo ≤ hi := by
  induction els generalizing lo with
  | nil => exact h
  | cons x els ih =>
    obtain ⟨mid, hw, hrest⟩ := h
    exact ((hw.window 0).1.trans (hw.window 0).2).trans (ih hrest)

/-- An element of a request to the set asks for an update. -/
def Asks (set : DomainSet A) (s : KeySet) (adt : DsetAdt) (x : AdWorld × Option AdtAttrs)
    (u : DeadlineMap.Update HashDomainElem) : Prop :=
  ∃ tb q, x.2 = some tb ∧ adtRequest set tb = .ok q ∧ u = s.request A adt u.now q

/-- The first elements are carried out in order, and nothing else is. -/
structure CarriedOut (set : DomainSet A) (adt : DsetAdt) (s s' : KeySet)
    (els : List (AdWorld × Option AdtAttrs)) (us : List (DeadlineMap.Update HashDomainElem)) :
    Prop where
  asked : Forall₂ (Asks set s adt) (els.take us.length) us
  ticks : (s.now :: us.map DeadlineMap.Update.now ++ [s'.now]).Pairwise (· ≤ ·)
  live : s'.live = (s.live.updates us).remaining s'.now

/-- An element is refused, and the reply says why. -/
def Refuses (set : DomainSet A) (adt : DsetAdt) (exist useLineno : Bool) (s s' : KeySet)
    (x : AdWorld × Option AdtAttrs) (reply : AdReply) : Prop :=
  (x.2 = none ∧ reply = .ack (.err .dsetErrProtocol)) ∨
    ∃ tb ret, x.2 = some tb ∧ Answer A adt exist s s' (adtRequest set tb) ret ∧ ret ≠ .ok ∧
      ¬(ret = .err .dsetErrExist ∧ exist = true) ∧
      reply = adReply exist useLineno x.1.reply (tb.lineno.getD 0) ret

/-- All elements are carried out, or those before one that is refused. -/
def ElementsOutcome (set : DomainSet A) (adt : DsetAdt) (exist useLineno : Bool) (s s' : KeySet)
    (els : List (AdWorld × Option AdtAttrs)) (reply : AdReply) : Prop :=
  ∃ us, CarriedOut set adt s s' els us ∧ (reply = .ack .ok ∧ us.length = els.length ∨
    ∃ x, els[us.length]? = some x ∧
      Refuses set adt exist useLineno { s with live := s.live.updates us } s' x reply)

section
variable {set set₁ : DomainSet A} {adt : DsetAdt} {exist useLineno : Bool} {s s₁ s' : KeySet}
  {x : AdWorld × Option AdtAttrs} {els : List (AdWorld × Option AdtAttrs)} {reply : AdReply}

/-- The state before an answer counts by its keys alone. -/
theorem Answer.congr {r : Except Errno (HashDomainElem × DomainSetExt)} {ret : Ret}
    (htime : s₁.timeouts = s.timeouts) (hlive : s₁.live = s.live)
    (h : Answer A adt exist s₁ s' r ret) : Answer A adt exist s s' r ret := by
  obtain ⟨timeouts, now, live⟩ := s
  obtain ⟨timeouts₁, now₁, live₁⟩ := s₁
  subst htime hlive
  cases h with
  | refused e h => exact .refused e h
  | done q hkey h => exact .done q hkey h
  | clash q hkey h => exact .clash q hkey h
  | noRoom q e hadt he hkey h => exact .noRoom q e hadt he hkey h

theorem Asks.congr {u : DeadlineMap.Update HashDomainElem} (hconfig : set.SameConfig set₁)
    (htime : s₁.timeouts = s.timeouts) (h : Asks set₁ s₁ adt x u) : Asks set s adt x u := by
  obtain ⟨tb, q, hx, hq, hu⟩ := h
  refine ⟨tb, q, hx, (adtRequest_congr hconfig).symm.trans hq, hu.trans ?_⟩
  unfold KeySet.request KeySet.requested
  rw [htime]

theorem Refuses.congr (hconfig : set.SameConfig set₁) (htime : s₁.timeouts = s.timeouts)
    (hlive : s₁.live = s.live) (h : Refuses set₁ adt exist useLineno s₁ s' x reply) :
    Refuses set adt exist useLineno s s' x reply := by
  refine h.imp id ?_
  rintro ⟨tb, ret, hx, hans, hret⟩
  rw [adtRequest_congr hconfig] at hans
  exact ⟨tb, ret, hx, hans.congr htime hlive, hret⟩

theorem ElementsOutcome.congr (hconfig : set.SameConfig set₁)
    (h : ElementsOutcome set₁ adt exist useLineno s s' els reply) :
    ElementsOutcome set adt exist useLineno s s' els reply := by
  obtain ⟨us, ⟨hasked, hticks, hafter⟩, hend⟩ := h
  refine ⟨us, ⟨hasked.imp fun _ _ h => h.congr hconfig rfl, hticks, hafter⟩, hend.imp_right ?_⟩
  rintro ⟨x, hx, href⟩
  exact ⟨x, hx, href.congr hconfig rfl rfl⟩

/-- No time passes over the rest of the elements before the first of them. -/
theorem CarriedOut.nil (hle : s.now ≤ s'.now) (hlive : s'.live = s.live.remaining s'.now) :
    CarriedOut set adt s s' els [] :=
  ⟨.nil, by simpa using hle, hlive⟩

theorem ElementsOutcome.cons {u : DeadlineMap.Update HashDomainElem} (hask : Asks set s adt x u)
    (hlive : s₁.live = s.live.update u) (hnow : u.now = s₁.now) (hle : s.now ≤ s₁.now)
    (hconfig : set.SameConfig set₁) (htime : s₁.timeouts = s.timeouts)
    (h : ElementsOutcome set₁ adt exist useLineno s₁ s' els reply) :
    ElementsOutcome set adt exist useLineno s s' (x :: els) reply := by
  obtain ⟨us, ⟨hasked, hticks, hafter⟩, hend⟩ := h
  have hupdates : s.live.updates (u :: us) = s₁.live.updates us := by
    rw [hlive]
    rfl
  refine ⟨u :: us, ⟨?_, ?_, hafter.trans (by rw [hupdates])⟩, ?_⟩
  · exact .cons hask (hasked.imp fun _ _ h => h.congr hconfig htime)
  · rw [map_cons, hnow]
    refine pairwise_cons.mpr ⟨fun n hn => ?_, hticks⟩
    rcases mem_cons.mp hn with rfl | hn
    · exact hle
    · exact hle.trans ((pairwise_cons.mp hticks).1 n hn)
  · rw [length_cons, length_cons, hupdates]
    refine hend.imp (And.imp_right (congrArg (· + 1))) ?_
    rintro ⟨x', hx', href⟩
    refine ⟨x', hx', Refuses.congr hconfig ?_ ?_ href⟩
    · exact htime
    · rfl

end

/-- The element that comes next, and the others if it is not refused. -/
theorem adElements_cons {jhash2 : HashDomainElem → BitVec 32 → BitVec 32} {fuel : ℕ}
    {set set₁ : DomainSet A} {adt : DsetAdt} {w : AdWorld} {tb : AdtAttrs} {flags : CmdFlags}
    {useLineno : Bool} {reply : AdReply} (els : List (AdWorld × Option AdtAttrs))
    (h : callAd jhash2 adt w tb flags useLineno fuel set = .ok (some (reply, set₁))) :
    adElements jhash2 adt flags useLineno fuel ((w, some tb) :: els) set =
      if reply = .ack .ok then adElements jhash2 adt flags useLineno fuel els set₁
      else .ok (some (reply, set₁)) := by
  conv_lhs => unfold adElements
  rw [h]
  rfl

theorem adData_eq (jhash2 : HashDomainElem → BitVec 32 → BitVec 32) (adt : DsetAdt)
    (flags : CmdFlags) (useLineno : Bool) (fuel : ℕ) (x : AdWorld × Option AdtAttrs)
    (set : DomainSet A) :
    adData jhash2 adt flags useLineno fuel x set =
      adElements jhash2 adt flags useLineno fuel [x] set := by
  obtain ⟨w, tb⟩ := x
  cases tb with
  | none => rfl
  | some tb =>
    show callAd jhash2 adt w tb flags useLineno fuel set = _
    cases h : callAd jhash2 adt w tb flags useLineno fuel set with
    | error e =>
      unfold adElements
      rw [h]
      rfl
    | ok r =>
      cases r with
      | none =>
        unfold adElements
        rw [h]
        rfl
      | some p =>
        rw [adElements_cons [] h]
        split
        · rename_i hok
          obtain ⟨reply, set₁⟩ := p
          obtain rfl : reply = .ack .ok := hok
          rfl
        · rfl

/-- The elements of a request to a set are carried out in order up to the first that is refused, or
up to an addition for which there is no larger table. -/
theorem Serves.adElements {jhash2 : HashDomainElem → BitVec 32 → BitVec 32}
    {start t hi fuel : ℕ} {set : DomainSet A} {a : KeySet} (adt : DsetAdt) (flags : CmdFlags)
    (useLineno : Bool) {els : List (AdWorld × Option AdtAttrs)} (h : Serves jhash2 start (t, set) a)
    (hels : TimelyElements t els hi) (htext : ∀ x ∈ els, ∀ tb, x.2 = some tb → tb.Padded)
    (hclock : hi ≤ start + 2 ^ (A.longBits - 1)) (hfuel : 32 ≤ fuel) :
    (∃ reply set' n a', adElements jhash2 adt flags useLineno fuel els set =
        .ok (some (reply, set')) ∧ t ≤ n ∧ n ≤ hi ∧ Serves jhash2 start (n, set') a' ∧
      set.SameConfig set' ∧ a'.timeouts = a.timeouts ∧
      ElementsOutcome set adt flags.exist useLineno a a' els reply) ∨
    adt = .add ∧ adElements jhash2 adt flags useLineno fuel els set = .error .zeroSizePtr ∧
      ∃ pre w tb post set₁, els = pre ++ (w, some tb) :: post ∧
        adElements jhash2 adt flags useLineno fuel pre set = .ok (some (.ack .ok, set₁)) ∧
        NoSize jhash2 w.now w.add tb set₁ := by
  induction els generalizing t set a with
  | nil =>
    have hlater := h.later le_rfl h.clock.2
    refine .inl ⟨_, set, t, _, rfl, le_rfl, hels, hlater, .refl set, rfl, [], ?_, .inl ⟨rfl, rfl⟩⟩
    exact .nil h.now.le rfl
  | cons x els ih =>
    obtain ⟨w, tb⟩ := x
    obtain ⟨mid, hw, hrest⟩ := hels
    have hmid : mid ≤ hi := hrest.le
    cases tb with
    | none =>
      have hlater := h.later le_rfl h.clock.2
      have hone : TimelyElements t [(w, none)] hi := ⟨mid, hw, hmid⟩
      exact .inl ⟨_, set, t, _, rfl, le_rfl, hone.le, hlater, .refl set, rfl, [], .nil h.now.le rfl,
        .inr ⟨_, rfl, .inl ⟨rfl, rfl⟩⟩⟩
    | some tb =>
      have htb := htext _ mem_cons_self tb rfl
      rcases h.callAd adt flags useLineno htb hw
        (hmid.trans hclock) hfuel with ⟨ret, set₁, n, a₁, hcall, hn, hn', ha₁, hconfig, htime, hans⟩ |
        ⟨hadt, hno, hcall⟩
      · by_cases hret : ret = .ok ∨ ret = .err .dsetErrExist ∧ flags.exist = true
        · -- the element is carried out
          obtain ⟨q, hq, hlive⟩ := hans.update hret
          have hnow : a₁.now = n := ha₁.now
          have hreply := (adReply_ok_iff useLineno w.reply (tb.lineno.getD 0)).mpr hret
          have hgo : Hash.adElements jhash2 adt flags useLineno fuel ((w, some tb) :: els) set =
              Hash.adElements jhash2 adt flags useLineno fuel els set₁ := by
            rw [adElements_cons els hcall, if_pos hreply]
          have hask : Asks set a adt (w, some tb) (a.request A adt a₁.now q) := ⟨tb, q, rfl, hq, rfl⟩
          rcases ih ha₁ (hrest.of_le hn') fun x hx => htext x (mem_cons_of_mem _ hx) with
            ⟨reply, set', n', a', hels, hle, hle', ha', hconfig', htime', hout⟩ |
            ⟨hadt, hels, pre, w', tb', post, set₂, rfl, hpre, hno⟩
          · refine .inl ⟨reply, set', n', a', hgo.trans hels, hn.trans hle, hle', ha',
              hconfig.trans hconfig', htime'.trans htime, ?_⟩
            exact .cons hask hlive rfl (h.now.le.trans (hn.trans hnow.ge)) hconfig htime hout
          · refine .inr ⟨hadt, hgo.trans hels, (w, some tb) :: pre, w', tb', post, set₂, rfl, ?_, hno⟩
            rw [adElements_cons pre hcall, if_pos hreply]
            exact hpre
        · -- the element is refused
          have hne : ret ≠ .ok := fun heq => hret (.inl heq)
          have hreply : adReply flags.exist useLineno w.reply (tb.lineno.getD 0) ret ≠ .ack .ok :=
            fun heq => hret ((adReply_ok_iff ..).mp heq)
          refine .inl ⟨adReply flags.exist useLineno w.reply (tb.lineno.getD 0) ret, set₁, n, a₁, ?_, hn, hn'.trans hmid, ha₁, hconfig, htime, [],
            .nil (h.now.le.trans (hn.trans ha₁.now.ge)) (hans.unchanged hne), .inr ⟨_, rfl, .inr ?_⟩⟩
          · rw [adElements_cons els hcall, if_neg hreply]
          · exact ⟨tb, ret, rfl, hans, hne, fun heq => hret (.inr heq), rfl⟩
      · refine .inr ⟨hadt, ?_, [], w, tb, els, set, rfl, rfl, hno⟩
        unfold Hash.adElements
        rw [hcall]
        rfl

end Dset.Hash
