import Dset.Hash.AddSlot
import Dset.Hash.Capacity
import Dset.Hash.Uadt

/-! What a new element starts with. A request says which values it gives; the
initialisers of the comment, the skbinfo and the timeout write the slot in either
case, the one of the counters writes only what is given. A slot that was used
before then hands its counters on to the new element. -/

namespace Dset.Hash

open Dset.Lib List

variable {A : Arch}

/-! ### The request -/

/-- The extension values of a request that `hash_domain_uadt` accepts. -/
def requestedExt (set : DomainSet A) (tb : AdtAttrs) : DomainSetExt where
  skbinfo :=
    ⟨tb.skbmark.elim 0 fun a => (a.value >>> 32).setWidth 32,
      tb.skbmark.elim 0 fun a => a.value.setWidth 32,
      tb.skbprio.elim 0 NlattrBits.value, tb.skbqueue.elim 0 NlattrBits.value⟩
  packets := (tb.packets.map NlattrBits.value).getD ullongMax
  bytes := (tb.bytes.map NlattrBits.value).getD ullongMax
  comment := tb.comment.map cstr
  timeout := (tb.timeout.map fun a => domainSetTimeoutUget a.value).getD set.timeout
  packetsOp := 0
  bytesOp := 0

/-- An accepted attribute is entered, an absent one changes nothing. -/
theorem extAttr_ok {α : Type*} {present : Bool} {err : Errno} {a : Option α}
    {f : α → DomainSetExt → DomainSetExt} {ext ext' : DomainSetExt}
    (h : extAttr present err a f ext = .ok ext') : ext' = a.elim ext fun a => f a ext := by
  unfold extAttr at h
  cases a with
  | none => exact (Except.ok.inj h).symm
  | some a =>
    simp only at h
    split at h
    · cases h
    · exact (Except.ok.inj h).symm

theorem domainSetGetExtensions_ok {set : DomainSet A} {tb : AdtAttrs} {ext : DomainSetExt}
    (h : domainSetGetExtensions set tb (domainSetInitUext set) = .ok ext) :
    ext = requestedExt set tb := by
  unfold domainSetGetExtensions at h
  split at h
  · cases h
  obtain ⟨e5, h, h6⟩ := bind_ok h
  obtain ⟨e4, h, h5⟩ := bind_ok h
  obtain ⟨e3, h, h4⟩ := bind_ok h
  obtain ⟨e2, h, h3⟩ := bind_ok h
  obtain ⟨e1, h1, h2⟩ := bind_ok h
  rw [extAttr_ok h6, extAttr_ok h5, extAttr_ok h4, extAttr_ok h3, extAttr_ok h2, extAttr_ok h1]
  obtain ⟨_, _, timeout, packets, bytes, comment, skbmark, skbprio, skbqueue⟩ := tb
  cases timeout <;> cases packets <;> cases bytes <;> cases comment <;> cases skbmark <;>
    cases skbprio <;> cases skbqueue <;> rfl

/-! ### What is stored -/

section
variable (x : Extensions) (jiffies : BitVec A.longBits) (alloc : Bool) (a : Accounts)
  (r : Record A) (ext : DomainSetExt)

theorem overwriteExtensions_counter (hx : x.counter = true) :
    (overwriteExtensions x jiffies alloc a r ext).2.counter = domainSetInitCounter r.counter ext := by
  unfold overwriteExtensions
  simp only [hx, if_true]
  cases x.skbinfo <;> cases x.timeout <;> rfl

theorem overwriteExtensions_skbinfo (hx : x.skbinfo = true) :
    (overwriteExtensions x jiffies alloc a r ext).2.skbinfo = ext.skbinfo := by
  unfold overwriteExtensions
  simp only [hx, if_true]
  cases x.timeout <;> rfl

/-- The text of the stored comment: the one given, cut to its maximal length, if
there is memory for it. -/
theorem overwriteExtensions_comment_str (hx : x.comment = true) :
    (overwriteExtensions x jiffies alloc a r ext).2.comment.map DomainSetCommentRcu.str =
      if (ext.comment.getD []).length = 0 ∨ alloc = false then none
      else some ((ext.comment.getD []).take dsetMaxCommentSize) := by
  have hc := overwriteExtensions_comment x jiffies alloc a r ext
  rw [hx, if_pos rfl] at hc
  rw [show (overwriteExtensions x jiffies alloc a r ext).2.comment =
    (domainSetInitComment A alloc a r.comment ext).2 from congrArg Prod.snd hc]
  unfold domainSetInitComment
  generalize ext.comment.getD [] = c
  simp only
  by_cases h0 : c.length = 0
  · simp [h0]
  · cases alloc
    · simp [h0]
    · simp [h0, take_eq_take_iff, min_comm]

end

/-- The comment a request asks for; an empty text is none. -/
def requestedComment (tb : AdtAttrs) : Option (List UInt8) :=
  match tb.comment with
  | none => none
  | some a => if cstr a = [] then none else some (cstr a)

/-- The record has what the request gives, and the initial value of what it does
not give. -/
structure HoldsRequest (set : DomainSet A) (jiffies : BitVec A.longBits) (tb : AdtAttrs)
    (r : Record A) : Prop where
  packets : set.withCounter = true → r.counter.packets = tb.packets.elim 0 NlattrBits.value
  bytes : set.withCounter = true → r.counter.bytes = tb.bytes.elim 0 NlattrBits.value
  comment : set.withComment = true → r.comment.map DomainSetCommentRcu.str = requestedComment tb
  skbinfo : set.withSkbinfo = true → r.skbinfo = (requestedExt set tb).skbinfo
  timeout : set.withTimeout = true →
    r.timeout = domainSetTimeoutSet jiffies (requestedExt set tb).timeout

/-- A counter of the slot comes out as the request asks: a value other than
`ULLONG_MAX` is given, or the slot holds the value already. -/
def Counts (given : Option (NlattrBits 64)) (old : BitVec 64) : Prop :=
  (∃ a, given = some a ∧ a.value ≠ ullongMax) ∨ old = given.elim 0 NlattrBits.value

theorem counts_iff (given : Option (NlattrBits 64)) (old : BitVec 64) :
    (if (given.map NlattrBits.value).getD ullongMax != ullongMax then
      (given.map NlattrBits.value).getD ullongMax else old) = given.elim 0 NlattrBits.value ↔
      Counts given old := by
  cases given with
  | none => simp [Counts]
  | some a =>
    by_cases h : a.value = ullongMax
    · simp [Counts, h]
    · simp [Counts, h]

/-- The slot that `mtype_add` takes has the counters the request asks for, and
there is memory for the comment it gives. -/
def SlotFits (jhash2 : HashDomainElem → BitVec 32 → BitVec 32) (jiffies : BitVec A.longBits)
    (o : AddAlloc) (set : DomainSet A) (d : HashDomainElem) (flags : CmdFlags) (tb : AdtAttrs) :
    Prop :=
  (set.withCounter = true → ∀ n j, storeTarget jhash2 jiffies o set d flags = some (n, j) →
    Counts tb.packets (n.data j.toNat).counter.packets ∧
      Counts tb.bytes (n.data j.toNat).counter.bytes) ∧
  (set.withComment = true → requestedComment tb = none ∨ o.comment = true)

/-- The comment of an attribute that passes the policy. -/
def CommentFits (tb : AdtAttrs) : Prop := ∀ a, tb.comment = some a → (cstr a).length ≤ dsetMaxCommentSize

theorem overwriteExtensions_holds (set : DomainSet A) (jiffies : BitVec A.longBits) (alloc : Bool)
    (a : Accounts) (r : Record A) {tb : AdtAttrs} (hpolicy : CommentFits tb) :
    HoldsRequest set jiffies tb
        (overwriteExtensions set.extensions jiffies alloc a r (requestedExt set tb)).2 ↔
      (set.withCounter = true → Counts tb.packets r.counter.packets ∧
        Counts tb.bytes r.counter.bytes) ∧
      (set.withComment = true → requestedComment tb = none ∨ alloc = true) := by
  have hcomment : (if (((requestedExt set tb).comment.getD []).length = 0 ∨ alloc = false) then none
      else some (((requestedExt set tb).comment.getD []).take dsetMaxCommentSize)) =
        requestedComment tb ↔ requestedComment tb = none ∨ alloc = true := by
    unfold requestedComment requestedExt
    cases hc : tb.comment with
    | none => simp
    | some c =>
      have hlen := hpolicy c hc
      cases alloc
      · simp
      · simp [take_of_length_le hlen]
  constructor
  · intro h
    refine ⟨fun hx => ⟨?_, ?_⟩, fun hx => ?_⟩
    · have := h.packets hx
      rw [overwriteExtensions_counter _ _ _ _ _ _ hx] at this
      exact (counts_iff _ _).mp this
    · have := h.bytes hx
      rw [overwriteExtensions_counter _ _ _ _ _ _ hx] at this
      exact (counts_iff _ _).mp this
    · have := h.comment hx
      rw [overwriteExtensions_comment_str _ _ _ _ _ _ hx] at this
      exact hcomment.mp this
  · rintro ⟨hcounter, hc⟩
    refine ⟨fun hx => ?_, fun hx => ?_, fun hx => ?_, fun hx => ?_, fun hx => ?_⟩
    · rw [overwriteExtensions_counter _ _ _ _ _ _ hx]
      exact (counts_iff _ _).mpr (hcounter hx).1
    · rw [overwriteExtensions_counter _ _ _ _ _ _ hx]
      exact (counts_iff _ _).mpr (hcounter hx).2
    · rw [overwriteExtensions_comment_str _ _ _ _ _ _ hx]
      exact hcomment.mpr (hc hx)
    · exact overwriteExtensions_skbinfo _ _ _ _ _ _ hx
    · exact overwriteExtensions_timeout _ _ _ _ _ _ hx

/-! ### The set -/

section
variable {jhash2 : HashDomainElem → BitVec 32 → BitVec 32} {forceadd : Bool} {set set' : DomainSet A}
  {l : List Call} {now : ℕ} {tb : AdtAttrs} {payload : List UInt8} {o : AddAlloc} {flags : CmdFlags}

/-- `hash_domain_uadt` for the add command. -/
def uadtAdd (jhash2 : HashDomainElem → BitVec 32 → BitVec 32) (jiffies : BitVec A.longBits)
    (o : AddAlloc) (set : DomainSet A) (tb : AdtAttrs) (flags : CmdFlags) :
    Except Fault (Ret × DomainSet A) :=
  hashDomainUadt set tb (fun e => .ok (.err e, set))
    (fun value ext => mtypeAdd jhash2 jiffies o set value ext flags)

/-- The table behind a stored record: it is good and has the record in it. -/
theorem stored_mem {d : DomainKey} {t : Hbucket A × ℤ} {j : ℕ}
    (hg : set.Good jhash2)
    (ht : storeTarget jhash2 (jiffiesAt A now) o set d.toHashDomainElem flags = some t)
    (hj : t.2 = j) {n : Hbucket A} {pos : ℕ} (hn : n = { t.1 with pos := pos }) {r : Record A}
    (htable : set'.table = (makeRoom (jiffiesAt A now) o.expire set).table.setBucket
      ((makeRoom (jiffiesAt A now) o.expire set).home jhash2 d.toHashDomainElem)
      (some (n.store j r))) : r ∈ set'.table.records := by
  have hs := makeRoom_good (jiffiesAt A now) hg.table o.expire
  have hi := DomainSet.home_lt hs d.toHashDomainElem
  have hb : GoodBucket _ _ _ (bucketOfKey jhash2 (jiffiesAt A now) o set d.toHashDomainElem) :=
    hs.hbucket _
  have hlt : j < n.value.length := by
    rcases addTarget_bounds hb ht with ⟨-, hlt⟩ | ⟨hneg, -⟩
    · rw [hj] at hlt
      subst hn
      exact Int.ofNat_lt.mp hlt
    · omega
  rw [htable]
  refine ((Htable.records_setBucket_perm _ hi _).mem_iff).mpr (mem_append_left _ ?_)
  refine mem_slotRecords.mpr ⟨⟨true, r⟩, ?_, rfl, rfl⟩
  exact mem_set hlt _

/-- A successful addition leaves a record of the key that has exactly what the
request asks for, if and only if the slot it took fits the request. -/
theorem uadt_add_fresh (h : (setSystem A jhash2 forceadd).Run l set) (d : DomainKey)
    (hdomain : tb.domain = some payload) (hkey : nlaStrlcpy payload = d.toHashDomainElem)
    (hpolicy : CommentFits tb)
    (hadd : uadtAdd jhash2 (jiffiesAt A now) o set tb flags = .ok (.ok, set')) :
    (∃ r ∈ set'.table.records, r.elem = d.toHashDomainElem ∧
      HoldsRequest set (jiffiesAt A now) tb r) ↔
      SlotFits jhash2 (jiffiesAt A now) o set d.toHashDomainElem flags tb := by
  have hg := (run_good h).1
  unfold uadtAdd hashDomainUadt at hadd
  simp only [hdomain, hkey] at hadd
  split at hadd
  · cases hadd
  rename_i ext hext
  rw [domainSetGetExtensions_ok hext] at hadd
  -- the set stays good, so the key has one record
  have hstep : applyOp jhash2 now set (.add d (requestedExt set tb) flags o) =
      .ok (.ret .ok, set') := by
    simp only [applyOp, hadd]
    rfl
  obtain ⟨drift, hch⟩ := applyOp_change hg hstep
  have hg' := hg.change hch
  have htarget := mtypeAdd_target (o := o) (d := d.toHashDomainElem) (jiffiesAt A now)
    hg.table (requestedExt set tb) flags
  cases ht : storeTarget jhash2 (jiffiesAt A now) o set d.toHashDomainElem flags with
  | none =>
    rw [ht] at htarget
    obtain ⟨e, next, -, heq⟩ := htarget
    rw [hadd] at heq
    cases heq
  | some t =>
    rw [ht] at htarget
    rcases htarget with ⟨-, heq⟩ | ⟨j, hj, p, s, hstore, htable, heq⟩
    · rw [hadd] at heq
      cases heq
    rw [hadd] at heq
    obtain ⟨-, rfl⟩ := Prod.mk.inj (Except.ok.inj heq)
    obtain ⟨-, pos, a, r, hcounter, hequal, hp⟩ := hstore
    rw [hp] at htable
    have hmem := stored_mem hg ht hj rfl htable
    have hfill := overwriteExtensions_holds set (jiffiesAt A now) o.comment a r hpolicy
    have helem := overwriteExtensions_elem set.extensions (jiffiesAt A now) o.comment a r
      (requestedExt set tb)
    generalize (overwriteExtensions set.extensions (jiffiesAt A now) o.comment a r
      (requestedExt set tb)).2 = stored at hmem hfill helem
    have hd : stored.elem = d.toHashDomainElem := by
      rw [← hashDomainDataEqual_iff (hg'.table.mem_records hmem).1 d.padded, helem]
      exact hequal
    have hfits : SlotFits jhash2 (jiffiesAt A now) o set d.toHashDomainElem flags tb ↔
        HoldsRequest set (jiffiesAt A now) tb stored := by
      rw [hfill, hcounter]
      unfold SlotFits
      rw [ht]
      refine and_congr (forall_congr' fun _ => ?_) Iff.rfl
      constructor
      · intro hall
        have := hall t.1 t.2 rfl
        rwa [hj, Int.toNat_natCast] at this
      · intro hcounts n k hk
        obtain rfl := Option.some.inj hk
        simp only at hj
        rwa [hj, Int.toNat_natCast]
    rw [hfits]
    constructor
    · rintro ⟨r', hr', hd', hold⟩
      obtain rfl := inj_on_of_nodup_map hg'.table.nodup hr' hmem (hd'.trans hd.symm)
      exact hold
    · exact fun hold => ⟨stored, hmem, hd, hold⟩

/-! ### A reused slot -/

/-- A request that names a domain and gives nothing else. -/
def bareAttrs (text : List UInt8) : AdtAttrs :=
  ⟨none, some (text ++ [0]), none, none, none, none, none, none, none⟩

def countedSet : DomainSet x64 := smallSet 4 8

theorem zero_notMem_aa : (0 : UInt8) ∉ [97, 97] := by decide

theorem zero_notMem_ab : (0 : UInt8) ∉ [97, 98] := by decide

/-- Two keys of one bucket are added, the first with a packet count of 5, and the
first is deleted. -/
def leftover : List (ℕ × Op) :=
  [(0, .add (keyTwo 97 97 zero_notMem_aa) { plainExt with packets := 5 } plainFlags noFailure),
    (0, .add (keyTwo 97 98 zero_notMem_ab) plainExt plainFlags noFailure),
    (0, .del (keyTwo 97 97 zero_notMem_aa) true)]

/-- A request for a third key of the bucket that gives its counters and a comment. -/
def countedAttrs : AdtAttrs :=
  { bareAttrs [97, 99] with
    packets := some ⟨7, true⟩, bytes := some ⟨640, true⟩, comment := some [98, 120, 0] }

/-- The key then has what is asked for, in the slot of the first one. -/
theorem uadt_add_fresh_refilled : ∃ l set set', (setSystem x64 firstByte false).Run l set ∧
    uadtAdd firstByte (jiffiesAt x64 0) noFailure set countedAttrs plainFlags = .ok (.ok, set') ∧
    set.table.records.length = 1 ∧ ∃ r ∈ set'.table.records,
      r.elem = (keyTwo 97 99 (by decide)).toHashDomainElem ∧
        HoldsRequest set (jiffiesAt x64 0) countedAttrs r := by
  have htest : runOpsTest firstByte (smallSet 4 24) leftover (fun s =>
      s.table.records.length = 1 && returnsTest .ok
        (uadtAdd firstByte (jiffiesAt x64 0) noFailure s countedAttrs plainFlags) fun _ => true) =
          true := by decide +kernel
  obtain ⟨p, hp, hs⟩ := runOpsTest_iff.mp htest
  have hrun := run_of_runOps (.start (smallSet_init firstByte 4 24 rfl))
    (by simp [leftover, Op.Enabled]) hp
  rw [Bool.and_eq_true, decide_eq_true_eq, returnsTest_iff] at hs
  obtain ⟨hone, set', hadd, -⟩ := hs
  have hpolicy : CommentFits countedAttrs := by
    rintro a ⟨⟩
    decide
  refine ⟨_, _, set', hrun, hadd, hone, (uadt_add_fresh hrun (keyTwo 97 99 (by decide)) rfl
    (by decide +kernel) hpolicy hadd).mpr ⟨fun _ n j _ => ?_, fun _ => .inr rfl⟩⟩
  exact ⟨.inl ⟨_, rfl, by decide⟩, .inl ⟨_, rfl, by decide⟩⟩

/-- Without counters in the request it starts with 5 packets. -/
theorem uadt_add_leftover :
    ¬∀ (l : List Call) (set : DomainSet x64), (setSystem x64 firstByte false).Run l set →
      ∀ (d : DomainKey) (tb : AdtAttrs) (payload : List UInt8), tb.domain = some payload →
        nlaStrlcpy payload = d.toHashDomainElem → CommentFits tb →
        ∀ set', uadtAdd firstByte (jiffiesAt x64 0) noFailure set tb plainFlags = .ok (.ok, set') →
          ∃ r ∈ set'.table.records, r.elem = d.toHashDomainElem ∧
            HoldsRequest set (jiffiesAt x64 0) tb r := by
  intro h
  have htest : runOpsTest firstByte countedSet leftover (fun s => s.withCounter && returnsTest .ok
      (uadtAdd firstByte (jiffiesAt x64 0) noFailure s (bareAttrs [97, 99]) plainFlags)
        fun s' => s'.table.records.all fun r =>
          decide (r.elem = (keyTwo 97 99 (by decide)).toHashDomainElem → r.counter.packets ≠ 0)) =
            true := by decide +kernel
  obtain ⟨p, hp, hs⟩ := runOpsTest_iff.mp htest
  have hrun := run_of_runOps (.start (smallSet_init firstByte 4 8 rfl))
    (by simp [leftover, Op.Enabled]) hp
  rw [Bool.and_eq_true, returnsTest_iff] at hs
  obtain ⟨hcounter, set', hadd, hs⟩ := hs
  have hpolicy : CommentFits (bareAttrs [97, 99]) := by
    intro a ha
    cases ha
  obtain ⟨r, hr, hd, hold⟩ := h _ _ hrun (keyTwo 97 99 (by decide)) (bareAttrs [97, 99]) _ rfl
    (by decide +kernel) hpolicy set' hadd
  rw [all_eq_true] at hs
  exact of_decide_eq_true (hs r hr) hd (hold.packets hcounter)

end

end Dset.Hash
