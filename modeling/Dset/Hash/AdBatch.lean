import Dset.Hash.AdRequest
import Dset.Hash.Capacity

/-! The elements of one message on a set in any state, under any clock. An element takes effect on
the records or it is refused, and then it leaves them as they are, up to what expires. -/

namespace Dset.Hash

open Dset.Lib List

variable {A : Arch}

/-! ### Records -/

/-- None of the records is new, and those that are gone expired at a tick of the element. -/
structure Ages (x : Extensions) (w : AdWorld) (rs rs' : List (Record A)) : Prop where
  subset : rs' ⊆ rs
  expired : ∀ r ∈ rs, r ∉ rs' → ∃ b, r.isExpired x (jiffiesAt A (w.now b)) = true

def otherRecords (key : HashDomainElem) (rs : List (Record A)) : List (Record A) :=
  rs.filter fun r => r.elem ≠ key

/-- An element takes effect: its key has a record with the timeout that it asks for, or none that
has not expired, and the records of other keys age. -/
structure TakesEffect (x : Extensions) (w : AdWorld) (adt : DsetAdt)
    (q : HashDomainElem × DomainSetExt) (rs rs' : List (Record A)) : Prop where
  key : match adt with
    | .add => ∃ r ∈ rs', r.elem = q.1 ∧ (x.timeout = true →
        ∃ b, r.timeout = domainSetTimeoutSet (jiffiesAt A (w.now b)) q.2.timeout)
    | .del => ∀ r ∈ rs', r.elem = q.1 → ∃ b, r.isExpired x (jiffiesAt A (w.now b)) = true
  others : Ages x w (otherRecords q.1 rs) (otherRecords q.1 rs')

section
variable {x : Extensions} {w : AdWorld} {rs rs₁ rs' : List (Record A)} {adt : DsetAdt}
  {q : HashDomainElem × DomainSetExt}

theorem Ages.refl (rs : List (Record A)) : Ages x w rs rs :=
  ⟨fun _ h => h, fun _ h h' => absurd h h'⟩

theorem Ages.of_perm (h : rs' ~ rs) : Ages x w rs rs' :=
  ⟨h.subset, fun _ hr hr' => absurd (h.symm.subset hr) hr'⟩

theorem Ages.trans (h : Ages x w rs rs₁) (h' : Ages x w rs₁ rs') : Ages x w rs rs' where
  subset _ hr := h.subset (h'.subset hr)
  expired r hr hgone := by
    by_cases hmid : r ∈ rs₁
    · exact h'.expired r hmid hgone
    · exact h.expired r hr hmid

theorem mem_otherRecords {key : HashDomainElem} {r : Record A} :
    r ∈ otherRecords key rs ↔ r ∈ rs ∧ r.elem ≠ key := by
  simp [otherRecords, mem_filter]

theorem Ages.others (h : Ages x w rs rs') (key : HashDomainElem) :
    Ages x w (otherRecords key rs) (otherRecords key rs') where
  subset r hr := by
    obtain ⟨hr, hne⟩ := mem_otherRecords.mp hr
    exact mem_otherRecords.mpr ⟨h.subset hr, hne⟩
  expired r hr hgone := by
    obtain ⟨hr, hne⟩ := mem_otherRecords.mp hr
    exact h.expired r hr fun hmem => hgone (mem_otherRecords.mpr ⟨hmem, hne⟩)

theorem TakesEffect.of_later (h : Ages x w rs rs₁) (h' : TakesEffect x w adt q rs₁ rs') :
    TakesEffect x w adt q rs rs' := ⟨h'.key, (h.others q.1).trans h'.others⟩

end

/-! ### One round -/

/-- What is left of a set behind an element, with the value it got. -/
structure Handled (adt : DsetAdt) (exist : Bool) (w : AdWorld) (tb : AdtAttrs) (set : DomainSet A)
    (ret : Ret) (set' : DomainSet A) : Prop where
  accepted : ret = .ok ∨ ret = .err .dsetErrExist ∧ exist = true → ∃ q, adtRequest set tb = .ok q ∧
    TakesEffect set.extensions w adt q set.table.records set'.table.records
  refused : ret ≠ .ok → Ages set.extensions w set.table.records set'.table.records

section
variable {jhash2 : HashDomainElem → BitVec 32 → BitVec 32} {adt : DsetAdt} {w : AdWorld}
  {tb : AdtAttrs} {flags : CmdFlags} {set set₁ set' : DomainSet A} {ret : Ret}

theorem makeRoom_ages (hg : set.Good jhash2) (b : ℕ) (alloc : ℕ → Bool) :
    Ages set.extensions w set.table.records
      (makeRoom (jiffiesAt A (w.now b)) alloc set).table.records := by
  rcases makeRoom_records hg.table (jiffiesAt A (w.now b)) alloc with h | ⟨htimeout, h⟩ <;> rw [h]
  · exact .refl _
  · refine ⟨filter_subset_self _, fun r hr hgone => ⟨b, ?_⟩⟩
    have hstale : r.fresh (jiffiesAt A (w.now b)) ≠ true :=
      fun hf => hgone (mem_filter.mpr ⟨hr, hf⟩)
    have hexpired : domainSetTimeoutExpired (jiffiesAt A (w.now b)) r.timeout = true := by
      simpa [Record.fresh] using hstale
    have hx : set.extensions.timeout = true := htimeout
    unfold Record.isExpired
    rw [hx, hexpired]
    rfl

theorem addResult_handled (hg : set.Good jhash2) {b : ℕ} {o : AddAlloc}
    {q : HashDomainElem × DomainSetExt} (hq : adtRequest set tb = .ok q)
    (h : AddResult jhash2 (jiffiesAt A (w.now b)) o.kzalloc q.1 q.2 flags.exist
      (makeRoom (jiffiesAt A (w.now b)) o.expire set) ret set') :
    Handled .add flags.exist w tb set ret set' := by
  have hages := makeRoom_ages (w := w) hg b o.expire
  have hx := (makeRoom_config set (jiffiesAt A (w.now b)) o.expire).extensions
  cases h with
  | refused e next he =>
    refine ⟨?_, fun _ => hages⟩
    rintro (h | ⟨h, -⟩)
    · cases h
    · obtain rfl := Ret.err.inj h
      rcases he with he | he | he <;> cases he
  | exist r hr helem hlive hflag =>
    refine ⟨?_, fun _ => hages⟩
    rintro (h | ⟨-, h⟩)
    · cases h
    · exact absurd (h.symm.trans hflag) (by decide)
  | stored out kept r _ drift hold hnew helem htimeout hkept hout =>
    refine ⟨fun _ => ⟨q, hq, ?_, ?_⟩, fun h => absurd rfl h⟩
    · refine ⟨r, hnew.symm.subset mem_cons_self, helem, fun ht => ⟨b, htimeout ?_⟩⟩
      rw [hx]
      exact ht
    · refine (hages.others q.1).trans ⟨fun k hk => ?_, fun k hk hgone => ⟨b, ?_⟩⟩
      · obtain ⟨hk, hne⟩ := mem_otherRecords.mp hk
        rcases mem_cons.mp (hnew.subset hk) with rfl | hk
        · exact absurd helem hne
        · exact mem_otherRecords.mpr ⟨hold.symm.subset (mem_append_right _ hk), hne⟩
      · obtain ⟨hk, hne⟩ := mem_otherRecords.mp hk
        rcases mem_append.mp (hold.subset hk) with hk | hk
        · rw [← hx]
          exact (hout k hk).resolve_left fun h => hne h.1
        · refine absurd (mem_otherRecords.mpr ⟨?_, hne⟩) hgone
          exact hnew.symm.subset (mem_cons_of_mem _ hk)

theorem delResult_handled {b : ℕ} {alloc : Bool} {q : HashDomainElem × DomainSetExt} {exist : Bool}
    (hq : adtRequest set tb = .ok q)
    (h : DelResult jhash2 (jiffiesAt A (w.now b)) alloc q.1 set ret set') :
    Handled .del exist w tb set ret set' := by
  cases h with
  | missing h =>
    refine ⟨fun _ => ⟨q, hq, ?_, .refl _⟩, fun _ => .refl _⟩
    exact fun r hr helem => ⟨b, h r hr helem⟩
  | removed r kept _ drift hold hnew helem hlive hkept =>
    refine ⟨fun _ => ⟨q, hq, ?_, ?_⟩, fun h => absurd rfl h⟩
    · exact fun k hk hk' => absurd hk' (hkept k (hnew.subset hk))
    · refine ⟨fun k hk => ?_, fun k hk hgone => ?_⟩
      · obtain ⟨hk, hne⟩ := mem_otherRecords.mp hk
        exact mem_otherRecords.mpr ⟨hold.symm.subset (mem_cons_of_mem _ (hnew.subset hk)), hne⟩
      · obtain ⟨hk, hne⟩ := mem_otherRecords.mp hk
        rcases mem_cons.mp (hold.subset hk) with rfl | hk
        · exact absurd helem hne
        · exact absurd (mem_otherRecords.mpr ⟨hnew.symm.subset hk, hne⟩) hgone

theorem adtRequest_padded (htb : tb.Padded) {q : HashDomainElem × DomainSetExt}
    (h : adtRequest set tb = .ok q) : ∃ d : DomainKey, q.1 = d.toHashDomainElem := by
  unfold adtRequest hashDomainUadt at h
  split at h
  · cases h
  rename_i payload hpayload
  split at h
  · cases h
  obtain rfl := Except.ok.inj h
  exact ⟨⟨nlaStrlcpy payload, htb payload hpayload⟩, rfl⟩

variable (adt w flags) in
/-- One round of `call_ad` handles the element, or a set with `forceadd` leaves the bucket. -/
theorem uadt_handled (hg : set.Good jhash2) (htb : tb.Padded) :
    (∃ ret set', uadt jhash2 adt w set tb flags = .ok (ret, set') ∧ set'.Good jhash2 ∧
      set.SameConfig set' ∧ set'.table.htableBits = set.table.htableBits ∧
      Handled adt flags.exist w tb set ret set' ∧ (ret = .err .eagain → adt = .add)) ∨
    adt = .add ∧ set.forceadd = true ∧ uadt jhash2 adt w set tb flags = .error .outOfBounds := by
  rw [uadt_eq]
  cases hq : adtRequest set tb with
  | error e =>
    refine .inl ⟨_, _, rfl, hg, .refl set, rfl, ⟨?_, fun _ => .refl _⟩, fun h => ?_⟩
    · rintro (h | ⟨h, -⟩)
      · cases h
      · exact absurd (Ret.err.inj h) (adtRequest_error_ne hq)
    · exact absurd (Ret.err.inj h) (adtRequest_error hq)
  | ok q =>
    obtain ⟨d, hd⟩ := adtRequest_padded htb hq
    cases adt with
    | add =>
      rcases mtypeAdd_result (jiffiesAt A (w.now set.table.htableBits))
        (w.add set.table.htableBits) q.2 flags hg.table (hd ▸ d.padded) with
        ⟨hforce, -, heq⟩ | ⟨ret, set', heq, hres⟩
      · exact .inr ⟨rfl, hforce, heq⟩
      · have hstep : applyOp jhash2 (w.now set.table.htableBits) set
            (.add d q.2 flags (w.add set.table.htableBits)) = .ok (.ret ret, set') := by
          simp only [applyOp]
          rw [← hd, heq]
          rfl
        obtain ⟨drift, hch⟩ := applyOp_change hg hstep
        have hbits : set'.table.htableBits = set.table.htableBits := by
          rw [← makeRoom_bits set (jiffiesAt A (w.now set.table.htableBits))
            (w.add set.table.htableBits).expire]
          cases hres with
          | refused => rfl
          | exist => rfl
          | stored _ _ _ _ _ _ _ _ _ _ _ _ _ _ htable => exact htable
        exact .inl ⟨ret, set', heq, hg.change hch, hch.toSameConfig, hbits,
          addResult_handled hg hq hres, fun _ => rfl⟩
    | del =>
      have hres := mtypeDel_result (jiffiesAt A (w.now set.table.htableBits)) hg.table
        (hd ▸ d.padded) w.del
      generalize hp : mtypeDel jhash2 (jiffiesAt A (w.now set.table.htableBits)) w.del set q.1 = p
        at hres
      obtain ⟨ret, set'⟩ := p
      have hstep : applyOp jhash2 (w.now set.table.htableBits) set (.del d w.del) =
          .ok (.ret ret, set') := by
        simp only [applyOp]
        rw [← hd, hp]
        rfl
      obtain ⟨drift, hch⟩ := applyOp_change hg hstep
      have hbits : set'.table.htableBits = set.table.htableBits := by
        cases hres with
        | missing => rfl
        | removed _ _ _ _ _ _ _ _ _ _ htable => exact htable
      refine .inl ⟨ret, set', congrArg Except.ok hp, hg.change hch, hch.toSameConfig, hbits,
        delResult_handled hq hres, ?_⟩
      rintro rfl
      cases hres

/-! ### The rounds of one element -/

theorem Handled.of_later (hconfig : set.SameConfig set₁)
    (hages : Ages set.extensions w set.table.records set₁.table.records)
    (h : Handled adt flags.exist w tb set₁ ret set') :
    Handled adt flags.exist w tb set ret set' := by
  constructor
  · intro hret
    obtain ⟨q, hq, heffect⟩ := h.accepted hret
    rw [hconfig.extensions] at heffect
    exact ⟨q, (adtRequest_congr hconfig).symm.trans hq, .of_later hages heffect⟩
  · intro hret
    have hlater := h.refused hret
    rw [hconfig.extensions] at hlater
    exact hages.trans hlater

/-- How an element may end otherwise: a full set with `forceadd` leaves the bucket, or no size that
`htable_size` knows is large enough. -/
inductive Crashes (jhash2 : HashDomainElem → BitVec 32 → BitVec 32) (w : AdWorld) (tb : AdtAttrs)
    (set : DomainSet A) : Fault → Prop
  | outOfBounds (h : set.forceadd = true) : Crashes jhash2 w tb set .outOfBounds
  | zeroSizePtr (h : NoSize jhash2 w.now w.add tb set) : Crashes jhash2 w tb set .zeroSizePtr

variable (adt w flags) in
/-- `call_ad` handles an element in at most as many rounds as there are sizes. -/
theorem callAdRounds_handled (hg : set.Good jhash2) (hbits : set.table.htableBits ≤ 31)
    (htb : tb.Padded) {fuel : ℕ} (hfuel : 32 ≤ set.table.htableBits + fuel) :
    (∃ ret set', callAdRounds jhash2 adt w tb flags fuel set = .ok (some (ret, set')) ∧
      set'.Good jhash2 ∧ set'.table.htableBits ≤ 31 ∧ set.SameConfig set' ∧
      Handled adt flags.exist w tb set ret set') ∨
    ∃ e, adt = .add ∧ callAdRounds jhash2 adt w tb flags fuel set = .error e ∧
      (e = .outOfBounds ∧ set.forceadd = true ∨ e = .zeroSizePtr) := by
  induction fuel generalizing set with
  | zero => omega
  | succ fuel ih =>
    rcases uadt_handled adt w flags hg htb with
      ⟨ret, set₁, hp, hg₁, hconfig, hsame, hhandled, hadd⟩ | ⟨hadt, hforce, hp⟩
    swap
    · refine .inr ⟨_, hadt, ?_, .inl ⟨rfl, hforce⟩⟩
      unfold callAdRounds
      rw [hp]
      rfl
    rw [callAdRounds_succ fuel hp]
    by_cases hret : ret = .err .eagain
    swap
    · exact .inl ⟨ret, set₁, if_pos hret, hg₁, hsame.trans_le hbits, hconfig, hhandled⟩
    rw [if_neg (not_not.mpr hret)]
    have hages := hhandled.refused fun hok => Ret.noConfusion (hret.symm.trans hok)
    cases hres : mtypeResize jhash2 w.resize set₁ with
    | error e => exact .inr ⟨e, hadd hret, rfl, .inr (mtypeResize_error hg₁.table hres).1⟩
    | ok p =>
      by_cases hok : p.1 = .ok
      · -- another round, with a larger table
        have hrefilled := mtypeResize_refilled hg₁ hres hok
        have hlarger := hrefilled.toSameConfig
        have hround : (mtypeResize jhash2 w.resize set₁ >>= fun q =>
            if q.1 ≠ .ok then .ok (some (q.1, q.2.1))
            else callAdRounds jhash2 adt w tb flags fuel q.2.1) =
              callAdRounds jhash2 adt w tb flags fuel p.2.1 := by
          rw [hres]
          exact if_neg (not_not.mpr hok)
        rw [← hres, hround]
        have hbits' := htableSize_ne_zero hrefilled.sized
        rcases ih hrefilled.good hbits' (by have := hrefilled.bits_lt; omega) with
          ⟨ret', set', hrun, hg', hle, hconfig', hhandled'⟩ | ⟨e, hadt, hrun, he⟩
        · have hlater := hages.trans (.of_perm hrefilled.records)
          exact .inl ⟨ret', set', hrun, hg', hle, (hconfig.trans hlarger).trans hconfig',
            hhandled'.of_later (hconfig.trans hlarger) hlater⟩
        · refine .inr ⟨e, hadt, hrun, he.imp_left fun h => ⟨h.1, ?_⟩⟩
          rw [← hconfig.forceadd, ← hlarger.forceadd, h.2]
      · -- the resizing fails
        have hstep : applyOp jhash2 0 set₁ (.resize w.resize) = .ok (.ret p.1, p.2.1) := by
          simp only [applyOp, hres]
          rfl
        obtain ⟨drift, hch⟩ := applyOp_change hg₁ hstep
        have hfailed := mtypeResize_result hg₁.table w.resize
        rw [hres] at hfailed
        obtain ⟨ret', set', old⟩ := p
        refine .inl ⟨ret', set', if_pos hok, hg₁.change hch, ?_, hconfig.trans hch.toSameConfig,
          ?_, ?_⟩
        · cases hfailed with
          | failed e ref he => exact hsame.trans_le hbits
          | resized => exact absurd rfl hok
        · cases hfailed with
          | failed e ref he =>
            rintro (h | ⟨h, -⟩)
            · exact absurd h hok
            · obtain rfl := Ret.err.inj h
              rcases he with he | he <;> cases he
          | resized => exact absurd rfl hok
        · intro _
          cases hfailed with
          | failed e ref he => exact hages
          | resized => exact absurd rfl hok

variable (adt w flags) in
/-- An element is handled, or it crashes. -/
theorem callAdRounds_ends (hg : set.Good jhash2) (hbits : set.table.htableBits ≤ 31)
    (htb : tb.Padded) {fuel : ℕ} (hfuel : 32 ≤ fuel) :
    (∃ ret set', callAdRounds jhash2 adt w tb flags fuel set = .ok (some (ret, set')) ∧
      set'.Good jhash2 ∧ set'.table.htableBits ≤ 31 ∧ set.SameConfig set' ∧
      Handled adt flags.exist w tb set ret set') ∨
    ∃ e, adt = .add ∧ callAdRounds jhash2 adt w tb flags fuel set = .error e ∧
      Crashes jhash2 w tb set e := by
  refine (callAdRounds_handled adt w flags hg hbits htb (by omega)).imp_right ?_
  rintro ⟨e, rfl, hrun, ⟨rfl, hforce⟩ | rfl⟩
  · exact ⟨_, rfl, hrun, .outOfBounds hforce⟩
  · refine ⟨_, rfl, hrun, .zeroSizePtr ?_⟩
    rw [callAdRounds_add] at hrun
    cases hloop : callAdLoop jhash2 w.now w.add w.resize tb flags fuel set with
    | error e =>
      rw [hloop] at hrun
      exact callAdLoop_fault hg (hloop.trans (congrArg Except.error (Except.error.inj hrun)))
    | ok r =>
      rw [hloop] at hrun
      cases hrun

end

/-! ### The elements of a message -/

/-- Elements that take effect one after the other. -/
inductive CarriesOut (adt : DsetAdt) :
    List (AdWorld × AdtAttrs) → DomainSet A → DomainSet A → Prop
  | nil (set : DomainSet A) : CarriesOut adt [] set set
  | cons {w : AdWorld} {tb : AdtAttrs} {els : List (AdWorld × AdtAttrs)}
    {set set₁ set' : DomainSet A} (q : HashDomainElem × DomainSetExt) (hq : adtRequest set tb = .ok q)
    (h : TakesEffect set.extensions w adt q set.table.records set₁.table.records)
    (hrest : CarriesOut adt els set₁ set') : CarriesOut adt ((w, tb) :: els) set set'

def parsedElements (els : List (AdWorld × AdtAttrs)) : List (AdWorld × Option AdtAttrs) :=
  els.map fun x => (x.1, some x.2)

/-- How the elements of a message end: all are carried out, or those before one that is refused,
which leaves the records as they are, or that crashes. -/
inductive BatchEnd (jhash2 : HashDomainElem → BitVec 32 → BitVec 32) (adt : DsetAdt) (exist : Bool)
    (useLineno : Bool) (els : List (AdWorld × AdtAttrs)) (set : DomainSet A) :
    Except Fault (Option (AdReply × DomainSet A)) → Prop
  | done (set' : DomainSet A) (h : CarriesOut adt els set set') :
      BatchEnd jhash2 adt exist useLineno els set (.ok (some (.ack .ok, set')))
  | refused (k : ℕ) (w : AdWorld) (tb : AdtAttrs) (e : Errno) (set₁ set' : DomainSet A)
      (hbefore : CarriesOut adt (els.take k) set set₁) (hat : els[k]? = some (w, tb))
      (hexist : ¬(e = .dsetErrExist ∧ exist = true))
      (hages : Ages set₁.extensions w set₁.table.records set'.table.records) :
      BatchEnd jhash2 adt exist useLineno els set
        (.ok (some (adReply exist useLineno w.reply (tb.lineno.getD 0) (.err e), set')))
  | crashed (k : ℕ) (w : AdWorld) (tb : AdtAttrs) (e : Fault) (set₁ : DomainSet A)
      (hadt : adt = .add) (hbefore : CarriesOut adt (els.take k) set set₁) (hat : els[k]? = some (w, tb))
      (h : Crashes jhash2 w tb set₁ e) : BatchEnd jhash2 adt exist useLineno els set (.error e)

section
variable {jhash2 : HashDomainElem → BitVec 32 → BitVec 32} {adt : DsetAdt} {flags : CmdFlags}
  {set : DomainSet A}

/-- An element in front of the others. -/
theorem BatchEnd.cons {exist useLineno : Bool} {w : AdWorld} {tb : AdtAttrs}
    {els : List (AdWorld × AdtAttrs)} {set₁ : DomainSet A}
    {r : Except Fault (Option (AdReply × DomainSet A))} {q : HashDomainElem × DomainSetExt}
    (hq : adtRequest set tb = .ok q)
    (heffect : TakesEffect set.extensions w adt q set.table.records set₁.table.records)
    (h : BatchEnd jhash2 adt exist useLineno els set₁ r) :
    BatchEnd jhash2 adt exist useLineno ((w, tb) :: els) set r := by
  cases h with
  | done set' h => exact .done set' (.cons q hq heffect h)
  | refused k w' tb' e set₂ set' hbefore hat hexist hages =>
    exact .refused (k + 1) w' tb' e set₂ set' (.cons q hq heffect hbefore) hat hexist hages
  | crashed k w' tb' e set₂ hadt hbefore hat h =>
    exact .crashed (k + 1) w' tb' e set₂ hadt (.cons q hq heffect hbefore) hat h

variable (adt flags) in
/-- The elements of a message are carried out in order, up to one that is refused or crashes. -/
theorem adElements_ends {els : List (AdWorld × AdtAttrs)} (hg : set.Good jhash2)
    (hbits : set.table.htableBits ≤ 31) (htext : ∀ x ∈ els, x.2.Padded) (useLineno : Bool)
    {fuel : ℕ} (hfuel : 32 ≤ fuel) :
    BatchEnd jhash2 adt flags.exist useLineno els set
      (adElements jhash2 adt flags useLineno fuel (parsedElements els) set) := by
  induction els generalizing set with
  | nil => exact .done set (.nil set)
  | cons x els ih =>
    obtain ⟨w, tb⟩ := x
    have hrest := fun x hx => htext x (mem_cons_of_mem _ hx)
    rcases callAdRounds_ends adt w flags hg hbits
      (htext _ mem_cons_self) hfuel with
      ⟨ret, set₁, hrun, hg₁, hbits₁, hconfig, hhandled⟩ | ⟨e, hadt, hrun, hcrash⟩
    · have hcall : callAd jhash2 adt w tb flags useLineno fuel set =
          .ok (some (adReply flags.exist useLineno w.reply (tb.lineno.getD 0) ret, set₁)) := by
        unfold callAd
        rw [hrun]
        rfl
      show BatchEnd _ _ _ _ _ _ (adElements _ _ _ _ _ ((w, some tb) :: parsedElements els) _)
      rw [adElements_cons _ hcall]
      by_cases hret : ret = .ok ∨ ret = .err .dsetErrExist ∧ flags.exist = true
      · rw [if_pos ((adReply_ok_iff ..).mpr hret)]
        obtain ⟨q, hq, heffect⟩ := hhandled.accepted hret
        exact .cons hq heffect (ih hg₁ hbits₁ hrest)
      · rw [if_neg fun h => hret ((adReply_ok_iff ..).mp h)]
        cases ret with
        | ok => exact absurd (.inl rfl) hret
        | err e =>
          refine .refused 0 w tb e set set₁ (.nil set) rfl ?_ (hhandled.refused Ret.noConfusion)
          rintro ⟨rfl, hexist⟩
          exact hret (.inr ⟨rfl, hexist⟩)
    · have herror : adElements jhash2 adt flags useLineno fuel
          (parsedElements ((w, tb) :: els)) set = .error e := by
        show adElements _ _ _ _ _ ((w, some tb) :: parsedElements els) _ = _
        unfold adElements callAd
        rw [hrun]
        rfl
      rw [herror]
      exact .crashed 0 w tb e set hadt (.nil set) rfl hcrash

end

end Dset.Hash
