import Dset.Core.DumpSession
import Dset.Hash.DumpMessage
import Dset.Hash.SetHistory

/-! A dump session against one set, which keeps its slot. The session comes to the set, lists it
over one message or more, and leaves it behind; its messages of the set are those of one listing,
behind one header. -/

namespace Dset.Hash

open Dset.Lib List

variable {A : Arch}

/-! ### What a session is asked for, and what it sends -/

/-- A dump of whole sets: neither their names nor their headers only. -/
def listsElements (req : Core.DumpRequest) : Prop :=
  ∀ type, let mode : Core.DumpMode := ⟨type, req.flags.getD 0 % 2 ^ 16⟩
    mode.listSetname = false ∧ mode.listHeader = false

def message? : Core.DumpEvent → Option (ℕ × Core.Skb)
  | .message id skb => some (id, skb)
  | _ => none

/-- The messages about the set `n`. -/
def about (n : ℕ) (l : List (ℕ × Core.Skb)) : List (List Core.Attr) :=
  l.filterMap fun m => if m.1 = n then some m.2.attrs else none

/-- What the calls for one message find: the tick of the expiry pass and its allocations, the
ticks at the buckets, one that is not before them, and the buffer. -/
structure DumpCall where
  sizeofHtype : ℕ
  head : ℕ
  alloc : ℕ → Bool
  bucket : ℕ → ℕ
  last : ℕ
  cap : ℕ
  pad64 : Bool

def DumpCall.listCall (A : Arch) (c : DumpCall) : ListCall A :=
  ⟨c.sizeofHtype, jiffiesAt A c.head, c.alloc, fun i => jiffiesAt A (c.bucket i)⟩

/-- The clock does not run back. -/
structure DumpCall.Timely (c : DumpCall) (now : ℕ) : Prop where
  head : now ≤ c.head
  monotone : Monotone c.bucket
  bucket : ∀ i, c.head ≤ c.bucket i ∧ c.bucket i ≤ c.last

/-! ### Where a session is -/

/-- A listing that such states only have led to. -/
def Listed (jhash2 : HashDomainElem → BitVec 32 → BitVec 32) (start : ℕ) (P : Lister A → Prop)
    (L : Lister A) : Prop :=
  ∃ l, ((listSystem A jhash2 start).within P).Run l L

/-- From `index` on slot `i` is still to come. -/
def Ahead (mode : Core.DumpMode) (i index : ℕ) : Prop :=
  mode.type = .one ∧ index = i ∨ mode.type = .all ∧ index ≤ i

/-- At `index` slot `i` has been left behind. -/
def Passed (mode : Core.DumpMode) (i index : ℕ) : Prop :=
  mode.type = .one ∧ index = Core.dsetInvalidId ∨ mode.type = .all ∧ i < index ∨ mode.type = .last

/-- The session goes on with whole sets, and its loop does not end in front of slot `i`. -/
structure Going (i : ℕ) (p : Core.Session (Htable A)) : Prop where
  lists : listsElements p.req
  flags : ∀ mode, p.cb.dump = some mode → mode.flags = p.req.flags.getD 0 % 2 ^ 16
  phase : match p.phase with
    | .waiting | .listing _ _ => True
    | .scanning _ max _ => i < max
    | .releasing _ ret skb => ret = .ok ∧ skb.len ≠ 0
    | .ended _ | .finished => False

/-- The message that is built and not sent yet, if it is one of the set `n`. -/
def pending (n : ℕ) (p : Core.Session (Htable A)) : List (List Core.Attr) :=
  match p.phase with
  | .releasing _ _ skb => if p.started = some n then [skb.attrs] else []
  | _ => []

/-- The messages of the set `n` are those of the listing, and one of them has the header. -/
structure Sends (n : ℕ) (sent : List (List Core.Attr)) (p : Core.Session (Htable A))
    (L : Lister A) : Prop where
  sent : L.sent = sent ++ pending n p
  begins : L.sent.countP beginsSet = 1

/-- A session before slot `i`, in the middle of the set `n` there, behind it, and at its end. -/
inductive Stage (Q : Lister A → Prop) (i n now : ℕ) (data : DomainSet A) (replaced : Bool)
    (sent : List (List Core.Attr)) (p : Core.Session (Htable A)) : Prop
  | ahead (hgoing : Going i p)
      (hahead : p.cb.dump = none ∧ p.cb.index = 0 ∨
        ∃ mode, p.cb.dump = some mode ∧ Ahead mode i p.cb.index)
      (hstarted : p.started = some n → p.cb.arg0 = 0 ∧ ∃ mode, p.phase = .listing mode i)
      (hsent : sent = [])
  | during (L : Lister A) (hQ : Q L) (hset : L.set = data) (hnow : L.now ≤ now)
      (hkept : L.kept.isSome = replaced) (hpriv : p.cb.priv = some L.table)
      (hphase : L.phase = .paused p.cb.arg0) (hgoing : Going i p) (harg0 : p.cb.arg0 ≠ 0)
      (hstarted : p.started = some n) (hsent : Sends n sent p L)
  | behind (L : Lister A) (hQ : Q L) (hended : L.phase = .ended .ok) (hgoing : Going i p)
      (hpassed : ∃ mode, p.cb.dump = some mode ∧ Passed mode i p.cb.index)
      (hstarted : p.started = some n → p.cb.arg0 = 0 ∧ ∃ skb, p.phase = .releasing i .ok skb)
      (hsent : Sends n sent p L)
  | complete (L : Lister A) (hQ : Q L) (hended : L.phase = .ended .ok)
      (hphase : p.phase = .ended none) (hsent : Sends n sent p L)
  | failed (e : Errno) (hphase : p.phase = .ended (some e) ∨
      ∃ index skb, p.phase = .releasing index (.err e) skb)

/-- The set `n` in slot `i` of an array that a session can be stepped on. -/
structure AtSlot (i n : ℕ) (inst : Core.DomainSetNet (DomainSet A))
    (set : Core.DomainSet (DomainSet A)) (p : Core.Session (Htable A)) : Prop where
  slot : inst.domainSet i = some set
  id : set.id = n
  dumpLast : set.type.dumpLast = false
  identified : inst.Identified
  sound : p.Sound inst
  isDestroyed : inst.isDestroyed = false
  max_lt : inst.domainSetMax < Core.dsetInvalidId

section
variable {Q : Lister A → Prop} {i n now : ℕ} {data : DomainSet A} {replaced : Bool}
  {sent : List (List Core.Attr)} {p : Core.Session (Htable A)} {mode : Core.DumpMode}
  {inst : Core.DomainSetNet (DomainSet A)} {set : Core.DomainSet (DomainSet A)}

theorem AtSlot.lt_max (hs : AtSlot i n inst set p) : i < inst.domainSetMax :=
  Core.DomainSetNet.domainSet_lt hs.slot

/-- Only slot `i` has the set `n`. -/
theorem AtSlot.eq_of_id (hs : AtSlot i n inst set p) {k : ℕ} {t : Core.DomainSet (DomainSet A)}
    (ht : inst.domainSet k = some t) (hid : t.id = n) : k = i :=
  hs.identified.distinct k i t set ht hs.slot (hid.trans hs.id.symm)

/-- A session in the middle of the set `n` has slot `i` as its index. -/
theorem AtSlot.savedIndex (hs : AtSlot i n inst set p) (hstarted : p.started = some n) :
    p.savedIndex = i := by
  obtain ⟨t, ht, hid⟩ := hs.sound.started hstarted
  exact hs.eq_of_id ht hid

theorem Sends.of_pending {L : Lister A} {p' : Core.Session (Htable A)}
    {sent' : List (List Core.Attr)} (h : Sends n sent p L) (hpending : sent' ++ pending n p' = sent ++ pending n p) :
    Sends n sent' p' L := ⟨h.sent.trans hpending.symm, h.begins⟩

theorem pending_eq_nil (h : ∀ index ret skb, p.phase ≠ .releasing index ret skb) :
    pending n p = [] := by
  unfold pending
  split
  · rename_i index ret skb hphase
    exact absurd hphase (h index ret skb)
  · rfl

theorem Stage.going (h : Stage Q i n now data replaced sent p) (hended : ∀ e, p.phase ≠ .ended e)
    (hreleasing : ∀ index e skb, p.phase ≠ .releasing index (.err e) skb) : Going i p := by
  cases h with
  | ahead hgoing => exact hgoing
  | during _ _ _ _ _ _ _ hgoing => exact hgoing
  | behind _ _ _ hgoing => exact hgoing
  | complete _ _ _ hover => exact absurd hover (hended none)
  | failed e hfailed =>
    rcases hfailed with hfailed | ⟨index, skb, hfailed⟩
    · exact absurd hfailed (hended (some e))
    · exact absurd hfailed (hreleasing index e skb)

/-- The flags of a session are those of its request. -/
theorem Going.whole (h : Going i p) (hdump : p.cb.dump = some mode) :
    mode.listSetname = false ∧ mode.listHeader = false := by
  have hflags := h.flags mode hdump
  have hlists := h.lists mode.type
  rwa [← hflags] at hlists

/-- A call enters its loop, or finds that nothing is left. -/
theorem Stage.enter (h : Stage Q i n now data replaced sent p) (hs : AtSlot i n inst set p)
    (hphase : p.phase = .waiting) (hdump : p.cb.dump = some mode) :
    Stage Q i n now data replaced sent (Core.dumpEnter inst p mode) := by
  have hpending : pending n p = [] := pending_eq_nil (by simp [hphase])
  have hlt := hs.lt_max
  unfold Core.dumpEnter
  cases h with
  | ahead hgoing hahead hstarted hsent =>
    obtain ⟨mode', hdump', hmode⟩ := hahead.resolve_left fun h => by simp [hdump] at h
    obtain rfl := Option.some.inj (hdump.symm.trans hdump')
    have hle : p.cb.index ≤ i ∧ (mode.type = .one → p.cb.index = i) := by
      rcases hmode with ⟨hone, hindex⟩ | ⟨hall, hle⟩
      · exact ⟨hindex.le, fun _ => hindex⟩
      · exact ⟨hle, fun hone => by simp [hall] at hone⟩
    rw [if_neg (by omega)]
    refine .ahead ⟨hgoing.lists, hgoing.flags, ?_⟩ (.inr ⟨mode, hdump, hmode⟩) ?_ hsent
    · show i < _
      split
      · rename_i hone
        have hindex := hle.2 hone
        omega
      · exact hlt
    · intro hn
      obtain ⟨-, mode', hlisting⟩ := hstarted hn
      rw [hphase] at hlisting
      cases hlisting
  | during L hQ hset hnow hkept hpriv hLphase hgoing harg0 hstarted hsent =>
    have hindex : p.cb.index = i := by
      have hsaved := hs.savedIndex hstarted
      unfold Core.Session.savedIndex at hsaved
      rwa [hphase] at hsaved
    rw [if_neg (by omega)]
    refine .during L hQ hset hnow hkept hpriv hLphase ⟨hgoing.lists, hgoing.flags, ?_⟩ harg0 hstarted
      (hsent.of_pending ?_)
    · show i < _
      split <;> omega
    · rw [hpending]
      rfl
  | behind L hQ hended hgoing hpassed hstarted hsent =>
    split
    · refine .complete L hQ hended rfl (hsent.of_pending ?_)
      rw [hpending]
      rfl
    · rename_i hmax
      have hone : mode.type ≠ .one := by
        intro hone
        obtain ⟨mode', hdump', hmode⟩ := hpassed
        obtain rfl := Option.some.inj (hdump.symm.trans hdump')
        have hmax_lt := hs.max_lt
        rcases hmode with ⟨-, hindex⟩ | ⟨hall, -⟩ | hlast
        · omega
        · simp [hone] at hall
        · simp [hone] at hlast
      refine .behind L hQ hended ⟨hgoing.lists, hgoing.flags, ?_⟩ hpassed ?_ (hsent.of_pending ?_)
      · show i < _
        rw [if_neg hone]
        exact hlt
      · intro hn
        obtain ⟨-, skb, hreleasing⟩ := hstarted hn
        rw [hphase] at hreleasing
        cases hreleasing
      · rw [hpending]
        rfl
  | complete L hQ hended hover hsent =>
    rw [hphase] at hover
    cases hover
  | failed e hfailed =>
    rw [hphase] at hfailed
    rcases hfailed with hfailed | ⟨index, skb, hfailed⟩ <;> cases hfailed

theorem Stage.call (h : Stage Q i n now data replaced sent p) (hs : AtSlot i n inst set p)
    (hphase : p.phase = .waiting)
    (hasked : p.cb.dump = none → ∀ name, p.req.setname = some name →
      inst.findSetAndId name = some (set, i)) :
    Stage Q i n now data replaced sent (Core.dumpCall inst p) := by
  unfold Core.dumpCall
  split
  · rename_i mode hdump
    exact h.enter hs hphase hdump
  · rename_i hdump
    have hpaused : p.cb.Paused inst p.started := by
      have hsound := hs.sound
      unfold Core.Session.Sound at hsound
      rwa [hphase] at hsound
    cases h with
    | ahead hgoing hahead hstarted hsent =>
      have hindex : p.cb.index = 0 := by
        rcases hahead with ⟨-, hindex⟩ | ⟨mode, hdump', -⟩
        · exact hindex
        · simp [hdump] at hdump'
      have hnone : p.started ≠ some n := by
        intro hn
        obtain ⟨-, mode, hlisting⟩ := hstarted hn
        simp [hphase] at hlisting
      split
      · rename_i e hinit
        exact .failed e (.inl rfl)
      · rename_i mode cb hinit
        obtain ⟨harg0, hdump'⟩ := Core.dumpInit_ok hinit
        have hcb : mode.flags = p.req.flags.getD 0 % 2 ^ 16 ∧ Ahead mode i cb.index := by
          unfold Core.dumpInit at hinit
          split at hinit
          · cases hinit
          split at hinit
          · rename_i name hname
            rw [hasked hdump name hname] at hinit
            cases hinit
            exact ⟨rfl, .inl ⟨rfl, rfl⟩⟩
          · cases hinit
            exact ⟨rfl, .inr ⟨rfl, hindex.trans_le (Nat.zero_le i)⟩⟩
        have hstage : Stage Q i n now data replaced sent { p with cb := cb } := by
          refine .ahead ⟨hgoing.lists, ?_, hgoing.phase⟩ (.inr ⟨mode, hdump', hcb.2⟩)
            (fun hn => absurd hn hnone) hsent
          intro mode' hmode'
          obtain rfl := Option.some.inj (hdump'.symm.trans hmode')
          exact hcb.1
        refine hstage.enter ⟨hs.slot, hs.id, hs.dumpLast, hs.identified, ?_, hs.isDestroyed,
          hs.max_lt⟩ hphase hdump'
        unfold Core.Session.Sound
        dsimp only
        rw [hphase]
        rcases hpaused with ⟨hzero, hnone⟩ | ⟨-, mode', hin⟩
        · exact .inl ⟨harg0.trans hzero, hnone⟩
        · have hdump' := hin.dump
          simp [hdump] at hdump'
    | during L hQ hset hnow hkept hpriv hLphase hgoing harg0 hstarted hsent =>
      rcases hpaused with ⟨hzero, -⟩ | ⟨-, mode, hin⟩
      · exact absurd hzero harg0
      · have hdump' := hin.dump
        simp [hdump] at hdump'
    | behind L hQ hended hgoing hpassed hstarted hsent =>
      obtain ⟨mode, hdump', -⟩ := hpassed
      simp [hdump] at hdump'
    | complete L hQ hended hover hsent =>
      simp [hphase] at hover
    | failed e hfailed =>
      simp [hphase] at hfailed

/-- An iteration of the loop shows no message, and starts the set `n` in front of slot `i` only. -/
theorem Stage.scan (h : Stage Q i n now data replaced sent p) (hs : AtSlot i n inst set p)
    {max : ℕ} {b : Bool} (hphase : p.phase = .scanning mode max b) :
    Stage Q i n now data replaced sent (Core.dumpScan mtypeVariant inst p mode max b).2.1 ∧
      (Core.dumpScan mtypeVariant inst p mode max b).2.2.filterMap message? = [] := by
  obtain ⟨hpaused, hdump, -⟩ : p.cb.Paused inst p.started ∧ p.cb.dump = some mode ∧
      (p.cb.arg0 ≠ 0 → p.cb.index < max) := by
    have hsound := hs.sound
    unfold Core.Session.Sound at hsound
    rwa [hphase] at hsound
  have hpending : pending n p = [] := pending_eq_nil (by simp [hphase])
  have hmax : Going i p → i < max := by
    intro hgoing
    have hmax := hgoing.phase
    rwa [hphase] at hmax
  cases h with
  | ahead hgoing hahead hstarted hsent =>
    have hmax := hmax hgoing
    obtain ⟨mode', hdump', hmode⟩ := hahead.resolve_left fun h => by simp [hdump] at h
    obtain rfl := Option.some.inj (hdump.symm.trans hdump')
    have hnone : p.started ≠ some n := by
      intro hn
      obtain ⟨-, mode', hlisting⟩ := hstarted hn
      simp [hphase] at hlisting
    have hle : p.cb.index ≤ i := by
      rcases hmode with ⟨-, hindex⟩ | ⟨-, hle⟩
      · exact hindex.le
      · exact hle
    -- the loop passes by a slot in front of slot `i` only
    have hnext : mode.type ≠ .one → p.cb.index ≠ i → ∀ b, Stage Q i n now data replaced sent { p with
        cb := { p.cb with index := p.cb.index + 1 }
        phase := .scanning mode max b } := by
      intro hone hne b
      have hall : mode.type = .all := by
        rcases hmode with ⟨hone', -⟩ | ⟨hall, -⟩
        · exact absurd hone' hone
        · exact hall
      exact .ahead ⟨hgoing.lists, hgoing.flags, hmax⟩
        (.inr ⟨mode, hdump, .inr ⟨hall, Nat.lt_of_le_of_ne hle hne⟩⟩) (fun hn => absurd hn hnone)
        hsent
    unfold Core.dumpScan
    rw [if_pos (by omega)]
    split
    · rename_i hslot
      have hne : p.cb.index ≠ i := by
        intro heq
        rw [heq, hs.slot] at hslot
        cases hslot
      split
      · rename_i hone
        rcases hmode with ⟨-, hindex⟩ | ⟨hall, -⟩
        · exact absurd hindex hne
        · simp [hone] at hall
      · rename_i hone
        rw [hs.isDestroyed, if_neg Bool.false_ne_true]
        exact ⟨hnext hone hne false, rfl⟩
    · rename_i t hslot
      rw [hs.isDestroyed, if_neg Bool.false_ne_true]
      split
      · rename_i hskips
        obtain ⟨hone, hiff⟩ := skips_iff.mp hskips
        refine ⟨hnext hone ?_ true, rfl⟩
        intro heq
        obtain rfl := Option.some.inj ((heq ▸ hslot).symm.trans hs.slot)
        rcases hmode with ⟨hone', -⟩ | ⟨hall, -⟩
        · exact hone hone'
        · exact absurd (hiff.mp hall) (by simp [hs.dumpLast])
      split
      · rename_i hzero
        refine ⟨.ahead ⟨hgoing.lists, hgoing.flags, trivial⟩ hahead ?_ hsent, rfl⟩
        intro hn
        have hindex : p.cb.index = i := hs.eq_of_id hslot (Option.some.inj hn)
        exact ⟨hzero, mode, by rw [hindex]⟩
      · refine ⟨.ahead ⟨hgoing.lists, hgoing.flags, trivial⟩ hahead ?_ hsent, rfl⟩
        exact fun hn => absurd hn hnone
  | during L hQ hset hnow hkept hpriv hLphase hgoing harg0 hstarted hsent =>
    have hmax := hmax hgoing
    have hindex : p.cb.index = i := by
      have hsaved := hs.savedIndex hstarted
      unfold Core.Session.savedIndex at hsaved
      rwa [hphase] at hsaved
    have hskips : mode.skips set.type = false := by
      rcases hpaused with ⟨hzero, -⟩ | ⟨-, mode', hin⟩
      · exact absurd hzero harg0
      · obtain rfl := Option.some.inj (hin.dump.symm.trans hdump)
        obtain ⟨t, ht, -, hskips⟩ := hin.set
        obtain rfl := Option.some.inj ((hindex ▸ ht).symm.trans hs.slot)
        exact hskips
    have hscan : Core.dumpScan mtypeVariant inst p mode max b =
        (inst, { p with phase := .listing mode p.cb.index }, []) := by
      unfold Core.dumpScan
      rw [if_pos (by omega), hindex, hs.slot]
      simp only [hs.isDestroyed, hskips, Bool.false_eq_true, if_false, harg0]
    rw [hscan]
    refine ⟨.during L hQ hset hnow hkept hpriv hLphase ⟨hgoing.lists, hgoing.flags, trivial⟩ harg0
      hstarted (hsent.of_pending ?_), rfl⟩
    rw [hpending]
    rfl
  | behind L hQ hended hgoing hpassed hstarted hsent =>
    have hmax := hmax hgoing
    obtain ⟨mode', hdump', hmode⟩ := hpassed
    obtain rfl := Option.some.inj (hdump.symm.trans hdump')
    have hnone : p.started ≠ some n := by
      intro hn
      obtain ⟨-, skb, hreleasing⟩ := hstarted hn
      simp [hphase] at hreleasing
    have hnext : mode.type ≠ .one → ∀ b, Stage Q i n now data replaced sent { p with
        cb := { p.cb with index := p.cb.index + 1 }
        phase := .scanning mode max b } := by
      intro hone b
      refine .behind L hQ hended ⟨hgoing.lists, hgoing.flags, hmax⟩ ⟨mode, hdump, ?_⟩
        (fun hn => absurd hn hnone) (hsent.of_pending (by rw [hpending]; rfl))
      rcases hmode with ⟨hone', -⟩ | ⟨hall, hlt⟩ | hlast
      · exact absurd hone' hone
      · exact .inr (.inl ⟨hall, Nat.lt_succ_of_lt hlt⟩)
      · exact .inr (.inr hlast)
    unfold Core.dumpScan
    split
    · split
      · split
        · exact ⟨.failed .enoent (.inl rfl), rfl⟩
        · rename_i hone
          rw [hs.isDestroyed, if_neg Bool.false_ne_true]
          exact ⟨hnext hone false, rfl⟩
      · rename_i t hslot
        rw [hs.isDestroyed, if_neg Bool.false_ne_true]
        split
        · rename_i hskips
          exact ⟨hnext (skips_iff.mp hskips).1 true, rfl⟩
        rename_i hskips
        split
        · refine ⟨.behind L hQ hended ⟨hgoing.lists, hgoing.flags, trivial⟩ ⟨mode, hdump, hmode⟩ ?_
            (hsent.of_pending (by rw [hpending]; rfl)), rfl⟩
          -- the set `n` is behind, or left to the other pass
          intro hn
          have hindex : p.cb.index = i := hs.eq_of_id hslot (Option.some.inj hn)
          obtain rfl := Option.some.inj ((hindex ▸ hslot).symm.trans hs.slot)
          have hlt := hs.lt_max
          have hmax_lt := hs.max_lt
          rcases hmode with ⟨-, hinvalid⟩ | ⟨-, hlt'⟩ | hlast
          · omega
          · omega
          · refine absurd (skips_iff.mpr ⟨?_, ?_⟩) hskips
            · simp [hlast]
            · simp [hlast, hs.dumpLast]
        · exact ⟨.behind L hQ hended ⟨hgoing.lists, hgoing.flags, trivial⟩ ⟨mode, hdump, hmode⟩
            (fun hn => absurd hn hnone) (hsent.of_pending (by rw [hpending]; rfl)), rfl⟩
    · split
      · -- the second pass, which is not about slot `i`
        have hlast : ∀ cb : Core.CbArgs (Htable A), cb.dump = some { mode with type := .last } →
            (if b then Core.urefEnd mtypeVariant cb else cb).dump =
              some { mode with type := .last } := by
          intro cb hcb
          split
          · rw [Core.urefEnd_dump, hcb]
          · exact hcb
        refine ⟨.behind L hQ hended ⟨hgoing.lists, ?_, hmax⟩ ⟨_, hlast _ rfl, .inr (.inr rfl)⟩
          (fun hn => absurd hn hnone) (hsent.of_pending (by rw [hpending]; rfl)), rfl⟩
        intro mode' hmode'
        obtain rfl := Option.some.inj ((hlast _ rfl).symm.trans hmode')
        exact hgoing.flags mode hdump
      · exact ⟨.complete L hQ hended rfl (hsent.of_pending (by rw [hpending]; rfl)), rfl⟩
  | complete L hQ hended hover hsent =>
    simp [hphase] at hover
  | failed e hfailed =>
    simp [hphase] at hfailed

/-! ### A message of the set -/

section
variable {jhash2 : HashDomainElem → BitVec 32 → BitVec 32} {start : ℕ} {P : Lister A → Prop}
  {now' : ℕ} {data' : DomainSet A} {c : DumpCall} {L : Lister A}

/-- Listings of the set at any tick up to `now` meet `P`. -/
def Admits (jhash2 : HashDomainElem → BitVec 32 → BitVec 32) (start : ℕ) (P : Lister A → Prop)
    (now : ℕ) (data : DomainSet A) : Prop :=
  ∀ L : Lister A, L.set = data → L.now ≤ now →
    (∃ a, Represents jhash2 start (L.now, L.set) a) → P L

theorem Admits.mono {data : DomainSet A} (h : Admits jhash2 start P now' data) (hle : now ≤ now') :
    Admits jhash2 start P now data :=
  fun L hset hnow hL => h L hset (hnow.trans hle) hL

theorem Listed.init (h : Reached jhash2 start now data) (hP : Admits jhash2 start P now data) :
    ∃ t, t ≤ now ∧ Listed jhash2 start P ⟨t, data, none, .paused 0, []⟩ := by
  obtain ⟨l, t, ht, hrun⟩ := h
  obtain ⟨a, -, ha⟩ := (represents_simulation jhash2 start).run hrun
  exact ⟨t, ht, [], .start ⟨⟨⟨l, hrun⟩, rfl, rfl, rfl⟩, hP _ rfl ht ⟨a, ha⟩⟩⟩

/-- A call of `mtype_list` takes the listing on, by one message. -/
theorem Listed.message (h : Listed jhash2 start P L) (set : Core.DomainSet (DomainSet A))
    (hset : L.set = data) (hle : L.now ≤ c.head) (hc : c.Timely now)
    (hclock : c.last ≤ start + 2 ^ (A.longBits - 1)) (hP : Admits jhash2 start P c.last data)
    (cb : Core.CbArgs (Htable A)) {body skb : Core.Skb} {arg0 : ℕ}
    (hpriv : cb.priv = some L.table) (hphase : L.phase = .paused cb.arg0)
    (hbody : attrDomains body.attrs = [])
    (hlist : mtypeList (c.listCall A).bucket { set with data := data } cb body =
      (.ok, arg0, skb)) :
    ∃ L', Listed jhash2 start P L' ∧ L'.set = data ∧ L'.now ≤ c.last ∧ L'.kept = L.kept ∧
      L'.sent = L.sent ++ [skb.attrs] ∧
      L'.phase = if arg0 = 0 then .ended .ok else .paused arg0 := by
  obtain ⟨l, hrun⟩ := h
  obtain ⟨hruns, hPL⟩ := hrun.of_within
  have hs := (Lister.run_reads hruns).toSound
  obtain ⟨a, ha⟩ := hs.represents
  have hlast := fun i => (hc.bucket i).2
  have hL : L.now ≤ c.last := (hle.trans (hc.bucket 0).1).trans (hlast 0)
  have hstates : ∀ t : Lister A, t.set = L.set → t.kept = L.kept →
      (t.now = L.now ∨ ∃ i, t.now = c.bucket i) → P t ∧ t.now ≤ c.last := by
    rintro t htset - ht
    have hnow : L.now ≤ t.now ∧ t.now ≤ c.last := by
      rcases ht with ht | ⟨i, ht⟩
      · exact ⟨ht.ge, ht.trans_le hL⟩
      · exact ⟨(hle.trans (hc.bucket i).1).trans ht.ge, ht.trans_le (hlast i)⟩
    have hlater := ha.later hnow.1 (hnow.2.trans hclock)
    exact ⟨hP t (htset.trans hset) hnow.2 ⟨_, htset ▸ hlater⟩, hnow.2⟩
  obtain ⟨l', L', hmoves, hset', hkept', hreturned⟩ := Lister.mtypeList_moves c.bucket hs hc.monotone
    (fun i => (hlast i).trans hclock) hstates { set with data := data } hset.symm cb hpriv hphase
    (hle.trans (hc.bucket cb.arg0).1) body hbody
  obtain ⟨hrun', -, hnow'⟩ := System.Run.within_mono (fun t ht => ht.1) ⟨hPL, hL⟩ hmoves
  rw [show mtypeList (fun i => jiffiesAt A (c.bucket i)) { set with data := data } cb body =
    (.ok, arg0, skb) from hlist] at hreturned
  refine ⟨L', ⟨_, hrun.append hrun'⟩, hset'.trans hset, hnow', hkept', ?_⟩
  cases arg0 with
  | zero => exact ⟨hreturned.2, hreturned.1⟩
  | succ k => exact ⟨hreturned.2, hreturned.1⟩

/-- Behind a message of the set `n` its session is in the middle of it, or has left it behind. -/
theorem Stage.listed {p' : Core.Session (Htable A)} {skb : Core.Skb}
    (h : Listed jhash2 start P L) (hset : L.set = data) (hnow : L.now ≤ now)
    (hphase : L.phase = if p'.cb.arg0 = 0 then .ended .ok else .paused p'.cb.arg0)
    (hkept : L.kept.isSome = replaced) (hpriv : p'.cb.priv = some L.table)
    (hp' : p'.phase = .releasing i .ok skb) (hgoing : Going i p') (hstarted : p'.started = some n)
    (hpassed : p'.cb.arg0 = 0 → ∃ mode, p'.cb.dump = some mode ∧ Passed mode i p'.cb.index)
    (hsent : Sends n sent p' L) :
    Stage (Listed jhash2 start P) i n now data replaced sent p' := by
  by_cases hzero : p'.cb.arg0 = 0
  · rw [if_pos hzero] at hphase
    exact .behind L h hphase hgoing (hpassed hzero) (fun _ => ⟨hzero, skb, hp'⟩) hsent
  · rw [if_neg hzero] at hphase
    exact .during L h hset hnow hkept hpriv hphase hgoing hzero hstarted hsent

/-- A message of another set leaves slot `i` on its side of the cursor. -/
theorem Stage.listedOther {arg0 : ℕ} {t : Core.DomainSet (DomainSet A)}
    (h : Stage Q i n now data replaced sent p) (hs : AtSlot i n inst set p)
    (hphase : p.phase = .listing mode p.cb.index) (ht : inst.domainSet p.cb.index = some t)
    (hdump : p.cb.dump = some mode) (hne : p.cb.index ≠ i) (p' : Core.Session (Htable A))
    {skb : Core.Skb} (hp' : p'.phase = .releasing p.cb.index .ok skb)
    (hstarted' : p'.started = p.started) (hcb : p'.cb = listedCb mode p.cb data' arg0)
    (hgoing' : Going i p') (now' : ℕ) (replaced' : Bool) :
    Stage Q i n now' data replaced' sent p' := by
  have hnone : p.started ≠ some n := by
    intro hn
    have hsaved := hs.savedIndex hn
    unfold Core.Session.savedIndex at hsaved
    rw [hphase] at hsaved
    exact hne hsaved
  have hpending : pending n p' = pending n p := by
    rw [pending_eq_nil (p := p) (by simp [hphase])]
    unfold pending
    rw [hp', hstarted']
    exact if_neg hnone
  have hdump' : p'.cb.dump = some mode := by rw [hcb, listedCb_dump, hdump]
  have hindex : (listedCb mode p.cb data' arg0).index = _ := listedCb_index p.cb data' arg0
  rw [← hcb] at hindex
  cases h with
  | ahead hgoing hahead hstarted hsent =>
    obtain ⟨mode', hdump'', hmode⟩ := hahead.resolve_left fun h => by simp [hdump] at h
    obtain rfl := Option.some.inj (hdump.symm.trans hdump'')
    refine .ahead hgoing' (.inr ⟨mode, hdump', ?_⟩) (fun hn => absurd (hstarted'.symm.trans hn) hnone)
      hsent
    rcases hmode with ⟨-, heq⟩ | ⟨hall, hle⟩
    · exact absurd heq hne
    · refine .inr ⟨hall, ?_⟩
      rw [hindex, hall]
      split
      · exact Nat.lt_of_le_of_ne hle hne
      · exact hle
  | during L hQ hset hL hkept hpriv hLphase hgoing harg0 hstarted hsent =>
    exact absurd hstarted hnone
  | behind L hQ hended hgoing hpassed hstarted hsent =>
    obtain ⟨mode', hdump'', hmode⟩ := hpassed
    obtain rfl := Option.some.inj (hdump.symm.trans hdump'')
    refine .behind L hQ hended hgoing' ⟨mode, hdump', ?_⟩
      (fun hn => absurd (hstarted'.symm.trans hn) hnone) (hsent.of_pending (by rw [hpending]))
    rcases hmode with ⟨-, hinvalid⟩ | ⟨hall, hlt⟩ | hlast
    · have hmax := Core.DomainSetNet.domainSet_lt ht
      have hmax_lt := hs.max_lt
      omega
    · refine .inr (.inl ⟨hall, ?_⟩)
      rw [hindex, hall]
      split
      · exact Nat.lt_succ_of_lt hlt
      · exact hlt
    · exact .inr (.inr hlast)
  | complete L hQ hended hover hsent => simp [hphase] at hover
  | failed e hfailed => simp [hphase] at hfailed

/-- The messages of a set that begins, and of one that is gone on with, are built alike. -/
theorem Stage.listedNext {t : Core.DomainSet (DomainSet A)} {cb' : Core.CbArgs (Htable A)}
    {skb : Core.Skb} (hdumped : Dumped (c.listCall A) mode t p.cb cb' data skb)
    (hL : Listed jhash2 start P L) (hset : L.set = data) (hle : L.now ≤ c.head)
    (hphase : L.phase = .paused p.cb.arg0) (hkept : L.kept.isSome = replaced)
    (hpriv : (if p.cb.arg0 = 0 then some data.table else p.cb.priv) = some L.table)
    (hsent : L.sent = sent)
    (hbegins : sent.countP beginsSet = if p.cb.arg0 = 0 then 0 else 1)
    (hc : c.Timely now) (hclock : c.last ≤ start + 2 ^ (A.longBits - 1))
    (hP : Admits jhash2 start P c.last data) (hindex : p.cb.index = i)
    (hdump : p.cb.dump = some mode) (hstarted : p.started = some n)
    (hgoing' : Going i { p with cb := cb', phase := .releasing i .ok skb }) :
    Stage (Listed jhash2 start P) i n c.last data replaced sent
      { p with cb := cb', phase := .releasing i .ok skb } := by
  obtain ⟨body, hbody, hlist⟩ := hdumped.list
  obtain ⟨L', hL', hset', hnow', hkept', hsent', hphase'⟩ := hL.message t hset hle hc hclock hP
    { p.cb with priv := if p.cb.arg0 = 0 then some data.table else p.cb.priv } hpriv hphase hbody
    hlist
  have htable : L'.table = L.table := by
    unfold Lister.table
    rw [hkept', hset', hset]
  refine .listed hL' hset' hnow' hphase' (hkept' ▸ hkept) ?_ rfl hgoing' hstarted ?_ ⟨?_, ?_⟩
  · show cb'.priv = _
    rw [hdumped.cursor, listedCb_priv, htable]
    exact hpriv
  · intro hzero
    have hzero : cb'.arg0 = 0 := hzero
    refine ⟨mode, ?_, ?_⟩
    · show cb'.dump = _
      rw [hdumped.cursor, listedCb_dump, hdump]
    · show Passed mode i cb'.index
      rw [hdumped.cursor, listedCb_index, if_pos hzero]
      cases htype : mode.type with
      | one => exact .inl ⟨htype, by simp⟩
      | all => exact .inr (.inl ⟨htype, by simp [hindex]⟩)
      | last => exact .inr (.inr htype)
  · show L'.sent = sent ++ if p.started = some n then [skb.attrs] else []
    rw [if_pos hstarted, hsent', hsent]
  · rw [hsent', hsent, countP_append, hbegins]
    have hone := hdumped.begins
    by_cases hzero : p.cb.arg0 = 0
    · rw [if_pos hzero]
      simp [hone, hzero]
    · rw [if_neg hzero]
      simp [hone, hzero]

/-- The message of a set takes the session on. -/
theorem Stage.list (h : Stage (Listed jhash2 start P) i n now set.data replaced sent p)
    (hs : AtSlot i n inst set p) {index : ℕ} (hphase : p.phase = .listing mode index)
    (hreached : Reached jhash2 start now set.data) (hc : c.Timely now)
    (hclock : c.last ≤ start + 2 ^ (A.longBits - 1)) {inst' : Core.DomainSetNet (DomainSet A)}
    {p' : Core.Session (Htable A)}
    (hlisting : Core.dumpListing mtypeVariant (c.listCall A).fns inst p mode index
      ⟨c.cap, c.pad64, 0, []⟩ = .ok (inst', p')) {set' : Core.DomainSet (DomainSet A)}
    (hset' : inst'.domainSet i = some set') (hP : Admits jhash2 start P c.last set'.data) :
    Stage (Listed jhash2 start P) i n c.last set'.data (replaced && !(p.cb.arg0 == 0)) sent p' := by
  have hhead : now ≤ c.head ∧ c.head ≤ c.last :=
    ⟨hc.head, (hc.bucket 0).1.trans (hc.bucket 0).2⟩
  have hin : p.cb.Within inst p.started index mode := by
    have hsound := hs.sound
    unfold Core.Session.Sound at hsound
    rwa [hphase] at hsound
  obtain ⟨t, ht, hstarted, -⟩ := hin.set
  obtain rfl := hin.index
  unfold Core.dumpListing at hlisting
  rw [ht] at hlisting
  dsimp only at hlisting
  rcases hmessage : Core.dumpMessage mtypeVariant (c.listCall A).fns mode p.cb.index t p.cb
    ⟨c.cap, c.pad64, 0, []⟩ with ⟨ret, cb', data', skb'⟩
  rw [hmessage] at hlisting
  cases hlisting
  cases ret with
  | err e => exact .failed e (.inr ⟨_, skb', rfl⟩)
  | ok =>
    have hgoing := h.going (by simp [hphase]) (by simp [hphase])
    obtain ⟨hsetname, hheader⟩ := hgoing.whole hin.dump
    have hdumped := dumpMessage_dumped hsetname hheader rfl hmessage
    have hgoing' : Going i { p with cb := cb', phase := .releasing p.cb.index .ok skb' } := by
      refine ⟨hgoing.lists, ?_, rfl, hdumped.len⟩
      rw [hdumped.cursor, listedCb_dump]
      exact hgoing.flags
    rw [Core.DomainSetNet.domainSet_setSlot (Core.DomainSetNet.domainSet_lt ht)] at hset'
    by_cases hindex : p.cb.index = i
    · rw [if_pos hindex.symm] at hset'
      cases hset'
      obtain rfl := Option.some.inj ((hindex ▸ ht).symm.trans hs.slot)
      have hn : p.started = some n := hstarted.trans (congrArg some hs.id)
      rw [hindex] at hgoing' ⊢
      cases h with
      | ahead hgoing'' hahead hfresh hsent =>
        obtain ⟨hzero, -⟩ := hfresh hn
        have hfound : data' = headSet (jiffiesAt A c.head) c.alloc t.data :=
          hdumped.found.trans (if_pos hzero)
        have hreached' := hreached.evolves (show Evolves jhash2 start (fun _ => False) _ _ _ _ from
          .head c.alloc hhead.1 le_rfl (hhead.2.trans hclock))
        rw [← hfound] at hreached'
        obtain ⟨t0, ht0, hL⟩ := Listed.init hreached' (hP.mono hhead.2)
        exact Stage.listedNext hdumped hL rfl ht0 (by rw [hzero]) (by simp [hzero])
          (by rw [if_pos hzero]; rfl) hsent.symm (by rw [if_pos hzero, hsent]; rfl) hc hclock hP hindex
          hin.dump hn hgoing'
      | during L hL hset hnow hkept hpriv hLphase hgoing'' harg0 _ hsent =>
        have hfound : data' = t.data := hdumped.found.trans (if_neg harg0)
        have hpending : pending n p = [] := pending_eq_nil (by simp [hphase])
        have hsent' : L.sent = sent := by rw [hsent.sent, hpending, append_nil]
        exact Stage.listedNext hdumped hL (hset.trans hfound.symm) (hnow.trans hhead.1) hLphase
          (by simp [harg0, hkept]) (by rw [if_neg harg0, hpriv]) hsent'
          (by rw [if_neg harg0, ← hsent', hsent.begins]) hc hclock hP hindex hin.dump hn hgoing'
      | behind L hL hended hgoing'' hpassed hreleasing hsent =>
        obtain ⟨-, skb, hreleasing⟩ := hreleasing hn
        simp [hphase] at hreleasing
      | complete L hL hended hover hsent => simp [hphase] at hover
      | failed e hfailed => simp [hphase] at hfailed
    · rw [if_neg (Ne.symm hindex), hs.slot] at hset'
      cases hset'
      exact h.listedOther hs hphase ht hin.dump hindex
        { p with cb := cb', phase := .releasing p.cb.index .ok skb' } rfl rfl hdumped.cursor
        hgoing' _ _

theorem Stage.released (h : Stage Q i n now data replaced sent p) {index : ℕ} {skb : Core.Skb}
    (hphase : p.phase = .releasing index .ok skb) {p' : Core.Session (Htable A)}
    (hphase' : p'.phase = .waiting) (hreq : p'.req = p.req) (hdump : p'.cb.dump = p.cb.dump)
    (hindex : p'.cb.index = p.cb.index) (hstarted' : p'.started = none ∨ p'.started = p.started)
    (hmiddle : p.cb.arg0 ≠ 0 → p'.cb = p.cb ∧ p'.started = p.started)
    (hend : p.cb.arg0 = 0 → p'.started = none) :
    Stage Q i n now data replaced (sent ++ if p.started = some n then [skb.attrs] else []) p' := by
  have hpending : pending n p = if p.started = some n then [skb.attrs] else [] := by
    unfold pending
    rw [hphase]
  have hpending' : pending n p' = [] := pending_eq_nil (by simp [hphase'])
  have hgoing' : Going i p → Going i p' := by
    intro hgoing
    refine ⟨hreq ▸ hgoing.lists, ?_, by rw [hphase']; trivial⟩
    rw [hreq, hdump]
    exact hgoing.flags
  have hsends : ∀ {L : Lister A}, Sends n sent p L → Sends n
      (sent ++ if p.started = some n then [skb.attrs] else []) p' L :=
    fun hsent => hsent.of_pending (by rw [hpending, hpending', append_nil])
  have hnone : p.started ≠ some n → p'.started ≠ some n := by
    intro hn
    rcases hstarted' with h | h <;> rw [h]
    · simp
    · exact hn
  cases h with
  | ahead hgoing hahead hstarted hsent =>
    have hn : p.started ≠ some n := by
      intro hn
      obtain ⟨-, mode, hlisting⟩ := hstarted hn
      simp [hphase] at hlisting
    rw [if_neg hn, append_nil]
    refine .ahead (hgoing' hgoing) ?_ (fun hn' => absurd hn' (hnone hn)) hsent
    rwa [hdump, hindex]
  | during L hQ hset hnow hkept hpriv hLphase hgoing harg0 hstarted hsent =>
    obtain ⟨hcb, hs⟩ := hmiddle harg0
    exact .during L hQ hset hnow hkept (by rw [hcb, hpriv]) (by rw [hcb, hLphase]) (hgoing' hgoing)
      (by rwa [hcb]) (hs.trans hstarted) (hsends hsent)
  | behind L hQ hended hgoing hpassed hstarted hsent =>
    refine .behind L hQ hended (hgoing' hgoing) (by rwa [hdump, hindex]) ?_ (hsends hsent)
    intro hn'
    by_cases hn : p.started = some n
    · have hnone' := hend (hstarted hn).1
      simp [hnone'] at hn'
    · exact absurd hn' (hnone hn)
  | complete L hQ hended hover hsent => simp [hphase] at hover
  | failed e hfailed => simp [hphase] at hfailed

theorem about_started (o : Option ℕ) (skb : Core.Skb) :
    about n ((o.toList.map fun id => Core.DumpEvent.message id skb).filterMap message?) =
      if o = some n then [skb.attrs] else [] := by
  cases o with
  | none => rfl
  | some id =>
    by_cases hid : id = n
    · subst hid
      simp [about, message?]
    · simp [about, message?, hid]

theorem about_append (l l' : List (ℕ × Core.Skb)) : about n (l ++ l') = about n l ++ about n l' :=
  filterMap_append

/-- At `release_refcount` the message goes out. -/
theorem Stage.release (h : Stage Q i n now data replaced sent p) {index : ℕ} {ret : Ret}
    {skb : Core.Skb} (hphase : p.phase = .releasing index ret skb)
    {inst' : Core.DomainSetNet (DomainSet A)} {p' : Core.Session (Htable A)}
    {events : List Core.DumpEvent}
    (hrelease : Core.dumpRelease mtypeVariant inst p index ret skb = .ok (inst', p', events)) :
    Stage Q i n now data replaced (sent ++ about n (events.filterMap message?)) p' := by
  cases ret with
  | err e =>
    have hp' : p'.phase = .ended (some e) := by
      unfold Core.dumpRelease at hrelease
      rw [if_pos (.inl Ret.noConfusion)] at hrelease
      obtain ⟨r, -, hrelease⟩ := bind_ok hrelease
      cases hrelease
      rfl
    exact .failed e (.inl hp')
  | ok =>
    have hlen : skb.len ≠ 0 := by
      have hgoing := (h.going (by simp [hphase]) (by simp [hphase])).phase
      rw [hphase] at hgoing
      exact hgoing.2
    have hreturn : ∀ q : Core.Session (Htable A), Core.dumpReturn q p.started .ok skb =
        ({ q with phase := .waiting }, p.started.toList.map fun id => .message id skb) :=
      fun q => if_neg hlen
    unfold Core.dumpRelease at hrelease
    split at hrelease
    · rename_i hzero
      have hzero : p.cb.arg0 = 0 := by simpa using hzero
      obtain ⟨⟨inst1, p1, events1⟩, hput, hrelease⟩ := bind_ok hrelease
      obtain ⟨rfl, ⟨id, rfl⟩, -⟩ := dumpPut_inv hput
      simp only [hreturn] at hrelease
      cases hrelease
      have habout : about n ((p.started.toList.map (fun id => Core.DumpEvent.message id skb) ++
          [Core.DumpEvent.release id]).filterMap message?) =
            if p.started = some n then [skb.attrs] else [] := by
        rw [filterMap_append, about_append, about_started]
        exact append_nil _
      rw [habout]
      exact h.released hphase rfl rfl rfl rfl (.inl rfl) (fun hne => absurd hzero hne) fun _ => rfl
    · rename_i hne
      simp only [hreturn] at hrelease
      cases hrelease
      rw [about_started]
      have hne : p.cb.arg0 ≠ 0 := by simpa using hne
      exact h.released hphase rfl rfl rfl rfl (.inr rfl) (fun _ => ⟨rfl, rfl⟩)
        fun hzero => absurd hzero hne

/-! ### Calls on the sets -/

theorem Going.changePriv (h : Going i p) (id : ℕ) (g : Htable A → Htable A) :
    Going i (p.changePriv id g) := ⟨h.lists, h.flags, h.phase⟩

/-- A call on the set goes into its listing. -/
theorem Stage.op (h : Stage (Listed jhash2 start P) i n now set.data replaced sent p) {c : Call}
    (hstep : (clockedSystem A jhash2 start).step (now, set.data) c (c.now, data'))
    (hP : Admits jhash2 start P c.now data') :
    Stage (Listed jhash2 start P) i n c.now data'
      (replaced || c.resized && p.started == some n) sent
      (p.changePriv n fun t => if replaced || c.resized then t else data'.table) := by
  cases h with
  | ahead hgoing hahead hstarted hsent =>
    exact .ahead (hgoing.changePriv _ _) hahead hstarted hsent
  | during L hL hset hnow hkept hpriv hLphase hgoing harg0 hstarted hsent =>
    obtain ⟨l, hrun⟩ := hL
    have hcall : (listSystem A jhash2 start).step L (.call c) (L.called c data') :=
      ⟨data', ⟨hnow.trans hstep.1, hset ▸ hstep.2⟩, rfl⟩
    have hs' := ((Lister.run_reads hrun.of_within.1).step hcall).toSound
    have hL' : Listed jhash2 start P (L.called c data') :=
      ⟨_, hrun.snoc ⟨hcall, hP _ rfl le_rfl hs'.represents⟩⟩
    have hpriv' : (p.changePriv n fun t => if replaced || c.resized then t else data'.table).cb.priv =
        some (L.called c data').table := by
      show (if p.started = some n then _ else _) = _
      rw [if_pos hstarted, hpriv, ← hkept]
      unfold Lister.called Lister.table
      dsimp only [Option.map_some]
      cases hr : c.resized with
      | true => simp
      | false => cases hk : L.kept <;> simp
    refine .during _ hL' rfl le_rfl ?_ hpriv' hLphase (hgoing.changePriv _ _) harg0 hstarted
      ⟨hsent.sent, hsent.begins⟩
    rw [← hkept]
    unfold Lister.called
    cases hr : c.resized with
    | true => simp [hstarted]
    | false => simp
  | behind L hL hended hgoing hpassed hstarted hsent =>
    exact .behind L hL hended (hgoing.changePriv _ _) hpassed hstarted ⟨hsent.sent, hsent.begins⟩
  | complete L hL hended hover hsent => exact .complete L hL hended hover ⟨hsent.sent, hsent.begins⟩
  | failed e hfailed => exact .failed e hfailed

theorem Stage.opOther (h : Stage Q i n now data replaced sent p) {id : ℕ} (hid : id ≠ n)
    (hle : now ≤ now') (b : Bool) (g : Htable A → Htable A) :
    Stage Q i n now' data (replaced || b && p.started == some id) sent (p.changePriv id g) := by
  cases h with
  | ahead hgoing hahead hstarted hsent =>
    exact .ahead (hgoing.changePriv _ _) hahead hstarted hsent
  | during L hQ hset hnow hkept hpriv hLphase hgoing harg0 hstarted hsent =>
    have hne : p.started ≠ some id := by
      rw [hstarted]
      simpa using hid.symm
    refine .during L hQ hset (hnow.trans hle) ?_ ?_ hLphase (hgoing.changePriv _ _) harg0 hstarted
      ⟨hsent.sent, hsent.begins⟩
    · simp [hkept, hne]
    · show (if p.started = some id then _ else _) = _
      rw [if_neg hne, hpriv]
  | behind L hQ hended hgoing hpassed hstarted hsent =>
    exact .behind L hQ hended (hgoing.changePriv _ _) hpassed hstarted ⟨hsent.sent, hsent.begins⟩
  | complete L hQ hended hover hsent => exact .complete L hQ hended hover ⟨hsent.sent, hsent.begins⟩
  | failed e hfailed => exact .failed e hfailed

theorem Evolves.listing {added : HashDomainElem → Prop} (hset : inst.domainSet i = some set)
    {index : ℕ} {inst' : Core.DomainSetNet (DomainSet A)} {p' : Core.Session (Htable A)} {skb : Core.Skb}
    (hlisting : Core.dumpListing mtypeVariant (c.listCall A).fns inst p mode index skb =
      .ok (inst', p')) {set' : Core.DomainSet (DomainSet A)}
    (hset' : inst'.domainSet i = some set') (hc : c.Timely now)
    (hclock : c.last ≤ start + 2 ^ (A.longBits - 1)) :
    Evolves jhash2 start added now set.data c.last set'.data := by
  have hhead : c.head ≤ c.last := (hc.bucket 0).1.trans (hc.bucket 0).2
  unfold Core.dumpListing at hlisting
  split at hlisting
  · cases hlisting
  · rename_i t ht
    have hdata := dumpMessage_data (c.listCall A) mode index t p.cb skb
    generalize Core.dumpMessage mtypeVariant (c.listCall A).fns mode index t p.cb skb = r
      at hlisting hdata
    obtain ⟨ret, cb', data1, skb'⟩ := r
    dsimp only at hdata
    cases hlisting
    rw [Core.DomainSetNet.domainSet_setSlot (Core.DomainSetNet.domainSet_lt ht)] at hset'
    split at hset'
    · rename_i heq
      cases hset'
      obtain rfl := Option.some.inj ((heq ▸ hset).symm.trans ht)
      rcases hdata with hdata | hdata
      · exact .same (hc.head.trans hhead) hdata
      · exact hdata ▸ .head c.alloc hc.head hhead hclock
    · obtain rfl := Option.some.inj (hset.symm.trans hset')
      exact .same (hc.head.trans hhead) rfl

end

end

end Dset.Hash
