import Dset.Core.Net

/-! One dump session against the sets of its namespace. What holds of a session in the
middle of a set depends on the phase it is in, and each of its steps keeps it, without
running into a fault: the set it has started is still in the slot it will give back. -/

namespace Dset.Core

open Dset.Lib

variable {δ π : Type} {v : Variant δ π}

/-! ### The sets in their slots -/

/-- Every set has an address of its own. -/
structure DomainSetNet.Identified (inst : DomainSetNet δ) : Prop where
  lt : ∀ i set, inst.domainSet i = some set → set.id < inst.nextId
  distinct : ∀ i j a b, inst.domainSet i = some a → inst.domainSet j = some b → a.id = b.id → i = j

/-- The sets in the slots stay there, with their types and names. -/
structure SameSets (inst inst' : DomainSetNet δ) : Prop where
  sets : ∀ i, (inst'.domainSet i).map (fun s => (s.id, s.type, s.name)) =
    (inst.domainSet i).map fun s => (s.id, s.type, s.name)
  max : inst'.domainSetMax = inst.domainSetMax
  nextId : inst'.nextId = inst.nextId
  isDestroyed : inst'.isDestroyed = inst.isDestroyed

namespace SameSets

variable {inst inst' : DomainSetNet δ}

theorem refl (inst : DomainSetNet δ) : SameSets inst inst := ⟨fun _ => rfl, rfl, rfl, rfl⟩

theorem setSlot {i : ℕ} {s t : DomainSet δ} (hs : inst.domainSet i = some s) (hid : t.id = s.id)
    (htype : t.type = s.type) (hname : t.name = s.name) :
    SameSets inst (inst.setSlot i (some t)) where
  sets j := by
    rw [DomainSetNet.domainSet_setSlot (DomainSetNet.domainSet_lt hs)]
    split
    · rename_i heq
      simp [heq, hs, hid, htype, hname]
    · rfl
  max := DomainSetNet.setSlot_max _ _ _
  nextId := rfl
  isDestroyed := rfl

theorem exists_after (h : SameSets inst inst') {i : ℕ} {set : DomainSet δ}
    (hs : inst.domainSet i = some set) :
    ∃ set', inst'.domainSet i = some set' ∧ set'.id = set.id ∧ set'.type = set.type := by
  have := h.sets i
  rw [hs] at this
  obtain ⟨set', hs', heq⟩ := Option.map_eq_some_iff.mp this
  exact ⟨set', hs', congrArg Prod.fst heq, congrArg (·.2.1) heq⟩

theorem exists_before (h : SameSets inst inst') {i : ℕ} {set' : DomainSet δ}
    (hs : inst'.domainSet i = some set') :
    ∃ set, inst.domainSet i = some set ∧ set.id = set'.id ∧ set.type = set'.type := by
  have := (h.sets i).symm
  rw [hs] at this
  obtain ⟨set, hs', heq⟩ := Option.map_eq_some_iff.mp this
  exact ⟨set, hs', congrArg Prod.fst heq, congrArg (·.2.1) heq⟩

theorem identified (h : SameSets inst inst') (hid : inst.Identified) : inst'.Identified where
  lt i set' hs' := by
    obtain ⟨set, hs, heq, -⟩ := h.exists_before hs'
    rw [h.nextId, ← heq]
    exact hid.lt i set hs
  distinct i j a' b' ha' hb' heq := by
    obtain ⟨a, ha, hida, -⟩ := h.exists_before ha'
    obtain ⟨b, hb, hidb, -⟩ := h.exists_before hb'
    exact hid.distinct i j a b ha hb (by rw [hida, heq, hidb])

end SameSets

theorem DataChange.sameSets {inst inst' : DomainSetNet δ} (h : DataChange inst inst') :
    SameSets inst inst' := by
  refine ⟨fun i => ?_, h.max, h.nextId, h.isDestroyed⟩
  rcases h.domainSet i with ⟨h1, h2⟩ | ⟨s, data, h1, h2⟩ <;> rw [h1, h2]
  rfl

/-! ### What holds of a session -/

namespace CbArgs

/-- In the middle of the set `started`, in slot `index`, and bound to stay there when
the listing of the set goes on. -/
structure Within (inst : DomainSetNet δ) (cb : CbArgs π) (started : Option ℕ) (index : ℕ)
    (mode : DumpMode) : Prop where
  set : ∃ set, inst.domainSet index = some set ∧ started = some set.id ∧
    mode.skips set.type = false
  dump : cb.dump = some mode
  index : cb.index = index
  listSetname : cb.arg0 ≠ 0 → mode.listSetname = false

/-- Between two sets, or in the middle of one. -/
def Paused (inst : DomainSetNet δ) (cb : CbArgs π) (started : Option ℕ) : Prop :=
  cb.arg0 = 0 ∧ started = none ∨ cb.arg0 ≠ 0 ∧ ∃ mode, cb.Within inst started cb.index mode

variable {inst inst' : DomainSetNet δ} {cb : CbArgs π} {started : Option ℕ} {index : ℕ}
  {mode : DumpMode}

theorem Within.mono (h : cb.Within inst started index mode)
    (hsets : ∀ i set, inst.domainSet i = some set → started = some set.id →
      ∃ set', inst'.domainSet i = some set' ∧ set'.id = set.id ∧ set'.type = set.type) :
    cb.Within inst' started index mode := by
  obtain ⟨set, hset, hstarted, hskips⟩ := h.set
  obtain ⟨set', hset', hid, htype⟩ := hsets index set hset hstarted
  exact ⟨⟨set', hset', by rw [hstarted, hid], by rw [htype, hskips]⟩, h.dump, h.index,
    h.listSetname⟩

theorem Paused.mono (h : cb.Paused inst started)
    (hsets : ∀ i set, inst.domainSet i = some set → started = some set.id →
      ∃ set', inst'.domainSet i = some set' ∧ set'.id = set.id ∧ set'.type = set.type) :
    cb.Paused inst' started := by
  rcases h with h | ⟨h, mode, hin⟩
  · exact .inl h
  · exact .inr ⟨h, mode, hin.mono hsets⟩

theorem Paused.lt_max (h : cb.Paused inst started) (hne : cb.arg0 ≠ 0) :
    cb.index < inst.domainSetMax := by
  rcases h with ⟨hzero, -⟩ | ⟨-, mode, hin⟩
  · exact absurd hzero hne
  · obtain ⟨set, hset, -⟩ := hin.set
    exact DomainSetNet.domainSet_lt hset

end CbArgs

namespace Session

def Sound (inst : DomainSetNet δ) (p : Session π) : Prop :=
  match p.phase with
  | .waiting | .ended _ => p.cb.Paused inst p.started
  | .scanning mode max _ =>
    p.cb.Paused inst p.started ∧ p.cb.dump = some mode ∧ (p.cb.arg0 ≠ 0 → p.cb.index < max)
  | .listing mode index => p.cb.Within inst p.started index mode
  | .releasing index ret _ =>
    (∃ set, inst.domainSet index = some set ∧ p.started = some set.id) ∧
      (ret = .ok → p.cb.arg0 ≠ 0 → ∃ mode, p.cb.Within inst p.started index mode)
  | .finished => p.started = none

/-- The index of the set a session is in the middle of. -/
def savedIndex (p : Session π) : ℕ :=
  match p.phase with
  | .listing _ index | .releasing index _ _ => index
  | _ => p.cb.index

/-- Whether a session has started the set `id`, and not yet released it. -/
def starts (id : ℕ) (p : Session π) : ℕ := if p.started = some id then 1 else 0

variable {inst inst' : DomainSetNet δ} {p : Session π}

/-- A session depends on the set it has started only. -/
theorem Sound.mono (h : p.Sound inst)
    (hsets : ∀ i set, inst.domainSet i = some set → p.started = some set.id →
      ∃ set', inst'.domainSet i = some set' ∧ set'.id = set.id ∧ set'.type = set.type) :
    p.Sound inst' := by
  unfold Sound at h ⊢
  split at h
  · exact h.mono hsets
  · exact h.mono hsets
  · exact ⟨h.1.mono hsets, h.2⟩
  · exact h.mono hsets
  · obtain ⟨⟨set, hset, hstarted⟩, hin⟩ := h
    obtain ⟨set', hset', hid, -⟩ := hsets _ set hset hstarted
    refine ⟨⟨set', hset', by rw [hstarted, hid]⟩, fun hret hne => ?_⟩
    obtain ⟨mode, hmode⟩ := hin hret hne
    exact ⟨mode, hmode.mono hsets⟩
  · exact h

theorem Sound.sameSets (h : p.Sound inst) (hsame : SameSets inst inst') : p.Sound inst' :=
  h.mono fun _ _ hs _ => hsame.exists_after hs

/-- What it keeps for a type does not count. -/
theorem Sound.changePriv (h : p.Sound inst) (id : ℕ) (g : π → π) :
    (p.changePriv id g).Sound inst := by
  have hin : ∀ {index : ℕ} {mode : DumpMode}, p.cb.Within inst p.started index mode →
      (p.changePriv id g).cb.Within inst p.started index mode :=
    fun hin => ⟨hin.set, hin.dump, hin.index, hin.listSetname⟩
  have hpaused : p.cb.Paused inst p.started →
      (p.changePriv id g).cb.Paused inst p.started := by
    rintro (hidle | ⟨hne, mode, hmode⟩)
    · exact .inl hidle
    · exact .inr ⟨hne, mode, hin hmode⟩
  unfold Sound at h ⊢
  split at h <;> rename_i hphase <;> simp only [Session.changePriv, hphase]
  · exact hpaused h
  · exact hpaused h
  · exact ⟨hpaused h.1, h.2⟩
  · exact hin h
  · refine ⟨h.1, fun hret hne => ?_⟩
    obtain ⟨mode, hmode⟩ := h.2 hret hne
    exact ⟨mode, hin hmode⟩
  · exact h

/-- The set a session has started is in the slot of its index. -/
theorem Sound.started (h : p.Sound inst) {id : ℕ} (hid : p.started = some id) :
    ∃ set, inst.domainSet p.savedIndex = some set ∧ set.id = id := by
  have hpaused : p.cb.Paused inst p.started → ∃ set, inst.domainSet p.cb.index = some set ∧ set.id = id := by
    rintro (⟨-, hnone⟩ | ⟨-, mode, hin⟩)
    · rw [hnone] at hid
      cases hid
    · obtain ⟨set, hset, hstarted, -⟩ := hin.set
      exact ⟨set, hset, Option.some.inj (hstarted.symm.trans hid)⟩
  unfold Sound at h
  unfold savedIndex
  split at h <;> rename_i hphase <;> simp only [hphase]
  · exact hpaused h
  · exact hpaused h
  · exact hpaused h.1
  · obtain ⟨set, hset, hstarted, -⟩ := h.set
    exact ⟨set, hset, Option.some.inj (hstarted.symm.trans hid)⟩
  · obtain ⟨⟨set, hset, hstarted⟩, -⟩ := h
    exact ⟨set, hset, Option.some.inj (hstarted.symm.trans hid)⟩
  · rw [h] at hid
    cases hid

end Session

/-! ### Starts and releases -/

/-- The set a session has after an event; `none` when it starts a set in the middle of
another one, or releases one it has not started. -/
def DumpEvent.follow : Option ℕ → DumpEvent → Option (Option ℕ)
  | none, .start id => some (some id)
  | some id, .release id' => if id = id' then some none else none
  | o, .message _ _ => some o
  | _, _ => none

/-- What a step does: it keeps the sets in their slots, shows what it starts and
releases, and counts it in `ref_netlink`. -/
structure SessionResult (inst : DomainSetNet δ) (p : Session π) (inst' : DomainSetNet δ)
    (p' : Session π) (events : List DumpEvent) : Prop where
  sets : SameSets inst inst'
  sound : p'.Sound inst'
  events : events.foldlM DumpEvent.follow p.started = some p'.started
  refNetlink : ∀ i set set', inst.domainSet i = some set → inst'.domainSet i = some set' →
    set'.refNetlink + p.starts set.id = set.refNetlink + p'.starts set.id
  isDestroyed : inst.isDestroyed = true → p.started = none → p'.started = none

namespace SessionResult

variable {inst inst' : DomainSetNet δ} {p p' : Session π}

theorem unchanged (hsets : DataChange inst inst') (hstarted : p'.started = p.started)
    (hsound : p'.Sound inst') : SessionResult inst p inst' p' [] where
  sets := hsets.sameSets
  sound := hsound
  events := by rw [hstarted]; rfl
  refNetlink i set set' hs hs' := by
    rcases hsets.domainSet i with ⟨h1, h2⟩ | ⟨s, data, h1, h2⟩
    · rw [hs] at h1
      cases h1
    · obtain rfl : set = s := Option.some.inj (hs.symm.trans h1)
      obtain rfl := Option.some.inj (hs'.symm.trans h2)
      rw [Session.starts, Session.starts, hstarted]
  isDestroyed _ h := hstarted.trans h

/-- A step that starts the set in a slot. -/
theorem started (hid : inst.Identified) {index : ℕ} {set : DomainSet δ}
    (hset : inst.domainSet index = some set) (hnone : p.started = none)
    (hp' : p'.started = some set.id) (hdestroyed : inst.isDestroyed = false)
    (hsound : p'.Sound inst) :
    SessionResult inst p
      (inst.setSlot index (some { set with refNetlink := set.refNetlink + 1 })) p'
      [.start set.id] where
  sets := .setSlot hset rfl rfl rfl
  sound := hsound.sameSets (.setSlot hset rfl rfl rfl)
  events := by rw [hnone, hp']; rfl
  refNetlink i s s' hs hs' := by
    rw [DomainSetNet.domainSet_setSlot (DomainSetNet.domainSet_lt hset)] at hs'
    simp only [Session.starts, hnone, hp']
    split at hs'
    · rename_i heq
      subst heq
      obtain rfl : set = s := Option.some.inj (hset.symm.trans hs)
      cases hs'
      simp
    · rename_i hne
      obtain rfl : s = s' := Option.some.inj (hs.symm.trans hs')
      have : set.id ≠ s.id := fun heq => hne (hid.distinct i index s set hs hset heq.symm)
      simp [this]
  isDestroyed h := by
    rw [hdestroyed] at h
    cases h

/-- A step that gives back the set in a slot. -/
theorem released (events : List DumpEvent) (hid : inst.Identified) {index : ℕ} {set : DomainSet δ}
    (hset : inst.domainSet index = some set) (hstarted : p.started = some set.id)
    (hpos : 0 < set.refNetlink) (hp' : p'.started = none) (hsound : ∀ inst' : DomainSetNet δ, p'.Sound inst')
    (hevents : events.foldlM DumpEvent.follow (some set.id) = some (some set.id)) :
    SessionResult inst p
      (inst.setSlot index (some { set with refNetlink := set.refNetlink - 1 })) p'
      (events ++ [.release set.id]) where
  sets := .setSlot hset rfl rfl rfl
  sound := hsound _
  events := by
    rw [hstarted, hp', List.foldlM_append, hevents]
    simp [DumpEvent.follow]
  refNetlink i s s' hs hs' := by
    rw [DomainSetNet.domainSet_setSlot (DomainSetNet.domainSet_lt hset)] at hs'
    simp only [Session.starts, hstarted, hp']
    split at hs'
    · rename_i heq
      subst heq
      obtain rfl : set = s := Option.some.inj (hset.symm.trans hs)
      cases hs'
      simp only [if_true, reduceCtorEq, if_false]
      omega
    · rename_i hne
      obtain rfl : s = s' := Option.some.inj (hs.symm.trans hs')
      have : set.id ≠ s.id := fun heq => hne (hid.distinct i index s set hs hset heq.symm)
      simp [this]
  isDestroyed _ _ := hp'

end SessionResult

/-! ### The steps -/

section Steps

variable {inst inst' : DomainSetNet δ} {p p' : Session π} {mode : DumpMode} {cb cb' : CbArgs π}

@[simp] theorem urefStart_index (data : δ) : (urefStart v data cb).index = cb.index := by
  unfold urefStart
  split <;> rfl

@[simp] theorem urefStart_dump (data : δ) : (urefStart v data cb).dump = cb.dump := by
  unfold urefStart
  split <;> rfl

@[simp] theorem urefEnd_arg0 : (urefEnd v cb).arg0 = cb.arg0 := by
  unfold urefEnd
  split <;> rfl

@[simp] theorem urefEnd_dump : (urefEnd v cb).dump = cb.dump := by
  unfold urefEnd
  split <;> rfl

theorem dumpInit_ok {req : DumpRequest} (h : dumpInit inst req cb = .ok (mode, cb')) :
    cb'.arg0 = cb.arg0 ∧ cb'.dump = some mode := by
  unfold dumpInit at h
  split at h
  · cases h
  · split at h
    · split at h
      · cases h
      · cases h
        exact ⟨rfl, rfl⟩
    · cases h
      exact ⟨rfl, rfl⟩

theorem dumpEnter_started : (dumpEnter inst p mode).started = p.started := by
  unfold dumpEnter
  split <;> rfl

theorem dumpEnter_sound (h : p.cb.Paused inst p.started) (hdump : p.cb.dump = some mode) :
    (dumpEnter inst p mode).Sound inst := by
  unfold dumpEnter
  split
  · exact h
  · refine ⟨h, hdump, fun hne => ?_⟩
    show p.cb.index < _
    split
    · exact Nat.lt_succ_self _
    · exact h.lt_max hne

theorem dumpCall_result (h : p.cb.Paused inst p.started) : SessionResult inst p inst (dumpCall inst p) [] := by
  unfold dumpCall
  split
  · rename_i mode hdump
    exact .unchanged (.refl _) dumpEnter_started (dumpEnter_sound h hdump)
  · rename_i hdump
    have hidle : p.cb.arg0 = 0 ∧ p.started = none := by
      rcases h with h | ⟨-, mode, hin⟩
      · exact h
      · rw [hin.dump] at hdump
        cases hdump
    split
    · exact .unchanged (.refl _) rfl h
    · rename_i mode cb' hinit
      obtain ⟨harg0, hdump'⟩ := dumpInit_ok hinit
      refine .unchanged (.refl _) dumpEnter_started (dumpEnter_sound (.inl ?_) hdump')
      exact ⟨harg0.trans hidle.1, hidle.2⟩

theorem dumpScan_result (hid : inst.Identified) (h : p.cb.Paused inst p.started)
    (hdump : p.cb.dump = some mode) {max : ℕ} (hlt : p.cb.arg0 ≠ 0 → p.cb.index < max)
    (set : Bool) :
    SessionResult inst p (dumpScan v inst p mode max set).1 (dumpScan v inst p mode max set).2.1
      (dumpScan v inst p mode max set).2.2 := by
  -- in the middle of a set the scan finds this set, and does not skip it
  have hmid : p.cb.arg0 ≠ 0 → p.cb.Within inst p.started p.cb.index mode := by
    intro hne
    rcases h with ⟨hzero, -⟩ | ⟨-, mode', hin⟩
    · exact absurd hzero hne
    · obtain rfl : mode' = mode := Option.some.inj (hin.dump.symm.trans hdump)
      exact hin
  have hidle : p.cb.arg0 = 0 → p.started = none := by
    intro hzero
    rcases h with ⟨-, hnone⟩ | ⟨hne, -⟩
    · exact hnone
    · exact absurd hzero hne
  unfold dumpScan
  split
  · split
    · rename_i hslot
      have hzero : p.cb.arg0 = 0 := by
        by_contra hne
        obtain ⟨s, hs, -⟩ := (hmid hne).set
        rw [hslot] at hs
        cases hs
      split
      · exact .unchanged (.refl _) rfl h
      split
      · exact .unchanged (.refl _) rfl h
      · exact .unchanged (.refl _) rfl
          ⟨.inl ⟨hzero, hidle hzero⟩, hdump, fun hne => absurd hzero hne⟩
    · rename_i s hslot
      split
      · split <;> exact .unchanged (.refl _) rfl h
      rename_i hdestroyed
      split
      · rename_i hskips
        have hzero : p.cb.arg0 = 0 := by
          by_contra hne
          obtain ⟨s', hs', -, hnot⟩ := (hmid hne).set
          obtain rfl : s = s' := Option.some.inj (hslot.symm.trans hs')
          rw [hskips] at hnot
          cases hnot
        exact .unchanged (.refl _) rfl
          ⟨.inl ⟨hzero, hidle hzero⟩, hdump, fun hne => absurd hzero hne⟩
      rename_i hskips
      split
      · rename_i hzero
        refine .started hid hslot (hidle hzero) rfl (Bool.eq_false_iff.mpr hdestroyed) ?_
        exact ⟨⟨s, hslot, rfl, Bool.eq_false_iff.mpr hskips⟩, hdump, rfl,
          fun hne => absurd hzero hne⟩
      · rename_i hne
        exact .unchanged (.refl _) rfl (hmid hne)
  · rename_i hge
    have hzero : p.cb.arg0 = 0 := by
      by_contra hne
      exact hge (hlt hne)
    split
    · refine .unchanged (.refl _) rfl ⟨.inl ⟨?_, hidle hzero⟩, ?_, fun hne => absurd ?_ hne⟩
      · dsimp only
        split <;> simp [hzero]
      · dsimp only
        split <;> simp
      · dsimp only
        split <;> simp [hzero]
    · exact .unchanged (.refl _) rfl h

theorem dumpList_ok {fns : ListFns δ π} {set : DomainSet δ} {skb : Skb}
    (hne : (dumpList fns mode set cb skb).2.1.arg0 ≠ 0) :
    (dumpList fns mode set cb skb).2.1.index = cb.index ∧
      (dumpList fns mode set cb skb).2.1.dump = cb.dump := by
  revert hne
  unfold dumpList
  dsimp only
  split
  · rename_i hzero
    exact fun hne => absurd hzero hne
  · exact fun _ => ⟨rfl, rfl⟩

/-- A listing that goes on stays at its set. -/
theorem dumpMessage_ok {fns : ListFns δ π} {index : ℕ} {set : DomainSet δ} {skb skb' : Skb}
    {data : δ} (h : dumpMessage v fns mode index set cb skb = (.ok, cb', data, skb'))
    (hl : cb.arg0 ≠ 0 → mode.listSetname = false) (hne : cb'.arg0 ≠ 0) :
    cb'.index = cb.index ∧ cb'.dump = cb.dump ∧ mode.listSetname = false := by
  unfold dumpMessage at h
  split at h
  · cases h
  rename_i skb1 _
  rcases hput : skb1.putAll [.protocol cb.proto, .setname set.name.text] with ⟨fits, skb2⟩
  simp only [hput] at h
  split at h
  · cases h
  split at h
  · rename_i hlist
    cases h
    rw [hl hne] at hlist
    cases hlist
  rename_i hlist
  have hlist : mode.listSetname = false := Bool.eq_false_iff.mpr hlist
  split at h
  · rename_i hzero
    unfold dumpHeader at h
    rcases hput : skb2.putAll (coreHeader cb.proto index set) with ⟨fits, skb3⟩
    rcases hhead : fns.head set skb3 with ⟨ret, data', skb4⟩
    simp only [hput, hhead] at h
    split at h
    · cases h
    split at h
    · rename_i hret
      exact absurd (Prod.mk.inj h).1 hret
    split at h
    · cases h
      exact absurd hzero hne
    · simp only [Prod.mk.injEq] at h
      obtain ⟨-, rfl, -⟩ := h
      obtain ⟨h1, h2⟩ := dumpList_ok hne
      exact ⟨h1.trans (urefStart_index _), h2.trans (urefStart_dump _), hlist⟩
  · simp only [Prod.mk.injEq] at h
    obtain ⟨-, rfl, -⟩ := h
    obtain ⟨h1, h2⟩ := dumpList_ok hne
    exact ⟨h1, h2, hlist⟩

theorem dumpListing_result {fns : ListFns δ π} {index : ℕ} {skb : Skb}
    (h : p.cb.Within inst p.started index mode) :
    ∃ inst' p', dumpListing v fns inst p mode index skb = .ok (inst', p') ∧
      SessionResult inst p inst' p' [] := by
  obtain ⟨set, hset, hstarted, hskips⟩ := h.set
  rcases hm : dumpMessage v fns mode index set p.cb skb with ⟨ret, cb', data, skb'⟩
  have hchange := DataChange.setSlot hset data
  refine ⟨inst.setSlot index (some { set with data := data }),
    { p with cb := cb', phase := .releasing index ret skb' }, ?_, .unchanged hchange rfl ?_⟩
  · simp only [dumpListing, hset, hm]
  refine Session.Sound.sameSets ⟨⟨set, hset, hstarted⟩, fun hret hne => ?_⟩
    hchange.sameSets
  subst hret
  obtain ⟨h1, h2, h3⟩ := dumpMessage_ok hm h.listSetname hne
  exact ⟨mode, ⟨set, hset, hstarted, hskips⟩, h2.trans h.dump, h1.trans h.index, fun _ => h3⟩

theorem dumpPut_ok {index : ℕ} {set : DomainSet δ} (hset : inst.domainSet index = some set)
    (hpos : 0 < set.refNetlink) : dumpPut v inst p index =
      .ok (inst.setSlot index (some { set with refNetlink := set.refNetlink - 1 }),
        { p with cb := urefEnd v p.cb, started := none }, [.release set.id]) := by
  unfold dumpPut putNetlink
  rw [hset]
  simp only [if_neg (Nat.pos_iff_ne_zero.mp hpos)]
  rfl

theorem dumpReturn_follow (id : Option ℕ) (ret : Ret) (skb : Skb) (o : Option ℕ) :
    (dumpReturn p id ret skb).2.foldlM DumpEvent.follow o = some o := by
  unfold dumpReturn
  split
  · rfl
  · split
    · rfl
    · cases id with
      | none => rfl
      | some id => cases o <;> rfl

theorem dumpReturn_started (id : Option ℕ) (ret : Ret) (skb : Skb) :
    (dumpReturn p id ret skb).1.started = p.started := by
  unfold dumpReturn
  split
  · rfl
  · split <;> rfl

theorem dumpReturn_sound (h : p.cb.Paused inst p.started) (id : Option ℕ) (ret : Ret) (skb : Skb) :
    (dumpReturn p id ret skb).1.Sound inst := by
  unfold dumpReturn
  split
  · exact h
  · split <;> exact h

theorem dumpReturn_result (h : p.cb.Paused inst p.started) (id : Option ℕ) (ret : Ret) (skb : Skb) :
    SessionResult inst p inst (dumpReturn p id ret skb).1 (dumpReturn p id ret skb).2 where
  sets := .refl _
  sound := dumpReturn_sound h id ret skb
  events := by rw [dumpReturn_follow, dumpReturn_started]
  refNetlink i s s' hs hs' := by
    obtain rfl : s = s' := Option.some.inj (hs.symm.trans hs')
    simp only [Session.starts, dumpReturn_started]
  isDestroyed _ hnone := (dumpReturn_started _ _ _).trans hnone

theorem dumpRelease_result (hid : inst.Identified) {index : ℕ} {set : DomainSet δ} {ret : Ret}
    (hset : inst.domainSet index = some set) (hstarted : p.started = some set.id)
    (hpos : 0 < set.refNetlink)
    (hin : ret = .ok → p.cb.arg0 ≠ 0 → ∃ mode, p.cb.Within inst p.started index mode) (skb : Skb) :
    ∃ inst' p' events, dumpRelease v inst p index ret skb = .ok (inst', p', events) ∧
      SessionResult inst p inst' p' events := by
  unfold dumpRelease
  split
  · simp only [dumpPut_ok hset hpos]
    refine ⟨_, _, _, rfl, .released _ hid hset hstarted hpos ?_ (fun _ => ?_) ?_⟩
    · exact dumpReturn_started _ _ _
    · exact dumpReturn_sound (.inl ⟨rfl, rfl⟩) _ _ _
    · exact dumpReturn_follow _ _ _ _
  · rename_i hgoes
    push Not at hgoes
    obtain ⟨mode, hmode⟩ := hin hgoes.1 hgoes.2
    exact ⟨_, _, _, rfl,
      dumpReturn_result (.inr ⟨hgoes.2, mode, hmode.index.symm ▸ hmode⟩) p.started ret skb⟩

theorem dumpDone_result (hid : inst.Identified) (h : p.cb.Paused inst p.started)
    (hcount : ∀ i set, inst.domainSet i = some set → p.starts set.id ≤ set.refNetlink) :
    ∃ inst' p' events, dumpDone v inst p = .ok (inst', p', events) ∧
      SessionResult inst p inst' p' events := by
  unfold dumpDone
  split
  · rename_i hne
    rcases h with ⟨hzero, -⟩ | ⟨-, mode, hin⟩
    · exact absurd hzero hne
    obtain ⟨set, hset, hstarted, -⟩ := hin.set
    have hpos : 0 < set.refNetlink := by
      have := hcount _ set hset
      rwa [Session.starts, if_pos hstarted] at this
    simp only [dumpPut_ok hset hpos]
    exact ⟨_, _, _, rfl, .released [] hid hset hstarted hpos rfl (fun _ => rfl) rfl⟩
  · rename_i hzero
    rcases h with ⟨-, hnone⟩ | ⟨hne, -⟩
    · exact ⟨_, _, _, rfl, .unchanged (.refl _) rfl hnone⟩
    · exact absurd hne hzero

/-- Every step of a session keeps what holds of it, and meets no fault. -/
theorem sessionStep_result (hid : inst.Identified) (hp : p.Sound inst)
    (hcount : ∀ i set, inst.domainSet i = some set → p.starts set.id ≤ set.refNetlink)
    {m : SessionMove δ π} {r : Except Fault (DomainSetNet δ × Session π × List DumpEvent)}
    (h : sessionStep v inst p m = some r) :
    ∃ inst' p' events, r = .ok (inst', p', events) ∧ SessionResult inst p inst' p' events := by
  cases m with
  | call =>
    simp only [sessionStep] at h
    split at h <;> cases h
    rename_i hphase
    rw [Session.Sound, hphase] at hp
    exact ⟨_, _, _, rfl, dumpCall_result hp⟩
  | scan =>
    simp only [sessionStep] at h
    split at h <;> cases h
    rename_i mode max set hphase
    rw [Session.Sound, hphase] at hp
    obtain ⟨hpaused, hdump, hlt⟩ := hp
    exact ⟨_, _, _, rfl, dumpScan_result hid hpaused hdump hlt set⟩
  | list fns skb =>
    simp only [sessionStep] at h
    split at h <;> cases h
    rename_i mode index hphase
    rw [Session.Sound, hphase] at hp
    obtain ⟨inst', p', hlisting, hr⟩ := dumpListing_result hp
    exact ⟨inst', p', [], by rw [hlisting]; rfl, hr⟩
  | release =>
    simp only [sessionStep] at h
    split at h <;> cases h
    rename_i index ret skb hphase
    rw [Session.Sound, hphase] at hp
    obtain ⟨⟨set, hset, hstarted⟩, hin⟩ := hp
    have hpos := hcount _ set hset
    rw [Session.starts, if_pos hstarted] at hpos
    exact dumpRelease_result hid hset hstarted hpos hin skb
  | done =>
    simp only [sessionStep] at h
    split at h <;> cases h <;> rename_i hphase <;> rw [Session.Sound, hphase] at hp
    · exact dumpDone_result hid hp hcount
    · exact dumpDone_result hid hp hcount

end Steps

end Dset.Core
