import Dset.Core.DumpSession
import Dset.Core.References
import Mathlib.Logic.Equiv.Basic

/-! Dump references balance: whatever commands run between the steps of the dump
sessions, `ref_netlink` of a set counts the sessions in the middle of it, and the slot
in the index of such a session still holds the set. -/

namespace Dset.Core

open Dset.Lib

variable {δ π : Type} {v : Variant δ π}

/-! ### Commands -/

/-- The sets behind a step are sets before it, each from a slot of its own, or one
new set. -/
structure SetsFrom (inst inst' : DomainSetNet δ) (origin : ℕ → ℕ) (new : ℕ) : Prop where
  injective : origin.Injective
  nextId : inst.nextId ≤ inst'.nextId
  sets : ∀ i set', inst'.domainSet i = some set' →
    (∃ set, inst.domainSet (origin i) = some set ∧ set.id = set'.id ∧
      set.refNetlink = set'.refNetlink) ∨
    i = new ∧ set'.id = inst.nextId ∧ set'.refNetlink = 0 ∧ inst.nextId < inst'.nextId

theorem SetsFrom.identified {inst inst' : DomainSetNet δ} {origin : ℕ → ℕ} {new : ℕ}
    (h : SetsFrom inst inst' origin new) (hid : inst.Identified) : inst'.Identified where
  lt i set' hs' := by
    rcases h.sets i set' hs' with ⟨set, hs, heq, -⟩ | ⟨-, heq, -, hlt⟩
    · rw [← heq]
      exact Nat.lt_of_lt_of_le (hid.lt _ set hs) h.nextId
    · rwa [heq]
  distinct i j a' b' ha' hb' heq := by
    rcases h.sets i a' ha' with ⟨a, ha, hida, -⟩ | ⟨hi, hida, -, -⟩ <;>
      rcases h.sets j b' hb' with ⟨b, hb, hidb, -⟩ | ⟨hj, hidb, -, -⟩
    · exact h.injective (hid.distinct _ _ a b ha hb (by rw [hida, heq, hidb]))
    · have := hid.lt _ a ha
      omega
    · have := hid.lt _ b hb
      omega
    · rw [hi, hj]

theorem CommandResult.setsFrom {inst inst' : DomainSetNet δ} {ret : Ret}
    (h : CommandResult inst ret inst') : ∃ origin new, SetsFrom inst inst' origin new := by
  cases h with
  | unchanged => exact ⟨id, 0, Function.injective_id, Nat.le_refl _, fun i s hs => .inl ⟨s, hs, rfl, rfl⟩⟩
  | created i set _ h =>
    have hnext := h.nextId
    refine ⟨id, i, Function.injective_id, by omega, fun j s hs => ?_⟩
    by_cases heq : j = i
    · subst heq
      obtain rfl := Option.some.inj (h.slot.symm.trans hs)
      exact .inr ⟨rfl, h.id, h.refNetlink, by omega⟩
    · rw [h.other j heq] at hs
      exact .inl ⟨s, hs, rfl, rfl⟩
  | destroyed i set hset _ _ =>
    refine ⟨id, 0, Function.injective_id, Nat.le_refl _, fun j s hs => .inl ⟨s, ?_, rfl, rfl⟩⟩
    rw [DomainSetNet.domainSet_setSlot (DomainSetNet.domainSet_lt hset)] at hs
    split at hs
    · cases hs
    · exact hs
  | renamed i set name2 hset _ _ _ =>
    refine ⟨id, 0, Function.injective_id, Nat.le_refl _, fun j s hs => .inl ?_⟩
    rw [DomainSetNet.domainSet_setSlot (DomainSetNet.domainSet_lt hset)] at hs
    split at hs
    · rename_i heq
      cases hs
      exact ⟨set, heq ▸ hset, rfl, rfl⟩
    · exact ⟨s, hs, rfl, rfl⟩
  | swapped i j s t hs ht _ _ =>
    refine ⟨Equiv.swap i j, 0, (Equiv.swap i j).injective, Nat.le_refl _,
      fun k r hr => .inl ?_⟩
    have hi := DomainSetNet.domainSet_lt hs
    have hj := DomainSetNet.domainSet_lt ht
    rw [DomainSetNet.domainSet_setSlot (by rwa [DomainSetNet.setSlot_max]),
      DomainSetNet.domainSet_setSlot hi] at hr
    split at hr
    · rename_i heq
      cases hr
      exact ⟨s, by rw [heq, Equiv.swap_apply_right]; exact hs, rfl, rfl⟩
    rename_i hkj
    split at hr
    · rename_i heq
      cases hr
      exact ⟨t, by rw [heq, Equiv.swap_apply_left]; exact ht, rfl, rfl⟩
    · rename_i hki
      exact ⟨r, by rw [Equiv.swap_apply_of_ne_of_ne hki hkj]; exact hr, rfl, rfl⟩

/-- No command touches the slot of a set that is being dumped. -/
theorem CommandResult.exists_after {inst inst' : DomainSetNet δ} {ret : Ret}
    (h : CommandResult inst ret inst') {i : ℕ} {set : DomainSet δ}
    (hs : inst.domainSet i = some set) (hpos : 0 < set.refNetlink) :
    ∃ set', inst'.domainSet i = some set' ∧ set'.id = set.id ∧ set'.type = set.type := by
  have hne : ∀ {j : ℕ} {t : DomainSet δ}, inst.domainSet j = some t → t.refNetlink = 0 → i ≠ j := by
    rintro j t ht hzero rfl
    obtain rfl := Option.some.inj (hs.symm.trans ht)
    omega
  cases h with
  | unchanged => exact ⟨set, hs, rfl, rfl⟩
  | created j t _ h =>
    have hij : i ≠ j := by
      rintro rfl
      exact absurd (hs.symm.trans h.free) (by simp)
    exact ⟨set, (h.other i hij).trans hs, rfl, rfl⟩
  | destroyed j t ht _ hzero =>
    refine ⟨set, ?_, rfl, rfl⟩
    rw [DomainSetNet.domainSet_setSlot (DomainSetNet.domainSet_lt ht), if_neg (hne ht hzero)]
    exact hs
  | renamed j t name2 ht _ _ hzero =>
    refine ⟨set, ?_, rfl, rfl⟩
    rw [DomainSetNet.domainSet_setSlot (DomainSetNet.domainSet_lt ht), if_neg (hne ht hzero)]
    exact hs
  | swapped j k s t hj hk hsn htn =>
    refine ⟨set, ?_, rfl, rfl⟩
    rw [DomainSetNet.domainSet_setSlot
        (by rw [DomainSetNet.setSlot_max]; exact DomainSetNet.domainSet_lt hk),
      if_neg (hne hk htn), DomainSetNet.domainSet_setSlot (DomainSetNet.domainSet_lt hj),
      if_neg (hne hj hsn)]
    exact hs

/-- A set that stays in its slot keeps its data. -/
theorem CommandResult.data_eq {inst inst' : DomainSetNet δ} {ret : Ret}
    (h : CommandResult inst ret inst') (hid : inst.Identified) {i : ℕ} {set set' : DomainSet δ}
    (hs : inst.domainSet i = some set) (hs' : inst'.domainSet i = some set')
    (heq : set'.id = set.id) : set'.data = set.data := by
  cases h with
  | unchanged =>
    obtain rfl := Option.some.inj (hs.symm.trans hs')
    rfl
  | created j t _ h =>
    have hij : i ≠ j := by
      rintro rfl
      exact absurd (hs.symm.trans h.free) (by simp)
    obtain rfl := Option.some.inj (hs.symm.trans ((h.other i hij).symm.trans hs'))
    rfl
  | destroyed j t ht _ _ =>
    rw [DomainSetNet.domainSet_setSlot (DomainSetNet.domainSet_lt ht)] at hs'
    split at hs'
    · cases hs'
    · obtain rfl := Option.some.inj (hs.symm.trans hs')
      rfl
  | renamed j t name2 ht _ _ _ =>
    rw [DomainSetNet.domainSet_setSlot (DomainSetNet.domainSet_lt ht)] at hs'
    split at hs'
    · rename_i hij
      cases hs'
      obtain rfl := Option.some.inj ((hij ▸ hs).symm.trans ht)
      rfl
    · obtain rfl := Option.some.inj (hs.symm.trans hs')
      rfl
  | swapped j k s t hj hk _ _ =>
    -- a set from another slot would have another address
    rw [DomainSetNet.domainSet_setSlot
        (by rw [DomainSetNet.setSlot_max]; exact DomainSetNet.domainSet_lt hk),
      DomainSetNet.domainSet_setSlot (DomainSetNet.domainSet_lt hj)] at hs'
    split at hs'
    · cases hs'
      obtain rfl := hid.distinct i j set s hs hj heq.symm
      obtain rfl := Option.some.inj (hs.symm.trans hj)
      rfl
    split at hs'
    · cases hs'
      obtain rfl := hid.distinct i k set t hs hk heq.symm
      obtain rfl := Option.some.inj (hs.symm.trans hk)
      rfl
    · obtain rfl := Option.some.inj (hs.symm.trans hs')
      rfl

theorem CommandResult.isDestroyed_eq {inst inst' : DomainSetNet δ} {ret : Ret}
    (h : CommandResult inst ret inst') : inst'.isDestroyed = inst.isDestroyed := by
  cases h with
  | created _ _ _ h => exact h.isDestroyed
  | _ => rfl

/-! ### The invariant -/

/-- The number of sessions in the middle of the set `id`. -/
def Net.sessionsOf (s : Net δ π) (id : ℕ) : ℕ := held (Session.starts id) s.sessions

structure Net.Balanced (s : Net δ π) : Prop where
  identified : s.inst.Identified
  count : ∀ i set, s.inst.domainSet i = some set → set.refNetlink = s.sessionsOf set.id
  sound : ∀ p ∈ s.sessions, p.Sound s.inst
  isDestroyed : s.inst.isDestroyed = true → ∀ p ∈ s.sessions, p.started = none
  destroying : s.destroying.isSome = true → s.inst.isDestroyed = true

namespace Net

variable {s s' : Net δ π}

theorem Balanced.count_pos (h : s.Balanced) {p : Session π} (hp : p ∈ s.sessions) {i : ℕ}
    {set : DomainSet δ} (hset : s.inst.domainSet i = some set) :
    p.starts set.id ≤ set.refNetlink := by
  rw [h.count i set hset]
  exact le_held (w := Session.starts set.id) hp

/-- The sets sessions have started are older than any new one. -/
theorem Balanced.sessionsOf_new (h : s.Balanced) : s.sessionsOf s.inst.nextId = 0 := by
  refine held_eq_zero.mpr fun p hp => if_neg fun hstarted => ?_
  obtain ⟨set, hset, hid⟩ := (h.sound p hp).started hstarted
  have := h.identified.lt _ set hset
  omega

/-- A step that leaves the sessions as they are. -/
theorem Balanced.keeps (h : s.Balanced) (origin : ℕ → ℕ) (new : ℕ)
    (hfrom : SetsFrom s.inst s'.inst origin new) (hsessions : s'.sessions = s.sessions)
    (hafter : ∀ i set, s.inst.domainSet i = some set → 0 < set.refNetlink →
      ∃ set', s'.inst.domainSet i = some set' ∧ set'.id = set.id ∧ set'.type = set.type)
    (hdestroyed : s'.inst.isDestroyed = true → ∀ p ∈ s.sessions, p.started = none)
    (hdestroying : s'.destroying.isSome = true → s'.inst.isDestroyed = true) : s'.Balanced where
  identified := hfrom.identified h.identified
  count i set' hset' := by
    rw [sessionsOf, hsessions]
    rcases hfrom.sets i set' hset' with ⟨set, hset, hid, href⟩ | ⟨-, hid, href, -⟩
    · rw [← href, ← hid]
      exact h.count _ set hset
    · rw [href, hid]
      exact h.sessionsOf_new.symm
  sound p hp := by
    rw [hsessions] at hp
    refine (h.sound p hp).mono fun i set hset hstarted => hafter i set hset ?_
    have := h.count_pos hp hset
    rw [Session.starts, if_pos hstarted] at this
    exact this
  isDestroyed := by
    rw [hsessions]
    exact hdestroyed
  destroying := hdestroying

theorem Balanced.command (h : s.Balanced) {ret : Ret} {inst' : DomainSetNet δ}
    (hr : CommandResult s.inst ret inst') {events : List DumpEvent}
    (hstep : s.locked { s with inst := inst' } = some (.ok (s', events))) : s'.Balanced := by
  obtain ⟨hd, rfl⟩ := locked_ok hstep
  obtain ⟨origin, new, hfrom⟩ := hr.setsFrom
  refine h.keeps origin new hfrom rfl (fun i set hset hpos => hr.exists_after hset hpos)
    (fun hd' => ?_) fun hsome => ?_
  · exact h.isDestroyed (hr.isDestroyed_eq ▸ hd')
  · rw [show ({ s with inst := inst' } : Net δ π).destroying = none from hd] at hsome
    cases hsome

theorem Balanced.dataChange (h : s.Balanced) (hc : DataChange s.inst s'.inst)
    (hsessions : s'.sessions = s.sessions)
    (hdestroying : s'.destroying.isSome = true → s.destroying.isSome = true) : s'.Balanced := by
  refine h.keeps id 0 ⟨Function.injective_id, Nat.le_of_eq hc.nextId.symm,
    fun i set' hset' => .inl ?_⟩ hsessions (fun i set hset _ => hc.sameSets.exists_after hset)
    (fun hd => h.isDestroyed (hc.isDestroyed ▸ hd))
    fun hsome => hc.isDestroyed ▸ h.destroying (hdestroying hsome)
  rcases hc.domainSet i with ⟨h1, h2⟩ | ⟨set, data, h1, h2⟩
  · rw [h2] at hset'
    cases hset'
  · obtain rfl := Option.some.inj (hset'.symm.trans h2)
    exact ⟨set, h1, rfl, rfl⟩

theorem Balanced.destroyAll (h : s.Balanced) {attr : CmdAttrs} {events : List DumpEvent}
    (hstep : s.step v (.destroyAll attr) = some (.ok (s', events))) : s'.Balanced := by
  simp only [Net.step] at hstep
  rcases hr : s.inst.domainSetDestroyAll attr with ⟨ret, inst'⟩
  rw [hr] at hstep
  obtain ⟨-, rfl⟩ := locked_ok hstep
  have hfrom : ∀ inst' : DomainSetNet δ, inst'.domainSetList = s.inst.domainSetList →
      inst'.nextId = s.inst.nextId → SetsFrom s.inst inst' id 0 := by
    intro inst' hlist hnext
    refine ⟨Function.injective_id, Nat.le_of_eq hnext.symm, fun i set hset => .inl ⟨set, ?_, rfl, rfl⟩⟩
    rwa [DomainSetNet.domainSet, hlist] at hset
  cases ret with
  | ok =>
    obtain ⟨rfl, hzero⟩ := DomainSetNet.domainSetDestroyAll_ok hr
    refine h.keeps id 0 (hfrom _ rfl rfl) rfl (fun i set hset _ => ⟨set, hset, rfl, rfl⟩)
      (fun _ p hp => ?_) fun _ => rfl
    -- a session in the middle of a set would be counted there
    cases hstarted : p.started with
    | none => rfl
    | some id =>
      obtain ⟨set, hset, rfl⟩ := (h.sound p hp).started hstarted
      have hpos := h.count_pos hp hset
      rw [Session.starts, if_pos hstarted, (hzero _ set hset).2] at hpos
      omega
  | err e =>
    obtain rfl := DomainSetNet.domainSetDestroyAll_err hr
    exact h.keeps id 0 (hfrom _ rfl rfl) rfl (fun i set hset _ => ⟨set, hset, rfl, rfl⟩) h.isDestroyed
      fun hsome => by simp at hsome

/-- While all sets are destroyed no session is in the middle of one. -/
theorem Balanced.destroyNext (h : s.Balanced) (hstep : s.destroyNext = some s') :
    s'.Balanced := by
  unfold Net.destroyNext at hstep
  split at hstep
  · cases hstep
  · rename_i i hd
    have hdestroyed := h.destroying (by rw [hd]; rfl)
    have hidle := h.isDestroyed hdestroyed
    have hzero : ∀ j set, s.inst.domainSet j = some set → set.refNetlink = 0 := by
      intro j set hset
      rw [h.count j set hset]
      refine held_eq_zero.mpr fun p hp => if_neg ?_
      rw [hidle p hp]
      exact fun heq => by cases heq
    split at hstep <;> cases hstep
    · rename_i hi
      refine h.keeps id 0
        ⟨Function.injective_id, Nat.le_refl _, fun j set hset => .inl ⟨set, ?_, rfl, rfl⟩⟩ rfl
        (fun j set hset hpos => ?_) (fun _ => hidle) fun _ => hdestroyed
      · rw [DomainSetNet.domainSet_setSlot hi] at hset
        split at hset
        · cases hset
        · exact hset
      · have := hzero j set hset
        omega
    · exact h.keeps id 0
        ⟨Function.injective_id, Nat.le_refl _, fun j set hset => .inl ⟨set, hset, rfl, rfl⟩⟩ rfl
        (fun j set hset _ => ⟨set, hset, rfl, rfl⟩) (fun _ => hidle) fun hsome => by cases hsome

/-- The type changes the data of a set, and what sessions keep of it. -/
theorem Balanced.changeData (h : s.Balanced) (i : ℕ) (f : δ → δ) (g : π → π) :
    (s.changeData i f g).Balanced := by
  unfold Net.changeData
  split
  · exact h
  rename_i set hset
  have h1 : ({ s with
      inst := s.inst.setSlot i (some { set with data := f set.data }) } : Net δ π).Balanced :=
    h.dataChange (.setSlot hset _) rfl id
  refine ⟨h1.identified, fun j t ht => ?_, fun p hp => ?_, fun hd p hp => ?_, h1.destroying⟩
  · rw [h1.count j t ht, sessionsOf, sessionsOf, held, held, List.map_map]
    rfl
  · obtain ⟨q, hq, rfl⟩ := List.mem_map.mp hp
    exact (h1.sound q hq).changePriv _ _
  · obtain ⟨q, hq, rfl⟩ := List.mem_map.mp hp
    exact h1.isDestroyed hd q hq

/-- A holder takes or gives back a reference by index. -/
theorem Balanced.infoChange (h : s.Balanced) {i : ℕ} {set : DomainSet δ}
    (hset : s.inst.domainSet i = some set) (ref : ℕ) (holders : List Holder) :
    ({ s with
      inst := s.inst.setSlot i (some { set with ref := ref })
      holders := holders } : Net δ π).Balanced := by
  have hslot := DomainSetNet.domainSet_setSlot (DomainSetNet.domainSet_lt hset)
    (some { set with ref := ref })
  refine h.keeps id 0 ⟨Function.injective_id, Nat.le_refl _,
    fun j t ht => .inl ?_⟩ rfl (fun j t ht _ => ?_) h.isDestroyed h.destroying
  · rw [hslot] at ht
    split at ht
    · rename_i heq
      cases ht
      exact ⟨set, heq ▸ hset, rfl, rfl⟩
    · exact ⟨t, ht, rfl, rfl⟩
  · rw [hslot]
    split
    · rename_i heq
      subst heq
      obtain rfl := Option.some.inj (ht.symm.trans hset)
      exact ⟨_, rfl, rfl, rfl⟩
    · exact ⟨t, ht, rfl, rfl⟩

theorem Balanced.holders (h : s.Balanced) (holders : List Holder) :
    ({ s with holders := holders } : Net δ π).Balanced :=
  ⟨h.identified, h.count, h.sound, h.isDestroyed, h.destroying⟩

theorem Balanced.getByindex (h : s.Balanced) (index : ℕ) (x : Holder) :
    (s.getByindex index x).Balanced := by
  unfold Net.getByindex
  rcases s.inst.domainSetNfnlGetByindex_cases index with heq | ⟨set, hset, heq⟩ <;> rw [heq]
  · exact h
  · dsimp only
    split
    · exact h.infoChange hset _ s.holders
    · exact h.infoChange hset _ _

theorem Balanced.putByindex (h : s.Balanced) {k index : ℕ} (hput : s.putByindex k index = .ok s') :
    s'.Balanced := by
  unfold Net.putByindex at hput
  obtain ⟨inst', hinst, heq⟩ := bind_ok hput
  cases heq
  unfold DomainSetNet.domainSetNfnlPut at hinst
  split at hinst
  · cases hinst
    exact h.holders _
  split at hinst
  · cases hinst
  split at hinst
  · cases hinst
    exact h.holders _
  · rename_i set hset
    obtain ⟨set', hset', heq⟩ := bind_ok hinst
    cases heq
    unfold DomainSetNet.put at hset'
    split at hset' <;> cases hset'
    exact h.infoChange hset _ _

theorem Balanced.holderStep (h : s.Balanced) {k : ℕ} {kmemdup : Bool}
    (hstep : s.holderStep k kmemdup = some (.ok s')) : s'.Balanced := by
  unfold Net.holderStep at hstep
  split at hstep
  · split at hstep
    · exact h.putByindex (Option.some.inj hstep)
    · cases hstep
      exact h.holders _
  · split at hstep
    · cases hstep
      exact h.holders _
    · exact h.putByindex (Option.some.inj hstep)
  · exact h.putByindex (Option.some.inj hstep)
  · exact h.putByindex (Option.some.inj hstep)
  · cases hstep
  · cases hstep

theorem Balanced.dump (h : s.Balanced) (req : DumpRequest) :
    ({ s with sessions := s.sessions ++ [.init req] } : Net δ π).Balanced where
  identified := h.identified
  count i set hset := by
    rw [h.count i set hset, sessionsOf, sessionsOf, held_append, held_cons, held_nil]
    rfl
  sound p hp := by
    rcases List.mem_append.mp hp with hp | hp
    · exact h.sound p hp
    · obtain rfl := List.mem_singleton.mp hp
      exact .inl ⟨rfl, rfl⟩
  isDestroyed hd p hp := by
    rcases List.mem_append.mp hp with hp | hp
    · exact h.isDestroyed hd p hp
    · obtain rfl := List.mem_singleton.mp hp
      rfl
  destroying := h.destroying

theorem Balanced.session (h : s.Balanced) {j : ℕ} {p p' : Session π} {inst' : DomainSetNet δ}
    {events : List DumpEvent} (hj : s.sessions[j]? = some p)
    (hr : SessionResult s.inst p inst' p' events) :
    ({ s with inst := inst', sessions := s.sessions.set j p' } : Net δ π).Balanced where
  identified := hr.sets.identified h.identified
  count i set' hset' := by
    obtain ⟨set, hset, hid, -⟩ := hr.sets.exists_before hset'
    have h1 := h.count i set hset
    have h2 := hr.refNetlink i set set' hset hset'
    have h3 := held_set (w := Session.starts set.id) hj p'
    rw [← hid]
    simp only [sessionsOf] at h1 ⊢
    omega
  sound := all_set (fun q hq => (h.sound q hq).sameSets hr.sets) hr.sound
  isDestroyed hd := by
    rw [hr.sets.isDestroyed] at hd
    have hidle := h.isDestroyed hd
    exact all_set hidle (hr.isDestroyed hd (hidle p (List.mem_of_getElem? hj)))
  destroying hsome := hr.sets.isDestroyed.trans (h.destroying hsome)

theorem Balanced.sessionStep (h : s.Balanced) {j : ℕ} {p : Session π}
    (hj : s.sessions[j]? = some p) {m : SessionMove δ π}
    {r : Except Fault (DomainSetNet δ × Session π × List DumpEvent)}
    (hstep : Core.sessionStep v s.inst p m = some r) :
    ∃ inst' p' events, r = .ok (inst', p', events) ∧ SessionResult s.inst p inst' p' events :=
  have hp := List.mem_of_getElem? hj
  sessionStep_result h.identified (h.sound p hp) (fun _ _ hset => h.count_pos hp hset) hstep

theorem Balanced.step (h : s.Balanced) {m : Move δ π} {events : List DumpEvent}
    (hstep : s.step v m = some (.ok (s', events))) : s'.Balanced := by
  cases m with
  | create attr exist o =>
    exact h.command (DomainSetNet.domainSetCreate_result v attr exist o) hstep
  | destroy attr setname =>
    exact h.command (DomainSetNet.domainSetDestroy_result attr setname) hstep
  | destroyAll attr => exact h.destroyAll hstep
  | destroyNext =>
    obtain ⟨s1, hs1, heq⟩ := Option.map_eq_some_iff.mp hstep
    cases heq
    exact h.destroyNext hs1
  | flush attr =>
    obtain ⟨-, rfl⟩ := locked_ok hstep
    exact h.dataChange (DomainSetNet.domainSetFlush_dataChange v attr) rfl id
  | rename attr => exact h.command (DomainSetNet.domainSetRename_result attr) hstep
  | swap attr => exact h.command (DomainSetNet.domainSetSwap_result attr) hstep
  | data i f g =>
    cases hstep
    exact h.changeData i f g
  | checkentry index dim =>
    obtain ⟨-, rfl⟩ := locked_ok hstep
    exact h.getByindex _ _
  | emChange size index =>
    simp only [Net.step] at hstep
    split at hstep
    · obtain ⟨-, rfl⟩ := locked_ok hstep
      exact h.getByindex _ _
    · cases hstep
  | holder k kmemdup =>
    simp only [Net.step] at hstep
    split at hstep
    · cases hstep
    · obtain ⟨r, hr, heq⟩ := Option.map_eq_some_iff.mp hstep
      cases r with
      | error e => cases heq
      | ok s1 =>
        cases heq
        exact h.holderStep hr
  | dump req =>
    cases hstep
    exact h.dump req
  | session j m =>
    obtain ⟨p, inst', p', hj, hp, rfl⟩ := session_ok hstep
    obtain ⟨inst1, p1, events1, heq, hr⟩ := h.sessionStep hj hp
    cases heq
    exact h.session hj hr

end Net

/-! ### Runs -/

def NetLabel.eventsOf (j : ℕ) (l : NetLabel δ π) : List DumpEvent :=
  match l.move with
  | .session k _ => if k = j then l.events else []
  | _ => []

def sessionEvents (j : ℕ) (l : List (NetLabel δ π)) : List DumpEvent := l.flatMap (·.eventsOf j)

/-- The set session `j` is in the middle of. -/
def Net.startedBy (s : Net δ π) (j : ℕ) : Option ℕ := s.sessions[j]?.bind (·.started)

namespace Net

variable {s s' : Net δ π}

theorem startedBy_congr (h : s'.sessions = s.sessions) (j : ℕ) : s'.startedBy j = s.startedBy j := by
  rw [startedBy, startedBy, h]

theorem getByindex_sessions (index : ℕ) (x : Holder) :
    (s.getByindex index x).sessions = s.sessions := by
  unfold getByindex
  dsimp only
  split <;> rfl

theorem holderStep_sessions {k : ℕ} {kmemdup : Bool}
    (h : s.holderStep k kmemdup = some (.ok s')) : s'.sessions = s.sessions := by
  have hput : ∀ {index : ℕ}, s.putByindex k index = .ok s' → s'.sessions = s.sessions := by
    intro index hput
    obtain ⟨inst', -, heq⟩ := bind_ok hput
    cases heq
    rfl
  unfold holderStep at h
  split at h
  · split at h
    · exact hput (Option.some.inj h)
    · cases h
      rfl
  · split at h
    · cases h
      rfl
    · exact hput (Option.some.inj h)
  · exact hput (Option.some.inj h)
  · exact hput (Option.some.inj h)
  · cases h
  · cases h

/-- Only its own steps take a session into a set and out of it. -/
theorem startedBy_step {m : Move δ π} {events : List DumpEvent}
    (hstep : s.step v m = some (.ok (s', events))) (hm : ∀ k m', m ≠ .session k m') (j : ℕ) :
    s'.startedBy j = s.startedBy j := by
  cases m with
  | create attr exist o => exact startedBy_congr (by rw [(locked_ok hstep).2]) j
  | destroy attr setname => exact startedBy_congr (by rw [(locked_ok hstep).2]) j
  | destroyAll attr => exact startedBy_congr (by rw [(locked_ok hstep).2]) j
  | destroyNext =>
    obtain ⟨s1, hs1, heq⟩ := Option.map_eq_some_iff.mp hstep
    cases heq
    unfold Net.destroyNext at hs1
    split at hs1
    · cases hs1
    · split at hs1 <;> cases hs1 <;> rfl
  | flush attr => exact startedBy_congr (by rw [(locked_ok hstep).2]) j
  | rename attr => exact startedBy_congr (by rw [(locked_ok hstep).2]) j
  | swap attr => exact startedBy_congr (by rw [(locked_ok hstep).2]) j
  | data i f g =>
    cases hstep
    unfold Net.changeData
    split
    · rfl
    · simp only [startedBy, List.getElem?_map]
      cases s.sessions[j]? <;> rfl
  | checkentry index dim =>
    exact startedBy_congr (by rw [(locked_ok hstep).2, getByindex_sessions]) j
  | emChange size index =>
    simp only [Net.step] at hstep
    split at hstep
    · exact startedBy_congr (by rw [(locked_ok hstep).2, getByindex_sessions]) j
    · cases hstep
  | holder k kmemdup =>
    simp only [Net.step] at hstep
    split at hstep
    · cases hstep
    · obtain ⟨r, hr, heq⟩ := Option.map_eq_some_iff.mp hstep
      cases r with
      | error e => cases heq
      | ok s1 =>
        cases heq
        exact startedBy_congr (holderStep_sessions hr) j
  | dump req =>
    cases hstep
    rcases Nat.lt_trichotomy j s.sessions.length with hlt | rfl | hgt
    · simp [startedBy, List.getElem?_append_left hlt]
    · simp [startedBy, Session.init]
    · rw [startedBy, startedBy, List.getElem?_eq_none (by simp; omega),
        List.getElem?_eq_none (by omega)]
  | session k m => exact absurd rfl (hm k m)

/-- The starts and releases a step shows of a session are those it makes. -/
theorem Balanced.follow (h : s.Balanced) {l : NetLabel δ π}
    (hstep : s.step v l.move = some (.ok (s', l.events))) (j : ℕ) :
    (l.eventsOf j).foldlM DumpEvent.follow (s.startedBy j) = some (s'.startedBy j) := by
  rcases l with ⟨m, events⟩
  by_cases hm : ∃ k m', m = .session k m'
  · obtain ⟨k, m', rfl⟩ := hm
    obtain ⟨p, inst', p', hk, hp, rfl⟩ := session_ok hstep
    obtain ⟨inst1, p1, events1, heq, hr⟩ := h.sessionStep hk hp
    cases heq
    have hlt : k < s.sessions.length := (List.getElem?_eq_some_iff.mp hk).1
    by_cases heq : k = j
    · subst heq
      simpa [NetLabel.eventsOf, startedBy, hk, List.getElem?_set_self hlt] using hr.events
    · simp [NetLabel.eventsOf, startedBy, heq, List.getElem?_set_ne heq]
  · have hevents : NetLabel.eventsOf j ⟨m, events⟩ = [] := by
      cases m with
      | session k m' => exact absurd ⟨k, m', rfl⟩ hm
      | _ => rfl
    rw [hevents, startedBy_step hstep (fun k m' heq => hm ⟨k, m', heq⟩) j]
    rfl

end Net

theorem netSystem_balanced {l : List (NetLabel δ π)} {s : Net δ π} (h : (netSystem v).Run l s) :
    s.Balanced ∧ ∀ j, (sessionEvents j l).foldlM DumpEvent.follow none = some (s.startedBy j) := by
  refine h.history (P := fun l s => s.Balanced ∧
    ∀ j, (sessionEvents j l).foldlM DumpEvent.follow none = some (s.startedBy j)) ?_ ?_
  · rintro _ ⟨maxSets, config, rfl⟩
    refine ⟨⟨⟨fun i set hset => ?_, fun i j a b ha => ?_⟩, fun i set hset => ?_, fun p hp => ?_,
      fun hd => ?_, fun hsome => ?_⟩, fun j => rfl⟩
    · rw [domainSet_netInit] at hset
      cases hset
    · rw [domainSet_netInit] at ha
      cases ha
    · rw [domainSet_netInit] at hset
      cases hset
    · cases hp
    · cases hd
    · cases hsome
  · rintro l s i s' ⟨hs, hevents⟩ hstep
    refine ⟨hs.step hstep, fun j => ?_⟩
    rw [sessionEvents, List.flatMap_append, List.foldlM_append]
    have := hevents j
    rw [sessionEvents] at this
    rw [this]
    simpa using hs.follow hstep j

/-- Dump references balance: `ref_netlink` of a set is the number of sessions that have
started it and not yet released it, a session releases each set it has started exactly
once, before it starts another one and before it is finished, no step of a session meets
a `BUG_ON` or an empty slot, and the slot in the saved index of a session in the middle
of a set still holds this set. -/
theorem dump_references_balanced {l : List (NetLabel δ π)} {s : Net δ π}
    (h : (netSystem v).Run l s) :
    (∀ i set, s.inst.domainSet i = some set → set.refNetlink = s.sessionsOf set.id) ∧
    (∀ j p, s.sessions[j]? = some p →
      (sessionEvents j l).foldlM DumpEvent.follow none = some p.started ∧
      (p.phase = .finished → p.started = none)) ∧
    (∀ j m e, s.step v (.session j m) ≠ some (.error e)) ∧
    ∀ p ∈ s.sessions, ∀ id, p.started = some id →
      ∃ set, s.inst.domainSet p.savedIndex = some set ∧ set.id = id := by
  obtain ⟨hs, hevents⟩ := netSystem_balanced h
  refine ⟨hs.count, fun j p hj => ⟨?_, fun hphase => ?_⟩, fun j m e hstep => ?_, fun p hp id hid => ?_⟩
  · rw [hevents j, Net.startedBy, hj]
    rfl
  · have := hs.sound p (List.mem_of_getElem? hj)
    rwa [Session.Sound, hphase] at this
  · simp only [Net.step, Net.session] at hstep
    split at hstep
    · cases hstep
    · rename_i p hj
      obtain ⟨r, hr, heq⟩ := Option.map_eq_some_iff.mp hstep
      obtain ⟨inst', p', events, rfl, -⟩ := hs.sessionStep hj hr
      cases heq
  · exact (hs.sound p hp).started hid

/-- One session, which a call has left in the middle of the set. -/
def pausedNet : Net Unit Unit :=
  let mode : DumpMode := ⟨.all, 0⟩
  ⟨⟨[some { bareSet with ref := 0, refNetlink := 1 }], false, false, 1⟩, none, [],
    [⟨⟨none, 8, none, none⟩, ⟨8, some mode, 0, none, 5⟩, .waiting, some 0⟩]⟩

/-- The set is counted for the session, and stays in its slot. -/
theorem dump_references_balanced_paused :
    (∀ i set, pausedNet.inst.domainSet i = some set →
      set.refNetlink = pausedNet.sessionsOf set.id) ∧
    ∃ set, pausedNet.inst.domainSet 0 = some set ∧ set.id = 0 := by
  let attr : CmdAttrs :=
    ⟨some 8, some bareSet.name, none, some bareSet.name, some 0, some 0, none⟩
  let fns : ListFns Unit Unit := ⟨fun _ skb => (.ok, (), skb), fun _ _ skb => (.ok, 5, skb)⟩
  let sent : Skb :=
    ⟨4096, false, 60, [.protocol 8, .setname [97], .typename [97], .family 0, .revision 0]⟩
  have hrun : (netSystem bareVariant).Run
      ([] ++ [⟨.create attr false ⟨true, .ok bareSet.type, true, .ok (), true⟩, []⟩] ++
        [⟨.dump ⟨none, 8, none, none⟩, []⟩] ++ [⟨.session 0 .call, []⟩] ++
        [⟨.session 0 .scan, [.start 0]⟩] ++
        [⟨.session 0 (.list fns ⟨4096, false, 0, []⟩), []⟩] ++
        [⟨.session 0 .release, [.message 0 sent]⟩]) pausedNet :=
    .snoc (.snoc (.snoc (.snoc (.snoc (.snoc (.start ⟨1, 256, rfl⟩) rfl) rfl) rfl) rfl) rfl)
      rfl
  obtain ⟨hcount, -, -, hslot⟩ := dump_references_balanced hrun
  exact ⟨hcount, hslot _ List.mem_cons_self 0 rfl⟩

end Dset.Core
