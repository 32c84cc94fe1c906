import Dset.Core.DumpReferences

/-! The slot array as a partial injection between indexes and names: commands edit
names and slots with scans of their own, but no two sets ever have one name, so that
looking up a name and looking up an index are inverse to each other. -/

namespace Dset.Core

open Dset.Lib

variable {δ π : Type} {v : Variant δ π}

/-! ### Get by name and by index -/

def protocolFailed (protocol : Option ℕ) : Bool := protocol ≠ some dsetProtocol

structure IndexAttrs where
  protocol : Option ℕ
  index : Option ℕ

namespace DomainSetNet

variable (inst : DomainSetNet δ)

/-- `domain_set_byname`: the family and the index of the set; `reply` is why the answer
cannot be built or sent. -/
def domainSetByname (attr : CmdAttrs) (reply : Option Errno) : Except Errno (ℕ × ℕ) :=
  if protocolFailed attr.protocol then .error .dsetErrProtocol
  else match attr.setname with
  | none => .error .dsetErrProtocol
  | some name =>
    match inst.findSetAndId name with
    | none => .error .enoent
    | some (set, id) =>
      match reply with
      | some e => .error e
      | none => .ok (set.family, id)

/-- `domain_set_byindex`: the name of the set. -/
def domainSetByindex (attr : IndexAttrs) (reply : Option Errno) : Except Errno SetName :=
  if protocolFailed attr.protocol then .error .dsetErrProtocol
  else match attr.index with
  | none => .error .dsetErrProtocol
  | some id =>
    if inst.domainSetMax ≤ id then .error .enoent
    else match inst.domainSet id with
    | none => .error .enoent
    | some set =>
      match reply with
      | some e => .error e
      | none => .ok set.name

/-- No two slots have one name. -/
def Named : Prop := ∀ i j name, inst.nameAt i = some name → inst.nameAt j = some name → i = j

variable {inst} {inst' : DomainSetNet δ}

theorem nameAt_eq_some {i : ℕ} {name : SetName} :
    inst.nameAt i = some name ↔ ∃ set, inst.domainSet i = some set ∧ set.name = name :=
  Option.map_eq_some_iff

/-- One slot gets a name no other slot has. -/
theorem Named.update (h : inst.Named) {i : ℕ}
    (hother : ∀ j, j ≠ i → inst'.nameAt j = inst.nameAt j)
    (hnew : ∀ name j, inst'.nameAt i = some name → j ≠ i → inst.nameAt j ≠ some name) :
    inst'.Named := by
  intro j k name hj hk
  by_cases hji : j = i <;> by_cases hki : k = i
  · rw [hji, hki]
  · subst hji
    rw [hother k hki] at hk
    exact absurd hk (hnew name k hj hki)
  · subst hki
    rw [hother j hji] at hj
    exact absurd hj (hnew name j hk hji)
  · rw [hother j hji] at hj
    rw [hother k hki] at hk
    exact h j k name hj hk

theorem Named.congr (h : inst.Named) (hnames : ∀ i, inst'.nameAt i = inst.nameAt i) :
    inst'.Named := by
  intro i j name hi hj
  rw [hnames] at hi hj
  exact h i j name hi hj

theorem nameAt_setSlot {i : ℕ} (hi : i < inst.domainSetMax) (o : Option (DomainSet δ)) (j : ℕ) :
    (inst.setSlot i o).nameAt j = if j = i then o.map (·.name) else inst.nameAt j := by
  rw [nameAt, domainSet_setSlot hi]
  split <;> rfl

theorem findSetAndId_ne_none {i : ℕ} {set : DomainSet δ} (hset : inst.domainSet i = some set) :
    inst.findSetAndId set.name ≠ none := by
  have hlt := domainSet_lt hset
  have hget : inst.domainSetList[i] = some set := by
    rw [← hset, domainSet, List.getD_eq_getElem _ _ hlt]
  unfold findSetAndId
  split
  · rename_i hnone
    have := List.findIdx?_eq_none_iff.mp hnone _ (List.getElem_mem hlt)
    rw [hget] at this
    simp [strncmp] at this
  · rename_i k hk
    obtain ⟨hklt, hany, -⟩ := List.findIdx?_eq_some_iff_getElem.mp hk
    rw [domainSet, List.getD_eq_getElem _ _ hklt]
    cases ht : inst.domainSetList[k] with
    | none =>
      rw [ht] at hany
      cases hany
    | some t => simp

theorem Named.findSetAndId (h : inst.Named) {i : ℕ} {set : DomainSet δ}
    (hset : inst.domainSet i = some set) : inst.findSetAndId set.name = some (set, i) := by
  cases hfind : inst.findSetAndId set.name with
  | none => exact absurd hfind (findSetAndId_ne_none hset)
  | some r =>
    obtain ⟨t, j⟩ := r
    obtain ⟨ht, hname⟩ := findSetAndId_some hfind
    obtain rfl : j = i := h j i set.name (nameAt_eq_some.mpr ⟨t, ht, hname⟩)
      (nameAt_eq_some.mpr ⟨set, hset, rfl⟩)
    obtain rfl := Option.some.inj (ht.symm.trans hset)
    rfl

end DomainSetNet

/-! ### Steps -/

inductive SlotStep (inst inst' : DomainSetNet δ) : Prop
  | names (hnames : ∀ i, inst'.nameAt i = inst.nameAt i)
      (hmax : inst'.domainSetMax = inst.domainSetMax)
  | command (ret : Ret) (h : CommandResult inst ret inst')
  | cleared (i : ℕ) (hi : i < inst.domainSetMax) (h : inst' = inst.setSlot i none)

theorem CommandResult.named {inst inst' : DomainSetNet δ} {ret : Ret}
    (h : CommandResult inst ret inst') (hn : inst.Named) : inst'.Named := by
  cases h with
  | unchanged => exact hn
  | created i set _ h =>
    refine hn.update (i := i) (fun j hj => ?_) fun name j hi hj heq => ?_
    · rw [DomainSetNet.nameAt, DomainSetNet.nameAt, h.other j hj]
    · obtain ⟨t, ht, rfl⟩ := DomainSetNet.nameAt_eq_some.mp heq
      obtain ⟨set', hset', heq'⟩ := DomainSetNet.nameAt_eq_some.mp hi
      obtain rfl := Option.some.inj (h.slot.symm.trans hset')
      exact h.name j t ht heq'.symm
  | destroyed i set hset _ _ =>
    have hslot := DomainSetNet.nameAt_setSlot (DomainSetNet.domainSet_lt hset) none
    refine hn.update (i := i) (fun j hj => ?_) fun name j hi hj => ?_
    · rw [hslot, if_neg hj]
    · rw [hslot, if_pos rfl] at hi
      cases hi
  | renamed i set name2 hset hname _ _ =>
    have hslot := DomainSetNet.nameAt_setSlot (DomainSetNet.domainSet_lt hset)
      (some { set with name := name2 })
    refine hn.update (i := i) (fun j hj => ?_) fun name j hi hj heq => ?_
    · rw [hslot, if_neg hj]
    · rw [hslot, if_pos rfl] at hi
      obtain ⟨t, ht, rfl⟩ := DomainSetNet.nameAt_eq_some.mp heq
      exact hname j t ht (Option.some.inj hi).symm
  | swapped i j s t hs ht _ _ =>
    -- the names stay where they were
    have hi := DomainSetNet.domainSet_lt hs
    have hj : j < (inst.setSlot i (some { t with name := s.name, ref := s.ref })).domainSetMax := by
      rw [DomainSetNet.setSlot_max]
      exact DomainSetNet.domainSet_lt ht
    refine hn.congr fun k => ?_
    rw [DomainSetNet.nameAt_setSlot hj, DomainSetNet.nameAt_setSlot hi]
    split
    · rename_i heq
      rw [heq, DomainSetNet.nameAt, ht]
      rfl
    split
    · rename_i heq
      rw [heq, DomainSetNet.nameAt, hs]
      rfl
    · rfl

theorem CommandResult.max_le {inst inst' : DomainSetNet δ} {ret : Ret}
    (h : CommandResult inst ret inst') : inst.domainSetMax ≤ inst'.domainSetMax := by
  cases h with
  | created _ _ _ h => exact h.max
  | _ => simp

namespace SlotStep

variable {inst inst' : DomainSetNet δ}

theorem named (h : SlotStep inst inst') (hn : inst.Named) : inst'.Named := by
  cases h with
  | names hnames _ => exact hn.congr hnames
  | command ret h => exact h.named hn
  | cleared i hi h =>
    subst h
    have hslot := DomainSetNet.nameAt_setSlot hi none
    refine hn.update (i := i) (fun j hj => ?_) fun name j hi hj => ?_
    · rw [hslot, if_neg hj]
    · rw [hslot, if_pos rfl] at hi
      cases hi

theorem max_le (h : SlotStep inst inst') : inst.domainSetMax ≤ inst'.domainSetMax := by
  cases h with
  | names _ hmax => exact Nat.le_of_eq hmax.symm
  | command ret h => exact h.max_le
  | cleared i hi h => exact Nat.le_of_eq (h ▸ DomainSetNet.setSlot_max _ _ _).symm

end SlotStep

theorem SameSets.slotStep {inst inst' : DomainSetNet δ} (h : SameSets inst inst') :
    SlotStep inst inst' := by
  refine .names (fun i => ?_) h.max
  have := congrArg (Option.map (·.2.2)) (h.sets i)
  rwa [Option.map_map, Option.map_map] at this

theorem SlotStep.ref {inst : DomainSetNet δ} {i : ℕ} {set : DomainSet δ}
    (hset : inst.domainSet i = some set) (ref : ℕ) :
    SlotStep inst (inst.setSlot i (some { set with ref := ref })) :=
  (SameSets.setSlot (t := { set with ref := ref }) hset rfl rfl rfl).slotStep

namespace Net

variable {s s' : Net δ π}

theorem putByindex_slotStep {k index : ℕ} (hput : s.putByindex k index = .ok s') :
    SlotStep s.inst s'.inst := by
  unfold putByindex at hput
  obtain ⟨inst', hinst, heq⟩ := bind_ok hput
  cases heq
  unfold DomainSetNet.domainSetNfnlPut at hinst
  split at hinst
  · cases hinst
    exact (SameSets.refl _).slotStep
  split at hinst
  · cases hinst
  split at hinst
  · cases hinst
    exact (SameSets.refl _).slotStep
  · rename_i set hset
    obtain ⟨set', hset', heq⟩ := bind_ok hinst
    cases heq
    unfold DomainSetNet.put at hset'
    split at hset' <;> cases hset'
    exact .ref hset _

theorem getByindex_slotStep (index : ℕ) (x : Holder) :
    SlotStep s.inst (s.getByindex index x).inst := by
  unfold getByindex
  rcases s.inst.domainSetNfnlGetByindex_cases index with heq | ⟨set, hset, heq⟩ <;> rw [heq]
  · exact (SameSets.refl _).slotStep
  · dsimp only
    split <;> exact .ref hset _

theorem holderStep_slotStep {k : ℕ} {kmemdup : Bool}
    (hstep : s.holderStep k kmemdup = some (.ok s')) : SlotStep s.inst s'.inst := by
  unfold holderStep at hstep
  split at hstep
  · split at hstep
    · exact putByindex_slotStep (Option.some.inj hstep)
    · cases hstep
      exact (SameSets.refl _).slotStep
  · split at hstep
    · cases hstep
      exact (SameSets.refl _).slotStep
    · exact putByindex_slotStep (Option.some.inj hstep)
  · exact putByindex_slotStep (Option.some.inj hstep)
  · exact putByindex_slotStep (Option.some.inj hstep)
  · cases hstep
  · cases hstep

theorem Balanced.slotStep (h : s.Balanced) {m : Move δ π} {events : List DumpEvent}
    (hstep : s.step v m = some (.ok (s', events))) : SlotStep s.inst s'.inst := by
  cases m with
  | create attr exist o =>
    obtain ⟨-, rfl⟩ := locked_ok hstep
    exact .command _ (DomainSetNet.domainSetCreate_result v attr exist o)
  | destroy attr setname =>
    obtain ⟨-, rfl⟩ := locked_ok hstep
    exact .command _ (DomainSetNet.domainSetDestroy_result attr setname)
  | destroyAll attr =>
    simp only [Net.step] at hstep
    rcases hr : s.inst.domainSetDestroyAll attr with ⟨ret, inst'⟩
    rw [hr] at hstep
    obtain ⟨-, rfl⟩ := locked_ok hstep
    cases ret with
    | ok =>
      obtain ⟨rfl, -⟩ := DomainSetNet.domainSetDestroyAll_ok hr
      exact .names (fun _ => rfl) rfl
    | err e =>
      obtain rfl := DomainSetNet.domainSetDestroyAll_err hr
      exact .names (fun _ => rfl) rfl
  | destroyNext =>
    obtain ⟨s1, hs1, heq⟩ := Option.map_eq_some_iff.mp hstep
    cases heq
    unfold Net.destroyNext at hs1
    split at hs1
    · cases hs1
    · split at hs1 <;> cases hs1
      · rename_i i _ hi
        exact .cleared i hi rfl
      · exact .names (fun _ => rfl) rfl
  | flush attr =>
    obtain ⟨-, rfl⟩ := locked_ok hstep
    exact (DomainSetNet.domainSetFlush_dataChange v attr).sameSets.slotStep
  | rename attr =>
    obtain ⟨-, rfl⟩ := locked_ok hstep
    exact .command _ (DomainSetNet.domainSetRename_result attr)
  | swap attr =>
    obtain ⟨-, rfl⟩ := locked_ok hstep
    exact .command _ (DomainSetNet.domainSetSwap_result attr)
  | data i f g =>
    cases hstep
    unfold Net.changeData
    split
    · exact (SameSets.refl _).slotStep
    · rename_i set hset
      exact (DataChange.setSlot hset _).sameSets.slotStep
  | checkentry index dim =>
    obtain ⟨-, rfl⟩ := locked_ok hstep
    exact getByindex_slotStep _ _
  | emChange size index =>
    simp only [Net.step] at hstep
    split at hstep
    · obtain ⟨-, rfl⟩ := locked_ok hstep
      exact getByindex_slotStep _ _
    · cases hstep
  | holder k kmemdup =>
    simp only [Net.step] at hstep
    split at hstep
    · cases hstep
    · obtain ⟨r, hr, heq⟩ := Option.map_eq_some_iff.mp hstep
      cases r with
      | error e => cases heq
      | ok s1 =>
        cases heq
        exact holderStep_slotStep hr
  | dump req =>
    cases hstep
    exact (SameSets.refl _).slotStep
  | session j m =>
    obtain ⟨p, inst', p', hj, hp, rfl⟩ := session_ok hstep
    obtain ⟨inst1, p1, events1, heq, hr⟩ := h.sessionStep hj hp
    cases heq
    exact hr.sets.slotStep

end Net

/-! ### Runs -/

theorem netSystem_named {l : List (NetLabel δ π)} {s : Net δ π} (h : (netSystem v).Run l s) :
    s.Balanced ∧ s.inst.Named := by
  refine h.invariant (P := fun s => s.Balanced ∧ s.inst.Named) ?_ ?_
  · rintro s hinit
    refine ⟨(netSystem_balanced (.start hinit)).1, ?_⟩
    obtain ⟨maxSets, config, rfl⟩ := hinit
    intro i j name hi
    rw [DomainSetNet.nameAt, domainSet_netInit] at hi
    cases hi
  · rintro s l s' ⟨hs, hn⟩ hstep
    exact ⟨hs.step hstep, (hs.slotStep hstep).named hn⟩

/-- Indexes and names belong together one to one: no two slots have sets of one name, the
search for a name finds its slot, asking for the index of a name and for the name of an
index are inverse to each other, the array never shrinks nor reaches `DSET_INVALID_ID`,
and a new set, also in a grown array, leaves every other set at its index. -/
theorem names_and_slots {l : List (NetLabel δ π)} {s : Net δ π} (h : (netSystem v).Run l s) :
    (∀ i j a b, s.inst.domainSet i = some a → s.inst.domainSet j = some b → a.name = b.name →
      i = j) ∧
    (∀ i set, s.inst.domainSet i = some set →
      s.inst.findSetAndId set.name = some (set, i) ∧ i < s.inst.domainSetMax) ∧
    (∀ attr name id, attr.protocol = some dsetProtocol → attr.setname = some name →
      ((∃ family, s.inst.domainSetByname attr none = .ok (family, id)) ↔
        s.inst.domainSetByindex ⟨some dsetProtocol, some id⟩ none = .ok name)) ∧
    s.inst.domainSetMax < dsetInvalidId ∧
    (∀ m s' events, s.step v m = some (.ok (s', events)) →
      s.inst.domainSetMax ≤ s'.inst.domainSetMax) ∧
    ∀ attr exist o s' events, s.step v (.create attr exist o) = some (.ok (s', events)) →
      ∀ i set, s.inst.domainSet i = some set → s'.inst.domainSet i = some set := by
  obtain ⟨hb, hn⟩ := netSystem_named h
  refine ⟨fun i j a b ha hb heq => ?_, fun i set hset => ⟨hn.findSetAndId hset, ?_⟩,
    fun attr name id hprotocol hname => ?_, (netSystem_referenced h).max_lt,
    fun m s' events hstep => (hb.slotStep hstep).max_le,
    fun attr exist o s' events hstep i set hset => ?_⟩
  · exact hn i j a.name (DomainSetNet.nameAt_eq_some.mpr ⟨a, ha, rfl⟩)
      (DomainSetNet.nameAt_eq_some.mpr ⟨b, hb, heq.symm⟩)
  · exact DomainSetNet.domainSet_lt hset
  · have hp : protocolFailed (some dsetProtocol) = false := rfl
    simp only [DomainSetNet.domainSetByname, DomainSetNet.domainSetByindex, hprotocol, hname, hp]
    constructor
    · rintro ⟨family, hfind⟩
      cases hr : s.inst.findSetAndId name with
      | none => simp [hr] at hfind
      | some r =>
        obtain ⟨set, i⟩ := r
        obtain ⟨hset, hname⟩ := DomainSetNet.findSetAndId_some hr
        obtain rfl : i = id := by
          rw [hr] at hfind
          exact (Prod.mk.inj (Except.ok.inj hfind)).2
        simp [Nat.not_le.mpr (DomainSetNet.domainSet_lt hset), hset, hname]
    · intro hindex
      cases hset : s.inst.domainSet id with
      | none => simp [hset] at hindex
      | some set =>
        simp only [Nat.not_le.mpr (DomainSetNet.domainSet_lt hset), hset, if_false,
          Bool.false_eq_true, Except.ok.injEq] at hindex
        subst hindex
        exact ⟨set.family, by rw [hn.findSetAndId hset]; rfl⟩
  · obtain ⟨-, rfl⟩ := Net.locked_ok hstep
    show (s.inst.domainSetCreate v attr exist o).2.domainSet i = some set
    rcases DomainSetNet.domainSetCreate_cases v attr exist o with
      ⟨e, heq⟩ | ⟨name, clash, type, heq, -⟩ | ⟨k, new, inst', heq, hnew, -⟩
    · rw [heq, hset]
    · rw [heq, hset]
    · rw [heq, hnew.other i, hset]
      rintro rfl
      exact absurd (hset.symm.trans hnew.free) (by simp)

def applyMove (s : Net Unit Unit) (l : NetLabel Unit Unit) : Option (Net Unit Unit) :=
  match s.step bareVariant l.move with
  | some (.ok (s', [])) => if l.events.isEmpty then some s' else none
  | _ => none

theorem applyMove_step {s s' : Net Unit Unit} {l : NetLabel Unit Unit}
    (h : applyMove s l = some s') : (netSystem bareVariant).step s l s' := by
  unfold applyMove at h
  split at h
  · next heq =>
    obtain ⟨hempty, hs⟩ := Option.ite_none_right_eq_some.mp h
    obtain rfl := Option.some.inj hs
    exact heq.trans (by rw [List.isEmpty_iff.mp hempty])
  · cases h

def letter (c : UInt8) (h : c ≠ 0) : SetName :=
  ⟨[c], fun hmem => h (List.mem_singleton.mp hmem).symm, (by decide : 1 < dsetMaxnamelen)⟩

/-- In an array of two, sets are made, renamed and swapped, one of them under a match rule; a third
one makes the array grow, and one is destroyed. -/
def shuffling : List (NetLabel Unit Unit) :=
  let a := letter 97 (by decide)
  let b := letter 98 (by decide)
  let c := letter 99 (by decide)
  let create (name : SetName) : Move Unit Unit :=
    .create ⟨some dsetProtocol, some name, none, some bareSet.name, some 0, some 0, none⟩ false
      ⟨true, .ok bareSet.type, true, .ok (), true⟩
  let names (name name2 : SetName) : CmdAttrs :=
    ⟨some dsetProtocol, some name, some name2, none, none, none, none⟩
  [create a, create b, .rename (names b c), .checkentry 1 1, .swap (names a c), create b,
    .destroy (names a b) a].map (⟨·, []⟩)

/-- The set made first is at the index of the second, and has its new name. -/
theorem names_and_slots_shuffled : ∃ s set, (netSystem bareVariant).Run shuffling s ∧
    s.inst.domainSetMax = 66 ∧ s.inst.domainSet 0 = none ∧ set.id = 0 ∧
    s.inst.findSetAndId (letter 99 (by decide)) = some (set, 1) ∧
    s.inst.domainSetByindex ⟨some dsetProtocol, some 1⟩ none = .ok (letter 99 (by decide)) := by
  obtain ⟨s, hrun, hs⟩ := (Option.any_eq_true (fun s : Net Unit Unit =>
    s.inst.domainSetMax = 66 && (s.inst.domainSet 0).isNone &&
      (s.inst.domainSet 1).any fun set => set.id = 0 && set.name = letter 99 (by decide))
        (shuffling.foldlM applyMove ⟨netInit 2 256, none, [], []⟩)).mp (by decide +kernel)
  simp only [Bool.and_eq_true, decide_eq_true_eq, Option.isNone_iff_eq_none,
    Option.any_eq_true] at hs
  obtain ⟨⟨hmax, hnone⟩, set, hset, hid, hname⟩ := hs
  have hrun : (netSystem bareVariant).Run shuffling s :=
    System.Run.foldlM (l := []) (fun _ _ _ h => applyMove_step h) (.start ⟨2, 256, rfl⟩) hrun
  obtain ⟨-, hfind, hindex, -⟩ := names_and_slots hrun
  have hset1 := (hfind 1 set hset).1
  rw [hname] at hset1
  refine ⟨s, set, hrun, hmax, hnone, hid, hset1, (hindex
    ⟨some dsetProtocol, some (letter 99 (by decide)), none, none, none, none, none⟩ _ 1 rfl rfl).mp ?_⟩
  exact ⟨set.family, by simp [DomainSetNet.domainSetByname, protocolFailed, hset1]⟩

end Dset.Core
