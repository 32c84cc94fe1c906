import Dset.Core.Net

/-! References by index: the `ref` of the set in a slot counts the holders of this
index, whatever commands move the sets between the slots. A slot somebody holds keeps
its name and is never empty. -/

namespace Dset.Core

open Dset.Lib

variable {δ π : Type} {v : Variant δ π}

/-- The `ref` in slot `i`; none in an empty slot. -/
def DomainSetNet.refs (inst : DomainSetNet δ) (i : ℕ) : ℕ := (inst.domainSet i).elim 0 (·.ref)

def DomainSetNet.nameAt (inst : DomainSetNet δ) (i : ℕ) : Option SetName :=
  (inst.domainSet i).map (·.name)

def Holder.holds (i : ℕ) (h : Holder) : ℕ := if h.index = some i then 1 else 0

def Net.holdersOf (s : Net δ π) (i : ℕ) : ℕ := held (Holder.holds i) s.holders

/-- No reference and no name of a referenced slot changes. -/
structure KeepsRefs (inst inst' : DomainSetNet δ) : Prop where
  refs : ∀ i, inst'.refs i = inst.refs i
  name : ∀ i, 0 < inst.refs i → inst'.nameAt i = inst.nameAt i
  deleted : inst'.isDeleted = inst.isDeleted
  valid : inst.domainSetMax < dsetInvalidId → inst'.domainSetMax < dsetInvalidId

namespace KeepsRefs

variable {inst inst' inst'' : DomainSetNet δ}

theorem refl (inst : DomainSetNet δ) : KeepsRefs inst inst :=
  ⟨fun _ => rfl, fun _ _ => rfl, rfl, id⟩

theorem trans (h : KeepsRefs inst inst') (h' : KeepsRefs inst' inst'') : KeepsRefs inst inst'' where
  refs i := (h'.refs i).trans (h.refs i)
  name i hi := (h'.name i ((h.refs i).symm ▸ hi)).trans (h.name i hi)
  deleted := h'.deleted.trans h.deleted
  valid := h'.valid ∘ h.valid

/-- A slot that is written with the same reference and, when there is one, name. -/
theorem setSlot {i : ℕ} {o : Option (DomainSet δ)} (hi : i < inst.domainSetMax)
    (href : o.elim 0 (·.ref) = inst.refs i)
    (hname : 0 < inst.refs i → o.map (·.name) = inst.nameAt i) :
    KeepsRefs inst (inst.setSlot i o) where
  refs j := by
    rw [DomainSetNet.refs, DomainSetNet.domainSet_setSlot hi]
    split
    · rename_i heq
      rw [href, heq]
    · rfl
  name j hj := by
    rw [DomainSetNet.nameAt, DomainSetNet.domainSet_setSlot hi]
    split
    · rename_i heq
      rw [hname (heq ▸ hj), heq]
    · rfl
  deleted := rfl
  valid h := by rwa [DomainSetNet.setSlot_max]

/-- The set in a slot is replaced by one with the same reference and name. -/
theorem setSlot_some {i : ℕ} {s t : DomainSet δ} (hs : inst.domainSet i = some s)
    (href : t.ref = s.ref) (hname : t.name = s.name) :
    KeepsRefs inst (inst.setSlot i (some t)) := by
  refine setSlot (DomainSetNet.domainSet_lt hs) ?_ fun _ => ?_
  · simp [DomainSetNet.refs, hs, href]
  · simp [DomainSetNet.nameAt, hs, hname]

end KeepsRefs

theorem CommandResult.keepsRefs {inst inst' : DomainSetNet δ} {ret : Ret}
    (h : CommandResult inst ret inst') : KeepsRefs inst inst' := by
  cases h with
  | unchanged => exact .refl _
  | created i set _ h =>
    refine ⟨fun j => ?_, fun j hj => ?_, h.isDeleted, h.valid⟩
    · by_cases heq : j = i
      · simp [DomainSetNet.refs, heq, h.free, h.slot, h.ref]
      · rw [DomainSetNet.refs, h.other j heq, DomainSetNet.refs]
    · have hne : j ≠ i := by
        rintro rfl
        simp [DomainSetNet.refs, h.free] at hj
      rw [DomainSetNet.nameAt, h.other j hne, DomainSetNet.nameAt]
  | destroyed i set hset href _ =>
    have hzero : inst.refs i = 0 := by simp [DomainSetNet.refs, hset, href]
    exact .setSlot (DomainSetNet.domainSet_lt hset) hzero.symm fun hpos => by omega
  | renamed i set name2 hset _ href _ =>
    have hzero : inst.refs i = 0 := by simp [DomainSetNet.refs, hset, href]
    exact .setSlot (DomainSetNet.domainSet_lt hset) (by rw [hzero]; exact href)
      fun hpos => by omega
  | swapped i j s t hs ht _ _ =>
    have h1 : KeepsRefs inst
        (inst.setSlot i (some { t with name := s.name, ref := s.ref })) :=
      .setSlot_some hs rfl rfl
    refine h1.trans ?_
    by_cases heq : j = i
    · subst heq
      obtain rfl : s = t := Option.some.inj (hs.symm.trans ht)
      exact .setSlot_some ((DomainSetNet.domainSet_setSlot (DomainSetNet.domainSet_lt hs) _ _).trans
        (if_pos rfl)) rfl rfl
    · exact .setSlot_some ((DomainSetNet.domainSet_setSlot (DomainSetNet.domainSet_lt hs) _ _).trans
        ((if_neg heq).trans ht)) rfl rfl

theorem DataChange.keepsRefs {inst inst' : DomainSetNet δ} (h : DataChange inst inst') :
    KeepsRefs inst inst' := by
  refine ⟨fun i => ?_, fun i _ => ?_, h.isDeleted, fun hv => h.max ▸ hv⟩
  · rcases h.domainSet i with ⟨h1, h2⟩ | ⟨s, data, h1, h2⟩ <;> simp [DomainSetNet.refs, h1, h2]
  · rcases h.domainSet i with ⟨h1, h2⟩ | ⟨s, data, h1, h2⟩ <;> simp [DomainSetNet.nameAt, h1, h2]

/-! ### Sessions -/

theorem dumpScan_keepsRefs (v : Variant δ π) (inst : DomainSetNet δ) (p : Session π)
    (mode : DumpMode) (max : ℕ) (set : Bool) :
    KeepsRefs inst (dumpScan v inst p mode max set).1 := by
  unfold dumpScan
  split
  · split
    · split
      · exact .refl _
      · split <;> exact .refl _
    · rename_i s hs
      split
      · split <;> exact .refl _
      split
      · exact .refl _
      split
      · exact .setSlot_some hs rfl rfl
      · exact .refl _
  · split <;> exact .refl _

theorem dumpPut_keepsRefs {v : Variant δ π} {inst inst' : DomainSetNet δ} {p p' : Session π}
    {index : ℕ} {events : List DumpEvent} (h : dumpPut v inst p index = .ok (inst', p', events)) :
    KeepsRefs inst inst' := by
  unfold dumpPut at h
  split at h
  · cases h
  · rename_i set hset
    unfold putNetlink at h
    split at h
    · cases h
    · cases h
      exact .setSlot_some hset rfl rfl

theorem sessionStep_keepsRefs {v : Variant δ π} {inst inst' : DomainSetNet δ} {p p' : Session π}
    {m : SessionMove δ π} {events : List DumpEvent}
    (h : sessionStep v inst p m = some (.ok (inst', p', events))) : KeepsRefs inst inst' := by
  cases m with
  | call =>
    simp only [sessionStep] at h
    split at h <;> cases h
    exact .refl _
  | scan =>
    simp only [sessionStep] at h
    split at h
    · rename_i mode max set _
      have := dumpScan_keepsRefs v inst p mode max set
      rw [Except.ok.inj (Option.some.inj h)] at this
      exact this
    · cases h
  | list fns skb =>
    simp only [sessionStep] at h
    split at h
    · unfold dumpListing at h
      split at h
      · cases h
      · rename_i set hset
        cases h
        exact (DataChange.setSlot hset _).keepsRefs
    · cases h
  | release =>
    simp only [sessionStep] at h
    split at h
    · unfold dumpRelease at h
      split at h
      · obtain ⟨⟨inst1, p1, events1⟩, hput, hret⟩ := bind_ok (Option.some.inj h)
        cases hret
        exact dumpPut_keepsRefs hput
      · cases h
        exact .refl _
    · cases h
  | done =>
    have hdone : dumpDone v inst p = .ok (inst', p', events) := by
      simp only [sessionStep] at h
      split at h
      · exact Option.some.inj h
      · exact Option.some.inj h
      · cases h
    unfold dumpDone at hdone
    split at hdone
    · obtain ⟨⟨inst1, p1, events1⟩, hput, hret⟩ := bind_ok hdone
      cases hret
      exact dumpPut_keepsRefs hput
    · cases hdone
      exact .refl _

/-! ### Runs -/

structure Net.Referenced (s : Net δ π) : Prop where
  refs : ∀ i, s.inst.refs i = s.holdersOf i
  destroying : s.destroying.isSome = true → ∀ i, s.inst.refs i = 0
  isDeleted : s.inst.isDeleted = false
  max_lt : s.inst.domainSetMax < dsetInvalidId

namespace Net

variable {s s' : Net δ π} {i : ℕ}

/-- A step and the names of the slots that are held. -/
def KeepsNames (s s' : Net δ π) : Prop :=
  ∀ i, 0 < s.holdersOf i → s'.inst.nameAt i = s.inst.nameAt i

theorem Referenced.keeps (h : s.Referenced) (hk : KeepsRefs s.inst s'.inst)
    (hholders : s'.holders = s.holders)
    (hdestroying : s'.destroying.isSome = true → ∀ i, s.inst.refs i = 0) :
    s'.Referenced ∧ s.KeepsNames s' := by
  refine ⟨⟨fun i => ?_, fun hd i => (hk.refs i).trans (hdestroying hd i),
    hk.deleted.trans h.isDeleted, hk.valid h.max_lt⟩, fun i hi => hk.name i (h.refs i ▸ hi)⟩
  rw [hk.refs, h.refs, holdersOf, holdersOf, hholders]

theorem Referenced.exists_set (h : s.Referenced) (hi : 0 < s.holdersOf i) :
    ∃ set, s.inst.domainSet i = some set ∧ set.ref = s.holdersOf i := by
  rw [← h.refs, DomainSetNet.refs] at hi ⊢
  cases hs : s.inst.domainSet i with
  | none => simp [hs] at hi
  | some set => exact ⟨set, rfl, rfl⟩

theorem Referenced.getByindex (h : s.Referenced) {index : ℕ} {x : Holder} (hx : x.index = some index)
    (hd : s.destroying = none) :
    (s.getByindex index x).Referenced ∧ s.KeepsNames (s.getByindex index x) := by
  unfold Net.getByindex
  rcases s.inst.domainSetNfnlGetByindex_cases index with heq | ⟨set, hs, heq⟩ <;> rw [heq]
  · simp only [if_true]
    exact ⟨h, fun _ _ => rfl⟩
  · have hi := DomainSetNet.domainSet_lt hs
    have hne : index ≠ dsetInvalidId := Nat.ne_of_lt (Nat.lt_trans hi h.max_lt)
    simp only [hne, if_false]
    have hslot := DomainSetNet.domainSet_setSlot hi (some (DomainSetNet.get set))
    refine ⟨⟨fun i => ?_, fun hsome => ?_, h.isDeleted, ?_⟩, fun i _ => ?_⟩
    · have := h.refs i
      simp only [DomainSetNet.refs, holdersOf, hslot, held_append, held_cons, held_nil] at this ⊢
      by_cases heq : i = index
      · subst heq
        simp only [hs, Option.elim] at this
        simp [DomainSetNet.get, Holder.holds, hx, this]
      · rw [if_neg heq, this]
        simp [Holder.holds, hx, Ne.symm heq]
    · rw [hd] at hsome
      cases hsome
    · rw [DomainSetNet.setSlot_max]
      exact h.max_lt
    · simp only [DomainSetNet.nameAt, hslot]
      split
      · rename_i heq
        rw [heq, hs]
        rfl
      · rfl

/-- A holder less, and one reference less: `BUG_ON` does not fire. -/
theorem Referenced.putByindex (h : s.Referenced) {k index : ℕ} {x : Holder}
    (hk : s.holders[k]? = some x) (hx : x.index = some index) (hd : s.destroying = none) :
    ∃ s', s.putByindex k index = .ok s' ∧ s'.Referenced ∧ s.KeepsNames s' := by
  have hheld : 1 ≤ s.holdersOf index := by
    have := le_held (w := Holder.holds index) (List.mem_of_getElem? hk)
    simpa [Holder.holds, hx, holdersOf] using this
  obtain ⟨set, hs, href⟩ := h.exists_set hheld
  have hi := DomainSetNet.domainSet_lt hs
  have hput : DomainSetNet.put set = .ok { set with ref := set.ref - 1 } := by
    rw [DomainSetNet.put, if_neg (by omega)]
  refine ⟨{ s with
    inst := s.inst.setSlot index (some { set with ref := set.ref - 1 })
    holders := s.holders.set k .gone }, ?_, ?_, ?_⟩
  · unfold Net.putByindex DomainSetNet.domainSetNfnlPut
    rw [h.isDeleted, if_neg (by simp), if_neg (Nat.not_le.mpr hi), hs]
    simp only [hput]
    rfl
  · have hslot := DomainSetNet.domainSet_setSlot hi (some { set with ref := set.ref - 1 })
    refine ⟨fun i => ?_, fun hsome => ?_, h.isDeleted, ?_⟩
    · have h1 := h.refs i
      have h2 := held_set (w := Holder.holds i) hk .gone
      simp only [DomainSetNet.refs, holdersOf, hslot] at h1 ⊢
      have hgone : Holder.holds i .gone = 0 := rfl
      by_cases heq : i = index
      · subst heq
        simp only [hs, Option.elim] at h1
        rw [hgone] at h2
        simp only [Holder.holds, hx, if_true] at h2
        simp only [if_true, Option.elim]
        omega
      · rw [if_neg heq, h1]
        rw [hgone] at h2
        simp only [Holder.holds, hx, Option.some.injEq, Ne.symm heq, if_false] at h2
        exact h2.symm
    · rw [hd] at hsome
      cases hsome
    · rw [DomainSetNet.setSlot_max]
      exact h.max_lt
  · intro i _
    simp only [DomainSetNet.nameAt, DomainSetNet.domainSet_setSlot hi]
    split
    · rename_i heq
      rw [heq, hs]
      rfl
    · rfl

/-- A command: it leaves the references to the slots as they are. -/
theorem Referenced.command (h : s.Referenced) {inst' : DomainSetNet δ}
    (hk : KeepsRefs s.inst inst') {events : List DumpEvent}
    (hstep : s.locked { s with inst := inst' } = some (.ok (s', events))) :
    s'.Referenced ∧ s.KeepsNames s' := by
  obtain ⟨hd, rfl⟩ := locked_ok hstep
  exact h.keeps hk rfl fun hsome => by
    rw [show ({ s with inst := inst' } : Net δ π).destroying = none from hd] at hsome
    cases hsome

theorem Referenced.destroyAll (h : s.Referenced) {attr : CmdAttrs} {events : List DumpEvent}
    (hstep : s.step v (.destroyAll attr) = some (.ok (s', events))) :
    s'.Referenced ∧ s.KeepsNames s' := by
  simp only [Net.step] at hstep
  rcases hr : s.inst.domainSetDestroyAll attr with ⟨ret, inst'⟩
  rw [hr] at hstep
  obtain ⟨-, rfl⟩ := locked_ok hstep
  cases ret with
  | ok =>
    obtain ⟨rfl, hzero⟩ := DomainSetNet.domainSetDestroyAll_ok hr
    refine h.keeps ⟨fun _ => rfl, fun _ _ => rfl, rfl, id⟩ rfl fun _ i => ?_
    cases hs : s.inst.domainSet i with
    | none => simp [DomainSetNet.refs, hs]
    | some set => simpa [DomainSetNet.refs, hs] using (hzero i set hs).1
  | err e =>
    obtain rfl := DomainSetNet.domainSetDestroyAll_err hr
    exact h.keeps (.refl _) rfl fun hsome => by simp at hsome

/-- While all sets are destroyed none of them is referenced. -/
theorem Referenced.destroyNext (h : s.Referenced) (hstep : s.destroyNext = some s') :
    s'.Referenced ∧ s.KeepsNames s' := by
  unfold Net.destroyNext at hstep
  split at hstep
  · cases hstep
  · rename_i i hd
    have hzero := h.destroying (by rw [hd]; rfl)
    split at hstep <;> cases hstep
    · rename_i hi
      exact h.keeps (.setSlot hi (hzero i).symm fun hpos => by rw [hzero i] at hpos; omega) rfl
        fun _ => hzero
    · exact h.keeps ⟨fun _ => rfl, fun _ _ => rfl, rfl, id⟩ rfl fun hsome => by cases hsome

theorem Referenced.changeData (h : s.Referenced) (i : ℕ) (f : δ → δ) (g : π → π) :
    (s.changeData i f g).Referenced ∧ s.KeepsNames (s.changeData i f g) := by
  unfold Net.changeData
  split
  · exact ⟨h, fun _ _ => rfl⟩
  · rename_i set hset
    exact h.keeps (.setSlot_some hset rfl rfl) rfl h.destroying

/-- A holder goes on with the index it has. -/
theorem Referenced.holderGoesOn (h : s.Referenced) {k : ℕ} {x y : Holder}
    (hk : s.holders[k]? = some x) (hxy : y.index = x.index) :
    let s' : Net δ π := { s with holders := s.holders.set k y }
    s'.Referenced ∧ s.KeepsNames s' := by
  refine ⟨⟨fun i => ?_, h.destroying, h.isDeleted, h.max_lt⟩, fun _ _ => rfl⟩
  rw [h.refs, holdersOf, holdersOf, held_set_same hk]
  rw [Holder.holds, Holder.holds, hxy]

theorem Referenced.holderStep (h : s.Referenced) {k : ℕ} {kmemdup : Bool}
    {r : Except Fault (Net δ π)} (hd : s.destroying = none)
    (hstep : s.holderStep k kmemdup = some r) :
    ∃ s', r = .ok s' ∧ s'.Referenced ∧ s.KeepsNames s' := by
  unfold Net.holderStep at hstep
  split at hstep
  · rename_i index dim hk
    split at hstep <;> cases hstep
    · exact h.putByindex hk rfl hd
    · exact ⟨_, rfl, h.holderGoesOn hk rfl⟩
  · rename_i index hk
    split at hstep <;> cases hstep
    · exact ⟨_, rfl, h.holderGoesOn hk rfl⟩
    · exact h.putByindex hk rfl hd
  · rename_i index hk
    cases hstep
    exact h.putByindex hk rfl hd
  · rename_i index hk
    cases hstep
    exact h.putByindex hk rfl hd
  · cases hstep
  · cases hstep

theorem Referenced.step (h : s.Referenced) {m : Move δ π} {events : List DumpEvent}
    (hstep : s.step v m = some (.ok (s', events))) : s'.Referenced ∧ s.KeepsNames s' := by
  cases m with
  | create attr exist o =>
    exact h.command (DomainSetNet.domainSetCreate_result v attr exist o).keepsRefs hstep
  | destroy attr setname =>
    exact h.command (DomainSetNet.domainSetDestroy_result attr setname).keepsRefs hstep
  | destroyAll attr => exact h.destroyAll hstep
  | destroyNext =>
    obtain ⟨s1, hs1, heq⟩ := Option.map_eq_some_iff.mp hstep
    cases heq
    exact h.destroyNext hs1
  | flush attr =>
    exact h.command (DomainSetNet.domainSetFlush_dataChange v attr).keepsRefs hstep
  | rename attr =>
    exact h.command (DomainSetNet.domainSetRename_result attr).keepsRefs hstep
  | swap attr => exact h.command (DomainSetNet.domainSetSwap_result attr).keepsRefs hstep
  | data i f g =>
    cases hstep
    exact h.changeData i f g
  | checkentry index dim =>
    obtain ⟨hd, rfl⟩ := locked_ok hstep
    exact h.getByindex rfl hd
  | emChange size index =>
    simp only [Net.step] at hstep
    split at hstep
    · obtain ⟨hd, rfl⟩ := locked_ok hstep
      exact h.getByindex rfl hd
    · cases hstep
  | holder k kmemdup =>
    simp only [Net.step] at hstep
    split at hstep
    · cases hstep
    · rename_i hd
      obtain ⟨r, hr, heq⟩ := Option.map_eq_some_iff.mp hstep
      obtain ⟨s1, rfl, h1⟩ := h.holderStep (by simpa using hd) hr
      cases heq
      exact h1
  | dump req =>
    cases hstep
    exact h.keeps (.refl _) rfl h.destroying
  | session j m =>
    obtain ⟨p, inst', p', -, hp, rfl⟩ := session_ok hstep
    exact h.keeps (sessionStep_keepsRefs hp) rfl h.destroying

end Net

theorem netSystem_referenced {l : List (NetLabel δ π)} {s : Net δ π} (h : (netSystem v).Run l s) :
    s.Referenced := by
  refine h.invariant ?_ fun s l s' hs hstep => (hs.step hstep).1
  rintro _ ⟨maxSets, config, rfl⟩
  refine ⟨fun i => ?_, (fun hsome => by cases hsome), rfl, netInit_max_lt maxSets config⟩
  simp [DomainSetNet.refs, domainSet_netInit, Net.holdersOf]

/-- While an index is held its slot keeps its name, whoever makes the steps. -/
theorem nameAt_of_held {s s' : Net δ π} {i : ℕ} (h : s.Referenced) {l : List (NetLabel δ π)}
    (hrun : (((netSystem v).startingAt s).guard fun s _ => 0 < s.holdersOf i).Run l s') :
    s'.inst.nameAt i = s.inst.nameAt i := by
  have hkept : s'.Referenced ∧ s'.inst.nameAt i = s.inst.nameAt i := by
    refine hrun.invariant (P := fun s' => s'.Referenced ∧ s'.inst.nameAt i = s.inst.nameAt i) ?_ ?_
    · rintro _ rfl
      exact ⟨h, rfl⟩
    · rintro s1 l s2 ⟨h1, hname⟩ ⟨hheld, hstep⟩
      obtain ⟨h2, hnames⟩ := h1.step hstep
      exact ⟨h2, (hnames i hheld).trans hname⟩
  exact hkept.2

/-- References by index are conserved: the `ref` in each slot is the number of holders
of the index, putting one never meets `BUG_ON`, and as long as an index is held its slot
has a set, that `domain_set_test` finds, with the same name. -/
theorem references_conserved {l : List (NetLabel δ π)} {s : Net δ π}
    (h : (netSystem v).Run l s) :
    (∀ i set, s.inst.domainSet i = some set → set.ref = s.holdersOf i) ∧
    (∀ k kmemdup e, s.step v (.holder k kmemdup) ≠ some (.error e)) ∧
    ∀ i, 0 < s.holdersOf i →
      (∃ set, s.inst.domainSet i = some set ∧ s.inst.domainSetTestSet i = .ok set) ∧
      ∀ l' s', (((netSystem v).startingAt s).guard fun s _ => 0 < s.holdersOf i).Run l' s' →
        s'.inst.nameAt i = s.inst.nameAt i := by
  have hr := netSystem_referenced h
  refine ⟨fun i set hset => ?_, fun k kmemdup e hstep => ?_, fun i hi => ⟨?_, fun l' s' hrun => ?_⟩⟩
  · have := hr.refs i
    rwa [DomainSetNet.refs, hset] at this
  · simp only [Net.step] at hstep
    split at hstep
    · cases hstep
    · rename_i hd
      obtain ⟨r, hstep', heq⟩ := Option.map_eq_some_iff.mp hstep
      obtain ⟨s1, rfl, -⟩ := hr.holderStep (by simpa using hd) hstep'
      cases heq
  · obtain ⟨set, hset, -⟩ := hr.exists_set hi
    refine ⟨set, hset, ?_⟩
    rw [DomainSetNet.domainSetTestSet,
      if_neg (Nat.not_le.mpr (DomainSetNet.domainSet_lt hset)), hset]
  · exact nameAt_of_held hr hrun

def bareVariant : Variant Unit Unit := ⟨fun _ _ => true, id, none⟩

def bareSet : DomainSet Unit :=
  let name : SetName := ⟨[97], by decide, by decide⟩
  { id := 0
    name := name
    type := ⟨name, 0, 0, 0, 0⟩
    family := 0
    revision := 0
    ref := 1
    refNetlink := 0
    data := () }

/-- A namespace with one set, and a match rule on it. -/
def ruleNet : Net Unit Unit := ⟨⟨[some bareSet], false, false, 1⟩, none, [.checking 0 1], []⟩

/-- The rule keeps the set in its slot, under its name. -/
theorem references_conserved_rule :
    (∃ set, ruleNet.inst.domainSet 0 = some set ∧ ruleNet.inst.domainSetTestSet 0 = .ok set) ∧
    ∀ l' s', (((netSystem bareVariant).startingAt ruleNet).guard
      fun s _ => 0 < s.holdersOf 0).Run l' s' → s'.inst.nameAt 0 = ruleNet.inst.nameAt 0 := by
  let attr : CmdAttrs :=
    ⟨some 8, some bareSet.name, none, some bareSet.name, some 0, some 0, none⟩
  have hrun : (netSystem bareVariant).Run
      ([] ++ [⟨.create attr false ⟨true, .ok bareSet.type, true, .ok (), true⟩, []⟩] ++
        [⟨.checkentry 0 1, []⟩]) ruleNet :=
    .snoc (.snoc (.start ⟨1, 256, rfl⟩) rfl) rfl
  exact (references_conserved hrun).2.2 0 (by decide)

end Dset.Core
