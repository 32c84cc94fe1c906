import Dset.Core.Commands

/-! What the commands on sets do to the search for a name. A name finds the set in the
first slot that has it, whether or not other slots have it too, so that nothing here
rests on names being distinct. -/

namespace Dset.Core

variable {δ π : Type}

namespace DomainSetNet

variable {inst inst' : DomainSetNet δ}

/-- Slot `i` is the first one with the name. -/
structure FirstNamed (inst : DomainSetNet δ) (name : SetName) (i : ℕ) (set : DomainSet δ) :
    Prop where
  slot : inst.domainSet i = some set
  hasName : set.name = name
  first : ∀ j t, j < i → inst.domainSet j = some t → t.name ≠ name

theorem findSetAndId_iff {name : SetName} {set : DomainSet δ} {i : ℕ} :
    inst.findSetAndId name = some (set, i) ↔ inst.FirstNamed name i set := by
  constructor
  · intro h
    obtain ⟨hslot, hname⟩ := findSetAndId_some h
    refine ⟨hslot, hname, fun j t hj ht heq => ?_⟩
    unfold findSetAndId at h
    split at h
    · cases h
    · rename_i k hk
      obtain ⟨s', -, heq'⟩ := Option.map_eq_some_iff.mp h
      cases heq'
      obtain ⟨hlt, -, hfirst⟩ := List.findIdx?_eq_some_iff_getElem.mp hk
      have hjlt : j < inst.domainSetList.length := domainSet_lt ht
      rw [domainSet, List.getD_eq_getElem _ _ hjlt] at ht
      have := hfirst j hj
      rw [ht] at this
      exact this (strncmp_iff.mpr heq)
  · intro h
    have hlt := domainSet_lt h.slot
    have hget : inst.domainSetList[i] = some set := by
      rw [← h.slot, domainSet, List.getD_eq_getElem _ _ hlt]
    have hidx : inst.domainSetList.findIdx? (fun o => o.any fun s => strncmp s.name name) =
        some i := by
      refine List.findIdx?_eq_some_iff_getElem.mpr ⟨hlt, ?_, fun j hj => ?_⟩
      · rw [hget]
        exact strncmp_iff.mpr h.hasName
      · have hjlt : j < inst.domainSetList.length := Nat.lt_trans hj hlt
        cases ht : inst.domainSetList[j] with
        | none => simp
        | some t =>
          have hslot : inst.domainSet j = some t := by
            rw [domainSet, List.getD_eq_getElem _ _ hjlt, ht]
          simpa [strncmp_iff] using h.first j t hj hslot
    rw [findSetAndId, hidx]
    simp [h.slot]

theorem findSet_iff {name : SetName} {set : DomainSet δ} :
    inst.findSet name = some set ↔ ∃ i, inst.FirstNamed name i set := by
  rw [findSet, Option.map_eq_some_iff]
  constructor
  · rintro ⟨⟨s, i⟩, h, rfl⟩
    exact ⟨i, findSetAndId_iff.mp h⟩
  · rintro ⟨i, h⟩
    exact ⟨(set, i), findSetAndId_iff.mpr h, rfl⟩

/-- The only slot with a name is the one found. -/
theorem findSet_of_unique {name : SetName} {set : DomainSet δ} {i : ℕ}
    (hslot : inst.domainSet i = some set) (hname : set.name = name)
    (hother : ∀ j t, j ≠ i → inst.domainSet j = some t → t.name ≠ name) :
    inst.findSet name = some set :=
  findSet_iff.mpr ⟨i, hslot, hname, fun j t hj => hother j t (Nat.ne_of_lt hj)⟩

theorem findSet_congr {name : SetName}
    (h : ∀ i s, s.name = name → (inst'.domainSet i = some s ↔ inst.domainSet i = some s)) :
    inst'.findSet name = inst.findSet name := by
  ext s
  rw [findSet_iff, findSet_iff]
  refine exists_congr fun i => ⟨fun hf => ?_, fun hf => ?_⟩
  · refine ⟨(h i s hf.hasName).mp hf.slot, hf.hasName, fun j t hj ht heq => ?_⟩
    exact hf.first j t hj ((h j t heq).mpr ht) heq
  · refine ⟨(h i s hf.hasName).mpr hf.slot, hf.hasName, fun j t hj ht heq => ?_⟩
    exact hf.first j t hj ((h j t heq).mp ht) heq

theorem findSet_eq_none {name : SetName}
    (h : ∀ i s, inst.domainSet i = some s → s.name ≠ name) : inst.findSet name = none := by
  cases hfind : inst.findSet name with
  | none => rfl
  | some s =>
    obtain ⟨i, hf⟩ := findSet_iff.mp hfind
    exact absurd hf.hasName (h i s hf.slot)

/-- Writing a slot that has the name neither before nor after. -/
theorem findSet_setSlot_of_ne {name : SetName} {i : ℕ} {old : DomainSet δ}
    {new : Option (DomainSet δ)} (hslot : inst.domainSet i = some old) (hold : old.name ≠ name)
    (hnew : ∀ s ∈ new, s.name ≠ name) : (inst.setSlot i new).findSet name = inst.findSet name := by
  refine findSet_congr fun j s hs => ?_
  rw [domainSet_setSlot (domainSet_lt hslot)]
  split
  · rename_i heq
    subst heq
    constructor
    · intro h
      exact absurd hs (hnew s h)
    · intro h
      rw [hslot] at h
      cases h
      exact absurd hs hold
  · rfl

end DomainSetNet

variable {inst inst' : DomainSetNet δ}

/-! ### The commands -/

theorem Created.findSet {i : ℕ} {set : DomainSet δ} (h : Created inst inst' i set)
    (name : SetName) :
    inst'.findSet name = if name = set.name then some set else inst.findSet name := by
  split
  · rename_i heq
    refine DomainSetNet.findSet_of_unique h.slot heq.symm fun j t hj ht => ?_
    rw [h.other j hj] at ht
    exact heq ▸ h.name j t ht
  · rename_i hne
    refine DomainSetNet.findSet_congr fun j s hs => ?_
    by_cases hj : j = i
    · subst hj
      rw [h.slot, h.free]
      constructor
      · intro heq
        cases heq
        exact absurd hs.symm hne
      · intro heq
        cases heq
    · rw [h.other j hj]

namespace DomainSetNet

theorem domainSetDestroy_findSet {attr : CmdAttrs} {name : SetName}
    (h : inst.domainSetDestroy attr name = (.ok, inst')) {other : SetName} (hne : other ≠ name) :
    inst'.findSet other = inst.findSet other := by
  unfold domainSetDestroy at h
  split at h
  · cases h
  split at h
  · cases h
  · rename_i s i hfind
    split at h
    · cases h
    · cases h
      obtain ⟨hslot, hname⟩ := findSetAndId_some hfind
      refine findSet_setSlot_of_ne hslot (fun heq => hne ?_) (fun t ht => by cases ht)
      rw [← heq, hname]

/-- A renamed set is found under its new name, which no set had. -/
theorem domainSetRename_findSet {attr : CmdAttrs} {name name2 : SetName}
    (h : inst.domainSetRename attr = (.ok, inst')) (hname : attr.setname = some name)
    (hname2 : attr.setname2 = some name2) :
    inst.findSet name2 = none ∧
      (∃ s, inst.findSet name = some s ∧ inst'.findSet name2 = some { s with name := name2 }) ∧
      ∀ other, other ≠ name → other ≠ name2 → inst'.findSet other = inst.findSet other := by
  unfold domainSetRename at h
  rw [hname, hname2] at h
  simp only at h
  split at h
  · cases h
  split at h
  · cases h
  · rename_i s i hfind
    split at h
    · cases h
    split at h
    · cases h
    · rename_i hany
      cases h
      obtain ⟨hslot, hs⟩ := findSetAndId_some hfind
      have hfree : ∀ j t, inst.domainSet j = some t → t.name ≠ name2 := by
        intro j t ht heq
        have hlt := domainSet_lt ht
        rw [domainSet, List.getD_eq_getElem _ _ hlt] at ht
        exact hany (List.any_eq_true.mpr ⟨some t, ht ▸ List.getElem_mem hlt, strncmp_iff.mpr heq⟩)
      refine ⟨findSet_eq_none hfree, ⟨s, ?_, ?_⟩, fun other hof hot => ?_⟩
      · exact findSet_iff.mpr ⟨i, findSetAndId_iff.mp hfind⟩
      · have hi := domainSet_lt hslot
        refine findSet_of_unique ((domainSet_setSlot hi _ _).trans (if_pos rfl)) rfl
          fun j t hj ht => ?_
        rw [domainSet_setSlot hi, if_neg hj] at ht
        exact hfree j t ht
      · refine findSet_setSlot_of_ne hslot (fun heq => hof ?_) (fun t ht => ?_)
        · rw [← heq, hs]
        · cases ht
          exact Ne.symm hot

/-- Swapped sets are found under each other's name. -/
theorem domainSetSwap_findSet {attr : CmdAttrs} {name name2 : SetName}
    (h : inst.domainSetSwap attr = (.ok, inst')) (hname : attr.setname = some name)
    (hname2 : attr.setname2 = some name2) :
    (∃ s t, inst.findSet name = some s ∧ inst.findSet name2 = some t ∧
      inst'.findSet name = some { t with name := s.name, ref := s.ref } ∧
      inst'.findSet name2 = some { s with name := t.name, ref := t.ref }) ∧
      ∀ other, other ≠ name → other ≠ name2 → inst'.findSet other = inst.findSet other := by
  unfold domainSetSwap at h
  rw [hname, hname2] at h
  simp only at h
  split at h
  · cases h
  split at h
  · cases h
  rename_i s i hs
  split at h
  · cases h
  rename_i t j ht
  split at h
  · cases h
  split at h
  · cases h
  cases h
  have hfs := findSetAndId_iff.mp hs
  have hft := findSetAndId_iff.mp ht
  have hi := domainSet_lt hfs.slot
  have hj : j < (inst.setSlot i (some { t with name := s.name, ref := s.ref })).domainSetMax := by
    rw [setSlot_max]
    exact domainSet_lt hft.slot
  -- the two writes leave every slot its name
  have hslot : ∀ k, ((inst.setSlot i (some { t with name := s.name, ref := s.ref })).setSlot j
      (some { s with name := t.name, ref := t.ref })).domainSet k =
      if k = j then some { s with name := t.name, ref := t.ref }
      else if k = i then some { t with name := s.name, ref := s.ref } else inst.domainSet k := by
    intro k
    rw [domainSet_setSlot hj, domainSet_setSlot hi]
  have hnames : ∀ k u, ((inst.setSlot i (some { t with name := s.name, ref := s.ref })).setSlot j
      (some { s with name := t.name, ref := t.ref })).domainSet k = some u →
      ∃ u', inst.domainSet k = some u' ∧ u'.name = u.name := by
    intro k u hu
    rw [hslot] at hu
    split at hu
    · rename_i heq
      cases hu
      exact ⟨t, heq ▸ hft.slot, rfl⟩
    split at hu
    · rename_i heq
      cases hu
      exact ⟨s, heq ▸ hfs.slot, rfl⟩
    · exact ⟨u, hu, rfl⟩
  refine ⟨⟨s, t, findSet_iff.mpr ⟨i, hfs⟩, findSet_iff.mpr ⟨j, hft⟩, ?_, ?_⟩, ?_⟩
  · refine findSet_iff.mpr ⟨i, ?_, hfs.hasName, fun k u hk hu heq => ?_⟩
    · rw [hslot, if_pos rfl]
      split
      · rename_i heq
        subst heq
        have := hfs.slot.symm.trans hft.slot
        cases this
        rfl
      · rfl
    · obtain ⟨u', hu', hname⟩ := hnames k u hu
      exact hfs.first k u' hk hu' (hname.trans heq)
  · refine findSet_iff.mpr ⟨j, ?_, hft.hasName, fun k u hk hu heq => ?_⟩
    · rw [hslot, if_pos rfl]
    · obtain ⟨u', hu', hname⟩ := hnames k u hu
      exact hft.first k u' hk hu' (hname.trans heq)
  · intro other hof hot
    refine findSet_congr fun k u hu => ?_
    rw [hslot]
    split
    · rename_i heq
      subst heq
      rw [hft.slot]
      constructor
      · intro h
        cases h
        exact absurd (hu.symm.trans hft.hasName) hot
      · intro h
        cases h
        exact absurd (hu.symm.trans hft.hasName) hot
    split
    · rename_i heq
      subst heq
      rw [hfs.slot]
      constructor
      · intro h
        cases h
        exact absurd (hu.symm.trans hfs.hasName) hof
      · intro h
        cases h
        exact absurd (hu.symm.trans hfs.hasName) hof
    · rfl

end DomainSetNet

end Dset.Core
