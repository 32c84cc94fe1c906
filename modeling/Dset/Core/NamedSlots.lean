import Dset.Core.NamedSets

/-! The slots of the array hold the named sets. A slot that is emptied takes a name away, and one
that is filled gives it a set; the commands are made of these two. Rules and dump sessions leave
names and data, and requests change the keys of one set. -/

namespace Dset.Core

open Dset.Lib Dset.Hash

variable {A : Arch} {jhash2 : HashDomainElem → BitVec 32 → BitVec 32} {start now : ℕ}

/-! ### Slots and names -/

/-- A set in a slot and what the commands made of it; its keys are those of an earlier tick. -/
structure ShowsSet (jhash2 : HashDomainElem → BitVec 32 → BitVec 32) (start now : ℕ)
    (set : DomainSet (Hash.DomainSet A)) (x : NamedSet A) : Prop where
  settings : x.settings.SameConfig set.data
  le : x.keys.now ≤ now
  serves : Serves jhash2 start (x.keys.now, set.data) x.keys

/-- The named sets are in slots of their own. -/
structure ShowsSlots (jhash2 : HashDomainElem → BitVec 32 → BitVec 32) (start now : ℕ)
    (inst : DomainSetNet (Hash.DomainSet A)) (m : NamedSets A) : Prop where
  named : inst.Named
  shows_some : ∀ i set, inst.domainSet i = some set → ∃ x, m set.name = some x ∧
    ShowsSet jhash2 start now set x
  slot : ∀ name, m name ≠ none → ∃ i set, inst.domainSet i = some set ∧ set.name = name

section
variable {set set' : DomainSet (Hash.DomainSet A)} {x : NamedSet A}

theorem ShowsSet.mono {now' : ℕ} (h : ShowsSet jhash2 start now set x) (hle : now ≤ now') :
    ShowsSet jhash2 start now' set x := ⟨h.settings, h.le.trans hle, h.serves⟩

theorem ShowsSet.congr (h : ShowsSet jhash2 start now set x) (hdata : set'.data = set.data) :
    ShowsSet jhash2 start now set' x :=
  ⟨hdata ▸ h.settings, h.le, hdata ▸ h.serves⟩

theorem ShowsSet.step (h : ShowsSet jhash2 start now set x)
    (hclock : now ≤ start + 2 ^ (A.longBits - 1)) {c : Call} (hc : c.now = now)
    (haccepted : c.op.Accepted set.data) {data : Hash.DomainSet A}
    (hstep : (setSystem A jhash2 false).step set.data c data) :
    ∃ keys, (keySetSystem A start).step x.keys c keys ∧
      ShowsSet jhash2 start now { set with data := data } { x with keys := keys } := by
  subst hc
  have hclocked : (clockedSystem A jhash2 start).step (x.keys.now, set.data) c (c.now, data) :=
    ⟨h.le, hclock, rfl, haccepted, hstep⟩
  obtain ⟨keys, hkeys, hserves, hconfig⟩ := h.serves.step hclocked
  have hnow : keys.now = c.now := hkeys.2.1
  refine ⟨keys, hkeys, h.settings.trans hconfig, hnow.le, ?_⟩
  rw [hnow]
  exact hserves

theorem ShowsSet.later (h : ShowsSet jhash2 start now set x)
    (hclock : now ≤ start + 2 ^ (A.longBits - 1)) :
    ShowsSet jhash2 start now set { x with keys := laterKeys x.keys now } :=
  ⟨h.settings, le_rfl, h.serves.later h.le hclock⟩

theorem ShowsSet.created {data : Hash.DomainSet A} (hset : set.data = data)
    (hinit : (setSystem A jhash2 false).init data)
    (hclock : start ≤ now ∧ now ≤ start + 2 ^ (A.longBits - 1)) :
    ShowsSet jhash2 start now set ⟨data, ⟨data.withTimeout, now, .empty⟩⟩ := by
  obtain ⟨a, ⟨hnow, hlive⟩, ha⟩ := (represents_simulation jhash2 start).init (start, data)
    ⟨rfl, hinit⟩
  have hc := init_created jhash2 hinit
  have hserves : Serves jhash2 start (start, data) a := ⟨ha, hc.timeout, hc.bits_le⟩
  have hlater := hserves.later hclock.1 hclock.2
  rw [hlive, ha.timeouts] at hlater
  subst hset
  exact ⟨.refl _, le_rfl, hlater⟩

end

section
variable {inst inst' : DomainSetNet (Hash.DomainSet A)} {m : NamedSets A} {i : ℕ}
  {set : DomainSet (Hash.DomainSet A)} {x : NamedSet A} {name : SetName}

theorem ShowsSlots.mono {now' : ℕ} (h : ShowsSlots jhash2 start now inst m) (hle : now ≤ now') :
    ShowsSlots jhash2 start now' inst m where
  named := h.named
  shows_some i set hset := by
    obtain ⟨x, hx, hshows⟩ := h.shows_some i set hset
    exact ⟨x, hx, hshows.mono hle⟩
  slot := h.slot

/-- What is found has its name in the map. -/
theorem ShowsSlots.found (h : ShowsSlots jhash2 start now inst m)
    (hfind : inst.findSetAndId name = some (set, i)) :
    ∃ x, m name = some x ∧ ShowsSet jhash2 start now set x ∧ inst.domainSet i = some set ∧
      set.name = name := by
  obtain ⟨hslot, hname⟩ := DomainSetNet.findSetAndId_some hfind
  obtain ⟨x, hx, hshows⟩ := h.shows_some i set hslot
  exact ⟨x, hname ▸ hx, hshows, hslot, hname⟩

theorem ShowsSlots.notFound (h : ShowsSlots jhash2 start now inst m)
    (hfind : inst.findSetAndId name = none) : m name = none := by
  by_contra hne
  obtain ⟨i, set, hset, rfl⟩ := h.slot name hne
  rw [h.named.findSetAndId hset] at hfind
  cases hfind

variable (inst') in
theorem ShowsSlots.removed (h : ShowsSlots jhash2 start now inst m)
    (hset : inst.domainSet i = some set) (hi : inst'.domainSet i = none)
    (hother : ∀ j, j ≠ i → inst'.domainSet j = inst.domainSet j) :
    ShowsSlots jhash2 start now inst' (Function.update m set.name none) := by
  have hold : ∀ j t, inst'.domainSet j = some t → j ≠ i ∧ inst.domainSet j = some t := by
    intro j t ht
    by_cases hj : j = i
    · rw [hj, hi] at ht
      cases ht
    · exact ⟨hj, (hother j hj).symm.trans ht⟩
  have hname : inst.nameAt i = some set.name := DomainSetNet.nameAt_eq_some.mpr ⟨set, hset, rfl⟩
  refine ⟨?_, fun j t ht => ?_, fun name hne => ?_⟩
  · refine h.named.update (i := i) (fun j hj => ?_) fun name j hname => ?_
    · rw [DomainSetNet.nameAt, DomainSetNet.nameAt, hother j hj]
    · rw [DomainSetNet.nameAt, hi] at hname
      cases hname
  · obtain ⟨hj, ht⟩ := hold j t ht
    have hne : t.name ≠ set.name := fun heq =>
      hj (h.named j i _ (DomainSetNet.nameAt_eq_some.mpr ⟨t, ht, heq⟩) hname)
    rw [Function.update_of_ne hne]
    exact h.shows_some j t ht
  · by_cases hn : name = set.name
    · subst hn
      exact absurd (Function.update_self ..) hne
    · rw [Function.update_of_ne hn] at hne
      obtain ⟨j, t, ht, rfl⟩ := h.slot name hne
      have hj : j ≠ i := by
        rintro rfl
        rw [hset] at ht
        cases ht
        exact hn rfl
      exact ⟨j, t, (hother j hj).trans ht, rfl⟩

/-- An empty slot gets a set with a new name. -/
theorem ShowsSlots.filled (h : ShowsSlots jhash2 start now inst m) (hfree : inst.domainSet i = none)
    (hi : inst'.domainSet i = some set)
    (hother : ∀ j, j ≠ i → inst'.domainSet j = inst.domainSet j) (hname : m set.name = none)
    (hx : ShowsSet jhash2 start now set x) :
    ShowsSlots jhash2 start now inst' (Function.update m set.name (some x)) := by
  have hnew : ∀ j t, inst.domainSet j = some t → t.name ≠ set.name := by
    intro j t ht heq
    obtain ⟨y, hy, -⟩ := h.shows_some j t ht
    rw [heq, hname] at hy
    cases hy
  refine ⟨?_, fun j t ht => ?_, fun name hne => ?_⟩
  · refine h.named.update (i := i) (fun j hj => ?_) fun name j hn hj heq => ?_
    · rw [DomainSetNet.nameAt, DomainSetNet.nameAt, hother j hj]
    · obtain ⟨t, ht, rfl⟩ := DomainSetNet.nameAt_eq_some.mp heq
      rw [DomainSetNet.nameAt, hi] at hn
      exact hnew j t ht (Option.some.inj hn).symm
  · by_cases hj : j = i
    · rw [hj, hi] at ht
      cases ht
      exact ⟨x, Function.update_self .., hx⟩
    · rw [hother j hj] at ht
      rw [Function.update_of_ne (hnew j t ht)]
      exact h.shows_some j t ht
  · by_cases hn : name = set.name
    · exact ⟨i, set, hi, hn.symm⟩
    · rw [Function.update_of_ne hn] at hne
      obtain ⟨j, t, ht, rfl⟩ := h.slot name hne
      have hj : j ≠ i := by
        rintro rfl
        rw [hfree] at ht
        cases ht
      exact ⟨j, t, (hother j hj).trans ht, rfl⟩

variable (set) in
/-- A slot is written; the name it then has is its old one or new. -/
theorem ShowsSlots.setSlot (h : ShowsSlots jhash2 start now inst m)
    {old : DomainSet (Hash.DomainSet A)} (hold : inst.domainSet i = some old)
    (hname : set.name = old.name ∨ m set.name = none) (hx : ShowsSet jhash2 start now set x) :
    ShowsSlots jhash2 start now (inst.setSlot i (some set))
      (Function.update (Function.update m old.name none) set.name (some x)) := by
  have hi := DomainSetNet.domainSet_lt hold
  have hempty := h.removed (inst.setSlot i none) hold
    ((DomainSetNet.domainSet_setSlot hi _ _).trans (if_pos rfl))
    fun j hj => (DomainSetNet.domainSet_setSlot hi _ _).trans (if_neg hj)
  refine hempty.filled (i := i) ((DomainSetNet.domainSet_setSlot hi _ _).trans (if_pos rfl))
    ((DomainSetNet.domainSet_setSlot hi _ _).trans (if_pos rfl)) (fun j hj => ?_) ?_ hx
  · rw [DomainSetNet.domainSet_setSlot hi, DomainSetNet.domainSet_setSlot hi, if_neg hj, if_neg hj]
  · by_cases heq : set.name = old.name
    · rw [heq]
      exact Function.update_self ..
    · rw [Function.update_of_ne heq]
      exact hname.resolve_left heq

variable (set) in
theorem ShowsSlots.write (h : ShowsSlots jhash2 start now inst m)
    {old : DomainSet (Hash.DomainSet A)} (hold : inst.domainSet i = some old)
    (hname : set.name = old.name) (hx : ShowsSet jhash2 start now set x) :
    ShowsSlots jhash2 start now (inst.setSlot i (some set))
      (Function.update m old.name (some x)) := by
  have := h.setSlot set hold (.inl hname) hx
  rwa [hname, Function.update_idem] at this

end

/-- Slots with the same names and data. -/
def SameNamed {δ : Type} (inst inst' : DomainSetNet δ) : Prop :=
  ∀ i, (inst'.domainSet i).map (fun s => (s.name, s.data)) =
    (inst.domainSet i).map fun s => (s.name, s.data)

section
variable {δ : Type} {inst inst' : DomainSetNet δ}

theorem SameNamed.refl (inst : DomainSetNet δ) : SameNamed inst inst := fun _ => rfl

theorem SameNamed.setSlot {i : ℕ} {s t : DomainSet δ} (hs : inst.domainSet i = some s)
    (hname : t.name = s.name) (hdata : t.data = s.data) :
    SameNamed inst (inst.setSlot i (some t)) := by
  intro j
  rw [DomainSetNet.domainSet_setSlot (DomainSetNet.domainSet_lt hs)]
  split
  · rename_i heq
    simp [heq, hs, hname, hdata]
  · rfl

theorem SameNamed.before (h : SameNamed inst inst') {i : ℕ} {t : DomainSet δ}
    (ht : inst'.domainSet i = some t) :
    ∃ s, inst.domainSet i = some s ∧ t.name = s.name ∧ t.data = s.data := by
  have heq := h i
  rw [ht] at heq
  obtain ⟨s, hs, hst⟩ := Option.map_eq_some_iff.mp heq.symm
  obtain ⟨hname, hdata⟩ := Prod.mk.inj hst
  exact ⟨s, hs, hname.symm, hdata.symm⟩

theorem SameNamed.empty (h : SameNamed inst inst') {i : ℕ} (hi : inst.domainSet i = none) :
    inst'.domainSet i = none := by
  have heq := h i
  rw [hi] at heq
  exact Option.map_eq_none_iff.mp heq

theorem SameNamed.symm (h : SameNamed inst inst') : SameNamed inst' inst := fun i => (h i).symm

end

section
variable {inst inst' : DomainSetNet (Hash.DomainSet A)} {m : NamedSets A} {attr : CmdAttrs}
  {ret : Ret}

theorem ShowsSlots.same (h : ShowsSlots jhash2 start now inst m) (hsame : SameNamed inst inst') :
    ShowsSlots jhash2 start now inst' m where
  named := h.named.congr fun i => by
    have := congrArg (Option.map Prod.fst) (hsame i)
    rwa [Option.map_map, Option.map_map] at this
  shows_some i t ht := by
    obtain ⟨s, hs, hname, hdata⟩ := hsame.before ht
    obtain ⟨x, hx, hshows⟩ := h.shows_some i s hs
    exact ⟨x, hname ▸ hx, hshows.congr hdata⟩
  slot name hne := by
    obtain ⟨i, s, hs, rfl⟩ := h.slot name hne
    obtain ⟨t, ht, hname, -⟩ := hsame.symm.before hs
    exact ⟨i, t, ht, hname.symm⟩

theorem ShowsSlots.mapSets (h : ShowsSlots jhash2 start now inst m)
    {f : DomainSet (Hash.DomainSet A) → DomainSet (Hash.DomainSet A)} {g : NamedSet A → NamedSet A}
    (hname : ∀ s, (f s).name = s.name)
    (hshows : ∀ s x, ShowsSet jhash2 start now s x → ShowsSet jhash2 start now (f s) (g x)) :
    ShowsSlots jhash2 start now (inst.mapSets f) fun name => (m name).map g where
  named := h.named.congr fun i => by
    rw [DomainSetNet.nameAt, DomainSetNet.domainSet_mapSets, Option.map_map]
    exact Option.map_congr fun s _ => hname s
  shows_some i t ht := by
    rw [DomainSetNet.domainSet_mapSets] at ht
    obtain ⟨s, hs, rfl⟩ := Option.map_eq_some_iff.mp ht
    obtain ⟨x, hx, hsx⟩ := h.shows_some i s hs
    exact ⟨g x, by rw [hname, hx]; rfl, hshows s x hsx⟩
  slot name hne := by
    obtain ⟨i, s, hs, rfl⟩ := h.slot name fun heq => hne (by rw [heq]; rfl)
    exact ⟨i, f s, by rw [DomainSetNet.domainSet_mapSets, hs]; rfl, hname s⟩

/-! ### Commands -/

/-- What a command did to the slots is what it means. -/
def Meant (jhash2 : HashDomainElem → BitVec 32 → BitVec 32) (start now : ℕ)
    (inst' : DomainSetNet (Hash.DomainSet A)) (m : NamedSets A)
    (mv : Move (Hash.DomainSet A) (Htable A)) (ret : Ret) : Prop :=
  ∃ m', (if ret = .ok then m.Commands m' now mv else m' = m) ∧ ShowsSlots jhash2 start now inst' m'

theorem Meant.err (h : ShowsSlots jhash2 start now inst m)
    (mv : Move (Hash.DomainSet A) (Htable A)) (e : Errno) :
    Meant jhash2 start now inst m mv (.err e) :=
  ⟨m, by rw [if_neg (by simp)], h⟩

theorem Meant.ok {m' : NamedSets A} (h : ShowsSlots jhash2 start now inst' m')
    {mv : Move (Hash.DomainSet A) (Htable A)} (hmeans : m.Commands m' now mv) :
    Meant jhash2 start now inst' m mv .ok :=
  ⟨m', by rwa [if_pos rfl], h⟩

/-- A new set has the data its type made. -/
theorem created_data {δ π : Type} {inst inst' : DomainSetNet δ} {v : Variant δ π} {attr : CmdAttrs}
    {exist : Bool} {o : CreateOutcomes δ} {i : ℕ} {set : DomainSet δ}
    (h : inst.domainSetCreate v attr exist o = (.ok, inst')) (hnew : Created inst inst' i set) :
    o.create = .ok set.data := by
  have hsame : inst' ≠ inst := by
    rintro rfl
    have := hnew.free.symm.trans hnew.slot
    cases this
  -- the slot that was empty and is not is the one written
  have hwritten : ∀ (inst1 : DomainSetNet δ) (k : ℕ) (t : DomainSet δ),
      (∀ j, inst1.domainSet j = inst.domainSet j) → k < inst1.domainSetMax →
      inst' = { inst1.setSlot k (some t) with nextId := inst1.nextId + 1 } → set = t := by
    intro inst1 k t hinst1 hk heq
    have hslot : inst'.domainSet i = (inst1.setSlot k (some t)).domainSet i := by
      rw [heq]
      rfl
    rw [hnew.slot, DomainSetNet.domainSet_setSlot hk] at hslot
    split at hslot
    · exact Option.some.inj hslot
    · rw [hinst1, hnew.free] at hslot
      cases hslot
  unfold DomainSetNet.domainSetCreate at h
  split at h
  · split at h
    · cases h
    split at h
    · cases h
    split at h
    · cases h
    split at h
    · cases h
    split at h
    · cases h
    rename_i data hdata
    simp only at h
    split at h
    · split at h
      · exact absurd (Prod.mk.inj h).2.symm hsame
      · cases h
    · split at h
      · cases h
      split at h
      · cases h
      · rename_i hwrap _
        obtain ⟨hlt, -⟩ := DomainSetNet.grown_lt rfl hwrap
        have := hwritten _ _ _ (DomainSetNet.domainSet_grow _) (by
          rw [DomainSetNet.grow_max]
          omega) (Prod.mk.inj h).2.symm
        rw [this]
        exact hdata
    · rename_i index hfree
      have := hwritten inst index _ (fun _ => rfl) (DomainSetNet.findFreeId_free hfree).1
        (Prod.mk.inj h).2.symm
      rw [this]
      exact hdata
  · cases h

theorem ShowsSlots.domainSetCreate (h : ShowsSlots jhash2 start now inst m)
    (hclock : start ≤ now ∧ now ≤ start + 2 ^ (A.longBits - 1)) {exist : Bool}
    {o : CreateOutcomes (Hash.DomainSet A)}
    (ho : ∀ set, o.create = .ok set → (setSystem A jhash2 false).init set) :
    Meant jhash2 start now (inst.domainSetCreate mtypeVariant attr exist o).2 m
      (.create attr exist o) (inst.domainSetCreate mtypeVariant attr exist o).1 := by
  rcases DomainSetNet.domainSetCreate_cases mtypeVariant attr exist o with
    ⟨e, heq⟩ | ⟨name, clash, type, heq, hname, hfind, -, -, hexist⟩ | ⟨i, set, inst', heq, hnew, hname, -⟩
  · rw [heq]
    exact .err h _ e
  · rw [heq]
    obtain ⟨⟨s, i⟩, hs, -⟩ := Option.map_eq_some_iff.mp hfind
    obtain ⟨x, hx, -⟩ := h.found hs
    exact .ok h ⟨name, hname, .inl ⟨hexist, by rw [hx]; simp, rfl⟩⟩
  · have hdata := created_data heq hnew
    rw [heq]
    have hfree : m set.name = none := by
      by_contra hne
      obtain ⟨j, t, ht, htn⟩ := h.slot _ hne
      exact hnew.name j t ht htn
    refine .ok (h.filled hnew.free hnew.slot hnew.other hfree (.created rfl (ho _ hdata) hclock)) ?_
    exact ⟨set.name, hname, .inr ⟨hfree, set.data, hdata, rfl⟩⟩

theorem ShowsSlots.domainSetDestroy (h : ShowsSlots jhash2 start now inst m) {name : SetName} :
    Meant jhash2 start now (inst.domainSetDestroy attr name).2 m (.destroy attr name)
      (inst.domainSetDestroy attr name).1 := by
  unfold DomainSetNet.domainSetDestroy
  split
  · exact .err h _ _
  split
  · exact .err h _ _
  rename_i s i hfind
  split
  · exact .err h _ _
  obtain ⟨x, hx, -, hslot, hname⟩ := h.found hfind
  have hi := DomainSetNet.domainSet_lt hslot
  have := h.removed (inst.setSlot i none) hslot
    ((DomainSetNet.domainSet_setSlot hi _ _).trans (if_pos rfl))
    fun j hj => (DomainSetNet.domainSet_setSlot hi _ _).trans (if_neg hj)
  rw [hname] at this
  exact .ok this ⟨by rw [hx]; simp, rfl⟩

theorem ShowsSet.flushSet {set : DomainSet (Hash.DomainSet A)} {x : NamedSet A}
    (h : ShowsSet jhash2 start now set x) (hclock : now ≤ start + 2 ^ (A.longBits - 1)) :
    ShowsSet jhash2 start now (DomainSetNet.flushSet mtypeVariant set) (flushed x now) := by
  obtain ⟨keys, ⟨-, hnow, htimeouts, hlive⟩, hshows⟩ := h.step hclock (c := ⟨now, .flush, .done⟩) rfl
    trivial ⟨trivial, rfl⟩
  obtain ⟨timeouts, n, live⟩ := keys
  obtain rfl : n = now := hnow
  obtain rfl : timeouts = x.keys.timeouts := htimeouts
  obtain rfl : live = .empty := hlive
  exact hshows

theorem ShowsSlots.domainSetFlush (h : ShowsSlots jhash2 start now inst m)
    (hclock : now ≤ start + 2 ^ (A.longBits - 1)) :
    Meant jhash2 start now (inst.domainSetFlush mtypeVariant attr).2 m (.flush attr)
      (inst.domainSetFlush mtypeVariant attr).1 := by
  unfold DomainSetNet.domainSetFlush
  split
  · exact .err h _ _
  split
  · rename_i hname
    refine .ok (h.mapSets (f := DomainSetNet.flushSet mtypeVariant)
      (g := fun x => flushed x now) (fun _ => rfl)
      fun s x hx => hx.flushSet hclock) ?_
    simp only [NamedSets.Commands, hname]
  · rename_i name hname
    split
    · exact .err h _ _
    rename_i s i hfind
    obtain ⟨x, hx, hshows, hslot, hsn⟩ := h.found hfind
    have := h.write (DomainSetNet.flushSet mtypeVariant s) hslot rfl (hshows.flushSet hclock)
    rw [hsn] at this
    refine .ok this ?_
    simp only [NamedSets.Commands, hname, hx]
    exact ⟨by simp, rfl⟩

theorem ShowsSlots.domainSetRename (h : ShowsSlots jhash2 start now inst m) :
    Meant jhash2 start now (inst.domainSetRename attr).2 m (.rename attr)
      (inst.domainSetRename attr).1 := by
  unfold DomainSetNet.domainSetRename
  split
  · rename_i name name2 hname hname2
    split
    · exact .err h _ _
    split
    · exact .err h _ _
    rename_i s i hfind
    split
    · exact .err h _ _
    split
    · exact .err h _ _
    rename_i hany
    obtain ⟨x, hx, hshows, hslot, hsn⟩ := h.found hfind
    have hfree : m name2 = none := by
      by_contra hne
      obtain ⟨j, t, ht, rfl⟩ := h.slot _ hne
      have hlt := DomainSetNet.domainSet_lt ht
      rw [DomainSetNet.domainSet, List.getD_eq_getElem _ _ hlt] at ht
      exact hany (List.any_eq_true.mpr ⟨some t, ht ▸ List.getElem_mem hlt, strncmp_iff.mpr rfl⟩)
    have := h.setSlot { s with name := name2 } hslot (.inr hfree) (hshows.congr rfl)
    rw [hsn] at this
    refine .ok this ⟨name, name2, hname, hname2, by rw [hx]; simp, hfree, ?_⟩
    rw [hx]
  · exact .err h _ _

theorem ShowsSlots.domainSetSwap (h : ShowsSlots jhash2 start now inst m) :
    Meant jhash2 start now (inst.domainSetSwap attr).2 m (.swap attr)
      (inst.domainSetSwap attr).1 := by
  unfold DomainSetNet.domainSetSwap
  split
  · rename_i name name2 hname hname2
    split
    · exact .err h _ _
    split
    · exact .err h _ _
    rename_i s i hs
    split
    · exact .err h _ _
    rename_i t j ht
    split
    · exact .err h _ _
    split
    · exact .err h _ _
    obtain ⟨x, hx, hxs, hslot, hsn⟩ := h.found hs
    obtain ⟨y, hy, hyt, htslot, htn⟩ := h.found ht
    have hfirst := h.write { t with name := s.name, ref := s.ref } hslot rfl (hyt.congr rfl)
    -- the second slot may be the first one
    obtain ⟨old, hold, holdName⟩ : ∃ old, (inst.setSlot i
        (some { t with name := s.name, ref := s.ref })).domainSet j = some old ∧
        t.name = old.name := by
      rw [DomainSetNet.domainSet_setSlot (DomainSetNet.domainSet_lt hslot)]
      split
      · rename_i heq
        rw [heq, hslot] at htslot
        cases htslot
        exact ⟨_, rfl, rfl⟩
      · exact ⟨t, htslot, rfl⟩
    have hsecond := hfirst.write { s with name := t.name, ref := t.ref } hold holdName
      (hxs.congr rfl)
    rw [← holdName] at hsecond
    subst hsn htn
    have hmeans : m.Commands (Function.update (Function.update m s.name (some y)) t.name (some x))
        now (.swap attr) := by
      refine ⟨s.name, t.name, hname, hname2, by rw [hx]; simp, by rw [hy]; simp, ?_⟩
      rw [hx, hy]
    exact .ok hsecond hmeans
  · exact .err h _ _

end

/-! ### Rules and sessions -/

section
variable {δ π : Type} {v : Variant δ π} {s s' : Net δ π}

theorem getByindex_sameNamed (index : ℕ) (x : Holder) :
    SameNamed s.inst (s.getByindex index x).inst ∧ (s.getByindex index x).destroying = s.destroying := by
  unfold Net.getByindex
  rcases s.inst.domainSetNfnlGetByindex_cases index with heq | ⟨set, hset, heq⟩ <;> rw [heq]
  · exact ⟨.refl _, rfl⟩
  · dsimp only
    split <;> exact ⟨.setSlot hset rfl rfl, rfl⟩

theorem putByindex_sameNamed {k index : ℕ} (hput : s.putByindex k index = .ok s') :
    SameNamed s.inst s'.inst ∧ s'.destroying = s.destroying := by
  unfold Net.putByindex at hput
  obtain ⟨inst', hinst, heq⟩ := bind_ok hput
  cases heq
  refine ⟨?_, rfl⟩
  unfold DomainSetNet.domainSetNfnlPut at hinst
  split at hinst
  · cases hinst
    exact .refl _
  split at hinst
  · cases hinst
  split at hinst
  · cases hinst
    exact .refl _
  · rename_i set hset
    obtain ⟨set', hset', heq⟩ := bind_ok hinst
    cases heq
    unfold DomainSetNet.put at hset'
    split at hset' <;> cases hset'
    exact .setSlot hset rfl rfl

theorem holderStep_sameNamed {k : ℕ} {kmemdup : Bool}
    (hstep : s.holderStep k kmemdup = some (.ok s')) :
    SameNamed s.inst s'.inst ∧ s'.destroying = s.destroying := by
  unfold Net.holderStep at hstep
  split at hstep
  · split at hstep
    · exact putByindex_sameNamed (Option.some.inj hstep)
    · cases hstep
      exact ⟨.refl _, rfl⟩
  · split at hstep
    · cases hstep
      exact ⟨.refl _, rfl⟩
    · exact putByindex_sameNamed (Option.some.inj hstep)
  · exact putByindex_sameNamed (Option.some.inj hstep)
  · exact putByindex_sameNamed (Option.some.inj hstep)
  · cases hstep
  · cases hstep

end

section
variable {δ π : Type} {v : Variant δ π} {inst inst' : DomainSetNet δ} {p p' : Session π}
  {events : List DumpEvent}

variable (v inst p) in
theorem dumpScan_sameNamed (mode : DumpMode) (max : ℕ) (set : Bool) :
    SameNamed inst (dumpScan v inst p mode max set).1 := by
  unfold dumpScan
  split
  · split
    · split
      · exact .refl _
      · split <;> exact .refl _
    · rename_i s hs
      split
      · split <;> exact .refl _
      split
      · exact .refl _
      split
      · exact .setSlot hs rfl rfl
      · exact .refl _
  · split <;> exact .refl _

theorem dumpPut_sameNamed {index : ℕ} (h : dumpPut v inst p index = .ok (inst', p', events)) :
    SameNamed inst inst' := by
  unfold dumpPut at h
  split at h
  · cases h
  · rename_i set hset
    unfold putNetlink at h
    split at h
    · cases h
    · cases h
      exact .setSlot hset rfl rfl

theorem sessionStep_sameNamed {m : SessionMove δ π}
    (h : sessionStep v inst p m = some (.ok (inst', p', events))) (hm : ∀ fns skb, m ≠ .list fns skb) :
    SameNamed inst inst' := by
  cases m with
  | call =>
    simp only [sessionStep] at h
    split at h <;> cases h
    exact .refl _
  | scan =>
    simp only [sessionStep] at h
    split at h
    · rename_i mode max set _
      have := dumpScan_sameNamed v inst p mode max set
      rw [Except.ok.inj (Option.some.inj h)] at this
      exact this
    · cases h
  | list fns skb => exact absurd rfl (hm fns skb)
  | release =>
    simp only [sessionStep] at h
    split at h
    · unfold dumpRelease at h
      split at h
      · obtain ⟨⟨inst1, p1, events1⟩, hput, hret⟩ := bind_ok (Option.some.inj h)
        cases hret
        exact dumpPut_sameNamed hput
      · cases h
        exact .refl _
    · cases h
  | done =>
    have hdone : dumpDone v inst p = .ok (inst', p', events) := by
      simp only [sessionStep] at h
      split at h
      · exact Option.some.inj h
      · exact Option.some.inj h
      · cases h
    unfold dumpDone at hdone
    split at hdone
    · obtain ⟨⟨inst1, p1, events1⟩, hput, hret⟩ := bind_ok hdone
      cases hret
      exact dumpPut_sameNamed hput
    · cases hdone
      exact .refl _

end

/-- A message has no effect on the data but that of `mtype_head`. -/
theorem dumpMessage_data (c : ListCall A) (mode : DumpMode) (index : ℕ)
    (set : DomainSet (Hash.DomainSet A)) (cb : CbArgs (Htable A)) (skb : Skb) :
    (dumpMessage mtypeVariant c.fns mode index set cb skb).2.2.1 = set.data ∨
      (dumpMessage mtypeVariant c.fns mode index set cb skb).2.2.1 =
        headSet c.head c.alloc set.data := by
  unfold dumpMessage
  split
  · exact .inl rfl
  simp only
  split
  · exact .inl rfl
  split
  · exact .inl rfl
  split
  · unfold dumpHeader
    simp only
    split
    · exact .inl rfl
    have hhead : ∀ skb, (c.fns.head set skb).2.1 = headSet c.head c.alloc set.data := by
      intro skb
      show (mtypeHead c.sizeofHtype c.head c.alloc set skb).2.1 = _
      unfold mtypeHead
      simp only
      split <;> rfl
    split
    · exact .inr (hhead _)
    split
    · exact .inr (hhead _)
    · exact .inr (hhead _)
  · exact .inl rfl

/-! ### Requests -/

section
variable {inst inst' : DomainSetNet (Hash.DomainSet A)} {m : NamedSets A} {i : ℕ}
  {set : DomainSet (Hash.DomainSet A)} {x : NamedSet A}

/-- The data of a set change under its name. -/
theorem ShowsSlots.setKeys (h : ShowsSlots jhash2 start now inst m) {now' : ℕ} (hle : now ≤ now')
    (hslot : inst.domainSet i = some set) {name : SetName} (hname : set.name = name)
    {data : Hash.DomainSet A} {keys : KeySet}
    (hx : ShowsSet jhash2 start now' { set with data := data } { x with keys := keys }) :
    ShowsSlots jhash2 start now' (inst.setSlot i (some { set with data := data }))
      (m.setKeys name x keys) := by
  subst hname
  exact (h.mono hle).write _ hslot rfl hx

/-- A call of the type of a set, by whoever reached its slot. -/
theorem ShowsSlots.type (h : ShowsSlots jhash2 start now inst m)
    (hclock : now ≤ start + 2 ^ (A.longBits - 1)) (hslot : inst.domainSet i = some set) {c : Call}
    (hc : c.now = now) (haccepted : c.op.Accepted set.data) {data : Hash.DomainSet A}
    (hstep : (setSystem A jhash2 false).step set.data c data) :
    ∃ x keys, m set.name = some x ∧ (keySetSystem A start).step x.keys c keys ∧
      ShowsSlots jhash2 start now (inst.setSlot i (some { set with data := data }))
        (m.setKeys set.name x keys) := by
  obtain ⟨x, hx, hshows⟩ := h.shows_some i set hslot
  obtain ⟨keys, hkeys, hshows'⟩ := hshows.step hclock hc haccepted hstep
  exact ⟨x, keys, hx, hkeys, h.setKeys le_rfl hslot rfl hshows'⟩

end

section
variable {inst : DomainSetNet (Hash.DomainSet A)} {m : NamedSets A} {req : AdRequest}

theorem AdRequest.setname_eq (h : req.malformed = false) : ∃ name, req.attr.setname = some name := by
  refine Option.isSome_iff_exists.mp ?_
  unfold AdRequest.malformed at h
  simp only [Bool.or_eq_false_iff, Option.isNone_eq_false_iff] at h
  exact h.1.1.1.2

/-- A request that is well formed, at the set it is for. -/
theorem domainSetAd_eq {adt : DsetAdt} {fuel : ℕ} {name : SetName} (h : req.malformed = false)
    (hname : req.attr.setname = some name) :
    inst.domainSetAd jhash2 adt req fuel =
      match inst.findSetAndId name with
      | none => .ok (some (.ack (.err .enoent), inst))
      | some (s, i) =>
        (adElements jhash2 adt req.flags req.lineno fuel req.elements s.data).map fun r =>
          r.map fun p => (p.1, inst.setSlot i (some { s with data := p.2 })) := by
  unfold DomainSetNet.domainSetAd
  rw [h, hname, Option.bind_some, if_neg (by simp)]
  cases inst.findSetAndId name with
  | none => rfl
  | some r =>
    unfold AdRequest.elements
    cases req.data with
    | none =>
      simp only
      cases adElements jhash2 adt req.flags req.lineno fuel ((req.adt.map (·.2)).getD []) r.1.data <;>
        rfl
    | some d =>
      simp only
      rw [← adData_eq]
      cases adData jhash2 adt req.flags req.lineno fuel d.2 r.1.data <;> rfl

/-- A request to add or to delete does what it means, up to an addition for which there is no
larger table. -/
theorem ShowsSlots.domainSetAd (h : ShowsSlots jhash2 start now inst m)
    {now' fuel : ℕ} (adt : DsetAdt) (hels : TimelyElements now req.elements now')
    (htext : ∀ x ∈ req.elements, ∀ tb, x.2 = some tb → tb.Padded)
    (hclock : now' ≤ start + 2 ^ (A.longBits - 1)) (hfuel : 32 ≤ fuel) :
    (∃ reply inst' m', inst.domainSetAd jhash2 adt req fuel = .ok (some (reply, inst')) ∧
      m.Ads m' now now' adt req reply ∧ ShowsSlots jhash2 start now' inst' m') ∨
    adt = .add ∧ inst.domainSetAd jhash2 adt req fuel = .error .zeroSizePtr ∧
      ∃ name set i pre w tb post set₁, req.attr.setname = some name ∧
        inst.findSetAndId name = some (set, i) ∧ req.elements = pre ++ (w, some tb) :: post ∧
        adElements jhash2 adt req.flags req.lineno fuel pre set.data =
          .ok (some (.ack .ok, set₁)) ∧
        NoSize jhash2 w.now w.add tb set₁ := by
  have hle : now ≤ now' := hels.le
  cases hmal : req.malformed with
  | true =>
    refine .inl ⟨.ack (.err .dsetErrProtocol), inst, m, ?_, ?_, h.mono hle⟩
    · unfold DomainSetNet.domainSetAd
      rw [if_pos hmal]
      rfl
    · rw [NamedSets.Ads, if_pos hmal]
      exact ⟨rfl, rfl⟩
  | false =>
    obtain ⟨name, hname⟩ := AdRequest.setname_eq hmal
    rw [domainSetAd_eq hmal hname]
    cases hfind : inst.findSetAndId name with
    | none =>
      refine .inl ⟨_, inst, m, rfl, ?_, h.mono hle⟩
      rw [NamedSets.Ads, hmal, if_neg (by simp)]
      refine ⟨name, hname, ?_⟩
      rw [h.notFound hfind]
      exact ⟨rfl, rfl⟩
    | some r =>
      obtain ⟨set, i⟩ := r
      obtain ⟨x, hx, hshows, hslot, hsn⟩ := h.found hfind
      have hserves := hshows.serves.later hshows.le (hle.trans hclock)
      rcases hserves.adElements adt req.flags req.lineno hels htext hclock hfuel with
        ⟨reply, data, n, keys, hrun, hn, hn', hkeys, hconfig, -, hout⟩ |
        ⟨hadt, hrun, pre, w, tb, post, set₁, hsplit, hpre, hno⟩
      · have hnow : keys.now = n := hkeys.now
        have hafter : ShowsSet jhash2 start now' { set with data := data } { x with keys := keys } := by
          refine ⟨hshows.settings.trans hconfig, hnow.le.trans hn', ?_⟩
          rw [hnow]
          exact hkeys
        refine .inl ⟨reply, _, _, ?_, ?_, h.setKeys hle hslot hsn hafter⟩
        · simp only
          rw [hrun]
          rfl
        · rw [NamedSets.Ads, hmal, if_neg (by simp)]
          refine ⟨name, hname, ?_⟩
          rw [hx]
          exact ⟨keys, hnow.le.trans hn', ElementsOutcome.congr hshows.settings hout, rfl⟩
      · refine .inr ⟨hadt, ?_, name, set, i, pre, w, tb, post, set₁, hname, hfind, hsplit, hpre, hno⟩
        simp only
        rw [hrun]
        rfl

/-- A test that passes the checks is handed to the set. -/
theorem uadtTest_eq {set : Hash.DomainSet A} {tb : AdtAttrs} (jiffies : BitVec A.longBits)
    (hlineno : tb.lineno = none) :
    DomainSetNet.uadtTest jhash2 jiffies set tb =
      match adtRequest set tb with
      | .error _ => .ok (false, set)
      | .ok q =>
        let p := mtypeTest jhash2 jiffies set q.1 q.2 q.2 ⟨false, false, false⟩
        .ok (p.1, p.2.1) := by
  unfold DomainSetNet.uadtTest
  rw [hlineno, if_neg (by simp)]
  unfold adtRequest hashDomainUadt
  cases tb.domain with
  | none => rfl
  | some payload =>
    simp only
    cases domainSetGetExtensions set tb (domainSetInitUext set) <;> rfl

/-- What a test of a set finds. -/
theorem ShowsSet.uadtTest {set : DomainSet (Hash.DomainSet A)} {x : NamedSet A}
    (h : ShowsSet jhash2 start now set x) (hclock : now ≤ start + 2 ^ (A.longBits - 1))
    {tb : AdtAttrs} (htb : tb.Padded) {b : Bool} {data : Hash.DomainSet A}
    (hret : DomainSetNet.uadtTest jhash2 (jiffiesAt A now) set.data tb = .ok (b, data)) :
    (b = true ↔ ∃ q, adtRequest x.settings tb = .ok q ∧ x.keys.live.remaining now q.1 ≠ none) ∧
      ShowsSet jhash2 start now { set with data := data }
        { x with keys := laterKeys x.keys now } := by
  have hlineno : tb.lineno = none := by
    by_contra hne
    unfold DomainSetNet.uadtTest at hret
    rw [if_pos (Option.isSome_iff_ne_none.mpr hne)] at hret
    cases hret
  rw [uadtTest_eq _ hlineno, adtRequest_congr h.settings] at hret
  cases hq : adtRequest x.settings tb with
  | error e =>
    rw [hq] at hret
    obtain ⟨rfl, rfl⟩ := Prod.mk.inj (Except.ok.inj hret)
    exact ⟨by simp, h.later hclock⟩
  | ok q =>
    rw [hq] at hret
    have hq' := (adtRequest_congr h.settings).trans hq
    obtain ⟨d, hd, -⟩ := adtRequest_ok htb h.serves.timeout_le hq'
    have hop : applyOp jhash2 now set.data (.test d q.2 q.2 ⟨false, false, false⟩) =
        .ok (.found b, data) := by
      obtain ⟨hb, hdata⟩ := Prod.mk.inj (Except.ok.inj hret)
      simp only [applyOp]
      rw [← hd, hb, hdata]
      rfl
    obtain ⟨keys, ⟨-, hnow, htimeouts, hfound, hlive⟩, hshows⟩ := h.step hclock
      (c := ⟨now, .test d q.2 q.2 ⟨false, false, false⟩, .found b⟩) rfl trivial ⟨trivial, hop⟩
    obtain ⟨timeouts, n, live⟩ := keys
    obtain rfl : n = now := hnow
    obtain rfl : timeouts = x.keys.timeouts := htimeouts
    obtain rfl : live = x.keys.live.remaining n := hlive
    refine ⟨(hfound rfl).trans ⟨fun hne => ⟨q, rfl, hd ▸ hne⟩, ?_⟩, hshows⟩
    rintro ⟨q', heq, hne⟩
    obtain rfl := Except.ok.inj heq
    rw [← hd]
    exact hne

theorem ShowsSlots.domainSetUtest (h : ShowsSlots jhash2 start now inst m)
    (hclock : now ≤ start + 2 ^ (A.longBits - 1)) {attr : CmdAttrs} {tb : Option AdtAttrs}
    (htb : ∀ tb', tb = some tb' → tb'.Padded) {ret : Ret} {inst' : DomainSetNet (Hash.DomainSet A)}
    (hret : inst.domainSetUtest jhash2 now attr tb = .ok (ret, inst')) :
    ∃ m', m.Tests m' now attr tb ret ∧ ShowsSlots jhash2 start now inst' m' := by
  unfold DomainSetNet.domainSetUtest at hret
  unfold NamedSets.Tests
  cases hmal : malformedTest attr with
  | true =>
    rw [hmal, if_pos rfl] at hret
    obtain ⟨rfl, rfl⟩ := Prod.mk.inj (Except.ok.inj hret)
    exact ⟨m, by rw [if_pos rfl]; exact ⟨rfl, rfl⟩, h⟩
  | false =>
    obtain ⟨name, hname⟩ : ∃ name, attr.setname = some name := by
      refine Option.isSome_iff_exists.mp ?_
      unfold malformedTest at hmal
      simp only [Bool.or_eq_false_iff, Option.isNone_eq_false_iff] at hmal
      exact hmal.1.2
    rw [hmal, hname, if_neg (by simp), Option.bind_some] at hret
    simp only [Bool.false_eq_true, if_false]
    cases hfind : inst.findSetAndId name with
    | none =>
      rw [hfind] at hret
      obtain ⟨rfl, rfl⟩ := Prod.mk.inj (Except.ok.inj hret)
      refine ⟨m, ⟨name, hname, ?_⟩, h⟩
      rw [h.notFound hfind]
      exact ⟨rfl, rfl⟩
    | some r =>
      obtain ⟨set, i⟩ := r
      obtain ⟨x, hx, hshows, hslot, hsn⟩ := h.found hfind
      cases tb with
      | none =>
        rw [hfind] at hret
        obtain ⟨rfl, rfl⟩ := Prod.mk.inj (Except.ok.inj hret)
        refine ⟨m, ⟨name, hname, ?_⟩, h⟩
        rw [hx]
        exact ⟨rfl, rfl⟩
      | some tb =>
        rw [hfind] at hret
        obtain ⟨⟨b, data⟩, htest, heq⟩ := bind_ok hret
        obtain ⟨rfl, rfl⟩ := Prod.mk.inj (Except.ok.inj heq)
        obtain ⟨hfound, hafter⟩ := hshows.uadtTest hclock (htb tb rfl) htest
        refine ⟨_, ⟨name, hname, ?_⟩, h.setKeys le_rfl hslot hsn hafter⟩
        rw [hx]
        refine ⟨?_, ?_, rfl⟩
        · cases b <;> simp
        · rw [← hfound]
          cases b <;> simp

end

end Dset.Core
