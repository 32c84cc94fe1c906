import Dset.Core.Types

/-! The commands on sets: create, destroy, flush, rename and swap, one after the other
under the nfnl mutex, and the references by index that match rules take. -/

namespace Dset.Core

variable {δ π : Type}

/-- The attributes of a command; `data` says whether its `DSET_ATTR_DATA` is nested. -/
structure CmdAttrs where
  protocol : Option ℕ
  setname : Option SetName
  setname2 : Option SetName
  typename : Option SetName
  revision : Option ℕ
  family : Option ℕ
  data : Option Bool

def protocolMinFailed (attr : CmdAttrs) : Bool := attr.protocol.all (· < dsetProtocolMin)

/-- The outcomes of what `domain_set_create` calls: `kzalloc`, the search for the type,
parsing the attributes, the `create` of the type and `kvcalloc`. -/
structure CreateOutcomes (δ : Type) where
  kzalloc : Bool
  findSetTypeGet : Except Errno DomainSetType
  nlaParseNested : Bool
  create : Except Errno δ
  kvcalloc : Bool

inductive FreeId (δ : Type) where
  | free (index : ℕ)
  | maxSets
  | eexist (clash : DomainSet δ)

def findFreeIdFrom (name : SetName) : ℕ → Option ℕ → List (Option (DomainSet δ)) → FreeId δ
  | _, none, [] => .maxSets
  | _, some index, [] => .free index
  | i, none, none :: l => findFreeIdFrom name (i + 1) (some i) l
  | i, some index, none :: l => findFreeIdFrom name (i + 1) (some index) l
  | i, index, some s :: l =>
    if strncmp name s.name then .eexist s else findFreeIdFrom name (i + 1) index l

namespace DomainSetNet

variable (inst : DomainSetNet δ)

def findFreeId (name : SetName) : FreeId δ := findFreeIdFrom name 0 none inst.domainSetList

def findSetAndId (name : SetName) : Option (DomainSet δ × ℕ) :=
  match inst.domainSetList.findIdx? (fun o => o.any fun s => strncmp s.name name) with
  | none => none
  | some i => (inst.domainSet i).map (·, i)

def findSet (name : SetName) : Option (DomainSet δ) := (inst.findSetAndId name).map (·.1)

def grow (n : ℕ) : DomainSetNet δ :=
  { inst with domainSetList := inst.domainSetList ++ List.replicate n none }

def domainSetCreate (v : Variant δ π) (attr : CmdAttrs) (exist : Bool) (o : CreateOutcomes δ) :
    Ret × DomainSetNet δ :=
  match attr.setname, attr.typename, attr.revision, attr.family with
  | some name, some _, some revision, some family =>
    if protocolMinFailed attr || attr.data == some false then (.err .dsetErrProtocol, inst)
    else if !o.kzalloc then (.err .enomem, inst)
    else match o.findSetTypeGet with
    | .error e => (.err e, inst)
    | .ok type =>
      if attr.data.isSome && !o.nlaParseNested then (.err .dsetErrProtocol, inst)
      else match o.create with
      | .error e => (.err e, inst)
      | .ok data =>
        let set : DomainSet δ := ⟨inst.nextId, name, type, family, revision, 0, 0, data⟩
        let add (inst : DomainSetNet δ) (index : ℕ) : DomainSetNet δ :=
          { inst.setSlot index (some set) with nextId := inst.nextId + 1 }
        match inst.findFreeId name with
        | .eexist clash =>
          if exist && strncmp type.name clash.type.name && type.family == clash.type.family &&
              type.revisionMin == clash.type.revisionMin &&
              type.revisionMax == clash.type.revisionMax && v.sameSet data clash.data
          then (.ok, inst) else (.err .eexist, inst)
        | .maxSets =>
          -- a `domain_set_id_t`
          let i := (inst.domainSetMax + domainSetInc) % 2 ^ 16
          if i < inst.domainSetMax ∨ i = dsetInvalidId then (.err .dsetErrMaxSets, inst)
          else if !o.kvcalloc then (.err .dsetErrMaxSets, inst)
          else (.ok, add (inst.grow (i - inst.domainSetMax)) inst.domainSetMax)
        | .free index => (.ok, add inst index)
  | _, _, _, _ => (.err .dsetErrProtocol, inst)

def domainSetDestroy (attr : CmdAttrs) (setname : SetName) : Ret × DomainSetNet δ :=
  if protocolMinFailed attr then (.err .dsetErrProtocol, inst)
  else match inst.findSetAndId setname with
  | none => (.err .enoent, inst)
  | some (s, i) =>
    if s.ref ≠ 0 ∨ s.refNetlink ≠ 0 then (.err .dsetErrBusy, inst)
    else (.ok, inst.setSlot i none)

/-- `domain_set_destroy` of all sets, as far as under the lock: the sets are then taken
out of their slots one after the other. -/
def domainSetDestroyAll (attr : CmdAttrs) : Ret × DomainSetNet δ :=
  if protocolMinFailed attr then (.err .dsetErrProtocol, inst)
  else if inst.domainSetList.any (fun o => o.any fun s => s.ref ≠ 0 ∨ s.refNetlink ≠ 0) then
    (.err .dsetErrBusy, inst)
  else (.ok, { inst with isDestroyed := true })

/-- `domain_set_flush_set`. -/
def flushSet (v : Variant δ π) (set : DomainSet δ) : DomainSet δ :=
  { set with data := v.flush set.data }

def domainSetFlush (v : Variant δ π) (attr : CmdAttrs) : Ret × DomainSetNet δ :=
  if protocolMinFailed attr then (.err .dsetErrProtocol, inst)
  else match attr.setname with
  | none => (.ok, inst.mapSets (flushSet v))
  | some name =>
    match inst.findSetAndId name with
    | none => (.err .enoent, inst)
    | some (s, i) => (.ok, inst.setSlot i (some (flushSet v s)))

def domainSetRename (attr : CmdAttrs) : Ret × DomainSetNet δ :=
  match attr.setname, attr.setname2 with
  | some name, some name2 =>
    if protocolMinFailed attr then (.err .dsetErrProtocol, inst)
    else match inst.findSetAndId name with
    | none => (.err .enoent, inst)
    | some (set, i) =>
      if set.ref ≠ 0 ∨ set.refNetlink ≠ 0 then (.err .dsetErrReferenced, inst)
      else if inst.domainSetList.any (fun o => o.any fun s => strncmp s.name name2) then
        (.err .dsetErrExistSetname2, inst)
      else (.ok, inst.setSlot i (some { set with name := name2 }))
  | _, _ => (.err .dsetErrProtocol, inst)

def domainSetSwap (attr : CmdAttrs) : Ret × DomainSetNet δ :=
  match attr.setname, attr.setname2 with
  | some name, some name2 =>
    if protocolMinFailed attr then (.err .dsetErrProtocol, inst)
    else match inst.findSetAndId name with
    | none => (.err .enoent, inst)
    | some (fromSet, fromId) =>
      match inst.findSetAndId name2 with
      | none => (.err .dsetErrExistSetname2, inst)
      | some (toSet, toId) =>
        if !(fromSet.type.features == toSet.type.features && fromSet.family == toSet.family) then
          (.err .dsetErrTypeMismatch, inst)
        else if fromSet.refNetlink ≠ 0 ∨ toSet.refNetlink ≠ 0 then (.err .ebusy, inst)
        else (.ok, (inst.setSlot fromId
            (some { toSet with name := fromSet.name, ref := fromSet.ref })).setSlot toId
            (some { fromSet with name := toSet.name, ref := toSet.ref }))
  | _, _ => (.err .dsetErrProtocol, inst)

/-- `__domain_set_get`. -/
def get (set : DomainSet δ) : DomainSet δ := { set with ref := set.ref + 1 }

/-- `__domain_set_put`. -/
def put (set : DomainSet δ) : Except Fault (DomainSet δ) :=
  if set.ref = 0 then .error .bug else .ok { set with ref := set.ref - 1 }

def domainSetNfnlGetByindex (index : ℕ) : ℕ × DomainSetNet δ :=
  if inst.domainSetMax ≤ index then (dsetInvalidId, inst)
  else match inst.domainSet index with
  | some set => (index, inst.setSlot index (some (get set)))
  | none => (dsetInvalidId, inst)

def domainSetNfnlPut (index : ℕ) : Except Fault (DomainSetNet δ) :=
  if inst.isDeleted then .ok inst
  else if inst.domainSetMax ≤ index then .error .outOfBounds
  else match inst.domainSet index with
  | none => .ok inst
  | some set => do
    let set ← put set
    return inst.setSlot index (some set)

/-- `domain_set_rcu_get` and the `BUG_ON` of `domain_set_test`. -/
def domainSetTestSet (index : ℕ) : Except Fault (DomainSet δ) :=
  if inst.domainSetMax ≤ index then .error .outOfBounds
  else match inst.domainSet index with
  | none => .error .bug
  | some set => .ok set

end DomainSetNet

/-! ### What the commands do -/

/-- A new set in slot `i`, which was empty or lies behind the old end of the array. -/
structure Created (inst inst' : DomainSetNet δ) (i : ℕ) (set : DomainSet δ) : Prop where
  free : inst.domainSet i = none
  slot : inst'.domainSet i = some set
  other : ∀ j, j ≠ i → inst'.domainSet j = inst.domainSet j
  name : ∀ j t, inst.domainSet j = some t → t.name ≠ set.name
  id : set.id = inst.nextId
  ref : set.ref = 0
  refNetlink : set.refNetlink = 0
  nextId : inst'.nextId = inst.nextId + 1
  max : inst.domainSetMax ≤ inst'.domainSetMax
  valid : inst.domainSetMax < dsetInvalidId → inst'.domainSetMax < dsetInvalidId
  isDeleted : inst'.isDeleted = inst.isDeleted
  isDestroyed : inst'.isDestroyed = inst.isDestroyed

/-- A command that returns, and the slots behind it. -/
inductive CommandResult (inst : DomainSetNet δ) : Ret → DomainSetNet δ → Prop
  | unchanged (ret : Ret) : CommandResult inst ret inst
  | created (i : ℕ) (set : DomainSet δ) (inst' : DomainSetNet δ) (h : Created inst inst' i set) :
      CommandResult inst .ok inst'
  | destroyed (i : ℕ) (set : DomainSet δ) (hset : inst.domainSet i = some set)
      (href : set.ref = 0) (hrefNetlink : set.refNetlink = 0) :
      CommandResult inst .ok (inst.setSlot i none)
  | renamed (i : ℕ) (set : DomainSet δ) (name2 : SetName) (hset : inst.domainSet i = some set)
      (hname : ∀ j t, inst.domainSet j = some t → t.name ≠ name2) (href : set.ref = 0)
      (hrefNetlink : set.refNetlink = 0) :
      CommandResult inst .ok (inst.setSlot i (some { set with name := name2 }))
  | swapped (i j : ℕ) (s t : DomainSet δ) (hs : inst.domainSet i = some s)
      (ht : inst.domainSet j = some t) (hsn : s.refNetlink = 0) (htn : t.refNetlink = 0) :
      CommandResult inst .ok ((inst.setSlot i (some { t with name := s.name, ref := s.ref })).setSlot
        j (some { s with name := t.name, ref := t.ref }))

namespace DomainSetNet

variable {inst : DomainSetNet δ}

theorem findSetAndId_some {name : SetName} {s : DomainSet δ} {i : ℕ}
    (h : inst.findSetAndId name = some (s, i)) : inst.domainSet i = some s ∧ s.name = name := by
  unfold findSetAndId at h
  split at h
  · cases h
  · rename_i j hj
    obtain ⟨s', hs', heq⟩ := Option.map_eq_some_iff.mp h
    cases heq
    obtain ⟨hlt, hany, -⟩ := List.findIdx?_eq_some_iff_getElem.mp hj
    have hget : inst.domainSetList[i] = some s := by
      rw [← hs', domainSet, List.getD_eq_getElem _ _ hlt]
    rw [hget] at hany
    exact ⟨hs', strncmp_iff.mp hany⟩

theorem findFreeIdFrom_free {name : SetName} {l : List (Option (DomainSet δ))} {i k : ℕ}
    {index : Option ℕ} (h : findFreeIdFrom name i index l = .free k) :
    index = some k ∨ i ≤ k ∧ l[k - i]? = some none := by
  induction l generalizing i index with
  | nil =>
    cases index with
    | none => cases h
    | some j => exact .inl (by cases h; rfl)
  | cons o l ih =>
    cases o with
    | none =>
      cases index with
      | none =>
        rcases ih h with heq | ⟨hle, hget⟩
        · cases heq
          exact .inr ⟨Nat.le_refl _, by simp⟩
        · exact .inr ⟨by omega, by rw [show k - i = k - (i + 1) + 1 by omega]; simpa using hget⟩
      | some j =>
        rcases ih h with heq | ⟨hle, hget⟩
        · exact .inl heq
        · exact .inr ⟨by omega, by rw [show k - i = k - (i + 1) + 1 by omega]; simpa using hget⟩
    | some s =>
      have hstep : findFreeIdFrom name (i + 1) index l = .free k := by
        cases index <;> rw [findFreeIdFrom] at h <;> split at h <;> first | exact h | cases h
      rcases ih hstep with heq | ⟨hle, hget⟩
      · exact .inl heq
      · exact .inr ⟨by omega, by rw [show k - i = k - (i + 1) + 1 by omega]; simpa using hget⟩

theorem findFreeId_free {name : SetName} {i : ℕ} (h : inst.findFreeId name = .free i) :
    i < inst.domainSetMax ∧ inst.domainSet i = none := by
  rcases findFreeIdFrom_free h with heq | ⟨-, hget⟩
  · cases heq
  · rw [Nat.sub_zero] at hget
    obtain ⟨hlt, hget'⟩ := List.getElem?_eq_some_iff.mp hget
    exact ⟨hlt, by rw [domainSet, List.getD_eq_getElem _ _ hlt, hget']⟩

theorem findFreeIdFrom_noClash {name : SetName} {l : List (Option (DomainSet δ))} {i : ℕ}
    {index : Option ℕ} (h : ∀ clash, findFreeIdFrom name i index l ≠ .eexist clash) :
    ∀ s, some s ∈ l → s.name ≠ name := by
  induction l generalizing i index with
  | nil => exact fun s hs => by cases hs
  | cons o l ih =>
    cases o with
    | none =>
      have hstep : ∀ clash, findFreeIdFrom name (i + 1) (some (index.getD i)) l ≠ .eexist clash := by
        intro clash
        cases index <;> exact h clash
      intro s hs
      rcases List.mem_cons.mp hs with heq | hs
      · cases heq
      · exact ih hstep s hs
    | some t =>
      have hcase : ∀ clash, (if strncmp name t.name then .eexist t
          else findFreeIdFrom name (i + 1) index l) ≠ FreeId.eexist clash := by
        intro clash
        cases index <;> exact h clash
      by_cases hname : strncmp name t.name = true
      · exact absurd (if_pos hname) (hcase t)
      · simp only [hname] at hcase
        intro s hs
        rcases List.mem_cons.mp hs with heq | hs
        · cases heq
          exact fun heq => hname (strncmp_iff.mpr heq.symm)
        · exact ih hcase s hs

theorem findFreeId_noClash {name : SetName} (h : ∀ clash, inst.findFreeId name ≠ .eexist clash) :
    ∀ j t, inst.domainSet j = some t → t.name ≠ name := by
  intro j t ht
  refine findFreeIdFrom_noClash h t ?_
  have hlt := domainSet_lt ht
  rw [domainSet, List.getD_eq_getElem _ _ hlt] at ht
  exact ht ▸ List.getElem_mem hlt

/-- Growing the array leaves every slot as it was. -/
@[simp] theorem domainSet_grow (n j : ℕ) : (inst.grow n).domainSet j = inst.domainSet j := by
  simp only [domainSet, grow, List.getD_eq_getElem?_getD, List.getElem?_append,
    List.getElem?_replicate]
  split
  · rfl
  · rename_i hge
    rw [List.getElem?_eq_none (by omega)]
    split <;> rfl

@[simp] theorem grow_max (n : ℕ) : (inst.grow n).domainSetMax = inst.domainSetMax + n := by
  simp [domainSetMax, grow]

/-- What finds a clash finds the first set with the name. -/
theorem findFreeIdFrom_eexist {name : SetName} {l : List (Option (DomainSet δ))} {i : ℕ}
    {index : Option ℕ} {clash : DomainSet δ} (h : findFreeIdFrom name i index l = .eexist clash) :
    ∃ k, l.findIdx? (fun o => o.any fun s => strncmp s.name name) = some k ∧
      l[k]? = some (some clash) := by
  induction l generalizing i index with
  | nil => cases index <;> cases h
  | cons o l ih =>
    cases o with
    | none =>
      have hstep : findFreeIdFrom name (i + 1) (some (index.getD i)) l = .eexist clash := by
        cases index <;> exact h
      obtain ⟨k, hk, hget⟩ := ih hstep
      exact ⟨k + 1, by simpa [List.findIdx?_cons] using hk, by simpa using hget⟩
    | some s =>
      have hcase : (if strncmp name s.name then .eexist s
          else findFreeIdFrom name (i + 1) index l) = FreeId.eexist clash := by
        cases index <;> exact h
      split at hcase
      · rename_i hname
        cases hcase
        rw [strncmp_iff] at hname
        exact ⟨0, by simp [List.findIdx?_cons, strncmp_iff, hname], rfl⟩
      · rename_i hname
        obtain ⟨k, hk, hget⟩ := ih hcase
        rw [strncmp_iff] at hname
        have hne : strncmp s.name name = false := by
          rw [Bool.eq_false_iff, ne_eq, strncmp_iff]
          exact Ne.symm hname
        exact ⟨k + 1, by simpa [List.findIdx?_cons, hne] using hk, by simpa using hget⟩

theorem findFreeId_eexist {name : SetName} {clash : DomainSet δ}
    (h : inst.findFreeId name = .eexist clash) : inst.findSet name = some clash := by
  obtain ⟨k, hk, hget⟩ := findFreeIdFrom_eexist h
  rw [findSet, findSetAndId, hk]
  simp [domainSet, List.getD_eq_getElem?_getD, hget]

/-- A new set, as it is filled in before it gets its slot. -/
structure Fresh (inst : DomainSetNet δ) (set : DomainSet δ) : Prop where
  id : set.id = inst.nextId
  ref : set.ref = 0
  refNetlink : set.refNetlink = 0

/-- The new set in the slot that was found. -/
theorem Fresh.created {set : DomainSet δ} (h : Fresh inst set) {index : ℕ}
    (hfree : inst.findFreeId set.name = .free index) :
    Created inst { inst.setSlot index (some set) with nextId := inst.nextId + 1 } index set := by
  obtain ⟨hlt, hnone⟩ := findFreeId_free hfree
  exact
    { free := hnone
      slot := (domainSet_setSlot hlt _ _).trans (if_pos rfl)
      other := fun j hj => (domainSet_setSlot hlt _ _).trans (if_neg hj)
      name := findFreeId_noClash fun clash heq => by
        rw [hfree] at heq
        cases heq
      id := h.id
      ref := h.ref
      refNetlink := h.refNetlink
      nextId := rfl
      max := Nat.le_of_eq (setSlot_max _ _ _).symm
      valid := fun hmax => by
        show (inst.setSlot _ _).domainSetMax < _
        rwa [setSlot_max]
      isDeleted := rfl
      isDestroyed := rfl }

/-- The new set in the first slot behind the old end of the array. -/
theorem Fresh.created_grow {set : DomainSet δ} (h : Fresh inst set)
    (hfull : inst.findFreeId set.name = .maxSets) {i : ℕ} (hi : inst.domainSetMax < i)
    (hvalid : i < dsetInvalidId) :
    Created inst { (inst.grow (i - inst.domainSetMax)).setSlot inst.domainSetMax (some set) with
      nextId := inst.nextId + 1 } inst.domainSetMax set := by
  have hgrow : (inst.grow (i - inst.domainSetMax)).domainSetMax = i := by
    rw [grow_max]
    omega
  have hlt : inst.domainSetMax < (inst.grow (i - inst.domainSetMax)).domainSetMax := by
    rwa [hgrow]
  exact
    { free := List.getD_eq_default _ _ (Nat.le_refl _)
      slot := (domainSet_setSlot hlt _ _).trans (if_pos rfl)
      other := fun j hj => (domainSet_setSlot hlt _ _).trans ((if_neg hj).trans (domainSet_grow _ _))
      name := findFreeId_noClash fun clash heq => by
        rw [hfull] at heq
        cases heq
      id := h.id
      ref := h.ref
      refNetlink := h.refNetlink
      nextId := rfl
      max := Nat.le_trans (Nat.le_of_lt hlt) (Nat.le_of_eq (setSlot_max _ _ _).symm)
      valid := fun _ => by
        show ((inst.grow _).setSlot _ _).domainSetMax < _
        rwa [setSlot_max, hgrow]
      isDeleted := rfl
      isDestroyed := rfl }

/-- The grown array is longer, and its indexes are valid. -/
theorem grown_lt {i : ℕ} (hi : i = (inst.domainSetMax + domainSetInc) % 2 ^ 16)
    (h : ¬ (i < inst.domainSetMax ∨ i = dsetInvalidId)) :
    inst.domainSetMax < i ∧ i < dsetInvalidId := by
  have hinc : domainSetInc = 64 := rfl
  have hinvalid : dsetInvalidId = 65535 := rfl
  omega

/-- `domain_set_create` fails, finds the set there already, or makes it. -/
theorem domainSetCreate_cases (v : Variant δ π) (attr : CmdAttrs) (exist : Bool)
    (o : CreateOutcomes δ) : (∃ e, inst.domainSetCreate v attr exist o = (.err e, inst)) ∨
      (∃ name clash type, inst.domainSetCreate v attr exist o = (.ok, inst) ∧
        attr.setname = some name ∧ inst.findSet name = some clash ∧
        o.findSetTypeGet = .ok type ∧ type.name = clash.type.name ∧ exist = true) ∨
      ∃ i set inst', inst.domainSetCreate v attr exist o = (.ok, inst') ∧
        Created inst inst' i set ∧ attr.setname = some set.name ∧
        o.findSetTypeGet = .ok set.type ∧ attr.revision = some set.revision := by
  unfold domainSetCreate
  split
  · rename_i name typename revision family hsetname htypename hrevision hfamily
    split
    · exact .inl ⟨_, rfl⟩
    split
    · exact .inl ⟨_, rfl⟩
    split
    · exact .inl ⟨_, rfl⟩
    rename_i type htype
    split
    · exact .inl ⟨_, rfl⟩
    split
    · exact .inl ⟨_, rfl⟩
    rename_i data _
    simp only
    split
    · rename_i clash hclash
      split
      · rename_i hsame
        simp only [Bool.and_eq_true, strncmp_iff] at hsame
        exact .inr (.inl ⟨name, clash, type, rfl, hsetname, findFreeId_eexist hclash, htype,
          hsame.1.1.1.1.2, hsame.1.1.1.1.1⟩)
      · exact .inl ⟨_, rfl⟩
    · rename_i hmaxSets
      split
      · exact .inl ⟨_, rfl⟩
      split
      · exact .inl ⟨_, rfl⟩
      · rename_i hwrap _
        obtain ⟨hlt, hvalid⟩ := grown_lt rfl hwrap
        have hfresh : Fresh inst ⟨inst.nextId, name, type, family, revision, 0, 0, data⟩ :=
          ⟨rfl, rfl, rfl⟩
        exact .inr (.inr ⟨inst.domainSetMax, _, _, rfl, hfresh.created_grow hmaxSets hlt hvalid,
          hsetname, htype, hrevision⟩)
    · rename_i index hfree
      have hfresh : Fresh inst ⟨inst.nextId, name, type, family, revision, 0, 0, data⟩ :=
        ⟨rfl, rfl, rfl⟩
      exact .inr (.inr ⟨index, _, _, rfl, hfresh.created hfree, hsetname, htype, hrevision⟩)
  · exact .inl ⟨_, rfl⟩

theorem domainSetCreate_result (v : Variant δ π) (attr : CmdAttrs) (exist : Bool)
    (o : CreateOutcomes δ) : CommandResult inst (inst.domainSetCreate v attr exist o).1
      (inst.domainSetCreate v attr exist o).2 := by
  rcases domainSetCreate_cases v attr exist o with
    ⟨e, heq⟩ | ⟨name, clash, type, heq, -⟩ | ⟨i, set, inst', heq, h, -⟩
  · rw [heq]
    exact .unchanged _
  · rw [heq]
    exact .unchanged _
  · rw [heq]
    exact .created i set _ h

theorem domainSetFlush_dataChange (v : Variant δ π) (attr : CmdAttrs) :
    DataChange inst (inst.domainSetFlush v attr).2 := by
  unfold domainSetFlush
  split
  · exact .refl _
  split
  · exact .mapSets _ _
  · split
    · exact .refl _
    · rename_i s i hfind
      exact .setSlot (findSetAndId_some hfind).1 _

theorem domainSetDestroy_result (attr : CmdAttrs) (name : SetName) :
    CommandResult inst (inst.domainSetDestroy attr name).1 (inst.domainSetDestroy attr name).2 := by
  unfold domainSetDestroy
  split
  · exact .unchanged _
  split
  · exact .unchanged _
  · rename_i s i hfind
    split
    · exact .unchanged _
    · rename_i href
      push Not at href
      exact .destroyed i s (findSetAndId_some hfind).1 href.1 href.2

theorem domainSetDestroyAll_ok {attr : CmdAttrs} {inst' : DomainSetNet δ}
    (h : inst.domainSetDestroyAll attr = (.ok, inst')) :
    inst' = { inst with isDestroyed := true } ∧
      ∀ i s, inst.domainSet i = some s → s.ref = 0 ∧ s.refNetlink = 0 := by
  unfold domainSetDestroyAll at h
  split at h
  · cases h
  split at h
  · cases h
  · rename_i hany
    cases h
    refine ⟨rfl, fun i s hs => ?_⟩
    by_contra hne
    refine hany (List.any_eq_true.mpr ⟨some s, ?_, ?_⟩)
    · have hlt := domainSet_lt hs
      rw [domainSet, List.getD_eq_getElem _ _ hlt] at hs
      exact hs ▸ List.getElem_mem hlt
    · simp only [Option.any_some, decide_eq_true_eq]
      omega

theorem domainSetDestroyAll_err {attr : CmdAttrs} {e : Errno} {inst' : DomainSetNet δ}
    (h : inst.domainSetDestroyAll attr = (.err e, inst')) : inst' = inst := by
  unfold domainSetDestroyAll at h
  split at h
  · exact (Prod.mk.inj h).2.symm
  split at h
  · exact (Prod.mk.inj h).2.symm
  · cases h

theorem domainSetRename_result (attr : CmdAttrs) :
    CommandResult inst (inst.domainSetRename attr).1 (inst.domainSetRename attr).2 := by
  unfold domainSetRename
  split
  · split
    · exact .unchanged _
    split
    · exact .unchanged _
    · rename_i set i hfind
      split
      · exact .unchanged _
      · rename_i href
        push Not at href
        split
        · exact .unchanged _
        · rename_i hany
          refine .renamed i set _ (findSetAndId_some hfind).1 (fun j t ht heq => hany ?_) href.1
            href.2
          have hlt := domainSet_lt ht
          rw [domainSet, List.getD_eq_getElem _ _ hlt] at ht
          exact List.any_eq_true.mpr ⟨some t, ht ▸ List.getElem_mem hlt, strncmp_iff.mpr heq⟩
  · exact .unchanged _

theorem domainSetSwap_result (attr : CmdAttrs) :
    CommandResult inst (inst.domainSetSwap attr).1 (inst.domainSetSwap attr).2 := by
  unfold domainSetSwap
  split
  · split
    · exact .unchanged _
    split
    · exact .unchanged _
    · rename_i s i hs
      split
      · exact .unchanged _
      · rename_i t j ht
        split
        · exact .unchanged _
        split
        · exact .unchanged _
        · rename_i href
          push Not at href
          exact .swapped i j s t (findSetAndId_some hs).1 (findSetAndId_some ht).1 href.1 href.2
  · exact .unchanged _

theorem domainSetNfnlGetByindex_cases (inst : DomainSetNet δ) (index : ℕ) :
    inst.domainSetNfnlGetByindex index = (dsetInvalidId, inst) ∨
      ∃ set, inst.domainSet index = some set ∧ inst.domainSetNfnlGetByindex index =
        (index, inst.setSlot index (some (get set))) := by
  unfold domainSetNfnlGetByindex
  split
  · exact .inl rfl
  · split
    · rename_i set hset
      exact .inr ⟨set, hset, rfl⟩
    · exact .inl rfl

end DomainSetNet

end Dset.Core
