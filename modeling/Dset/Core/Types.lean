import Dset.Core.Netlink
import Dset.Errno
import Dset.Lib.CString
import Mathlib.Data.List.Basic
import Mathlib.Data.List.GetD

/-! The sets of a network namespace (`domain_set.h`, `domain_set_core.c`). A slot of
the array holds no set or one; the type specific part behind `set->data` is a type
`δ`, and the functions of a set type are the fields of `Variant`. The array's length is
`domain_set_max`. -/

namespace Dset.Core

def dsetInvalidId : ℕ := 65535

def domainSetInc : ℕ := 64

def dsetMaxnamelen : ℕ := 32

def dsetProtocol : ℕ := 9

def dsetProtocolMin : ℕ := 8

/-- The names the netlink policies let through. -/
structure SetName where
  text : List UInt8
  notMem : 0 ∉ text
  length_lt : text.length < dsetMaxnamelen
  deriving DecidableEq

/-- `STRNCMP`: names end within the `DSET_MAXNAMELEN` bytes that are compared. -/
def strncmp (a b : SetName) : Bool := a.text = b.text

theorem strncmp_iff {a b : SetName} : strncmp a b = true ↔ a = b := by
  cases a
  cases b
  simp [strncmp]

/-- `struct domain_set_type`, as far as the core reads it. -/
structure DomainSetType where
  name : SetName
  family : ℕ
  revisionMin : ℕ
  revisionMax : ℕ
  features : ℕ
  deriving DecidableEq

def DomainSetType.dumpLast (t : DomainSetType) : Bool := t.features.testBit 3

def nfprotoUnspec : ℕ := 0

def findSetType (types : List DomainSetType) (name : SetName) (family revision : ℕ) :
    Option DomainSetType :=
  types.find? fun t => strncmp t.name name && (t.family == family || t.family == nfprotoUnspec) &&
    t.revisionMin ≤ revision && revision ≤ t.revisionMax

theorem findSetType_some {types : List DomainSetType} {name : SetName} {family revision : ℕ}
    {t : DomainSetType} (h : findSetType types name family revision = some t) : t.name = name := by
  have := List.find?_some h
  simp only [Bool.and_eq_true, strncmp_iff] at this
  exact this.1.1.1

def hashDomainName : SetName := ⟨Lib.bytes "hash:domain", by decide, by decide⟩

/-- `hash_domain_type`, the type the kernel module registers. -/
def hashDomainType : DomainSetType := ⟨hashDomainName, nfprotoUnspec, 0, 4, 1⟩

/-- `struct domain_set`; `id` stands for its address. -/
structure DomainSet (δ : Type) where
  id : ℕ
  name : SetName
  type : DomainSetType
  family : ℕ
  revision : ℕ
  ref : ℕ
  refNetlink : ℕ
  data : δ

/-- `struct domain_set_net`; `nextId` is an address no set had so far. -/
structure DomainSetNet (δ : Type) where
  domainSetList : List (Option (DomainSet δ))
  isDeleted : Bool
  isDestroyed : Bool
  nextId : ℕ

/-- The functions of a set type that need no netlink buffer; `π` is what `uref` keeps
in `DSET_CB_PRIVATE`. -/
structure Variant (δ π : Type) where
  sameSet : δ → δ → Bool
  flush : δ → δ
  uref : Option (δ → π)

variable {δ : Type}

namespace DomainSetNet

def domainSetMax (inst : DomainSetNet δ) : ℕ := inst.domainSetList.length

/-- `domain_set(inst, id)`; no set beyond the end. -/
def domainSet (inst : DomainSetNet δ) (i : ℕ) : Option (DomainSet δ) := inst.domainSetList.getD i none

/-- `domain_set(inst, id) = set`. -/
def setSlot (inst : DomainSetNet δ) (i : ℕ) (set : Option (DomainSet δ)) : DomainSetNet δ :=
  { inst with domainSetList := inst.domainSetList.set i set }

@[simp] theorem setSlot_max (inst : DomainSetNet δ) (i : ℕ) (set : Option (DomainSet δ)) :
    (inst.setSlot i set).domainSetMax = inst.domainSetMax := List.length_set

theorem domainSet_lt {inst : DomainSetNet δ} {i : ℕ} {set : DomainSet δ}
    (h : inst.domainSet i = some set) : i < inst.domainSetMax := by
  by_contra hge
  rw [domainSet, List.getD_eq_default _ _ (Nat.le_of_not_lt hge)] at h
  cases h

theorem domainSet_setSlot {inst : DomainSetNet δ} {i : ℕ} (h : i < inst.domainSetMax)
    (set : Option (DomainSet δ)) (j : ℕ) :
    (inst.setSlot i set).domainSet j = if j = i then set else inst.domainSet j := by
  simp only [domainSet, setSlot, List.getD_eq_getElem?_getD, List.getElem?_set]
  have h : i < inst.domainSetList.length := h
  split
  · rename_i heq
    subst heq
    simp
  · rename_i hne
    rw [if_neg (Ne.symm hne)]

def mapSets (inst : DomainSetNet δ) (f : DomainSet δ → DomainSet δ) : DomainSetNet δ :=
  { inst with domainSetList := inst.domainSetList.map (·.map f) }

@[simp] theorem domainSet_mapSets (inst : DomainSetNet δ) (f : DomainSet δ → DomainSet δ) (i : ℕ) :
    (inst.mapSets f).domainSet i = (inst.domainSet i).map f := by
  simp only [domainSet, mapSets, List.getD_eq_getElem?_getD, List.getElem?_map]
  cases inst.domainSetList[i]? <;> rfl

@[simp] theorem mapSets_max (inst : DomainSetNet δ) (f : DomainSet δ → DomainSet δ) :
    (inst.mapSets f).domainSetMax = inst.domainSetMax := List.length_map _

end DomainSetNet

def DomainSet.info (set : DomainSet δ) : DomainSet Unit := { set with data := () }

structure DataChange (inst inst' : DomainSetNet δ) : Prop where
  info : ∀ i, (inst'.domainSet i).map DomainSet.info = (inst.domainSet i).map DomainSet.info
  max : inst'.domainSetMax = inst.domainSetMax
  isDeleted : inst'.isDeleted = inst.isDeleted
  isDestroyed : inst'.isDestroyed = inst.isDestroyed
  nextId : inst'.nextId = inst.nextId

namespace DataChange

variable {inst inst' : DomainSetNet δ}

theorem refl (inst : DomainSetNet δ) : DataChange inst inst := ⟨fun _ => rfl, rfl, rfl, rfl, rfl⟩

theorem setSlot {i : ℕ} {s : DomainSet δ} (hs : inst.domainSet i = some s) (data : δ) :
    DataChange inst (inst.setSlot i (some { s with data := data })) where
  info j := by
    rw [DomainSetNet.domainSet_setSlot (DomainSetNet.domainSet_lt hs)]
    split
    · rename_i heq
      rw [heq, hs]
      rfl
    · rfl
  max := DomainSetNet.setSlot_max _ _ _
  isDeleted := rfl
  isDestroyed := rfl
  nextId := rfl

theorem mapSets (inst : DomainSetNet δ) (f : δ → δ) :
    DataChange inst (inst.mapSets fun s => { s with data := f s.data }) where
  info i := by
    rw [DomainSetNet.domainSet_mapSets]
    cases inst.domainSet i <;> rfl
  max := DomainSetNet.mapSets_max _ _
  isDeleted := rfl
  isDestroyed := rfl
  nextId := rfl

theorem domainSet (h : DataChange inst inst') (i : ℕ) :
    (inst.domainSet i = none ∧ inst'.domainSet i = none) ∨
      ∃ s data, inst.domainSet i = some s ∧ inst'.domainSet i = some { s with data := data } := by
  have hi := h.info i
  cases hs : inst.domainSet i with
  | none =>
    rw [hs] at hi
    exact .inl ⟨rfl, Option.map_eq_none_iff.mp hi⟩
  | some s =>
    rw [hs] at hi
    obtain ⟨s', hs', heq⟩ := Option.map_eq_some_iff.mp hi
    refine .inr ⟨s, s'.data, rfl, ?_⟩
    rw [hs']
    cases s
    cases s'
    simpa [DomainSet.info] using heq

end DataChange

end Dset.Core
