import Dset.Hash.Resize

/-! `hash_domain_create`: the attributes of a create request, the size of the
first table and the layout of a record. What it makes is an empty good set, with
`forceadd` exactly when the request asks for it. -/

namespace Dset.Hash

open Dset.Lib List

variable {A : Arch}

/-- An integer attribute in host order, and `NLA_F_NET_BYTEORDER`. -/
structure Nlattr where
  value : ℕ
  netorder : Bool
  deriving DecidableEq

structure CreateAttrs where
  hashsize : Option Nlattr
  maxelem : Option Nlattr
  timeout : Option Nlattr
  cadtFlags : Option Nlattr
  deriving DecidableEq

def domainSetOptattrNetorder : Option Nlattr → Bool
  | none => true
  | some a => a.netorder

def fls (x : ℕ) : ℕ := if x = 0 then 0 else Nat.log2 x + 1

def htableBits (hashsize : ℕ) : ℕ :=
  if jhashSize (fls (hashsize - 1)) ≠ hashsize then fls hashsize else fls (hashsize - 1)

/-- Whether bit `i` of the `DSET_ATTR_CADT_FLAGS` is set. -/
def CreateAttrs.flag (tb : CreateAttrs) (i : ℕ) : Bool :=
  match tb.cadtFlags with
  | none => false
  | some a => a.value.testBit i

def addExtensions (tb : CreateAttrs) : Extensions where
  counter := tb.flag 3
  timeout := tb.timeout.isSome
  skbinfo := tb.flag 6
  comment := tb.flag 4

def align (len a : ℕ) : ℕ := (len + a - 1) / a * a

/-- The loop of `domain_set_elem_len`: length and alignment of each extension. -/
def domainSetElemLen (A : Arch) (x : Extensions) (len : ℕ) : ℕ :=
  let add (present : Bool) (size alignment len : ℕ) :=
    if present then align len alignment + size else len
  let word := A.longBits / 8
  add x.comment word word <| add x.skbinfo 16 4 <| add x.timeout word word <| add x.counter 16 8 len

def emptySet (A : Arch) (tb : CreateAttrs) (maxelem hbits : ℕ) (initval : BitVec 32) :
    DomainSet A where
  extensions := addExtensions tb
  forceadd := tb.flag 5
  timeout := (tb.timeout.map fun a => domainSetTimeoutUget a.value).getD dsetNoTimeout
  dsize := domainSetElemLen A (addExtensions tb) dsetMaxDomainLen
  maxelem := maxelem
  initval := initval
  next := zeroElem
  acct := ⟨0, 0, 0, []⟩
  table := ⟨0, 0, hbits, replicate (jhashSize hbits) none⟩

/-- `hash_domain_create`; the outcomes of the two allocations are given. -/
def hashDomainCreate (A : Arch) (familyUnspec : Bool) (tb : CreateAttrs) (allocHtype allocTable : Bool)
    (initval : BitVec 32) : Except Errno (DomainSet A) :=
  if !familyUnspec then .error .dsetErrInvalidFamily
  else if !(domainSetOptattrNetorder tb.hashsize && domainSetOptattrNetorder tb.maxelem &&
      domainSetOptattrNetorder tb.timeout && domainSetOptattrNetorder tb.cadtFlags) then
    .error .dsetErrProtocol
  else
    let hashsize := (tb.hashsize.map fun a => max a.value dsetMiminalHashsize).getD
      dsetDefaultHashsize
    let maxelem := (tb.maxelem.map Nlattr.value).getD dsetDefaultMaxelem
    let hbits := htableBits hashsize
    if !allocHtype then .error .enomem
    else if htableSize A hbits = 0 then .error .enomem
    else if !allocTable then .error .enomem
    else .ok (emptySet A tb maxelem hbits initval)

structure DomainSet.Created (set : DomainSet A) : Prop where
  records : set.table.records = []
  bucket : set.table.bucket = replicate (jhashSize set.table.htableBits) none
  bits_le : set.table.htableBits ≤ 31
  acct : set.acct = ⟨0, 0, 0, []⟩
  ref : set.table.ref = 0 ∧ set.table.uref = 0
  timeout : set.withTimeout = true → set.timeout ≤ dsetMaxTimeout

theorem hashDomainCreate_eq {familyUnspec : Bool} {tb : CreateAttrs}
    {allocHtype allocTable : Bool} {initval : BitVec 32} {set : DomainSet A}
    (h : hashDomainCreate A familyUnspec tb allocHtype allocTable initval = .ok set) :
    ∃ maxelem hbits, htableSize A hbits ≠ 0 ∧ set = emptySet A tb maxelem hbits initval := by
  unfold hashDomainCreate at h
  split at h
  · cases h
  split at h
  · cases h
  simp only at h
  split at h
  · cases h
  split at h
  · cases h
  rename_i hsize
  split at h
  · cases h
  exact ⟨_, _, hsize, (Except.ok.inj h).symm⟩

/-- Creation makes an empty table; the flag `forceadd` is bit 5 of the request. -/
theorem hashDomainCreate_created {familyUnspec : Bool} {tb : CreateAttrs}
    {allocHtype allocTable : Bool} {initval : BitVec 32} {set : DomainSet A}
    (h : hashDomainCreate A familyUnspec tb allocHtype allocTable initval = .ok set) :
    set.Created ∧ set.forceadd = tb.flag 5 := by
  obtain ⟨maxelem, hbits, hsize, rfl⟩ := hashDomainCreate_eq h
  refine ⟨⟨?_, rfl, htableSize_ne_zero hsize, rfl, ⟨rfl, rfl⟩, ?_⟩, rfl⟩
  · simp [emptySet, Htable.records, bucketRecords]
  · intro ht
    have hs : tb.timeout.isSome = true := ht
    obtain ⟨a, ha⟩ := Option.isSome_iff_exists.mp hs
    simp only [emptySet, ha, Option.map_some, Option.getD_some]
    exact domainSetTimeoutUget_le a.value

theorem DomainSet.Created.good {set : DomainSet A} (h : set.Created)
    (jhash2 : HashDomainElem → BitVec 32 → BitVec 32) : set.Good jhash2 where
  table := by
    refine ⟨by simp [h.bucket], ?_⟩
    intro i hi
    have : set.table.bucket[i] = none := by simp [h.bucket]
    rw [this]
    trivial
  elements := by rw [h.records, h.acct]; rfl
  addrs := by simp [DomainSet.commentAddrs, h.records, h.acct]

theorem DomainSet.Created.exact {set : DomainSet A} (h : set.Created) : set.Exact := by
  unfold DomainSet.Exact DomainSet.commentBytes Htable.bucketBytes
  rw [h.records, h.acct, h.bucket]
  simp [bucketBytes]

end Dset.Hash
