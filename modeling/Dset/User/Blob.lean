import Dset.User.Data
import Dset.Lib.Memory
import Mathlib.Data.Finset.Filter

/-! The data blob with every option (`data.h`, `data.c`), for types of any arguments. A member of
`struct dset_data` is the place of its bytes, so that the members of `create` and of `adt` lie over
each other as in the union. A value that is stored is read back from the blob until a member that
lies over it is stored. -/

namespace Dset.User.Options

open Dset.Lib Dset.Core

inductive DsetOpt where
  | setname | typename | family | domain | timeout
  | gc | hashsize | maxelem | probes | resize | size | forceadd
  | elements | references | memsize
  | name | nameref | setname2
  | exist | before | physdev | nomatch | counters | packets | bytes | createComment | adtComment
  | skbinfo | skbmark | skbprio | skbqueue
  | flags | cadtFlags | elem | type | lineno | revision | revisionMin | index
  deriving DecidableEq

/-- `enum dset_keywords`, without `DSET_ARG_NONE`. -/
inductive Keyword where
  | hashsize | maxelem | probes | resize | gc | size | before | after | forceadd | nomatch
  | timeout | counters | packets | bytes | comment | adtComment | skbinfo | skbmark | skbprio
  | skbqueue
  deriving DecidableEq

/-- A `struct dset_type` with one dimension, its domain. -/
structure TypeDesc where
  name : Str
  aliases : List Str
  revision : ℕ
  /-- Its `kernel_check` is `DSET_KERNEL_MISMATCH`. -/
  mismatch : Bool
  createArgs : List Keyword
  addArgs : List Keyword
  deriving DecidableEq

def dsetMaxCommentSize : ℕ := 255

def dsetMaxDomainLength : ℕ := 256

structure Member where
  offset : ℕ
  size : ℕ
  /-- It is a `char` array, not a number. -/
  isString : Bool
  deriving DecidableEq

/-- `offsetof (struct dset_data, create)`, of `adt` and of `setname2`. -/
def unionOffset : ℕ := 336

def familyMember : Member := ⟨56, 1, false⟩

def flagsMember : Member := ⟨60, 4, false⟩

def cadtFlagsMember : Member := ⟨64, 4, false⟩

def DsetOpt.member : DsetOpt → Option Member
  | .setname => some ⟨16, dsetMaxnamelen, true⟩
  | .family => some familyMember
  | .flags | .exist => some flagsMember
  | .cadtFlags | .before | .physdev | .nomatch | .counters | .createComment | .forceadd
  | .skbinfo => some cadtFlagsMember
  | .timeout => some ⟨68, 4, false⟩
  | .domain => some ⟨72, dsetMaxDomainLength, true⟩
  | .index => some ⟨328, 2, false⟩
  | .setname2 => some ⟨unionOffset, dsetMaxnamelen, true⟩
  | .probes => some ⟨unionOffset, 1, false⟩
  | .resize => some ⟨unionOffset + 1, 1, false⟩
  | .hashsize => some ⟨unionOffset + 4, 4, false⟩
  | .maxelem => some ⟨unionOffset + 8, 4, false⟩
  | .gc => some ⟨unionOffset + 16, 4, false⟩
  | .size => some ⟨unionOffset + 20, 4, false⟩
  | .references => some ⟨unionOffset + 24, 4, false⟩
  | .elements => some ⟨unionOffset + 28, 4, false⟩
  | .memsize => some ⟨unionOffset + 32, 4, false⟩
  | .typename => some ⟨unionOffset + 36, dsetMaxnamelen, true⟩
  | .revisionMin => some ⟨unionOffset + 68, 1, false⟩
  | .revision => some ⟨unionOffset + 69, 1, false⟩
  | .name => some ⟨unionOffset, dsetMaxnamelen, true⟩
  | .nameref => some ⟨unionOffset + 32, dsetMaxnamelen, true⟩
  | .packets => some ⟨unionOffset + 64, 8, false⟩
  | .bytes => some ⟨unionOffset + 72, 8, false⟩
  | .adtComment => some ⟨unionOffset + 80, dsetMaxCommentSize + 1, true⟩
  | .skbmark => some ⟨unionOffset + 336, 8, false⟩
  | .skbprio => some ⟨unionOffset + 344, 4, false⟩
  | .skbqueue => some ⟨unionOffset + 348, 2, false⟩
  | .type | .elem | .lineno => none

/-- The bytes a member is set to: `dset_strlcpy` for a string, otherwise an assignment. -/
def Member.stored (m : Member) (value : List UInt8) : List UInt8 :=
  if m.isString then zeroPad m.size ((cstr value).take (m.size - 1))
  else zeroPad m.size (value.take m.size)

/-- Two members share no byte. -/
def Member.Apart (m m' : Member) : Prop :=
  m.offset + m.size ≤ m'.offset ∨ m'.offset + m'.size ≤ m.offset

instance (m m' : Member) : Decidable (m.Apart m') := inferInstanceAs (Decidable (_ ∨ _))

/-- The bit of an option in `enum dset_cadt_flags`. -/
def cadtFlagBit : DsetOpt → ℕ
  | .physdev => 1
  | .nomatch => 2
  | .counters => 3
  | .createComment => 4
  | .forceadd => 5
  | .skbinfo => 6
  | _ => 0

/-- The options `DSET_OPT_CADT_FLAGS` sets with the flags that it is set to. -/
def cadtFlagBits (cadtFlags : ℕ) : Finset DsetOpt :=
  ({.before, .physdev, .nomatch, .counters, .createComment, .skbinfo} : Finset DsetOpt).filter
    fun opt => cadtFlags.testBit (cadtFlagBit opt)

/-- `struct dset_data`. -/
structure Blob where
  bits : Finset DsetOpt
  type : Option TypeDesc
  /-- Its other members. -/
  mem : Memory

namespace Blob

variable (b : Blob)

def reset : Blob := ⟨∅, none, fun _ => 0⟩

def test (opt : DsetOpt) : Bool := opt ∈ b.bits

def flagsSet (flags : Finset DsetOpt) : Blob := { b with bits := flags ∪ b.bits }

def flagsUnset (flags : Finset DsetOpt) : Blob := { b with bits := b.bits \ flags }

def store (m : Member) (value : List UInt8) : Blob :=
  { b with mem := b.mem.write m.offset (m.stored value) }

/-- `flag_type_attr` and `cadt_flag_type_attr`. -/
def orFlag (m : Member) (opt : DsetOpt) (flag : ℕ) : Blob :=
  (b.store m (leBytes 4 (leNat (b.mem.read m.offset 4) ||| flag))).flagsSet {opt}

def setType (t : TypeDesc) : Blob := flagsSet { b with type := some t } {.type}

/-- `dset_data_set` of another option; none for -1. -/
def set (opt : DsetOpt) (value : List UInt8) : Option Blob :=
  match opt with
  | .exist => some (b.orFlag flagsMember .flags 1)
  | .before | .physdev | .nomatch | .counters | .createComment | .forceadd | .skbinfo =>
    some (b.orFlag cadtFlagsMember .cadtFlags (2 ^ cadtFlagBit opt))
  | .cadtFlags =>
    some <| ((b.store cadtFlagsMember value).flagsSet
      (cadtFlagBits (leNat (cadtFlagsMember.stored value)))).flagsSet {.cadtFlags}
  | _ => opt.member.map fun m => (b.store m value).flagsSet {opt}

def getType : Option TypeDesc := if b.test .type then b.type else none

/-- `dset_data_get` of another option: the bytes at the pointer; none for `NULL`. -/
def get (opt : DsetOpt) : Option (List UInt8) :=
  if opt = .typename ∧ b.test .type then b.type.map fun t => zeroPad (t.name.length + 1) t.name
  else if b.test opt then opt.member.map fun m => b.mem.read m.offset m.size
  else none

end Blob

def dsetDataSizeof : DsetOpt → ℕ
  | .domain => dsetMaxDomainLength
  | .skbqueue | .index => 2
  | .setname | .name | .nameref => dsetMaxnamelen
  | .timeout | .gc | .hashsize | .maxelem | .size | .elements | .references | .memsize
  | .skbprio => 4
  | .packets | .bytes | .skbmark => 8
  | .probes | .resize => 1
  | .before | .physdev | .nomatch | .counters | .forceadd => 4
  | .adtComment => dsetMaxCommentSize + 1
  | _ => 0

/-- `dset_data_set` assigns the value to the member of the option and sets no other bit. -/
def DsetOpt.assigned : DsetOpt → Bool
  | .exist | .before | .physdev | .nomatch | .counters | .createComment | .forceadd | .skbinfo
  | .cadtFlags | .type | .elem | .lineno => false
  | _ => true

/-! ### Reading back what was stored -/

namespace Member

@[simp] theorem length_stored (m : Member) (value : List UInt8) :
    (m.stored value).length = m.size := by
  unfold stored zeroPad
  split <;> simp only [List.length_append, List.length_take, List.length_replicate] <;> omega

theorem Apart.symm {m m' : Member} (h : m.Apart m') : m'.Apart m := Or.symm h

end Member

namespace Blob

variable (b : Blob) {opt : DsetOpt} {m : Member}

@[simp] theorem test_flagsSet (flags : Finset DsetOpt) :
    (b.flagsSet flags).test opt = (decide (opt ∈ flags) || b.test opt) := by
  simp [flagsSet, test]

@[simp] theorem test_flagsUnset (flags : Finset DsetOpt) :
    (b.flagsUnset flags).test opt = (b.test opt && decide (opt ∉ flags)) := by
  simp [flagsUnset, test]

@[simp] theorem test_store (value : List UInt8) : (b.store m value).test opt = b.test opt := rfl

theorem read_store (value : List UInt8) :
    (b.store m value).mem.read m.offset m.size = m.stored value := by
  have h := b.mem.read_write_self m.offset (m.stored value)
  rwa [m.length_stored value] at h

theorem read_store_of_apart {m' : Member} (h : m.Apart m') (value : List UInt8) :
    (b.store m value).mem.read m'.offset m'.size = b.mem.read m'.offset m'.size := by
  apply Memory.read_write_of_apart
  rw [m.length_stored value]
  exact h.symm

theorem set_assigned (hopt : opt.assigned = true) (hm : opt.member = some m) (value : List UInt8) :
    b.set opt value = some ((b.store m value).flagsSet {opt}) := by
  have hset : b.set opt value = opt.member.map fun m => (b.store m value).flagsSet {opt} := by
    cases opt <;> first | rfl | cases hopt
  rw [hset, hm, Option.map_some]

theorem get_of_test (hname : opt ≠ .typename) (hm : opt.member = some m)
    (htest : b.test opt = true) : b.get opt = some (b.mem.read m.offset m.size) := by
  rw [get, if_neg (by simp [hname]), if_pos htest, hm]
  rfl

theorem get_set_assigned {b' : Blob} (hopt : opt.assigned = true) (hname : opt ≠ .typename)
    (hm : opt.member = some m) {value : List UInt8} (h : b.set opt value = some b') :
    b'.get opt = some (m.stored value) := by
  rw [b.set_assigned hopt hm value] at h
  cases h
  rw [get_of_test _ hname hm (by simp)]
  exact congrArg some (b.read_store value)

end Blob

end Dset.User.Options
