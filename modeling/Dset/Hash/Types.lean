import Dset.Errno
import Dset.Lib.CString
import Mathlib.Data.Int.Basic

/-! The data of the `hash:domain` type (`domain_set.h`, `domain_set_hash_gen.h`).
A record is one slot of a bucket array with all its extensions; an extension a
set was created without is there and unused. The bit of the `used` bitmap stands
beside its record, and `n->size` is the length of the array. Counters are kept
as integers: one that a C `u32` or `size_t` would wrap shows as negative here. -/

namespace Dset.Hash

open Dset.Lib

/-- What the code takes from the machine: the width of `unsigned long` and the
tick rate. -/
structure Arch where
  longBits : ℕ
  hz : ℕ
  longBits_eq : longBits = 32 ∨ longBits = 64
  hz_dvd : hz ∣ 1000

def ahashInitSize : ℕ := 4

def ahashMaxSize : ℕ := 3 * ahashInitSize

def dsetMaxDomainLen : ℕ := 256

def dsetMaxCommentSize : ℕ := 255

def dsetDefaultHashsize : ℕ := 1024

def dsetMiminalHashsize : ℕ := 64

def dsetDefaultMaxelem : ℕ := 65536

/-- `DSET_NO_TIMEOUT`, that is `UINT_MAX`. -/
def dsetNoTimeout : ℕ := 2 ^ 32 - 1

/-- `ULLONG_MAX`: the request gives no value. -/
def ullongMax : BitVec 64 := BitVec.allOnes 64

/-- `char domain[DSET_MAX_DOMAIN_LEN]`. -/
structure HashDomainElem where
  domain : List UInt8
  length_domain : domain.length = dsetMaxDomainLen
  deriving DecidableEq

/-- A terminated string with zero bytes behind it: what a domain sent without bytes behind its
terminator makes. -/
structure DomainKey extends HashDomainElem where
  padded : ZeroPadded domain
  deriving DecidableEq

/-- The buffer of a text with zero bytes behind it. -/
def DomainKey.ofText (text : List UInt8) (h0 : 0 ∉ text) (hlen : text.length < dsetMaxDomainLen) :
    DomainKey :=
  ⟨⟨zeroPad dsetMaxDomainLen text, length_zeroPad hlen.le⟩, zeroPadded_zeroPad h0 hlen⟩

structure DomainSetCounter where
  bytes : BitVec 64
  packets : BitVec 64
  deriving DecidableEq

structure DomainSetSkbinfo where
  skbmark : BitVec 32
  skbmarkmask : BitVec 32
  skbprio : BitVec 32
  skbqueue : BitVec 16
  deriving DecidableEq

/-- A comment on the heap: its address and the bytes of its string. -/
structure DomainSetCommentRcu where
  addr : ℕ
  str : List UInt8
  deriving DecidableEq

/-- `struct domain_set_ext`: the extension values of one request. -/
structure DomainSetExt where
  skbinfo : DomainSetSkbinfo
  packets : BitVec 64
  bytes : BitVec 64
  comment : Option (List UInt8)
  timeout : ℕ
  packetsOp : ℕ
  bytesOp : ℕ
  deriving DecidableEq

structure CmdFlags where
  exist : Bool
  matchCounters : Bool
  skipCounterUpdate : Bool
  deriving DecidableEq

/-- `set->extensions`, one bit each. The comment is the only extension with a
destroy function, so `DSET_EXT_DESTROY` is the comment bit. -/
structure Extensions where
  timeout : Bool
  counter : Bool
  comment : Bool
  skbinfo : Bool
  deriving DecidableEq

variable {A : Arch}

/-- One element of a bucket array: the key and its extensions. -/
structure Record (A : Arch) where
  elem : HashDomainElem
  counter : DomainSetCounter
  timeout : BitVec A.longBits
  skbinfo : DomainSetSkbinfo
  comment : Option DomainSetCommentRcu
  deriving DecidableEq

structure Slot (A : Arch) where
  used : Bool
  data : Record A
  deriving DecidableEq

structure Hbucket (A : Arch) where
  pos : ℕ
  value : List (Slot A)
  deriving DecidableEq

structure Htable (A : Arch) where
  ref : ℤ
  uref : ℤ
  htableBits : ℕ
  bucket : List (Option (Hbucket A))
  deriving DecidableEq

/-- The fields of `struct domain_set` that the element functions count in, and
the comments: the next fresh address and those handed to `kfree_rcu` so far. -/
structure Accounts where
  elements : ℤ
  extSize : ℤ
  nextAddr : ℕ
  freed : List ℕ
  deriving DecidableEq

/-- `struct domain_set` with the `struct htype` behind `set->data`. -/
structure DomainSet (A : Arch) where
  extensions : Extensions
  forceadd : Bool
  timeout : ℕ
  dsize : ℕ
  maxelem : ℕ
  initval : BitVec 32
  next : HashDomainElem
  acct : Accounts
  table : Htable A
  deriving DecidableEq

/-- `SET_WITH_TIMEOUT`. -/
abbrev DomainSet.withTimeout (set : DomainSet A) : Bool := set.extensions.timeout

abbrev DomainSet.withCounter (set : DomainSet A) : Bool := set.extensions.counter

abbrev DomainSet.withComment (set : DomainSet A) : Bool := set.extensions.comment

abbrev DomainSet.withSkbinfo (set : DomainSet A) : Bool := set.extensions.skbinfo

/-- The length `n->size` of the array of a bucket. -/
def Hbucket.size (n : Hbucket A) : ℕ := n.value.length

def Htable.hbucket (t : Htable A) (i : ℕ) : Option (Hbucket A) := t.bucket.getD i none

def jhashSize (htableBits : ℕ) : ℕ := 2 ^ htableBits

def jhashMask (htableBits : ℕ) : ℕ := jhashSize htableBits - 1

def zeroElem : HashDomainElem := ⟨List.replicate dsetMaxDomainLen 0, by simp⟩

/-- The content of a slot in fresh `kzalloc` memory. -/
def zeroRecord : Record A := ⟨zeroElem, ⟨0, 0⟩, 0, ⟨0, 0, 0, 0⟩, none⟩

def zeroSlot : Slot A := ⟨false, zeroRecord⟩

def hashDomainDataEqual (e1 e2 : HashDomainElem) : Bool := strcmpEq e1.domain e2.domain

/-- `HKEY`: the hash of the 256 bytes, cut down to the table size. -/
def hkey (jhash2 : HashDomainElem → BitVec 32 → BitVec 32) (e : HashDomainElem)
    (initval : BitVec 32) (htableBits : ℕ) : ℕ :=
  (jhash2 e initval).toNat &&& jhashMask htableBits

theorem hkey_lt (jhash2 : HashDomainElem → BitVec 32 → BitVec 32) (e : HashDomainElem)
    (initval : BitVec 32) (htableBits : ℕ) :
    hkey jhash2 e initval htableBits < jhashSize htableBits := by
  unfold hkey jhashMask jhashSize
  rw [Nat.and_two_pow_sub_one_eq_mod]
  exact Nat.mod_lt _ (Nat.two_pow_pos _)

/-- On keys with zero bytes behind the string, `strcmp` compares all bytes. -/
theorem hashDomainDataEqual_iff {e1 e2 : HashDomainElem} (h1 : ZeroPadded e1.domain)
    (h2 : ZeroPadded e2.domain) : hashDomainDataEqual e1 e2 = true ↔ e1 = e2 := by
  rw [hashDomainDataEqual, strcmpEq_iff_eq h1 h2 (e1.length_domain.trans e2.length_domain.symm)]
  cases e1; cases e2; simp

end Dset.Hash
