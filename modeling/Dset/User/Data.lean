import Dset.User.Cache
import Mathlib.Data.Finset.SDiff

/-! The data blob of a session (`data.c`): what a command line or a message of the kernel
stored, and a bit for every option that says whether it is stored. The names of `rename`
and `swap` share their memory with the options of `create`. -/

namespace Dset.User

open Dset.Lib Dset.Core

/-- A C string, without its terminator. -/
abbrev Str := List UInt8

/-- `enum dset_opt`, as far as a command or a message stores it. -/
inductive Opt where
  | setname | typename | family | domain | timeout | gc | hashsize | maxelem | probes | resize
  | elements | references | memsize | setname2 | flags | type | revision | revisionMin
  deriving DecidableEq

/-- The bytes of `union { setname2; create; adt }` that `setname2` covers. -/
abbrev Overlay := List UInt8

/-- A `uint32_t` of the union, on a little-endian machine. -/
def Overlay.u32 (m : Overlay) (off : ℕ) : ℕ :=
  (m.getD off 0).toNat + 2 ^ 8 * (m.getD (off + 1) 0).toNat +
    2 ^ 16 * (m.getD (off + 2) 0).toNat + 2 ^ 24 * (m.getD (off + 3) 0).toNat

def Overlay.setU32 (m : Overlay) (off v : ℕ) : Overlay :=
  m.take off ++ [UInt8.ofNat v, UInt8.ofNat (v / 2 ^ 8), UInt8.ofNat (v / 2 ^ 16),
    UInt8.ofNat (v / 2 ^ 24)] ++ m.drop (off + 4)

/-- `struct dset_data`. -/
structure Data where
  bits : Finset Opt
  ignored : Finset Opt
  setname : SetName
  type : Option DsetType
  flags : ℕ
  timeout : ℕ
  domaindata : Str
  overlay : Overlay
  memsize : ℕ
  typename : SetName
  revisionMin : ℕ
  revision : ℕ
  deriving DecidableEq

def emptyName : SetName := ⟨[], by decide, by decide⟩

def SetName.ofStr (s : Str) : Option SetName :=
  if h : 0 ∉ s ∧ s.length < dsetMaxnamelen then some ⟨s, h.1, h.2⟩ else none

namespace Data

/-- `dset_data_reset`: all bytes zero. -/
def reset : Data :=
  ⟨∅, ∅, emptyName, none, 0, 0, [], List.replicate dsetMaxnamelen 0, 0, emptyName, 0, 0⟩

variable (d : Data)

def test (o : Opt) : Bool := o ∈ d.bits

/-- `dset_data_flags_set` of one option. -/
def mark (o : Opt) : Data := { d with bits := insert o d.bits }

def flagsUnset (f : Finset Opt) : Data := { d with bits := d.bits \ f }

/-- `dset_data_ignored`: whether it was ignored already. -/
def markIgnored (o : Opt) : Bool × Data := (o ∈ d.ignored, { d with ignored := insert o d.ignored })

/-! `dset_data_set`, one case each. -/

def setSetname (name : SetName) : Data := { d with setname := name }.mark .setname

def setType (t : DsetType) : Data := { d with type := some t }.mark .type

def setFlags (v : ℕ) : Data := { d with flags := v }.mark .flags

/-- The domain is cut to its buffer where it is read. -/
def setDomain (s : Str) : Data := { d with domaindata := s }.mark .domain

def setTimeout (v : ℕ) : Data := { d with timeout := v }.mark .timeout

/-- The place in the union of an option that is a `uint32_t` there. -/
def createOffset : Opt → ℕ
  | .hashsize => 4
  | .maxelem => 8
  | .gc => 16
  | .references => 24
  | _ => 28

/-- The options of `create` that are a `uint32_t` in the union. -/
def setCreate (o : Opt) (v : ℕ) : Data :=
  { d with overlay := Overlay.setU32 d.overlay (createOffset o) v }.mark o

def setMemsize (v : ℕ) : Data := { d with memsize := v }.mark .memsize

def setTypename (name : SetName) : Data := { d with typename := name }.mark .typename

def setRevision (v : ℕ) : Data := { d with revision := v }.mark .revision

def setRevisionMin (v : ℕ) : Data := { d with revisionMin := v }.mark .revisionMin

/-- `strncpy` fills the buffer up with zero bytes. -/
def setSetname2 (name : SetName) : Data :=
  { d with overlay := zeroPad dsetMaxnamelen name.text }.mark .setname2

/-! `dset_data_get`, one case each; none is `NULL`. -/

def getSetname : Option SetName := if d.test .setname then some d.setname else none

def getType : Option DsetType := if d.test .type then d.type else none

/-- The name of the type, if one is stored, otherwise the name stored. -/
def getTypename : Option SetName :=
  if d.test .type then d.type.map (·.name)
  else if d.test .typename then some d.typename else none

def getTimeout : Option ℕ := if d.test .timeout then some (d.timeout % 2 ^ 32) else none

/-- A string in a buffer of `DSET_MAX_DOMAIN_LEN` bytes (`dset_strlcpy`). -/
def getDomain : Option Str := if d.test .domain then some (d.domaindata.take 255) else none

def getCreate (o : Opt) : Option ℕ :=
  if d.test o then some (Overlay.u32 d.overlay (createOffset o)) else none

def getMemsize : Option ℕ := if d.test .memsize then some (d.memsize % 2 ^ 32) else none

def getRevision : Option ℕ := if d.test .revision then some d.revision else none

def getRevisionMin : Option ℕ := if d.test .revisionMin then some d.revisionMin else none

/-- The string in the buffer of `setname2`, which other options may have overwritten. -/
def getSetname2 : Option Str := if d.test .setname2 then some (cstr d.overlay) else none

end Data

def dsetCreateFlags : Finset Opt :=
  {.family, .typename, .type, .domain, .timeout, .gc, .hashsize, .maxelem, .probes, .resize}

def dsetAdtFlags : Finset Opt := {.timeout}

/-! ### Which options are stored -/

namespace Data

variable (d : Data)

@[simp] theorem test_reset (o : Opt) : Data.reset.test o = false :=
  decide_eq_false (Finset.notMem_empty o)

@[simp] theorem test_mark (o o' : Opt) :
    (d.mark o).test o' = (decide (o' = o) || d.test o') := by
  simp [mark, test]

@[simp] theorem test_flagsUnset (f : Finset Opt) (o : Opt) :
    (d.flagsUnset f).test o = (d.test o && decide (o ∉ f)) := by
  simp [flagsUnset, test]

@[simp] theorem test_setSetname (name : SetName) (o : Opt) :
    (d.setSetname name).test o = (decide (o = .setname) || d.test o) := test_mark _ _ _

@[simp] theorem test_setType (t : DsetType) (o : Opt) :
    (d.setType t).test o = (decide (o = .type) || d.test o) := test_mark _ _ _

@[simp] theorem test_setFlags (v : ℕ) (o : Opt) :
    (d.setFlags v).test o = (decide (o = .flags) || d.test o) := test_mark _ _ _

@[simp] theorem test_setDomain (s : Str) (o : Opt) :
    (d.setDomain s).test o = (decide (o = .domain) || d.test o) := test_mark _ _ _

@[simp] theorem test_setTimeout (v : ℕ) (o : Opt) :
    (d.setTimeout v).test o = (decide (o = .timeout) || d.test o) := test_mark _ _ _

@[simp] theorem test_setCreate (c : Opt) (v : ℕ) (o : Opt) :
    (d.setCreate c v).test o = (decide (o = c) || d.test o) := test_mark _ _ _

@[simp] theorem test_setMemsize (v : ℕ) (o : Opt) :
    (d.setMemsize v).test o = (decide (o = .memsize) || d.test o) := test_mark _ _ _

@[simp] theorem test_setTypename (name : SetName) (o : Opt) :
    (d.setTypename name).test o = (decide (o = .typename) || d.test o) := test_mark _ _ _

@[simp] theorem test_setRevision (v : ℕ) (o : Opt) :
    (d.setRevision v).test o = (decide (o = .revision) || d.test o) := test_mark _ _ _

@[simp] theorem test_setSetname2 (name : SetName) (o : Opt) :
    (d.setSetname2 name).test o = (decide (o = .setname2) || d.test o) := test_mark _ _ _

end Data

/-! ### Reading back what was stored -/

theorem Overlay.u32_setU32 {m : Overlay} {off v : ℕ} (hoff : off + 4 ≤ m.length) (hv : v < 2 ^ 32) :
    (Overlay.setU32 m off v).u32 off = v := by
  have hlen : (m.take off).length = off := by
    rw [List.length_take]
    omega
  have hget (i : ℕ) (hi : i < 4) : (Overlay.setU32 m off v).getD (off + i) 0 =
      ([UInt8.ofNat v, UInt8.ofNat (v / 2 ^ 8), UInt8.ofNat (v / 2 ^ 16),
        UInt8.ofNat (v / 2 ^ 24)] : List UInt8).getD i 0 := by
    unfold Overlay.setU32
    rw [List.append_assoc, List.getD_append_right _ _ _ _ (by omega), hlen,
      Nat.add_sub_cancel_left, List.getD_append _ _ _ _ (by simpa using hi)]
  have h0 := hget 0 (by omega)
  rw [Nat.add_zero] at h0
  rw [Overlay.u32, h0, hget 1 (by omega), hget 2 (by omega), hget 3 (by omega)]
  simp only [List.getD_cons_zero, List.getD_cons_succ, UInt8.toNat_ofNat']
  omega

end Dset.User
