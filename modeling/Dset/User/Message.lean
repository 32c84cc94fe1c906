import Dset.User.Data

/-! Messages to the kernel under construction (`session.c`, `mnl.c`): attributes put one
after the other into the session's buffer, nested ones with their length filled in when
they are closed, in the 16 bits of `nla_len`. An attribute that would not leave room for
the kernel's error reply, which quotes the message, is not put. -/

namespace Dset.User

open Dset.Lib Dset.Core

inductive Cmd where
  | none | protocol | create | destroy | flush | rename | swap | list | save | add | del | test
  | header | type | restore | help | version | quit
  deriving DecidableEq

/-- `cmd < DSET_MSG_MAX`. -/
def Cmd.isMsg : Cmd → Bool
  | .restore | .help | .version | .quit => false
  | _ => true

/-- The attributes the library puts; numbers are in network order. `nestEnd` is where a
nested attribute is closed, with the `nla_len` it then gets. -/
inductive Attr where
  | protocol (v : ℕ)
  | setname (s : Str)
  | setname2 (s : Str)
  | typename (s : Str)
  | revision (v : ℕ)
  | family (v : ℕ)
  | flags (v : ℕ)
  | lineno (v : ℕ)
  | domain (s : Str)
  | timeout (v : ℕ)
  | hashsize (v : ℕ)
  | maxelem (v : ℕ)
  | gc (v : ℕ)
  | probes (v : ℕ)
  | resize (v : ℕ)
  | elements (v : ℕ)
  | references (v : ℕ)
  | memsize (v : ℕ)
  | data
  | adt
  | nestEnd (nlaLen : ℕ)
  deriving DecidableEq

def mnlAlign (n : ℕ) : ℕ := (n + 3) / 4 * 4

def mnlAttrHdrlen : ℕ := 4

/-- `sizeof(struct nlmsghdr)` and `sizeof(struct nfgenmsg)`. -/
def headerLen : ℕ := 16 + 4

/-- `MNL_ALIGN(sizeof(struct nlmsgerr))`. -/
def nlmsgerrLen : ℕ := 20

/-- The payload of an attribute; strings have their terminator. -/
def Attr.payload : Attr → ℕ
  | .protocol _ | .revision _ | .family _ | .probes _ | .resize _ => 1
  | .flags _ | .lineno _ | .timeout _ | .hashsize _ | .maxelem _ | .gc _ | .elements _
  | .references _ | .memsize _ => 4
  | .setname s | .setname2 s | .typename s | .domain s => s.length + 1
  | .data | .adt | .nestEnd _ => 0

def Attr.size : Attr → ℕ
  | .nestEnd _ => 0
  | a => mnlAttrHdrlen + mnlAlign a.payload

/-- `attr_len` with `cmd_attrs` or `adt_attrs`: the bytes reserved for an attribute. -/
def Attr.attrLen : Attr → ℕ
  | .setname _ | .setname2 _ | .typename _ => dsetMaxnamelen
  | .domain _ => 256
  | a => a.payload

/-- `attr_len` with `create_attrs`, where a domain has no length. -/
def Attr.createAttrLen : Attr → ℕ
  | .domain _ => 0
  | a => a.attrLen

/-- `struct nlmsghdr` with its attributes; `exist` is `NLM_F_EXCL` left out. -/
structure Nlmsg where
  cmd : Cmd
  exist : Bool
  len : ℕ
  attrs : List Attr
  deriving DecidableEq

/-- An open nested attribute: the attributes and the bytes before it. -/
structure Nest where
  attrs : ℕ
  len : ℕ
  deriving DecidableEq

namespace Nlmsg

def fillHdr (cmd : Cmd) (exist : Bool) : Nlmsg := ⟨cmd, exist, headerLen, []⟩

variable (nlh : Nlmsg)

/-- `mnl_attr_put`. -/
def put (a : Attr) : Nlmsg := { nlh with len := nlh.len + a.size, attrs := nlh.attrs ++ [a] }

def bufferFull (bufsize alen : ℕ) : Bool :=
  bufsize < nlh.len + 0 + mnlAttrHdrlen + mnlAlign alen + nlmsgerrLen

/-- `rawdata2attr`: nothing when the buffer is full. -/
def rawdata2attr (bufsize alen : ℕ) (a : Attr) : Option Nlmsg :=
  if nlh.bufferFull bufsize alen then none else some (nlh.put a)

/-- `rawdata2attr` where the result is ignored. -/
def addattr (bufsize alen : ℕ) (a : Attr) : Nlmsg := (nlh.rawdata2attr bufsize alen a).getD nlh

/-- The loop of `addattr_adt`, up to the first attribute that does not fit. -/
def addattrs (bufsize : ℕ) : Nlmsg → List Attr → Option Nlmsg
  | nlh, [] => some nlh
  | nlh, a :: l =>
    match nlh.rawdata2attr bufsize a.attrLen a with
    | none => none
    | some nlh => addattrs bufsize nlh l

/-- The same loop where the result is ignored: what was put stays in the message. -/
def addattrsUpto (bufsize : ℕ) : Nlmsg → List Attr → Nlmsg
  | nlh, [] => nlh
  | nlh, a :: l =>
    match nlh.rawdata2attr bufsize a.attrLen a with
    | none => nlh
    | some nlh => addattrsUpto bufsize nlh l

def addattrsCreate (bufsize : ℕ) (l : List Attr) : Nlmsg :=
  l.foldl (fun nlh a => nlh.addattr bufsize a.createAttrLen a) nlh

/-- `open_nested`, up to the list of open attributes. -/
def openNested (bufsize : ℕ) (a : Attr) : Option (Nlmsg × Nest) :=
  if bufsize < nlh.len + mnlAttrHdrlen then none
  else some (nlh.put a, ⟨nlh.attrs.length, nlh.len⟩)

/-- `mnl_attr_nest_end`: the length goes into a `uint16_t`. -/
def nestEnd (nest : Nest) : Nlmsg :=
  { nlh with attrs := nlh.attrs ++ [.nestEnd ((nlh.len - nest.len) % 2 ^ 16)] }

def nestCancel (nest : Nest) : Nlmsg :=
  { nlh with len := nest.len, attrs := nlh.attrs.take nest.attrs }

end Nlmsg

end Dset.User
