import Dset.User.Print

/-! The entries of a listing, for types of any arguments (`session.c`). One blob holds the
attributes of every set and element in turn; the bits of the options of a header are cleared before
the next header, those of an element before the next element. What is printed for an entry goes to
the output buffer, which does not change it; here it is kept beside the attributes it comes from. -/

namespace Dset.User.Options

open Dset.Lib Dset.Core

/-! ### Attributes -/

/-- A `struct nlattr`. -/
structure NlAttr where
  type : ℕ
  /-- `NLA_F_NET_BYTEORDER`. -/
  netorder : Bool
  payload : List UInt8
  deriving DecidableEq

inductive MnlType where
  | u8 | u16 | u32 | u64 | nulString
  deriving DecidableEq

/-- The size of an integer; none for a string. -/
def MnlType.size : MnlType → Option ℕ
  | .u8 => some 1
  | .u16 => some 2
  | .u32 => some 4
  | .u64 => some 8
  | .nulString => none

/-- `struct dset_attr_policy`, of an attribute that is not `MNL_TYPE_UNSPEC`. -/
structure AttrPolicy where
  type : MnlType
  opt : DsetOpt
  len : ℕ

/-- `cmd_attrs` of `DSET_ATTR_SETNAME`. -/
def setnamePolicy : AttrPolicy := ⟨.nulString, .setname, dsetMaxnamelen⟩

def typenamePolicy : AttrPolicy := ⟨.nulString, .typename, dsetMaxnamelen⟩

def revisionPolicy : AttrPolicy := ⟨.u8, .revision, 0⟩

def familyPolicy : AttrPolicy := ⟨.u8, .family, 0⟩

def attrDomain : ℕ := 1

/-- The attributes the kernel sends with every header: `DSET_ATTR_HASHSIZE`, `DSET_ATTR_MAXELEM`,
`DSET_ATTR_ELEMENTS`, `DSET_ATTR_REFERENCES` and `DSET_ATTR_MEMSIZE`. -/
def attrsOfHeader : List ℕ := [18, 19, 23, 24, 25]

/-- `DSET_ATTR_CREATE_MAX` and `DSET_ATTR_ADT_MAX`. -/
def attrMax : ℕ := 25

def createAttrs : ℕ → Option AttrPolicy
  | 1 => some ⟨.nulString, .domain, 0⟩
  | 2 => some ⟨.u32, .timeout, 0⟩
  | 3 => some ⟨.u32, .cadtFlags, 0⟩
  | 17 => some ⟨.u32, .gc, 0⟩
  | 18 => some ⟨.u32, .hashsize, 0⟩
  | 19 => some ⟨.u32, .maxelem, 0⟩
  | 20 => some ⟨.u8, .probes, 0⟩
  | 21 => some ⟨.u8, .resize, 0⟩
  | 22 => some ⟨.u32, .size, 0⟩
  | 23 => some ⟨.u32, .elements, 0⟩
  | 24 => some ⟨.u32, .references, 0⟩
  | 25 => some ⟨.u32, .memsize, 0⟩
  | _ => none

def adtAttrs : ℕ → Option AttrPolicy
  | 1 => some ⟨.nulString, .domain, dsetMaxDomainLength⟩
  | 2 => some ⟨.u32, .timeout, 0⟩
  | 3 => some ⟨.u32, .cadtFlags, 0⟩
  | 9 => some ⟨.u32, .lineno, 0⟩
  | 17 => some ⟨.nulString, .name, dsetMaxnamelen⟩
  | 18 => some ⟨.nulString, .nameref, dsetMaxnamelen⟩
  | 19 => some ⟨.u64, .bytes, 0⟩
  | 20 => some ⟨.u64, .packets, 0⟩
  | 21 => some ⟨.nulString, .adtComment, dsetMaxCommentSize + 1⟩
  | 22 => some ⟨.u64, .skbmark, 0⟩
  | 23 => some ⟨.u32, .skbprio, 0⟩
  | 24 => some ⟨.u16, .skbqueue, 0⟩
  | _ => none

def mnlAttrValidate (type : MnlType) (payload : List UInt8) : Bool :=
  match type.size with
  | some n => payload.length = n
  | none => payload.getLast? = some 0

/-- `generic_data_attr_cb`: whether the attribute is taken. -/
def genericDataAttrCb (policy : ℕ → Option AttrPolicy) (a : NlAttr) : Bool :=
  a.type ≤ attrMax &&
    match policy a.type with
    | some p => mnlAttrValidate p.type a.payload && (p.type ≠ .nulString || a.payload.length ≤ p.len)
    | none => true

abbrev Nla := ℕ → Option NlAttr

/-- `mnl_attr_parse_nested`; none for an error. -/
def mnlAttrParseNested (policy : ℕ → Option AttrPolicy) (attrs : List NlAttr) : Option Nla :=
  if attrs.all (genericDataAttrCb policy) then
    some (attrs.foldl (fun tb a => Function.update tb a.type (some a)) fun _ => none)
  else none

def hostValue (p : AttrPolicy) (a : NlAttr) : List UInt8 :=
  if a.netorder && (p.type = .u64 || p.type = .u32 || p.type = .u16) then a.payload.reverse
  else a.payload

def attr2data (b : Blob) (p : AttrPolicy) (a : NlAttr) : Option Blob :=
  if !a.netorder && p.type = .nulString && p.len ≤ (cstr a.payload).length then none
  else b.set p.opt (hostValue p a)

/-- `ATTR2DATA` of the attributes of these types, one after the other. -/
def loadAttrs (policy : ℕ → Option AttrPolicy) (nla : Nla) : List ℕ → Blob → Option Blob
  | [], b => some b
  | i :: is, b =>
    match nla i, policy i with
    | some a, some p => (attr2data b p a).bind (loadAttrs policy nla is)
    | _, _ => loadAttrs policy nla is b

/-- The types `DSET_ATTR_UNSPEC + 1` to `DSET_ATTR_CREATE_MAX` or `DSET_ATTR_ADT_MAX`. -/
def attrTypes : List ℕ := List.range' 1 attrMax

/-! ### Listing -/

def dsetCreateFlags : Finset DsetOpt :=
  {.family, .typename, .type, .domain, .timeout, .gc, .hashsize, .maxelem, .probes, .resize, .size,
    .counters, .createComment, .forceadd, .skbinfo}

def dsetAdtFlags : Finset DsetOpt :=
  {.timeout, .name, .nameref, .cadtFlags, .before, .physdev, .nomatch, .packets, .bytes,
    .adtComment, .skbmark, .skbprio, .skbqueue}

/-- What a listing does not change: the mode, the options `-name`, `-terse` and the registered types,
and how `dset_type_get` finds a type that is not in the blob. -/
structure Settings where
  mode : OutputMode
  listSetname : Bool
  listHeader : Bool
  typelist : List TypeDesc
  typeGet : Blob → Option (TypeDesc × Blob)

section Text

variable (mode : OutputMode) (b : Blob)

/-- The text of an argument of the type, in the loops of `list_adt` and `list_create`. -/
def argText (arg : DsetArg) : Option Str :=
  match arg.print with
  | none => some []
  | some print =>
    if !b.test arg.opt then some []
    else match mode with
    | .save | .plain =>
      if !arg.hasArg then some (bytes " " ++ arg.name)
      else (print b arg.opt).map fun value => bytes " " ++ arg.name ++ bytes " " ++ value
    | .xml =>
      if !arg.hasArg then some (bytes "<" ++ arg.name ++ bytes "/>")
      else (print b arg.opt).map fun value =>
        bytes "<" ++ arg.name ++ bytes ">" ++ value ++ bytes "</" ++ arg.name ++ bytes ">"
    | .none => some []

def argsText : List Keyword → Option Str
  | [] => some []
  | k :: ks => do
    let text ← argText mode b (dsetKeyword k)
    return text ++ (← argsText ks)

def dsetDataSetname : Option Str := (b.get .setname).map cstr

/-- The text of `list_adt`; none where it aborts. -/
def adtText (t : TypeDesc) : Option Str := do
  let name ← dsetDataSetname b
  let elem ← dsetPrintElem b
  let args ← argsText mode b t.addArgs
  match mode with
  | .save => return bytes "add " ++ name ++ bytes " " ++ elem ++ args ++ bytes "\n"
  | .xml =>
    return bytes "<member><elem>" ++ elem ++ bytes "</elem>" ++ args ++ bytes "</member>\n"
  | _ => return elem ++ args ++ bytes "\n"

/-- The number of entries in a header, if it is stored. -/
def elementsText (before after : Str) : Option Str :=
  if b.test .elements then (dsetPrintNumber b .elements).map fun n => before ++ n ++ after
  else some []

/-- A plain header after another one begins with an empty line. -/
def separator (later : Bool) : Str := if mode = .plain ∧ later then bytes "\n" else []

/-- The text of `list_create` behind the separator; none where it aborts. -/
def createText (listHeader : Bool) (t : TypeDesc) : Option Str := do
  let name ← dsetDataSetname b
  let args ← argsText mode b t.createArgs
  match mode with
  | .save => return bytes "create " ++ name ++ bytes " " ++ t.name ++ args ++ bytes "\n"
  | .plain =>
    let memsize ← dsetPrintNumber b .memsize
    let references ← dsetPrintNumber b .references
    let elements ← elementsText b (bytes "\nNumber of entries: ") []
    return bytes "Name: " ++ name ++ bytes "\nType: " ++ t.name ++ bytes "\nRevision: " ++
      numberText t.revision ++ bytes "\nHeader:" ++ args ++ bytes "\nSize in memory: " ++ memsize ++
      bytes "\nReferences: " ++ references ++ elements ++
      if listHeader then bytes "\n" else bytes "\nMembers:\n"
  | .xml =>
    let memsize ← dsetPrintNumber b .memsize
    let references ← dsetPrintNumber b .references
    let elements ← elementsText b (bytes "<numentries>") (bytes "</numentries>\n")
    return bytes "<dset name=\"" ++ name ++ bytes "\">\n<type>" ++ t.name ++
      bytes "</type>\n<revision>" ++ numberText t.revision ++ bytes "</revision>\n<header>" ++ args ++
      bytes "\n<memsize>" ++ memsize ++ bytes "</memsize>\n<references>" ++ references ++
      bytes "</references>\n" ++ elements ++
      if listHeader then bytes "</header>\n" else bytes "</header>\n<members>\n"
  | .none => return args

end Text

/-- An element of a set, with what `list_adt` prints for it. -/
structure ElemEntry where
  setname : NlAttr
  type : TypeDesc
  nla : Nla
  text : Str

structure HeaderEntry where
  setname : NlAttr
  typename : NlAttr
  family : NlAttr
  revision : NlAttr
  nla : Nla
  /-- Another header was printed before. -/
  later : Bool
  text : Str

structure Entries where
  headers : List HeaderEntry
  elems : List ElemEntry

def Entries.append (x y : Entries) : Entries := ⟨x.headers ++ y.headers, x.elems ++ y.elems⟩

instance : Append Entries := ⟨Entries.append⟩

section List

variable (c : Settings)

/-- `list_adt` of an element of the set; the entry is missing when nothing is printed. -/
def listAdt (setname : NlAttr) (b : Blob) (nla : Nla) : Option (Option ElemEntry × Blob) := do
  let (t, b) ← if b.test .type then b.type.map (·, b) else c.typeGet b
  let b ← loadAttrs adtAttrs nla attrTypes b
  if attrTypes.all fun i => (nla i).isNone then return (none, b)
  else return (some ⟨setname, t, nla, ← adtText c.mode b t⟩, b)

/-- The elements of a message, up to the first error. -/
def listElems (setname : NlAttr) : List (List NlAttr) → Blob → List ElemEntry × Option Blob
  | [], b => ([], some b)
  | attrs :: rest, b =>
    match (mnlAttrParseNested adtAttrs attrs).bind (listAdt c setname (b.flagsUnset dsetAdtFlags)) with
    | none => ([], none)
    | some (entry, b) =>
      let (entries, b) := listElems setname rest b
      (entry.toList ++ entries, b)

def dsetMatchTypename (name : Str) (t : TypeDesc) : Bool := name = t.name || t.aliases.any (name = ·)

def dsetTypeCheck (b : Blob) : Option (TypeDesc × Blob) := do
  let typename ← b.get .typename
  let revision ← b.get .revision
  let t ← c.typelist.find? fun t =>
    !t.mismatch && dsetMatchTypename (cstr typename) t && t.revision = leNat revision
  return (t, b.setType t)

structure ListMsg where
  setname : Option NlAttr
  typename : Option NlAttr
  family : Option NlAttr
  revision : Option NlAttr
  /-- `DSET_ATTR_DATA`. -/
  data : Option (List NlAttr)
  /-- `DSET_ATTR_ADT`: the attributes of each element. -/
  adt : Option (List (List NlAttr))

structure ListState where
  blob : Blob
  savedSetname : Str
  printedSet : ℕ

/-- The attributes of a header, from the reset of its flags on. -/
def loadHeader (typename family revision : NlAttr) (nla : Nla) (b : Blob) : Option Blob := do
  let b ← attr2data (b.flagsUnset dsetCreateFlags) familyPolicy family
  let b ← attr2data b typenamePolicy typename
  let b ← attr2data b revisionPolicy revision
  loadAttrs createAttrs nla attrTypes b

def listHeader (setname : NlAttr) (m : ListMsg) (attrs : List NlAttr) (s : ListState) :
    Option (HeaderEntry × ListState) := do
  let typename ← m.typename
  let family ← m.family
  let revision ← m.revision
  let nla ← mnlAttrParseNested createAttrs attrs
  let b ← loadHeader typename family revision nla s.blob
  let (t, b) ← dsetTypeCheck c b
  let text ← createText c.mode b c.listHeader t
  let later : Bool := s.printedSet ≠ 0
  return (⟨setname, typename, family, revision, nla, later, separator c.mode later ++ text⟩,
    ⟨b, ← dsetDataSetname b, s.printedSet + 1⟩)

/-- `callback_list`: the entries it prints, and the state behind it; none with an error. -/
def callbackList (s : ListState) (m : ListMsg) : Entries × Option ListState :=
  match m.setname.bind fun setname => (attr2data s.blob setnamePolicy setname).map (setname, ·) with
  | none => (⟨[], []⟩, none)
  | some (setname, b) =>
    let s := { s with blob := b }
    if c.listSetname ∧ c.mode ≠ .save then (⟨[], []⟩, some s)
    else if dsetDataSetname b = some s.savedSetname ∧ b.test .type ∧ m.data.isSome then
      (⟨[], []⟩, none)
    else if dsetDataSetname b ≠ some s.savedSetname ∧ m.data.isNone then (⟨[], []⟩, none)
    else
      let header : Option (List HeaderEntry × ListState) :=
        match m.data with
        | none => some ([], s)
        | some attrs => (listHeader c setname m attrs s).map fun (h, s) => ([h], s)
      match header with
      | none => (⟨[], []⟩, none)
      | some (headers, s) =>
        let (elems, b) := listElems c setname (m.adt.getD []) s.blob
        (⟨headers, elems⟩, b.map fun b => { s with blob := b })

/-- The entries of an exchange, up to an error. -/
def listEntries : ListState → List ListMsg → Entries
  | _, [] => ⟨[], []⟩
  | s, m :: ms =>
    match callbackList c s m with
    | (entries, none) => entries
    | (entries, some s) => entries ++ listEntries s ms

end List

end Dset.User.Options
