import Dset.User.Session

/-! Listing and saving sets: the callbacks that print the kernel's messages (`session.c`,
`print.c`). Text goes to the output buffer, which is pushed out when it is full; sorted
entries stay in it until their set is complete. Printing that fails jumps back to
`callback_list`. -/

namespace Dset.User

open Dset.Lib Dset.Core

variable {κ : Type}

/-- `MNL_CB_ERROR`, `MNL_CB_STOP` and `MNL_CB_OK`. -/
def mnlCbError : ℤ := -1

def mnlCbStop : ℤ := 0

def mnlCbOk : ℤ := 1

def assertFail {α : Type} : Prog κ α := Prog.exit 134

/-! ### The output buffer -/

def Prog.modifyOut (f : Outbuf → Outbuf) : Prog κ Unit :=
  Prog.modifySession fun s => { s with out := f s.out }

def printOutfn (E : Env κ) (str : Str) : Prog κ Bool := do
  Prog.modifyOut fun o => { o with printed := o.printed ++ [str] }
  Prog.ext E

/-- `call_outfn`: whether the string at the start of the buffer could be printed. -/
def callOutfn (E : Env κ) : Prog κ Bool := do
  let ok ← printOutfn E (cstr (← Prog.session).out.buf)
  Prog.modifyOut fun o => { o with buf := [] }
  return ok

def reallocOutbuf (E : Env κ) : Prog κ Bool := do
  if ← Prog.ext E then
    Prog.modifyOut fun o => { o with len := o.len + dsetOutbuflen }
    return true
  else
    let _ ← Prog.dsetErr .noMemory
    return false

/-- The text at the printing position, if it fits. -/
def tryPrint (text : Str) : Prog κ Bool := do
  let o := (← Prog.session).out
  if o.len ≤ text.length + o.buf.length then return false
  else
    Prog.modifyOut fun o => { o with buf := o.buf ++ text }
    return true

/-- `handle_snprintf_error` in the first round. -/
def handleSnprintfError (E : Env κ) : Prog κ Bool := do
  if (← Prog.session).sort then reallocOutbuf E
  else if ← callOutfn E then return true
  else
    let _ ← Prog.dsetErr .cannotPrint
    return false

/-- `safe_snprintf` and `safe_dprintf`: false stands for the jump on a failure. -/
def safeSnprintf (E : Env κ) (text : Str) : Prog κ Bool := do
  if ← tryPrint text then return true
  else if !(← handleSnprintfError E) then return false
  else if ← tryPrint text then return true
  else
    let _ ← Prog.dsetErr .cannotPrint
    return false

/-- Texts one after the other, up to the first that cannot be printed. -/
def printAll (E : Env κ) : List Str → Prog κ Bool
  | [] => return true
  | text :: texts => do
    if ← safeSnprintf E text then printAll E texts else return false

/-- `%u` and `%lu`. -/
def numberText (n : ℕ) : Str := (Nat.toDigits 10 n).map fun c => UInt8.ofNat c.toNat

/-! ### Types of sets -/

def hashDomainAlias : Str := bytes "dhash"

def dsetMatchTypename (name : Str) : Bool :=
  name == dsetHashDomain0.name.text || name == hashDomainAlias

def dsetTypeCheck : Prog κ (Option DsetType) := do
  let d := (← Prog.session).data
  match d.getTypename, d.getRevision with
  | some typename, some revision =>
    if (← get).kernelCheck ≠ .mismatch ∧ dsetMatchTypename typename.text ∧
        dsetHashDomain0.revision = revision then
      Prog.modifyData (·.setType dsetHashDomain0)
      return some dsetHashDomain0
    else
      let _ ← Prog.dsetErr .incompatible
      return none
  | _, _ => assertFail

/-! ### Elements -/

/-- An option in a listing, if it is stored. -/
def optionTexts (mode : OutputMode) (name : String) : Option ℕ → List Str
  | none => []
  | some v =>
    match mode with
    | .xml => [bytes ("<" ++ name ++ ">"), numberText v, bytes ("</" ++ name ++ ">")]
    | _ => [bytes (" " ++ name ++ " "), numberText v]

def adtTexts (mode : OutputMode) (name : SetName) (domain : Str) (timeout : Option ℕ) :
    List Str :=
  (match mode with
    | .save => [bytes "add " ++ name.text ++ bytes " "]
    | .xml => [bytes "<member><elem>"]
    | _ => []) ++
  [domain] ++ (if mode = .xml then [bytes "</elem>"] else []) ++
  optionTexts mode "timeout" timeout ++
  [if mode = .xml then bytes "</member>\n" else bytes "\n"]

def AdtNla.store (nla : AdtNla) (d : Data) : Data :=
  let d := nla.domain.elim d d.setDomain
  nla.timeout.elim d d.setTimeout

/-- `ATTR2DATA` of the attributes of an element: false when the domain is too long, and then
the error has cleared what was stored. -/
def adtAttr2data (nla : AdtNla) : Prog κ Bool := do
  if nla.domain.any (256 ≤ ·.length) then
    let _ ← Prog.dsetErr (.brokenMessage .list)
    return false
  else
    Prog.modifyData nla.store
    return true

/-- An entry for sorting, unless there is no memory. -/
def sortEntry (E : Env κ) (offset : ℕ) : Prog κ Bool := do
  let pool := (← Prog.session).out.pool
  let ok ← if 0 < pool then pure true else Prog.ext E
  if ok then
    Prog.modifyOut fun o => { o with pool := pool - 1, sorted := o.sorted ++ [offset] }
    return true
  else
    let _ ← Prog.dsetErr .noMemory
    return false

/-- Room for the zero byte in front of a sorted entry. -/
def sortRoom (E : Env κ) : Prog κ Bool := do
  let s ← Prog.session
  if s.sort && s.out.len ≤ s.out.buf.length + 1 then reallocOutbuf E else return true

/-- The offset of the next entry; a sorted one starts behind a zero byte. -/
def startEntry : Prog κ ℕ := do
  if (← Prog.session).sort then Prog.modifyOut fun o => { o with buf := o.buf ++ [0] }
  return (← Prog.session).out.buf.length

/-- `list_adt` behind the attributes: the element is printed and, if the set is sorted,
entered. False is the jump on a failure. -/
def printAdt (E : Env κ) : Prog κ Bool := do
  if !(← sortRoom E) then return false
  else
    let offset ← startEntry
    let s ← Prog.session
    match s.data.getSetname, s.data.getDomain with
    | some name, some domain =>
      if ← printAll E (adtTexts s.mode name domain s.data.getTimeout) then
        if s.sort then sortEntry E offset else return true
      else return false
    | _, _ => assertFail

/-- The type of the set, looked up if it is not stored. -/
def storedType (typeGet : Prog κ (Option DsetType)) : Prog κ (Option DsetType) := do
  let d := (← Prog.session).data
  if d.test .type then return d.type else typeGet

/-- `list_adt`; `typeGet` looks the type of the set up. Without a value it ends in the jump
on a failure. -/
def listAdt (E : Env κ) (typeGet : Prog κ (Option DsetType)) (nla : AdtNla) :
    Prog κ (Option ℤ) := do
  if (← storedType typeGet).isNone then return some mnlCbError
  else if !(← adtAttr2data nla) then return some mnlCbError
  else if nla.domain.isNone && nla.timeout.isNone && !nla.other then return some mnlCbOk
  else if ← printAdt E then return some mnlCbOk
  else return none

/-! ### Headers -/

def CreateNla.store (nla : CreateNla) (d : Data) : Data :=
  let opt (o : Option ℕ) (f : Data → ℕ → Data) (d : Data) : Data := o.elim d (f d)
  (opt nla.memsize Data.setMemsize ∘ opt nla.references (·.setCreate .references) ∘
    opt nla.elements (·.setCreate .elements) ∘ opt nla.maxelem (·.setCreate .maxelem) ∘
    opt nla.hashsize (·.setCreate .hashsize) ∘ opt nla.gc (·.setCreate .gc) ∘
    opt nla.timeout Data.setTimeout) d

/-- The options of a header, in the order of the type's arguments. -/
def createOptionTexts (mode : OutputMode) (d : Data) : List Str :=
  optionTexts mode "hashsize" (d.getCreate .hashsize) ++
  optionTexts mode "maxelem" (d.getCreate .maxelem) ++ optionTexts mode "timeout" d.getTimeout ++
  optionTexts mode "gc" (d.getCreate .gc)

/-- The end of a header; the kernel always sends its size in memory and its references. -/
def headerTexts (mode : OutputMode) (listHeader : Bool) (d : Data) : List Str :=
  let number (o : Option ℕ) : Str := numberText (o.getD 0)
  match mode with
  | .save => [bytes "\n"]
  | .plain =>
    [bytes "\nSize in memory: ", number d.getMemsize, bytes "\nReferences: ",
      number (d.getCreate .references)] ++
    (if d.test .elements then [bytes "\nNumber of entries: ", number (d.getCreate .elements)]
      else []) ++
    [if listHeader then bytes "\n" else bytes "\nMembers:\n"]
  | .xml =>
    [bytes "\n<memsize>", number d.getMemsize, bytes "</memsize>\n<references>",
      number (d.getCreate .references), bytes "</references>\n"] ++
    (if d.test .elements then
      [bytes "<numentries>", number (d.getCreate .elements), bytes "</numentries>\n"] else []) ++
    [if listHeader then bytes "</header>\n" else bytes "</header>\n<members>\n"]
  | .none => []

def createTexts (mode : OutputMode) (printedSet : ℕ) (listHeader : Bool) (name : SetName)
    (type : DsetType) (d : Data) : List Str :=
  (match mode with
    | .save => [bytes "create " ++ name.text ++ bytes " " ++ type.name.text]
    | .plain => [(if printedSet ≠ 0 then bytes "\n" else []) ++ bytes "Name: " ++ name.text ++
        bytes "\nType: " ++ type.name.text ++ bytes "\nRevision: " ++ numberText type.revision ++
        bytes "\nHeader:"]
    | .xml => [bytes "<dset name=\"" ++ name.text ++ bytes "\">\n<type>" ++ type.name.text ++
        bytes "</type>\n<revision>" ++ numberText type.revision ++ bytes "</revision>\n<header>"]
    | .none => []) ++
  createOptionTexts mode d ++ headerTexts mode listHeader d

/-- `list_create`; without a value it ends in the jump on a failure. -/
def listCreate (E : Env κ) (nla : CreateNla) : Prog κ (Option ℤ) := do
  Prog.modifyData nla.store
  match ← dsetTypeCheck with
  | none => return some mnlCbError
  | some type =>
    let s ← Prog.session
    match s.data.getSetname with
    | none => assertFail
    | some name =>
      let texts := createTexts s.mode s.printedSet s.envopts.listHeader name type s.data
      if ← printAll E texts then
        Prog.modifySession fun s => { s with
          printedSet := s.printedSet + 1
          sort := (bytes "hash:").isPrefixOf type.name.text && s.envopts.sorted }
        return some mnlCbOk
      else return none

/-! ### The end of a set -/

def strcmpLe : Str → Str → Bool
  | [], _ => true
  | _ :: _, [] => false
  | a :: as, b :: bs => if a = b then strcmpLe as bs else a < b

def printEntries (E : Env κ) : List Str → Prog κ Bool
  | [] => return true
  | entry :: entries => do
    if ← printOutfn E entry then printEntries E entries else return false

/-- The part of `print_set_done` about a sorted set. -/
def printSorted (E : Env κ) : Prog κ Bool := do
  let s ← Prog.session
  if !s.sort then return true
  else if ← callOutfn E then
    let entries := s.out.sorted.map fun offset => cstr (s.out.buf.drop offset)
    if ← printEntries E (entries.mergeSort strcmpLe) then
      Prog.modifyOut fun o => { o with pool := o.pool + o.sorted.length, sorted := [] }
      return true
    else return false
  else return false

/-- The closing texts of `print_set_done`. -/
def doneTexts (s : Session) (callbackDone : Bool) : List Str :=
  (if s.mode = .xml ∧ ¬ s.envopts.listSetname ∧ s.savedSetname ≠ emptyName then
    [if s.envopts.listHeader then bytes "</dset>\n" else bytes "</members>\n</dset>\n"]
    else []) ++
  if callbackDone ∧ s.mode = .xml then [bytes "</dsets>\n"] else []

/-- `print_set_done`; without a value it ends in the jump on a failure. -/
def printSetDone (E : Env κ) (callbackDone : Bool) : Prog κ (Option ℤ) := do
  if !(← printSorted E) then return some mnlCbError
  else if !(← printAll E (doneTexts (← Prog.session) callbackDone)) then return none
  else if ← callOutfn E then return some mnlCbStop
  else return some mnlCbError

/-! ### The callback -/

/-- Behind a jump to `callback_list`. -/
def printfFailure : Prog κ ℤ := do
  Prog.modifySession fun s => { s with savedSetname := emptyName, printedSet := 0 }
  return mnlCbError

def failure (r : Report) : Prog κ ℤ := do
  let _ ← Prog.dsetErr r
  return mnlCbError

/-- `MNL_CB_OK` when the buffer can be printed. -/
def pushOut (E : Env κ) : Prog κ ℤ := do
  if ← callOutfn E then return mnlCbOk else return mnlCbError

/-- The elements of a message; without a value one of them ends in a jump. -/
def listElements (E : Env κ) (typeGet : Prog κ (Option DsetType)) (cmd : Cmd) :
    List (Option AdtNla) → Prog κ (Option ℤ)
  | [] => do if (← Prog.session).sort then return some mnlCbOk else return some (← pushOut E)
  | adt :: adts => do
    Prog.modifyData (·.flagsUnset dsetAdtFlags)
    match adt with
    | none => return some (← failure (.brokenMessage cmd))
    | some adt =>
      let ret ← listAdt E typeGet adt
      if ret = some mnlCbOk then listElements E typeGet cmd adts else return ret

/-- The type a header names, stored in place of what the last header stored. -/
def Data.startHeader (d : Data) (typename : SetName) (revision : ℕ) : Data :=
  (((d.flagsUnset dsetCreateFlags).mark .family).setTypename typename).setRevision revision

def listHeader (E : Env κ) (cmd : Cmd) (nla : Nla) (data : Option CreateNla) :
    Prog κ (Option ℤ) := do
  match nla.typename, nla.family, nla.revision with
  | some typename, some _, some revision =>
    Prog.modifyData (·.startHeader typename revision)
    match data with
    | none => return some (← failure (.brokenMessage cmd))
    | some data =>
      let ret ← listCreate E data
      if ret = some mnlCbOk then
        Prog.modifySession fun s => { s with savedSetname := s.data.setname }
        return some mnlCbOk
      else return ret
  | _, _, _ => return some (← failure (.brokenMessage cmd))

/-- The set before `name` is closed, whether it could be printed or not; false is the jump
on a failure. -/
def closeSaved (E : Env κ) (name : SetName) : Prog κ Bool := do
  let s ← Prog.session
  if name ≠ s.savedSetname ∧ s.savedSetname ≠ emptyName then return (← printSetDone E false).isSome
  else return true

def listParts (E : Env κ) (typeGet : Prog κ (Option DsetType)) (cmd : Cmd) (nla : Nla) :
    Prog κ (Option ℤ) := do
  let elements := match nla.adt with
    | none => do return some (← pushOut E)
    | some adts => listElements E typeGet cmd adts
  match nla.data with
  | none => elements
  | some data =>
    let ret ← listHeader E cmd nla data
    if ret = some mnlCbOk then elements else return ret

/-- `callback_list` where only the names of sets are listed. -/
def listName (E : Env κ) (name : SetName) : Prog κ (Option ℤ) := do
  let text := if (← Prog.session).mode = .xml then
      bytes "<dset name=\"" ++ name.text ++ bytes "\"/>\n"
    else name.text ++ bytes "\n"
  if ← safeSnprintf E text then return some (← pushOut E) else return none

/-- `callback_list` behind the name of the set; without a value it ends in a jump. -/
def listSet (E : Env κ) (typeGet : Prog κ (Option DsetType)) (cmd : Cmd) (name : SetName)
    (nla : Nla) : Prog κ (Option ℤ) := do
  let s ← Prog.session
  if s.envopts.listSetname ∧ s.mode ≠ .save then listName E name
  else if name = s.savedSetname ∧ s.data.test .type ∧ nla.data.isSome then
    return some (← failure (.brokenMessage cmd))
  else if name ≠ s.savedSetname ∧ nla.data.isNone then
    return some (← failure (.brokenMessage cmd))
  else if ← closeSaved E name then listParts E typeGet cmd nla
  else return none

def callbackList (E : Env κ) (typeGet : Prog κ (Option DsetType)) (cmd : Cmd) (nla : Nla) :
    Prog κ ℤ := do
  match nla.setname with
  | none => failure (.brokenMessage cmd)
  | some name =>
    Prog.modifyData (·.setSetname name)
    match ← listSet E typeGet cmd name nla with
    | none => printfFailure
    | some ret => return ret

end Dset.User
