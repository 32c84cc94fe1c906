import Dset.Lib.Program
import Dset.User.Message

/-! The session of the library and the process around it (`session.c`, `dset.c`): the data
blob, the message under construction, the output buffer and the report of errors and
warnings. A function of the library is a program over this state; it returns, or it leaves
the process with an exit status. The kernel is whatever answers messages, and `ext` says
which calls of functions outside the library succeed. -/

namespace Dset.User

open Dset.Lib Dset.Core

inductive ErrType where
  | noError | warning | notice | error
  deriving DecidableEq

def ErrType.rank : ErrType → ℕ
  | .noError => 0
  | .warning => 1
  | .notice => 2
  | .error => 3

/-- The texts of reports, without their wording. -/
inductive Report where
  | errorInLine (lineno : ℕ)
  | elem (domain : Str)
  | inSet (name : Option SetName)
  | notInSet (name : Option SetName)
  | optionIgnored (option value : Str)
  | outOfRange (str : Str) (min max : ℕ)
  | invalidNumber (str : Str)
  | setnameTooLong (str : Str)
  | typenameTooLong (str : Str)
  | typenameUnknown (str : Str)
  | alreadySpecified (option : Str)
  | elemSeparator (str : Str)
  | typeIsUnknown
  | unknownOutputMode (str : Str)
  | fullIo
  | cannotOpen (filename : Str)
  | cannotOpenSession
  | invalidCommand (cmd : Cmd) (missing : Opt)
  | unknownCommand (cmd : Cmd)
  | kernelRevisions (revision : ℕ)
  | incompatible
  | protocolVersions (min max : ℕ)
  | brokenMessage (cmd : Cmd)
  | unexpectedMessage (cmd : Cmd)
  | kernelError (cmd : Cmd) (errno : ℕ)
  | internalProtocolError
  | cannotPrint
  | noMemory
  deriving DecidableEq

/-- `enum dset_envopt`, one bit each. -/
structure EnvOpts where
  sorted : Bool
  quiet : Bool
  exist : Bool
  listSetname : Bool
  listHeader : Bool
  deriving DecidableEq

inductive OutputMode where
  | none | plain | save | xml
  deriving DecidableEq

/-- The output buffer: its content up to the printing position, its size, the offsets of
sorted entries, the unused ones of these, and the strings given to `print_outfn` so far. -/
structure Outbuf where
  buf : List UInt8
  len : ℕ
  sorted : List ℕ
  pool : ℕ
  printed : List Str
  deriving DecidableEq

def dsetOutbuflen : ℕ := 8192

/-- `struct dset_session`; `stale` counts the answers of earlier messages that are still
in the socket, and an empty `savedSetname` is none. -/
structure Session where
  handle : Bool
  stale : ℕ
  data : Data
  cmd : Cmd
  lineno : ℕ
  printedSet : ℕ
  savedSetname : SetName
  savedType : Option DsetType
  nested : List Nest
  protocol : ℕ
  versionChecked : Bool
  out : Outbuf
  mode : OutputMode
  sort : Bool
  report : List Report
  errType : ErrType
  envopts : EnvOpts
  fullIo : Bool
  bufsize : ℕ
  /-- Without `nlmsg_len`, none. -/
  buffer : Option Nlmsg
  deriving DecidableEq

def dsetSessionInit (bufsize : ℕ) : Session where
  handle := false
  stale := 0
  data := Data.reset
  cmd := .none
  lineno := 0
  printedSet := 0
  savedSetname := emptyName
  savedType := none
  nested := []
  protocol := dsetProtocol
  versionChecked := false
  out := ⟨[], dsetOutbuflen, [], 0, []⟩
  mode := .none
  sort := false
  report := []
  errType := .noError
  envopts := ⟨false, false, false, false, false⟩
  fullIo := false
  bufsize := bufsize
  buffer := none

namespace Session

variable (s : Session)

/-- `dset_session_report`; a line number is written over what is there, and an error
clears the data blob. -/
def addReport (type : ErrType) (r : Report) : Session :=
  let old := if s.errType ≠ .noError ∧ s.errType.rank < type.rank then [] else s.report
  let old := if s.lineno ≠ 0 ∧ type = .error then [.errorInLine s.lineno] else old
  { s with
    report := old ++ [r]
    errType := type
    data := if type = .error then Data.reset else s.data }

def reportReset : Session := { s with report := [], errType := .noError }

end Session

/-- `kernel_check` of the registered type. -/
inductive KernelCheck where
  | mismatch | checkNeeded | ok
  deriving DecidableEq

/-- What an error function of a library user does at each of its calls: its value, and whether
it resets the report. -/
structure ErrorFn where
  ret : ℕ → ℤ
  resets : ℕ → Bool

/-- The functions given to `dset_custom_printf`; in place of none stands the default one. -/
structure ErrorFns where
  custom : Option ErrorFn
  standard : Option ErrorFn
  printOutfn : Bool

def ErrorFns.noVhi (f : ErrorFns) : Bool := f.custom.isSome || f.standard.isSome || f.printOutfn

/-- A message of the kernel quoted in its error message. -/
structure Quoted where
  cmd : Cmd
  protocol : Bool
  lineno : Option ℕ
  deriving DecidableEq

/-- The attributes of a set's header (`DSET_ATTR_DATA`). -/
structure CreateNla where
  timeout : Option ℕ
  gc : Option ℕ
  hashsize : Option ℕ
  maxelem : Option ℕ
  elements : Option ℕ
  references : Option ℕ
  memsize : Option ℕ
  deriving DecidableEq

/-- The attributes of an element; `other` stands for those nothing prints. -/
structure AdtNla where
  domain : Option Str
  timeout : Option ℕ
  other : Bool
  deriving DecidableEq

/-- The attributes of a message with data; nested ones that cannot be validated are there
with nothing in them. -/
structure Nla where
  protocol : Option ℕ
  setname : Option SetName
  typename : Option SetName
  revision : Option ℕ
  family : Option ℕ
  protocolMin : Option ℕ
  data : Option (Option CreateNla)
  adt : Option (List (Option AdtNla))
  deriving DecidableEq

/-- A netlink message of the kernel, as `mnl_cb_run2` tells them apart. -/
inductive KMsg where
  | noop
  /-- `NLMSG_ERROR`; with error zero an acknowledgement. -/
  | error (errno : ℕ) (quoted : Option Quoted)
  /-- `NLMSG_DONE`, with what the dump function returned last. -/
  | done (ret : ℤ)
  /-- A message of the subsystem; without attributes when they cannot be parsed. -/
  | data (cmd : Cmd) (multi : Bool) (nla : Option Nla)
  deriving DecidableEq

/-- The process: `struct dset` and its session, the cache and the type list, the kernel,
the messages sent so far with their answers, the calls of outside functions so far, and
what is left of the standard input. -/
structure Process (κ : Type) where
  errorFns : ErrorFns
  interactive : Bool
  restoreLine : ℕ
  filename : Option Str
  /-- The input of the session is an open file. -/
  istream : Bool
  session : Session
  setlist : List CachedSet
  kernelCheck : KernelCheck
  kernel : κ
  sent : List (Nlmsg × List (List KMsg))
  calls : ℕ
  stdin : List UInt8

def dsetInit {κ : Type} (bufsize : ℕ) (kernel : κ) (stdin : List UInt8) : Process κ where
  errorFns := ⟨none, none, false⟩
  interactive := false
  restoreLine := 0
  filename := none
  istream := false
  session := dsetSessionInit bufsize
  setlist := []
  kernelCheck := .checkNeeded
  kernel := kernel
  sent := []
  calls := 0
  stdin := stdin

/-- The kernel, which answers a message with datagrams, the calls of functions outside
the library that succeed, by their number, among these those of `malloc` in the cache, whose
failures nobody reports, and what files hold. -/
structure Env (κ : Type) where
  answer : κ → Nlmsg → List (List KMsg) × κ
  ext : ℕ → Bool
  malloc : ℕ → Bool := fun _ => true
  file : Str → List UInt8 := fun _ => []

/-- A function of the library: it returns, or exits with a status. -/
abbrev Prog (κ : Type) := EStateM ℕ (Process κ)

variable {κ : Type}

namespace Prog

def session : Prog κ Session := do return (← get).session

def modifySession (f : Session → Session) : Prog κ Unit :=
  modify fun d => { d with session := f d.session }

def modifyData (f : Data → Data) : Prog κ Unit :=
  modifySession fun s => { s with data := f s.data }

/-- `dset_session_report`, which returns -1. -/
def report (type : ErrType) (r : Report) : Prog κ ℤ := do
  modifySession (·.addReport type r)
  return -1

def dsetErr (r : Report) : Prog κ ℤ := report .error r

def dsetWarn (r : Report) : Prog κ ℤ := report .warning r

def dsetNotice (r : Report) : Prog κ ℤ := report .notice r

def ext (E : Env κ) : Prog κ Bool := do
  let n := (← get).calls
  modify fun d => { d with calls := n + 1 }
  return E.ext n

def malloc (E : Env κ) : Prog κ Bool := do
  let n := (← get).calls
  modify fun d => { d with calls := n + 1 }
  return E.malloc n

def exit {α : Type} (status : ℕ) : Prog κ α := throw status

end Prog

/-! ### How the basic programs end -/

section

variable {d : Process κ} {X : ℕ → Process κ → Prop}

abbrev Process.mapSession (d : Process κ) (f : Session → Session) : Process κ :=
  { d with session := f d.session }

@[simp] theorem ends_session {Q : Session → Process κ → Prop} :
    Ends Prog.session d Q X ↔ Q d.session d := Iff.rfl

@[simp] theorem ends_modifySession {f : Session → Session} {Q : PUnit → Process κ → Prop} :
    Ends (Prog.modifySession f) d Q X ↔ Q ⟨⟩ (d.mapSession f) := Iff.rfl

@[simp] theorem ends_modifyData {f : Data → Data} {Q : PUnit → Process κ → Prop} :
    Ends (Prog.modifyData f) d Q X ↔
      Q ⟨⟩ (d.mapSession fun s => { s with data := f s.data }) := Iff.rfl

@[simp] theorem ends_report {type : ErrType} {r : Report} {Q : ℤ → Process κ → Prop} :
    Ends (Prog.report type r) d Q X ↔ Q (-1) (d.mapSession (·.addReport type r)) := Iff.rfl

@[simp] theorem ends_dsetErr {r : Report} {Q : ℤ → Process κ → Prop} :
    Ends (Prog.dsetErr r) d Q X ↔ Q (-1) (d.mapSession (·.addReport .error r)) := Iff.rfl

@[simp] theorem ends_ext {E : Env κ} {Q : Bool → Process κ → Prop} :
    Ends (Prog.ext E) d Q X ↔ Q (E.ext d.calls) { d with calls := d.calls + 1 } := Iff.rfl

@[simp] theorem ends_malloc {E : Env κ} {Q : Bool → Process κ → Prop} :
    Ends (Prog.malloc E) d Q X ↔ Q (E.malloc d.calls) { d with calls := d.calls + 1 } := Iff.rfl

@[simp] theorem ends_exit {α : Type} {status : ℕ} {Q : α → Process κ → Prop} :
    Ends (Prog.exit status : Prog κ α) d Q X ↔ X status d := Iff.rfl

end

/-- All calls of outside functions whose failure is reported succeed. -/
def Env.Succeeds (E : Env κ) : Prop := ∀ n, E.ext n = true

/-- What is in the report buffer is an error. -/
def Session.Reported (s : Session) : Prop := s.report ≠ [] → s.errType = .error

theorem Session.reported_addReport (s : Session) (r : Report) : (s.addReport .error r).Reported :=
  fun _ => rfl

end Dset.User
