import Dset.User.Reader

/-! Parsing of a command line into the data blob, and its execution (`dset.c`, `parse.c`,
`args.c`): options of the program, commands, arguments of the set type, and the loops over the
lines of a stream. -/

namespace Dset.User

open Dset.Lib Dset.Core

variable {κ : Type}

/-! ### Options of the program -/

/-- `dset_envopts`, in their order. -/
inductive EnvOpt where
  | output | sorted | quiet | exist | listSetname | listHeader | file
  deriving DecidableEq

def EnvOpt.all : List EnvOpt := [.output, .sorted, .quiet, .exist, .listSetname, .listHeader, .file]

def EnvOpt.names : EnvOpt → List Str
  | .output => [bytes "-o", bytes "-output"]
  | .sorted => [bytes "-s", bytes "-sorted"]
  | .quiet => [bytes "-q", bytes "-quiet"]
  | .exist => [bytes "-!", bytes "-exist"]
  | .listSetname => [bytes "-n", bytes "-name"]
  | .listHeader => [bytes "-t", bytes "-terse"]
  | .file => [bytes "-f", bytes "-file"]

/-- `DSET_MANDATORY_ARG`. -/
def EnvOpt.hasArg : EnvOpt → Bool
  | .output | .file => true
  | _ => false

def twoDashes (arg : Str) : Bool := arg.take 2 = [45, 45]

def dsetMatchEnvopt (arg : Str) (o : EnvOpt) : Bool :=
  o.names.contains (if twoDashes arg then arg.drop 1 else arg)

def dsetParseFilename (str : Str) : Prog κ ℤ := do
  if (← get).filename.isSome then Prog.customError .parameter
  else
    modify fun d => { d with filename := some str }
    return 0

def dsetParseOutput (str : Str) : Prog κ ℤ :=
  let output (mode : OutputMode) : Prog κ ℤ := do
    Prog.modifySession fun s => { s with mode := mode }
    return 0
  if str = bytes "plain" then output .plain
  else if str = bytes "xml" then output .xml
  else if str = bytes "save" then output .save
  else Prog.dsetErr (.unknownOutputMode str)

def dsetEnvoptSet (f : EnvOpts → EnvOpts) : Prog κ ℤ := do
  Prog.modifySession fun s => { s with envopts := f s.envopts }
  return 0

def EnvOpt.parse (o : EnvOpt) (str : Str) : Prog κ ℤ :=
  match o with
  | .output => dsetParseOutput str
  | .sorted => dsetEnvoptSet ({ · with sorted := true })
  | .quiet => dsetEnvoptSet ({ · with quiet := true })
  | .exist => dsetEnvoptSet ({ · with exist := true })
  | .listSetname => dsetEnvoptSet ({ · with listSetname := true })
  | .listHeader => dsetEnvoptSet ({ · with listHeader := true })
  | .file => dsetParseFilename str

/-- The loop over the arguments for one option, which is taken out of them; `kept` are those
already passed. It returns from the caller or leaves the other arguments. -/
def parseEnvopt (o : EnvOpt) : List Str → List Str → Prog κ (Except ℤ (List Str))
  | kept, [] => return .ok kept
  | kept, [arg] => do
    if !dsetMatchEnvopt arg o then return .ok (kept ++ [arg])
    else if o.hasArg then return .error (← Prog.customError .parameter)
    else if (← o.parse []) < 0 then return .error (← Prog.standardError)
    else return .ok kept
  | kept, arg :: value :: l => do
    if !dsetMatchEnvopt arg o then parseEnvopt o (kept ++ [arg]) (value :: l)
    else if o.hasArg then
      if (← o.parse value) < 0 then return .error (← Prog.standardError) else parseEnvopt o kept l
    else if (← o.parse []) < 0 then return .error (← Prog.standardError)
    else parseEnvopt o kept (value :: l)

def parseEnvopts : List EnvOpt → List Str → Prog κ (Except ℤ (List Str))
  | [], argv => return .ok argv
  | o :: l, argv => do
    match ← parseEnvopt o [] argv with
    | .error ret => return .error ret
    | .ok argv => parseEnvopts l argv

/-! ### Commands -/

inductive HasArg where
  | noArg | optionalArg | mandatoryArg2
  deriving DecidableEq

/-- `struct dset_commands`, without its help. -/
structure DsetCommand where
  cmd : Cmd
  name : List Str
  hasArg : HasArg
  deriving DecidableEq

def dsetCommands : List DsetCommand := [
  ⟨.create, [bytes "create", bytes "new", bytes "-N"], .mandatoryArg2⟩,
  ⟨.add, [bytes "add", bytes "-A"], .mandatoryArg2⟩,
  ⟨.del, [bytes "del", bytes "-D"], .mandatoryArg2⟩,
  ⟨.test, [bytes "test", bytes "-T"], .mandatoryArg2⟩,
  ⟨.destroy, [bytes "destroy", bytes "x", bytes "-X"], .optionalArg⟩,
  ⟨.list, [bytes "list", bytes "-L"], .optionalArg⟩,
  ⟨.save, [bytes "save", bytes "-S"], .optionalArg⟩,
  ⟨.restore, [bytes "restore", bytes "-R"], .noArg⟩,
  ⟨.flush, [bytes "flush", bytes "-F"], .optionalArg⟩,
  ⟨.rename, [bytes "rename", bytes "e", bytes "-E"], .mandatoryArg2⟩,
  ⟨.swap, [bytes "swap", bytes "w", bytes "-W"], .mandatoryArg2⟩,
  ⟨.help, [bytes "help", bytes "-h", bytes "-H"], .optionalArg⟩,
  ⟨.version, [bytes "version", bytes "-v", bytes "-V"], .noArg⟩,
  ⟨.quit, [bytes "quit"], .noArg⟩]

def dsetMatchCmd (arg : Str) (name : List Str) : Bool :=
  let skip := if twoDashes arg then 2 else 0
  if arg.length ≤ skip ∨ arg = [45] then false
  else name.any fun n => (arg.drop skip).isPrefixOf n

/-- The command of a line, its arguments, and the others. -/
structure CmdArgs where
  cmd : Cmd
  arg0 : Option Str
  arg1 : Option Str
  argv : List Str
  deriving DecidableEq

def parseCmdArgs (command : DsetCommand) (argv : List Str) : Prog κ (Except ℤ CmdArgs) :=
  match command.hasArg, argv with
  | .noArg, _ => return .ok ⟨command.cmd, none, none, argv⟩
  | .optionalArg, argv => return .ok ⟨command.cmd, argv.head?, none, argv.tail⟩
  | .mandatoryArg2, arg0 :: arg1 :: argv => return .ok ⟨command.cmd, some arg0, some arg1, argv⟩
  | .mandatoryArg2, _ => return .error (← Prog.customError .parameter)

/-- The second stage of `dset_parse_argv`. -/
def parseCmd (argv : List Str) : Prog κ (Except ℤ CmdArgs) :=
  match argv with
  | [] => return .ok ⟨.none, none, none, []⟩
  | arg :: l =>
    match dsetCommands.find? fun c => dsetMatchCmd arg c.name with
    | none => return .ok ⟨.none, none, none, arg :: l⟩
    | some command => do
      let d ← get
      if d.restoreLine ≠ 0 ∧
          (command.cmd = .restore ∨ command.cmd = .version ∨ command.cmd = .help) then
        return .error (← Prog.customError .parameter)
      else if d.interactive && command.cmd = .restore then return .error 0
      else parseCmdArgs command l

/-! ### Arguments of the set type -/

/-- `enum dset_keywords`, as far as `hash:domain` has them. -/
inductive Keyword where
  | hashsize | maxelem | timeout | probes | resize | gc
  deriving DecidableEq

namespace Keyword

def name : Keyword → Str
  | .hashsize => bytes "hashsize"
  | .maxelem => bytes "maxelem"
  | .timeout => bytes "timeout"
  | .probes => bytes "probes"
  | .resize => bytes "resize"
  | .gc => bytes "gc"

def opt : Keyword → Opt
  | .hashsize => .hashsize
  | .maxelem => .maxelem
  | .timeout => .timeout
  | .probes => .probes
  | .resize => .resize
  | .gc => .gc

end Keyword

/-- `cmd[].args` of `hash:domain`. -/
def typeArgs : Cmd → List Keyword
  | .create => [.hashsize, .maxelem, .timeout, .probes, .resize, .gc]
  | .add => [.timeout]
  | _ => []

def typeNeed : Cmd → List Opt
  | .create => []
  | _ => [.domain]

/-- `cmd[].full` of `hash:domain`, with what `dset_type_add` puts there. -/
def typeFull (cmd : Cmd) : List Opt := typeNeed cmd ++ (typeArgs cmd).map Keyword.opt

def dsetMatchOption (arg : Str) (k : Keyword) : Bool :=
  (if twoDashes arg then arg.drop 2 else arg) = k.name

def dsetParseUint32 (o : Opt) (str : Str) : Prog κ ℤ :=
  match stringToNumberLl str 0 uintMax with
  | .error r => Prog.dsetErr r
  | .ok v => do
    Prog.modifyData (·.setCreate o v)
    return 0

def dsetParseTimeout (str : Str) : Prog κ ℤ :=
  match stringToNumberLl str 0 (uintMax / 2 / 1000) with
  | .error r => Prog.dsetErr r
  | .ok v => do
    Prog.modifyData (·.setTimeout v)
    return 0

def dsetParseIgnored (k : Keyword) (str : Str) : Prog κ ℤ := do
  let (ignored, data) := (← Prog.session).data.markIgnored k.opt
  Prog.modifyData fun _ => data
  if !ignored then
    let _ ← Prog.dsetWarn (.optionIgnored k.name str)
  return 0

def Keyword.parse (k : Keyword) (str : Str) : Prog κ ℤ :=
  match k with
  | .hashsize => dsetParseUint32 .hashsize str
  | .maxelem => dsetParseUint32 .maxelem str
  | .timeout => dsetParseTimeout str
  | .probes | .resize | .gc => dsetParseIgnored k str

def dsetCallParser (k : Keyword) (str : Str) : Prog κ ℤ := do
  if (← Prog.session).data.test k.opt then Prog.dsetErr (.alreadySpecified k.name)
  else k.parse str

/-- The loop of `call_parser`; all keywords have a mandatory argument. It returns a value and
the arguments that are left. -/
def callParserLoop (kws : List Keyword) (family : Bool) (all : List Str) :
    List Str → Prog κ (ℤ × List Str)
  | [] => return (0, if family then all else [])
  | arg :: l =>
    match kws.find? (dsetMatchOption arg ·), l with
    | none, _ => return (← Prog.customError .parameter, all)
    | some _, [] => return (← Prog.customError .parameter, all)
    | some k, value :: l => do
      if family then callParserLoop kws family all l
      else
        let ret ← dsetCallParser k value
        if ret < 0 then return (ret, all) else callParserLoop kws family all l

def callParser (cmd : Cmd) (family : Bool) (argv : List Str) : Prog κ (ℤ × List Str) :=
  if typeArgs cmd = [] ∧ argv ≠ [] then return (← Prog.customError .parameter, argv)
  else callParserLoop (typeArgs cmd) family argv argv

/-- `check_mandatory`: without the option among the arguments the type is reported to be
wrong. -/
def checkMandatory (cmd : Cmd) : Prog κ Unit := do
  let data := (← Prog.session).data
  let missing := (typeNeed cmd).filter fun o => !data.test o
  if missing = [] then return ()
  else if typeArgs cmd = [] then
    let _ ← Prog.customError .other
  else if (typeArgs cmd).any fun k => missing.contains k.opt then
    let _ ← Prog.customError .parameter
  else return ()

def checkedOpts : List Opt := [.domain, .timeout, .gc, .hashsize, .maxelem, .probes, .resize]

def checkAllowed (cmd : Cmd) : Prog κ Unit := do
  let data := (← Prog.session).data
  let flags := if cmd = .create then dsetCreateFlags else dsetAdtFlags
  if checkedOpts.any fun o => o ∈ flags ∧ o ∉ typeFull cmd ∧ data.test o then
    let _ ← Prog.customError .other
  else return ()

/-! ### Arguments of commands -/

def dsetParseSetname (set : SetName → Data → Data) (str : Str) : Prog κ ℤ :=
  match SetName.ofStr str with
  | none => Prog.dsetErr (.setnameTooLong str)
  | some name => do
    Prog.modifyData (set name)
    return 0

/-- `dset_parse_setname` of a set. -/
def parseSetname (str : Str) : Prog κ ℤ := dsetParseSetname (fun n d => d.setSetname n) str

def parseSetname2 (str : Str) : Prog κ ℤ := dsetParseSetname (fun n d => d.setSetname2 n) str

def dsetParseTypename (E : Env κ) (str : Str) : Prog κ ℤ := do
  if str.length > dsetMaxnamelen - 1 then Prog.dsetErr (.typenameTooLong str)
  else if !dsetMatchTypename str then Prog.dsetErr (.typenameUnknown str)
  else
    Prog.modifyData (·.setTypename dsetHashDomain0.name)
    match ← dsetTypeGetCreate E with
    | none => return -1
    | some type =>
      Prog.modifyData (·.setType type)
      return 0

/-- `elem_separator`: a comma that is neither first nor last. -/
def elemSeparator (str : Str) : Bool :=
  str.contains 44 && str.head? ≠ some 44 && str.getLast? ≠ some 44

def dsetParseElem (E : Env κ) (str : Str) : Prog κ ℤ := do
  match (← Prog.session).data.getType with
  | none => Prog.dsetErr .typeIsUnknown
  | some _ =>
    if ← Prog.ext E then
      if elemSeparator str then Prog.dsetErr (.elemSeparator str)
      else
        Prog.modifyData (·.setDomain str)
        return 0
    else Prog.dsetErr .noMemory

/-- A value below zero returns from `dset_parse_argv` through the error function. -/
def orStandardError (ret : ℤ) : Prog κ (Except ℤ Unit) :=
  if ret < 0 then return .error (← Prog.standardError) else return .ok ()

def parsedArgs (r : ℤ × List Str) : Prog κ (Except ℤ (List Str)) :=
  if r.1 < 0 then return .error (← Prog.standardError)
  else if r.1 ≠ 0 then return .error r.1
  else return .ok r.2

/-- The type of a set that is there already. -/
def typeOrError (type : Option DsetType) : Prog κ (Except ℤ Unit) := do
  if type.isNone then return .error (← Prog.standardError) else return .ok ()

/-- Programs that may return from `dset_parse_argv`, one after the other. -/
def andThen {α β : Type} (x : Prog κ (Except ℤ α)) (f : α → Prog κ (Except ℤ β)) :
    Prog κ (Except ℤ β) := do
  match ← x with
  | .error ret => return .error ret
  | .ok a => f a

/-- The checks behind the arguments of the set type. -/
def checkArgs (cmd : Cmd) (argv : List Str) : Prog κ (Except ℤ (List Str)) := do
  checkMandatory cmd
  checkAllowed cmd
  return .ok argv

def parseCreate (E : Env κ) (arg0 arg1 : Str) (argv : List Str) :
    Prog κ (Except ℤ (List Str)) :=
  andThen (parseSetname arg0 >>= orStandardError) fun _ =>
  andThen (dsetParseTypename E arg1 >>= orStandardError) fun _ =>
  andThen (dsetTypeGetCreate E >>= typeOrError) fun _ =>
  andThen (callParser .create true argv >>= parsedArgs) fun argv =>
  andThen (callParser .create false argv >>= parsedArgs) (checkArgs .create)

def parseAdt (E : Env κ) (cmd : Cmd) (arg0 arg1 : Str) (argv : List Str) :
    Prog κ (Except ℤ (List Str)) :=
  andThen (parseSetname arg0 >>= orStandardError) fun _ =>
  andThen (adtTypeGet E >>= typeOrError) fun _ =>
  andThen (dsetParseElem E arg1 >>= orStandardError) fun _ =>
  andThen (callParser cmd false argv >>= parsedArgs) (checkArgs cmd)

def parseNames (arg0 arg1 : Str) (argv : List Str) : Prog κ (Except ℤ (List Str)) :=
  andThen (parseSetname arg0 >>= orStandardError) fun _ =>
  andThen (parseSetname2 arg1 >>= orStandardError) fun _ => return .ok argv

def parseOptional (arg0 : Option Str) (argv : List Str) : Prog κ (Except ℤ (List Str)) :=
  match arg0 with
  | none => return .ok argv
  | some arg0 => andThen (parseSetname arg0 >>= orStandardError) fun _ => return .ok argv

/-- `dset_session_io_normal`: the file of the input is closed, also to open one for output. -/
def dsetSessionIoNormal (E : Env κ) (filename : Str) (input : Bool) : Prog κ ℤ := do
  if (← Prog.session).fullIo then Prog.dsetErr .fullIo
  else
    modify fun d => { d with istream := false }
    if ← Prog.ext E then
      modify fun d => { d with istream := input }
      return 0
    else Prog.dsetErr (.cannotOpen filename)

def parseList (E : Env κ) (arg0 : Option Str) (argv : List Str) :
    Prog κ (Except ℤ (List Str)) := do
  match (← get).filename with
  | none => parseOptional arg0 argv
  | some filename =>
    let ret ← dsetSessionIoNormal E filename false
    if ret < 0 then return .error ret else parseOptional arg0 argv

/-! ### A command line -/

/-- The loops that a command line can start: `restore`, and the interactive mode. -/
structure Loops (κ : Type) where
  restore : Prog κ ℤ
  interactive : Prog κ Unit

def noCommand (loops : Loops κ) (argv : List Str) : Prog κ ℤ := do
  let d ← get
  if d.interactive then return 0
  else if argv.head? = some [45] then
    if d.errorFns.noVhi then return 0
    else
      modify fun d => { d with interactive := true }
      loops.interactive
      Prog.customError .none
  else Prog.customError .parameter

def endVersionHelp : Prog κ ℤ := do
  if (← get).interactive then return 0 else Prog.customError .none

def versionCmd (E : Env κ) : Prog κ ℤ := do
  if (← get).errorFns.noVhi then return 0
  else
    let _ ← dsetCmd E .none 0
    if (← Prog.session).errType ≠ .noError then
      let _ ← Prog.standardError
    endVersionHelp

/-- `help`, without its texts. -/
def helpCmd (arg0 : Option Str) : Prog κ ℤ := do
  let d ← get
  if d.errorFns.noVhi then return 0
  else if (d.interactive || !d.session.envopts.quiet) &&
      arg0.any fun name => !dsetMatchTypename name then
    Prog.customError .parameter
  else endVersionHelp

def restoreCmd (loops : Loops κ) (argv : List Str) : Prog κ ℤ :=
  if argv ≠ [] then Prog.customError .parameter else loops.restore

/-- The third and fourth stage of `dset_parse_argv`: they return from it, or leave the
arguments behind those of the command. -/
def parseStages (E : Env κ) (loops : Loops κ) (c : CmdArgs) : Prog κ (Except ℤ (List Str)) :=
  match c.cmd, c.arg0, c.arg1 with
  | .none, _, _ => return .error (← noCommand loops c.argv)
  | .version, _, _ => return .error (← versionCmd E)
  | .help, _, _ => return .error (← helpCmd c.arg0)
  | .quit, _, _ => return .error (← Prog.customError .none)
  | .restore, _, _ => return .error (← restoreCmd loops c.argv)
  | .create, some arg0, some arg1 => parseCreate E arg0 arg1 c.argv
  | .list, _, _ | .save, _, _ => parseList E c.arg0 c.argv
  | .destroy, _, _ | .flush, _, _ => parseOptional c.arg0 c.argv
  | .rename, some arg0, some arg1 | .swap, some arg0, some arg1 => parseNames arg0 arg1 c.argv
  | .add, some arg0, some arg1 | .del, some arg0, some arg1 | .test, some arg0, some arg1 =>
    parseAdt E c.cmd arg0 arg1 c.argv
  | _, _, _ => return .ok c.argv

def noneLeft (argv : List Str) : Prog κ (Except ℤ Unit) :=
  if argv ≠ [] then return .error (← Prog.customError .parameter) else return .ok ()

/-- `dset_parse_argv` up to the call of `dset_cmd`. -/
def parseLine (E : Env κ) (loops : Loops κ) (argv : List Str) : Prog κ (Except ℤ Cmd) := do
  let line := (← get).restoreLine
  Prog.modifySession fun s => { s with lineno := line }
  andThen (parseEnvopts EnvOpt.all argv) fun argv =>
  andThen (parseCmd argv) fun c =>
  andThen (parseStages E loops c) fun argv =>
  andThen (noneLeft argv) fun _ => return .ok c.cmd

/-- The end of `dset_parse_argv`. -/
def executeCmd (E : Env κ) (cmd : Cmd) : Prog κ ℤ := do
  let ret ← dsetCmd E cmd (← get).restoreLine
  if ret < 0 ∨ (← Prog.session).errType ≠ .noError then
    let _ ← Prog.standardError
  return ret

def dsetParseArgv (E : Env κ) (loops : Loops κ) (argv : List Str) : Prog κ ℤ := do
  match ← parseLine E loops argv with
  | .error ret => return ret
  | .ok cmd => executeCmd E cmd

def dsetParseLine (E : Env κ) (loops : Loops κ) (line : List UInt8) : Prog κ ℤ := do
  let c := skipSpace line
  if isBlank c then return 0
  else
    let (ret, argv) ← buildArgv E c
    if ret < 0 then return ret else dsetParseArgv E loops argv

/-! ### Streams -/

def softError (ret : ℤ) : Prog κ Unit := do
  if ret < 0 then
    let _ ← Prog.standardError

/-- The lines of the interactive mode, from which neither loop can be started. -/
def interactiveLines (E : Env κ) : List (List UInt8) → Prog κ Unit
  | [] => return ()
  | line :: lines => do
    softError (← dsetParseLine E ⟨assertFail, assertFail⟩ line)
    interactiveLines E lines

/-- The interactive mode, which reads the standard input to its end. -/
def interactiveMode (E : Env κ) : Prog κ Unit := do
  let stdin := (← get).stdin
  modify fun d => { d with stdin := [] }
  interactiveLines E (fgetsLines stdin)

/-- What a stream reads from: the standard input, the file `restore` opened, or a stream of a
library user. -/
inductive Source where
  | stdin | file | user
  deriving DecidableEq

/-- The body of the loop of `dset_parse_stream`, which may return from it. -/
def streamLine (E : Env κ) (loops : Loops κ) (line : List UInt8) : Prog κ (Except ℤ Unit) := do
  modify fun d => { d with restoreLine := (d.restoreLine + 1) % 2 ^ 32 }
  let c := skipSpace line
  if isBlank c then return .ok ()
  else if isCommit c then
    softError (← dsetCommit E)
    return .ok ()
  else
    let (ret, argv) ← buildArgv E c
    if ret < 0 then return .error ret
    else
      softError (← dsetParseArgv E loops argv)
      return .ok ()

/-- Whether the stream can be read on behind a line: the standard input may have been read by
the line, and its use is undefined when the line closed the file. -/
def readOn (source : Source) : Prog κ Bool := do
  match source with
  | .stdin => return (← get).stdin ≠ []
  | .file => if (← get).istream then return true else assertFail
  | .user => return true

/-- The loop of `dset_parse_stream`. -/
def streamLines (E : Env κ) (loops : Loops κ) (source : Source) :
    List (List UInt8) → Prog κ (Except ℤ Unit)
  | [] => return .ok ()
  | line :: lines => do
    if source = .stdin then modify fun d => { d with stdin := lines.flatten }
    match ← streamLine E loops line with
    | .error ret => return .error ret
    | .ok _ => if ← readOn source then streamLines E loops source lines else return .ok ()

def parseStream (E : Env κ) (loops : Loops κ) (source : Source) (stream : List UInt8) :
    Prog κ ℤ := do
  match ← streamLines E loops source (fgetsLines stream) with
  | .error ret => return ret
  | .ok _ =>
    -- an implicit `COMMIT`
    let ret ← dsetCommit E
    softError ret
    return ret

def restore (E : Env κ) (loops : Loops κ) : Prog κ ℤ := do
  let d ← get
  match d.filename with
  | none => parseStream E loops .stdin d.stdin
  | some filename =>
    let ret ← dsetSessionIoNormal E filename true
    if ret < 0 then return ret else parseStream E loops .file (E.file filename)

/-- The loops of a command line. A `restore` inside of one is accepted where the line number
has run over to zero; `depth` bounds how often, as the stack does. -/
def loops (E : Env κ) : ℕ → Loops κ
  | 0 => ⟨assertFail, interactiveMode E⟩
  | depth + 1 => ⟨restore E (loops E depth), interactiveMode E⟩

def dsetParseStream (E : Env κ) (depth : ℕ) (source : Source) (stream : List UInt8) : Prog κ ℤ :=
  parseStream E (loops E depth) source stream

/-- `main`, with the arguments of the command line, fewer than `MAX_ARGS`. -/
def dsetMain (E : Env κ) (depth : ℕ) (argv : List Str) : Prog κ ℤ :=
  dsetParseArgv E (loops E depth) argv

end Dset.User
