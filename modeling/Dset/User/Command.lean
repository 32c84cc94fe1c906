import Dset.User.Listing

/-! Commands of the library (`session.c`, `mnl.c`, `types.c`): the callbacks that read the
kernel's answers, the messages of a command, and the buffer in which the adds and deletes
of a restore are collected. -/

namespace Dset.User

open Dset.Lib Dset.Core

variable {κ : Type}

def dsetProtocolMax : ℕ := dsetProtocol

/-! ### Callbacks -/

def callbackVersion (max : ℕ) (nla : Nla) : Prog κ ℤ := do
  let min := nla.protocolMin.getD max
  if dsetProtocolMax < min ∨ max < dsetProtocolMin then failure (.protocolVersions min max)
  else
    let quiet := (← Prog.session).envopts.quiet
    if !quiet && max != dsetProtocolMax then
      let _ ← Prog.dsetWarn (.protocolVersions min max)
    Prog.modifySession fun s => { s with
      protocol := Nat.min max dsetProtocolMax, versionChecked := true }
    return mnlCbStop

/-- `ATTR2DATA` of the type a message names. -/
def Data.setFound (d : Data) (typename : SetName) (revision : ℕ) : Data :=
  ((d.setTypename typename).setRevision revision).mark .family

def callbackHeader (nla : Nla) : Prog κ ℤ := do
  let d := (← Prog.session).data
  match nla.setname with
  | none => failure (.brokenMessage .header)
  | some name =>
    if d.getSetname ≠ some name then failure (.brokenMessage .header)
    else
      match nla.typename, nla.revision, nla.family with
      | some typename, some revision, some _ =>
        Prog.modifyData (·.setFound typename revision)
        return mnlCbStop
      | _, _, _ => failure (.brokenMessage .header)

def callbackType (nla : Nla) : Prog κ ℤ := do
  let d := (← Prog.session).data
  match nla.typename, nla.revision, nla.family with
  | some typename, some revision, some _ =>
    if d.getTypename ≠ some typename then failure (.brokenMessage .type)
    else
      Prog.modifyData fun d =>
        let d := d.setFound typename revision
        nla.protocolMin.elim d d.setRevisionMin
      return mnlCbStop
  | _, _, _ => failure (.brokenMessage .type)

def callbackData (E : Env κ) (list : Cmd → Nla → Prog κ ℤ) (cmd : Cmd) (multi : Bool)
    (nla : Option Nla) : Prog κ ℤ := do
  let s ← Prog.session
  let cmd := if cmd = .list ∧ s.cmd = .save then .save else cmd
  if cmd ≠ s.cmd then failure (.unexpectedMessage s.cmd)
  else
    match nla with
    | none => failure (.brokenMessage cmd)
    | some nla =>
      match nla.protocol with
      | none => failure (.brokenMessage cmd)
      | some proto =>
        if cmd ≠ .protocol ∧ proto ≠ s.protocol then failure (.protocolVersions proto s.protocol)
        else
          match cmd with
          | .list | .save =>
            let ret ← list cmd nla
            if mnlCbStop ≤ ret && !multi then return (← printSetDone E false).getD mnlCbError
            else return ret
          | .protocol => if s.versionChecked then return mnlCbOk else callbackVersion proto nla
          | .header => callbackHeader nla
          | .type => callbackType nla
          | _ => failure (.unexpectedMessage s.cmd)

/-- `callback_done`; the code that the message carries is not looked at. A jump from here
finds no frame of `callback_list`, and ends the callback too. -/
def callbackDone (E : Env κ) : Prog κ ℤ := do
  let s ← Prog.session
  if s.cmd = .list ∨ s.cmd = .save then return (← printSetDone E true).getD mnlCbError
  else failure (.unexpectedMessage s.cmd)

/-- `dset_errcode`, and the line the kernel quotes (`decode_errmsg`). -/
def decodeErrmsg (errno : ℕ) (quoted : Option Quoted) : Prog κ ℤ := do
  let s ← Prog.session
  match quoted with
  | none => failure (.brokenMessage s.cmd)
  | some q =>
    if q.cmd ≠ s.cmd then failure (.unexpectedMessage s.cmd)
    else if !q.protocol then failure (.brokenMessage s.cmd)
    else
      Prog.modifySession fun s => { s with lineno := q.lineno.getD s.lineno }
      Prog.dsetErr (.kernelError s.cmd errno)

def dsetErrExist : ℕ := 4103

/-- `callback_error` at an acknowledgement. -/
def callbackAcked (E : Env κ) : Prog κ ℤ := do
  let s ← Prog.session
  match s.cmd with
  | .create =>
    match s.data.getSetname, s.data.getType with
    | some name, some type =>
      let malloc ← Prog.malloc E
      modify fun d => { d with setlist := (dsetCacheAdd malloc name type d.setlist).2 }
      return mnlCbStop
    | _, _ => assertFail
  | .destroy =>
    modify fun d => { d with setlist := (dsetCacheDel s.data.getSetname d.setlist).2 }
    return mnlCbStop
  | .flush | .add | .del => return mnlCbStop
  | .rename | .swap =>
    match s.data.getSetname, s.data.getSetname2.bind SetName.ofStr with
    | some name, some name2 =>
      modify fun d => { d with
        setlist := if s.cmd = .rename then (dsetCacheRename name name2 d.setlist).2
          else (dsetCacheSwap name name2 d.setlist).2 }
      return mnlCbStop
    | _, _ => assertFail
  | .test =>
    if s.envopts.quiet then return mnlCbStop
    else
      -- the element is printed in place of what the report buffer holds
      Prog.modifySession fun s => { s with report := [.elem (s.data.domaindata.take 255)] }
      let _ ← Prog.dsetWarn (.inSet s.data.getSetname)
      return mnlCbStop
  | .list | .save =>
    let _ ← printSetDone E true
    return mnlCbStop
  | _ => failure (.unexpectedMessage s.cmd)

def callbackError (E : Env κ) (errno : ℕ) (quoted : Option Quoted) : Prog κ ℤ := do
  if errno = 0 then callbackAcked E
  else
    let s ← Prog.session
    if s.cmd = .test ∧ errno = dsetErrExist then
      if s.envopts.quiet then return mnlCbError
      else
        Prog.modifySession fun s => { s with report := [.elem (s.data.domaindata.take 255)] }
        let _ ← Prog.dsetNotice (.notInSet s.data.getSetname)
        return mnlCbError
    else
      let _ ← decodeErrmsg errno quoted
      return mnlCbError

/-- `cb_ctl` and `callback_data`. -/
def callback (E : Env κ) (list : Cmd → Nla → Prog κ ℤ) : KMsg → Prog κ ℤ
  | .noop => return mnlCbOk
  | .error errno quoted => callbackError E errno quoted
  | .done _ => callbackDone E
  | .data cmd multi nla => callbackData E list cmd multi nla

/-! ### The transport -/

/-- `mnl_cb_run2` over the messages of one datagram. -/
def mnlCbRun2 (cb : KMsg → Prog κ ℤ) : List KMsg → Prog κ ℤ
  | [] => return mnlCbOk
  | m :: l => do
    let ret ← cb m
    if ret ≤ mnlCbStop then return ret else mnlCbRun2 cb l

/-- The loop of `dset_mnl_query`; without a further datagram receiving fails. -/
def mnlRecv (cb : KMsg → Prog κ ℤ) : List (List KMsg) → Prog κ ℤ
  | [] => return -1
  | datagram :: l => do
    Prog.modifySession fun s => { s with stale := l.length }
    let ret ← mnlCbRun2 cb datagram
    if ret ≤ 0 then return ret else mnlRecv cb l

/-- `dset_mnl_query`. A datagram of an earlier message comes first and is refused for its
sequence number. -/
def dsetMnlQuery (E : Env κ) (cb : KMsg → Prog κ ℤ) (nlh : Nlmsg) : Prog κ ℤ := do
  if ← Prog.ext E then
    let d ← get
    let (datagrams, kernel) := E.answer d.kernel nlh
    set { d with kernel := kernel, sent := d.sent ++ [(nlh, datagrams)] }
    if d.session.stale = 0 then mnlRecv cb datagrams
    else
      Prog.modifySession fun s => { s with stale := s.stale - 1 + datagrams.length }
      return -1
  else return -1

/-! ### Private commands -/

/-- `build_send_private_msg` with a message: the command of the session is put aside. -/
def sendPrivateMsg (E : Env κ) (cmd : Cmd) (nlh : Nlmsg) : Prog κ ℤ := do
  let saved := (← Prog.session).cmd
  Prog.modifySession fun s => { s with cmd := cmd }
  let ret ← dsetMnlQuery E (callback E fun cmd _ => failure (.unexpectedMessage cmd)) nlh
  Prog.modifySession fun s => { s with cmd := saved }
  return ret

def buildSendPrivateMsg (E : Env κ) (cmd : Cmd) : Prog κ ℤ := do
  let s ← Prog.session
  let nlh := Nlmsg.fillHdr cmd false
  match cmd with
  | .protocol => sendPrivateMsg E cmd (nlh.put (.protocol dsetProtocol))
  | .header =>
    match s.data.getSetname with
    | none => Prog.dsetErr (.invalidCommand .header .setname)
    | some name =>
      sendPrivateMsg E cmd
        ((nlh.put (.protocol s.protocol)).addattr s.bufsize dsetMaxnamelen (.setname name.text))
  | .type =>
    if s.data.test .typename then
      match s.data.getTypename with
      | none => assertFail
      | some typename =>
        sendPrivateMsg E cmd (((nlh.put (.protocol s.protocol)).addattr s.bufsize dsetMaxnamelen
          (.typename typename.text)).put (.family nfprotoUnspec))
    else Prog.dsetErr (.invalidCommand .type .typename)
  | _ => Prog.dsetErr (.unknownCommand cmd)

/-- The beginning of `dset_cmd`: the socket and the protocol version, once. -/
def openSession (E : Env κ) (cmd : Cmd) : Prog κ Bool := do
  let handle := (← Prog.session).handle
  let ok ← if handle then pure true else Prog.ext E
  if !ok then
    let _ ← Prog.dsetErr .cannotOpenSession
    return false
  else
    Prog.modifySession fun s => { s with handle := true }
    if (← Prog.session).versionChecked then return true
    else if (← buildSendPrivateMsg E .protocol) < 0 then return false
    else
      if (← Prog.session).errType = .warning ∧ cmd ≠ .none then
        Prog.modifySession (·.reportReset)
      return true

/-- `dset_cmd` with a private command. -/
def dsetPrivateCmd (E : Env κ) (cmd : Cmd) : Prog κ ℤ := do
  if ← openSession E cmd then buildSendPrivateMsg E cmd else return -1

/-! ### Types of sets -/

def dsetErrptr {α : Type} (r : Report) : Prog κ (Option α) := do
  let _ ← Prog.dsetErr r
  return none

/-- `create_type_get`, with one registered type. -/
def createTypeGet (E : Env κ) : Prog κ (Option DsetType) := do
  let found : Prog κ (Option DsetType) := do
    Prog.modifyData (·.setType dsetHashDomain0)
    return some dsetHashDomain0
  match (← Prog.session).data.getTypename with
  | none => assertFail
  | some typename =>
    let check := (← get).kernelCheck
    if check = .mismatch ∨ ¬ dsetMatchTypename typename.text then
      dsetErrptr (.typenameUnknown typename.text)
    else if check = .ok then found
    else if (← dsetPrivateCmd E .type) ≠ 0 then return none
    else
      let d := (← Prog.session).data
      match d.getRevision with
      | none => assertFail
      | some kmax =>
        let kmin := d.getRevisionMin.getD kmax
        if min dsetHashDomain0.revision kmax < max dsetHashDomain0.revision kmin then
          dsetErrptr (.kernelRevisions (if dsetHashDomain0.revision < kmin then kmin else kmax))
        else
          modify fun d => { d with kernelCheck := .ok }
          found

/-- `adt_type_get`, with one registered type. -/
def adtTypeGet (E : Env κ) : Prog κ (Option DsetType) := do
  match (← Prog.session).data.getSetname with
  | none => assertFail
  | some name =>
    match (← get).setlist.find? (·.name = name) with
    | some s =>
      Prog.modifyData (·.setType s.type)
      return some s.type
    | none =>
      if (← dsetPrivateCmd E .header) ≠ 0 then return none
      else
        let d := (← Prog.session).data
        match d.getTypename, d.getRevision with
        | some typename, some revision =>
          if (← get).kernelCheck ≠ .mismatch ∧ typename = dsetHashDomain0.name ∧
              revision = dsetHashDomain0.revision then
            modify fun d => { d with kernelCheck := .ok }
            Prog.modifyData (·.setType dsetHashDomain0)
            return some dsetHashDomain0
          else dsetErrptr .incompatible
        | _, _ => assertFail

/-- `dset_type_get` for `create`. -/
def dsetTypeGetCreate (E : Env κ) : Prog κ (Option DsetType) := do
  let d := (← Prog.session).data
  if d.test .type then return d.getType else createTypeGet E

/-! ### Messages of commands -/

namespace Data

variable (d : Data)

def adtAttrs : List Attr := d.getDomain.toList.map .domain ++ d.getTimeout.toList.map .timeout

def createAttrs : List Attr :=
  d.getDomain.toList.map .domain ++ d.getTimeout.toList.map .timeout ++
    (d.getCreate .gc).toList.map .gc ++ (d.getCreate .hashsize).toList.map .hashsize ++
    (d.getCreate .maxelem).toList.map .maxelem ++ (d.getCreate .elements).toList.map .elements ++
    (d.getCreate .references).toList.map .references ++ d.getMemsize.toList.map .memsize

end Data

inductive Built where
  | done (s : Session)
  /-- The buffer is full. -/
  | full (s : Session)
  | invalid (s : Session) (r : Report)

namespace Session

variable (s : Session)

def mayAggregateAd (cmd : Cmd) : Bool :=
  s.lineno ≠ 0 ∧ (cmd = .add ∨ cmd = .del) ∧ cmd = s.cmd ∧
    s.data.getSetname = some s.savedSetname

def setBuffer (nlh : Nlmsg) : Session := { s with buffer := some nlh }

/-- `open_nested` where the result is ignored. -/
def openNested (nlh : Nlmsg) (a : Attr) : Nlmsg × List Nest :=
  match nlh.openNested s.bufsize a with
  | none => (nlh, s.nested)
  | some (nlh, nest) => (nlh, nest :: s.nested)

def closeNested : Nlmsg × List Nest → Nlmsg × List Nest
  | (nlh, []) => (nlh, [])
  | (nlh, nest :: nested) => (nlh.nestEnd nest, nested)

def closeAll (nlh : Nlmsg) (nested : List Nest) : Nlmsg := nested.foldl Nlmsg.nestEnd nlh

def buildNames (nlh : Nlmsg) : Built :=
  match s.data.getSetname, s.data.getSetname2 with
  | none, _ => .invalid (s.setBuffer nlh) (.invalidCommand s.cmd .setname)
  | _, none => .invalid (s.setBuffer nlh) (.invalidCommand s.cmd .setname2)
  | some name, some name2 =>
    .done (s.setBuffer ((nlh.addattr s.bufsize dsetMaxnamelen (.setname name.text)).addattr s.bufsize
      dsetMaxnamelen (.setname2 name2)))

def buildCreate (nlh : Nlmsg) : Built :=
  match s.data.getSetname, s.data.getType with
  | none, _ => .invalid (s.setBuffer nlh) (.invalidCommand s.cmd .setname)
  | _, none => .invalid (s.setBuffer nlh) (.invalidCommand s.cmd .type)
  | some name, some type =>
    let nlh := (((nlh.addattr s.bufsize dsetMaxnamelen (.setname name.text)).addattr s.bufsize
      dsetMaxnamelen (.typename type.name.text)).addattr s.bufsize 1 (.revision type.revision)).put
      (.family nfprotoUnspec)
    let (nlh, nested) := s.openNested nlh .data
    let (nlh, nested) := closeNested (nlh.addattrsCreate s.bufsize s.data.createAttrs, nested)
    .done { s with buffer := some nlh, nested := nested }

/-- The name of the set, if one is stored. -/
def putSetname (nlh : Nlmsg) : Nlmsg :=
  match s.data.getSetname with
  | none => nlh
  | some name => nlh.addattr s.bufsize dsetMaxnamelen (.setname name.text)

def listFlags : ℕ :=
  (if s.envopts.listSetname then 2 else 0) + if s.envopts.listHeader then 4 else 0

def buildList (nlh : Nlmsg) : Built :=
  let nlh := s.putSetname nlh
  if s.listFlags ≠ 0 ∧ s.mode ≠ .save then
    .done { s with data := s.data.setFlags s.listFlags,
                   buffer := some (nlh.addattr s.bufsize 4 (.flags s.listFlags)) }
  else .done (s.setBuffer nlh)

def buildTest (nlh : Nlmsg) : Built :=
  match s.data.getSetname, s.data.getType with
  | none, _ => .invalid (s.setBuffer nlh) (.invalidCommand s.cmd .setname)
  | _, none => .invalid (s.setBuffer nlh) (.invalidCommand s.cmd .type)
  | some name, some _ =>
    let nlh := nlh.addattr s.bufsize dsetMaxnamelen (.setname name.text)
    let (nlh, nested) := s.openNested nlh .data
    let (nlh, nested) := closeNested (nlh.addattrsUpto s.bufsize s.data.adtAttrs, nested)
    .done { s with buffer := some nlh, nested := nested }

/-- The element of `add` and `del` behind the attributes of the message. -/
def buildItem (nlh : Nlmsg) (nested : List Nest) : Built :=
  match nlh.openNested s.bufsize .data with
  | none => .full { s with buffer := some nlh, nested := nested }
  | some (nlh, nest) =>
    match nlh.addattrs s.bufsize (s.data.adtAttrs ++ [.lineno s.lineno]) with
    | none => .full { s with buffer := some (nlh.nestCancel nest), nested := nested }
    | some nlh => .done { s with buffer := some (nlh.nestEnd nest), nested := nested }

def buildAdt (nlh : Nlmsg) (aggregate : Bool) : Built :=
  if aggregate then s.buildItem nlh s.nested
  else
    match s.data.getSetname, s.data.getType with
    | none, _ => .invalid (s.setBuffer nlh) (.invalidCommand s.cmd .setname)
    | _, none => .invalid (s.setBuffer nlh) (.invalidCommand s.cmd .type)
    | some name, some _ =>
      let nlh := nlh.addattr s.bufsize dsetMaxnamelen (.setname name.text)
      if s.lineno = 0 then s.buildItem nlh s.nested
      else
        let nlh := nlh.addattr s.bufsize 4 (.lineno s.lineno)
        let (nlh, nested) := s.openNested nlh .adt
        s.buildItem nlh nested

/-- The message in the buffer, or a new one. -/
def startMsg : Nlmsg :=
  s.buffer.getD ((Nlmsg.fillHdr s.cmd s.envopts.exist).put (.protocol s.protocol))

def buildMsg (aggregate : Bool) : Built :=
  let nlh := s.startMsg
  match s.cmd with
  | .create => s.buildCreate nlh
  | .destroy | .flush | .save => .done (s.setBuffer (s.putSetname nlh))
  | .list => s.buildList nlh
  | .rename | .swap => s.buildNames nlh
  | .add | .del => s.buildAdt nlh (aggregate && s.buffer.isSome)
  | .test => s.buildTest nlh
  | _ => .invalid (s.setBuffer nlh) (.unknownCommand s.cmd)

/-- A session behind `dset_commit`, whatever came of the message. -/
def committed : Session :=
  { s with savedSetname := emptyName, printedSet := 0, nested := [], buffer := none }

end Session

/-- `build_msg`, returning 1 for a full buffer. -/
def buildMsg (aggregate : Bool) : Prog κ ℤ := do
  match (← Prog.session).buildMsg aggregate with
  | .done s =>
    Prog.modifySession fun _ => s
    return 0
  | .full s =>
    Prog.modifySession fun _ => s
    return 1
  | .invalid s r =>
    Prog.modifySession fun _ => s
    Prog.dsetErr r

/-! ### Executing commands -/

def callbacks (E : Env κ) : KMsg → Prog κ ℤ := callback E (callbackList E (adtTypeGet E))

def dsetCommit (E : Env κ) : Prog κ ℤ := do
  let s ← Prog.session
  match s.buffer with
  | none => return 0
  | some nlh =>
    let ret ← dsetMnlQuery E (callbacks E) (Session.closeAll nlh s.nested)
    Prog.modifySession Session.committed
    if ret < 0 then
      if (← Prog.session).report ≠ [] then return -1
      else Prog.dsetErr .internalProtocolError
    else return 0

def Session.outputMode (s : Session) (cmd : Cmd) : OutputMode :=
  if s.mode ≠ .none then s.mode
  else if cmd = .list then .plain else if cmd = .save then .save else .none

/-- The output mode of `list` and `save`, and the start of an XML document. -/
def startOutput (E : Env κ) (cmd : Cmd) : Prog κ Unit := do
  Prog.modifySession fun s => { s with mode := s.outputMode cmd }
  if (cmd = .list ∨ cmd = .save) ∧ (← Prog.session).mode = .xml then
    if ← safeSnprintf E (bytes "<dsets>\n") then return ()
    -- there is no frame of `callback_list` to jump to
    else assertFail

/-- The message of a command, into an empty buffer if it does not fit behind what is there. -/
def buildOrCommit (E : Env κ) (aggregate : Bool) : Prog κ ℤ := do
  let ret ← buildMsg aggregate
  if ret ≤ 0 then return ret
  else
    -- the buffer is full, send what it holds
    let ret ← dsetCommit E
    if ret < 0 then return ret else buildMsg false

/-- `dset_cmd` from building the message to the end of the command. -/
def executeMsg (E : Env κ) (cmd : Cmd) (aggregate : Bool) : Prog κ ℤ := do
  let ret ← buildOrCommit E aggregate
  if ret < 0 then
    Prog.modifyData fun _ => Data.reset
    return ret
  else
    Prog.modifySession fun s => { s with savedType := s.data.getType }
    let s ← Prog.session
    if s.lineno ≠ 0 ∧ (cmd = .add ∨ cmd = .del) then
      match s.data.getSetname with
      | none => assertFail
      | some name =>
        Prog.modifySession fun s => { s with savedSetname := name, data := Data.reset }
        return 0
    else
      let ret ← dsetCommit E
      Prog.modifyData fun _ => Data.reset
      return ret

/-- The beginning of `dset_cmd`, which returns early or goes on: whether the command's message
is to be put behind the one in the buffer, which is sent otherwise. -/
def startCmd (E : Env κ) (cmd : Cmd) : Prog κ (Except ℤ Bool) := do
  if !(← openSession E cmd) then return .error (-1)
  else if cmd = .none then return .error 0
  else if (← Prog.session).mayAggregateAd cmd then return .ok true
  else
    let ret ← dsetCommit E
    return if ret < 0 then .error ret else .ok false

def dsetCmd (E : Env κ) (cmd : Cmd) (lineno : ℕ) : Prog κ ℤ := do
  if !cmd.isMsg then return 0
  else if cmd = .type ∨ cmd = .header then dsetPrivateCmd E cmd
  else
    match ← startCmd E cmd with
    | .error ret => return ret
    | .ok aggregate =>
      Prog.modifySession fun s => { s with cmd := cmd, lineno := lineno }
      startOutput E cmd
      executeMsg E cmd aggregate

end Dset.User
