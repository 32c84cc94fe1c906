import Dset.User.ParseArgv

/-! Questions to the kernel: the protocol version, the type of a set, the revisions of a type.
They leave the message under construction alone, and the data blob apart from what it says
about the type. -/

namespace Dset.User

open Dset.Lib Dset.Core

variable {κ : Type}

/-! ### What a blob says apart from the type -/

/-- The options that looking up a type stores. -/
def typeOpts : Finset Opt := {.typename, .type, .family, .revision, .revisionMin}

namespace Data

/-- The blob without what looking up a type stores. -/
def forget (d : Data) : Data :=
  { d with bits := d.bits \ typeOpts, type := none, typename := emptyName, revisionMin := 0,
           revision := 0 }

variable (d : Data)

theorem forget_mark_of_mem {o : Opt} (h : o ∈ typeOpts) : (d.mark o).forget = d.forget := by
  simp only [forget, mark, Finset.insert_sdiff_of_mem _ h]

theorem forget_mark {o : Opt} (h : o ∉ typeOpts) : (d.mark o).forget = d.forget.mark o := by
  simp only [forget, mark, Finset.insert_sdiff_of_notMem _ h]

@[simp] theorem forget_setTypename (n : SetName) : (d.setTypename n).forget = d.forget :=
  forget_mark_of_mem _ (by decide)

@[simp] theorem forget_setRevision (v : ℕ) : (d.setRevision v).forget = d.forget :=
  forget_mark_of_mem _ (by decide)

@[simp] theorem forget_setRevisionMin (v : ℕ) : (d.setRevisionMin v).forget = d.forget :=
  forget_mark_of_mem _ (by decide)

@[simp] theorem forget_setType (t : DsetType) : (d.setType t).forget = d.forget :=
  forget_mark_of_mem _ (by decide)

@[simp] theorem forget_setFound (n : SetName) (v : ℕ) : (d.setFound n v).forget = d.forget := by
  rw [setFound, forget_mark_of_mem _ (by decide), forget_setRevision, forget_setTypename]

@[simp] theorem forget_setSetname (n : SetName) :
    (d.setSetname n).forget = d.forget.setSetname n := forget_mark _ (by decide)

@[simp] theorem forget_setSetname2 (n : SetName) :
    (d.setSetname2 n).forget = d.forget.setSetname2 n := forget_mark _ (by decide)

@[simp] theorem forget_setDomain (s : Str) :
    (d.setDomain s).forget = d.forget.setDomain s := forget_mark _ (by decide)

@[simp] theorem forget_setTimeout (v : ℕ) :
    (d.setTimeout v).forget = d.forget.setTimeout v := forget_mark _ (by decide)

theorem forget_setCreate {o : Opt} (h : o ∉ typeOpts) (v : ℕ) :
    (d.setCreate o v).forget = d.forget.setCreate o v := forget_mark _ h

@[simp] theorem forget_reset : Data.reset.forget = Data.reset := rfl

theorem test_forget {o : Opt} (h : o ∉ typeOpts) : d.forget.test o = d.test o := by
  simp [forget, test, h]

@[simp] theorem getSetname_forget : d.forget.getSetname = d.getSetname := by
  unfold getSetname
  rw [test_forget _ (by decide)]
  rfl

@[simp] theorem getSetname2_forget : d.forget.getSetname2 = d.getSetname2 := by
  unfold getSetname2
  rw [test_forget _ (by decide)]
  rfl

@[simp] theorem getDomain_forget : d.forget.getDomain = d.getDomain := by
  unfold getDomain
  rw [test_forget _ (by decide)]
  rfl

@[simp] theorem getTimeout_forget : d.forget.getTimeout = d.getTimeout := by
  unfold getTimeout
  rw [test_forget _ (by decide)]
  rfl

theorem getCreate_forget {o : Opt} (h : o ∉ typeOpts) : d.forget.getCreate o = d.getCreate o := by
  unfold getCreate
  rw [test_forget _ h]
  rfl

end Data

/-! ### What a question leaves alone -/

/-- The part of the process that reading a command line leaves alone: above all the message
under construction. -/
structure Pending where
  errorFns : ErrorFns
  interactive : Bool
  restoreLine : ℕ
  setlist : List CachedSet
  stdin : List UInt8
  cmd : Cmd
  printedSet : ℕ
  savedSetname : SetName
  savedType : Option DsetType
  nested : List Nest
  out : Outbuf
  sort : Bool
  fullIo : Bool
  bufsize : ℕ
  buffer : Option Nlmsg

/-- The part of the process that a question to the kernel leaves alone. -/
structure Steady extends Pending where
  filename : Option Str
  istream : Bool
  mode : OutputMode
  envopts : EnvOpts

def Process.pending (d : Process κ) : Pending where
  errorFns := d.errorFns
  interactive := d.interactive
  restoreLine := d.restoreLine
  setlist := d.setlist
  stdin := d.stdin
  cmd := d.session.cmd
  printedSet := d.session.printedSet
  savedSetname := d.session.savedSetname
  savedType := d.session.savedType
  nested := d.session.nested
  out := d.session.out
  sort := d.session.sort
  fullIo := d.session.fullIo
  bufsize := d.session.bufsize
  buffer := d.session.buffer

def Process.steady (d : Process κ) : Steady where
  toPending := d.pending
  filename := d.filename
  istream := d.istream
  mode := d.session.mode
  envopts := d.session.envopts

def Cmd.isQuery (c : Cmd) : Bool := c = .protocol || c = .header || c = .type

def Env.OneDatagram (E : Env κ) : Prop := ∀ k nlh, (E.answer k nlh).1.length = 1

/-- Nothing was sent but questions. -/
structure Asked (E : Env κ) (d d' : Process κ) : Prop where
  sent : ∃ l, d'.sent = d.sent ++ l ∧ ∀ m ∈ l, m.1.cmd.isQuery = true
  stale : E.OneDatagram → d.session.stale = 0 → d'.session.stale = 0

theorem Asked.refl {E : Env κ} (d : Process κ) : Asked E d d where
  sent := ⟨[], (List.append_nil _).symm, fun _ h => absurd h List.not_mem_nil⟩
  stale := fun _ h => h

theorem Asked.trans {E : Env κ} {d d' d'' : Process κ} (h : Asked E d d') (h' : Asked E d' d'') :
    Asked E d d'' where
  sent := by
    obtain ⟨l, hl, hq⟩ := h.sent
    obtain ⟨l', hl', hq'⟩ := h'.sent
    refine ⟨l ++ l', by rw [hl', hl, List.append_assoc], fun m hm => ?_⟩
    rcases List.mem_append.mp hm with hm | hm
    · exact hq m hm
    · exact hq' m hm
  stale := fun h1 h0 => h'.stale h1 (h.stale h1 h0)

def Session.Quiet (s : Session) : Prop := s.report = [] ∧ s.errType = .noError

/-- A question that was answered left the line number and what the blob says apart from
the type. -/
structure Heard (d d' : Process κ) : Prop where
  lineno : d'.session.lineno = d.session.lineno
  data : d'.session.data.forget = d.session.data.forget
  quiet : d.session.Quiet → d'.session.Quiet

theorem Heard.refl (d : Process κ) : Heard d d := ⟨rfl, rfl, fun h => h⟩

theorem Heard.trans {d d' d'' : Process κ} (h : Heard d d') (h' : Heard d' d'') :
    Heard d d'' :=
  ⟨h'.lineno.trans h.lineno, h'.data.trans h.data, fun hq => h'.quiet (h.quiet hq)⟩

/-! ### The callbacks of a question -/

/-- What the callbacks of a question leave as it was when none of them fails; the protocol
version may be answered with a warning. -/
structure Told (d d' : Process κ) : Prop where
  lineno : d'.session.lineno = d.session.lineno
  data : d'.session.data.forget = d.session.data.forget
  quiet : d'.session.report = d.session.report ∧ d'.session.errType = d.session.errType ∨
    d.session.cmd = .protocol ∧ d'.session.errType = .warning

theorem Told.refl (d : Process κ) : Told d d := ⟨rfl, rfl, .inl ⟨rfl, rfl⟩⟩

structure Replied (d : Process κ) (ret : ℤ) (d' : Process κ) : Prop where
  steady : d'.steady = d.steady
  sent : d'.sent = d.sent
  stale : d'.session.stale = d.session.stale
  told : 0 ≤ ret → Told d d'

variable {E : Env κ} {d : Process κ} {X : ℕ → Process κ → Prop}

theorem failure_replied (r : Report) : Ends (failure r) d (Replied d) X :=
  ⟨rfl, rfl, rfl, fun h => absurd h (by decide)⟩

theorem return_replied (ret : ℤ) : Ends (pure ret) d (Replied d) X :=
  ⟨rfl, rfl, rfl, fun _ => Told.refl d⟩

theorem callbackVersion_replied (hcmd : d.session.cmd = .protocol) (max : ℕ) (nla : Nla) :
    Ends (callbackVersion max nla) d (Replied d) X := by
  simp only [callbackVersion, ends_bind, ends_ite, ends_session]
  refine ⟨fun _ => failure_replied _, fun _ => ⟨fun _ => ?_, fun _ => ?_⟩⟩
  · exact ⟨rfl, rfl, rfl, fun _ => ⟨rfl, rfl, .inr ⟨hcmd, rfl⟩⟩⟩
  · exact ⟨rfl, rfl, rfl, fun _ => ⟨rfl, rfl, .inl ⟨rfl, rfl⟩⟩⟩

theorem callbackHeader_replied (nla : Nla) : Ends (callbackHeader nla) d (Replied d) X := by
  simp only [callbackHeader, ends_bind, ends_session]
  cases nla.setname with
  | none => exact failure_replied _
  | some name =>
    simp only [ends_ite]
    refine ⟨fun _ => failure_replied _, fun _ => ?_⟩
    split
    · exact ⟨rfl, rfl, rfl, fun _ => ⟨rfl, Data.forget_setFound _ _ _, .inl ⟨rfl, rfl⟩⟩⟩
    · exact failure_replied _

theorem callbackType_replied (nla : Nla) : Ends (callbackType nla) d (Replied d) X := by
  simp only [callbackType, ends_bind, ends_session]
  split
  · simp only [ends_ite]
    refine ⟨fun _ => failure_replied _, fun _ => ?_⟩
    refine ⟨rfl, rfl, rfl, fun _ => ⟨rfl, ?_, .inl ⟨rfl, rfl⟩⟩⟩
    cases nla.protocolMin with
    | none => exact Data.forget_setFound _ _ _
    | some v => exact (Data.forget_setRevisionMin _ _).trans (Data.forget_setFound _ _ _)
  · exact failure_replied _

theorem callbackError_replied (hq : d.session.cmd.isQuery = true) (errno : ℕ)
    (quoted : Option Quoted) : Ends (callbackError E errno quoted) d (Replied d) X := by
  have hfailed (r : Report) (s : Session → Session) (hs : (d.mapSession s).steady = d.steady)
      (hstale : (s d.session).stale = d.session.stale) :
      Replied d mnlCbError (d.mapSession fun t => (s t).addReport .error r) :=
    ⟨hs, rfl, hstale, fun h => absurd h (by decide)⟩
  simp only [callbackError, ends_bind, ends_ite, ends_session, ends_pure]
  refine ⟨fun _ => ?_, fun _ => ⟨fun h => ?_, fun _ => ?_⟩⟩
  · simp only [callbackAcked, ends_bind, ends_session]
    revert hq
    cases d.session.cmd <;> intro hq <;>
      first | exact absurd hq (by decide) | exact failure_replied _
  · rw [h.1] at hq
    exact absurd hq (by decide)
  · simp only [decodeErrmsg, ends_bind, ends_session]
    cases quoted with
    | none => exact hfailed _ id rfl rfl
    | some q =>
      simp only [ends_ite]
      exact ⟨fun _ => hfailed _ id rfl rfl, fun _ => ⟨fun _ => hfailed _ id rfl rfl,
        fun _ => hfailed _ (fun s => { s with lineno := q.lineno.getD s.lineno }) rfl rfl⟩⟩

theorem callbackData_replied {list : Cmd → Nla → Prog κ ℤ} (hq : d.session.cmd.isQuery = true)
    (cmd : Cmd) (multi : Bool) (nla : Option Nla) :
    Ends (callbackData E list cmd multi nla) d (Replied d) X := by
  simp only [callbackData, ends_bind, ends_session, ends_ite]
  generalize hc : (if cmd = .list ∧ d.session.cmd = .save then Cmd.save else cmd) = c
  refine ⟨fun _ => failure_replied _, fun heq => ?_⟩
  rw [not_not] at heq
  subst heq
  cases nla with
  | none => exact failure_replied _
  | some nla =>
    dsimp only
    cases nla.protocol with
    | none => exact failure_replied _
    | some proto =>
      simp only [ends_ite]
      refine ⟨fun _ => failure_replied _, fun _ => ?_⟩
      cases hcmd : d.session.cmd <;> rw [hcmd] at hq <;> first
        | exact absurd hq (by decide)
        | exact callbackHeader_replied _
        | exact callbackType_replied _
        | (simp only [ends_ite]
           exact ⟨fun _ => return_replied _, fun _ => callbackVersion_replied hcmd _ _⟩)

theorem callback_replied {list : Cmd → Nla → Prog κ ℤ} (hq : d.session.cmd.isQuery = true)
    (m : KMsg) : Ends (callback E list m) d (Replied d) X := by
  cases m with
  | noop => exact return_replied _
  | error errno quoted => exact callbackError_replied hq errno quoted
  | done ret =>
    simp only [callback, callbackDone, ends_bind, ends_session, ends_ite]
    refine ⟨fun h => ?_, fun _ => failure_replied _⟩
    rcases h with h | h <;> rw [h] at hq <;> exact absurd hq (by decide)
  | data cmd multi nla => exact callbackData_replied hq cmd multi nla

/-! ### Asking -/

theorem Told.trans {d' d'' : Process κ} (hcmd : d'.session.cmd = d.session.cmd) (h : Told d d')
    (h' : Told d' d'') : Told d d'' where
  lineno := h'.lineno.trans h.lineno
  data := h'.data.trans h.data
  quiet := by
    rcases h'.quiet with ⟨hr, he⟩ | ⟨hp, hw⟩
    · rw [hr, he]
      exact h.quiet
    · exact .inr ⟨hcmd ▸ hp, hw⟩

theorem steady_cmd {d d' : Process κ} (h : d'.steady = d.steady) :
    d'.session.cmd = d.session.cmd := congrArg (·.cmd) h

theorem Replied.trans {ret ret' : ℤ} {d' d'' : Process κ} (h : Replied d ret d') (hpos : 0 < ret)
    (h' : Replied d' ret' d'') : Replied d ret' d'' where
  steady := h'.steady.trans h.steady
  sent := h'.sent.trans h.sent
  stale := h'.stale.trans h.stale
  told := fun hret => Told.trans (steady_cmd h.steady) (h.told hpos.le) (h'.told hret)

theorem mnlCbRun2_replied (list : Cmd → Nla → Prog κ ℤ) (hq : d.session.cmd.isQuery = true)
    (l : List KMsg) : Ends (mnlCbRun2 (callback E list) l) d (Replied d) fun _ _ => True := by
  induction l generalizing d with
  | nil => exact return_replied _
  | cons m l ih =>
    simp only [mnlCbRun2, ends_bind, ends_ite, ends_pure]
    refine (callback_replied hq m).mono (fun ret d' h => ⟨fun _ => h, fun hpos => ?_⟩)
      fun _ _ h => h
    refine (ih (steady_cmd h.steady ▸ hq)).mono (fun ret' d'' h' => ?_) fun _ _ h => h
    exact h.trans (not_le.mp hpos) h'

/-- The end of receiving the answer to a question. -/
structure Received (d : Process κ) (n : ℕ) (ret : ℤ) (d' : Process κ) : Prop where
  steady : d'.steady = d.steady
  sent : d'.sent = d.sent
  stale : d'.session.stale = d.session.stale ∨ d'.session.stale < n
  told : 0 ≤ ret → Told d d'

theorem mnlRecv_received (list : Cmd → Nla → Prog κ ℤ) (hq : d.session.cmd.isQuery = true)
    (datagrams : List (List KMsg)) :
    Ends (mnlRecv (callback E list) datagrams) d (Received d datagrams.length)
      fun _ _ => True := by
  induction datagrams generalizing d with
  | nil => exact ⟨rfl, rfl, .inl rfl, fun h => absurd h (by decide)⟩
  | cons datagram l ih =>
    simp only [mnlRecv, ends_bind, ends_modifySession, ends_ite, ends_pure]
    have hrun := mnlCbRun2_replied (E := E) list
      (d := d.mapSession fun s => { s with stale := l.length }) hq datagram
    refine hrun.mono (fun ret d' h => ⟨fun _ => ?_, fun hpos => ?_⟩) fun _ _ h => h
    · exact ⟨h.steady, h.sent, .inr (h.stale ▸ Nat.lt_succ_self l.length),
        fun hret => ⟨(h.told hret).lineno, (h.told hret).data, (h.told hret).quiet⟩⟩
    · refine (ih (steady_cmd h.steady ▸ hq)).mono (fun ret' d'' h' => ?_) fun _ _ h => h
      refine ⟨h'.steady.trans h.steady, h'.sent.trans h.sent, .inr ?_, fun hret => ?_⟩
      · have hstale : d'.session.stale = l.length := h.stale
        have := h'.stale
        rw [List.length_cons]
        omega
      · have htold := Told.trans (steady_cmd h.steady) (h.told (not_le.mp hpos).le) (h'.told hret)
        exact ⟨htold.lineno, htold.data, htold.quiet⟩

theorem dsetMnlQuery_asked {list : Cmd → Nla → Prog κ ℤ} (hq : d.session.cmd.isQuery = true)
    {nlh : Nlmsg} (hcmd : nlh.cmd.isQuery = true) :
    Ends (dsetMnlQuery E (callback E list) nlh) d
      (fun ret d' => d'.steady = d.steady ∧ Asked E d d' ∧ (0 ≤ ret → Told d d'))
      fun _ _ => True := by
  have hsent (d' : Process κ) (datagrams : List (List KMsg))
      (h : d'.sent = d.sent ++ [(nlh, datagrams)]) :
      ∃ l, d'.sent = d.sent ++ l ∧ ∀ m ∈ l, m.1.cmd.isQuery = true := by
    refine ⟨_, h, fun m hm => ?_⟩
    rw [List.mem_singleton.mp hm]
    exact hcmd
  simp only [dsetMnlQuery, ends_bind, ends_ext, ends_ite, ends_get, ends_set, ends_pure,
    ends_modifySession]
  refine ⟨fun _ => ⟨fun hstale => ?_, fun hstale => ?_⟩, fun _ => ?_⟩
  · have hrecv := mnlRecv_received (E := E) list
      (d := { d with
        kernel := (E.answer d.kernel nlh).2
        sent := d.sent ++ [(nlh, (E.answer d.kernel nlh).1)]
        calls := d.calls + 1 }) hq (E.answer d.kernel nlh).1
    refine hrecv.mono (fun ret d' h => ?_) fun _ _ h => h
    refine ⟨h.steady, ⟨hsent d' _ h.sent, fun hone h0 => ?_⟩, fun hret => ?_⟩
    · have h1 := hone d.kernel nlh
      rcases h.stale with hs | hs
      · exact hs.trans h0
      · omega
    · exact ⟨(h.told hret).lineno, (h.told hret).data, (h.told hret).quiet⟩
  · exact ⟨rfl, ⟨hsent _ _ rfl, fun _ h0 => absurd h0 hstale⟩, fun h => absurd h (by decide)⟩
  · refine ⟨rfl, ⟨⟨[], (List.append_nil _).symm, ?_⟩, fun _ h0 => h0⟩, fun h => ?_⟩
    · exact fun _ h => absurd h List.not_mem_nil
    · exact absurd h (by decide)

structure PrivateEnd (E : Env κ) (cmd : Cmd) (d : Process κ) (ret : ℤ) (d' : Process κ) : Prop where
  steady : d'.steady = d.steady
  asked : Asked E d d'
  lineno : 0 ≤ ret → d'.session.lineno = d.session.lineno
  data : 0 ≤ ret → d'.session.data.forget = d.session.data.forget
  quiet : 0 ≤ ret →
    d'.session.report = d.session.report ∧ d'.session.errType = d.session.errType ∨
      cmd = .protocol ∧ d'.session.errType = .warning

theorem sendPrivateMsg_told {cmd : Cmd} (hq : cmd.isQuery = true) {nlh : Nlmsg}
    (hcmd : nlh.cmd.isQuery = true) :
    Ends (sendPrivateMsg E cmd nlh) d (PrivateEnd E cmd d) fun _ _ => True := by
  simp only [sendPrivateMsg, ends_bind, ends_session, ends_modifySession, ends_pure]
  refine (dsetMnlQuery_asked (d := d.mapSession fun s => { s with cmd := cmd }) hq hcmd).mono
    (fun ret d' h => ?_) fun _ _ h => h
  obtain ⟨hsteady, hasked, htold⟩ := h
  refine ⟨?_, ⟨hasked.sent, hasked.stale⟩, fun h => (htold h).lineno, fun h => (htold h).data,
    fun h => (htold h).quiet⟩
  exact congrArg (fun s : Steady => { s with cmd := d.session.cmd }) hsteady

theorem dsetErr_told (cmd : Cmd) (r : Report) :
    Ends (Prog.dsetErr r) d (PrivateEnd E cmd d) fun _ _ => True := by
  have habs : ¬ (0 : ℤ) ≤ -1 := by decide
  exact ⟨rfl, ⟨(Asked.refl (E := E) d).sent, fun _ h => h⟩, fun h => absurd h habs,
    fun h => absurd h habs, fun h => absurd h habs⟩

theorem buildSendPrivateMsg_told (cmd : Cmd) :
    Ends (buildSendPrivateMsg E cmd) d (PrivateEnd E cmd d) fun _ _ => True := by
  simp only [buildSendPrivateMsg, ends_bind, ends_session]
  cases cmd with
  | protocol => exact sendPrivateMsg_told rfl rfl
  | header =>
    cases d.session.data.getSetname with
    | none => exact dsetErr_told _ _
    | some name =>
      refine sendPrivateMsg_told rfl ?_
      unfold Nlmsg.addattr Nlmsg.rawdata2attr
      split <;> rfl
  | type =>
    simp only [ends_ite]
    refine ⟨fun _ => ?_, fun _ => dsetErr_told _ _⟩
    cases d.session.data.getTypename with
    | none => trivial
    | some typename =>
      refine sendPrivateMsg_told rfl ?_
      unfold Nlmsg.addattr Nlmsg.rawdata2attr
      split <;> rfl
  | _ => exact dsetErr_told _ _

/-- The end of a program that asks the kernel before a command is built: on success the blob
says what it said. -/
structure Asks (E : Env κ) (d : Process κ) (ok : Prop) (d' : Process κ) : Prop where
  steady : d'.steady = d.steady
  asked : Asked E d d'
  heard : ok → Heard d d'

theorem Asks.refl (ok : Prop) : Asks E d ok d := ⟨rfl, Asked.refl d, fun _ => Heard.refl d⟩

theorem Asks.trans {p q : Prop} {d' d'' : Process κ} (h : Asks E d p d') (hp : p)
    (h' : Asks E d' q d'') : Asks E d q d'' :=
  ⟨h'.steady.trans h.steady, h.asked.trans h'.asked, fun hq => (h.heard hp).trans (h'.heard hq)⟩

theorem Asks.fails {p q : Prop} {d' : Process κ} (h : Asks E d p d') (hq : ¬ q) : Asks E d q d' :=
  ⟨h.steady, h.asked, fun h' => absurd h' hq⟩

theorem PrivateEnd.asks {cmd : Cmd} (hcmd : cmd ≠ .protocol) {ret : ℤ} {d' : Process κ}
    (h : PrivateEnd E cmd d ret d') : Asks E d (0 ≤ ret) d' := by
  refine ⟨h.steady, h.asked, fun hret => ⟨h.lineno hret, h.data hret, fun hquiet => ?_⟩⟩
  rcases h.quiet hret with ⟨hr, he⟩ | ⟨hp, _⟩
  · exact ⟨hr.trans hquiet.1, he.trans hquiet.2⟩
  · exact absurd hp hcmd

/-- The start of a command opens the session and checks the protocol, once. -/
theorem openSession_asks {cmd : Cmd} (hcmd : cmd ≠ .none) :
    Ends (openSession E cmd) d (fun ok d' => Asks E d (ok = true) d') fun _ _ => True := by
  have hfail (d' : Process κ) (hs : d'.steady = d.steady) (ha : Asked E d d') :
      Asks E d (false = true) d' := ⟨hs, ha, fun h => absurd h Bool.false_ne_true⟩
  have hopen (d1 : Process κ) (hs : d1.steady = d.steady) (ha : Asked E d d1)
      (hh : Heard d d1) :
      Ends (do
        Prog.modifySession fun s => { s with handle := true }
        if (← Prog.session).versionChecked then return true
        else if (← buildSendPrivateMsg E .protocol) < 0 then return false
        else
          if (← Prog.session).errType = .warning ∧ cmd ≠ .none then
            Prog.modifySession (·.reportReset)
          return true) d1 (fun ok d' => Asks E d (ok = true) d') fun _ _ => True := by
    simp only [ends_bind, ends_modifySession, ends_session, ends_ite, ends_pure]
    refine ⟨fun _ => ⟨hs, ⟨ha.sent, ha.stale⟩, fun _ => ⟨hh.lineno, hh.data, hh.quiet⟩⟩, fun _ => ?_⟩
    refine (buildSendPrivateMsg_told .protocol).mono (fun ret d2 h => ?_) fun _ _ h => h
    have ha2 : Asked E d d2 := ha.trans ⟨h.asked.sent, h.asked.stale⟩
    have hs2 : d2.steady = d.steady := h.steady.trans hs
    refine ⟨fun _ => hfail d2 hs2 ha2, fun hret => ?_⟩
    have hret' : 0 ≤ ret := not_lt.mp hret
    have hlineno : d2.session.lineno = d.session.lineno := (h.lineno hret').trans hh.lineno
    have hdata : d2.session.data.forget = d.session.data.forget := (h.data hret').trans hh.data
    refine ⟨fun hw => ?_, fun hw => ?_⟩
    · exact ⟨hs2, ⟨ha2.sent, ha2.stale⟩, fun _ => ⟨hlineno, hdata, fun _ => ⟨rfl, rfl⟩⟩⟩
    · refine ⟨hs2, ha2, fun _ => ⟨hlineno, hdata, fun hquiet => ?_⟩⟩
      have hquiet1 := hh.quiet hquiet
      rcases h.quiet hret' with ⟨hr, he⟩ | ⟨_, hwarn⟩
      · exact ⟨hr.trans hquiet1.1, he.trans hquiet1.2⟩
      · exact absurd ⟨hwarn, hcmd⟩ hw
  have hopened := hopen d rfl (Asked.refl d) (Heard.refl d)
  have hext : Asked E d { d with calls := d.calls + 1 } :=
    ⟨(Asked.refl (E := E) d).sent, fun _ h => h⟩
  have hcalled := hopen { d with calls := d.calls + 1 } rfl hext ⟨rfl, rfl, fun h => h⟩
  simp only [ends_bind, ends_modifySession, ends_session, ends_ite, ends_pure] at hopened hcalled
  simp only [openSession, ends_bind, ends_modifySession, ends_session, ends_ite, ends_pure, ends_ext]
  refine ⟨fun _ => ⟨fun h => absurd h (by decide), fun _ => hopened⟩, fun _ => ⟨fun _ => ?_, fun _ => hcalled⟩⟩
  exact hfail _ rfl ⟨hext.sent, hext.stale⟩

theorem dsetPrivateCmd_asks {cmd : Cmd} (hcmd : cmd = .type ∨ cmd = .header) :
    Ends (dsetPrivateCmd E cmd) d (fun ret d' => Asks E d (0 ≤ ret) d') fun _ _ => True := by
  have hnone : cmd ≠ .none := by rcases hcmd with rfl | rfl <;> decide
  have hproto : cmd ≠ .protocol := by rcases hcmd with rfl | rfl <;> decide
  simp only [dsetPrivateCmd, ends_bind, ends_ite, ends_pure]
  refine (openSession_asks hnone).mono (fun ok d1 h => ⟨fun hok => ?_, fun _ => ?_⟩) fun _ _ h => h
  · refine (buildSendPrivateMsg_told cmd).mono (fun ret d2 h' => ?_) fun _ _ h => h
    exact h.trans hok (h'.asks hproto)
  · exact h.fails (by decide)

structure TypeFound (E : Env κ) (d : Process κ) (type : Option DsetType) (d' : Process κ) :
    Prop where
  asks : Asks E d (type.isSome = true) d'
  stored : type.isSome = true → d'.session.data.getType = type

theorem TypeFound.of_asks {ok : Prop} {d' d'' : Process κ} (h : Asks E d ok d')
    (hsteady : d''.steady = d'.steady) (hasked : Asked E d' d'') :
    TypeFound E d none d'' where
  asks := ⟨hsteady.trans h.steady, h.asked.trans hasked, fun h => absurd h (by decide)⟩
  stored := fun h => absurd h (by decide)

theorem dsetErrptr_found {ok : Prop} {d' : Process κ} (h : Asks E d ok d') (r : Report) :
    Ends (dsetErrptr r) d' (TypeFound E d) fun _ _ => True :=
  TypeFound.of_asks h rfl ⟨(Asked.refl (E := E) d').sent, fun _ h => h⟩

theorem setType_found {d' d'' : Process κ} (h : Asks E d True d') (t : DsetType)
    (hsession : d''.session = { d'.session with data := d'.session.data.setType t })
    (hsteady : d''.steady = d'.steady) (hsent : d''.sent = d'.sent) :
    TypeFound E d (some t) d'' where
  asks := by
    have hh := h.heard trivial
    refine ⟨hsteady.trans h.steady, ⟨?_, fun h1 h0 => ?_⟩, fun _ => ⟨?_, ?_, fun hq => ?_⟩⟩
    · rw [hsent]
      exact h.asked.sent
    · rw [hsession]
      exact h.asked.stale h1 h0
    · rw [hsession]
      exact hh.lineno
    · rw [hsession]
      exact (Data.forget_setType _ _).trans hh.data
    · rw [hsession]
      exact hh.quiet hq
  stored := fun _ => by
    rw [hsession]
    unfold Data.getType
    rw [Data.test_setType, decide_eq_true rfl, Bool.true_or, if_pos rfl]
    rfl

theorem createTypeGet_found : Ends (createTypeGet E) d (TypeFound E d) fun _ _ => True := by
  simp only [createTypeGet, ends_bind, ends_session]
  cases d.session.data.getTypename with
  | none => trivial
  | some typename =>
    simp only [ends_bind, ends_get, ends_ite, ends_modifyData, ends_pure]
    refine ⟨fun _ => dsetErrptr_found (Asks.refl True) _, fun _ => ⟨fun _ => ?_, fun _ => ?_⟩⟩
    · exact setType_found (Asks.refl True) _ rfl rfl rfl
    · refine (dsetPrivateCmd_asks (.inl rfl)).mono (fun ret d1 h => ⟨fun _ => ?_, fun hret => ?_⟩)
        fun _ _ h => h
      · exact TypeFound.of_asks h rfl (Asked.refl _)
      · rw [not_not] at hret
        have h1 : Asks E d True d1 := ⟨h.steady, h.asked, fun _ => h.heard hret.ge⟩
        simp only [ends_session]
        cases d1.session.data.getRevision with
        | none => trivial
        | some kmax =>
          simp only [ends_ite, ends_bind, ends_modify, ends_modifyData, ends_pure]
          exact ⟨fun _ => dsetErrptr_found h1 _, fun _ => setType_found h1 _ rfl rfl rfl⟩

theorem adtTypeGet_found : Ends (adtTypeGet E) d (TypeFound E d) fun _ _ => True := by
  simp only [adtTypeGet, ends_bind, ends_session]
  cases d.session.data.getSetname with
  | none => trivial
  | some name =>
    simp only [ends_bind, ends_get]
    cases d.setlist.find? (·.name = name) with
    | some s =>
      simp only [ends_bind, ends_modifyData, ends_pure]
      exact setType_found (Asks.refl True) _ rfl rfl rfl
    | none =>
      simp only [ends_bind, ends_ite, ends_pure]
      refine (dsetPrivateCmd_asks (.inr rfl)).mono (fun ret d1 h => ⟨fun _ => ?_, fun hret => ?_⟩)
        fun _ _ h => h
      · exact TypeFound.of_asks h rfl (Asked.refl _)
      · rw [not_not] at hret
        have h1 : Asks E d True d1 := ⟨h.steady, h.asked, fun _ => h.heard hret.ge⟩
        simp only [ends_session]
        split
        · simp only [ends_bind, ends_get, ends_ite, ends_modify, ends_modifyData, ends_pure]
          exact ⟨fun _ => setType_found h1 _ rfl rfl rfl, fun _ => dsetErrptr_found h1 _⟩
        · trivial

theorem dsetTypeGetCreate_found :
    Ends (dsetTypeGetCreate E) d (TypeFound E d) fun _ _ => True := by
  simp only [dsetTypeGetCreate, ends_bind, ends_session, ends_ite, ends_pure]
  refine ⟨fun _ => ?_, fun _ => createTypeGet_found⟩
  exact ⟨Asks.refl _, fun _ => rfl⟩

end Dset.User
