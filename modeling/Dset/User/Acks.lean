import Dset.User.Single

/-! A kernel that acknowledges every change: the session is opened, and the message under
construction is sent and read as what was put into it. -/

namespace Dset.User

open Dset.Lib Dset.Core

variable {κ : Type} {E : Env κ} {d : Process κ}

/-! ### The kernel -/

/-- The commands that change sets. -/
def Cmd.changes : Cmd → Bool
  | .create | .destroy | .flush | .rename | .swap | .add | .del => true
  | _ => false

/-- Nothing fails: the kernel speaks the protocol of the library and acknowledges every change,
and the calls of outside functions succeed. -/
structure Env.Acks (E : Env κ) : Prop where
  succeeds : E.Succeeds
  oneDatagram : E.OneDatagram
  version : ∀ k nlh, nlh.cmd = .protocol → ∃ multi nla,
    (E.answer k nlh).1 = [[.data .protocol multi (some nla)]] ∧
      nla.protocol = some dsetProtocol ∧ nla.protocolMin.getD dsetProtocol ≤ dsetProtocol
  acks : ∀ k nlh, nlh.cmd.changes = true → ∃ quoted, (E.answer k nlh).1 = [[.error 0 quoted]]

/-! ### The start of a command -/

/-- The session is open: at most the version was asked for. -/
structure Opened (d d' : Process κ) : Prop where
  steady : d'.steady = d.steady
  sent : ∃ l, d'.sent = d.sent ++ l ∧ ∀ m ∈ l, m.1.cmd.isQuery = true
  stale : d'.session.stale = 0
  data : d'.session.data = d.session.data
  lineno : d'.session.lineno = d.session.lineno
  quiet : d.session.Quiet → d'.session.Quiet

/-- The process behind a message, before its answer is read. -/
def Process.sendTo (E : Env κ) (nlh : Nlmsg) (d : Process κ) : Process κ :=
  { d with
    kernel := (E.answer d.kernel nlh).2
    sent := d.sent ++ [(nlh, (E.answer d.kernel nlh).1)]
    calls := d.calls + 1 }

/-- A message with one answer, at which reading stops. -/
theorem dsetMnlQuery_answered (hext : E.Succeeds)
    (hstale : d.session.stale = 0) {cb : KMsg → Prog κ ℤ} {nlh : Nlmsg} {m : KMsg}
    (hanswer : (E.answer d.kernel nlh).1 = [[m]]) {Q : ℤ → Process κ → Prop}
    {X : ℕ → Process κ → Prop}
    (h : Ends (cb m) (d.sendTo E nlh) (fun ret d' => ret ≤ 0 ∧ Q ret d') X) :
    Ends (dsetMnlQuery E cb nlh) d Q X := by
  have hsession : (d.sendTo E nlh).mapSession (fun s => { s with stale := 0 }) =
      d.sendTo E nlh := by
    show { d.sendTo E nlh with session := { d.session with stale := 0 } } = _
    rw [← hstale]
    rfl
  have hrecv : Ends (mnlRecv cb [[m]]) (d.sendTo E nlh) Q X := by
    simp only [mnlRecv, mnlCbRun2, ends_bind, ends_modifySession, List.length_nil, hsession]
    apply h.mono _ fun _ _ h => h
    rintro ret d' ⟨hle, hQ⟩
    rw [if_pos (show ret ≤ mnlCbStop from hle)]
    show Ends (if ret ≤ 0 then _ else _) d' Q X
    rw [if_pos hle]
    exact hQ
  simp only [dsetMnlQuery, ends_bind, ends_ext, ends_ite, ends_get, ends_set, hstale]
  refine ⟨fun _ => ⟨fun _ => ?_, fun hne => absurd trivial hne⟩, fun hno => absurd (hext _) hno⟩
  rw [hanswer]
  exact (congrArg (fun l => Ends (mnlRecv cb [[m]]) { d.sendTo E nlh with
    sent := d.sent ++ [(nlh, l)] } Q X) hanswer).mp hrecv

theorem dsetMnlQuery_one (hext : E.Succeeds) (hstale : d.session.stale = 0)
    {cb : KMsg → Prog κ ℤ} {nlh : Nlmsg} {m : KMsg} (hanswer : (E.answer d.kernel nlh).1 = [[m]])
    {Q : ℤ → Process κ → Prop} {X : ℕ → Process κ → Prop}
    (h : Ends (cb m) (d.sendTo E nlh) (fun ret d' => ret = 0 ∧ Q 0 d') X) :
    Ends (dsetMnlQuery E cb nlh) d Q X := by
  apply dsetMnlQuery_answered hext hstale hanswer
  apply h.mono _ fun _ _ h => h
  rintro ret d' ⟨rfl, hQ⟩
  exact ⟨le_rfl, hQ⟩

theorem callback_version (hcmd : d.session.cmd = .protocol)
    (hversion : d.session.versionChecked = false) {list : Cmd → Nla → Prog κ ℤ} {multi : Bool}
    {nla : Nla} (hproto : nla.protocol = some dsetProtocol)
    (hmin : nla.protocolMin.getD dsetProtocol ≤ dsetProtocol) {X : ℕ → Process κ → Prop} :
    Ends (callback E list (.data .protocol multi (some nla))) d
      (fun ret d' => ret = 0 ∧
        d' = d.mapSession fun s => { s with protocol := dsetProtocol, versionChecked := true })
      X := by
  have hlist : ¬ (Cmd.protocol = .list ∧ Cmd.protocol = .save) := by decide
  simp only [callback, callbackData, ends_bind, ends_session, hcmd, hproto]
  rw [if_neg hlist, if_neg (not_not.mpr rfl), if_neg (fun h => h.1 rfl), hversion]
  simp only [callbackVersion, ends_bind, ends_session, ends_ite, ends_modifySession, ends_pure]
  refine ⟨fun h => absurd h Bool.false_ne_true, fun _ => ⟨fun h => ?_, fun _ =>
    ⟨fun h => ?_, fun _ => ⟨rfl, rfl⟩⟩⟩⟩
  · rcases h with h | h
    · exact absurd h (not_lt.mpr hmin)
    · exact absurd h (by decide)
  · rw [show (dsetProtocol != dsetProtocolMax) = false by decide, Bool.and_false] at h
    cases h

theorem protocol_answered (hE : E.Acks) (hstale : d.session.stale = 0)
    (hversion : d.session.versionChecked = false) :
    Ends (buildSendPrivateMsg E .protocol) d
      (fun ret d' => ret = 0 ∧ Opened d d' ∧ d'.session.errType = d.session.errType)
      fun _ _ => False := by
  obtain ⟨multi, nla, hanswer, hproto, hmin⟩ := hE.version d.kernel
    ((Nlmsg.fillHdr .protocol false).put (.protocol dsetProtocol)) rfl
  simp only [buildSendPrivateMsg, sendPrivateMsg, ends_bind, ends_session, ends_modifySession,
    ends_pure]
  apply dsetMnlQuery_one (d := d.mapSession fun s => { s with cmd := .protocol }) hE.succeeds hstale
    hanswer
  apply Ends.mono (X := fun _ _ => False) (callback_version
    (d := (d.mapSession fun s => { s with cmd := .protocol }).sendTo E
      ((Nlmsg.fillHdr .protocol false).put (.protocol dsetProtocol)))
    rfl hversion hproto hmin) _ fun _ _ h => h
  rintro ret d' ⟨rfl, rfl⟩
  refine ⟨rfl, rfl, ⟨rfl, ⟨_, rfl, ?_⟩, hstale, rfl, rfl, fun h => h⟩, rfl⟩
  intro m hm
  rw [List.mem_singleton.mp hm]
  rfl

theorem openSession_opened (hE : E.Acks) (hstale : d.session.stale = 0) (cmd : Cmd) :
    Ends (openSession E cmd) d (fun ok d' => ok = true ∧ Opened d d') fun _ _ => False := by
  have hopen (d1 : Process κ) (h1 : Opened d d1) :
      Ends (do
        Prog.modifySession fun s => { s with handle := true }
        if (← Prog.session).versionChecked then return true
        else if (← buildSendPrivateMsg E .protocol) < 0 then return false
        else
          if (← Prog.session).errType = .warning ∧ cmd ≠ .none then
            Prog.modifySession (·.reportReset)
          return true) d1 (fun ok d' => ok = true ∧ Opened d d') fun _ _ => False := by
    simp only [ends_bind, ends_modifySession, ends_session, ends_ite, ends_pure]
    refine ⟨fun _ => ⟨trivial, h1.steady, h1.sent, h1.stale, h1.data, h1.lineno, h1.quiet⟩,
      fun hversion => ?_⟩
    have hasked := protocol_answered (d := d1.mapSession fun s => { s with handle := true }) hE
      h1.stale (Bool.eq_false_iff.mpr hversion)
    apply hasked.mono _ fun _ _ h => h
    rintro ret d2 ⟨rfl, h2, -⟩
    obtain ⟨l1, hl1, hq1⟩ := h1.sent
    obtain ⟨l2, hl2, hq2⟩ := h2.sent
    have hsent : d2.sent = d.sent ++ (l1 ++ l2) ∧ ∀ m ∈ l1 ++ l2, m.1.cmd.isQuery = true := by
      refine ⟨by rw [hl2, ← List.append_assoc, ← hl1], fun m hm => ?_⟩
      rcases List.mem_append.mp hm with hm | hm
      · exact hq1 m hm
      · exact hq2 m hm
    have hsteady : d2.steady = d.steady := h2.steady.trans h1.steady
    have hdata : d2.session.data = d.session.data := h2.data.trans h1.data
    have hlineno : d2.session.lineno = d.session.lineno := h2.lineno.trans h1.lineno
    refine ⟨fun h => absurd h (lt_irrefl _), fun _ => ⟨fun _ => ?_, fun _ => ?_⟩⟩
    · exact ⟨trivial, hsteady, ⟨_, hsent⟩, h2.stale, hdata, hlineno, fun _ => ⟨rfl, rfl⟩⟩
    · exact ⟨trivial, hsteady, ⟨_, hsent⟩, h2.stale, hdata, hlineno,
        fun hq => h2.quiet (h1.quiet hq)⟩
  have hnone : ∃ l, d.sent = d.sent ++ l ∧ ∀ m ∈ l, m.1.cmd.isQuery = true :=
    ⟨[], (List.append_nil _).symm, fun _ h => absurd h List.not_mem_nil⟩
  have hsame := hopen d ⟨rfl, hnone, hstale, rfl, rfl, fun h => h⟩
  have hcalled := hopen { d with calls := d.calls + 1 } ⟨rfl, hnone, hstale, rfl, rfl, fun h => h⟩
  simp only [ends_bind, ends_modifySession, ends_session, ends_ite, ends_pure] at hsame hcalled
  simp only [openSession, ends_bind, ends_modifySession, ends_session, ends_ite, ends_pure,
    ends_ext, hE.succeeds _]
  exact ⟨fun _ => ⟨fun h => absurd h (by decide), fun _ => hsame⟩,
    fun _ => ⟨fun h => absurd h (by decide), fun _ => hcalled⟩⟩

/-! ### Sending a message -/

/-- What is read of the input behind a program. -/
structure SameInput (d d' : Process κ) : Prop where
  restoreLine : d'.restoreLine = d.restoreLine
  stdin : d'.stdin = d.stdin
  istream : d'.istream = d.istream

/-- The blob has what the cache needs when the command is acknowledged. -/
def Session.Ackable (s : Session) : Prop :=
  match s.cmd with
  | .create => s.data.getSetname.isSome = true ∧ s.data.getType.isSome = true
  | .rename | .swap => s.data.getSetname.isSome = true ∧
      (s.data.getSetname2.bind SetName.ofStr).isSome = true
  | .destroy | .flush | .add | .del => True
  | _ => False

theorem ends_bothNames {x y : Option SetName} (hx : x.isSome = true ∧ y.isSome = true)
    {f : SetName → SetName → Prog κ ℤ} {Q : ℤ → Process κ → Prop} {X : ℕ → Process κ → Prop}
    (hf : ∀ a b, Ends (f a b) d Q X) :
    Ends (match x, y with | some a, some b => f a b | _, _ => assertFail) d Q X := by
  obtain ⟨a, rfl⟩ := Option.isSome_iff_exists.mp hx.1
  obtain ⟨b, rfl⟩ := Option.isSome_iff_exists.mp hx.2
  exact hf a b

theorem callbackAcked_acked (h : d.session.Ackable) {X : ℕ → Process κ → Prop} :
    Ends (callbackAcked E) d
      (fun ret d' => ret = 0 ∧ d'.session = d.session ∧ d'.sent = d.sent ∧ SameInput d d') X := by
  unfold Session.Ackable at h
  simp only [callbackAcked, ends_bind, ends_session]
  cases hcmd : d.session.cmd with
  | create =>
    rw [hcmd] at h
    obtain ⟨name, hname⟩ := Option.isSome_iff_exists.mp h.1
    obtain ⟨type, htype⟩ := Option.isSome_iff_exists.mp h.2
    simp only [hname, htype, ends_bind, ends_malloc, ends_modify, ends_pure]
    exact ⟨rfl, trivial, trivial, rfl, rfl, rfl⟩
  | destroy => exact ⟨rfl, rfl, rfl, rfl, rfl, rfl⟩
  | flush => exact ⟨rfl, rfl, rfl, rfl, rfl, rfl⟩
  | add => exact ⟨rfl, rfl, rfl, rfl, rfl, rfl⟩
  | del => exact ⟨rfl, rfl, rfl, rfl, rfl, rfl⟩
  | rename =>
    rw [hcmd] at h
    exact ends_bothNames h fun _ _ => ⟨rfl, rfl, rfl, rfl, rfl, rfl⟩
  | swap =>
    rw [hcmd] at h
    exact ends_bothNames h fun _ _ => ⟨rfl, rfl, rfl, rfl, rfl, rfl⟩
  | none | protocol | list | save | test | header | type | restore | help | version | quit =>
    rw [hcmd] at h
    exact h.elim

theorem closeAll_eq (nlh : Nlmsg) (nested : List Nest) :
    (Session.closeAll nlh nested).cmd = nlh.cmd ∧ (Session.closeAll nlh nested).exist = nlh.exist ∧
      (Session.closeAll nlh nested).len = nlh.len := by
  induction nested generalizing nlh with
  | nil => exact ⟨rfl, rfl, rfl⟩
  | cons nest nested ih => exact ih (nlh.nestEnd nest)

/-- The message in the buffer is sent and acknowledged. -/
theorem dsetCommit_acked (hE : E.Acks) (hstale : d.session.stale = 0) {nlh : Nlmsg}
    (hbuffer : d.session.buffer = some nlh) (hcmd : nlh.cmd.changes = true)
    (hack : d.session.Ackable) :
    Ends (dsetCommit E) d
      (fun ret d' => ret = 0 ∧ d'.session = d.session.committed ∧ SameInput d d' ∧
        ∃ answer, d'.sent = d.sent ++ [(Session.closeAll nlh d.session.nested, answer)])
      fun _ _ => False := by
  have hclosed : (Session.closeAll nlh d.session.nested).cmd.changes = true := by
    rw [(closeAll_eq nlh d.session.nested).1]
    exact hcmd
  obtain ⟨quoted, hanswer⟩ := hE.acks d.kernel _ hclosed
  simp only [dsetCommit, ends_bind, ends_session, hbuffer, ends_modifySession, ends_ite, ends_pure]
  apply dsetMnlQuery_one hE.succeeds hstale hanswer
  have hcallback := callbackAcked_acked (E := E) (X := fun _ _ => False)
    (d := d.sendTo E (Session.closeAll nlh d.session.nested)) hack
  apply hcallback.mono _ fun _ _ h => h
  rintro ret d' ⟨rfl, hsession, hsent, hinput⟩
  refine ⟨rfl, fun h => absurd h (lt_irrefl _), fun _ => ⟨trivial, ?_, ?_, _, hsent⟩⟩
  · exact congrArg Session.committed hsession
  · exact ⟨hinput.restoreLine, hinput.stdin, hinput.istream⟩

/-! ### The messages of a run -/

def changesOf (l : List (Nlmsg × List (List KMsg))) : List Nlmsg :=
  (l.map (·.1)).filter fun m => !m.cmd.isQuery

theorem changesOf_append (l l' : List (Nlmsg × List (List KMsg))) :
    changesOf (l ++ l') = changesOf l ++ changesOf l' := by
  unfold changesOf
  rw [List.map_append, List.filter_append]

theorem changesOf_queries {l : List (Nlmsg × List (List KMsg))}
    (h : ∀ m ∈ l, m.1.cmd.isQuery = true) : changesOf l = [] := by
  unfold changesOf
  rw [List.filter_eq_nil_iff]
  intro m hm
  obtain ⟨p, hp, rfl⟩ := List.mem_map.mp hm
  rw [h p hp]
  decide

theorem Cmd.not_query_of_changes {c : Cmd} (h : c.changes = true) : c.isQuery = false := by
  cases c <;> first | rfl | cases h

/-- What is read of a message: whether it has `DSET_FLAG_EXIST`, and its items, if it can be
read. -/
def Nlmsg.mail (nlh : Nlmsg) : Bool × Option (List Item) := (nlh.exist, nlh.items)

/-- The messages sent behind `past` are read as `log`, and left room for a reply. -/
def Process.Logged (past : List (Nlmsg × List (List KMsg))) (d : Process κ)
    (log : List (Bool × Option (List Item))) : Prop :=
  ∃ since, d.sent = past ++ since ∧ (changesOf since).map Nlmsg.mail = log ∧
    ∀ m ∈ changesOf since, m.len + nlmsgerrLen ≤ d.session.bufsize

section

variable {past : List (Nlmsg × List (List KMsg))} {log : List (Bool × Option (List Item))}

theorem Process.Logged.asked (h : d.Logged past log) {d' : Process κ}
    (hsent : ∃ l, d'.sent = d.sent ++ l ∧ ∀ m ∈ l, m.1.cmd.isQuery = true)
    (hbufsize : d'.session.bufsize = d.session.bufsize) : d'.Logged past log := by
  obtain ⟨since, hsince, hlog, hroom⟩ := h
  obtain ⟨l, hl, hq⟩ := hsent
  have hsame : changesOf (since ++ l) = changesOf since := by
    rw [changesOf_append, changesOf_queries hq, List.append_nil]
  refine ⟨since ++ l, by rw [hl, hsince, List.append_assoc], by rw [hsame, hlog], ?_⟩
  rw [hsame, hbufsize]
  exact hroom

theorem Process.Logged.sends (h : d.Logged past log) {d' : Process κ} {nlh : Nlmsg}
    {answer : List (List KMsg)} (hsent : d'.sent = d.sent ++ [(nlh, answer)])
    (hcmd : nlh.cmd.changes = true) (hroom : nlh.len + nlmsgerrLen ≤ d.session.bufsize)
    (hbufsize : d'.session.bufsize = d.session.bufsize) :
    d'.Logged past (log ++ [nlh.mail]) := by
  obtain ⟨since, hsince, hlog, hrooms⟩ := h
  have hone : changesOf [(nlh, answer)] = [nlh] := by
    unfold changesOf
    rw [List.map_singleton, List.filter_singleton, Cmd.not_query_of_changes hcmd]
    rfl
  refine ⟨since ++ [(nlh, answer)], by rw [hsent, hsince, List.append_assoc], ?_, ?_⟩
  · rw [changesOf_append, hone, List.map_append, hlog]
    rfl
  · rw [changesOf_append, hone, hbufsize]
    intro m hm
    rcases List.mem_append.mp hm with hm | hm
    · exact hrooms m hm
    · rw [List.mem_singleton.mp hm]
      exact hroom

end

/-! ### The message under construction -/

structure Packet where
  cmd : Cmd
  exist : Bool
  name : SetName
  elems : List (List Attr)

namespace Packet

variable (p : Packet)

/-- The `nla_len` of the list of elements, before it is cut to 16 bits. -/
def nlaLen : ℕ := Attr.adt.size + attrsLen (p.elems.flatMap itemAttrs)

/-- What is read of the message when it is closed and sent. -/
def mail : Bool × Option (List Item) :=
  (p.exist, if p.nlaLen < 2 ^ 16 then
    some (p.elems.map (·.foldl Item.put (Item.of p.cmd (some p.name.text)))) else none)

def push (l : List Attr) : Packet := { p with elems := p.elems ++ [l] }

end Packet

/-- What is in the buffer: nothing, or a message in which elements are collected. -/
def Session.Holds (s : Session) : Option Packet → Prop
  | none => s.buffer = none ∧ s.nested = []
  | some p => ∃ nlh, s.buffer = some nlh ∧
    Batch s.bufsize p.cmd p.exist p.name p.elems nlh s.nested ∧ nlh.len ≤ 72 + p.nlaLen ∧
    s.cmd = p.cmd ∧ s.savedSetname = p.name ∧ (p.cmd = .add ∨ p.cmd = .del)

theorem Batch.mail {bufsize : ℕ} {p : Packet} {nlh : Nlmsg} {nested : List Nest}
    (h : Batch bufsize p.cmd p.exist p.name p.elems nlh nested) (htyped : p.cmd.isTyped = true) :
    (Session.closeAll nlh nested).mail = p.mail := by
  have hlen : nestFits nlh nested ↔ p.nlaLen < 2 ^ 16 := by
    obtain ⟨len, hnested, hlen⟩ := h.nested
    unfold nestFits Packet.nlaLen
    rw [hnested, List.forall_mem_singleton, hlen]
    show len + _ + _ - len < _ ↔ _
    omega
  unfold Nlmsg.mail Packet.mail
  rw [(closeAll_eq nlh nested).2.1, h.exist]
  by_cases hfits : nestFits nlh nested
  · rw [h.items htyped hfits, if_pos (hlen.mp hfits)]
  · rw [h.items_none hfits, if_neg fun hlt => hfits (hlen.mpr hlt)]

/-- Apart from the message under construction, two sessions are the same. -/
theorem Session.same_of_committed {s t : Session} (h : s.committed = t.committed) :
    s.data = t.data ∧ s.cmd = t.cmd ∧ s.lineno = t.lineno ∧ s.bufsize = t.bufsize ∧
      s.envopts = t.envopts ∧ s.stale = t.stale ∧ (t.Quiet → s.Quiet) :=
  ⟨(congrArg data h :), (congrArg cmd h :), (congrArg lineno h :), (congrArg bufsize h :),
    (congrArg envopts h :), (congrArg stale h :), fun hq =>
    ⟨(congrArg report h :).trans hq.1, (congrArg errType h :).trans hq.2⟩⟩

structure Commits (d d' : Process κ) : Prop where
  session : d'.session.committed = d.session.committed
  input : SameInput d d'

theorem dsetCommit_sends (hE : E.Acks) (hstale : d.session.stale = 0)
    {past : List (Nlmsg × List (List KMsg))} {log : List (Bool × Option (List Item))}
    (hlog : d.Logged past log) {p : Option Packet} (hp : d.session.Holds p) :
    Ends (dsetCommit E) d
      (fun ret d' => ret = 0 ∧ Commits d d' ∧ d'.session.Holds none ∧
        d'.Logged past (log ++ p.toList.map Packet.mail))
      fun _ _ => False := by
  cases p with
  | none =>
    simp only [dsetCommit, ends_bind, ends_session, hp.1, ends_pure]
    refine ⟨trivial, ⟨rfl, rfl, rfl, rfl⟩, hp, ?_⟩
    rwa [Option.toList_none, List.map_nil, List.append_nil]
  | some p =>
    obtain ⟨nlh, hbuffer, hbatch, -, hcmd, -, hadt⟩ := hp
    have hclose := closeAll_eq nlh d.session.nested
    have hchanges : p.cmd.changes = true := by rcases hadt with h | h <;> rw [h] <;> rfl
    have htyped : p.cmd.isTyped = true := by rcases hadt with h | h <;> rw [h] <;> rfl
    have hack : d.session.Ackable := by
      unfold Session.Ackable
      rcases hadt with h | h <;> rw [hcmd, h] <;> trivial
    apply (dsetCommit_acked hE hstale hbuffer (hbatch.cmd ▸ hchanges) hack).mono _ fun _ _ h => h
    rintro ret d' ⟨rfl, hsession, hinput, answer, hsent⟩
    refine ⟨rfl, ⟨by rw [hsession]; rfl, hinput⟩, by rw [hsession]; exact ⟨rfl, rfl⟩, ?_⟩
    have hsends := hlog.sends hsent (by rw [hclose.1, hbatch.cmd, hchanges])
      (by rw [hclose.2.2]; exact hbatch.room) (by rw [hsession]; rfl)
    rw [hbatch.mail htyped] at hsends
    exact hsends

end Dset.User
