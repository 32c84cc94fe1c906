import Dset.User.Acks

/-! What a command that changes sets does to the messages, with a kernel that acknowledges all
of them: it sends the message in the buffer and one of its own, or its element is collected in
the buffer, which is sent before when it is full or holds something else. -/

namespace Dset.User

open Dset.Lib Dset.Core

variable {κ : Type} {E : Env κ} {d : Process κ}

/-! ### The start of a command -/

/-- A command that is put behind the others in the message. -/
def Packet.Takes (p : Packet) (s : Session) (cmd : Cmd) : Prop :=
  s.lineno ≠ 0 ∧ cmd = p.cmd ∧ s.data.getSetname = some p.name

/-- The start of a command leaves the message under construction to a command that goes on with
it, and sends it otherwise. -/
structure Started (past : List (Nlmsg × List (List KMsg))) (log : List (Bool × Option (List Item)))
    (p : Option Packet) (cmd : Cmd) (d : Process κ) (aggregate : Bool) (d' : Process κ) : Prop where
  opened : d'.session.stale = 0 ∧ d'.session.data = d.session.data ∧
    d'.session.lineno = d.session.lineno ∧ (d.session.Quiet → d'.session.Quiet) ∧
    d'.session.bufsize = d.session.bufsize ∧ d'.session.envopts = d.session.envopts
  input : SameInput d d'
  holds : (∃ q, p = some q ∧ q.Takes d.session cmd ∧ aggregate = true ∧ d'.session.Holds p ∧
      d'.Logged past log) ∨
    ((∀ q, p = some q → ¬ q.Takes d.session cmd) ∧ d'.session.Holds none ∧
      d'.Logged past (log ++ p.toList.map Packet.mail))

/-- A question to the kernel leaves the message under construction. -/
theorem Session.Holds.of_steady {d' : Process κ} {p : Option Packet} (hp : d.session.Holds p)
    (hsteady : d'.steady = d.steady) : d'.session.Holds p := by
  have hbuffer : d'.session.buffer = d.session.buffer := congrArg (·.buffer) hsteady
  have hnested : d'.session.nested = d.session.nested := congrArg (·.nested) hsteady
  have hcmd : d'.session.cmd = d.session.cmd := congrArg (·.cmd) hsteady
  have hsaved : d'.session.savedSetname = d.session.savedSetname :=
    congrArg (·.savedSetname) hsteady
  have hbufsize : d'.session.bufsize = d.session.bufsize := congrArg (·.bufsize) hsteady
  cases p with
  | none => exact ⟨hbuffer.trans hp.1, hnested.trans hp.2⟩
  | some p =>
    unfold Session.Holds
    rw [hbuffer, hnested, hcmd, hsaved, hbufsize]
    exact hp

theorem startCmd_started (hE : E.Acks) (hstale : d.session.stale = 0)
    {past : List (Nlmsg × List (List KMsg))} {log : List (Bool × Option (List Item))}
    (hlog : d.Logged past log) {p : Option Packet} (hp : d.session.Holds p) {cmd : Cmd}
    (hcmd : cmd ≠ .none) :
    Ends (startCmd E cmd) d
      (fun r d' => ∃ aggregate, r = .ok aggregate ∧ Started past log p cmd d aggregate d')
      fun _ _ => False := by
  simp only [startCmd, ends_bind, ends_ite, ends_pure, ends_session]
  apply (openSession_opened hE hstale cmd).mono _ fun _ _ h => h
  rintro ok d1 ⟨rfl, h1⟩
  have hbufsize : d1.session.bufsize = d.session.bufsize := congrArg (·.bufsize) h1.steady
  have henvopts : d1.session.envopts = d.session.envopts := congrArg (·.envopts) h1.steady
  have hinput : SameInput d d1 := ⟨congrArg (·.restoreLine) h1.steady,
    congrArg (·.stdin) h1.steady, congrArg (·.istream) h1.steady⟩
  have hlog1 : d1.Logged past log := hlog.asked h1.sent hbufsize
  have hp1 : d1.session.Holds p := hp.of_steady h1.steady
  have htakes : ∀ q, p = some q →
      (d1.session.mayAggregateAd cmd = true ↔ q.Takes d.session cmd) := by
    rintro q rfl
    obtain ⟨nlh, -, -, -, hq, hname, hadt⟩ := hp1
    unfold Session.mayAggregateAd Packet.Takes
    rw [decide_eq_true_eq, hq, hname, h1.lineno, h1.data]
    constructor
    · exact fun h => ⟨h.1, h.2.2⟩
    · rintro ⟨hline, rfl, hset⟩
      exact ⟨hline, hadt, rfl, hset⟩
  refine ⟨fun h => absurd h (by decide), fun _ => ⟨fun h => absurd h hcmd, fun _ => ⟨fun hmay => ?_,
    fun hmay => ?_⟩⟩⟩
  · refine ⟨true, rfl, ⟨h1.stale, h1.data, h1.lineno, h1.quiet, hbufsize, henvopts⟩, hinput, ?_⟩
    cases p with
    | none =>
      refine .inr ⟨fun q hq => absurd hq (Option.some_ne_none q).symm, hp1, ?_⟩
      rwa [Option.toList_none, List.map_nil, List.append_nil]
    | some q => exact .inl ⟨q, rfl, (htakes q rfl).mp hmay, rfl, hp1, hlog1⟩
  · apply (dsetCommit_sends hE h1.stale hlog1 hp1).mono _ fun _ _ h => h
    rintro ret d2 ⟨rfl, hcommits, hnone, hlog2⟩
    obtain ⟨hdata2, -, hline2, hbuf2, hopts2, hstale2, hquiet2⟩ :=
      Session.same_of_committed hcommits.session
    refine ⟨false, rfl, ⟨hstale2.trans h1.stale, hdata2.trans h1.data, hline2.trans h1.lineno,
      fun hq => hquiet2 (h1.quiet hq), hbuf2.trans hbufsize, hopts2.trans henvopts⟩, ?_, ?_⟩
    · have hinput2 := hcommits.input
      exact ⟨hinput2.restoreLine.trans hinput.restoreLine, hinput2.stdin.trans hinput.stdin,
        hinput2.istream.trans hinput.istream⟩
    · exact .inr ⟨fun q hq htake => hmay ((htakes q hq).mpr htake), hnone, hlog2⟩

/-- The blob has what the message of the command needs. -/
def Session.Filled (s : Session) : Prop :=
  match s.cmd with
  | .create | .add | .del => s.data.getSetname.isSome = true ∧ s.data.getType.isSome = true
  | .rename | .swap => s.data.getSetname.isSome = true ∧
      ∃ name : SetName, s.data.getSetname2 = some name.text
  | .destroy | .flush => True
  | _ => False

theorem Session.Filled.changes {s : Session} (h : s.Filled) : s.cmd.changes = true := by
  unfold Session.Filled at h
  cases hcmd : s.cmd <;> rw [hcmd] at h <;> first | rfl | exact h.elim

theorem Session.Filled.ackable {s : Session} (h : s.Filled) : s.Ackable := by
  unfold Session.Filled at h
  unfold Session.Ackable
  have hnames {o : Option Str} (ho : ∃ name : SetName, o = some name.text) :
      (o.bind SetName.ofStr).isSome = true := by
    obtain ⟨name, rfl⟩ := ho
    rw [Option.bind_some, SetName.ofStr, dif_pos ⟨name.notMem, name.length_lt⟩]
    rfl
  cases hcmd : s.cmd <;> rw [hcmd] at h <;> first
    | exact h
    | exact ⟨h.1, hnames h.2⟩
    | trivial

theorem Session.buildMsg_single {s : Session} (hbuf : 4096 ≤ s.bufsize) (hfilled : s.Filled)
    (hholds : s.Holds none) (hline : s.cmd = .add ∨ s.cmd = .del → s.lineno = 0)
    (aggregate : Bool) :
    ∃ nlh, s.buildMsg aggregate = .done (s.withMsg nlh) ∧
      nlh.Single s.bufsize s.envopts.exist s.toItem := by
  obtain ⟨hbuffer, hnested⟩ := hholds
  have hstart := s.startMsg_new hbuffer
  unfold Session.Filled at hfilled
  unfold Session.buildMsg
  rw [hstart]
  cases hcmd : s.cmd with
  | create =>
    rw [hcmd] at hfilled
    obtain ⟨name, hname⟩ := Option.isSome_iff_exists.mp hfilled.1
    obtain ⟨type, htype⟩ := Option.isSome_iff_exists.mp hfilled.2
    exact Session.buildCreate_single hbuf hcmd hnested hname htype
  | destroy =>
    exact ⟨_, congrArg Built.done (Session.setBuffer_eq hnested _),
      Session.putSetname_single hbuf (.inl hcmd)⟩
  | flush =>
    exact ⟨_, congrArg Built.done (Session.setBuffer_eq hnested _),
      Session.putSetname_single hbuf (.inr hcmd)⟩
  | rename =>
    rw [hcmd] at hfilled
    obtain ⟨name, hname⟩ := Option.isSome_iff_exists.mp hfilled.1
    obtain ⟨name2, hname2⟩ := hfilled.2
    exact Session.buildNames_single hbuf (.inl hcmd) hnested hname hname2 name2.length_lt
  | swap =>
    rw [hcmd] at hfilled
    obtain ⟨name, hname⟩ := Option.isSome_iff_exists.mp hfilled.1
    obtain ⟨name2, hname2⟩ := hfilled.2
    exact Session.buildNames_single hbuf (.inr hcmd) hnested hname hname2 name2.length_lt
  | add =>
    rw [hcmd] at hfilled
    obtain ⟨name, hname⟩ := Option.isSome_iff_exists.mp hfilled.1
    rw [hbuffer, Option.isSome_none, Bool.and_false]
    exact Session.buildAdt_single hbuf (.inl hcmd) hnested (hline (.inl hcmd)) hname hfilled.2
  | del =>
    rw [hcmd] at hfilled
    obtain ⟨name, hname⟩ := Option.isSome_iff_exists.mp hfilled.1
    rw [hbuffer, Option.isSome_none, Bool.and_false]
    exact Session.buildAdt_single hbuf (.inr hcmd) hnested (hline (.inr hcmd)) hname hfilled.2
  | none | protocol | list | save | test | header | type | restore | help | version | quit =>
    rw [hcmd] at hfilled
    exact hfilled.elim

/-- A new message for the elements of a set. -/
theorem Session.buildMsg_batch {s : Session} (hbuf : 4096 ≤ s.bufsize)
    (hcmd : s.cmd = .add ∨ s.cmd = .del) (hfilled : s.Filled) (hholds : s.Holds none)
    (hline : s.lineno ≠ 0) {name : SetName} (hname : s.data.getSetname = some name)
    (aggregate : Bool) :
    ∃ nlh nested, s.buildMsg aggregate = .done { s with buffer := some nlh, nested := nested } ∧
      Batch s.bufsize s.cmd s.envopts.exist name [s.itemOf] nlh nested ∧
      nlh.len ≤ 72 + Attr.adt.size + attrsLen ([s.itemOf].flatMap itemAttrs) := by
  obtain ⟨hbuffer, hnested⟩ := hholds
  have htype : s.data.getType.isSome = true := by
    unfold Session.Filled at hfilled
    rcases hcmd with h | h <;> rw [h] at hfilled <;> exact hfilled.2
  have hbuild : s.buildMsg aggregate = s.buildAdt s.newMsg false := by
    unfold Session.buildMsg
    rw [s.startMsg_new hbuffer, hbuffer, Option.isSome_none, Bool.and_false]
    rcases hcmd with h | h <;> rw [h]
  rw [hbuild]
  exact Session.buildAdt_batch hbuf hnested hline hname htype

/-- What is known of the process behind a command. -/
structure Executed (d d' : Process κ) : Prop where
  data : d'.session.data = Data.reset
  stale : d'.session.stale = 0
  quiet : d.session.Quiet → d'.session.Quiet
  bufsize : d'.session.bufsize = d.session.bufsize
  envopts : d'.session.envopts = d.session.envopts
  input : SameInput d d'

/-- The rest of a command whose message is complete. -/
theorem executeMsg_single (hE : E.Acks) (hstale : d.session.stale = 0)
    (hbuf : 4096 ≤ d.session.bufsize) {past : List (Nlmsg × List (List KMsg))}
    {log : List (Bool × Option (List Item))} (hlog : d.Logged past log)
    (hholds : d.session.Holds none) (hfilled : d.session.Filled)
    (hline : d.session.cmd = .add ∨ d.session.cmd = .del → d.session.lineno = 0)
    (aggregate : Bool) :
    Ends (executeMsg E d.session.cmd aggregate) d
      (fun ret d' => ret = 0 ∧ Executed d d' ∧ d'.session.Holds none ∧
        d'.Logged past (log ++ [(d.session.envopts.exist, some [d.session.toItem])]))
      fun _ _ => False := by
  obtain ⟨nlh, hbuild, hsingle⟩ := Session.buildMsg_single hbuf hfilled hholds hline aggregate
  have hcmd : nlh.cmd.changes = true := by
    rw [hsingle.cmd, Session.toItem_cmd]
    exact hfilled.changes
  have hcollect : ¬ ((d.session.withMsg nlh).lineno ≠ 0 ∧
      (d.session.cmd = .add ∨ d.session.cmd = .del)) := fun h => h.1 (hline h.2)
  have hzero : ¬ (0 : ℤ) < 0 := lt_irrefl _
  have hcommit := dsetCommit_acked
    (d := (d.mapSession fun s => s.withMsg nlh).mapSession fun s =>
      { s with savedType := s.data.getType }) hE hstale rfl hcmd hfilled.ackable
  simp only [executeMsg, buildOrCommit, buildMsg, ends_bind, ends_session, hbuild,
    ends_modifySession, ends_pure, le_refl, if_true, hzero, if_false]
  rw [if_neg hcollect]
  simp only [ends_bind, ends_pure, ends_modifyData]
  apply hcommit.mono _ fun _ _ h => h
  rintro ret d' ⟨rfl, hsession, hinput, answer, hsent⟩
  have hbufsize : d'.session.bufsize = d.session.bufsize := by rw [hsession]; rfl
  have henvopts : d'.session.envopts = d.session.envopts := by rw [hsession]; rfl
  refine ⟨rfl, ?_, ?_, ?_⟩
  · exact
      { data := rfl
        stale := (congrArg Session.stale hsession).trans hstale
        quiet := fun hq => ⟨(congrArg Session.report hsession).trans hq.1,
          (congrArg Session.errType hsession).trans hq.2⟩
        bufsize := hbufsize
        envopts := henvopts
        input := ⟨hinput.restoreLine, hinput.stdin, hinput.istream⟩ }
  · exact ⟨congrArg Session.buffer hsession, congrArg Session.nested hsession⟩
  · have hmail : nlh.mail = (d.session.envopts.exist, some [d.session.toItem]) := by
      unfold Nlmsg.mail
      rw [hsingle.exist, hsingle.items]
    rw [← hmail]
    exact hlog.sends (by exact hsent) hcmd hsingle.room (by exact hbufsize)

structure Collected (past : List (Nlmsg × List (List KMsg)))
    (log : List (Bool × Option (List Item))) (p : Packet) (d d' : Process κ) : Prop where
  buffer : ∃ nlh, d'.session.buffer = some nlh ∧
    Batch d.session.bufsize p.cmd p.exist p.name p.elems nlh d'.session.nested ∧
    nlh.len ≤ 72 + p.nlaLen
  kept : d'.session.committed = d.session.committed
  input : SameInput d d'
  logged : d'.Logged past log

section

variable {past : List (Nlmsg × List (List KMsg))} {log : List (Bool × Option (List Item))}
  {name : SetName}

theorem buildMsg_fresh (hbuf : 4096 ≤ d.session.bufsize) (hlog : d.Logged past log)
    (hcmd : d.session.cmd = .add ∨ d.session.cmd = .del) (hfilled : d.session.Filled)
    (hline : d.session.lineno ≠ 0) (hname : d.session.data.getSetname = some name)
    (hholds : d.session.Holds none) (aggregate : Bool) :
    Ends (buildMsg aggregate) d
      (fun ret d' => ret = 0 ∧ Collected past log
        ⟨d.session.cmd, d.session.envopts.exist, name, [d.session.itemOf]⟩ d d')
      fun _ _ => False := by
  obtain ⟨nlh, nested, hbuild, hbatch, hlen⟩ :=
    Session.buildMsg_batch hbuf hcmd hfilled hholds hline hname aggregate
  simp only [buildMsg, ends_bind, ends_session, hbuild, ends_modifySession, ends_pure]
  refine ⟨trivial, ⟨nlh, rfl, hbatch, ?_⟩, rfl, ⟨rfl, rfl, rfl⟩, hlog⟩
  show nlh.len ≤ 72 + (Attr.adt.size + attrsLen ([d.session.itemOf].flatMap itemAttrs))
  omega

/-- Behind a message in the buffer comes the element alone. -/
theorem Session.buildMsg_behind {s : Session} {nlh : Nlmsg} (hbuffer : s.buffer = some nlh)
    (hcmd : s.cmd = .add ∨ s.cmd = .del) : s.buildMsg true = s.buildItem nlh s.nested := by
  unfold Session.buildMsg Session.startMsg
  rw [hbuffer]
  rcases hcmd with h | h <;> rw [h] <;> rfl

/-- One more element, or a new message when there is no room for it. -/
theorem buildOrCommit_push (hE : E.Acks) (hstale : d.session.stale = 0)
    (hbuf : 4096 ≤ d.session.bufsize) (hlog : d.Logged past log) (hfilled : d.session.Filled)
    (hline : d.session.lineno ≠ 0) {p : Packet} (hname : d.session.data.getSetname = some p.name)
    (hholds : d.session.Holds (some p)) :
    Ends (buildOrCommit E true) d
      (fun ret d' => ret = 0 ∧ ((p.push d.session.itemOf).nlaLen + nlmsgerrLen ≤ d.session.bufsize ∧
          Collected past log (p.push d.session.itemOf) d d' ∨
        d.session.bufsize < p.nlaLen + 672 ∧ Collected past (log ++ [p.mail])
          ⟨d.session.cmd, d.session.envopts.exist, p.name, [d.session.itemOf]⟩ d d'))
      fun _ _ => False := by
  obtain ⟨nlh, hbuffer, hbatch, hlen, hcmd, hsaved, hadt⟩ := hholds
  have hadd : d.session.cmd = .add ∨ d.session.cmd = .del := by
    rw [hcmd]
    exact hadt
  have hbuild := Session.buildMsg_behind hbuffer hadd
  have hpushed : nlh.len + attrsLen (itemAttrs d.session.itemOf) ≤
      72 + (p.push d.session.itemOf).nlaLen := by
    unfold Packet.nlaLen Packet.push at *
    rw [List.flatMap_append, attrsLen_append, List.flatMap_singleton]
    omega
  have hzero : ¬ (0 : ℤ) < 0 := lt_irrefl _
  have hone : ¬ (1 : ℤ) ≤ 0 := by decide
  rcases d.session.buildItem_eq nlh d.session.nested with hfull | ⟨hdone, hroom⟩
  · -- what is in the buffer is sent, and the element comes first in a new message
    have hsame : { d.session with buffer := some nlh, nested := d.session.nested } = d.session := by
      rw [← hbuffer]
    have hbig : d.session.bufsize < p.nlaLen + 672 := by
      by_contra hle
      have hfits := d.session.buildItem_fits nlh d.session.nested (by omega)
      rw [hfull] at hfits
      cases hfits
    rw [hsame] at hfull
    have hfirst : Ends (buildMsg true) d (fun ret d' => ret = 1 ∧ d' = d) fun _ _ => False := by
      simp only [buildMsg, ends_bind, ends_session, hbuild, hfull, ends_modifySession, ends_pure]
      trivial
    simp only [buildOrCommit, ends_bind]
    apply hfirst.mono _ fun _ _ h => h
    rintro ret d1 ⟨rfl, rfl⟩
    rw [if_neg hone, ends_bind]
    have hholds : d1.session.Holds (some p) := ⟨nlh, hbuffer, hbatch, hlen, hcmd, hsaved, hadt⟩
    apply (dsetCommit_sends hE hstale hlog hholds).mono _ fun _ _ h => h
    rintro ret d2 ⟨rfl, hcommits, hnone, hlog2⟩
    rw [if_neg hzero]
    obtain ⟨hdata2, hcmd2, hline2, hbuf2, hopts2, -, -⟩ :=
      Session.same_of_committed hcommits.session
    have hfilled2 : d2.session.Filled := by
      unfold Session.Filled
      rw [hcmd2, hdata2]
      exact hfilled
    have hitem2 : d2.session.itemOf = d1.session.itemOf := by
      unfold Session.itemOf
      rw [hdata2, hline2]
    apply (buildMsg_fresh (hbuf2 ▸ hbuf) hlog2 (hcmd2 ▸ hadd) hfilled2 (hline2 ▸ hline)
      (hdata2 ▸ hname) hnone false).mono _ fun _ _ h => h
    rintro ret d3 ⟨rfl, h3⟩
    rw [hcmd2, hopts2, hitem2] at h3
    have hinput2 := hcommits.input
    refine ⟨rfl, .inr ⟨hbig, ?_, h3.kept.trans hcommits.session, ?_, h3.logged⟩⟩
    · rw [← hbuf2]
      exact h3.buffer
    · exact ⟨h3.input.restoreLine.trans hinput2.restoreLine, h3.input.stdin.trans hinput2.stdin,
        h3.input.istream.trans hinput2.istream⟩
  · simp only [buildOrCommit, buildMsg, ends_bind, ends_session, hbuild, hdone, ends_modifySession,
      ends_pure, le_refl, if_true]
    have hpush := hbatch.push d.session.small_itemOf hroom
    have hlist : (p.push d.session.itemOf).nlaLen + nlmsgerrLen ≤ d.session.bufsize := by
      obtain ⟨len, -, hlen⟩ := hpush.nested
      have := hpush.room
      show Attr.adt.size + attrsLen ((p.elems ++ [d.session.itemOf]).flatMap itemAttrs) +
        nlmsgerrLen ≤ _
      omega
    exact ⟨trivial, .inl ⟨hlist, ⟨_, rfl, hpush, hpushed⟩, rfl, ⟨rfl, rfl, rfl⟩, hlog⟩⟩

/-- The rest of a command whose element is in the buffer. -/
theorem executeMsg_collects {R : List (Bool × Option (List Item)) → Packet → Prop}
    {aggregate : Bool} (hstale : d.session.stale = 0)
    (hbuild : Ends (buildOrCommit E aggregate) d
      (fun ret d' => ret = 0 ∧ ∃ log p, R log p ∧ Collected past log p d d') fun _ _ => False)
    (hcmd : d.session.cmd = .add ∨ d.session.cmd = .del) (hline : d.session.lineno ≠ 0)
    (hname : d.session.data.getSetname = some name)
    (hR : ∀ log p, R log p → p.cmd = d.session.cmd ∧ p.name = name) :
    Ends (executeMsg E d.session.cmd aggregate) d
      (fun ret d' => ret = 0 ∧ Executed d d' ∧
        ∃ log p, R log p ∧ d'.session.Holds (some p) ∧ d'.Logged past log)
      fun _ _ => False := by
  simp only [executeMsg, ends_bind]
  apply hbuild.mono _ fun _ _ h => h
  rintro ret d1 ⟨rfl, log, p, hp, h⟩
  obtain ⟨hdata, hcmd1, hline1, hbuf1, hopts1, hstale1, hquiet1⟩ :=
    Session.same_of_committed h.kept
  obtain ⟨nlh, hbuffer, hbatch, hlen⟩ := h.buffer
  obtain ⟨hpcmd, hpname⟩ := hR log p hp
  have hname1 : d1.session.data.getSetname = some name := by rw [hdata, hname]
  have hcollect : d1.session.lineno ≠ 0 ∧ (d.session.cmd = .add ∨ d.session.cmd = .del) :=
    ⟨hline1 ▸ hline, hcmd⟩
  rw [if_neg (lt_irrefl _)]
  simp only [ends_bind, ends_modifySession, ends_session, if_pos hcollect, hname1, ends_pure]
  refine ⟨trivial, ?_, log, p, hp, ?_, h.logged⟩
  · exact ⟨rfl, hstale1.trans hstale, hquiet1, hbuf1, hopts1,
      h.input.restoreLine, h.input.stdin, h.input.istream⟩
  · refine ⟨nlh, hbuffer, ?_, hlen, hcmd1.trans hpcmd.symm, hpname.symm, hpcmd ▸ hcmd⟩
    rw [← hbuf1] at hbatch
    exact hbatch

end

def Session.Collects (s : Session) : Prop := s.lineno ≠ 0 ∧ (s.cmd = .add ∨ s.cmd = .del)

/-- What a command does to the messages: the ones it sends, and what it leaves in the buffer. -/
inductive Moves (s : Session) (p : Option Packet) :
    List (Bool × Option (List Item)) → Option Packet → Prop
  /-- A message of its own, behind the one in the buffer. -/
  | single (h : ¬ s.Collects) :
    Moves s p (p.toList.map Packet.mail ++ [(s.envopts.exist, some [s.toItem])]) none
  /-- One more element in the buffer. -/
  | push (q : Packet) (hp : p = some q) (htakes : q.Takes s s.cmd)
      (hroom : (q.push s.itemOf).nlaLen + nlmsgerrLen ≤ s.bufsize) :
    Moves s p [] (some (q.push s.itemOf))
  /-- The buffer is full. -/
  | full (q : Packet) (hp : p = some q) (htakes : q.Takes s s.cmd)
      (hbig : s.bufsize < q.nlaLen + 672) :
    Moves s p [q.mail] (some ⟨s.cmd, s.envopts.exist, q.name, [s.itemOf]⟩)
  /-- The first element of another message. -/
  | fresh (hcollects : s.Collects) (hother : ∀ q, p = some q → ¬ q.Takes s s.cmd)
      (name : SetName) (hname : s.data.getSetname = some name) :
    Moves s p (p.toList.map Packet.mail) (some ⟨s.cmd, s.envopts.exist, name, [s.itemOf]⟩)

/-- It is read from these parts of a session. -/
theorem Moves.congr {s t : Session} (hdata : s.data = t.data) (hcmd : s.cmd = t.cmd)
    (hline : s.lineno = t.lineno) (hbuf : s.bufsize = t.bufsize) (hopts : s.envopts = t.envopts)
    {p p' : Option Packet} {sent : List (Bool × Option (List Item))} (h : Moves s p sent p') :
    Moves t p sent p' := by
  have hitem : s.itemOf = t.itemOf := by
    unfold Session.itemOf
    rw [hdata, hline]
  have htoItem : s.toItem = t.toItem := by
    unfold Session.toItem Session.setnameText
    rw [hdata, hcmd, hitem]
  have htakes (q : Packet) : q.Takes s s.cmd ↔ q.Takes t t.cmd := by
    unfold Packet.Takes
    rw [hdata, hcmd, hline]
  have hcollects : s.Collects ↔ t.Collects := by
    unfold Session.Collects
    rw [hcmd, hline]
  cases h with
  | single h =>
    rw [hopts, htoItem]
    exact .single fun hc => h (hcollects.mpr hc)
  | push q hp ht hroom =>
    rw [hitem] at hroom ⊢
    exact .push q hp ((htakes q).mp ht) (hbuf ▸ hroom)
  | full q hp ht hbig =>
    rw [hitem, hcmd, hopts]
    exact .full q hp ((htakes q).mp ht) (hbuf ▸ hbig)
  | fresh hc hother name hname =>
    rw [hitem, hcmd, hopts]
    exact .fresh (hcollects.mp hc) (fun q hq ht => hother q hq ((htakes q).mpr ht)) name
      (hdata ▸ hname)

section

variable {past : List (Nlmsg × List (List KMsg))} {log : List (Bool × Option (List Item))}

/-- What is known of a run that executes a command. -/
def Executes (past : List (Nlmsg × List (List KMsg))) (log : List (Bool × Option (List Item)))
    (p : Option Packet) (d : Process κ) (ret : ℤ) (d' : Process κ) : Prop :=
  ret = 0 ∧ Executed d d' ∧ ∃ sent p', Moves d.session p sent p' ∧ d'.session.Holds p' ∧
    d'.Logged past (log ++ sent)

/-- A command that goes on with the message in the buffer. -/
theorem executeMsg_push (hE : E.Acks) (hstale : d.session.stale = 0)
    (hbuf : 4096 ≤ d.session.bufsize) (hlog : d.Logged past log) (hfilled : d.session.Filled)
    {q : Packet} (htakes : q.Takes d.session d.session.cmd) (hholds : d.session.Holds (some q)) :
    Ends (executeMsg E d.session.cmd true) d (Executes past log (some q) d) fun _ _ => False := by
  have hadt : d.session.cmd = .add ∨ d.session.cmd = .del := by
    obtain ⟨-, -, -, -, hcmd, -, hadt⟩ := hholds
    exact hcmd ▸ hadt
  have hpush := buildOrCommit_push hE hstale hbuf hlog hfilled htakes.1 htakes.2.2 hholds
  have hbuild : Ends (buildOrCommit E true) d
      (fun ret d' => ret = 0 ∧ ∃ log' p', (∃ sent, Moves d.session (some q) sent (some p') ∧
          log' = log ++ sent ∧ p'.cmd = d.session.cmd ∧ p'.name = q.name) ∧
        Collected past log' p' d d') fun _ _ => False := by
    apply hpush.mono _ fun _ _ h => h
    rintro ret d' ⟨rfl, ⟨hroom, h⟩ | ⟨hbig, h⟩⟩
    · exact ⟨rfl, log, _,
        ⟨[], .push q rfl htakes hroom, (List.append_nil _).symm, htakes.2.1.symm, rfl⟩, h⟩
    · exact ⟨rfl, _, _, ⟨_, .full q rfl htakes hbig, rfl, rfl, rfl⟩, h⟩
  have hrest := executeMsg_collects hstale hbuild hadt htakes.1 htakes.2.2
    fun _ _ ⟨_, _, _, h⟩ => h
  apply hrest.mono _ fun _ _ h => h
  rintro ret d' ⟨rfl, hexec, log', p', ⟨sent, hmoves, rfl, -⟩, hholds', hlog'⟩
  exact ⟨rfl, hexec, sent, some p', hmoves, hholds', hlog'⟩

/-- A command that starts with an empty buffer. -/
theorem executeMsg_fresh (hE : E.Acks) (hstale : d.session.stale = 0)
    (hbuf : 4096 ≤ d.session.bufsize) {p : Option Packet}
    (hlog : d.Logged past (log ++ p.toList.map Packet.mail)) (hfilled : d.session.Filled)
    (hother : ∀ q, p = some q → ¬ q.Takes d.session d.session.cmd) (hholds : d.session.Holds none)
    (aggregate : Bool) :
    Ends (executeMsg E d.session.cmd aggregate) d (Executes past log p d) fun _ _ => False := by
  by_cases hcollects : d.session.Collects
  · obtain ⟨name, hname⟩ : ∃ name, d.session.data.getSetname = some name := by
      apply Option.isSome_iff_exists.mp
      unfold Session.Filled at hfilled
      rcases hcollects.2 with h | h <;> rw [h] at hfilled <;> exact hfilled.1
    have hfirst := buildMsg_fresh hbuf hlog hcollects.2 hfilled hcollects.1 hname hholds aggregate
    have hbuild : Ends (buildOrCommit E aggregate) d
        (fun ret d' => ret = 0 ∧ ∃ log' p', (log' = log ++ p.toList.map Packet.mail ∧
            p' = ⟨d.session.cmd, d.session.envopts.exist, name, [d.session.itemOf]⟩) ∧
          Collected past log' p' d d') fun _ _ => False := by
      simp only [buildOrCommit, ends_bind]
      apply hfirst.mono _ fun _ _ h => h
      rintro ret d' ⟨rfl, h⟩
      rw [if_pos le_rfl]
      exact ⟨rfl, _, _, ⟨rfl, rfl⟩, h⟩
    have hrest := executeMsg_collects hstale hbuild hcollects.2 hcollects.1 hname
      fun _ _ h => h.2 ▸ ⟨rfl, rfl⟩
    apply hrest.mono _ fun _ _ h => h
    rintro ret d' ⟨rfl, hexec, log', p', ⟨rfl, rfl⟩, hholds', hlog'⟩
    exact ⟨rfl, hexec, _, _, .fresh hcollects hother name hname, hholds', hlog'⟩
  · have hsingle := executeMsg_single hE hstale hbuf hlog hholds hfilled
      (fun h => not_not.mp fun hline => hcollects ⟨hline, h⟩) aggregate
    apply hsingle.mono _ fun _ _ h => h
    rintro ret d' ⟨rfl, hexec, hnone', hlog'⟩
    rw [List.append_assoc] at hlog'
    exact ⟨rfl, hexec, _, none, .single hcollects, hnone', hlog'⟩

theorem dsetCmd_moves (hE : E.Acks) (hstale : d.session.stale = 0)
    (hbuf : 4096 ≤ d.session.bufsize) (hlog : d.Logged past log) {p : Option Packet}
    (hp : d.session.Holds p) {cmd : Cmd}
    (hfilled : { d.session with cmd := cmd }.Filled) :
    Ends (dsetCmd E cmd d.session.lineno) d
      (Executes past log p (d.mapSession fun s => { s with cmd := cmd })) fun _ _ => False := by
  have hchanges : cmd.changes = true := hfilled.changes
  have hmsg : cmd.isMsg = true ∧ ¬ (cmd = .type ∨ cmd = .header) ∧ cmd ≠ .none ∧
      ¬ (cmd = .list ∨ cmd = .save) := by
    cases cmd <;> first | exact absurd hchanges (by decide) | decide
  obtain ⟨hmsg, hprivate, hnone, hlist⟩ := hmsg
  simp only [dsetCmd, hmsg, Bool.not_true, Bool.false_eq_true, if_false, hprivate, ends_bind]
  apply (startCmd_started hE hstale hlog hp hnone).mono _ fun _ _ h => h
  rintro _ d1 ⟨aggregate, rfl, h1⟩
  obtain ⟨hstale1, hdata1, hline1, hquiet1, hbuf1, hopts1⟩ := h1.opened
  simp only [startOutput, ends_bind, ends_modifySession, ends_session, hlist, false_and, if_false,
    ends_pure]
  -- the session in which the message is built
  let d2 : Process κ := d1.mapSession fun s =>
    { s with
      cmd := cmd
      lineno := d.session.lineno
      mode := { s with cmd := cmd, lineno := d.session.lineno }.outputMode cmd }
  have hfilled2 : d2.session.Filled := by
    unfold Session.Filled
    rw [show d2.session.data = d.session.data from hdata1]
    exact hfilled
  have htakes2 (q : Packet) : q.Takes d2.session d2.session.cmd ↔ q.Takes d.session cmd := by
    unfold Packet.Takes
    rw [show d2.session.data = d.session.data from hdata1]
  have hexec : Ends (executeMsg E d2.session.cmd aggregate) d2 (Executes past log p d2)
      fun _ _ => False := by
    rcases h1.holds with ⟨q, rfl, htakes, rfl, hholds, hlog1⟩ | ⟨hother, hholds, hlog1⟩
    · obtain ⟨nlh, hbuffer, hbatch, hlen, -, hsaved, hadt⟩ := hholds
      exact executeMsg_push (d := d2) hE hstale1 (hbuf1.symm ▸ hbuf) hlog1 hfilled2
        ((htakes2 q).mpr htakes)
        ⟨nlh, hbuffer, hbatch, hlen, htakes.2.1, hsaved, hadt⟩
    · exact executeMsg_fresh (d := d2) hE hstale1 (hbuf1.symm ▸ hbuf) hlog1 hfilled2
        (fun q hq ht => hother q hq ((htakes2 q).mp ht)) hholds aggregate
  apply hexec.mono _ fun _ _ h => h
  rintro ret d' ⟨rfl, h, sent, p', hmoves, hholds, hlog'⟩
  have hmoves' : Moves { d.session with cmd := cmd } p sent p' :=
    Moves.congr (s := d2.session) (t := { d.session with cmd := cmd }) hdata1 rfl rfl hbuf1 hopts1
      hmoves
  refine ⟨rfl, ?_, sent, p', hmoves', hholds, hlog'⟩
  exact ⟨h.data, h.stale, fun hq => h.quiet (hquiet1 hq), h.bufsize.trans hbuf1,
    h.envopts.trans hopts1, h.input.restoreLine.trans h1.input.restoreLine,
    h.input.stdin.trans h1.input.stdin, h.input.istream.trans h1.input.istream⟩

end

end Dset.User
