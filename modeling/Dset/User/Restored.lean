import Dset.User.Accepted
import Dset.User.Saved

/-! What a save printed is restored. A kernel that serves the type gets the sets of the dump with
their options and their elements, each once and behind its set: every line is accepted where it is
reached, since the line that creates a set puts it into the cache, where the lines of its elements
find it. -/

namespace Dset.User

open Dset.Lib Dset.Core Options

variable {κ : Type} {E : Env κ} {d : Process κ}

/-! ### The cache -/

/-- A set stays in the cache when another is added, which is there afterwards. -/
theorem mem_dsetCacheAdd (name : SetName) (type : DsetType) (setlist : List CachedSet) :
    (∀ s ∈ setlist, s ∈ (dsetCacheAdd true name type setlist).2) ∧
      ∃ s ∈ (dsetCacheAdd true name type setlist).2, s.name = name := by
  unfold dsetCacheAdd
  rw [Bool.not_true, if_neg Bool.false_ne_true, dsetCacheAppend_eq]
  by_cases hknown : ∃ e ∈ setlist.dropLast, e.name = name
  · rw [if_pos hknown]
    obtain ⟨e, he, hname⟩ := hknown
    exact ⟨fun _ hs => hs, e, List.mem_of_mem_dropLast he, hname⟩
  · rw [if_neg hknown]
    exact ⟨fun _ hs => List.mem_append_left _ hs, _, List.mem_append_right _ List.mem_cons_self, rfl⟩

/-- What a command leaves of the rest of the process: no set is forgotten. -/
structure Process.Keeps (d d' : Process κ) : Prop where
  kernelCheck : d'.kernelCheck = d.kernelCheck
  versionChecked : d'.session.versionChecked = d.session.versionChecked
  protocol : d'.session.protocol = d.session.protocol
  caches : ∀ name, d.Caches name → d'.Caches name

/-- The set of a `create` that was sent is in the cache. -/
def Process.Created (d d' : Process κ) : Prop :=
  d.session.cmd = .create → ∀ name, d.session.data.getSetname = some name → d'.Caches name

/-- The answer to a set, an addition or a deletion. -/
theorem callbackAcked_keeps (hE : E.Serves)
    (hcmd : d.session.cmd = .create ∨ d.session.cmd = .add ∨ d.session.cmd = .del)
    (hack : d.session.Ackable) {X : ℕ → Process κ → Prop} :
    Ends (callbackAcked E) d
      (fun ret d' => ret = 0 ∧ d'.session = d.session ∧ d.Keeps d' ∧ d.Created d') X := by
  unfold Session.Ackable at hack
  simp only [callbackAcked, ends_bind, ends_session]
  rcases hcmd with hcmd | hcmd | hcmd
  · rw [hcmd] at hack ⊢
    obtain ⟨name, hname⟩ := Option.isSome_iff_exists.mp hack.1
    obtain ⟨type, htype⟩ := Option.isSome_iff_exists.mp hack.2
    simp only [hname, htype, ends_bind, ends_malloc, ends_modify, ends_pure, hE.malloc]
    obtain ⟨hkeeps, hadded⟩ := mem_dsetCacheAdd name type d.setlist
    refine ⟨rfl, trivial, ⟨rfl, rfl, rfl, ?_⟩, fun _ name' hname' => ?_⟩
    · rintro name ⟨s, hs, hsname⟩
      exact ⟨s, hkeeps s hs, hsname⟩
    · obtain rfl := Option.some.inj (hname.symm.trans hname')
      exact hadded
  · have hother : d.session.cmd ≠ .create := by
      rw [hcmd]
      decide
    rw [hcmd]
    exact ⟨rfl, rfl, ⟨rfl, rfl, rfl, fun _ h => h⟩, fun h => absurd h hother⟩
  · have hother : d.session.cmd ≠ .create := by
      rw [hcmd]
      decide
    rw [hcmd]
    exact ⟨rfl, rfl, ⟨rfl, rfl, rfl, fun _ h => h⟩, fun h => absurd h hother⟩

theorem dsetCommit_keeps (hE : E.Serves) (hstale : d.session.stale = 0) {nlh : Nlmsg}
    (hbuffer : d.session.buffer = some nlh) (hchanges : nlh.cmd.changes = true)
    (hcmd : d.session.cmd = .create ∨ d.session.cmd = .add ∨ d.session.cmd = .del)
    (hack : d.session.Ackable) :
    Ends (dsetCommit E) d (fun _ d' => d.Keeps d' ∧ d.Created d') fun _ _ => False := by
  have hclosed : (Session.closeAll nlh d.session.nested).cmd.changes = true := by
    rw [(closeAll_eq nlh d.session.nested).1]
    exact hchanges
  obtain ⟨quoted, hanswer⟩ := hE.acks d.kernel _ hclosed
  simp only [dsetCommit, ends_bind, ends_session, hbuffer, ends_modifySession, ends_ite, ends_pure]
  apply dsetMnlQuery_one hE.succeeds hstale hanswer
  have hcallback := callbackAcked_keeps (X := fun _ _ => False)
    (d := d.sendTo E (Session.closeAll nlh d.session.nested)) hE hcmd hack
  apply hcallback.mono _ fun _ _ h => h
  rintro ret d' ⟨rfl, hsession, hkeeps, hcreated⟩
  exact ⟨rfl, fun h => absurd h (lt_irrefl _), fun _ =>
    ⟨⟨hkeeps.kernelCheck, hkeeps.versionChecked, hkeeps.protocol, hkeeps.caches⟩, hcreated⟩⟩

theorem dsetCommit_empties (hE : E.Serves) (hstale : d.session.stale = 0) {p : Option Packet}
    (hp : d.session.Holds p) :
    Ends (dsetCommit E) d (fun _ d' => d.Keeps d') fun _ _ => False := by
  cases p with
  | none =>
    simp only [dsetCommit, ends_bind, ends_session, hp.1, ends_pure]
    exact ⟨rfl, rfl, rfl, fun _ h => h⟩
  | some p =>
    obtain ⟨nlh, hbuffer, hbatch, -, hcmd, -, hadt⟩ := hp
    have hchanges : nlh.cmd.changes = true := by
      rw [hbatch.cmd]
      rcases hadt with h | h <;> rw [h] <;> rfl
    have hack : d.session.Ackable := by
      unfold Session.Ackable
      rcases hadt with h | h <;> rw [hcmd, h] <;> trivial
    apply (dsetCommit_keeps hE hstale hbuffer hchanges (.inr (hcmd ▸ hadt)) hack).mono _
      fun _ _ h => h
    exact fun _ _ h => h.1

/-! ### One command -/

theorem buildMsg_rest (aggregate : Bool) {X : ℕ → Process κ → Prop} :
    Ends (buildMsg aggregate) d
      (fun _ d' => d'.kernelCheck = d.kernelCheck ∧ d'.setlist = d.setlist) X := by
  simp only [buildMsg, ends_bind, ends_session]
  cases d.session.buildMsg aggregate with
  | done s => exact ⟨rfl, rfl⟩
  | full s => exact ⟨rfl, rfl⟩
  | invalid s r => exact ⟨rfl, rfl⟩

/-- One more element, the buffer being sent before when it is full. -/
theorem buildOrCommit_keeps (hE : E.Serves) (hstale : d.session.stale = 0) {p : Packet}
    (hholds : d.session.Holds (some p)) :
    Ends (buildOrCommit E true) d
      (fun _ d' => d'.kernelCheck = d.kernelCheck ∧ ∀ name, d.Caches name → d'.Caches name)
      fun _ _ => False := by
  have hcommit := dsetCommit_empties hE hstale hholds
  obtain ⟨nlh, hbuffer, -, -, hcmd, -, hadt⟩ := hholds
  have hbuild := Session.buildMsg_behind hbuffer (hcmd ▸ hadt)
  have hsame : { d.session with buffer := some nlh, nested := d.session.nested } = d.session := by
    rw [← hbuffer]
  rcases d.session.buildItem_eq nlh d.session.nested with hfull | ⟨hdone, -⟩
  · have hfirst : Ends (buildMsg true) d (fun ret d' => ret = 1 ∧ d' = d) fun _ _ => False := by
      rw [hsame] at hfull
      simp only [buildMsg, ends_bind, ends_session, hbuild, hfull, ends_modifySession, ends_pure]
      trivial
    have hone : ¬ (1 : ℤ) ≤ 0 := by decide
    simp only [buildOrCommit, ends_bind]
    apply hfirst.mono _ fun _ _ h => h
    rintro ret d1 ⟨rfl, rfl⟩
    rw [if_neg hone, ends_bind]
    apply hcommit.mono _ fun _ _ h => h
    rintro ret d2 hkeeps
    refine ends_ite.mpr ⟨fun _ => ⟨hkeeps.kernelCheck, hkeeps.caches⟩, fun _ => ?_⟩
    apply (buildMsg_rest false).mono _ fun _ _ h => h
    rintro ret d3 ⟨hcheck, hlist⟩
    refine ⟨hcheck.trans hkeeps.kernelCheck, fun name hname => ?_⟩
    unfold Process.Caches
    rw [hlist]
    exact hkeeps.caches name hname
  · simp only [buildOrCommit, buildMsg, ends_bind, ends_session, hbuild, hdone, ends_modifySession,
      ends_pure, le_refl, if_true]
    exact ⟨trivial, fun _ h => h⟩

theorem executeMsg_collecting {aggregate : Bool} {name : SetName}
    (hbuild : Ends (buildOrCommit E aggregate) d
      (fun ret d' => ret = 0 ∧ d'.session.committed = d.session.committed ∧
        d'.kernelCheck = d.kernelCheck ∧ ∀ name, d.Caches name → d'.Caches name) fun _ _ => False)
    (hcmd : d.session.cmd = .add ∨ d.session.cmd = .del) (hline : d.session.lineno ≠ 0)
    (hname : d.session.data.getSetname = some name) :
    Ends (executeMsg E d.session.cmd aggregate) d (fun _ d' => d.Keeps d') fun _ _ => False := by
  simp only [executeMsg, ends_bind]
  apply hbuild.mono _ fun _ _ h => h
  rintro ret d1 ⟨rfl, hkept, hcheck, hcaches⟩
  obtain ⟨hdata, -, hline1, -⟩ := Session.same_of_committed hkept
  have hcollect : d1.session.lineno ≠ 0 ∧ (d.session.cmd = .add ∨ d.session.cmd = .del) :=
    ⟨hline1 ▸ hline, hcmd⟩
  have hname1 : d1.session.data.getSetname = some name := by rw [hdata, hname]
  rw [if_neg (lt_irrefl _)]
  simp only [ends_bind, ends_modifySession, ends_session, if_pos hcollect, hname1, ends_pure]
  exact ⟨hcheck, (congrArg Session.versionChecked hkept :), (congrArg Session.protocol hkept :),
    hcaches⟩

theorem executeMsg_sending (hE : E.Serves) (hstale : d.session.stale = 0)
    (hbuf : 4096 ≤ d.session.bufsize) (hholds : d.session.Holds none)
    (hfilled : d.session.Filled)
    (hcmd : d.session.cmd = .create ∨ d.session.cmd = .add ∨ d.session.cmd = .del)
    (hline : d.session.cmd = .add ∨ d.session.cmd = .del → d.session.lineno = 0)
    (aggregate : Bool) :
    Ends (executeMsg E d.session.cmd aggregate) d (fun _ d' => d.Keeps d' ∧ d.Created d')
      fun _ _ => False := by
  obtain ⟨nlh, hbuild, hsingle⟩ := Session.buildMsg_single hbuf hfilled hholds hline aggregate
  have hchanges : nlh.cmd.changes = true := by
    rw [hsingle.cmd, Session.toItem_cmd]
    exact hfilled.changes
  have hcollect : ¬ ((d.session.withMsg nlh).lineno ≠ 0 ∧
      (d.session.cmd = .add ∨ d.session.cmd = .del)) := fun h => h.1 (hline h.2)
  have hcommit := dsetCommit_keeps
    (d := (d.mapSession fun s => s.withMsg nlh).mapSession fun s =>
      { s with savedType := s.data.getType }) hE hstale rfl hchanges hcmd hfilled.ackable
  simp only [executeMsg, buildOrCommit, buildMsg, ends_bind, ends_session, hbuild,
    ends_modifySession, ends_pure, le_refl, if_true, lt_irrefl, if_false]
  rw [if_neg hcollect]
  simp only [ends_bind, ends_pure, ends_modifyData]
  apply hcommit.mono _ fun _ _ h => h
  rintro ret d' ⟨hkeeps, hcreated⟩
  exact ⟨⟨hkeeps.kernelCheck, hkeeps.versionChecked, hkeeps.protocol, hkeeps.caches⟩, hcreated⟩

theorem startCmd_fine (hE : E.Serves) (h : d.Fine) {p : Option Packet} (hp : d.session.Holds p)
    (cmd : Cmd) :
    Ends (startCmd E cmd) d (fun _ d' => (d'.session.versionChecked = true →
        d'.session.protocol = dsetProtocol) ∧ d'.kernelCheck ≠ .mismatch ∧
        ∀ name, d.Caches name → d'.Caches name) fun _ _ => False := by
  simp only [startCmd, ends_bind, ends_ite, ends_pure, ends_session]
  apply (openSession_fine hE h cmd).mono _ fun _ _ h => h
  rintro ok d1 ⟨rfl, h1, -, -, hsteady⟩
  have hcaches : ∀ name, d.Caches name → d1.Caches name := by
    intro name hname
    unfold Process.Caches
    rw [show d1.setlist = d.setlist from congrArg (·.setlist) hsteady]
    exact hname
  have hdone : (d1.session.versionChecked = true → d1.session.protocol = dsetProtocol) ∧
      d1.kernelCheck ≠ .mismatch ∧ ∀ name, d.Caches name → d1.Caches name :=
    ⟨h1.protocol, h1.known, hcaches⟩
  refine ⟨fun _ => hdone, fun _ => ⟨fun _ => hdone, fun _ => ⟨fun _ => hdone, fun _ => ?_⟩⟩⟩
  apply (dsetCommit_empties hE h1.stale (hp.of_steady hsteady)).mono _ fun _ _ h => h
  intro ret d2 hkeeps
  refine ⟨fun hversion => ?_, hkeeps.kernelCheck ▸ h1.known,
    fun name hname => hkeeps.caches name (hcaches name hname)⟩
  rw [hkeeps.protocol]
  exact h1.protocol (hkeeps.versionChecked.symm.trans hversion)

section

variable {past : List (Nlmsg × List (List KMsg))} {log : List (Bool × Option (List Item))}

/-- The message of a command is built and sent or left in the buffer. -/
theorem executeMsg_keeps (hE : E.Serves) (hstale : d.session.stale = 0)
    (hbuf : 4096 ≤ d.session.bufsize) (hfilled : d.session.Filled)
    (hcmd : d.session.cmd = .create ∨ d.session.cmd = .add) {aggregate : Bool} {p : Option Packet}
    (hlog : d.Logged past log) (hholds : d.session.Holds p)
    (hstart : p = none ∨ aggregate = true ∧ ∃ q, p = some q ∧ q.Takes d.session d.session.cmd) :
    Ends (executeMsg E d.session.cmd aggregate) d (fun _ d' => d.Keeps d' ∧ d.Created d')
      fun _ _ => False := by
  have hcreated (hadd : d.session.cmd = .add) (d' : Process κ) : d.Created d' :=
    fun hcreate => absurd (hadd.symm.trans hcreate) (by decide)
  rcases hstart with rfl | ⟨rfl, q, rfl, htakes⟩
  · by_cases hcollects : d.session.Collects
    · have hadd : d.session.cmd = .add := hcmd.resolve_left fun hcreate => by
        rcases hcollects.2 with h | h <;> exact absurd (hcreate.symm.trans h) (by decide)
      obtain ⟨name, hname⟩ : ∃ name, d.session.data.getSetname = some name := by
        apply Option.isSome_iff_exists.mp
        unfold Session.Filled at hfilled
        rw [hadd] at hfilled
        exact hfilled.1
      have hfirst := buildMsg_fresh hbuf hlog hcollects.2 hfilled hcollects.1 hname hholds aggregate
      have hbuild : Ends (buildOrCommit E aggregate) d
          (fun ret d' => ret = 0 ∧ d'.session.committed = d.session.committed ∧
            d'.kernelCheck = d.kernelCheck ∧ ∀ name, d.Caches name → d'.Caches name)
          fun _ _ => False := by
        simp only [buildOrCommit, ends_bind]
        apply (hfirst.and (buildMsg_rest (X := fun _ _ => False) aggregate)).mono _ fun _ _ h => h.1
        rintro ret d' ⟨⟨rfl, hcollected⟩, hcheck, hlist⟩
        rw [if_pos le_rfl]
        refine ⟨rfl, hcollected.kept, hcheck, fun name hname => ?_⟩
        unfold Process.Caches
        rw [hlist]
        exact hname
      apply (executeMsg_collecting hbuild hcollects.2 hcollects.1 hname).mono _ fun _ _ h => h
      exact fun _ d' h => ⟨h, hcreated hadd d'⟩
    · exact executeMsg_sending hE hstale hbuf hholds hfilled (hcmd.imp_right .inl)
        (fun h => not_not.mp fun hline => hcollects ⟨hline, h⟩) aggregate
  · have hadd : d.session.cmd = .add := hcmd.resolve_left fun hcreate => by
      obtain ⟨-, -, -, -, -, -, hadt⟩ := hholds
      rcases hadt with h | h <;>
        exact absurd (hcreate.symm.trans (htakes.2.1.trans h)) (by decide)
    have hpush := buildOrCommit_push hE.toAcks hstale hbuf hlog hfilled htakes.1 htakes.2.2 hholds
    have hbuild : Ends (buildOrCommit E true) d
        (fun ret d' => ret = 0 ∧ d'.session.committed = d.session.committed ∧
          d'.kernelCheck = d.kernelCheck ∧ ∀ name, d.Caches name → d'.Caches name)
        fun _ _ => False := by
      apply (hpush.and (buildOrCommit_keeps hE hstale hholds)).mono _ fun _ _ h => h.1
      rintro ret d' ⟨⟨rfl, ⟨-, h⟩ | ⟨-, h⟩⟩, hrest⟩
      · exact ⟨rfl, h.kept, hrest⟩
      · exact ⟨rfl, h.kept, hrest⟩
    apply (executeMsg_collecting hbuild (.inl hadd) htakes.1 htakes.2.2).mono _ fun _ _ h => h
    exact fun _ d' h => ⟨h, hcreated hadd d'⟩

/-- A set that is created is in the cache afterwards, and an element leaves the cache alone. -/
theorem dsetCmd_keeps (hE : E.Serves) (h : d.Fine) (hlog : d.Logged past log) {p : Option Packet}
    (hp : d.session.Holds p) {cmd : Cmd} (hcmd : cmd = .create ∨ cmd = .add)
    (hfilled : { d.session with cmd := cmd }.Filled) :
    Ends (dsetCmd E cmd d.session.lineno) d
      (fun _ d' => d'.Fine ∧ (∀ name, d.Caches name → d'.Caches name) ∧
        (cmd = .create → ∀ name, d.session.data.getSetname = some name → d'.Caches name))
      fun _ _ => False := by
  have hmsg : cmd.isMsg = true ∧ ¬ (cmd = .type ∨ cmd = .header) ∧ cmd ≠ .none ∧
      ¬ (cmd = .list ∨ cmd = .save) := by rcases hcmd with rfl | rfl <;> decide
  obtain ⟨hmsg, hprivate, hnone, hlist⟩ := hmsg
  have hmoves := dsetCmd_moves hE.toAcks h.stale h.page hlog hp hfilled
  have hkeeps : Ends (dsetCmd E cmd d.session.lineno) d
      (fun _ d' => (d'.session.versionChecked = true → d'.session.protocol = dsetProtocol) ∧
        d'.kernelCheck ≠ .mismatch ∧ (∀ name, d.Caches name → d'.Caches name) ∧
        (cmd = .create → ∀ name, d.session.data.getSetname = some name → d'.Caches name))
      fun _ _ => False := by
    simp only [dsetCmd, hmsg, Bool.not_true, Bool.false_eq_true, if_false, hprivate, ends_bind]
    apply ((startCmd_started hE.toAcks h.stale hlog hp hnone).and (startCmd_fine hE h hp cmd)).mono _
      fun _ _ h => h.1
    rintro _ d1 ⟨⟨aggregate, rfl, h1⟩, hproto1, hknown1, hcaches1⟩
    obtain ⟨hstale1, hdata1, -, -, hbuf1, -⟩ := h1.opened
    simp only [startOutput, ends_bind, ends_modifySession, ends_session, hlist, false_and, if_false,
      ends_pure]
    -- the session in which the message is built
    let d2 : Process κ := d1.mapSession fun s =>
      { s with
        cmd := cmd
        lineno := d.session.lineno
        mode := { s with cmd := cmd, lineno := d.session.lineno }.outputMode cmd }
    have hfilled2 : d2.session.Filled := by
      unfold Session.Filled
      rw [show d2.session.data = d.session.data from hdata1]
      exact hfilled
    have hexec : Ends (executeMsg E d2.session.cmd aggregate) d2
        (fun _ d' => d2.Keeps d' ∧ d2.Created d') fun _ _ => False := by
      rcases h1.holds with ⟨q, rfl, htakes, rfl, hholds, hlog1⟩ | ⟨-, hholds, hlog1⟩
      · obtain ⟨nlh, hbuffer, hbatch, hlen, -, hsaved, hadt⟩ := hholds
        refine executeMsg_keeps (d := d2) (p := some q) hE hstale1 (hbuf1.symm ▸ h.page) hfilled2
          hcmd hlog1 ⟨nlh, hbuffer, hbatch, hlen, htakes.2.1, hsaved, hadt⟩
          (.inr ⟨rfl, q, rfl, ?_⟩)
        unfold Packet.Takes
        rw [show d2.session.data = d.session.data from hdata1]
        exact htakes
      · exact executeMsg_keeps (d := d2) (p := none) hE hstale1 (hbuf1.symm ▸ h.page) hfilled2 hcmd
          hlog1 hholds (.inl rfl)
    apply hexec.mono _ fun _ _ h => h
    rintro ret d' ⟨hkeeps, hcreated⟩
    refine ⟨fun hversion => ?_, hkeeps.kernelCheck ▸ hknown1,
      fun name hname => hkeeps.caches name (hcaches1 name hname), fun hcreate name hname => ?_⟩
    · rw [hkeeps.protocol]
      exact hproto1 (hkeeps.versionChecked.symm.trans hversion)
    · exact hcreated hcreate name ((congrArg Data.getSetname hdata1).trans hname)
  apply (hmoves.and hkeeps).mono _ fun _ _ h => h.1
  rintro ret d' ⟨⟨rfl, hexec, -⟩, hproto, hknown, hcaches, hcreated⟩
  have hbufsize : d'.session.bufsize = d.session.bufsize := hexec.bufsize
  exact ⟨⟨hknown, hproto, hexec.stale, hbufsize ▸ h.page⟩, hcaches, hcreated⟩

end

/-! ### One line -/

theorem ofStr_own {name name' : SetName} (h : SetName.ofStr name.text = some name') :
    name = name' :=
  name_eq_of_text (ofStr_text h).symm

/-- A line about a set that says something without an option that is ignored: it creates the set or
adds an element to it. -/
structure Restores (cmd : Cmd) (name : SetName) (argv : List Str) : Prop where
  line : IsLine argv
  noEnvopt : NoEnvopt argv
  means : ∃ arg1 rest, cmdArgs argv = some ⟨cmd, some name.text, arg1, rest⟩ ∧
    NoneIgnored cmd rest ∧ (CmdArgs.data ⟨cmd, some name.text, arg1, rest⟩).isSome = true

/-- A process between two lines of a restore, with sets in the cache. -/
structure Process.Resting (page : ℕ) (names : List SetName) (d : Process κ) : Prop where
  idle : ∃ past log p exist, d.Idle past log p page exist
  fine : d.Fine
  data : d.session.data = Data.reset
  caches : ∀ name ∈ names, d.Caches name

section

variable {page : ℕ} {names : List SetName} {loops : Loops κ} {cmd : Cmd} {name : SetName}
  {argv : List Str}

/-- The line is parsed without an error or a warning. -/
theorem parseLine_restores (hE : E.Serves) (h : d.Resting page names) (loops : Loops κ)
    (hline : Restores cmd name argv)
    (hcmd : cmd = .create ∨ cmd = .add ∧ name ∈ names) :
    ∃ d', parseLine E loops argv d = .ok (.ok cmd) d' ∧ d'.Fine ∧ d'.session.Quiet ∧
      Parsed E argv d cmd d' ∧ { d'.session with cmd := cmd }.Filled ∧
      d'.session.data.getSetname = some name := by
  obtain ⟨arg1, rest, hargs, hclean, hmeans⟩ := hline.means
  obtain ⟨data, hmeans⟩ := Option.isSome_iff_exists.mp hmeans
  obtain ⟨past, log, p, exist, hidle⟩ := h.idle
  have hchanges : cmd.changes = true := by rcases hcmd with rfl | ⟨rfl, -⟩ <;> rfl
  have hcached : CmdArgs.Cached ⟨cmd, some name.text, arg1, rest⟩ d := by
    rintro hadt arg0 name' ⟨⟩ hof
    rcases hcmd with rfl | ⟨rfl, hmem⟩
    · rcases hadt with hadt | hadt <;> cases hadt
    · rw [← ofStr_own hof]
      exact h.caches name hmem
  have hreturns := parseLine_accepts hE h.fine h.data loops hline.noEnvopt hargs hchanges hmeans hcached
  unfold Returns Ends at hreturns
  cases hrun : parseLine E loops argv d with
  | error status d' =>
    rw [hrun] at hreturns
    exact hreturns.elim
  | ok res d' =>
    rw [hrun] at hreturns
    obtain ⟨cmd', rfl, rfl, hfine, hparsed⟩ := hreturns
    obtain ⟨c, hc, hcmd', hdata, hquiet⟩ := hparsed.line
    rw [hline.noEnvopt.lineArgs_eq, hargs] at hc
    obtain rfl := Option.some.inj hc
    refine ⟨d', rfl, hfine, hquiet hclean hidle.quiet, hparsed,
      Session.filled_of_data hdata rfl hchanges hparsed.typed, ?_⟩
    obtain ⟨name', hget, htext⟩ : ∃ name', d'.session.data.getSetname = some name' ∧
        name'.text = name.text := by
      rw [← Data.getSetname_forget]
      rcases hcmd with rfl | ⟨rfl, -⟩
      · obtain ⟨arg0, harg0, hname, -⟩ := data_create rfl hdata
        obtain rfl := Option.some.inj harg0
        exact hname
      · obtain ⟨arg0, arg1, harg0, -, hname, -⟩ := data_adt (.inl rfl) hdata
        obtain rfl := Option.some.inj harg0
        exact hname
    rw [hget, name_eq_of_text htext]

/-- A line is clean where it is reached, and its set is in the cache behind it. -/
theorem streamLine_restores (hE : E.Serves) (hpage : 4096 ≤ page) (h : d.Resting page names)
    (hline : Restores cmd name argv) (hcmd : cmd = .create ∨ cmd = .add ∧ name ∈ names) :
    CleanLine E loops (argvText argv) { d with restoreLine := (d.restoreLine + 1) % 2 ^ 32 } ∧
      ∀ d', streamLine E loops (argvText argv) d = .ok (.ok ()) d' →
        d'.Resting page (name :: names) := by
  have hchanges : cmd.changes = true := by rcases hcmd with rfl | ⟨rfl, -⟩ <;> rfl
  have hread : readArgv ⟨[], [], false⟩ (skipSpace (argvText argv)) = some argv := by
    rw [hline.line.skipSpace_text, hline.line.readArgv_text]
  obtain ⟨past, log, p, exist, hidle⟩ := h.idle
  obtain ⟨d1, hbuild, h1, hidle1, hlist1⟩ : ∃ d1 : Process κ,
      buildArgv E (skipSpace (argvText argv))
          { d with restoreLine := (d.restoreLine + 1) % 2 ^ 32 } = .ok (0, argv) d1 ∧
        d1.Resting page names ∧ d1.Idle past log p page exist ∧ d1.setlist = d.setlist := by
    have hreturns := buildArgv_returns (d := { d with restoreLine := (d.restoreLine + 1) % 2 ^ 32 })
      hE.succeeds hread
    unfold Ends at hreturns
    cases hrun : buildArgv E (skipSpace (argvText argv))
        { d with restoreLine := (d.restoreLine + 1) % 2 ^ 32 } with
    | error status d1 =>
      rw [hrun] at hreturns
      exact hreturns.elim
    | ok r d1 =>
      rw [hrun] at hreturns
      obtain ⟨rfl, n, rfl⟩ := hreturns
      have hidle1 : Process.Idle (κ := κ) past log p page exist
          { d with restoreLine := (d.restoreLine + 1) % 2 ^ 32, calls := n } :=
        ⟨hidle.stale, hidle.quiet, hidle.data, hidle.holds, hidle.logged, hidle.page, hidle.exist⟩
      exact ⟨_, rfl, ⟨⟨past, log, p, exist, hidle1⟩,
        h.fine.stored rfl ⟨_, _, rfl⟩, h.data, h.caches⟩, hidle1, rfl⟩
  obtain ⟨d2, hparse, hfine2, hquiet2, hparsed, hfilled2, hname2⟩ :=
    parseLine_restores hE h1 loops hline hcmd
  have hclean : CleanLine E loops (argvText argv)
      { d with restoreLine := (d.restoreLine + 1) % 2 ^ 32 } :=
    .inr (.inr ⟨argv, d1, cmd, d2, hread, hbuild, hparse, hchanges, hquiet2⟩)
  refine ⟨hclean, fun d' hrun => ?_⟩
  obtain ⟨-, -, -, -, sent, p', exist', -, hidle'⟩ :=
    (ends_of_ok hrun).mp (streamLine_moves hE.toAcks hpage hidle hclean)
  obtain ⟨hpage2, hholds2, hlogged2⟩ := hparsed.waits hidle1
  have hlineno2 : d2.session.lineno = d2.restoreLine :=
    hparsed.lineno.trans (congrArg (·.restoreLine) hparsed.pending).symm
  have hlist2 : d2.setlist = d1.setlist := congrArg (·.setlist) hparsed.pending
  have hmoves := dsetCmd_moves hE.toAcks hfine2.stale hfine2.page hlogged2 hholds2 hfilled2
  have hkeeps := dsetCmd_keeps hE hfine2 hlogged2 hholds2 (hcmd.imp_right And.left) hfilled2
  have hrest : Ends (streamLine E loops (argvText argv)) d
      (fun _ d' => d'.Fine ∧ d'.session.data = Data.reset ∧ ∀ name' ∈ name :: names, d'.Caches name')
      fun _ _ => False := by
    obtain ⟨hblank, hcommit⟩ := hline.line.isCommand
    rw [← hline.line.skipSpace_text] at hblank hcommit
    simp only [streamLine, ends_bind, ends_modify]
    rw [hblank, if_neg Bool.false_ne_true, hcommit, if_neg Bool.false_ne_true, ends_bind,
      ends_of_ok hbuild]
    dsimp only
    rw [if_neg (lt_irrefl _)]
    simp only [dsetParseArgv, ends_bind, ends_pure]
    rw [ends_of_ok hparse]
    simp only [executeCmd, ends_bind, ends_get]
    rw [← hlineno2]
    apply (hmoves.and hkeeps).mono _ fun _ _ h => h.1
    rintro ret d3 ⟨⟨rfl, hexec, -⟩, hfine3, hcaches3, hcreated3⟩
    have hquiet3 := hexec.quiet hquiet2
    have hnone : ¬ ((0 : ℤ) < 0 ∨ d3.session.errType ≠ .noError) := by
      rintro (h | h)
      · exact lt_irrefl _ h
      · exact h hquiet3.2
    have hcached (name' : SetName) (hname' : name' ∈ names) : d3.Caches name' := by
      apply hcaches3
      unfold Process.Caches
      rw [hlist2]
      exact h1.caches name' hname'
    simp only [ends_session, ends_ite, ends_pure]
    refine ⟨fun hbad => absurd hbad hnone, fun _ => ends_softError ⟨hfine3, hexec.data, ?_⟩⟩
    rw [List.forall_mem_cons]
    refine ⟨?_, hcached⟩
    rcases hcmd with rfl | ⟨rfl, hmem⟩
    · exact hcreated3 rfl name hname2
    · exact hcached name hmem
  obtain ⟨hfine', hdata', hcaches'⟩ := (ends_of_ok hrun).mp hrest
  exact ⟨⟨past, _, p', exist', hidle'⟩, hfine', hdata', hcaches'⟩

end

/-! ### The lines of a dump -/

/-- Lines of which each adds an element only to a set that is known or was created before. -/
inductive Follows : List SetName → List (List Str) → Prop
  | nil (names : List SetName) : Follows names []
  | cons {names : List SetName} {cmd : Cmd} {name : SetName} {argv : List Str}
      {argvs : List (List Str)} (hline : Restores cmd name argv)
      (hcmd : cmd = .create ∨ cmd = .add ∧ name ∈ names) (hrest : Follows (name :: names) argvs) :
    Follows names (argv :: argvs)

theorem Follows.clean {page : ℕ} (hE : E.Serves) (hpage : 4096 ≤ page) {loops : Loops κ}
    {source : Source} {names : List SetName} {argvs : List (List Str)} (hlines : Follows names argvs)
    (h : d.Resting page names) : CleanLines E loops source (argvs.map argvText) d := by
  induction hlines generalizing d with
  | nil names => trivial
  | @cons names cmd name argv argvs hline hcmd hrest ih =>
    have hreads : (d.reads source (argvs.map argvText)).Resting page names := by
      obtain ⟨past, log, p, exist, hidle⟩ := h.idle
      unfold Process.reads
      split
      · exact ⟨⟨past, log, p, exist, hidle.stale, hidle.quiet, hidle.data, hidle.holds, hidle.logged,
          hidle.page, hidle.exist⟩, h.fine.stored rfl ⟨_, _, rfl⟩,
          h.data, h.caches⟩
      · exact h
    have hlineno : (d.reads source (argvs.map argvText)).restoreLine = d.restoreLine := by
      unfold Process.reads
      split
      · rfl
      · rfl
    obtain ⟨hclean, hnext⟩ := streamLine_restores (E := E) hE hpage hreads hline hcmd
    rw [hlineno] at hclean
    exact ⟨hclean, fun d' hrun => ih (hnext d' hrun)⟩

/-- An option of the set type is taken, a number is not mistaken for one. -/
theorem noneIgnored_optArgs {cmd : Cmd} {k : Keyword} (hk : k.isIgnored = false)
    (hfind : (typeArgs cmd).find? (dsetMatchOption k.name ·) = some k) (v : Option ℕ) :
    NoneIgnored cmd (optArgs k v) := by
  cases v with
  | none => exact fun arg harg => absurd harg List.not_mem_nil
  | some n =>
    have hnumber (k : Keyword) : dsetMatchOption (numberText n) k = false := by
      obtain ⟨d, l, hcons, hd, -⟩ := numeral_eq_cons (show 1 < 10 by decide) n
      obtain ⟨-, h45, -⟩ := digit_ne (show d < 16 by omega)
      have htwo : twoDashes (numberText n) = false := by
        rw [numberText_eq, hcons]
        refine decide_eq_false fun h => h45 ?_
        exact (List.cons.inj h).1
      have hletter : (k.name.head?.all fun c => (List.range 10).all fun d => digit d != c) = true := by
        cases k <;> decide
      unfold dsetMatchOption
      rw [htwo, if_neg Bool.false_ne_true, numberText_eq, hcons]
      refine decide_eq_false fun h => ?_
      rw [← h, List.head?_cons, Option.all_some, List.all_eq_true] at hletter
      exact bne_iff_ne.mp (hletter d (List.mem_range.mpr hd)) rfl
    intro arg harg k' hk'
    rcases List.mem_cons.mp harg with rfl | harg
    · obtain rfl := Option.some.inj (hfind.symm.trans hk')
      exact hk
    · rw [List.mem_singleton.mp harg] at hk'
      exact absurd (List.find?_some hk') (Bool.eq_false_iff.mp (hnumber k'))

theorem NoneIgnored.append {cmd : Cmd} {l l' : List Str} (h : NoneIgnored cmd l)
    (h' : NoneIgnored cmd l') : NoneIgnored cmd (l ++ l') := fun arg harg =>
  (List.mem_append.mp harg).elim (h arg) (h' arg)

/-- A line that asks for an item says something. -/
theorem isSome_of_item {c : CmdArgs} {lineno : ℕ} {i : Item} (h : c.item lineno = some i) :
    c.data.isSome = true := by
  obtain ⟨data, hdata, -⟩ := Option.map_eq_some_iff.mp h
  rw [hdata]
  rfl

theorem restores_createArgv {name : SetName} (hname : Plain name.text) {x : CreateOptions}
    (hx : x.Admitted) (hgc : x.gc = none) : Restores .create name (createArgv name x) := by
  have hmeans := item_createArgv name hx 0
  rw [cmdArgs_createArgv, Option.bind_some] at hmeans
  refine ⟨isLine_createArgv hname hx.toWide, fun t ht => (plain_createArgv hname x t ht).noEnvopt,
    _, _, cmdArgs_createArgv name x, ?_, isSome_of_item hmeans⟩
  rw [hgc]
  refine ((NoneIgnored.append ?_ ?_).append ?_).append fun arg harg => absurd harg List.not_mem_nil
  · exact noneIgnored_optArgs rfl (by decide) _
  · exact noneIgnored_optArgs rfl (by decide) _
  · exact noneIgnored_optArgs rfl (by decide) _

theorem restores_addArgv {name : SetName} (hname : Plain name.text) {e : DumpElem}
    (hdomain : Plain e.domain) (hsep : elemSeparator e.domain = false)
    (htimeout : ∀ t, e.timeout = some t → t.toNat ≤ maxTimeout) :
    Restores .add name (addArgv name e) := by
  have hmeans := item_addArgv name hsep htimeout 0
  rw [cmdArgs_addArgv, Option.bind_some] at hmeans
  exact ⟨isLine_addArgv hname hdomain, fun t ht => (plain_addArgv hname hdomain t ht).noEnvopt,
    _, _, cmdArgs_addArgv name e, noneIgnored_optArgs rfl (by decide) _,
    isSome_of_item hmeans⟩

theorem Follows.elements {name : SetName} (hname : Plain name.text) {es : List DumpElem}
    (hes : ∀ e ∈ es, Plain e.domain ∧ elemSeparator e.domain = false ∧
      ∀ t, e.timeout = some t → t.toNat ≤ maxTimeout)
    {argvs : List (List Str)} (hrest : ∀ names, Follows names argvs) {names : List SetName}
    (hmem : name ∈ names) : Follows names (es.map (addArgv name) ++ argvs) := by
  induction es generalizing names with
  | nil => exact hrest names
  | cons e es ih =>
    obtain ⟨⟨hdomain, hsep, htimeout⟩, hes⟩ := List.forall_mem_cons.mp hes
    exact .cons (restores_addArgv hname hdomain hsep htimeout) (.inr ⟨rfl, hmem⟩)
      (ih hes (List.mem_cons_of_mem _ hmem))

section

variable {sorted : Bool} {xs : List SetDump} {ess : List (List DumpElem)}

/-- Every set is created before its elements are added. -/
theorem follows_savedLines (hxs : ∀ x ∈ xs, x.Restorable) (hgc : ∀ x ∈ xs, x.create.gc = none)
    (hess : List.Forall₂ (SetDump.Ordered sorted) xs ess) (names : List SetName) :
    Follows names (List.zipWith (fun x es => savedLines x.toDumpHeader es) xs ess).flatten := by
  induction hess generalizing names with
  | nil => exact .nil names
  | @cons x es xs ess hes hess ih =>
    obtain ⟨hx, hxs⟩ := List.forall_mem_cons.mp hxs
    obtain ⟨hxgc, hgc⟩ := List.forall_mem_cons.mp hgc
    have helems : ∀ e ∈ es, Plain e.domain ∧ elemSeparator e.domain = false ∧
        ∀ t, e.timeout = some t → t.toNat ≤ maxTimeout := by
      intro e he
      have hmem := hes.1.mem_iff.mp he
      exact ⟨(hx.domain e hmem).1, (hx.domain e hmem).2, hx.timeout e hmem⟩
    rw [List.zipWith_cons_cons, List.flatten_cons, savedLines, List.cons_append]
    exact .cons (restores_createArgv hx.name hx.options hxgc) (.inl rfl)
      (.elements hx.name helems (ih hxs hgc) List.mem_cons_self)

/-! ### A restore of a save -/

/-- A restore of a text behind `past` succeeds, and the messages it sends are the sets of a dump
and their elements, in batches: every set is created with its options before its elements are
added with their timeouts, each once and nothing else. In a page of at most 64 KiB this is what
is read of them. -/
def Process.Restored (E : Env κ) (loops : Loops κ) (source : Source)
    (past : List (Nlmsg × List (List KMsg))) (page : ℕ) (exist : Bool) (xs : List SetDump)
    (ess : List (List DumpElem)) (text : Str) (d : Process κ) : Prop :=
  Ends (parseStream E loops source text) d
    (fun ret d' => ret = 0 ∧ ∃ gs,
      Batches (OneMessage page) (numbered exist d.restoreLine
        (List.zipWith (fun x es => savedItems x.toDumpHeader es) xs ess).flatten) gs ∧
      d'.Logged past (gs.map batchMail) ∧
      (page ≤ 2 ^ 16 → ((gs.map batchMail).filterMap (·.2)).flatten =
        (numbered exist d.restoreLine (List.zipWith (fun x es =>
          savedItems x.toDumpHeader es) xs ess).flatten).reduceOption.map (·.item)))
    fun _ _ => False

/-- A process that can restore a stream: nothing waits in its buffer or in its blob. -/
structure Process.Receptive (source : Source) (past : List (Nlmsg × List (List KMsg))) (page : ℕ)
    (exist : Bool) (d : Process κ) : Prop where
  idle : d.Idle past [] none page exist
  fine : d.Fine
  data : d.session.data = Data.reset
  file : source = .file → d.istream = true

theorem dsetInit_receptive {source : Source} (hsource : source ≠ .file) {page : ℕ} (hpage : 4096 ≤ page)
    (kernel : κ) (stdin : List UInt8) : (dsetInit page kernel stdin).Receptive source [] page false where
  idle :=
    { stale := rfl
      quiet := ⟨rfl, rfl⟩
      data := rfl
      holds := ⟨rfl, rfl⟩
      logged := ⟨[], rfl, rfl, fun _ hm => absurd hm List.not_mem_nil⟩
      page := rfl
      exist := rfl }
  fine :=
    { known := by
        show KernelCheck.checkNeeded ≠ .mismatch
        decide
      protocol := fun h => absurd h Bool.false_ne_true
      stale := rfl
      page := hpage }
  data := rfl
  file := fun h => absurd h hsource

/-- The text of a dump is restored. -/
theorem savedText_restored (hE : E.Serves) {loops : Loops κ} {source : Source}
    {past : List (Nlmsg × List (List KMsg))} {page : ℕ} {exist : Bool}
    (h : d.Receptive source past page exist) (hxs : ∀ x ∈ xs, x.Restorable)
    (hgc : ∀ x ∈ xs, x.create.gc = none) (hess : List.Forall₂ (SetDump.Ordered sorted) xs ess) :
    d.Restored E loops source past page exist xs ess (savedText xs ess) := by
  obtain ⟨hidle, hfine, hdata, hfile⟩ := h
  have hpage : 4096 ≤ page := hidle.page ▸ hfine.page
  have hlines := fgetsLines_text (isLine_of_restorable hxs hess)
  have hresting : d.Resting page [] :=
    ⟨⟨past, [], none, exist, hidle⟩, hfine, hdata, fun _ hname => absurd hname List.not_mem_nil⟩
  have hclean : CleanLines E loops source (fgetsLines (savedText xs ess)) d := by
    unfold savedText
    rw [hlines]
    exact (follows_savedLines hxs hgc hess []).clean hE hpage hresting
  have hscript : script d.restoreLine exist (fgetsLines (savedText xs ess)) =
      numbered exist d.restoreLine
        (List.zipWith (fun x es => savedItems x.toDumpHeader es) xs ess).flatten := by
    unfold savedText
    rw [hlines]
    exact script_text (lines_of_restorable hxs hess) d.restoreLine exist
  unfold Process.Restored
  rw [← hscript]
  apply (parseStream_moves hE.toAcks hpage hidle hfile hclean).mono _ fun _ _ h => h
  rintro ret d' ⟨rfl, sent, p', hmoves, hlogged, -⟩
  obtain ⟨gs, hgs, -, hsent⟩ := hmoves.delivers hpage hlogged
  exact ⟨rfl, gs, hgs, hsent, items_read hgs⟩

end

/-- A save whose text is restored: the command succeeds, and whatever process and kernel the text is
given to, a restore there sends the sets of the dump. -/
structure Process.Transfers (E : Env κ) (lineno : ℕ) (d d₁ : Process κ) (xs : List SetDump) :
    Prop where
  ends : Ends (dsetCmd E .save lineno) d
    (fun ret d' => ret = 0 ∧ ∃ strs ess, d'.session.out.printed = d₁.session.out.printed ++ strs ∧
      List.Forall₂ (SetDump.Ordered d₁.session.envopts.sorted) xs ess ∧
      ∀ {κ' : Type} (E' : Env κ') (loops : Loops κ') (source : Source)
        (past : List (Nlmsg × List (List KMsg))) (page : ℕ) (exist : Bool) (r : Process κ'),
        E'.Serves → r.Receptive source past page exist →
          r.Restored E' loops source past page exist xs ess strs.flatten)
    fun _ _ => False

/-- What a save prints, a restore sends to another kernel: all sets of the dump with their options
and their elements. -/
theorem save_restored (hE : E.Succeeds) (lineno : ℕ) {d₁ : Process κ} {aggregate : Bool}
    (hstart : startCmd E .save d = .ok (.ok aggregate) d₁) (hidle : d₁.Waiting)
    (hstale : d₁.session.stale = 0) (hmode : d₁.session.outputMode .save = .save)
    (hlen : d₁.session.data.overlay.length = dsetMaxnamelen) {nlh : Nlmsg}
    (hrequest : d₁.session.request .save = some nlh) {xs : List SetDump} {code : ℤ}
    (hanswer : (E.answer d₁.kernel nlh).1.flatten =
      (Dump.sets xs).parts.map (DumpPart.msg (d₁.settings .save)) ++ [.done code])
    (hx : (Dump.sets xs).Answers (d₁.settings .save)) (hxs : ∀ x ∈ xs, x.Restorable)
    (hgc : ∀ x ∈ xs, x.create.gc = none) : Process.Transfers E lineno d d₁ xs := by
  constructor
  apply (save_text hE lineno hstart hidle hstale hmode hlen hrequest hanswer hx hxs).mono _
    fun _ _ h => h
  rintro ret d' ⟨hret, strs, ess, hprinted, hess, htext⟩
  refine ⟨hret, strs, ess, hprinted, hess, ?_⟩
  intro κ' E' loops source past page exist r hE' hreceptive
  rw [htext]
  exact savedText_restored hE' hreceptive hxs hgc hess

theorem smallDump_gc (name : SetName) : ∀ x ∈ (smallDump name).setDumps, x.create.gc = none := by
  intro x hx
  rcases List.mem_cons.mp hx with rfl | hx
  · rfl
  · rw [List.mem_singleton.mp hx]
    rfl

theorem save_restored_two : Process.Transfers (smallEnv ⟨bytes "r", zero_notMem_r, length_r⟩) 0
    sortedProcess sortedProcess (smallDump ⟨bytes "r", zero_notMem_r, length_r⟩).setDumps ∧
      servingEnv.Serves ∧ (dsetInit 4096 () [] : Process Unit).Receptive .user [] 4096 false := by
  obtain ⟨nlh, hrequest⟩ := sortedProcess_request
  have hstale : sortedProcess.session.stale = 0 := rfl
  have hname : Plain (bytes "r") := plain_of_all (by decide) (by decide) (by decide)
  refine ⟨?_, servingEnv_serves, dsetInit_receptive (by decide) le_rfl () []⟩
  refine save_restored (smallEnv_succeeds _) 0 (sortedProcess_start _) sortedProcess_waiting hstale
    rfl rfl hrequest (smallEnv_answer _ nlh) ?_ (smallDump_restorable hname) (smallDump_gc _)
  exact .cons_cons (by decide) (.singleton _)

end Dset.User
