import Dset.User.ListingSpec

/-! What `dset_cmd` returns for `list` and `save` when the kernel ends the dump with an error
code. The code travels in the last message, which the library takes for the end of the dump
without looking at it: the listing fails if a message in front of it is refused, and for no
other reason. -/

namespace Dset.User

open Dset.Lib Dset.Core

variable {κ : Type} {E : Env κ}

/-! ### Receiving -/

section

variable {I : List KMsg → Process κ → Prop} {Q : ℤ → Process κ → Prop}
  {X : ℕ → Process κ → Prop} {cb : KMsg → Prog κ ℤ}

/-- A callback that keeps an invariant about the messages still to come keeps it over a
datagram. -/
theorem mnlCbRun2_ends
    (hcb : ∀ m ms d, I (m :: ms) d →
      Ends (cb m) d (fun ret d' => (0 < ret ∧ I ms d') ∨ (ret ≤ 0 ∧ Q ret d')) X)
    {l rest : List KMsg} {d : Process κ} (h : I (l ++ rest) d) :
    Ends (mnlCbRun2 cb l) d (fun ret d' => (0 < ret ∧ I rest d') ∨ (ret ≤ 0 ∧ Q ret d')) X := by
  induction l generalizing d with
  | nil => exact .inl ⟨by decide, h⟩
  | cons m l ih =>
    simp only [mnlCbRun2, ends_bind, ends_ite, ends_pure]
    refine (hcb m (l ++ rest) d h).mono (fun ret d' h' => ?_) fun _ _ h => h
    rcases h' with ⟨hpos, h'⟩ | h'
    · exact ⟨fun hle => absurd hle (not_le.mpr hpos), fun _ => ih h'⟩
    · exact ⟨fun _ => .inr h', fun hle => absurd h'.1 hle⟩

/-- The callbacks over the datagrams of an answer; behind the last one receiving fails. -/
theorem mnlRecv_ends
    (hcb : ∀ m ms d, I (m :: ms) d →
      Ends (cb m) d (fun ret d' => (0 < ret ∧ I ms d') ∨ (ret ≤ 0 ∧ Q ret d')) X)
    (hend : ∀ d, I [] d → Q (-1) d)
    (hstale : ∀ ms d n, I ms d → I ms (d.mapSession fun s => { s with stale := n }))
    {datagrams : List (List KMsg)} {d : Process κ} (h : I datagrams.flatten d) :
    Ends (mnlRecv cb datagrams) d Q X := by
  induction datagrams generalizing d with
  | nil => exact hend d h
  | cons datagram l ih =>
    simp only [mnlRecv, ends_bind, ends_modifySession, ends_ite, ends_pure]
    rw [List.flatten_cons] at h
    refine (mnlCbRun2_ends hcb (hstale _ _ l.length h)).mono (fun ret d' h' => ?_) fun _ _ h => h
    rcases h' with ⟨hpos, h'⟩ | ⟨hle, hQ⟩
    · exact ⟨fun hle => absurd hle (not_le.mpr hpos), fun _ => ih h'⟩
    · exact ⟨fun _ => hQ, fun h => absurd hle h⟩

end

/-! ### The messages of an answer -/

/-- The code with which the kernel ends the dump. -/
def dumpCode : List KMsg → Option ℤ
  | [] => none
  | .done code :: _ => some code
  | _ :: msgs => dumpCode msgs

/-- The kernel went over all requested sets. A dump function ends in a negative code when it
did not: any other code is taken for a dump that is complete. -/
def Complete (msgs : List KMsg) : Prop := ∃ code, dumpCode msgs = some code ∧ 0 ≤ code

/-- The first message about a set brings its header. -/
def Begins : List KMsg → Prop
  | .noop :: msgs => Begins msgs
  | .data _ _ (some nla) :: _ => nla.data.isSome = true
  | _ => True

/-- The state behind a message about a set that is accepted; without attributes when they
cannot be parsed. -/
def Listing.step (L : Listing) (st : ListState) (cmd : Cmd) (nla : Option Nla) :
    Option ListState :=
  if (if cmd = .list ∧ L.cmd = .save then .save else cmd) = L.cmd then
    nla.bind fun nla => if nla.protocol = some L.protocol then L.next st nla else none
  else none

/-- What a listing makes of a message. -/
inductive Reception where
  | goesOn (st : ListState)
  | over
  | refused

/-- The library goes on as long as messages of several parts come that say what they must. -/
def Listing.receive (L : Listing) (st : ListState) : KMsg → Reception
  | .noop => .goesOn st
  | .done _ => .over
  | .error errno _ => if errno = 0 then .over else .refused
  | .data cmd multi nla =>
    match L.step st cmd nla with
    | none => .refused
    | some st' => if multi then .goesOn st' else .over

/-- The messages are read until the listing is over, and none of them is refused. -/
def Listing.reads (L : Listing) : ListState → List KMsg → Bool
  | _, [] => false
  | st, m :: msgs =>
    match L.receive st m with
    | .goesOn st' => L.reads st' msgs
    | .over => true
    | .refused => false

section

variable {L : Listing} {st : ListState} {d : Process κ}

/-- Elements come for a set of which the type is known. -/
def Headed (L : Listing) (st : ListState) (msgs : List KMsg) : Prop :=
  st.type = true ∨ L.names = true ∨ Begins msgs

/-- How a callback of a listing ends in front of the messages `msgs`. -/
def Receives (E : Env κ) (L : Listing) (msgs : List KMsg) (next : Reception) (ret : ℤ)
    (d' : Process κ) : Prop :=
  (ret = mnlCbOk ∧ ∃ st', next = .goesOn st' ∧ Headed L st' msgs ∧ Tracks L st' d') ∨
  (ret = mnlCbStop ∧ next = .over) ∨
  (ret = mnlCbError ∧ d'.session.Reported ∧ (E.Succeeds → next = .refused))

theorem failure_receives (r : Report) {msgs : List KMsg} {next : Reception}
    (hnext : next = .refused) :
    Ends (failure r) d (Receives E L msgs next)
      fun status _ => Aborts E (next = .refused) status := by
  refine .inr (.inr ⟨rfl, ?_, fun _ => hnext⟩)
  exact Session.reported_addReport _ _

/-- `callback_list`, with the end of a set behind a message of one part. -/
theorem listed_receives (E : Env κ) (msgs : List KMsg) (h : Tracks L st d) (multi : Bool) {nla : Nla}
    (htype : nla.data.isSome = true ∨ st.type = true ∨ L.names = true) {next : Reception}
    (hnext : next = match L.next st nla with
      | none => .refused
      | some st' => if multi then .goesOn st' else .over) :
    Ends (do
        let ret ← callbackList E (adtTypeGet E) L.cmd nla
        if mnlCbStop ≤ ret && !multi then return (← printSetDone E false).getD mnlCbError
        else return ret) d (Receives E L msgs next)
      fun status _ => Aborts E (next = .refused) status := by
  refine (callbackList_ends L.cmd h htype).bind (fun ret d₁ h₁ => ?_) fun status _ h₁ => ?_
  · rcases h₁ with ⟨rfl, st', hst', hnames, h₁⟩ | ⟨rfl, hr, hE⟩
    · rw [hst'] at hnext
      cases multi with
      | true =>
        refine .inl ⟨rfl, st', hnext, ?_, h₁⟩
        cases hn : L.names with
        | false => exact .inl (hnames hn)
        | true => exact .inr (.inl hn)
      | false =>
        have hstop : (decide (mnlCbStop ≤ mnlCbOk) && !false) = true := rfl
        rw [if_pos hstop, ends_bind]
        refine (printSetDone_ends false h₁.fits).mono (fun ret d₂ h₂ => ?_) fun _ _ h => h.elim
        rcases h₂ with ⟨r, rfl, hp, rfl | ⟨rfl, hE⟩⟩ | ⟨rfl, hr, hE⟩
        · exact .inr (.inl ⟨rfl, hnext⟩)
        · exact .inr (.inr ⟨rfl, hp.reported h₁.reported, fun h => absurd h hE⟩)
        · exact .inr (.inr ⟨rfl, hr, fun h => absurd h hE⟩)
    · have hgo : ¬ (decide (mnlCbStop ≤ mnlCbError) && !multi) = true := by
        rw [Bool.and_eq_true, decide_eq_true_eq]
        exact fun h => absurd h.1 (by decide)
      rw [if_neg hgo]
      exact .inr (.inr ⟨rfl, hr, fun h => by rw [hnext, hE h]⟩)
  · exact ⟨h₁.1, fun hE => by rw [hnext, h₁.2 hE]⟩

theorem callbackData_receives (hL : L.cmd = .list ∨ L.cmd = .save) (h : Tracks L st d)
    {cmd : Cmd} {multi : Bool} {nla : Option Nla} {msgs : List KMsg}
    (hheaded : Headed L st (.data cmd multi nla :: msgs)) :
    Ends (callbackData E (callbackList E (adtTypeGet E)) cmd multi nla) d
      (Receives E L msgs (L.receive st (.data cmd multi nla)))
      fun status _ => Aborts E (L.receive st (.data cmd multi nla) = .refused) status := by
  simp only [callbackData, ends_bind, ends_session, Listing.receive, Listing.step]
  rw [h.cmd]
  generalize (if cmd = .list ∧ L.cmd = .save then .save else cmd) = c
  by_cases hc : c = L.cmd
  · subst hc
    rw [if_neg (not_not.mpr rfl), if_pos rfl]
    cases nla with
    | none => exact failure_receives _ rfl
    | some nla =>
      simp only [Option.bind_some]
      cases hproto : nla.protocol with
      | none =>
        rw [if_neg (Option.some_ne_none _).symm]
        exact failure_receives _ rfl
      | some proto =>
        have hlist : L.cmd ≠ .protocol := by rcases hL with h | h <;> rw [h] <;> decide
        simp only [h.protocol]
        by_cases hp : proto = L.protocol
        · rw [if_neg (fun hne => hne.2 hp), if_pos (congrArg some hp)]
          have htype : nla.data.isSome = true ∨ st.type = true ∨ L.names = true := by
            rcases hheaded with htype | hnames | hbegins
            · exact .inr (.inl htype)
            · exact .inr (.inr hnames)
            · exact .inl hbegins
          have hcall := listed_receives E msgs h multi htype rfl
          rcases hL with hL | hL <;> simp only [hL] at hcall ⊢ <;> exact hcall
        · rw [if_pos ⟨hlist, hp⟩, if_neg fun h => hp (Option.some.inj h)]
          exact failure_receives _ rfl
  · rw [if_pos hc, if_neg hc]
    exact failure_receives _ rfl

theorem callbackError_receives (hL : L.cmd = .list ∨ L.cmd = .save) (h : Tracks L st d)
    (errno : ℕ) (quoted : Option Quoted) {msgs : List KMsg} :
    Ends (callbackError E errno quoted) d (Receives E L msgs (L.receive st (.error errno quoted)))
      fun _ _ => False := by
  by_cases hzero : errno = 0
  · have hover : L.receive st (.error errno quoted) = .over := if_pos hzero
    rw [hover, callbackError, if_pos hzero, callbackAcked]
    have hdone : Ends (do
        let _ ← printSetDone E true
        return mnlCbStop) d (Receives E L msgs .over) fun _ _ => False := by
      simp only [ends_bind, ends_pure]
      exact (printSetDone_ends true h.fits).mono (fun _ _ _ => .inr (.inl ⟨rfl, rfl⟩))
        fun _ _ h => h
    simp only [ends_bind, ends_session, h.cmd]
    rcases hL with hL | hL <;> rw [hL] <;> exact hdone
  · have hrefused : L.receive st (.error errno quoted) = .refused := if_neg hzero
    rw [hrefused]
    have htest : ¬ (d.session.cmd = .test ∧ errno = dsetErrExist) := by
      rw [h.cmd]
      rcases hL with h | h <;> simp [h]
    simp only [callbackError, decodeErrmsg, failure, if_neg hzero, ends_bind, ends_session,
      if_neg htest, ends_pure]
    cases quoted with
    | none => exact .inr (.inr ⟨rfl, Session.reported_addReport _ _, fun _ => rfl⟩)
    | some q =>
      simp only [ends_ite, ends_bind, ends_dsetErr, ends_modifySession, ends_pure]
      refine ⟨fun _ => .inr (.inr ⟨rfl, ?_, fun _ => rfl⟩),
        fun _ => ⟨fun _ => .inr (.inr ⟨rfl, ?_, fun _ => rfl⟩),
          fun _ => .inr (.inr ⟨rfl, ?_, fun _ => rfl⟩)⟩⟩
      all_goals exact Session.reported_addReport _ _

/-- The end of a dump is taken for what it is, whatever its code. -/
theorem callbackDone_receives (hL : L.cmd = .list ∨ L.cmd = .save) (h : Tracks L st d)
    {msgs : List KMsg} :
    Ends (callbackDone E) d (Receives E L msgs .over) fun _ _ => False := by
  have hcmd : d.session.cmd = .list ∨ d.session.cmd = .save := by rw [h.cmd]; exact hL
  simp only [callbackDone, ends_bind, ends_session, ends_ite, ends_pure]
  refine ⟨fun _ => (printSetDone_ends true h.fits).mono (fun ret d' h' => ?_) fun _ _ h => h,
    fun hne => absurd hcmd hne⟩
  rcases h' with ⟨r, rfl, hp, rfl | ⟨rfl, hE⟩⟩ | ⟨rfl, hr, hE⟩
  · exact .inr (.inl ⟨rfl, rfl⟩)
  · exact .inr (.inr ⟨rfl, hp.reported h.reported, fun h => absurd h hE⟩)
  · exact .inr (.inr ⟨rfl, hr, fun h => absurd h hE⟩)

theorem callbacks_receives (hL : L.cmd = .list ∨ L.cmd = .save) (h : Tracks L st d) (m : KMsg)
    {msgs : List KMsg} (hheaded : Headed L st (m :: msgs)) :
    Ends (callbacks E m) d (Receives E L msgs (L.receive st m))
      fun status _ => Aborts E (L.receive st m = .refused) status := by
  unfold callbacks
  cases m with
  | noop => exact .inl ⟨rfl, st, rfl, hheaded, h⟩
  | error errno quoted =>
    exact (callbackError_receives hL h errno quoted).mono (fun _ _ h => h) fun _ _ h => h.elim
  | done code =>
    exact (callbackDone_receives hL h).mono (fun _ _ h => h) fun _ _ h => h.elim
  | data cmd multi nla => exact callbackData_receives hL h hheaded

/-- The answer to `list` or `save`, received message by message. -/
theorem mnlRecv_reads (hL : L.cmd = .list ∨ L.cmd = .save) (h : Tracks L st d)
    {datagrams : List (List KMsg)} (hheaded : Headed L st datagrams.flatten) :
    Ends (mnlRecv (callbacks E) datagrams) d
      (fun ret d' => (ret = 0 ∧ L.reads st datagrams.flatten = true) ∨
        (ret = -1 ∧ d'.session.Reported ∧
          (E.Succeeds → L.reads st datagrams.flatten = false)))
      fun status _ => Aborts E (L.reads st datagrams.flatten = false) status := by
  -- behind every message the rest is read as the whole answer is
  let I (ms : List KMsg) (d' : Process κ) : Prop := ∃ st', Tracks L st' d' ∧ Headed L st' ms ∧
    L.reads st' ms = L.reads st datagrams.flatten
  refine mnlRecv_ends (I := I) (fun m ms d' hI => ?_) (fun d' hI => ?_) (fun ms d' n hI => ?_)
    ⟨st, h, hheaded, rfl⟩
  · obtain ⟨st', h', hheaded', hreads⟩ := hI
    rw [Listing.reads] at hreads
    rw [← hreads]
    refine (callbacks_receives hL h' m hheaded').mono (fun ret d₁ h₁ => ?_) fun status _ h₁ => ?_
    · rcases h₁ with ⟨rfl, st₁, hnext, hheaded₁, h₁⟩ | ⟨rfl, hnext⟩ | ⟨rfl, hr, hE⟩
      · rw [hnext] at hreads
        exact .inl ⟨by decide, st₁, h₁, hheaded₁, hreads⟩
      · exact .inr ⟨by decide, .inl ⟨rfl, by rw [hnext]⟩⟩
      · exact .inr ⟨by decide, .inr ⟨rfl, hr, fun h => by rw [hE h]⟩⟩
    · exact ⟨h₁.1, fun h => by rw [h₁.2 h]⟩
  · obtain ⟨st', h', -, hreads⟩ := hI
    exact .inr ⟨rfl, h'.reported, fun _ => hreads.symm⟩
  · obtain ⟨st', h', hrest⟩ := hI
    exact ⟨st', { h' with }, hrest⟩

end

/-! ### The command -/

def Process.listing (d : Process κ) (cmd : Cmd) : Listing where
  cmd := cmd
  protocol := d.session.protocol
  names := d.session.envopts.listSetname && d.session.outputMode cmd != .save
  known := d.kernelCheck != .mismatch

def Process.listState (d : Process κ) : ListState where
  saved := d.session.savedSetname
  type := d.session.data.test .type
  domain := d.session.data.test .domain

/-- The message that a command sends from an empty buffer. -/
def Session.request (s : Session) (cmd : Cmd) : Option Nlmsg :=
  match { s with cmd := cmd, mode := s.outputMode cmd }.buildMsg false with
  | .done s => s.buffer.map fun nlh => Session.closeAll nlh s.nested
  | _ => none

/-- The answer to a listing is read from its beginning until the listing is over, and none of
its messages is refused. -/
def Process.Accepts (d : Process κ) (cmd : Cmd) (msgs : List KMsg) : Prop :=
  d.session.stale = 0 ∧ (d.listing cmd).reads d.listState msgs = true

section

variable {L : Listing} {st : ListState} {d : Process κ} {cmd : Cmd}

/-- Behind `dset_commit` the buffer is empty, unless it failed. -/
theorem dsetCommit_buffer :
    Ends (dsetCommit E) d (fun ret d' => 0 ≤ ret → d'.session.buffer = none)
      fun _ _ => True := by
  simp only [dsetCommit, ends_bind, ends_session]
  cases hbuffer : d.session.buffer with
  | none => exact fun _ => hbuffer
  | some nlh =>
    simp only [ends_bind, ends_modifySession, ends_ite, ends_pure, ends_session, ends_dsetErr]
    have hfailed {p : Prop} : (0 : ℤ) ≤ -1 → p := fun h => absurd h (by decide)
    refine (ends_true _).mono (fun ret d' _ => ⟨fun _ => ⟨fun _ => hfailed, fun _ => hfailed⟩,
      fun _ _ => rfl⟩) fun _ _ _ => trivial

/-- A command that is not put behind another one starts with an empty buffer. -/
theorem startCmd_buffer (hcmd : cmd = .list ∨ cmd = .save) :
    Ends (startCmd E cmd) d
      (fun r d' => ∀ aggregate, r = .ok aggregate →
        aggregate = false ∧ d'.session.buffer = none)
      fun _ _ => True := by
  have hmay (s : Session) : s.mayAggregateAd cmd = false := by
    rcases hcmd with rfl | rfl <;> simp [Session.mayAggregateAd]
  simp only [startCmd, hmay, ends_bind, ends_ite, ends_pure, ends_session]
  have herror (ret : ℤ) (d' : Process κ) (aggregate : Bool)
      (h : (Except.error ret : Except ℤ Bool) = .ok aggregate) :
      aggregate = false ∧ d'.session.buffer = none := by cases h
  refine (ends_true _).mono (fun ok d' _ => ?_) fun _ _ _ => trivial
  refine ⟨fun _ => herror _ _, fun _ => ⟨fun _ => herror _ _, fun _ => ⟨fun h => ?_, fun _ => ?_⟩⟩⟩
  · cases h
  refine dsetCommit_buffer.mono (fun ret d'' h aggregate heq => ?_) fun _ _ _ => trivial
  split at heq
  · cases heq
  · obtain rfl := Except.ok.inj heq
    exact ⟨rfl, h (by omega)⟩

/-- A session between two commands: what is in the report buffer is an error, and the stored
type is there. -/
structure Process.Ready (d : Process κ) : Prop where
  reported : d.session.Reported
  fits : d.session.out.Fits
  typed : d.session.data.test .type = true → d.session.data.type.isSome = true

theorem Process.Ready.tracks (h : d.Ready) (cmd : Cmd) (lineno : ℕ) :
    Tracks (d.listing cmd) d.listState
      (d.mapSession fun s => { s with cmd := cmd, lineno := lineno, mode := s.outputMode cmd }) where
  saved := rfl
  type := rfl
  typed := h.typed
  domain := rfl
  names := rfl
  known := rfl
  cmd := rfl
  protocol := rfl
  reported := h.reported
  fits := h.fits

theorem Tracks.setFlags (h : Tracks L st d) (flags : ℕ) (nlh : Nlmsg) :
    Tracks L st (d.mapSession fun s => { s with
      data := s.data.setFlags flags, buffer := some nlh }) :=
  { h with
    type := (Data.test_setFlags _ _ _).trans h.type
    domain := (Data.test_setFlags _ _ _).trans h.domain }

theorem Session.buildMsg_of_list {s : Session} (hcmd : s.cmd = .list) (aggregate : Bool) :
    s.buildMsg aggregate = s.buildList s.startMsg := by
  simp only [Session.buildMsg, hcmd]

theorem Session.buildMsg_of_save {s : Session} (hcmd : s.cmd = .save) (aggregate : Bool) :
    s.buildMsg aggregate = .done (s.setBuffer (s.putSetname s.startMsg)) := by
  simp only [Session.buildMsg, hcmd]

/-- The message of `list` and `save` depends neither on the line nor on the output. -/
theorem buildMsg_list {s : Session} (hcmd : s.cmd = .list ∨ s.cmd = .save) :
    ∃ data nlh, (data = s.data ∨ ∃ v, data = s.data.setFlags v) ∧
      ∀ lineno out, { s with lineno := lineno, out := out }.buildMsg false =
        .done { s with lineno := lineno, out := out, data := data, buffer := some nlh } := by
  let nlh := s.putSetname s.startMsg
  rcases hcmd with hcmd | hcmd
  · have hlist (lineno : ℕ) (out : Outbuf) := Session.buildMsg_of_list
      (s := { s with lineno := lineno, out := out }) hcmd false
    by_cases hflags : s.listFlags ≠ 0 ∧ s.mode ≠ .save
    · refine ⟨s.data.setFlags s.listFlags, nlh.addattr s.bufsize 4 (.flags s.listFlags),
        .inr ⟨_, rfl⟩, fun lineno out => ?_⟩
      exact (hlist lineno out).trans (if_pos hflags)
    · refine ⟨s.data, nlh, .inl rfl, fun lineno out => ?_⟩
      exact (hlist lineno out).trans (if_neg hflags)
  · refine ⟨s.data, nlh, .inl rfl, fun lineno out => ?_⟩
    exact Session.buildMsg_of_save (s := { s with lineno := lineno, out := out }) hcmd _

/-- The message of `list` and `save` is built beside the listing. -/
theorem buildMsg_tracks (hcmd : cmd = .list ∨ cmd = .save) (h : Tracks L st d) {s : Session}
    {lineno : ℕ} {out : Outbuf} (hs : d.session =
      { s with cmd := cmd, lineno := lineno, mode := s.outputMode cmd, out := out }) :
    ∃ s' nlh, d.session.buildMsg false = .done s' ∧ s'.buffer = some nlh ∧
      s.request cmd = some (Session.closeAll nlh s'.nested) ∧ s'.stale = s.stale ∧
      Tracks L st (d.mapSession fun _ => s') := by
  obtain ⟨data, nlh, hdata, hbuild⟩ := buildMsg_list
    (s := { s with cmd := cmd, mode := s.outputMode cmd }) hcmd
  have hd := hbuild lineno out
  refine ⟨_, nlh, (congrArg (Session.buildMsg · false) hs).trans hd, rfl, ?_, rfl, ?_⟩
  · have hrequest := hbuild s.lineno s.out
    unfold Session.request
    rw [hrequest]
    rfl
  · have h' : Tracks L st (d.mapSession fun _ =>
        { s with cmd := cmd, lineno := lineno, mode := s.outputMode cmd, out := out }) := by
      rw [← hs]
      exact h
    rcases hdata with rfl | ⟨v, rfl⟩
    · exact { h' with }
    · exact h'.setFlags v nlh

theorem startOutput_ends (hfit : d.session.out.Fits) :
    Ends (startOutput E cmd) d
      (fun _ d' => Printed (d.mapSession fun s => { s with mode := s.outputMode cmd }) d')
      fun status _ => status ≠ 0 ∧ ¬ E.Succeeds := by
  simp only [startOutput, ends_bind, ends_modifySession, ends_session, ends_ite, ends_pure]
  refine ⟨fun _ => ?_, fun _ => .refl hfit⟩
  have hshort : (bytes "<dsets>\n").length < dsetOutbuflen := by decide
  refine (safeSnprintf_ends (d := d.mapSession fun s => { s with mode := s.outputMode cmd })
    hshort hfit).mono (fun ok d' h => ?_) fun _ _ h => h.elim
  rcases h with ⟨rfl, hp⟩ | ⟨rfl, -, hE⟩
  · exact ⟨fun _ => hp, fun h => absurd rfl h⟩
  · exact ⟨fun h => absurd h Bool.false_ne_true, fun _ => ⟨by decide, hE⟩⟩

/-- What is known of a run of `list` or `save` that gets an answer: it returns 0 when the answer
is accepted, whatever its code, and fails with a report otherwise. -/
def Answered (E : Env κ) (good : Prop) (ret : ℤ) (d' : Process κ) : Prop :=
  (ret = 0 ∧ good) ∨ (ret < 0 ∧ d'.session.report ≠ [] ∧ d'.session.errType = .error ∧
    (E.Succeeds → ¬ good))

theorem dsetMnlQuery_reads (hL : L.cmd = .list ∨ L.cmd = .save) (h : Tracks L st d) (nlh : Nlmsg)
    {msgs : List KMsg} (hanswer : (E.answer d.kernel nlh).1.flatten = msgs)
    (hheaded : Headed L st msgs) :
    Ends (dsetMnlQuery E (callbacks E) nlh) d
      (fun ret d' => (ret = 0 ∧ d.session.stale = 0 ∧ L.reads st msgs = true) ∨
        (ret = -1 ∧ d'.session.Reported ∧
          (E.Succeeds → ¬ (d.session.stale = 0 ∧ L.reads st msgs = true))))
      fun status _ => Aborts E (¬ (d.session.stale = 0 ∧ L.reads st msgs = true)) status := by
  subst hanswer
  simp only [dsetMnlQuery, ends_bind, ends_ext, ends_ite, ends_get, ends_set, ends_modifySession,
    ends_pure]
  refine ⟨fun _ => ⟨fun hstale => ?_, fun hstale => ?_⟩, fun hext => ?_⟩
  · have hsent : Tracks L st { d with
        kernel := (E.answer d.kernel nlh).2, calls := d.calls + 1
        sent := d.sent ++ [(nlh, (E.answer d.kernel nlh).1)] } := { h with }
    refine (mnlRecv_reads hL hsent hheaded).mono (fun ret d' h' => ?_) fun status _ h' => ?_
    · rcases h' with ⟨rfl, hreads⟩ | ⟨rfl, hr, hE⟩
      · exact .inl ⟨rfl, hstale, hreads⟩
      · exact .inr ⟨rfl, hr, fun h hgood => Bool.false_ne_true ((hE h).symm.trans hgood.2)⟩
    · exact ⟨h'.1, fun h hgood => Bool.false_ne_true ((h'.2 h).symm.trans hgood.2)⟩
  · exact .inr ⟨trivial, h.reported, fun _ hgood => hstale hgood.1⟩
  · exact .inr ⟨trivial, h.reported, fun hE => absurd hE (not_succeeds (Bool.eq_false_iff.mpr hext))⟩

theorem dsetCommit_reads (hL : L.cmd = .list ∨ L.cmd = .save) (h : Tracks L st d) {nlh : Nlmsg}
    (hbuffer : d.session.buffer = some nlh) {msgs : List KMsg}
    (hanswer : (E.answer d.kernel (Session.closeAll nlh d.session.nested)).1.flatten = msgs)
    (hheaded : Headed L st msgs) :
    Ends (dsetCommit E) d (Answered E (d.session.stale = 0 ∧ L.reads st msgs = true))
      fun status _ => Aborts E (¬ (d.session.stale = 0 ∧ L.reads st msgs = true)) status := by
  simp only [dsetCommit, ends_bind, ends_session, hbuffer, ends_modifySession, ends_ite, ends_pure,
    ends_dsetErr]
  refine (dsetMnlQuery_reads hL h _ hanswer hheaded).mono (fun ret d' h' => ?_) fun _ _ h' => h'
  rcases h' with ⟨rfl, hgood⟩ | ⟨rfl, hr, hE⟩
  · exact ⟨fun hneg => absurd hneg (by decide), fun _ => .inl ⟨rfl, hgood⟩⟩
  · refine ⟨fun _ => ⟨fun hreport => ?_, fun _ => ?_⟩, fun hneg => absurd (by decide) hneg⟩
    · exact .inr ⟨by decide, hreport, hr hreport, hE⟩
    · exact .inr ⟨by decide, List.append_ne_nil_of_right_ne_nil _ (List.cons_ne_nil _ _), rfl, hE⟩

theorem executeMsg_reads (hcmd : cmd = .list ∨ cmd = .save) (hL : L.cmd = cmd) (h : Tracks L st d)
    {s : Session} {lineno : ℕ} {out : Outbuf} (hs : d.session =
      { s with cmd := cmd, lineno := lineno, mode := s.outputMode cmd, out := out })
    {nlh : Nlmsg} (hrequest : s.request cmd = some nlh) {msgs : List KMsg}
    (hanswer : (E.answer d.kernel nlh).1.flatten = msgs) (hheaded : Headed L st msgs) :
    Ends (executeMsg E cmd false) d (Answered E (s.stale = 0 ∧ L.reads st msgs = true))
      fun status _ => Aborts E (¬ (s.stale = 0 ∧ L.reads st msgs = true)) status := by
  obtain ⟨s', nlh', hbuild, hbuffer, hrequest', hstale, h'⟩ := buildMsg_tracks hcmd h hs
  have hadd : ¬ (cmd = .add ∨ cmd = .del) := by rcases hcmd with rfl | rfl <;> decide
  have hzero : ¬ (0 : ℤ) < 0 := lt_irrefl _
  simp only [executeMsg, buildOrCommit, buildMsg, ends_bind, ends_session, hbuild, ends_modifySession,
    ends_pure, le_refl, if_true, hzero, if_false, hadd, and_false, ends_modifyData]
  have hsaved : Tracks L st ((d.mapSession fun _ => s').mapSession fun s =>
      { s with savedType := s.data.getType }) := { h' with }
  obtain rfl := Option.some.inj (hrequest.symm.trans hrequest')
  have hcommit := dsetCommit_reads (hL ▸ hcmd) hsaved hbuffer hanswer hheaded
  rw [← hstale]
  exact hcommit

/-- `dset_cmd` for `list` and `save`, once it gets to its own request. -/
theorem dsetCmd_reads (hcmd : cmd = .list ∨ cmd = .save) (lineno : ℕ) {d₁ : Process κ}
    {aggregate : Bool} (hstart : startCmd E cmd d = .ok (.ok aggregate) d₁) (hready : d₁.Ready)
    {nlh : Nlmsg} (hrequest : d₁.session.request cmd = some nlh) {msgs : List KMsg}
    (hanswer : (E.answer d₁.kernel nlh).1.flatten = msgs)
    (hbegins : (d₁.listing cmd).names = true ∨ Begins msgs) :
    Ends (dsetCmd E cmd lineno) d (Answered E (d₁.Accepts cmd msgs))
      fun status _ => Aborts E (¬ d₁.Accepts cmd msgs) status := by
  have hmsg : cmd.isMsg = true := by rcases hcmd with rfl | rfl <;> rfl
  have hprivate : ¬ (cmd = .type ∨ cmd = .header) := by rcases hcmd with rfl | rfl <;> decide
  have hempty := (ends_of_ok hstart).mp (startCmd_buffer (E := E) (d := d) hcmd)
  obtain ⟨rfl, -⟩ := hempty aggregate rfl
  simp only [dsetCmd, hmsg, Bool.not_true, Bool.false_eq_true, if_false, hprivate, ends_bind]
  rw [ends_of_ok hstart]
  simp only [ends_bind, ends_modifySession]
  refine (startOutput_ends (d := d₁.mapSession fun s => { s with cmd := cmd, lineno := lineno })
    hready.fits).mono (fun _ d₂ hp => ?_) fun status _ h => ?_
  · have h := (hready.tracks cmd lineno).printed hp
    obtain ⟨out, calls, hfit, rfl⟩ := hp
    exact executeMsg_reads hcmd rfl h rfl hrequest hanswer (.inr hbegins)
  · exact ⟨h.1, fun hE => absurd hE h.2⟩

/-- A run of `cmd` that the kernel answers with `msgs` does not hide that the listing is cut
short: it returns a negative value and reports an error then, or the program exits with an error
status. It returns 0 only if the listing is complete. -/
def Truthful (E : Env κ) (cmd : Cmd) (lineno : ℕ) (d : Process κ) (msgs : List KMsg) : Prop :=
  Ends (dsetCmd E cmd lineno) d
    (fun ret d' =>
      (¬ Complete msgs → ret < 0 ∧ d'.session.report ≠ [] ∧ d'.session.errType = .error) ∧
      (ret = 0 → Complete msgs))
    fun status _ => ¬ Complete msgs → status ≠ 0

/-- A truncated dump whose messages are accepted is listed with success. -/
theorem dsetCmd_truncated (hcmd : cmd = .list ∨ cmd = .save) (lineno : ℕ) {d₁ : Process κ}
    {aggregate : Bool} (hstart : startCmd E cmd d = .ok (.ok aggregate) d₁) (hready : d₁.Ready)
    {nlh : Nlmsg} (hrequest : d₁.session.request cmd = some nlh) {msgs : List KMsg}
    (hanswer : (E.answer d₁.kernel nlh).1.flatten = msgs)
    (hbegins : (d₁.listing cmd).names = true ∨ Begins msgs) (hE : E.Succeeds)
    (hincomplete : ¬ Complete msgs) (haccepts : d₁.Accepts cmd msgs) :
    ¬ Truthful E cmd lineno d msgs := by
  intro htruthful
  have hdump := dsetCmd_reads hcmd lineno hstart hready hrequest hanswer hbegins
  refine Ends.elim (p := False) ((hdump.and htruthful).mono (fun ret d' h => ?_) fun status _ h => ?_)
  · rcases h.1 with ⟨rfl, -⟩ | ⟨-, -, -, hno⟩
    · exact hincomplete (h.2.2 rfl)
    · exact hno hE haccepts
  · exact h.1.2 hE haccepts

/-- A truncated dump is reported if a message in front of its end is refused, and for no other
reason when all outside functions work. -/
theorem truncated_reported (hcmd : cmd = .list ∨ cmd = .save) (lineno : ℕ) {d₁ : Process κ}
    {aggregate : Bool} (hstart : startCmd E cmd d = .ok (.ok aggregate) d₁) (hready : d₁.Ready)
    {nlh : Nlmsg} (hrequest : d₁.session.request cmd = some nlh) {msgs : List KMsg}
    (hanswer : (E.answer d₁.kernel nlh).1.flatten = msgs)
    (hbegins : (d₁.listing cmd).names = true ∨ Begins msgs) :
    (Complete msgs ∨ ¬ d₁.Accepts cmd msgs → Truthful E cmd lineno d msgs) ∧
    (E.Succeeds → Truthful E cmd lineno d msgs → Complete msgs ∨ ¬ d₁.Accepts cmd msgs) := by
  constructor
  · intro hgood
    have hdump := dsetCmd_reads hcmd lineno hstart hready hrequest hanswer hbegins
    refine hdump.mono (fun ret d' h => ?_) fun status _ h _ => h.1
    rcases h with ⟨rfl, haccepts⟩ | ⟨hneg, hreport, herror, -⟩
    · have hcomplete := hgood.resolve_right (not_not.mpr haccepts)
      exact ⟨fun h => absurd hcomplete h, fun _ => hcomplete⟩
    · exact ⟨fun _ => ⟨hneg, hreport, herror⟩, fun hzero => absurd hzero hneg.ne⟩
  · intro hE htruthful
    by_contra hbad
    obtain ⟨hincomplete, haccepts⟩ := not_or.mp hbad
    exact dsetCmd_truncated hcmd lineno hstart hready hrequest hanswer hbegins hE hincomplete
      (not_not.mp haccepts) htruthful

end

/-! ### A dump that stops behind a header -/

/-- A session with the socket open and the protocol version checked. -/
def openedProcess : Process Unit :=
  (dsetInit 4096 () []).mapSession fun s => { s with handle := true, versionChecked := true }

theorem openedProcess_ready : openedProcess.Ready where
  reported := fun h => absurd rfl h
  fits := ⟨by decide, by decide⟩
  typed := nofun

/-- A kernel that answers every request with `msgs`. -/
def answeringEnv (msgs : List KMsg) : Env Unit where
  answer _ _ := ([msgs], ())
  ext _ := true

theorem openedProcess_start (msgs : List KMsg) :
    startCmd (answeringEnv msgs) .list openedProcess = .ok (.ok false) openedProcess := rfl

theorem openedProcess_request : ∃ nlh, openedProcess.session.request .list = some nlh := by
  exact ⟨_, rfl⟩

theorem answeringEnv_answer (msgs : List KMsg) (nlh : Nlmsg) :
    ((answeringEnv msgs).answer openedProcess.kernel nlh).1.flatten = msgs := List.append_nil _

/-- The header of a set, and the end of the dump with `-EMSGSIZE`. -/
def truncatedDump : List KMsg :=
  [.data .list true (some {
    protocol := some dsetProtocol
    setname := some ⟨bytes "s", by decide, by decide⟩
    typename := some dsetHashDomain0.name
    revision := some 0
    family := some 0
    protocolMin := none
    data := some (some ⟨none, none, some 1024, some 65536, some 3, some 0, some 4096⟩)
    adt := none }),
   .done (-90)]

theorem truncatedDump_incomplete : ¬ Complete truncatedDump := by
  rintro ⟨code, ⟨⟩, hpos⟩
  exact absurd hpos (by decide)

theorem truncatedDump_accepted : openedProcess.Accepts .list truncatedDump := by
  refine ⟨rfl, ?_⟩
  decide

theorem truncated_succeeds :
    ¬ Truthful (answeringEnv truncatedDump) .list 0 openedProcess truncatedDump := by
  obtain ⟨nlh, hrequest⟩ := openedProcess_request
  exact dsetCmd_truncated (.inl rfl) 0 (openedProcess_start _) openedProcess_ready hrequest
    (answeringEnv_answer _ nlh) (.inr rfl) (fun _ => rfl) truncatedDump_incomplete
    truncatedDump_accepted

/-- `dset list t`. -/
def namedProcess : Process Unit :=
  openedProcess.mapSession fun s =>
    { s with data := s.data.setSetname ⟨bytes "t", by decide, by decide⟩ }

/-- There is no such set: the request is refused, and the dump ends with the same code. -/
def refusedDump : List KMsg := [.error 2 (some ⟨.list, true, none⟩), .done (-2)]

theorem truncated_reported_refused :
    Truthful (answeringEnv refusedDump) .list 0 namedProcess refusedDump := by
  have hstart : startCmd (answeringEnv refusedDump) .list namedProcess =
      .ok (.ok false) namedProcess := rfl
  have hready : namedProcess.Ready := { openedProcess_ready with typed := nofun }
  obtain ⟨nlh, hrequest⟩ : ∃ nlh, namedProcess.session.request .list = some nlh := ⟨_, rfl⟩
  have hbegins : Begins refusedDump := trivial
  refine (truncated_reported (.inl rfl) 0 hstart hready hrequest (answeringEnv_answer _ nlh)
    (.inr hbegins)).1 (.inr fun haccepts => ?_)
  exact Bool.false_ne_true haccepts.2

end Dset.User
