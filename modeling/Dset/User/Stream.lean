import Dset.User.Script
import Dset.User.Tokens

/-! What the lines of a stream do to the messages: a stream whose lines are parsed without an
error or a warning is a sequence of moves, one for each command. -/

namespace Dset.User

open Dset.Lib Dset.Core

variable {κ : Type} {E : Env κ} {d : Process κ}

/-! ### The input of a stream -/

section

variable {α β : Type}

/-- Parsing leaves the input of the session open. -/
def KeepsStream (x : Prog κ α) : Prop :=
  ∀ d, Ends x d (fun _ d' => d'.istream = d.istream) fun _ _ => True

theorem KeepsStream.pure (a : α) : KeepsStream (κ := κ) (Pure.pure a) := fun _ => rfl

theorem KeepsStream.bind {x : Prog κ α} {f : α → Prog κ β} (hx : KeepsStream x)
    (hf : ∀ a, KeepsStream (f a)) : KeepsStream (x >>= f) := by
  intro d
  rw [ends_bind]
  apply (hx d).mono _ fun _ _ h => h
  intro a d' h
  exact (hf a d').mono (fun _ _ h' => h'.trans h) fun _ _ h => h

theorem KeepsStream.ite {c : Prop} [Decidable c] {x y : Prog κ α} (hx : KeepsStream x)
    (hy : KeepsStream y) : KeepsStream (if c then x else y) := by
  split
  · exact hx
  · exact hy

theorem KeepsStream.modifySession (f : Session → Session) :
    KeepsStream (κ := κ) (Prog.modifySession f) := fun _ => rfl

theorem KeepsStream.dsetErr (r : Report) : KeepsStream (κ := κ) (Prog.dsetErr r) := fun _ => rfl

theorem KeepsStream.customError (status : Problem) :
    KeepsStream (κ := κ) (Prog.customError status) := fun _ =>
  (customError_complained status).mono (fun _ _ h => congrArg Steady.istream h.steady) fun _ _ h => h

theorem KeepsStream.standardError : KeepsStream (κ := κ) Prog.standardError := by
  intro d
  simp only [Prog.standardError, ends_bind, ends_get]
  cases d.errorFns.standard with
  | some f =>
    exact (callErrorFn_complained (d := d) (X := fun _ _ => True) f).mono
      (fun _ _ h => congrArg Steady.istream h.steady) fun _ _ h => h
  | none =>
    simp only [Prog.defaultStandardError, ends_bind, ends_get, ends_ite, ends_exit,
      ends_modifySession, ends_pure]
    exact ⟨fun _ => KeepsStream.customError _ d, fun _ => ⟨fun _ => trivial, fun _ => trivial⟩⟩

theorem EnvOpt.parse_keepsStream (o : EnvOpt) (str : Str) :
    KeepsStream (κ := κ) (o.parse str) := by
  intro d
  cases o with
  | output =>
    simp only [EnvOpt.parse, dsetParseOutput, ends_ite]
    exact ⟨fun _ => rfl, fun _ => ⟨fun _ => rfl, fun _ => ⟨fun _ => rfl, fun _ => rfl⟩⟩⟩
  | file =>
    simp only [EnvOpt.parse, dsetParseFilename, ends_bind, ends_get, ends_ite, ends_modify,
      ends_pure]
    exact ⟨fun _ => KeepsStream.customError _ d, fun _ => trivial⟩
  | _ => rfl

theorem KeepsStream.fails {x : Prog κ ℤ} (hx : KeepsStream x) :
    KeepsStream (do return (.error (← x) : Except ℤ β)) :=
  hx.bind fun _ => .pure _

theorem parseEnvopt_keepsStream (o : EnvOpt) (kept argv : List Str) :
    KeepsStream (κ := κ) (parseEnvopt o kept argv) := by
  induction argv using dropEnvopt.induct (o := o) generalizing kept with
  | case1 => exact .pure _
  | case2 arg harg =>
    unfold parseEnvopt
    rw [harg]
    exact .ite (.pure _) (.ite (.fails (.customError _)) ((o.parse_keepsStream []).bind fun _ =>
      .ite (.fails .standardError) (.pure _)))
  | case3 arg harg =>
    unfold parseEnvopt
    rw [Bool.not_eq_true] at harg
    rw [harg]
    exact .pure _
  | case4 arg value l harg hhas ih =>
    unfold parseEnvopt
    rw [harg, Bool.not_true, if_neg Bool.false_ne_true, if_pos hhas]
    exact (o.parse_keepsStream value).bind fun _ => .ite (.fails .standardError) (ih kept)
  | case5 arg value l harg hhas ih =>
    unfold parseEnvopt
    rw [harg, Bool.not_true, if_neg Bool.false_ne_true, if_neg hhas]
    exact (o.parse_keepsStream []).bind fun _ => .ite (.fails .standardError) (ih kept)
  | case6 arg value l harg ih =>
    unfold parseEnvopt
    rw [Bool.not_eq_true] at harg
    rw [harg, Bool.not_false, if_pos rfl]
    exact ih _

theorem parseEnvopts_keepsStream (os : List EnvOpt) (argv : List Str) :
    KeepsStream (κ := κ) (parseEnvopts os argv) := by
  induction os generalizing argv with
  | nil => exact .pure _
  | cons o os ih =>
    unfold parseEnvopts
    apply (parseEnvopt_keepsStream o [] argv).bind
    rintro (ret | argv')
    · exact .pure _
    · exact ih argv'

theorem parseCmd_keepsStream (argv : List Str) : KeepsStream (κ := κ) (parseCmd argv) := by
  cases argv with
  | nil => exact .pure _
  | cons arg l =>
    unfold parseCmd
    dsimp only
    cases dsetCommands.find? fun c => dsetMatchCmd arg c.name with
    | none => exact .pure _
    | some command =>
      have hargs : KeepsStream (κ := κ) (parseCmdArgs command l) := by
        unfold parseCmdArgs
        split
        · exact .pure _
        · exact .pure _
        · exact .pure _
        · exact .fails (.customError _)
      intro d
      simp only [ends_bind, ends_get]
      exact KeepsStream.ite (.fails (.customError _)) (.ite (.pure _) hargs) d

theorem KeepsStream.andThen {x : Prog κ (Except ℤ α)} {f : α → Prog κ (Except ℤ β)}
    (hx : KeepsStream x) (hf : ∀ a, KeepsStream (f a)) : KeepsStream (andThen x f) := by
  unfold User.andThen
  apply hx.bind
  rintro (ret | a)
  · exact .pure _
  · exact hf a

theorem KeepsStream.orStandardError {x : Prog κ ℤ} (hx : KeepsStream x) :
    KeepsStream (x >>= orStandardError) :=
  hx.bind fun _ => .ite (.fails .standardError) (.pure _)

theorem KeepsStream.typeOrError {x : Prog κ (Option DsetType)} (hx : KeepsStream x) :
    KeepsStream (x >>= typeOrError) :=
  hx.bind fun _ => .ite (.fails .standardError) (.pure _)

theorem KeepsStream.parsedArgs {x : Prog κ (ℤ × List Str)} (hx : KeepsStream x) :
    KeepsStream (x >>= parsedArgs) :=
  hx.bind fun _ => .ite (.fails .standardError) (.ite (.pure _) (.pure _))

theorem dsetParseSetname_keepsStream (set : SetName → Data → Data) (str : Str) :
    KeepsStream (κ := κ) (dsetParseSetname set str) := by
  intro d
  unfold dsetParseSetname
  cases SetName.ofStr str <;> rfl

theorem dsetTypeGetCreate_keepsStream : KeepsStream (dsetTypeGetCreate E) := fun _ =>
  dsetTypeGetCreate_found.mono (fun _ _ h => congrArg Steady.istream h.asks.steady) fun _ _ h => h

theorem adtTypeGet_keepsStream : KeepsStream (adtTypeGet E) := fun _ =>
  adtTypeGet_found.mono (fun _ _ h => congrArg Steady.istream h.asks.steady) fun _ _ h => h

theorem dsetParseTypename_keepsStream (str : Str) : KeepsStream (dsetParseTypename E str) := by
  refine .ite (.dsetErr _) (.ite (.dsetErr _) (.bind (.modifySession _) fun _ =>
    dsetTypeGetCreate_keepsStream.bind fun type => ?_))
  cases type with
  | none => exact .pure _
  | some t => exact .bind (.modifySession _) fun _ => .pure _

theorem dsetParseElem_keepsStream (str : Str) : KeepsStream (dsetParseElem E str) := by
  intro d
  simp only [dsetParseElem, ends_bind, ends_session]
  cases d.session.data.getType with
  | none => rfl
  | some t =>
    simp only [ends_bind, ends_ext, ends_ite, ends_modifyData, ends_pure]
    exact ⟨fun _ => ⟨fun _ => rfl, fun _ => trivial⟩, fun _ => rfl⟩

theorem dsetCallParser_keepsStream (k : Keyword) (str : Str) :
    KeepsStream (κ := κ) (dsetCallParser k str) := by
  intro d
  simp only [dsetCallParser, ends_bind, ends_session, ends_ite]
  refine ⟨fun _ => rfl, fun _ => ?_⟩
  cases k with
  | hashsize =>
    simp only [Keyword.parse, dsetParseUint32]
    cases stringToNumberLl str 0 uintMax <;> rfl
  | maxelem =>
    simp only [Keyword.parse, dsetParseUint32]
    cases stringToNumberLl str 0 uintMax <;> rfl
  | timeout =>
    simp only [Keyword.parse, dsetParseTimeout]
    cases stringToNumberLl str 0 (uintMax / 2 / 1000) <;> rfl
  | _ =>
    simp only [Keyword.parse, dsetParseIgnored, ends_bind, ends_session, ends_modifyData, ends_ite,
      ends_pure, Prog.dsetWarn, ends_report]
    exact ⟨fun _ => trivial, fun _ => trivial⟩

theorem callParser_keepsStream (cmd : Cmd) (family : Bool) (argv : List Str) :
    KeepsStream (κ := κ) (callParser cmd family argv) := by
  have hcustom : KeepsStream (κ := κ) (do return (← Prog.customError .parameter, argv)) :=
    (KeepsStream.customError _).bind fun _ => .pure _
  refine .ite hcustom ?_
  have hloop (l : List Str) :
      KeepsStream (κ := κ) (callParserLoop (typeArgs cmd) family argv l) := by
    induction l using List.twoStepInduction with
    | nil => exact .pure _
    | singleton arg =>
      unfold callParserLoop
      cases (typeArgs cmd).find? (dsetMatchOption arg ·) with
      | none => exact hcustom
      | some k => exact hcustom
    | cons_cons arg value l ih _ =>
      unfold callParserLoop
      cases (typeArgs cmd).find? (dsetMatchOption arg ·) with
      | none => exact hcustom
      | some k =>
        exact .ite ih ((dsetCallParser_keepsStream k value).bind fun _ => .ite (.pure _) ih)
  exact hloop argv

theorem checkArgs_keepsStream (cmd : Cmd) (argv : List Str) :
    KeepsStream (κ := κ) (checkArgs cmd argv) := by
  have hcustom (status : Problem) :
      KeepsStream (κ := κ) (do let _ ← Prog.customError status) :=
    (KeepsStream.customError _).bind fun _ => .pure _
  refine .bind (.bind (fun _ => rfl) fun s => ?_) fun _ => .bind (.bind (fun _ => rfl) fun s => ?_)
    fun _ => .pure _
  · exact .ite (.pure _) (.ite (hcustom _) (.ite (hcustom _) (.pure _)))
  · exact .ite (hcustom _) (.pure _)

/-- A command that changes sets leaves the input of the stream open. -/
theorem parseStages_keepsStream (loops : Loops κ) {c : CmdArgs} (hchanges : c.cmd.changes = true) :
    KeepsStream (parseStages E loops c) := by
  obtain ⟨cmd, arg0, arg1, argv⟩ := c
  have hname (set : SetName → Data → Data) (str : Str) :
      KeepsStream (κ := κ) (dsetParseSetname set str >>= orStandardError) :=
    .orStandardError (dsetParseSetname_keepsStream set str)
  have hoptional : KeepsStream (κ := κ) (parseOptional arg0 argv) := by
    cases arg0 with
    | none => exact .pure _
    | some arg0 => exact .andThen (hname _ _) fun _ => .pure _
  have hnames (a0 a1 : Str) : KeepsStream (κ := κ) (parseNames a0 a1 argv) :=
    .andThen (hname _ _) fun _ => .andThen (hname _ _) fun _ => .pure _
  have hadt (cmd : Cmd) (a0 a1 : Str) : KeepsStream (parseAdt E cmd a0 a1 argv) :=
    .andThen (hname _ _) fun _ => .andThen (.typeOrError adtTypeGet_keepsStream) fun _ =>
      .andThen (.orStandardError (dsetParseElem_keepsStream a1)) fun _ =>
      .andThen (.parsedArgs (callParser_keepsStream cmd false argv)) fun l =>
      checkArgs_keepsStream cmd l
  have hcreate (a0 a1 : Str) : KeepsStream (parseCreate E a0 a1 argv) :=
    .andThen (hname _ _) fun _ =>
      .andThen (.orStandardError (dsetParseTypename_keepsStream a1)) fun _ =>
      .andThen (.typeOrError dsetTypeGetCreate_keepsStream) fun _ =>
      .andThen (.parsedArgs (callParser_keepsStream .create true argv)) fun l =>
      .andThen (.parsedArgs (callParser_keepsStream .create false l)) fun l' =>
      checkArgs_keepsStream .create l'
  replace hchanges : cmd.changes = true := hchanges
  cases cmd with
  | create =>
    match arg0, arg1 with
    | some a0, some a1 => exact hcreate a0 a1
    | none, _ => exact .pure _
    | some _, none => exact .pure _
  | destroy => exact hoptional
  | flush => exact hoptional
  | rename =>
    match arg0, arg1 with
    | some a0, some a1 => exact hnames a0 a1
    | none, _ => exact .pure _
    | some _, none => exact .pure _
  | swap =>
    match arg0, arg1 with
    | some a0, some a1 => exact hnames a0 a1
    | none, _ => exact .pure _
    | some _, none => exact .pure _
  | add =>
    match arg0, arg1 with
    | some a0, some a1 => exact hadt .add a0 a1
    | none, _ => exact .pure _
    | some _, none => exact .pure _
  | del =>
    match arg0, arg1 with
    | some a0, some a1 => exact hadt .del a0 a1
    | none, _ => exact .pure _
    | some _, none => exact .pure _
  | none | protocol | list | save | test | header | type | restore | help | version | quit =>
    cases hchanges

theorem parseLine_istream {loops : Loops κ} (argv : List Str) :
    Ends (parseLine E loops argv) d
      (fun res d' => ∀ cmd, res = .ok cmd → cmd.changes = true → d'.istream = d.istream)
      fun _ _ => True := by
  have hok {γ : Type} {x : Prog κ (Except ℤ γ)} (hx : KeepsStream x) (d : Process κ) :
      Ends x d (fun res d' => ∀ a, res = .ok a → d'.istream = d.istream) fun _ _ => True :=
    (hx d).mono (fun _ _ h _ _ => h) fun _ _ h => h
  simp only [parseLine, ends_bind, ends_get, ends_modifySession]
  refine ends_andThen (hok (parseEnvopts_keepsStream _ argv) _) fun rest d1 h1 => ?_
  refine ends_andThen (hok (parseCmd_keepsStream rest) d1) fun c d2 h2 => ?_
  refine ends_andThen (P := fun _ d3 => c.cmd.changes = true → d3.istream = d2.istream) ?_
    fun l d3 h3 => ?_
  · by_cases hchanges : c.cmd.changes = true
    · exact (hok (parseStages_keepsStream loops hchanges) d2).mono
        (fun _ _ h a ha _ => h a ha) fun _ _ h => h
    · exact (ends_true _).mono (fun _ _ _ _ _ h => absurd h hchanges) fun _ _ _ => trivial
  · refine ends_andThen (P := fun _ d4 => d4 = d3) (ends_ite.mpr
      ⟨fun _ => ends_error, fun _ _ _ => rfl⟩) fun _ d4 h4 => ?_
    subst h4
    rintro cmd ⟨⟩ hchanges
    exact (h3 hchanges).trans (h2.trans h1)

end

/-! ### Lines -/

/-- A line of a restore that is parsed without an error or a warning. -/
def CleanLine (E : Env κ) (loops : Loops κ) (line : List UInt8) (d : Process κ) : Prop :=
  isBlank (skipSpace line) = true ∨ isCommit (skipSpace line) = true ∨
    ∃ argv d1 cmd d2, readArgv ⟨[], [], false⟩ (skipSpace line) = some argv ∧
      buildArgv E (skipSpace line) d = .ok (0, argv) d1 ∧
      parseLine E loops argv d1 = .ok (.ok cmd) d2 ∧ cmd.changes = true ∧ d2.session.Quiet

/-- What a line does to the messages, with the number of the line and the options so far. -/
inductive LineMoves (page lineno : ℕ) (exist : Bool) (line : List UInt8) (p : Option Packet) :
    List (Bool × Option (List Item)) → Option Packet → Bool → Prop
  | blank (h : isBlank (skipSpace line) = true) : LineMoves page lineno exist line p [] p exist
  | commit (hblank : isBlank (skipSpace line) = false) (h : isCommit (skipSpace line) = true) :
    LineMoves page lineno exist line p (p.toList.map Packet.mail) none exist
  | command (hblank : isBlank (skipSpace line) = false) (hcommit : isCommit (skipSpace line) = false)
      {argv : List Str} (hread : readArgv ⟨[], [], false⟩ (skipSpace line) = some argv)
      {c : CmdArgs} (hline : lineArgs argv = some c) (hchanges : c.cmd.changes = true)
      {s : Session} (hdata : c.data = some s.data.forget) (hcmd : s.cmd = c.cmd)
      (hlineno : s.lineno = lineno) (hpage : s.bufsize = page)
      (hexist : s.envopts.exist = (exist || givesExist argv))
      {sent : List (Bool × Option (List Item))} {p' : Option Packet} (h : Moves s p sent p') :
    LineMoves page lineno exist line p sent p' (exist || givesExist argv)

/-- A process between two lines. -/
structure Process.Idle (past : List (Nlmsg × List (List KMsg)))
    (log : List (Bool × Option (List Item))) (p : Option Packet) (page : ℕ) (exist : Bool)
    (d : Process κ) : Prop where
  stale : d.session.stale = 0
  quiet : d.session.Quiet
  data : d.session.data.forget = Data.reset
  holds : d.session.Holds p
  logged : d.Logged past log
  page : d.session.bufsize = page
  exist : d.session.envopts.exist = exist

section

variable {past : List (Nlmsg × List (List KMsg))} {log : List (Bool × Option (List Item))}
  {p : Option Packet} {page : ℕ} {exist : Bool} {loops : Loops κ}

/-- A line that is parsed leaves the messages alone. -/
theorem Parsed.waits {argv : List Str} {cmd : Cmd} {d1 : Process κ}
    (hparsed : Parsed E argv d cmd d1) (h : d.Idle past log p page exist) :
    d1.session.bufsize = page ∧ d1.session.Holds p ∧ d1.Logged past log := by
  have hbuffer : d1.session.buffer = d.session.buffer := congrArg (·.buffer) hparsed.pending
  have hnested : d1.session.nested = d.session.nested := congrArg (·.nested) hparsed.pending
  have hcmd : d1.session.cmd = d.session.cmd := congrArg (·.cmd) hparsed.pending
  have hsaved : d1.session.savedSetname = d.session.savedSetname :=
    congrArg (·.savedSetname) hparsed.pending
  have hbufsize : d1.session.bufsize = d.session.bufsize := congrArg (·.bufsize) hparsed.pending
  refine ⟨hbufsize.trans h.page, ?_, h.logged.asked hparsed.asked.sent hbufsize⟩
  cases p with
  | none => exact ⟨hbuffer.trans h.holds.1, hnested.trans h.holds.2⟩
  | some p =>
    unfold Session.Holds
    rw [hbuffer, hnested, hcmd, hsaved, hbufsize]
    exact h.holds

/-- A command line that is parsed and executed. -/
theorem dsetParseArgv_moves (hE : E.Acks) (hbuf : 4096 ≤ page) (h : d.Idle past log p page exist)
    {argv : List Str} {cmd : Cmd} {d1 : Process κ}
    (hparse : parseLine E loops argv d = .ok (.ok cmd) d1) (hchanges : cmd.changes = true)
    (hquiet : d1.session.Quiet) :
    Ends (dsetParseArgv E loops argv) d
      (fun ret d' => ret = 0 ∧ SameInput d d' ∧ ∃ c s sent p', lineArgs argv = some c ∧
        c.cmd.changes = true ∧ c.data = some s.data.forget ∧ s.cmd = c.cmd ∧
        s.lineno = d.restoreLine ∧ s.bufsize = page ∧
        s.envopts.exist = (exist || givesExist argv) ∧ Moves s p sent p' ∧
        d'.Idle past (log ++ sent) p' page (exist || givesExist argv))
      fun _ _ => False := by
  have hparsed := (ends_of_ok hparse).mp (parseLine_parsed argv h.data) cmd rfl
  have histream := (ends_of_ok hparse).mp (parseLine_istream argv) cmd rfl hchanges
  obtain ⟨c, hline, rfl, hdata, -⟩ := hparsed.line
  obtain ⟨hpage, hholds, hlogged⟩ := hparsed.waits h
  have hrestore : d1.restoreLine = d.restoreLine := congrArg (·.restoreLine) hparsed.pending
  have hlineno : d1.session.lineno = d1.restoreLine := hparsed.lineno.trans hrestore.symm
  have hstale : d1.session.stale = 0 := hparsed.asked.stale hE.oneDatagram h.stale
  have hfilled : { d1.session with cmd := c.cmd }.Filled :=
    Session.filled_of_data hdata rfl hchanges hparsed.typed
  have hmoves := dsetCmd_moves hE hstale (hpage ▸ hbuf) hlogged hholds hfilled
  simp only [dsetParseArgv, ends_bind]
  rw [ends_of_ok hparse]
  simp only [executeCmd, ends_bind, ends_get]
  rw [← hlineno]
  apply hmoves.mono _ fun _ _ h => h
  rintro ret d2 ⟨rfl, hexec, sent, p', hmove, hholds2, hlog2⟩
  have hquiet2 := hexec.quiet hquiet
  simp only [ends_session, ends_ite, ends_pure]
  have hnone : ¬ ((0 : ℤ) < 0 ∨ d2.session.errType ≠ .noError) := by
    rintro (h | h)
    · exact lt_irrefl _ h
    · exact h hquiet2.2
  have hexist : d1.session.envopts.exist = (exist || givesExist argv) := by
    rw [hparsed.exist, h.exist]
  refine ⟨fun hbad => absurd hbad hnone, fun _ => ⟨trivial, ?_, c,
    { d1.session with cmd := c.cmd }, sent, p', hline, hchanges, hdata, rfl, hparsed.lineno, hpage,
    hexist, hmove, ?_⟩⟩
  · exact ⟨hexec.input.restoreLine.trans hrestore,
      hexec.input.stdin.trans (congrArg (·.stdin) hparsed.pending),
      hexec.input.istream.trans histream⟩
  · exact ⟨hexec.stale, hquiet2, by rw [hexec.data]; rfl, hholds2, hlog2,
      hexec.bufsize.trans hpage, by rw [hexec.envopts]; exact hexist⟩

theorem ends_softError {Q : PUnit → Process κ → Prop} {X : ℕ → Process κ → Prop}
    (h : Q ⟨⟩ d) : Ends (softError 0) d Q X := by
  unfold softError
  rw [if_neg (lt_irrefl _)]
  exact h

theorem streamLine_moves (hE : E.Acks) (hbuf : 4096 ≤ page) (h : d.Idle past log p page exist)
    {line : List UInt8}
    (hclean : CleanLine E loops line { d with restoreLine := (d.restoreLine + 1) % 2 ^ 32 }) :
    Ends (streamLine E loops line) d
      (fun r d' => r = .ok () ∧ d'.restoreLine = (d.restoreLine + 1) % 2 ^ 32 ∧
        d'.stdin = d.stdin ∧ d'.istream = d.istream ∧ ∃ sent p' exist',
          LineMoves page ((d.restoreLine + 1) % 2 ^ 32) exist line p sent p' exist' ∧
          d'.Idle past (log ++ sent) p' page exist')
      fun _ _ => False := by
  have hd : ({ d with restoreLine := (d.restoreLine + 1) % 2 ^ 32 } : Process κ).Idle past log p
      page exist := ⟨h.stale, h.quiet, h.data, h.holds, h.logged, h.page, h.exist⟩
  simp only [streamLine, ends_bind, ends_modify]
  cases hblank : isBlank (skipSpace line) with
  | true =>
    rw [if_pos rfl]
    refine ⟨rfl, rfl, rfl, rfl, [], p, exist, .blank hblank, ?_⟩
    rw [List.append_nil]
    exact hd
  | false =>
    rw [if_neg Bool.false_ne_true]
    cases hcommit : isCommit (skipSpace line) with
    | true =>
      rw [if_pos rfl]
      simp only [ends_bind, ends_pure]
      apply (dsetCommit_sends hE hd.stale hd.logged hd.holds).mono _ fun _ _ h => h
      rintro ret d' ⟨rfl, hcommits, hnone, hlog⟩
      obtain ⟨hdata1, -, -, hbuf1, hopts1, hstale1, hquiet1⟩ :=
        Session.same_of_committed hcommits.session
      refine ends_softError ⟨trivial, hcommits.input.restoreLine, hcommits.input.stdin,
        hcommits.input.istream, _, none, exist, .commit hblank hcommit, ?_⟩
      exact ⟨hstale1.trans hd.stale, hquiet1 hd.quiet, by rw [hdata1]; exact hd.data, hnone, hlog,
        hbuf1.trans hd.page, by rw [hopts1]; exact hd.exist⟩
    | false =>
      rw [if_neg Bool.false_ne_true]
      obtain ⟨argv, d1, cmd, d2, hread, hargv, hparse, hchanges, hquiet⟩ :=
        (hclean.resolve_left (by rw [hblank]; decide)).resolve_left (by rw [hcommit]; decide)
      obtain ⟨-, n, hd1⟩ := (ends_of_ok hargv).mp (buildArgv_returns hE.succeeds hread)
      have hidle : d1.Idle past log p page exist := by
        rw [hd1]
        exact ⟨h.stale, h.quiet, h.data, h.holds, h.logged, h.page, h.exist⟩
      rw [ends_bind, ends_of_ok hargv]
      dsimp only
      rw [if_neg (lt_irrefl _)]
      simp only [ends_bind, ends_pure]
      apply (dsetParseArgv_moves hE hbuf hidle hparse hchanges hquiet).mono _ fun _ _ h => h
      rintro ret d' ⟨rfl, hinput, c, s, sent, p', hline, hcchanges, hdata, hcmd, hlineno, hpage, hexist,
        hmove, hidle'⟩
      rw [hd1] at hinput hlineno
      exact ends_softError ⟨trivial, hinput.restoreLine, hinput.stdin, hinput.istream, sent, p', _,
        .command hblank hcommit hread hline hcchanges hdata hcmd hlineno hpage hexist hmove, hidle'⟩

end

/-! ### Streams -/

/-- The process when a line is read from a stream. -/
def Process.reads (d : Process κ) (source : Source) (lines : List (List UInt8)) : Process κ :=
  if source = .stdin then { d with stdin := lines.flatten } else d

/-- Every line of a restore that is reached is parsed without an error or a warning. -/
def CleanLines (E : Env κ) (loops : Loops κ) (source : Source) :
    List (List UInt8) → Process κ → Prop
  | [], _ => True
  | line :: lines, d =>
    CleanLine E loops line
        { d.reads source lines with restoreLine := (d.restoreLine + 1) % 2 ^ 32 } ∧
      ∀ d', streamLine E loops line (d.reads source lines) = .ok (.ok ()) d' →
        CleanLines E loops source lines d'

/-- What the lines of a stream do to the messages. -/
inductive ScriptMoves (page : ℕ) : ℕ → Bool → List (List UInt8) → Option Packet →
    List (Bool × Option (List Item)) → Option Packet → Prop
  | nil (lineno : ℕ) (exist : Bool) (p : Option Packet) :
    ScriptMoves page lineno exist [] p [] p
  | cons {lineno : ℕ} {exist : Bool} {line : List UInt8} {lines : List (List UInt8)}
      {p p' p'' : Option Packet} {sent sent' : List (Bool × Option (List Item))} {exist' : Bool}
      (h : LineMoves page ((lineno + 1) % 2 ^ 32) exist line p sent p' exist')
      (hlines : ScriptMoves page ((lineno + 1) % 2 ^ 32) exist' lines p' sent' p'') :
    ScriptMoves page lineno exist (line :: lines) p (sent ++ sent') p''

theorem fgetsFrom_ne_nil (read stream : List UInt8) : ∀ line ∈ fgetsFrom read stream, line ≠ [] := by
  induction stream generalizing read with
  | nil =>
    intro line hline
    unfold fgetsFrom at hline
    split at hline
    · cases hline
    · rename_i hne
      rw [List.mem_singleton.mp hline]
      exact hne
  | cons c l ih =>
    intro line hline
    unfold fgetsFrom at hline
    split at hline
    · rcases List.mem_cons.mp hline with rfl | hline
      · exact List.append_ne_nil_of_right_ne_nil _ (List.cons_ne_nil _ _)
      · exact ih [] line hline
    · exact ih _ line hline

section

variable {past : List (Nlmsg × List (List KMsg))} {log : List (Bool × Option (List Item))}
  {p : Option Packet} {page : ℕ} {exist : Bool} {loops : Loops κ} {source : Source}

def Reaches (past : List (Nlmsg × List (List KMsg))) (log : List (Bool × Option (List Item)))
    (p : Option Packet) (page lineno : ℕ) (exist : Bool) (lines : List (List UInt8))
    (r : Except ℤ Unit) (d' : Process κ) : Prop :=
  r = .ok () ∧ ∃ sent p' exist', ScriptMoves page lineno exist lines p sent p' ∧
    d'.Idle past (log ++ sent) p' page exist'

/-- A stream is read on behind a line, if there is more of it. -/
theorem readOn_reads {lines : List (List UInt8)} (hlines : ∀ line ∈ lines, line ≠ [])
    (hstdin : source = .stdin → d.stdin = lines.flatten)
    (hfile : source = .file → d.istream = true) :
    Ends (readOn source) d (fun more d' => d' = d ∧ (more = false → lines = []))
      fun _ _ => False := by
  cases source with
  | stdin =>
    simp only [readOn, ends_bind, ends_get, ends_pure, hstdin rfl]
    refine ⟨trivial, fun hmore => List.eq_nil_iff_forall_not_mem.mpr fun line hline => ?_⟩
    have hnil : lines.flatten = [] := not_not.mp (of_decide_eq_false hmore)
    exact hlines line hline (List.flatten_eq_nil_iff.mp hnil line hline)
  | file =>
    simp only [readOn, ends_bind, ends_get, hfile rfl, if_true, ends_pure]
    exact ⟨trivial, fun h => absurd h (by decide)⟩
  | user => exact ⟨rfl, fun h => absurd h (by decide)⟩

theorem ends_streamLines {line : List UInt8} {lines : List (List UInt8)}
    {Q : Except ℤ Unit → Process κ → Prop} {X : ℕ → Process κ → Prop} :
    Ends (streamLines E loops source (line :: lines)) d Q X ↔ Ends (do
      match ← streamLine E loops line with
      | .error ret => return .error ret
      | .ok _ => if ← readOn source then streamLines E loops source lines else return .ok ())
      (d.reads source lines) Q X := by
  cases source with
  | stdin => exact Iff.rfl
  | file => exact Iff.rfl
  | user => exact Iff.rfl

theorem streamLines_moves (hE : E.Acks) (hbuf : 4096 ≤ page) {lines : List (List UInt8)}
    (hlines : ∀ line ∈ lines, line ≠ []) (h : d.Idle past log p page exist)
    (hfile : source = .file → d.istream = true) (hclean : CleanLines E loops source lines d) :
    Ends (streamLines E loops source lines) d (Reaches past log p page d.restoreLine exist lines)
      fun _ _ => False := by
  induction lines generalizing d log p exist with
  | nil =>
    refine ⟨rfl, [], p, exist, .nil _ _ _, ?_⟩
    rw [List.append_nil]
    exact h
  | cons line lines ih =>
    obtain ⟨hline, hrest⟩ := hclean
    have hlines' : ∀ l ∈ lines, l ≠ [] := fun l hl => hlines l (List.mem_cons_of_mem _ hl)
    have hreads : (d.reads source lines).Idle past log p page exist ∧
        (d.reads source lines).restoreLine = d.restoreLine ∧
        (source = .file → (d.reads source lines).istream = true) ∧
        (source = .stdin → (d.reads source lines).stdin = lines.flatten) := by
      unfold Process.reads
      split
      · exact ⟨⟨h.stale, h.quiet, h.data, h.holds, h.logged, h.page, h.exist⟩, rfl, hfile,
          fun _ => rfl⟩
      · rename_i hne
        exact ⟨h, rfl, hfile, fun hs => absurd hs hne⟩
    have hstep := streamLine_moves (d := d.reads source lines) hE hbuf hreads.1
      (by rw [hreads.2.1]; exact hline)
    rw [hreads.2.1] at hstep
    rw [ends_streamLines]
    cases hrun : streamLine E loops line (d.reads source lines) with
    | error status d1 =>
      unfold Ends at hstep
      rw [hrun] at hstep
      exact hstep.elim
    | ok r d1 =>
      obtain ⟨rfl, hline1, hstdin1, histream1, sent1, p1, exist1, hmove1, hidle1⟩ :=
        (ends_of_ok hrun).mp hstep
      have hfile1 : source = .file → d1.istream = true :=
        fun hs => histream1.trans (hreads.2.2.1 hs)
      rw [ends_bind, ends_of_ok hrun]
      simp only [ends_bind, ends_ite, ends_pure]
      apply (readOn_reads hlines' (fun hs => hstdin1.trans (hreads.2.2.2 hs)) hfile1).mono _
        fun _ _ h => h
      rintro more d2 ⟨rfl, hmore⟩
      refine ⟨fun _ => ?_, fun hstop => ?_⟩
      · apply (ih hlines' hidle1 hfile1 (hrest d2 hrun)).mono _ fun _ _ h => h
        rintro r d3 ⟨rfl, sent2, p2, exist2, hmoves2, hidle2⟩
        rw [hline1] at hmoves2
        rw [List.append_assoc] at hidle2
        exact ⟨rfl, _, p2, exist2, .cons hmove1 hmoves2, hidle2⟩
      · obtain rfl := hmore (Bool.eq_false_iff.mpr hstop)
        refine ⟨rfl, _, p1, exist1, .cons hmove1 (.nil _ _ _), ?_⟩
        rw [List.append_nil]
        exact hidle1

/-- A stream is read to its end, and what is left in the buffer is sent. -/
theorem parseStream_moves (hE : E.Acks) (hbuf : 4096 ≤ page) {stream : List UInt8}
    (h : d.Idle past log p page exist) (hfile : source = .file → d.istream = true)
    (hclean : CleanLines E loops source (fgetsLines stream) d) :
    Ends (parseStream E loops source stream) d
      (fun ret d' => ret = 0 ∧ ∃ sent p',
        ScriptMoves page d.restoreLine exist (fgetsLines stream) p sent p' ∧
        d'.Logged past (log ++ sent ++ p'.toList.map Packet.mail) ∧ d'.session.bufsize = page)
      fun _ _ => False := by
  simp only [parseStream, ends_bind]
  apply (streamLines_moves hE hbuf (fgetsFrom_ne_nil [] stream) h hfile hclean).mono _
    fun _ _ h => h
  rintro r d1 ⟨rfl, sent, p1, exist1, hmoves, hidle⟩
  simp only [ends_bind, ends_pure]
  apply (dsetCommit_sends hE hidle.stale hidle.logged hidle.holds).mono _ fun _ _ h => h
  rintro ret d2 ⟨rfl, hcommits, -, hlog⟩
  have hbufsize := (congrArg Session.bufsize hcommits.session).trans hidle.page
  exact ends_softError ⟨rfl, sent, p1, hmoves, hlog, hbufsize⟩

end

end Dset.User
