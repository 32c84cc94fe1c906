import Dset.User.Query

/-! What a command line says, as a function of its arguments, and that parsing it stores just
that: an accepted line leaves in the blob what it would leave in an empty one, and the
message under construction as it was. -/

namespace Dset.User

open Dset.Lib Dset.Core

variable {κ : Type}

/-! ### What a line says -/

def dropEnvopt (o : EnvOpt) : List Str → List Str
  | [] => []
  | [arg] => if dsetMatchEnvopt arg o then [] else [arg]
  | arg :: value :: l =>
    if dsetMatchEnvopt arg o then
      if o.hasArg then dropEnvopt o l else dropEnvopt o (value :: l)
    else arg :: dropEnvopt o (value :: l)

def dropEnvopts (os : List EnvOpt) (argv : List Str) : List Str :=
  os.foldl (fun argv o => dropEnvopt o argv) argv

/-- `-exist` is given, and not as the value of `-output`. -/
def givesExist (argv : List Str) : Bool :=
  (dropEnvopts [.output, .sorted, .quiet] argv).any (dsetMatchEnvopt · .exist)

def DsetCommand.args (command : DsetCommand) : List Str → Option CmdArgs
  | [] => match command.hasArg with
    | .mandatoryArg2 => none
    | _ => some ⟨command.cmd, none, none, []⟩
  | arg0 :: l => match command.hasArg, l with
    | .noArg, l => some ⟨command.cmd, none, none, arg0 :: l⟩
    | .optionalArg, l => some ⟨command.cmd, some arg0, none, l⟩
    | .mandatoryArg2, arg1 :: l => some ⟨command.cmd, some arg0, some arg1, l⟩
    | .mandatoryArg2, [] => none

/-- The command that arguments start with. -/
def cmdArgs : List Str → Option CmdArgs
  | [] => none
  | arg :: l => (dsetCommands.find? fun c => dsetMatchCmd arg c.name).bind (·.args l)

def lineArgs (argv : List Str) : Option CmdArgs := cmdArgs (dropEnvopts EnvOpt.all argv)

/-- The blob behind an option of the set type, unless it is in error. -/
def Keyword.store (k : Keyword) (str : Str) (data : Data) : Option Data :=
  if data.test k.opt then none
  else match k with
    | .hashsize => (stringToNumberLl str 0 uintMax).toOption.map (data.setCreate .hashsize)
    | .maxelem => (stringToNumberLl str 0 uintMax).toOption.map (data.setCreate .maxelem)
    | .timeout => (stringToNumberLl str 0 (uintMax / 2 / 1000)).toOption.map data.setTimeout
    | .probes | .resize | .gc => some (data.markIgnored k.opt).2

/-- The blob behind the options of the set type. -/
def storeOpts (kws : List Keyword) : Data → List Str → Option Data
  | data, [] => some data
  | _, [_] => none
  | data, arg :: value :: l =>
    (kws.find? (dsetMatchOption arg ·)).bind fun k => (k.store value data).bind (storeOpts kws · l)

def nameData (name : Str) : Option Data := (SetName.ofStr name).map Data.reset.setSetname

/-- The blob a command leaves in an empty one, apart from what it says about the type. -/
def CmdArgs.data (c : CmdArgs) : Option Data :=
  match c.cmd, c.arg0, c.arg1 with
  | .create, some arg0, some arg1 =>
    if dsetMaxnamelen ≤ arg1.length ∨ ¬ dsetMatchTypename arg1 then none
    else (nameData arg0).bind (storeOpts (typeArgs .create) · c.argv)
  | .add, some arg0, some arg1 | .del, some arg0, some arg1 | .test, some arg0, some arg1 =>
    if elemSeparator arg1 then none
    else (nameData arg0).bind fun data => storeOpts (typeArgs c.cmd) (data.setDomain arg1) c.argv
  | .rename, some arg0, some arg1 | .swap, some arg0, some arg1 =>
    if c.argv ≠ [] then none
    else (nameData arg0).bind fun data => (SetName.ofStr arg1).map data.setSetname2
  | .destroy, arg0, _ | .flush, arg0, _ | .list, arg0, _ | .save, arg0, _ =>
    if c.argv ≠ [] then none else arg0.elim (some Data.reset) nameData
  | _, _, _ => none

/-! ### Error functions -/

/-- What an error function leaves alone. -/
structure Complained (d d' : Process κ) : Prop where
  steady : d'.steady = d.steady
  sent : d'.sent = d.sent
  stale : d'.session.stale = d.session.stale
  data : d'.session.data = d.session.data
  lineno : d'.session.lineno = d.session.lineno
  quiet : d.session.Quiet → d'.session.Quiet

variable {E : Env κ} {d : Process κ}

theorem callErrorFn_complained (f : ErrorFn) {X : ℕ → Process κ → Prop} :
    Ends (Prog.callErrorFn f) d (fun _ d' => Complained d d') X := by
  simp only [Prog.callErrorFn, ends_bind, ends_get, ends_modify, ends_ite, ends_pure,
    ends_modifySession]
  exact ⟨fun _ => ⟨rfl, rfl, rfl, rfl, rfl, fun _ => ⟨rfl, rfl⟩⟩,
    fun _ => ⟨rfl, rfl, rfl, rfl, rfl, fun h => h⟩⟩

theorem customError_complained (status : Problem) :
    Ends (Prog.customError status) d (fun _ d' => Complained d d') fun _ _ => True := by
  simp only [Prog.customError, ends_bind, ends_get]
  cases d.errorFns.custom with
  | some f => exact callErrorFn_complained f
  | none =>
    simp only [Prog.defaultCustomError, ends_bind, ends_get, ends_ite, ends_modifySession,
      ends_pure, ends_exit]
    exact ⟨fun _ => ⟨rfl, rfl, rfl, rfl, rfl, fun _ => ⟨rfl, rfl⟩⟩, fun _ => trivial⟩

/-! ### Options of the program -/

structure Opted (given : Bool) (d d' : Process κ) : Prop where
  pending : d'.pending = d.pending
  sent : d'.sent = d.sent
  stale : d'.session.stale = d.session.stale
  data : d'.session.data = d.session.data
  lineno : d'.session.lineno = d.session.lineno
  quiet : d.session.Quiet → d'.session.Quiet
  exist : d'.session.envopts.exist = (d.session.envopts.exist || given)

theorem Opted.refl (d : Process κ) : Opted false d d :=
  ⟨rfl, rfl, rfl, rfl, rfl, fun h => h, (Bool.or_false _).symm⟩

theorem Opted.trans {given given' : Bool} {d' d'' : Process κ} (h : Opted given d d')
    (h' : Opted given' d' d'') : Opted (given || given') d d'' where
  pending := h'.pending.trans h.pending
  sent := h'.sent.trans h.sent
  stale := h'.stale.trans h.stale
  data := h'.data.trans h.data
  lineno := h'.lineno.trans h.lineno
  quiet := fun hq => h'.quiet (h.quiet hq)
  exist := by rw [h'.exist, h.exist, Bool.or_assoc]

theorem Complained.opted {d' : Process κ} (h : Complained d d') : Opted false d d' where
  pending := congrArg Steady.toPending h.steady
  sent := h.sent
  stale := h.stale
  data := h.data
  lineno := h.lineno
  quiet := h.quiet
  exist := (congrArg (·.envopts.exist) h.steady).trans (Bool.or_false _).symm

theorem EnvOpt.parse_opted (o : EnvOpt) (str : Str) :
    Ends (o.parse str) d (fun ret d' => 0 ≤ ret → Opted (o = .exist) d d') fun _ _ => True := by
  cases o with
  | output =>
    simp only [EnvOpt.parse, dsetParseOutput, ends_ite]
    refine ⟨fun _ _ => ?_, fun _ => ⟨fun _ _ => ?_, fun _ => ⟨fun _ _ => ?_, fun _ h => ?_⟩⟩⟩
    · exact ⟨rfl, rfl, rfl, rfl, rfl, fun h => h, (Bool.or_false _).symm⟩
    · exact ⟨rfl, rfl, rfl, rfl, rfl, fun h => h, (Bool.or_false _).symm⟩
    · exact ⟨rfl, rfl, rfl, rfl, rfl, fun h => h, (Bool.or_false _).symm⟩
    · exact absurd h (by decide)
  | exist => exact fun _ => ⟨rfl, rfl, rfl, rfl, rfl, fun h => h, (Bool.or_true _).symm⟩
  | file =>
    simp only [EnvOpt.parse, dsetParseFilename, ends_bind, ends_get, ends_ite, ends_modify, ends_pure]
    refine ⟨fun _ => ?_, fun _ _ => ?_⟩
    · exact (customError_complained _).mono (fun ret d' h _ => h.opted) fun _ _ h => h
    · exact ⟨rfl, rfl, rfl, rfl, rfl, fun h => h, (Bool.or_false _).symm⟩
  | _ => exact fun _ => ⟨rfl, rfl, rfl, rfl, rfl, fun h => h, (Bool.or_false _).symm⟩

theorem ends_error {α β : Type} {x : Prog κ α} {f : α → ℤ} {Q : β → Process κ → Prop} :
    Ends (do return (.error (f (← x)) : Except ℤ β)) d
      (fun res d' => ∀ b, res = .ok b → Q b d') fun _ _ => True := by
  simp only [ends_bind, ends_pure]
  exact (ends_true x).mono (fun _ _ _ b h => by cases h) fun _ _ _ => trivial

/-- An option and its value that are parsed, with what comes behind. -/
theorem parse_opted_bind {β : Type} (o : EnvOpt) (str : Str) {x : Prog κ (Except ℤ β)}
    {Q : β → Process κ → Prop}
    (h : ∀ d', Opted (o = .exist) d d' →
      Ends x d' (fun res d'' => ∀ b, res = .ok b → Q b d'') fun _ _ => True) :
    Ends (do if (← o.parse str) < 0 then return .error (← Prog.standardError) else x) d
      (fun res d' => ∀ b, res = .ok b → Q b d') fun _ _ => True := by
  rw [ends_bind]
  refine (o.parse_opted str).mono (fun ret d1 h1 => ends_ite.mpr ⟨fun _ => ends_error, fun hret => ?_⟩)
    fun _ _ h => h
  exact h d1 (h1 (not_lt.mp hret))

/-- The loop for one option takes it out of the arguments. -/
theorem parseEnvopt_opted (o : EnvOpt) (kept argv : List Str) :
    Ends (parseEnvopt o kept argv) d
      (fun res d' => ∀ l, res = .ok l → l = kept ++ dropEnvopt o argv ∧
        Opted (decide (o = .exist) && argv.any (dsetMatchEnvopt · o)) d d')
      fun _ _ => True := by
  have hnone (d : Process κ) : Opted (decide (o = .exist) && false) d d := by
    rw [Bool.and_false]
    exact Opted.refl d
  induction argv using dropEnvopt.induct (o := o) generalizing kept d with
  | case1 =>
    rintro l ⟨⟩
    exact ⟨(List.append_nil kept).symm, hnone d⟩
  | case2 arg harg =>
    unfold parseEnvopt
    rw [harg, Bool.not_true, if_neg Bool.false_ne_true]
    refine ends_ite.mpr ⟨fun _ => ends_error, fun _ => parse_opted_bind o [] fun d' h => ?_⟩
    rintro l ⟨⟩
    simpa [dropEnvopt, harg] using h
  | case3 arg harg =>
    unfold parseEnvopt
    rw [Bool.not_eq_true] at harg
    rw [harg, Bool.not_false, if_pos rfl]
    rintro l ⟨⟩
    simpa [dropEnvopt, harg] using hnone d
  | case4 arg value l harg hhas ih =>
    unfold parseEnvopt
    rw [harg, Bool.not_true, if_neg Bool.false_ne_true, if_pos hhas]
    refine parse_opted_bind o value fun d' h => (ih kept).mono (fun res d'' h' m hm => ?_) fun _ _ h => h
    obtain ⟨hl, ho⟩ := h' m hm
    have hne : o ≠ .exist := by
      rintro rfl
      cases hhas
    simp only [hne, decide_false, Bool.false_and] at h ho ⊢
    refine ⟨?_, h.trans ho⟩
    rw [hl, dropEnvopt, if_pos harg, if_pos hhas]
  | case5 arg value l harg hhas ih =>
    unfold parseEnvopt
    rw [harg, Bool.not_true, if_neg Bool.false_ne_true, if_neg hhas]
    refine parse_opted_bind o [] fun d' h => (ih kept).mono (fun res d'' h' m hm => ?_) fun _ _ h => h
    obtain ⟨hl, ho⟩ := h' m hm
    refine ⟨?_, ?_⟩
    · rw [hl, dropEnvopt, if_pos harg, if_neg hhas]
    · have hboth := h.trans ho
      rw [List.any_cons, harg, Bool.true_or, Bool.and_true]
      rwa [show ∀ a b : Bool, (a || (a && b)) = a by decide] at hboth
  | case6 arg value l harg ih =>
    unfold parseEnvopt
    rw [Bool.not_eq_true] at harg
    rw [harg, Bool.not_false, if_pos rfl]
    refine (ih (kept ++ [arg])).mono (fun res d'' h' m hm => ?_) fun _ _ h => h
    obtain ⟨hl, ho⟩ := h' m hm
    refine ⟨?_, ?_⟩
    · rw [hl, dropEnvopt, harg, if_neg Bool.false_ne_true, List.append_assoc]
      rfl
    · rwa [List.any_cons, harg, Bool.false_or]

def existGiven : List EnvOpt → List Str → Bool
  | [], _ => false
  | o :: os, argv => (decide (o = .exist) && argv.any (dsetMatchEnvopt · o)) ||
      existGiven os (dropEnvopt o argv)

theorem parseEnvopts_opted (os : List EnvOpt) (argv : List Str) :
    Ends (parseEnvopts os argv) d
      (fun res d' => ∀ l, res = .ok l → l = dropEnvopts os argv ∧ Opted (existGiven os argv) d d')
      fun _ _ => True := by
  induction os generalizing argv d with
  | nil =>
    rintro l ⟨⟩
    exact ⟨rfl, Opted.refl d⟩
  | cons o os ih =>
    rw [parseEnvopts, ends_bind]
    refine (parseEnvopt_opted o [] argv).mono (fun res d1 h => ?_) fun _ _ h => h
    cases res with
    | error ret => exact fun l hl => by cases hl
    | ok rest =>
      obtain ⟨hrest, hopted⟩ := h rest rfl
      rw [List.nil_append] at hrest
      subst hrest
      refine (ih (dropEnvopt o argv)).mono (fun res d2 h' l hl => ?_) fun _ _ h => h
      obtain ⟨hl', hopted'⟩ := h' l hl
      exact ⟨hl', hopted.trans hopted'⟩

theorem existGiven_all (argv : List Str) : existGiven EnvOpt.all argv = givesExist argv := by
  simp [existGiven, EnvOpt.all, givesExist, dropEnvopts]

/-! ### The command -/

theorem parseCmdArgs_args (command : DsetCommand) (argv : List Str) :
    Ends (parseCmdArgs command argv) d
      (fun res d' => ∀ c, res = .ok c → d' = d ∧ command.args argv = some c) fun _ _ => True := by
  obtain ⟨cmd, name, hasArg⟩ := command
  cases hasArg with
  | noArg =>
    rintro c ⟨⟩
    exact ⟨rfl, by cases argv <;> rfl⟩
  | optionalArg =>
    rintro c ⟨⟩
    exact ⟨rfl, by cases argv <;> rfl⟩
  | mandatoryArg2 =>
    match argv with
    | [] => exact ends_error
    | [_] => exact ends_error
    | arg0 :: arg1 :: l =>
      rintro c ⟨⟩
      exact ⟨rfl, rfl⟩

theorem parseCmd_args (argv : List Str) :
    Ends (parseCmd argv) d
      (fun res d' => ∀ c, res = .ok c → d' = d ∧ (c.cmd = .none ∨ cmdArgs argv = some c))
      fun _ _ => True := by
  cases argv with
  | nil =>
    rintro c ⟨⟩
    exact ⟨rfl, .inl rfl⟩
  | cons arg l =>
    unfold parseCmd cmdArgs
    dsimp only
    cases dsetCommands.find? fun c => dsetMatchCmd arg c.name with
    | none =>
      rintro c ⟨⟩
      exact ⟨rfl, .inl rfl⟩
    | some command =>
      simp only [ends_bind, ends_get]
      refine ends_ite.mpr ⟨fun _ => ends_error, fun _ => ends_ite.mpr ⟨fun _ => ?_, fun _ => ?_⟩⟩
      · intro c hc
        cases hc
      · refine (parseCmdArgs_args command l).mono (fun res d' h c hc => ?_) fun _ _ h => h
        exact ⟨(h c hc).1, .inr (h c hc).2⟩

/-! ### Options of the set type -/

theorem ends_dsetErr_fails (r : Report) {Q : Process κ → Prop} {X : ℕ → Process κ → Prop} :
    Ends (Prog.dsetErr r) d (fun ret d' => 0 ≤ ret → Q d') X := by
  rw [ends_dsetErr]
  exact fun h => absurd h (by decide)

/-- What storing in the blob leaves alone. -/
structure Stored (d d' : Process κ) : Prop where
  steady : d'.steady = d.steady
  sent : d'.sent = d.sent
  stale : d'.session.stale = d.session.stale
  lineno : d'.session.lineno = d.session.lineno

theorem Stored.refl (d : Process κ) : Stored d d := ⟨rfl, rfl, rfl, rfl⟩

theorem Stored.trans {d' d'' : Process κ} (h : Stored d d') (h' : Stored d' d'') : Stored d d'' :=
  ⟨h'.steady.trans h.steady, h'.sent.trans h.sent, h'.stale.trans h.stale,
    h'.lineno.trans h.lineno⟩

def Keyword.isIgnored (k : Keyword) : Bool := k = .probes || k = .resize || k = .gc

theorem dsetCallParser_stores (k : Keyword) (str : Str) :
    Ends (dsetCallParser k str) d
      (fun ret d' => 0 ≤ ret → k.store str d.session.data = some d'.session.data ∧ Stored d d' ∧
        (k.isIgnored = false → d.session.Quiet → d'.session.Quiet))
      fun _ _ => True := by
  have hignored (hk : k.isIgnored = true) (hstore : d.session.data.test k.opt = false →
      k.store str d.session.data = some (d.session.data.markIgnored k.opt).2)
      (htest : d.session.data.test k.opt = false) :
      Ends (dsetParseIgnored k str) d
        (fun ret d' => 0 ≤ ret → k.store str d.session.data = some d'.session.data ∧ Stored d d' ∧
          (k.isIgnored = false → d.session.Quiet → d'.session.Quiet)) fun _ _ => True := by
    simp only [dsetParseIgnored, ends_bind, ends_session, ends_modifyData, ends_ite, ends_pure,
      Prog.dsetWarn, ends_report]
    exact ⟨fun _ _ => ⟨hstore htest, ⟨rfl, rfl, rfl, rfl⟩, fun h => absurd (hk.symm.trans h) (by decide)⟩,
      fun _ _ => ⟨hstore htest, ⟨rfl, rfl, rfl, rfl⟩, fun h => absurd (hk.symm.trans h) (by decide)⟩⟩
  simp only [dsetCallParser, ends_bind, ends_session, ends_ite]
  refine ⟨fun _ => ends_dsetErr_fails _, fun htest => ?_⟩
  rw [Bool.not_eq_true] at htest
  cases k with
  | hashsize =>
    simp only [Keyword.parse, Keyword.store, htest, dsetParseUint32]
    cases stringToNumberLl str 0 uintMax with
    | error r => exact ends_dsetErr_fails _
    | ok v => exact fun _ => ⟨rfl, ⟨rfl, rfl, rfl, rfl⟩, fun _ h => h⟩
  | maxelem =>
    simp only [Keyword.parse, Keyword.store, htest, dsetParseUint32]
    cases stringToNumberLl str 0 uintMax with
    | error r => exact ends_dsetErr_fails _
    | ok v => exact fun _ => ⟨rfl, ⟨rfl, rfl, rfl, rfl⟩, fun _ h => h⟩
  | timeout =>
    simp only [Keyword.parse, Keyword.store, htest, dsetParseTimeout]
    cases stringToNumberLl str 0 (uintMax / 2 / 1000) with
    | error r => exact ends_dsetErr_fails _
    | ok v => exact fun _ => ⟨rfl, ⟨rfl, rfl, rfl, rfl⟩, fun _ h => h⟩
  | _ => exact hignored rfl (fun h => by rw [Keyword.store, h, if_neg Bool.false_ne_true]) htest

theorem callParserLoop_stores (kws : List Keyword) (all l : List Str) (hall : l ≠ [] → all ≠ []) :
    Ends (callParserLoop kws false all l) d
      (fun r d' => r.1 = 0 → r.2 = [] →
        storeOpts kws d.session.data l = some d'.session.data ∧ Stored d d' ∧
        ((∀ arg ∈ l, ∀ k ∈ kws.find? (dsetMatchOption arg ·), k.isIgnored = false) →
          d.session.Quiet → d'.session.Quiet))
      fun _ _ => True := by
  have hcustom {Q : Process κ → Prop} (d : Process κ) (hne : all ≠ []) :
      Ends (do return (← Prog.customError .parameter, all)) d
        (fun r d' => r.1 = 0 → r.2 = [] → Q d') fun _ _ => True := by
    simp only [ends_bind, ends_pure]
    exact (ends_true _).mono (fun _ _ _ _ h => absurd h hne) fun _ _ _ => trivial
  induction l using List.twoStepInduction generalizing d with
  | nil => exact fun _ _ => ⟨rfl, Stored.refl d, fun _ h => h⟩
  | singleton arg =>
    have hne := hall (List.cons_ne_nil _ _)
    unfold callParserLoop
    cases kws.find? (dsetMatchOption arg ·) with
    | none => exact hcustom d hne
    | some k => exact hcustom d hne
  | cons_cons arg value l ih _ =>
    have hne := hall (List.cons_ne_nil _ _)
    unfold callParserLoop
    rw [storeOpts]
    cases hfind : kws.find? (dsetMatchOption arg ·) with
    | none => exact hcustom d hne
    | some k =>
      dsimp only
      rw [if_neg Bool.false_ne_true, ends_bind, Option.bind_some]
      refine (dsetCallParser_stores k value).mono (fun ret d1 h => ends_ite.mpr
        ⟨fun hneg h0 => ?_, fun hret => ?_⟩) fun _ _ h => h
      · exact absurd h0 hneg.ne
      · obtain ⟨hstore, hstored, hquiet⟩ := h (not_lt.mp hret)
        rw [hstore, Option.bind_some]
        refine (ih fun _ => hne).mono (fun r d2 h' h0 hnil => ?_) fun _ _ h => h
        obtain ⟨hstore', hstored', hquiet'⟩ := h' h0 hnil
        refine ⟨hstore', hstored.trans hstored', fun hclean hq => hquiet' ?_ (hquiet ?_ hq)⟩
        · exact fun arg harg => hclean arg (List.mem_cons_of_mem _ (List.mem_cons_of_mem _ harg))
        · exact hclean arg List.mem_cons_self k hfind

theorem Complained.refl (d : Process κ) : Complained d d := ⟨rfl, rfl, rfl, rfl, rfl, fun h => h⟩

theorem callParser_family (cmd : Cmd) (argv : List Str) :
    Ends (callParser cmd true argv) d (fun r d' => r.2 = argv ∧ Complained d d')
      fun _ _ => True := by
  have hcustom : Ends (do return (← Prog.customError .parameter, argv)) d
      (fun r d' => r.2 = argv ∧ Complained d d') fun _ _ => True := by
    simp only [ends_bind, ends_pure]
    exact (customError_complained _).mono (fun _ _ h => ⟨trivial, h⟩) fun _ _ h => h
  have hloop (l : List Str) : Ends (callParserLoop (typeArgs cmd) true argv l) d
      (fun r d' => r.2 = argv ∧ Complained d d') fun _ _ => True := by
    induction l using List.twoStepInduction with
    | nil => exact ⟨rfl, Complained.refl d⟩
    | singleton arg =>
      unfold callParserLoop
      cases (typeArgs cmd).find? (dsetMatchOption arg ·) with
      | none => exact hcustom
      | some k => exact hcustom
    | cons_cons arg value l ih _ =>
      unfold callParserLoop
      cases (typeArgs cmd).find? (dsetMatchOption arg ·) with
      | none => exact hcustom
      | some k => exact ih
  exact ends_ite.mpr ⟨fun _ => hcustom, fun _ => hloop argv⟩

/-- None of the arguments is an option that is ignored. -/
def NoneIgnored (cmd : Cmd) (argv : List Str) : Prop :=
  ∀ arg ∈ argv, ∀ k ∈ (typeArgs cmd).find? (dsetMatchOption arg ·), k.isIgnored = false

/-- A pass that leaves no argument stores them all. -/
theorem callParser_stores (cmd : Cmd) (argv : List Str) :
    Ends (callParser cmd false argv) d
      (fun r d' => r.1 = 0 → r.2 = [] →
        storeOpts (typeArgs cmd) d.session.data argv = some d'.session.data ∧ Stored d d' ∧
        (NoneIgnored cmd argv → d.session.Quiet → d'.session.Quiet))
      fun _ _ => True := by
  refine ends_ite.mpr ⟨fun h => ?_, fun _ => callParserLoop_stores _ _ _ fun h => h⟩
  simp only [ends_bind, ends_pure]
  exact (ends_true _).mono (fun _ _ _ _ hnil => absurd hnil h.2) fun _ _ _ => trivial

theorem Keyword.opt_notMem (k : Keyword) : k.opt ∉ typeOpts := by cases k <;> decide

/-- Storing an option does not look at what is known of the type. -/
theorem Keyword.store_forget (k : Keyword) (str : Str) (data : Data) :
    k.store str data.forget = (k.store str data).map Data.forget := by
  unfold Keyword.store
  rw [Data.test_forget _ k.opt_notMem]
  split
  · rfl
  · cases k with
    | hashsize => cases stringToNumberLl str 0 uintMax <;> simp [Except.toOption, Data.forget_setCreate _ (show Opt.hashsize ∉ typeOpts by decide)]
    | maxelem => cases stringToNumberLl str 0 uintMax <;> simp [Except.toOption, Data.forget_setCreate _ (show Opt.maxelem ∉ typeOpts by decide)]
    | timeout => cases stringToNumberLl str 0 (uintMax / 2 / 1000) <;> simp [Except.toOption]
    | _ => rfl

theorem storeOpts_forget (kws : List Keyword) (data : Data) (argv : List Str) :
    storeOpts kws data.forget argv = (storeOpts kws data argv).map Data.forget := by
  induction argv using List.twoStepInduction generalizing data with
  | nil => rfl
  | singleton arg => rfl
  | cons_cons arg value l ih _ =>
    rw [storeOpts, storeOpts]
    cases kws.find? (dsetMatchOption arg ·) with
    | none => rfl
    | some k =>
      rw [Option.bind_some, Option.bind_some, Keyword.store_forget]
      cases k.store value data with
      | none => rfl
      | some data' => exact ih data'

/-- What storing options of the set type does to a blob. -/
structure Gained (os : List Opt) (data data' : Data) : Prop where
  type : data'.getType = data.getType
  kept : ∀ o, data.test o = true → data'.test o = true
  only : ∀ o, data'.test o = true → data.test o = true ∨ o ∈ os
  domain : data'.domaindata = data.domaindata
  setname : data'.setname = data.setname

theorem Keyword.store_gained {k : Keyword} {str : Str} {data data' : Data}
    (h : k.store str data = some data') : Gained [k.opt] data data' := by
  have hmark (data'' : Data) (htype : data''.type = data.type) (hbits : data''.bits = data.bits)
      (hdomain : data''.domaindata = data.domaindata) (hsetname : data''.setname = data.setname) :
      Gained [k.opt] data (data''.mark k.opt) := by
    have hne : Opt.type ≠ k.opt := fun h => k.opt_notMem (h ▸ by decide)
    have htest (o' : Opt) : data''.test o' = data.test o' := by rw [Data.test, Data.test, hbits]
    refine ⟨?_, fun o' ho' => ?_, fun o' ho' => ?_, hdomain, hsetname⟩
    · unfold Data.getType
      rw [Data.test_mark, htest, decide_eq_false hne, Bool.false_or]
      exact congrArg (fun t => if data.test .type then t else none) htype
    · rw [Data.test_mark, htest, ho', Bool.or_true]
    · rw [Data.test_mark, htest, Bool.or_eq_true, decide_eq_true_eq] at ho'
      exact ho'.symm.imp id List.mem_singleton.mpr
  unfold Keyword.store at h
  split at h
  · cases h
  · cases k with
    | hashsize =>
      obtain ⟨v, _, rfl⟩ := Option.map_eq_some_iff.mp h
      exact hmark { data with overlay := data.overlay.setU32 4 v } rfl rfl rfl rfl
    | maxelem =>
      obtain ⟨v, _, rfl⟩ := Option.map_eq_some_iff.mp h
      exact hmark { data with overlay := data.overlay.setU32 8 v } rfl rfl rfl rfl
    | timeout =>
      obtain ⟨v, _, rfl⟩ := Option.map_eq_some_iff.mp h
      exact hmark { data with timeout := v } rfl rfl rfl rfl
    | _ =>
      obtain rfl := Option.some.inj h
      exact ⟨rfl, fun o ho => ho, fun o ho => .inl ho, rfl, rfl⟩

theorem storeOpts_gained {kws : List Keyword} {data data' : Data} {argv : List Str}
    (h : storeOpts kws data argv = some data') : Gained (kws.map Keyword.opt) data data' := by
  induction argv using List.twoStepInduction generalizing data with
  | nil =>
    obtain rfl := Option.some.inj h
    exact ⟨rfl, fun o ho => ho, fun o ho => .inl ho, rfl, rfl⟩
  | singleton arg => cases h
  | cons_cons arg value l ih _ =>
    rw [storeOpts] at h
    obtain ⟨k, hfind, h⟩ := Option.bind_eq_some_iff.mp h
    obtain ⟨data1, hstore, h⟩ := Option.bind_eq_some_iff.mp h
    have h1 := Keyword.store_gained hstore
    have h2 := ih h
    refine ⟨h2.type.trans h1.type, fun o ho => h2.kept o (h1.kept o ho), fun o ho => ?_,
      h2.domain.trans h1.domain, h2.setname.trans h1.setname⟩
    rcases h2.only o ho with ho | ho
    · rcases h1.only o ho with ho | ho
      · exact .inl ho
      · rw [List.mem_singleton.mp ho]
        exact .inr (List.mem_map_of_mem (List.mem_of_find?_eq_some hfind))
    · exact .inr ho

/-! ### Commands -/

/-- What parsing the arguments of a command leaves alone. -/
structure Leaves (E : Env κ) (clean : Prop) (d d' : Process κ) : Prop where
  pending : d'.pending = d.pending
  envopts : d'.session.envopts = d.session.envopts
  asked : Asked E d d'
  lineno : d'.session.lineno = d.session.lineno
  quiet : clean → d.session.Quiet → d'.session.Quiet

theorem Leaves.refl (clean : Prop) (d : Process κ) : Leaves E clean d d :=
  ⟨rfl, rfl, Asked.refl d, rfl, fun _ h => h⟩

theorem Leaves.trans {clean : Prop} {d' d'' : Process κ} (h : Leaves E clean d d')
    (h' : Leaves E clean d' d'') : Leaves E clean d d'' where
  pending := h'.pending.trans h.pending
  envopts := h'.envopts.trans h.envopts
  asked := h.asked.trans h'.asked
  lineno := h'.lineno.trans h.lineno
  quiet := fun hc hq => h'.quiet hc (h.quiet hc hq)

theorem Asked.of_sent {d' : Process κ} (hsent : d'.sent = d.sent)
    (hstale : d'.session.stale = d.session.stale) : Asked E d d' where
  sent := ⟨[], by rw [hsent, List.append_nil], fun _ h => absurd h List.not_mem_nil⟩
  stale := fun _ h => hstale.trans h

theorem Stored.leaves {clean : Prop} {d' : Process κ} (h : Stored d d')
    (hquiet : clean → d.session.Quiet → d'.session.Quiet) : Leaves E clean d d' :=
  ⟨congrArg Steady.toPending h.steady, congrArg (·.envopts) h.steady, .of_sent h.sent h.stale,
    h.lineno, hquiet⟩

theorem Complained.leaves {clean : Prop} {d' : Process κ} (h : Complained d d') :
    Leaves E clean d d' :=
  ⟨congrArg Steady.toPending h.steady, congrArg (·.envopts) h.steady, .of_sent h.sent h.stale,
    h.lineno, fun _ => h.quiet⟩

theorem Asks.leaves {clean ok : Prop} {d' : Process κ} (h : Asks E d ok d') (hok : ok) :
    Leaves E clean d d' :=
  ⟨congrArg Steady.toPending h.steady, congrArg (·.envopts) h.steady, h.asked,
    (h.heard hok).lineno, fun _ => (h.heard hok).quiet⟩

section

variable {α β : Type} {P : α → Process κ → Prop} {Q : β → Process κ → Prop}

/-- The rule for programs that may return from their caller, one after the other. -/
theorem ends_andThen {x : Prog κ (Except ℤ α)} {f : α → Prog κ (Except ℤ β)}
    (hx : Ends x d (fun res d' => ∀ a, res = .ok a → P a d') fun _ _ => True)
    (hf : ∀ a d', P a d' →
      Ends (f a) d' (fun res d'' => ∀ b, res = .ok b → Q b d'') fun _ _ => True) :
    Ends (andThen x f) d (fun res d' => ∀ b, res = .ok b → Q b d') fun _ _ => True := by
  unfold andThen
  rw [ends_bind]
  refine hx.mono (fun res d' h => ?_) fun _ _ h => h
  cases res with
  | error ret => exact fun b hb => by cases hb
  | ok a => exact hf a d' (h a rfl)

theorem ends_orStandardError {x : Prog κ ℤ} {Q : Process κ → Prop}
    (hx : Ends x d (fun ret d' => 0 ≤ ret → Q d') fun _ _ => True) :
    Ends (x >>= orStandardError) d (fun res d' => ∀ b, res = .ok b → Q d') fun _ _ => True := by
  rw [ends_bind]
  refine hx.mono (fun ret d' h => ends_ite.mpr ⟨fun _ => ends_error, fun hret => ?_⟩) fun _ _ h => h
  exact fun b _ => h (not_lt.mp hret)

theorem ends_typeOrError {x : Prog κ (Option DsetType)} {Q : Process κ → Prop}
    (hx : Ends x d (fun type d' => type.isSome = true → Q d') fun _ _ => True) :
    Ends (x >>= typeOrError) d (fun res d' => ∀ b, res = .ok b → Q d') fun _ _ => True := by
  rw [ends_bind]
  refine hx.mono (fun type d' h => ends_ite.mpr ⟨fun _ => ends_error, fun hnone => ?_⟩) fun _ _ h => h
  refine fun b _ => h ?_
  cases type with
  | none => exact absurd rfl hnone
  | some t => rfl

theorem ends_parsedArgs {x : Prog κ (ℤ × List Str)} {Q : List Str → Process κ → Prop}
    (hx : Ends x d (fun r d' => r.1 = 0 → Q r.2 d') fun _ _ => True) :
    Ends (x >>= parsedArgs) d (fun res d' => ∀ l, res = .ok l → Q l d') fun _ _ => True := by
  rw [ends_bind]
  refine hx.mono (fun r d' h => ends_ite.mpr ⟨fun _ => ends_error, fun hneg => ends_ite.mpr
    ⟨fun _ l hl => ?_, fun hpos l hl => ?_⟩⟩) fun _ _ h => h
  · cases hl
  · cases hl
    exact h (not_not.mp hpos)

end

theorem dsetParseSetname_said {set : SetName → Data → Data}
    (hset : ∀ n (data : Data), (set n data).forget = set n data.forget) (str : Str) {data : Data}
    (h : d.session.data.forget = data) :
    Ends (dsetParseSetname set str) d
      (fun ret d' => 0 ≤ ret → ((SetName.ofStr str).map fun n => set n data) =
          some d'.session.data.forget ∧ Leaves E True d d' ∧
        ∃ n, d'.session.data = set n d.session.data)
      fun _ _ => True := by
  unfold dsetParseSetname
  cases SetName.ofStr str with
  | none => exact ends_dsetErr_fails _
  | some n =>
    refine fun _ => ⟨?_, ⟨rfl, rfl, .of_sent rfl rfl, rfl, fun _ h => h⟩, n, rfl⟩
    rw [Option.map_some, ← h]
    exact congrArg some (hset n _).symm

theorem parseSetname_said (str : Str) (h : d.session.data.forget = Data.reset) :
    Ends (parseSetname str) d
      (fun ret d' => 0 ≤ ret → nameData str = some d'.session.data.forget ∧ Leaves E True d d')
      fun _ _ => True :=
  (dsetParseSetname_said (E := E) (fun n data => data.forget_setSetname n) str h).mono
    (fun _ _ h' hret => ⟨(h' hret).1, (h' hret).2.1⟩) fun _ _ h => h

theorem dsetParseTypename_said (str : Str) :
    Ends (dsetParseTypename E str) d
      (fun ret d' => 0 ≤ ret → ¬ (dsetMaxnamelen ≤ str.length ∨ ¬ dsetMatchTypename str) ∧
        d'.session.data.forget = d.session.data.forget ∧ Leaves E True d d')
      fun _ _ => True := by
  have habs : ¬ (0 : ℤ) ≤ -1 := by decide
  refine ends_ite.mpr ⟨fun _ => ends_dsetErr_fails _, fun hlen => ends_ite.mpr
    ⟨fun _ => ends_dsetErr_fails _, fun hmatch => ?_⟩⟩
  simp only [ends_bind, ends_modifyData]
  refine dsetTypeGetCreate_found.mono (fun type d' h => ?_) fun _ _ h => h
  cases type with
  | none => exact fun h => absurd h habs
  | some t =>
    simp only [ends_bind, ends_modifyData, ends_pure]
    intro _
    have hleaves : Leaves E True _ d' := h.asks.leaves rfl
    have hdata := (h.asks.heard rfl).data
    refine ⟨?_, ?_, ⟨hleaves.pending, hleaves.envopts, ⟨hleaves.asked.sent, hleaves.asked.stale⟩,
      hleaves.lineno, hleaves.quiet⟩⟩
    · have : dsetMaxnamelen = 32 := rfl
      rw [Bool.not_eq_true', Bool.not_eq_false] at hmatch
      rintro (hle | hne)
      · omega
      · exact hne hmatch
    · rw [Data.forget_setType, hdata, Data.forget_setTypename]

theorem checkMandatory_kept (cmd : Cmd)
    (h : ∀ o ∈ typeNeed cmd, d.session.data.test o = true) {X : ℕ → Process κ → Prop} :
    Ends (checkMandatory cmd) d (fun _ d' => d' = d) X := by
  have hnil : (typeNeed cmd).filter (fun o => !d.session.data.test o) = [] := by
    rw [List.filter_eq_nil_iff]
    intro o ho
    simp [h o ho]
  simp only [checkMandatory, ends_bind, ends_session]
  rw [if_pos hnil]
  rfl

theorem checkAllowed_kept (cmd : Cmd)
    (h : ∀ o ∈ checkedOpts, o ∉ typeFull cmd → d.session.data.test o = true →
      o ∉ if cmd = .create then dsetCreateFlags else dsetAdtFlags) {X : ℕ → Process κ → Prop} :
    Ends (checkAllowed cmd) d (fun _ d' => d' = d) X := by
  have hnone : ¬ (checkedOpts.any fun o =>
      o ∈ (if cmd = .create then dsetCreateFlags else dsetAdtFlags) ∧ o ∉ typeFull cmd ∧
        d.session.data.test o) = true := by
    rw [List.any_eq_true]
    rintro ⟨o, ho, hd⟩
    obtain ⟨hflag, hfull, htest⟩ := of_decide_eq_true hd
    exact h o ho hfull htest hflag
  simp only [checkAllowed, ends_bind, ends_session]
  rw [if_neg hnone]
  rfl

def Checked (cmd : Cmd) (data : Data) : Prop :=
  (∀ o ∈ typeNeed cmd, data.test o = true) ∧
  ∀ o ∈ checkedOpts, o ∉ typeFull cmd → data.test o = true →
    o ∉ if cmd = .create then dsetCreateFlags else dsetAdtFlags

theorem checkArgs_kept (cmd : Cmd) (argv : List Str) {Q : Process κ → Prop}
    (h : argv = [] → Checked cmd d.session.data ∧ Q d) :
    Ends (checkArgs cmd argv) d (fun res d' => ∀ l, res = .ok l → l = [] → Q d')
      fun _ _ => True := by
  unfold checkArgs
  by_cases hnil : argv = []
  · obtain ⟨⟨hneed, hfull⟩, hQ⟩ := h hnil
    rw [ends_bind]
    refine (checkMandatory_kept cmd hneed (X := fun _ _ => True)).mono (fun _ d1 h1 => ?_) fun _ _ h => h
    subst h1
    rw [ends_bind]
    refine (checkAllowed_kept cmd hfull (X := fun _ _ => True)).mono (fun _ d2 h2 => ?_) fun _ _ h => h
    subst h2
    exact fun _ _ _ => hQ
  · simp only [ends_bind, ends_pure]
    refine (ends_true _).mono (fun _ d1 _ => (ends_true _).mono (fun _ d2 _ l hl hl' => ?_)
      fun _ _ _ => trivial) fun _ _ _ => trivial
    cases hl
    exact absurd hl' hnil

/-- The options in a blob with the name of a set. -/
theorem nameData_test {name : Str} {data : Data} (h : nameData name = some data) (o : Opt) :
    data.test o = decide (o = .setname) := by
  obtain ⟨n, _, rfl⟩ := Option.map_eq_some_iff.mp h
  rw [Data.test_setSetname, Data.test_reset, Bool.or_false]

theorem Leaves.weaken {clean : Prop} {d' : Process κ} (h : Leaves E True d d') :
    Leaves E clean d d' :=
  ⟨h.pending, h.envopts, h.asked, h.lineno, fun _ => h.quiet trivial⟩

/-- The commands about a set of a known type. -/
def Cmd.isTyped : Cmd → Bool
  | .create | .add | .del | .test => true
  | _ => false

/-- A command whose arguments are parsed: what it says is in the blob. -/
structure Said (E : Env κ) (c : CmdArgs) (d d' : Process κ) : Prop where
  data : c.data = some d'.session.data.forget
  leaves : Leaves E (NoneIgnored c.cmd c.argv) d d'
  typed : c.cmd.isTyped = true → d'.session.data.getType.isSome = true

/-- The options of a set type that are parsed, if they leave no argument. -/
def Passed (E : Env κ) (cmd : Cmd) (argv : List Str) (d0 : Process κ) (data : Data) (l : List Str)
    (d : Process κ) : Prop :=
  l = [] → storeOpts (typeArgs cmd) data argv = some d.session.data.forget ∧
    Leaves E (NoneIgnored cmd argv) d0 d ∧ d.session.data.getType.isSome = true

theorem callParser_said (cmd : Cmd) (argv : List Str) {d0 : Process κ} {data : Data}
    (hleaves : Leaves E (NoneIgnored cmd argv) d0 d) (hdata : d.session.data.forget = data)
    (htype : d.session.data.getType.isSome = true) :
    Ends (callParser cmd false argv >>= parsedArgs) d
      (fun res d' => ∀ l, res = .ok l → Passed E cmd argv d0 data l d') fun _ _ => True := by
  refine ends_parsedArgs (Q := Passed E cmd argv d0 data)
    ((callParser_stores cmd argv).mono (fun r d' h h0 hnil => ?_) fun _ _ h => h)
  obtain ⟨hstore, hstored, hquiet⟩ := h h0 hnil
  refine ⟨?_, hleaves.trans (hstored.leaves hquiet), ?_⟩
  · rw [← hdata, storeOpts_forget, hstore, Option.map_some]
  · rw [(storeOpts_gained hstore).type]
    exact htype

theorem typeOrError_said {x : Prog κ (Option DsetType)} {clean : Prop} {d0 : Process κ}
    (hx : Ends x d (TypeFound E d) fun _ _ => True) (hleaves : Leaves E clean d0 d) :
    Ends (x >>= typeOrError) d
      (fun res d' => ∀ b, res = .ok b → Leaves E clean d0 d' ∧
        d'.session.data.forget = d.session.data.forget ∧
        d'.session.data.getType.isSome = true)
      fun _ _ => True := by
  refine ends_typeOrError (hx.mono (fun type d' h hsome => ?_) fun _ _ h => h)
  exact ⟨hleaves.trans (h.asks.leaves hsome), (h.asks.heard hsome).data,
    by rw [h.stored hsome]; exact hsome⟩

theorem checkedOpts_notMem : ∀ o ∈ checkedOpts, o ∉ typeOpts := by decide

theorem parseCreate_said (arg0 arg1 : Str) (argv : List Str)
    (h : d.session.data.forget = Data.reset) :
    Ends (parseCreate E arg0 arg1 argv) d
      (fun res d' => ∀ l, res = .ok l → l = [] → Said E ⟨.create, some arg0, some arg1, argv⟩ d d')
      fun _ _ => True := by
  unfold parseCreate
  refine ends_andThen (ends_orStandardError (parseSetname_said (E := E) arg0 h)) fun _ d1 h1 => ?_
  refine ends_andThen (ends_orStandardError (dsetParseTypename_said arg1)) fun _ d2 h2 => ?_
  have hleaves2 : Leaves E (NoneIgnored .create argv) d d2 := h1.2.weaken.trans h2.2.2.weaken
  refine ends_andThen (typeOrError_said dsetTypeGetCreate_found hleaves2) fun _ d3 h3 => ?_
  have hdata3 : d3.session.data.forget = d1.session.data.forget := h3.2.1.trans h2.2.1
  refine ends_andThen (ends_parsedArgs (Q := fun l d' => l = argv ∧ Complained d3 d')
    ((callParser_family .create argv).mono (fun r d' h _ => h) fun _ _ h => h)) fun l d4 h4 => ?_
  obtain ⟨rfl, h4⟩ := h4
  refine ends_andThen (callParser_said .create l (h3.1.trans h4.leaves)
    ((congrArg Data.forget h4.data).trans hdata3)
    ((congrArg (·.getType.isSome) h4.data).trans h3.2.2)) fun l' d5 h5 => ?_
  refine checkArgs_kept .create l' fun hnil => ?_
  obtain ⟨hstore, hleaves, htype⟩ := h5 hnil
  refine ⟨⟨fun o ho => absurd ho List.not_mem_nil, fun o ho hfull htest hflag => ?_⟩, ⟨?_, hleaves, fun _ => htype⟩⟩
  · rw [← Data.test_forget _ (checkedOpts_notMem o ho)] at htest
    rcases (storeOpts_gained hstore).only o htest with htest | hmem
    · rw [nameData_test h1.1] at htest
      rw [of_decide_eq_true htest] at ho
      revert ho
      decide
    · exact hfull (List.mem_append_right _ hmem)
  · show (if _ then none else _) = _
    rw [if_neg h2.1, h1.1, Option.bind_some, hstore]

theorem dsetParseElem_said (str : Str) :
    Ends (dsetParseElem E str) d
      (fun ret d' => 0 ≤ ret → elemSeparator str = false ∧
        d'.session.data = d.session.data.setDomain str ∧ Leaves E True d d')
      fun _ _ => True := by
  simp only [dsetParseElem, ends_bind, ends_session]
  cases d.session.data.getType with
  | none => exact ends_dsetErr_fails _
  | some t =>
    simp only [ends_bind, ends_ext, ends_ite, ends_modifyData, ends_pure]
    refine ⟨fun _ => ⟨fun _ => ends_dsetErr_fails _, fun hsep _ => ?_⟩, fun _ => ends_dsetErr_fails _⟩
    exact ⟨Bool.eq_false_iff.mpr hsep, trivial, ⟨rfl, rfl, .of_sent rfl rfl, rfl, fun _ h => h⟩⟩

theorem parseAdt_said {cmd : Cmd} (hcmd : cmd = .add ∨ cmd = .del ∨ cmd = .test) (arg0 arg1 : Str)
    (argv : List Str) (h : d.session.data.forget = Data.reset) :
    Ends (parseAdt E cmd arg0 arg1 argv) d
      (fun res d' => ∀ l, res = .ok l → l = [] → Said E ⟨cmd, some arg0, some arg1, argv⟩ d d')
      fun _ _ => True := by
  unfold parseAdt
  refine ends_andThen (ends_orStandardError (parseSetname_said (E := E) arg0 h)) fun _ d1 h1 => ?_
  have hleaves1 : Leaves E (NoneIgnored cmd argv) d d1 := h1.2.weaken
  refine ends_andThen (typeOrError_said adtTypeGet_found hleaves1) fun _ d2 h2 => ?_
  refine ends_andThen (ends_orStandardError (dsetParseElem_said arg1)) fun _ d3 h3 => ?_
  obtain ⟨hsep, hdata3, hleaves3⟩ := h3
  have hforget3 : d3.session.data.forget = d1.session.data.forget.setDomain arg1 := by
    rw [hdata3, Data.forget_setDomain, h2.2.1]
  have htype3 : d3.session.data.getType.isSome = true := by
    rw [hdata3]
    unfold Data.getType
    rw [Data.test_setDomain]
    exact h2.2.2
  refine ends_andThen (callParser_said cmd argv (h2.1.trans hleaves3.weaken) hforget3 htype3)
    fun l' d4 h4 => ?_
  refine checkArgs_kept cmd l' fun hnil => ?_
  obtain ⟨hstore, hleaves, htype⟩ := h4 hnil
  have hdomain : d4.session.data.test .domain = true := by
    rw [← Data.test_forget _ (by decide)]
    exact (storeOpts_gained hstore).kept _ (by simp)
  have hneed : ∀ o ∈ typeNeed cmd, d4.session.data.test o = true := by
    rcases hcmd with rfl | rfl | rfl <;>
      exact fun o ho => (List.mem_singleton.mp ho) ▸ hdomain
  have hfull : ∀ o ∈ checkedOpts, o ∉ typeFull cmd → d4.session.data.test o = true →
      o ∉ if cmd = .create then dsetCreateFlags else dsetAdtFlags := by
    intro o ho hnot htest hflag
    rw [if_neg (by rcases hcmd with rfl | rfl | rfl <;> decide)] at hflag
    obtain rfl := Finset.mem_singleton.mp hflag
    rw [← Data.test_forget _ (by decide)] at htest
    rcases (storeOpts_gained hstore).only _ htest with htest | hmem
    · rw [Data.test_setDomain, nameData_test h1.1] at htest
      exact absurd htest (by decide)
    · exact hnot (List.mem_append_right _ hmem)
  refine ⟨⟨hneed, hfull⟩, ⟨?_, hleaves, fun _ => htype⟩⟩
  have hdata : (if elemSeparator arg1 = true then none else (nameData arg0).bind fun data =>
      storeOpts (typeArgs cmd) (data.setDomain arg1) argv) = some d4.session.data.forget := by
    rw [hsep, if_neg Bool.false_ne_true, h1.1, Option.bind_some, hstore]
  rcases hcmd with rfl | rfl | rfl <;> exact hdata

theorem parseNames_said {cmd : Cmd} (hcmd : cmd = .rename ∨ cmd = .swap) (arg0 arg1 : Str)
    (argv : List Str) (h : d.session.data.forget = Data.reset) :
    Ends (parseNames arg0 arg1 argv) d
      (fun res d' => ∀ l, res = .ok l → l = [] → Said E ⟨cmd, some arg0, some arg1, argv⟩ d d')
      fun _ _ => True := by
  unfold parseNames
  refine ends_andThen (ends_orStandardError (parseSetname_said (E := E) arg0 h)) fun _ d1 h1 => ?_
  refine ends_andThen (ends_orStandardError (dsetParseSetname_said (E := E)
    (fun n data => data.forget_setSetname2 n) arg1 (d := d1) rfl)) fun _ d2 h2 => ?_
  rintro l ⟨⟩ rfl
  refine ⟨?_, h1.2.weaken.trans h2.2.1.weaken, fun ht => ?_⟩
  · have hdata : ((nameData arg0).bind fun data => (SetName.ofStr arg1).map data.setSetname2) =
        some d2.session.data.forget := by
      rw [h1.1, Option.bind_some]
      exact h2.1
    rcases hcmd with rfl | rfl <;> exact hdata
  · rcases hcmd with rfl | rfl <;> exact absurd ht Bool.false_ne_true

theorem parseOptional_said {cmd : Cmd}
    (hcmd : cmd = .destroy ∨ cmd = .flush ∨ cmd = .list ∨ cmd = .save) (arg0 arg1 : Option Str)
    (argv : List Str) (h : d.session.data.forget = Data.reset) :
    Ends (parseOptional arg0 argv) d
      (fun res d' => ∀ l, res = .ok l → l = [] → Said E ⟨cmd, arg0, arg1, argv⟩ d d')
      fun _ _ => True := by
  have hsaid (d' : Process κ) (hdata : arg0.elim (some Data.reset) nameData = some d'.session.data.forget)
      (hleaves : Leaves E True d d') : Said E ⟨cmd, arg0, arg1, []⟩ d d' := by
    refine ⟨?_, hleaves.weaken, fun ht => ?_⟩
    · rcases hcmd with rfl | rfl | rfl | rfl <;> exact hdata
    · rcases hcmd with rfl | rfl | rfl | rfl <;> exact absurd ht Bool.false_ne_true
  cases arg0 with
  | none =>
    rintro l ⟨⟩ rfl
    exact hsaid d (congrArg some h.symm) (Leaves.refl True d)
  | some arg0 =>
    refine ends_andThen (ends_orStandardError (parseSetname_said (E := E) arg0 h)) fun _ d1 h1 => ?_
    rintro l ⟨⟩ rfl
    exact hsaid d1 h1.1 h1.2

theorem parseList_said {cmd : Cmd} (hcmd : cmd = .list ∨ cmd = .save) (arg0 arg1 : Option Str)
    (argv : List Str) (h : d.session.data.forget = Data.reset) :
    Ends (parseList E arg0 argv) d
      (fun res d' => ∀ l, res = .ok l → l = [] → Said E ⟨cmd, arg0, arg1, argv⟩ d d')
      fun _ _ => True := by
  have hcmd' : cmd = .destroy ∨ cmd = .flush ∨ cmd = .list ∨ cmd = .save :=
    .inr (.inr hcmd)
  simp only [parseList, ends_bind, ends_get]
  cases d.filename with
  | none => exact parseOptional_said hcmd' arg0 arg1 argv h
  | some filename =>
    have hio : Ends (dsetSessionIoNormal E filename false) d
        (fun ret d' => 0 ≤ ret → d'.session = d.session ∧ Leaves E True d d') fun _ _ => True := by
      simp only [dsetSessionIoNormal, ends_bind, ends_session, ends_ite, ends_modify, ends_ext,
        ends_pure]
      refine ⟨fun _ => ends_dsetErr_fails _, fun _ => ⟨fun _ _ => ?_, fun _ => ends_dsetErr_fails _⟩⟩
      exact ⟨trivial, ⟨rfl, rfl, .of_sent rfl rfl, rfl, fun _ h => h⟩⟩
    simp only [ends_bind]
    refine hio.mono (fun ret d1 h1 => ends_ite.mpr ⟨fun _ l hl => ?_, fun hret => ?_⟩) fun _ _ h => h
    · cases hl
    · obtain ⟨hsession, hleaves⟩ := h1 (not_lt.mp hret)
      have hopt := parseOptional_said (E := E) (d := d1) hcmd' arg0 arg1 argv
        (by rw [hsession]; exact h)
      refine hopt.mono (fun res d2 h2 l hl hnil => ?_) fun _ _ h => h
      have hsaid := h2 l hl hnil
      exact ⟨hsaid.data, hleaves.weaken.trans hsaid.leaves, hsaid.typed⟩

def Cmd.isBinary : Cmd → Bool
  | .create | .add | .del | .test | .rename | .swap => true
  | _ => false

theorem dsetCommands_binary : ∀ command ∈ dsetCommands,
    (command.cmd.isBinary = true → command.hasArg = .mandatoryArg2) ∧ command.cmd.isQuery = false ∧
      command.cmd ≠ .none := by decide

theorem DsetCommand.args_eq {command : DsetCommand} {argv : List Str} {c : CmdArgs}
    (h : command.args argv = some c) :
    c.cmd = command.cmd ∧
      (command.hasArg = .mandatoryArg2 → c.arg0.isSome = true ∧ c.arg1.isSome = true) := by
  obtain ⟨cmd, name, hasArg⟩ := command
  match hasArg, argv with
  | .noArg, [] | .noArg, _ :: _ | .optionalArg, [] | .optionalArg, _ :: _ =>
    obtain rfl := Option.some.inj h
    exact ⟨rfl, fun h => by cases h⟩
  | .mandatoryArg2, [] | .mandatoryArg2, [_] => cases h
  | .mandatoryArg2, _ :: _ :: _ =>
    obtain rfl := Option.some.inj h
    exact ⟨rfl, fun _ => ⟨rfl, rfl⟩⟩

/-- The command of a line has the arguments it needs. -/
theorem cmdArgs_eq {argv : List Str} {c : CmdArgs} (h : cmdArgs argv = some c) :
    (c.cmd.isBinary = true → c.arg0.isSome = true ∧ c.arg1.isSome = true) ∧
      c.cmd.isQuery = false ∧ c.cmd ≠ .none := by
  cases argv with
  | nil => cases h
  | cons arg l =>
    obtain ⟨command, hfind, hargs⟩ := Option.bind_eq_some_iff.mp h
    obtain ⟨hbinary, hquery, hnone⟩ := dsetCommands_binary command (List.mem_of_find?_eq_some hfind)
    obtain ⟨hcmd, htwo⟩ := DsetCommand.args_eq hargs
    rw [hcmd]
    exact ⟨fun hb => htwo (hbinary hb), hquery, hnone⟩

theorem parseStages_said (loops : Loops κ) {argv : List Str} {c : CmdArgs}
    (hc : c.cmd = .none ∨ cmdArgs argv = some c) (h : d.session.data.forget = Data.reset) :
    Ends (parseStages E loops c) d
      (fun res d' => ∀ l, res = .ok l → l = [] → Said E c d d') fun _ _ => True := by
  obtain ⟨cmd, arg0, arg1, rest⟩ := c
  have hcmd : cmd = .none ∨ ((cmd.isBinary = true → arg0.isSome = true ∧ arg1.isSome = true) ∧
      cmd.isQuery = false ∧ cmd ≠ .none) := hc.imp id cmdArgs_eq
  have htwo (hne : cmd.isBinary = true) :
      ∃ a0 a1, arg0 = some a0 ∧ arg1 = some a1 := by
    have hnone : cmd ≠ .none := by
      rintro rfl
      cases hne
    obtain ⟨h0, h1⟩ := (hcmd.resolve_left hnone).1 hne
    obtain ⟨a0, h0⟩ := Option.isSome_iff_exists.mp h0
    obtain ⟨a1, h1⟩ := Option.isSome_iff_exists.mp h1
    exact ⟨a0, a1, h0, h1⟩
  cases cmd with
  | none => exact ends_error
  | version => exact ends_error
  | help => exact ends_error
  | quit => exact ends_error
  | restore => exact ends_error
  | list => exact parseList_said (.inl rfl) arg0 arg1 rest h
  | save => exact parseList_said (.inr rfl) arg0 arg1 rest h
  | destroy => exact parseOptional_said (.inl rfl) arg0 arg1 rest h
  | flush => exact parseOptional_said (.inr (.inl rfl)) arg0 arg1 rest h
  | protocol => exact absurd (hcmd.resolve_left Cmd.noConfusion).2.1 (by decide)
  | header => exact absurd (hcmd.resolve_left Cmd.noConfusion).2.1 (by decide)
  | type => exact absurd (hcmd.resolve_left Cmd.noConfusion).2.1 (by decide)
  | create =>
    obtain ⟨a0, a1, rfl, rfl⟩ := htwo rfl
    exact parseCreate_said a0 a1 rest h
  | add =>
    obtain ⟨a0, a1, rfl, rfl⟩ := htwo rfl
    exact parseAdt_said (.inl rfl) a0 a1 rest h
  | del =>
    obtain ⟨a0, a1, rfl, rfl⟩ := htwo rfl
    exact parseAdt_said (.inr (.inl rfl)) a0 a1 rest h
  | test =>
    obtain ⟨a0, a1, rfl, rfl⟩ := htwo rfl
    exact parseAdt_said (.inr (.inr rfl)) a0 a1 rest h
  | rename =>
    obtain ⟨a0, a1, rfl, rfl⟩ := htwo rfl
    exact parseNames_said (.inl rfl) a0 a1 rest h
  | swap =>
    obtain ⟨a0, a1, rfl, rfl⟩ := htwo rfl
    exact parseNames_said (.inr rfl) a0 a1 rest h

/-- A line that is parsed: what it says is in the blob. -/
structure Parsed (E : Env κ) (argv : List Str) (d : Process κ) (cmd : Cmd) (d' : Process κ) :
    Prop where
  line : ∃ c, lineArgs argv = some c ∧ c.cmd = cmd ∧ c.data = some d'.session.data.forget ∧
    (NoneIgnored c.cmd c.argv → d.session.Quiet → d'.session.Quiet)
  typed : cmd.isTyped = true → d'.session.data.getType.isSome = true
  pending : d'.pending = d.pending
  asked : Asked E d d'
  lineno : d'.session.lineno = d.restoreLine
  exist : d'.session.envopts.exist = (d.session.envopts.exist || givesExist argv)

/-- A line that is accepted stores what it says, and leaves the message under construction. -/
theorem parseLine_parsed {loops : Loops κ} (argv : List Str)
    (h : d.session.data.forget = Data.reset) :
    Ends (parseLine E loops argv) d (fun res d' => ∀ cmd, res = .ok cmd → Parsed E argv d cmd d')
      fun _ _ => True := by
  simp only [parseLine, ends_bind, ends_get, ends_modifySession]
  refine ends_andThen (parseEnvopts_opted EnvOpt.all argv) fun rest d1 h1 => ?_
  obtain ⟨rfl, hopted⟩ := h1
  refine ends_andThen (parseCmd_args _) fun c d2 h2 => ?_
  obtain ⟨rfl, hc⟩ := h2
  have hdata : d2.session.data.forget = Data.reset := by
    rw [hopted.data]
    exact h
  refine ends_andThen (parseStages_said (E := E) loops hc hdata) fun l d3 h3 => ?_
  refine ends_andThen (P := fun _ d' => d' = d3 ∧ l = []) (ends_ite.mpr
    ⟨fun _ => ends_error, fun hnil _ _ => ⟨rfl, not_not.mp hnil⟩⟩) fun _ d4 h4 => ?_
  obtain ⟨rfl, hnil⟩ := h4
  rintro cmd ⟨⟩
  have hsaid := h3 hnil
  have hnone : c.cmd ≠ .none := by
    intro hnone
    have hdata := hsaid.data
    obtain ⟨cmd, arg0, arg1, rest⟩ := c
    subst hnone
    cases hdata
  refine ⟨⟨c, hc.resolve_left hnone, rfl, hsaid.data, fun hclean hq => ?_⟩, hsaid.typed, ?_, ?_, ?_, ?_⟩
  · exact hsaid.leaves.quiet hclean (hopted.quiet hq)
  · exact hsaid.leaves.pending.trans hopted.pending
  · exact (Asked.of_sent (d := d) hopted.sent hopted.stale).trans hsaid.leaves.asked
  · exact hsaid.leaves.lineno.trans hopted.lineno
  · rw [congrArg EnvOpts.exist hsaid.leaves.envopts, hopted.exist, existGiven_all]

end Dset.User
