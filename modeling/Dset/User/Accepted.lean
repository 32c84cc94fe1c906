import Dset.User.Stream
import Dset.User.Words

/-! A command line that says something is accepted, if the kernel knows the types of the sets: the
other direction of what is known of the lines that are accepted. A `create` asks for the type once,
and an element of a set in the cache asks nothing. -/

namespace Dset.User

open Dset.Lib Dset.Core

variable {κ : Type} {E : Env κ} {d : Process κ} {data data' : Data}

/-! ### The kernel -/

/-- The kernel acknowledges every change and knows the registered type, and there is memory for
the cache. -/
structure Env.Serves (E : Env κ) : Prop extends E.Acks where
  malloc : ∀ n, E.malloc n = true
  type : ∀ k nlh, nlh.cmd = .type → .typename dsetHashDomain0.name.text ∈ nlh.attrs →
    ∃ multi nla kmax, (E.answer k nlh).1 = [[.data .type multi (some nla)]] ∧
      nla.protocol = some dsetProtocol ∧ nla.typename = some dsetHashDomain0.name ∧
      nla.revision = some kmax ∧ nla.family.isSome = true ∧
      nla.protocolMin.getD kmax ≤ dsetHashDomain0.revision ∧ dsetHashDomain0.revision ≤ kmax

/-- The session speaks the protocol of the library, and the type was not refused. -/
structure Process.Fine (d : Process κ) : Prop where
  known : d.kernelCheck ≠ .mismatch
  protocol : d.session.versionChecked = true → d.session.protocol = dsetProtocol
  stale : d.session.stale = 0
  page : 4096 ≤ d.session.bufsize

/-- What is stored in the blob leaves the session fine. -/
theorem Process.Fine.stored (h : d.Fine) {d' : Process κ} (hcheck : d'.kernelCheck = d.kernelCheck)
    (hsession : ∃ data lineno, d'.session = { d.session with data := data, lineno := lineno }) :
    d'.Fine := by
  obtain ⟨data, lineno, hsession⟩ := hsession
  refine ⟨hcheck ▸ h.known, ?_, ?_, ?_⟩
  all_goals rw [hsession]
  · exact h.protocol
  · exact h.stale
  · exact h.page

theorem protocol_fine (hE : E.Serves) (hstale : d.session.stale = 0)
    (hversion : d.session.versionChecked = false) :
    Ends (buildSendPrivateMsg E .protocol) d
      (fun ret d' => ret = 0 ∧ d'.session.protocol = dsetProtocol ∧ d'.kernelCheck = d.kernelCheck)
      fun _ _ => False := by
  obtain ⟨multi, nla, hanswer, hproto, hmin⟩ := hE.version d.kernel
    ((Nlmsg.fillHdr .protocol false).put (.protocol dsetProtocol)) rfl
  simp only [buildSendPrivateMsg, sendPrivateMsg, ends_bind, ends_session, ends_modifySession,
    ends_pure]
  apply dsetMnlQuery_one (d := d.mapSession fun s => { s with cmd := .protocol }) hE.succeeds hstale
    hanswer
  apply Ends.mono (X := fun _ _ => False) (callback_version
    (d := (d.mapSession fun s => { s with cmd := .protocol }).sendTo E
      ((Nlmsg.fillHdr .protocol false).put (.protocol dsetProtocol)))
    rfl hversion hproto hmin) _ fun _ _ h => h
  rintro ret d' ⟨rfl, rfl⟩
  exact ⟨rfl, rfl, rfl, rfl⟩

theorem openSession_fine (hE : E.Serves) (h : d.Fine) (cmd : Cmd) :
    Ends (openSession E cmd) d
      (fun ok d' => ok = true ∧ d'.Fine ∧ d'.session.protocol = dsetProtocol ∧
        d'.session.data = d.session.data ∧ d'.steady = d.steady) fun _ _ => False := by
  have hopen (d1 : Process κ) (h1 : d1.Fine) :
      Ends (do
        Prog.modifySession fun s => { s with handle := true }
        if (← Prog.session).versionChecked then return true
        else if (← buildSendPrivateMsg E .protocol) < 0 then return false
        else
          if (← Prog.session).errType = .warning ∧ cmd ≠ .none then
            Prog.modifySession (·.reportReset)
          return true) d1
        (fun _ d' => d'.session.protocol = dsetProtocol ∧ d'.kernelCheck = d1.kernelCheck)
        fun _ _ => False := by
    simp only [ends_bind, ends_modifySession, ends_session, ends_ite, ends_pure]
    refine ⟨fun hversion => ⟨h1.protocol hversion, trivial⟩, fun hversion => ?_⟩
    apply (protocol_fine (d := d1.mapSession fun s => { s with handle := true }) hE h1.stale
      (Bool.eq_false_iff.mpr hversion)).mono _ fun _ _ h => h
    rintro ret d2 ⟨rfl, hproto, hcheck⟩
    exact ⟨fun h => absurd h (lt_irrefl _), fun _ => ⟨fun _ => ⟨hproto, hcheck⟩,
      fun _ => ⟨hproto, hcheck⟩⟩⟩
  have hsame := hopen d h
  have hcalled := hopen { d with calls := d.calls + 1 } (h.stored rfl ⟨_, _, rfl⟩)
  have hversion : Ends (openSession E cmd) d (fun _ d' => d'.session.protocol = dsetProtocol ∧
      d'.kernelCheck = d.kernelCheck) fun _ _ => False := by
    simp only [ends_bind, ends_modifySession, ends_session, ends_ite, ends_pure] at hsame hcalled
    simp only [openSession, ends_bind, ends_modifySession, ends_session, ends_ite, ends_pure,
      ends_ext, hE.succeeds _]
    exact ⟨fun _ => ⟨fun h => absurd h (by decide), fun _ => hsame⟩,
      fun _ => ⟨fun h => absurd h (by decide), fun _ => hcalled⟩⟩
  refine ((openSession_opened hE.toAcks h.stale cmd).and hversion).mono (fun ok d' h' => ?_)
    fun _ _ h => h.1
  obtain ⟨⟨rfl, hopened⟩, hproto, hcheck⟩ := h'
  have hbufsize : d'.session.bufsize = d.session.bufsize := congrArg (·.bufsize) hopened.steady
  exact ⟨rfl, ⟨hcheck ▸ h.known, fun _ => hproto, hopened.stale, hbufsize ▸ h.page⟩, hproto,
    hopened.data, hopened.steady⟩

/-! ### The type of a set -/

theorem callback_type (hcmd : d.session.cmd = .type) (hproto : d.session.protocol = dsetProtocol)
    (hname : d.session.data.getTypename = some dsetHashDomain0.name)
    {list : Cmd → Nla → Prog κ ℤ} {multi : Bool} {nla : Nla} {kmax : ℕ}
    (hnla : nla.protocol = some dsetProtocol) (htype : nla.typename = some dsetHashDomain0.name)
    (hrev : nla.revision = some kmax) (hfamily : nla.family.isSome = true)
    {X : ℕ → Process κ → Prop} :
    Ends (callback E list (.data .type multi (some nla))) d
      (fun ret d' => ret = 0 ∧ d' = d.mapSession fun s => { s with
        data := nla.protocolMin.elim (s.data.setFound dsetHashDomain0.name kmax)
          (s.data.setFound dsetHashDomain0.name kmax).setRevisionMin }) X := by
  have hlist : ¬ (Cmd.type = .list ∧ Cmd.type = .save) := by decide
  obtain ⟨family, hfamily⟩ := Option.isSome_iff_exists.mp hfamily
  simp only [callback, callbackData, ends_bind, ends_session, hcmd, hnla, hproto]
  rw [if_neg hlist, if_neg (not_not.mpr rfl), if_neg (fun h => h.2 rfl)]
  simp only [callbackType, htype, hrev, hfamily, hname, ends_bind, ends_session, ends_ite,
    ends_modifyData, ends_pure]
  exact ⟨fun h => absurd rfl h, fun _ => ⟨rfl, trivial⟩⟩

def Session.typeMsg (s : Session) : Nlmsg :=
  (((Nlmsg.fillHdr .type false).put (.protocol s.protocol)).addattr s.bufsize dsetMaxnamelen
    (.typename dsetHashDomain0.name.text)).put (.family nfprotoUnspec)

theorem Session.typeMsg_asks {s : Session} (hpage : 4096 ≤ s.bufsize) :
    s.typeMsg.cmd = .type ∧ .typename dsetHashDomain0.name.text ∈ s.typeMsg.attrs := by
  have hsize : (Attr.protocol s.protocol).size = 8 := show 4 + mnlAlign 1 = 8 by decide
  have hlen : ((Nlmsg.fillHdr .type false).put (.protocol s.protocol)).len = 28 :=
    congrArg (headerLen + ·) hsize
  have halign : mnlAttrHdrlen + mnlAlign dsetMaxnamelen + nlmsgerrLen = 56 := by decide
  have hput : ((Nlmsg.fillHdr .type false).put (.protocol s.protocol)).addattr s.bufsize
      dsetMaxnamelen (.typename dsetHashDomain0.name.text) =
        ((Nlmsg.fillHdr .type false).put (.protocol s.protocol)).puts
          [.typename dsetHashDomain0.name.text] :=
    Nlmsg.addattr_eq _ (by omega)
  unfold typeMsg
  rw [hput]
  exact ⟨rfl, List.mem_cons_of_mem _ List.mem_cons_self⟩

theorem Data.getRevisionMin_none (h : data.test .revisionMin = false) :
    data.getRevisionMin = none := by
  unfold Data.getRevisionMin
  rw [h, if_neg Bool.false_ne_true]

theorem dsetPrivateCmd_type (hE : E.Serves) (h : d.Fine)
    (htest : d.session.data.test .typename = true)
    (hname : d.session.data.getTypename = some dsetHashDomain0.name)
    (hmin : d.session.data.test .revisionMin = false) :
    Ends (dsetPrivateCmd E .type) d
      (fun ret d' => ret = 0 ∧ d'.Fine ∧ ∃ kmax, d'.session.data.getRevision = some kmax ∧
        d'.session.data.getRevisionMin.getD kmax ≤ dsetHashDomain0.revision ∧
        dsetHashDomain0.revision ≤ kmax) fun _ _ => False := by
  simp only [dsetPrivateCmd, ends_bind, ends_ite, ends_pure]
  apply (openSession_fine hE h .type).mono _ fun _ _ h => h
  rintro ok d1 ⟨rfl, h1, hproto1, hdata1, -⟩
  rw [← hdata1] at htest hname hmin
  obtain ⟨hcmd, hattr⟩ := Session.typeMsg_asks h1.page
  obtain ⟨multi, nla, kmax, hanswer, hnla, htype, hrev, hfamily, hle, hmax⟩ :=
    hE.type d1.kernel d1.session.typeMsg hcmd hattr
  refine ⟨fun _ => ?_, fun h => absurd rfl h⟩
  simp only [buildSendPrivateMsg, ends_bind, ends_session, htest, if_true, hname,
    sendPrivateMsg, ends_modifySession, ends_pure]
  apply dsetMnlQuery_one (d := d1.mapSession fun s => { s with cmd := .type }) hE.succeeds h1.stale
    hanswer
  apply Ends.mono (X := fun _ _ => False) (callback_type
    (d := (d1.mapSession fun s => { s with cmd := .type }).sendTo E d1.session.typeMsg)
    rfl hproto1 hname hnla htype hrev hfamily) _ fun _ _ h => h
  rintro ret d2 ⟨rfl, rfl⟩
  refine ⟨rfl, rfl, ⟨h1.known, fun _ => hproto1, h1.stale, h1.page⟩, kmax, ?_⟩
  -- what is stored of the answer is what it says
  have hfound (o : Opt) : (d1.session.data.setFound dsetHashDomain0.name kmax).test o =
      (decide (o = .family) || (decide (o = .revision) ||
        (decide (o = .typename) || d1.session.data.test o))) := by
    unfold Data.setFound
    rw [Data.test_mark, Data.test_setRevision, Data.test_setTypename]
  have hrevision : (d1.session.data.setFound dsetHashDomain0.name kmax).test .revision = true := by
    rw [hfound]
    rfl
  cases hrevmin : nla.protocolMin with
  | none =>
    have hnone : (d1.session.data.setFound dsetHashDomain0.name kmax).test .revisionMin = false := by
      rw [hfound, hmin]
      rfl
    rw [hrevmin] at hle
    refine ⟨if_pos hrevision, ?_, hmax⟩
    show (Data.getRevisionMin (d1.session.data.setFound dsetHashDomain0.name kmax)).getD kmax ≤ _
    rw [Data.getRevisionMin_none hnone]
    exact hle
  | some kmin =>
    have hsome : ((d1.session.data.setFound dsetHashDomain0.name kmax).setRevisionMin kmin).getRevisionMin =
        some kmin := if_pos (Data.test_mark _ _ _)
    have hkeeps : ((d1.session.data.setFound dsetHashDomain0.name kmax).setRevisionMin kmin).test .revision =
        true := (Data.test_mark _ _ _).trans hrevision
    rw [hrevmin] at hle
    refine ⟨if_pos hkeeps, ?_, hmax⟩
    show (Data.getRevisionMin ((d1.session.data.setFound dsetHashDomain0.name kmax).setRevisionMin
      kmin)).getD kmax ≤ _
    rw [hsome]
    exact hle

theorem dsetTypeGetCreate_fine (hE : E.Serves) (h : d.Fine)
    (hdata : d.session.data = data.setTypename dsetHashDomain0.name)
    (htype : data.test .type = false) (hmin : data.test .revisionMin = false) :
    Ends (dsetTypeGetCreate E) d (fun type d' => type = some dsetHashDomain0 ∧ d'.Fine)
      fun _ _ => False := by
  have htest (o : Opt) : d.session.data.test o = (decide (o = .typename) || data.test o) := by
    rw [hdata, Data.test_setTypename]
  have htype' : d.session.data.test .type = false := by rw [htest, htype]; rfl
  have hnamed : d.session.data.test .typename = true := by rw [htest]; rfl
  have hname : d.session.data.getTypename = some dsetHashDomain0.name := by
    unfold Data.getTypename
    rw [htype', if_neg Bool.false_ne_true, if_pos hnamed, hdata]
    rfl
  have hmatch : ¬ (d.kernelCheck = .mismatch ∨ ¬ dsetMatchTypename dsetHashDomain0.name.text) := by
    have hself : dsetMatchTypename dsetHashDomain0.name.text = true := by decide
    exact not_or.mpr ⟨h.known, not_not.mpr hself⟩
  have hasked := dsetPrivateCmd_type hE h hnamed hname (by rw [htest, hmin]; rfl)
  simp only [dsetTypeGetCreate, createTypeGet, ends_bind, ends_session, htype', ends_ite, hname,
    ends_get, ends_modifyData, ends_pure]
  refine ⟨fun h => absurd h Bool.false_ne_true, fun _ => ⟨fun h => absurd h hmatch, fun _ =>
    ⟨fun _ => ⟨trivial, h.stored rfl ⟨_, _, rfl⟩⟩, fun _ => ?_⟩⟩⟩
  apply hasked.mono _ fun _ _ h => h
  rintro ret d1 ⟨rfl, h1, kmax, hrevision, hle, hmax⟩
  have hrevisions : ¬ min dsetHashDomain0.revision kmax <
      max dsetHashDomain0.revision (d1.session.data.getRevisionMin.getD kmax) := by
    rw [min_eq_left hmax, max_eq_left hle]
    exact lt_irrefl _
  have hok : KernelCheck.ok ≠ .mismatch := by decide
  simp only [hrevision, ends_ite, ends_bind, ends_modify, ends_modifyData, ends_pure]
  exact ⟨fun h => absurd rfl h, fun _ => ⟨fun h => absurd h hrevisions, fun _ =>
    ⟨trivial, hok, h1.protocol, h1.stale, h1.page⟩⟩⟩

/-! ### Programs that return to their caller -/

section

variable {α β : Type} {P : α → Process κ → Prop} {Q : β → Process κ → Prop}

/-- The program returns to its caller with what is known of the value. -/
def Returns (x : Prog κ (Except ℤ α)) (d : Process κ) (P : α → Process κ → Prop) : Prop :=
  Ends x d (fun res d' => ∃ a, res = .ok a ∧ P a d') fun _ _ => False

theorem Returns.andThen {x : Prog κ (Except ℤ α)} {f : α → Prog κ (Except ℤ β)}
    (hx : Returns x d P) (hf : ∀ a d', P a d' → Returns (f a) d' Q) :
    Returns (andThen x f) d Q := by
  unfold Returns User.andThen
  rw [ends_bind]
  apply Ends.mono hx _ fun _ _ h => h
  rintro res d' ⟨a, rfl, h⟩
  exact hf a d' h

theorem returns_orStandardError {x : Prog κ ℤ} {P : Process κ → Prop}
    (hx : Ends x d (fun ret d' => ret = 0 ∧ P d') fun _ _ => False) :
    Returns (x >>= orStandardError) d fun _ => P := by
  unfold Returns
  rw [ends_bind]
  apply hx.mono _ fun _ _ h => h
  rintro ret d' ⟨rfl, h⟩
  exact ⟨⟨⟩, rfl, h⟩

theorem returns_typeOrError {x : Prog κ (Option DsetType)} {P : Process κ → Prop}
    (hx : Ends x d (fun type d' => type.isSome = true ∧ P d') fun _ _ => False) :
    Returns (x >>= typeOrError) d fun _ => P := by
  unfold Returns
  rw [ends_bind]
  apply hx.mono _ fun _ _ h => h
  rintro type d' ⟨hsome, h⟩
  obtain ⟨t, rfl⟩ := Option.isSome_iff_exists.mp hsome
  exact ⟨⟨⟩, rfl, h⟩

theorem returns_parsedArgs {x : Prog κ (ℤ × List Str)} {P : List Str → Process κ → Prop}
    (hx : Ends x d (fun r d' => r.1 = 0 ∧ P r.2 d') fun _ _ => False) :
    Returns (x >>= parsedArgs) d P := by
  unfold Returns
  rw [ends_bind]
  apply hx.mono _ fun _ _ h => h
  rintro ⟨ret, l⟩ d' ⟨rfl, h⟩
  exact ⟨l, rfl, h⟩

end

/-! ### Arguments of commands -/

/-- Without an option of the program nothing is taken out. -/
theorem parseEnvopt_without {o : EnvOpt} {argv : List Str}
    (h : ∀ t ∈ argv, dsetMatchEnvopt t o = false) (kept : List Str) :
    Returns (parseEnvopt o kept argv) d fun l d' => l = kept ++ argv ∧ d' = d := by
  induction argv using dropEnvopt.induct (o := o) generalizing kept with
  | case1 =>
    rw [List.append_nil]
    exact ⟨kept, rfl, rfl, rfl⟩
  | case2 arg harg => exact absurd harg (by simp [h arg List.mem_cons_self])
  | case3 arg harg =>
    unfold parseEnvopt
    rw [h arg List.mem_cons_self, Bool.not_false, if_pos rfl]
    exact ⟨_, rfl, rfl, rfl⟩
  | case4 arg value l harg => exact absurd harg (by simp [h arg List.mem_cons_self])
  | case5 arg value l harg => exact absurd harg (by simp [h arg List.mem_cons_self])
  | case6 arg value l harg ih =>
    have hrest := ih (fun t ht => h t (List.mem_cons_of_mem _ ht)) (kept ++ [arg])
    unfold parseEnvopt
    rw [h arg List.mem_cons_self, Bool.not_false, if_pos rfl]
    rwa [List.append_assoc, List.singleton_append] at hrest

theorem parseEnvopts_without {argv : List Str} (h : NoEnvopt argv) (os : List EnvOpt) :
    Returns (parseEnvopts os argv) d fun l d' => l = argv ∧ d' = d := by
  induction os with
  | nil => exact ⟨argv, rfl, rfl, rfl⟩
  | cons o os ih =>
    unfold Returns parseEnvopts
    rw [ends_bind]
    apply Ends.mono (parseEnvopt_without (fun t ht => h t ht o) []) _ fun _ _ h => h
    rintro res d' ⟨l, rfl, rfl, rfl⟩
    exact ih

theorem parseSetname_accepts {str : Str} {name : SetName} (h : SetName.ofStr str = some name) :
    Ends (parseSetname str) d
      (fun ret d' => ret = 0 ∧ d' = d.mapSession fun s => { s with data := s.data.setSetname name })
      fun _ _ => False := by
  unfold parseSetname dsetParseSetname
  rw [h]
  exact ⟨rfl, rfl⟩

/-- The options that can be stored are passed over in a first pass. -/
theorem callParserLoop_family {kws : List Keyword} {all l : List Str}
    (h : (storeOpts kws data l).isSome = true) :
    Ends (callParserLoop kws true all l) d (fun r d' => r = (0, all) ∧ d' = d)
      fun _ _ => False := by
  induction l using List.twoStepInduction generalizing data with
  | nil => exact ⟨rfl, rfl⟩
  | singleton arg => cases h
  | cons_cons arg value l ih _ =>
    rw [storeOpts] at h
    unfold callParserLoop
    cases hfind : kws.find? (dsetMatchOption arg ·) with
    | none =>
      rw [hfind] at h
      cases h
    | some k =>
      rw [hfind, Option.bind_some] at h
      cases hstore : k.store value data with
      | none =>
        rw [hstore] at h
        cases h
      | some data' =>
        rw [hstore, Option.bind_some] at h
        exact ih h

theorem stored_number {str : Str} {max : ℕ} {f : ℕ → Data}
    (h : (stringToNumberLl str 0 max).toOption.map f = some data) :
    ∃ v, stringToNumberLl str 0 max = .ok v ∧ f v = data := by
  obtain ⟨v, hv, hdata⟩ := Option.map_eq_some_iff.mp h
  cases hnumber : stringToNumberLl str 0 max with
  | error r =>
    rw [hnumber] at hv
    cases hv
  | ok n =>
    rw [hnumber] at hv
    obtain rfl := Option.some.inj hv
    exact ⟨n, rfl, hdata⟩

theorem dsetCallParser_accepts (h : d.Fine) {k : Keyword} {str : Str}
    (hstore : k.store str d.session.data = some data) :
    Ends (dsetCallParser k str) d
      (fun ret d' => ret = 0 ∧ d'.Fine ∧ d'.session.data = data) fun _ _ => False := by
  have hignored (hdata : (d.session.data.markIgnored k.opt).2 = data) :
      Ends (dsetParseIgnored k str) d
        (fun ret d' => ret = 0 ∧ d'.Fine ∧ d'.session.data = data) fun _ _ => False := by
    simp only [dsetParseIgnored, ends_bind, ends_session, ends_modifyData, ends_ite, ends_pure,
      Prog.dsetWarn, ends_report]
    exact ⟨fun _ => ⟨trivial, ⟨h.known, h.protocol, h.stale, h.page⟩, hdata⟩,
      fun _ => ⟨trivial, ⟨h.known, h.protocol, h.stale, h.page⟩, hdata⟩⟩
  unfold Keyword.store at hstore
  split at hstore
  · cases hstore
  · rename_i htest
    simp only [dsetCallParser, ends_bind, ends_session, ends_ite]
    refine ⟨fun h => absurd h htest, fun _ => ?_⟩
    cases k with
    | hashsize =>
      obtain ⟨v, hv, rfl⟩ := stored_number hstore
      simp only [Keyword.parse, dsetParseUint32, hv]
      exact ⟨rfl, h.stored rfl ⟨_, _, rfl⟩, rfl⟩
    | maxelem =>
      obtain ⟨v, hv, rfl⟩ := stored_number hstore
      simp only [Keyword.parse, dsetParseUint32, hv]
      exact ⟨rfl, h.stored rfl ⟨_, _, rfl⟩, rfl⟩
    | timeout =>
      obtain ⟨v, hv, rfl⟩ := stored_number hstore
      simp only [Keyword.parse, dsetParseTimeout, hv]
      exact ⟨rfl, h.stored rfl ⟨_, _, rfl⟩, rfl⟩
    | probes => exact hignored (Option.some.inj hstore)
    | resize => exact hignored (Option.some.inj hstore)
    | gc => exact hignored (Option.some.inj hstore)

theorem callParserLoop_accepts (h : d.Fine) {kws : List Keyword} {all l : List Str}
    (hstore : storeOpts kws d.session.data l = some data) :
    Ends (callParserLoop kws false all l) d
      (fun r d' => r = (0, []) ∧ d'.Fine ∧ d'.session.data = data) fun _ _ => False := by
  induction l using List.twoStepInduction generalizing d with
  | nil => exact ⟨rfl, h, Option.some.inj hstore⟩
  | singleton arg => cases hstore
  | cons_cons arg value l ih _ =>
    obtain ⟨k, hfind, hstore⟩ := Option.bind_eq_some_iff.mp hstore
    obtain ⟨data1, hstore1, hstore⟩ := Option.bind_eq_some_iff.mp hstore
    unfold callParserLoop
    rw [hfind]
    dsimp only
    rw [if_neg Bool.false_ne_true, ends_bind]
    apply (dsetCallParser_accepts h hstore1).mono _ fun _ _ h => h
    rintro ret d1 ⟨rfl, h1, rfl⟩
    rw [if_neg (lt_irrefl _)]
    exact ih h1 hstore

/-- Where the type has no options, none are given. -/
theorem typeArgs_of_storeOpts {cmd : Cmd} {argv : List Str}
    (hstore : storeOpts (typeArgs cmd) data argv = some data') :
    ¬ (typeArgs cmd = [] ∧ argv ≠ []) := by
  rintro ⟨hnone, hne⟩
  rw [hnone] at hstore
  match argv, hne with
  | [_], _ => cases hstore
  | _ :: _ :: _, _ => cases hstore

/-- The arguments of the set type that can be stored. -/
theorem callParser_accepts (h : d.Fine) {cmd : Cmd} {argv : List Str}
    (hstore : storeOpts (typeArgs cmd) d.session.data.forget argv = some data) :
    Returns (callParser cmd false argv >>= parsedArgs) d
      fun l d' => l = [] ∧ d'.Fine ∧ d'.session.data.forget = data := by
  rw [storeOpts_forget] at hstore
  obtain ⟨data', hstored, rfl⟩ := Option.map_eq_some_iff.mp hstore
  apply returns_parsedArgs
  unfold callParser
  rw [if_neg (typeArgs_of_storeOpts hstored)]
  apply (callParserLoop_accepts h hstored).mono _ fun _ _ h => h
  rintro r d' ⟨rfl, h', rfl⟩
  exact ⟨rfl, rfl, h', rfl⟩

/-- What the checks look at is no part of what is known of the type. -/
theorem checked_forget {cmd : Cmd} (h : Checked cmd data.forget) : Checked cmd data := by
  obtain ⟨hneed, hfull⟩ := h
  have hopt : ∀ o ∈ typeNeed cmd, o ∉ typeOpts := by
    have hall : ∀ o ∈ ([.domain] : List Opt), o ∉ typeOpts := by decide
    cases cmd <;> first | exact hall | exact fun o ho => absurd ho List.not_mem_nil
  refine ⟨fun o ho => ?_, fun o ho hnot htest => hfull o ho hnot ?_⟩
  · rw [← Data.test_forget _ (hopt o ho)]
    exact hneed o ho
  · rw [Data.test_forget _ (checkedOpts_notMem o ho)]
    exact htest

theorem checkArgs_accepts {cmd : Cmd} (h : Checked cmd d.session.data.forget) (argv : List Str) :
    Returns (checkArgs cmd argv) d fun l d' => l = argv ∧ d' = d := by
  obtain ⟨hneed, hfull⟩ := checked_forget h
  unfold Returns checkArgs
  rw [ends_bind]
  apply (checkMandatory_kept cmd hneed).mono _ fun _ _ h => h
  rintro _ d1 rfl
  rw [ends_bind]
  apply (checkAllowed_kept cmd hfull).mono _ fun _ _ h => h
  rintro _ d2 rfl
  exact ⟨argv, rfl, rfl, rfl⟩

theorem checked_create {arg0 : Str} {data0 : Data} {argv : List Str}
    (hname : nameData arg0 = some data0)
    (hstore : storeOpts (typeArgs .create) data0 argv = some data) : Checked .create data := by
  refine ⟨fun o ho => absurd ho List.not_mem_nil, fun o ho hfull htest => ?_⟩
  rcases (storeOpts_gained hstore).only o htest with htest | hmem
  · rw [nameData_test hname] at htest
    obtain rfl := of_decide_eq_true htest
    exact absurd ho (by decide)
  · exact absurd (List.mem_append_right _ hmem) hfull

theorem checked_elem {cmd : Cmd} (hcmd : cmd = .add ∨ cmd = .del ∨ cmd = .test) {arg0 arg1 : Str} {data0 : Data}
    {argv : List Str} (hname : nameData arg0 = some data0)
    (hstore : storeOpts (typeArgs cmd) (data0.setDomain arg1) argv = some data) :
    Checked cmd data := by
  have hcreate : cmd ≠ .create := by rcases hcmd with rfl | rfl | rfl <;> decide
  have hneed : typeNeed cmd = [.domain] := by rcases hcmd with rfl | rfl | rfl <;> rfl
  refine ⟨fun o ho => ?_, fun o ho hfull htest => ?_⟩
  · rw [hneed] at ho
    obtain rfl := List.mem_singleton.mp ho
    apply (storeOpts_gained hstore).kept
    rw [Data.test_setDomain]
    rfl
  · rw [if_neg hcreate]
    intro hflag
    obtain rfl := Finset.mem_singleton.mp hflag
    rcases (storeOpts_gained hstore).only _ htest with htest | hmem
    · rw [Data.test_setDomain, nameData_test hname] at htest
      exact absurd htest (by decide)
    · exact hfull (List.mem_append_right _ hmem)

/-! ### Commands -/

/-- A set with the name is in the cache. -/
def Process.Caches (d : Process κ) (name : SetName) : Prop := ∃ s ∈ d.setlist, s.name = name

theorem dsetParseTypename_accepts (hE : E.Serves) (h : d.Fine) {str : Str}
    (hstr : ¬ (dsetMaxnamelen ≤ str.length ∨ ¬ dsetMatchTypename str))
    (htype : d.session.data.test .type = false) (hmin : d.session.data.test .revisionMin = false) :
    Ends (dsetParseTypename E str) d
      (fun ret d' => ret = 0 ∧ d'.Fine ∧ d'.session.data.test .type = true ∧
        d'.session.data.getType.isSome = true) fun _ _ => False := by
  obtain ⟨hlen, hmatch⟩ := not_or.mp hstr
  rw [not_not] at hmatch
  have hmax : dsetMaxnamelen = 32 := rfl
  have hfound := dsetTypeGetCreate_fine (d := d.mapSession fun s =>
    { s with data := s.data.setTypename dsetHashDomain0.name }) hE
    (h.stored rfl ⟨_, _, rfl⟩) rfl htype hmin
  unfold dsetParseTypename
  rw [if_neg (by omega), hmatch, Bool.not_true, if_neg Bool.false_ne_true]
  simp only [ends_bind, ends_modifyData]
  apply hfound.mono _ fun _ _ h => h
  rintro type d1 ⟨rfl, h1⟩
  simp only [ends_bind, ends_modifyData, ends_pure]
  have hset (data : Data) : (data.setType dsetHashDomain0).test .type = true := by
    rw [Data.test_setType]
    rfl
  refine ⟨trivial, h1.stored rfl ⟨_, _, rfl⟩, hset _, ?_⟩
  unfold Data.getType
  rw [hset, if_pos rfl]
  rfl

theorem parseCreate_accepts (hE : E.Serves) (h : d.Fine) (hdata : d.session.data = Data.reset)
    {arg0 arg1 : Str} {argv : List Str}
    (hmeans : CmdArgs.data ⟨.create, some arg0, some arg1, argv⟩ = some data) :
    Returns (parseCreate E arg0 arg1 argv) d fun l d' => l = [] ∧ d'.Fine := by
  obtain ⟨hstr, data0, hname, hstore⟩ : ¬ (dsetMaxnamelen ≤ arg1.length ∨ ¬ dsetMatchTypename arg1) ∧
      ∃ data0, nameData arg0 = some data0 ∧
        storeOpts (typeArgs .create) data0 argv = some data := by
    change (if _ then none else _) = some data at hmeans
    split at hmeans
    · cases hmeans
    · rename_i hstr
      exact ⟨hstr, Option.bind_eq_some_iff.mp hmeans⟩
  obtain ⟨name, hof, hdata0⟩ := Option.map_eq_some_iff.mp hname
  unfold parseCreate
  refine (returns_orStandardError (parseSetname_accepts hof)).andThen fun _ d1 h1 => ?_
  have hd1 : d1.Fine ∧ d1.session.data = data0 := by
    subst h1
    refine ⟨h.stored rfl ⟨_, _, rfl⟩, ?_⟩
    rw [← hdata0]
    exact congrArg (·.setSetname name) hdata
  have hforget0 : data0.forget = data0 := by
    rw [← hdata0, Data.forget_setSetname, Data.forget_reset]
  have htest0 (o : Opt) (ho : o ≠ .setname) : d1.session.data.test o = false := by
    rw [hd1.2, nameData_test hname, decide_eq_false ho]
  have htyped := dsetParseTypename_accepts hE hd1.1 hstr (htest0 _ (by decide)) (htest0 _ (by decide))
  have hparsed : Ends (dsetParseTypename E arg1) d1
      (fun ret d' => ret = 0 ∧ d'.Fine ∧ d'.session.data.test .type = true ∧
        d'.session.data.getType.isSome = true ∧
        d'.session.data.forget = d1.session.data.forget) fun _ _ => False := by
    apply (htyped.and (dsetParseTypename_said (E := E) arg1)).mono _ fun _ _ h => h.1
    rintro ret d2 ⟨⟨rfl, hfine, htest, htype⟩, hsaid⟩
    exact ⟨rfl, hfine, htest, htype, (hsaid le_rfl).2.1⟩
  refine (returns_orStandardError hparsed).andThen fun _ d2 h2 => ?_
  obtain ⟨hfine2, htest2, htype2, hforget2⟩ := h2
  have hget : Ends (dsetTypeGetCreate E) d2 (fun type d' => type.isSome = true ∧ d' = d2)
      fun _ _ => False := by
    simp only [dsetTypeGetCreate, ends_bind, ends_session, htest2, if_true, ends_pure]
    exact ⟨htype2, trivial⟩
  rw [hd1.2, hforget0] at hforget2
  have hstored : ∃ data', storeOpts (typeArgs .create) d2.session.data argv = some data' := by
    rw [← hforget2, storeOpts_forget] at hstore
    obtain ⟨data', hstore, -⟩ := Option.map_eq_some_iff.mp hstore
    exact ⟨data', hstore⟩
  refine (returns_typeOrError hget).andThen fun _ d3 h3 => ?_
  subst h3
  have hfamily : Returns (callParser .create true argv >>= parsedArgs) d3
      fun l d' => l = argv ∧ d' = d3 := by
    obtain ⟨data', hstored⟩ := hstored
    apply returns_parsedArgs
    unfold callParser
    rw [if_neg (typeArgs_of_storeOpts hstored)]
    apply (callParserLoop_family (by rw [hstored]; rfl)).mono _ fun _ _ h => h
    rintro r d' ⟨rfl, rfl⟩
    exact ⟨rfl, rfl, rfl⟩
  refine hfamily.andThen fun l d4 h4 => ?_
  obtain ⟨rfl, rfl⟩ := h4
  refine (callParser_accepts hfine2 (by rw [hforget2, hstore])).andThen fun l' d5 h5 => ?_
  obtain ⟨rfl, hfine5, hforget5⟩ := h5
  have hchecked : Checked .create d5.session.data.forget := by
    rw [hforget5]
    exact checked_create hname hstore
  apply Ends.mono (checkArgs_accepts hchecked []) _ fun _ _ h => h
  rintro res d6 ⟨l', rfl, rfl, rfl⟩
  exact ⟨[], rfl, rfl, hfine5⟩

theorem adtTypeGet_cached {name : SetName} (hname : d.session.data.getSetname = some name)
    (hcached : d.Caches name) :
    Ends (adtTypeGet E) d (fun type d' => type.isSome = true ∧ ∃ t,
      d' = d.mapSession fun s => { s with data := s.data.setType t }) fun _ _ => False := by
  obtain ⟨s, hs, hsname⟩ := hcached
  obtain ⟨s', hfind⟩ := Option.isSome_iff_exists.mp (List.find?_isSome.mpr
    ⟨s, hs, decide_eq_true hsname⟩ : (d.setlist.find? (·.name = name)).isSome = true)
  simp only [adtTypeGet, ends_bind, ends_session, hname, ends_get, hfind, ends_modifyData, ends_pure]
  exact ⟨rfl, _, rfl⟩

theorem parseAdt_accepts (hE : E.Succeeds) (h : d.Fine) (hdata : d.session.data = Data.reset)
    {cmd : Cmd} (hcmd : cmd = .add ∨ cmd = .del ∨ cmd = .test) {arg0 arg1 : Str} {argv : List Str}
    (hmeans : CmdArgs.data ⟨cmd, some arg0, some arg1, argv⟩ = some data)
    (hcached : ∀ name, SetName.ofStr arg0 = some name → d.Caches name) :
    Returns (parseAdt E cmd arg0 arg1 argv) d fun l d' => l = [] ∧ d'.Fine := by
  obtain ⟨hsep, data0, hname, hstore⟩ : ¬ elemSeparator arg1 = true ∧
      ∃ data0, nameData arg0 = some data0 ∧
        storeOpts (typeArgs cmd) (data0.setDomain arg1) argv = some data := by
    have hdata : (if elemSeparator arg1 then none else (nameData arg0).bind fun data =>
        storeOpts (typeArgs cmd) (data.setDomain arg1) argv) = some data := by
      rcases hcmd with rfl | rfl | rfl <;> exact hmeans
    split at hdata
    · cases hdata
    · rename_i hsep
      exact ⟨hsep, Option.bind_eq_some_iff.mp hdata⟩
  obtain ⟨name, hof, hdata0⟩ := Option.map_eq_some_iff.mp hname
  unfold parseAdt
  refine (returns_orStandardError (parseSetname_accepts hof)).andThen fun _ d1 h1 => ?_
  have hd1 : d1.Fine ∧ d1.session.data = data0 ∧ d1.Caches name := by
    subst h1
    refine ⟨h.stored rfl ⟨_, _, rfl⟩, ?_, hcached name hof⟩
    rw [← hdata0]
    exact congrArg (·.setSetname name) hdata
  obtain ⟨hfine1, hdata1, hcached1⟩ := hd1
  have hget : d1.session.data.getSetname = some name := by
    unfold Data.getSetname
    rw [hdata1, ← hdata0, Data.test_setSetname, decide_eq_true rfl, Bool.true_or, if_pos rfl]
    rfl
  refine (returns_typeOrError (adtTypeGet_cached (E := E) hget hcached1)).andThen fun _ d2 h2 => ?_
  obtain ⟨t, rfl⟩ := h2
  have htype : (d1.session.data.setType t).getType = some t := by
    unfold Data.getType
    rw [Data.test_setType, decide_eq_true rfl, Bool.true_or, if_pos rfl]
    rfl
  have helem : Ends (dsetParseElem E arg1)
      (d1.mapSession fun s => { s with data := s.data.setType t })
      (fun ret d' => ret = 0 ∧ d'.Fine ∧
        d'.session.data = (d1.session.data.setType t).setDomain arg1) fun _ _ => False := by
    simp only [dsetParseElem, ends_bind, ends_session, htype, ends_ext, ends_ite, ends_modifyData,
      ends_pure, hE _]
    exact ⟨fun _ => ⟨fun h => absurd h hsep, fun _ => ⟨trivial,
      hfine1.stored rfl ⟨_, _, rfl⟩, trivial⟩⟩,
      fun h => absurd trivial h⟩
  refine (returns_orStandardError helem).andThen fun _ d3 h3 => ?_
  obtain ⟨hfine3, hdata3⟩ := h3
  have hforget3 : d3.session.data.forget = data0.setDomain arg1 := by
    rw [hdata3, Data.forget_setDomain, Data.forget_setType, hdata1, ← hdata0, Data.forget_setSetname,
      Data.forget_reset]
  refine (callParser_accepts hfine3 (by rw [hforget3, hstore])).andThen fun l' d4 h4 => ?_
  obtain ⟨rfl, hfine4, hforget4⟩ := h4
  have hchecked : Checked cmd d4.session.data.forget := by
    rw [hforget4]
    exact checked_elem hcmd hname hstore
  apply Ends.mono (checkArgs_accepts hchecked []) _ fun _ _ h => h
  rintro res d5 ⟨l', rfl, rfl, rfl⟩
  exact ⟨[], rfl, rfl, hfine4⟩

theorem parseNames_accepts (h : d.Fine) {arg0 arg1 : Str}
    (hmeans : ((nameData arg0).bind fun data => (SetName.ofStr arg1).map data.setSetname2) = some data)
    (argv : List Str) : Returns (parseNames arg0 arg1 argv) d fun l d' => l = argv ∧ d'.Fine := by
  obtain ⟨data0, hname, hname2⟩ := Option.bind_eq_some_iff.mp hmeans
  obtain ⟨name, hof, -⟩ := Option.map_eq_some_iff.mp hname
  obtain ⟨name2, hof2, -⟩ := Option.map_eq_some_iff.mp hname2
  unfold parseNames
  refine (returns_orStandardError (parseSetname_accepts hof)).andThen fun _ d1 h1 => ?_
  subst h1
  have hsecond : Ends (parseSetname2 arg1) (d.mapSession fun s => { s with
      data := s.data.setSetname name }) (fun ret d' => ret = 0 ∧ d'.Fine) fun _ _ => False := by
    unfold parseSetname2 dsetParseSetname
    rw [hof2]
    exact ⟨rfl, h.stored rfl ⟨_, _, rfl⟩⟩
  exact (returns_orStandardError hsecond).andThen fun _ d2 h2 => ⟨argv, rfl, rfl, h2⟩

theorem parseOptional_accepts (h : d.Fine) {arg0 : Option Str}
    (hmeans : arg0.elim (some Data.reset) nameData = some data) (argv : List Str) :
    Returns (parseOptional arg0 argv) d fun l d' => l = argv ∧ d'.Fine := by
  cases arg0 with
  | none => exact ⟨argv, rfl, rfl, h⟩
  | some arg0 =>
    obtain ⟨name, hof, -⟩ := Option.map_eq_some_iff.mp hmeans
    unfold parseOptional
    refine (returns_orStandardError (parseSetname_accepts hof)).andThen fun _ d1 h1 => ?_
    subst h1
    exact ⟨argv, rfl, rfl, h.stored rfl ⟨_, _, rfl⟩⟩

/-- The sets whose elements a command is about are in the cache. -/
def CmdArgs.Cached (c : CmdArgs) (d : Process κ) : Prop :=
  c.cmd = .add ∨ c.cmd = .del → ∀ arg0 name, c.arg0 = some arg0 → SetName.ofStr arg0 = some name →
    d.Caches name

/-- A command with two arguments that means something has both of them. -/
theorem args_of_data {cmd : Cmd} {arg0 arg1 : Option Str} {argv : List Str}
    (hcmd : cmd = .create ∨ cmd = .rename ∨ cmd = .swap ∨ cmd = .add ∨ cmd = .del)
    (hmeans : CmdArgs.data ⟨cmd, arg0, arg1, argv⟩ = some data) :
    ∃ a0 a1, arg0 = some a0 ∧ arg1 = some a1 := by
  match arg0, arg1 with
  | some a0, some a1 => exact ⟨a0, a1, rfl, rfl⟩
  | none, _ => rcases hcmd with rfl | rfl | rfl | rfl | rfl <;> cases hmeans
  | some _, none => rcases hcmd with rfl | rfl | rfl | rfl | rfl <;> cases hmeans

theorem parseStages_accepts (hE : E.Serves) (h : d.Fine) (hdata : d.session.data = Data.reset)
    (loops : Loops κ) {c : CmdArgs} (hchanges : c.cmd.changes = true) (hmeans : c.data = some data)
    (hcached : c.Cached d) :
    Returns (parseStages E loops c) d fun l d' => l = [] ∧ d'.Fine := by
  obtain ⟨cmd, arg0, arg1, argv⟩ := c
  replace hchanges : cmd.changes = true := hchanges
  have hoptional (hdata : (if argv ≠ [] then none else arg0.elim (some Data.reset) nameData) =
      some data) : Returns (parseOptional arg0 argv) d fun l d' => l = [] ∧ d'.Fine := by
    split at hdata
    · cases hdata
    · rename_i hnil
      obtain rfl := not_not.mp hnil
      exact parseOptional_accepts h hdata []
  have hnames {a0 a1 : Str} (hdata : (if argv ≠ [] then none else (nameData a0).bind fun data =>
      (SetName.ofStr a1).map data.setSetname2) = some data) :
      Returns (parseNames a0 a1 argv) d fun l d' => l = [] ∧ d'.Fine := by
    split at hdata
    · cases hdata
    · rename_i hnil
      obtain rfl := not_not.mp hnil
      exact parseNames_accepts h hdata []
  cases cmd with
  | create =>
    obtain ⟨a0, a1, rfl, rfl⟩ := args_of_data (by decide) hmeans
    exact parseCreate_accepts hE h hdata hmeans
  | destroy => exact hoptional hmeans
  | flush => exact hoptional hmeans
  | rename =>
    obtain ⟨a0, a1, rfl, rfl⟩ := args_of_data (by decide) hmeans
    exact hnames hmeans
  | swap =>
    obtain ⟨a0, a1, rfl, rfl⟩ := args_of_data (by decide) hmeans
    exact hnames hmeans
  | add =>
    obtain ⟨a0, a1, rfl, rfl⟩ := args_of_data (by decide) hmeans
    exact parseAdt_accepts hE.succeeds h hdata (.inl rfl) hmeans
      fun name hof => hcached (.inl rfl) a0 name rfl hof
  | del =>
    obtain ⟨a0, a1, rfl, rfl⟩ := args_of_data (by decide) hmeans
    exact parseAdt_accepts hE.succeeds h hdata (.inr (.inl rfl)) hmeans
      fun name hof => hcached (.inr rfl) a0 name rfl hof
  | none | protocol | list | save | test | header | type | restore | help | version | quit =>
    cases hchanges

theorem parseCmd_accepts {argv : List Str} {c : CmdArgs} (hc : cmdArgs argv = some c)
    (hchanges : c.cmd.changes = true) : Returns (parseCmd argv) d fun c' d' => c' = c ∧ d' = d := by
  cases argv with
  | nil => cases hc
  | cons arg l =>
    obtain ⟨command, hfind, hargs⟩ := Option.bind_eq_some_iff.mp hc
    obtain ⟨hcmd, -⟩ := DsetCommand.args_eq hargs
    rw [hcmd] at hchanges
    have hother : ¬ (d.restoreLine ≠ 0 ∧ (command.cmd = .restore ∨ command.cmd = .version ∨
        command.cmd = .help)) := by
      rintro ⟨-, h | h | h⟩ <;> rw [h] at hchanges <;> cases hchanges
    have hrestore : ¬ (d.interactive && decide (command.cmd = .restore)) = true := by
      rw [Bool.and_eq_true, decide_eq_true_eq]
      rintro ⟨-, h⟩
      rw [h] at hchanges
      cases hchanges
    have hparsed : parseCmdArgs (κ := κ) command l = pure (.ok c) := by
      obtain ⟨cmd, name, hasArg⟩ := command
      match hasArg, l with
      | .noArg, [] | .noArg, _ :: _ | .optionalArg, [] | .optionalArg, _ :: _ =>
        obtain rfl := Option.some.inj hargs
        rfl
      | .mandatoryArg2, [] | .mandatoryArg2, [_] => cases hargs
      | .mandatoryArg2, _ :: _ :: _ =>
        obtain rfl := Option.some.inj hargs
        rfl
    unfold Returns parseCmd
    simp only [hfind, ends_bind, ends_get, if_neg hother, if_neg hrestore, hparsed, ends_pure]
    exact ⟨c, rfl, rfl, trivial⟩

/-- A line that says something is accepted. -/
theorem parseLine_accepts (hE : E.Serves) (h : d.Fine) (hdata : d.session.data = Data.reset)
    (loops : Loops κ) {argv : List Str} (hopt : NoEnvopt argv) {c : CmdArgs}
    (hc : cmdArgs argv = some c) (hchanges : c.cmd.changes = true) (hmeans : c.data = some data)
    (hcached : c.Cached d) :
    Returns (parseLine E loops argv) d fun cmd d' => cmd = c.cmd ∧ d'.Fine ∧ Parsed E argv d cmd d' := by
  have hreturns : Returns (parseLine E loops argv) d fun cmd d' => cmd = c.cmd ∧ d'.Fine := by
    unfold Returns parseLine
    simp only [ends_bind, ends_get, ends_modifySession]
    refine Returns.andThen (parseEnvopts_without hopt EnvOpt.all) fun rest d1 h1 => ?_
    obtain ⟨rfl, rfl⟩ := h1
    refine (parseCmd_accepts hc hchanges).andThen fun c' d2 h2 => ?_
    obtain ⟨rfl, rfl⟩ := h2
    have hfine : (d.mapSession fun s => { s with lineno := d.restoreLine }).Fine :=
      h.stored rfl ⟨_, _, rfl⟩
    refine (parseStages_accepts hE hfine hdata loops hchanges hmeans hcached).andThen fun l d3 h3 => ?_
    obtain ⟨rfl, h3⟩ := h3
    exact ⟨c'.cmd, rfl, rfl, h3⟩
  apply Ends.mono (Ends.and hreturns (parseLine_parsed (E := E) argv
    (show d.session.data.forget = Data.reset by rw [hdata, Data.forget_reset]))) _ fun _ _ h => h.1
  rintro res d' ⟨⟨cmd, rfl, rfl, hfine⟩, hparsed⟩
  exact ⟨_, rfl, rfl, hfine, hparsed _ rfl⟩

/-- Exactly the lines that say something are accepted, and what they say is stored: in a session
with an empty blob that speaks with a kernel that knows the type, whatever was asked before. A line
with too few arguments says nothing. -/
theorem line_accepted_iff (hE : E.Serves) (h : d.Fine) (hdata : d.session.data = Data.reset)
    (loops : Loops κ) {argv : List Str} (hopt : NoEnvopt argv)
    (hargs : ∀ c, cmdArgs argv = some c → c.cmd.changes = true ∧ c.Cached d) :
    ((∃ cmd d', parseLine E loops argv d = .ok (.ok cmd) d') ↔
        ∃ c, cmdArgs argv = some c ∧ c.data.isSome = true) ∧
      ∀ cmd d', parseLine E loops argv d = .ok (.ok cmd) d' →
        ∃ c, cmdArgs argv = some c ∧ cmd = c.cmd ∧ c.data = some d'.session.data.forget ∧ d'.Fine := by
  have hforget : d.session.data.forget = Data.reset := by rw [hdata, Data.forget_reset]
  have hreturns {c : CmdArgs} {data : Data} (hc : cmdArgs argv = some c)
      (hmeans : c.data = some data) : Returns (parseLine E loops argv) d fun cmd d' =>
        cmd = c.cmd ∧ d'.Fine ∧ Parsed E argv d cmd d' :=
    parseLine_accepts hE h hdata loops hopt hc (hargs c hc).1 hmeans (hargs c hc).2
  have hstored {cmd : Cmd} {d' : Process κ} (hrun : parseLine E loops argv d = .ok (.ok cmd) d') :
      ∃ c, cmdArgs argv = some c ∧ cmd = c.cmd ∧ c.data = some d'.session.data.forget := by
    have hparsed := (ends_of_ok hrun).mp (parseLine_parsed (E := E) argv hforget) cmd rfl
    obtain ⟨c, hline, hcmd, hstored, -⟩ := hparsed.line
    exact ⟨c, hopt.lineArgs_eq ▸ hline, hcmd.symm, hstored⟩
  refine ⟨⟨?_, ?_⟩, fun cmd d' hrun => ?_⟩
  · rintro ⟨cmd, d', hrun⟩
    obtain ⟨c, hc, -, hmeans⟩ := hstored hrun
    exact ⟨c, hc, hmeans ▸ rfl⟩
  · rintro ⟨c, hc, hsome⟩
    obtain ⟨data, hmeans⟩ := Option.isSome_iff_exists.mp hsome
    have hline := hreturns hc hmeans
    unfold Returns Ends at hline
    cases hrun : parseLine E loops argv d with
    | ok res d' =>
      rw [hrun] at hline
      obtain ⟨cmd, rfl, -⟩ := hline
      exact ⟨cmd, d', rfl⟩
    | error status d' =>
      rw [hrun] at hline
      exact hline.elim
  · obtain ⟨c, hc, hcmd, hmeans⟩ := hstored hrun
    obtain ⟨cmd', -, -, hfine, -⟩ := (ends_of_ok hrun).mp (hreturns hc hmeans)
    exact ⟨c, hc, hcmd, hmeans, hfine⟩

/-! ### A set with a size -/

def servingEnv : Env Unit where
  answer _ nlh :=
    if nlh.cmd = .protocol then
      ([[.data .protocol false (some ⟨some dsetProtocol, none, none, none, none, none, none, none⟩)]],
        ())
    else if nlh.cmd = .type then
      ([[.data .type false (some ⟨some dsetProtocol, none, some dsetHashDomain0.name,
        some dsetHashDomain0.revision, some nfprotoUnspec, none, none, none⟩)]], ())
    else ([[.error 0 none]], ())
  ext _ := true

theorem servingEnv_serves : servingEnv.Serves where
  succeeds _ := rfl
  oneDatagram _ nlh := by
    unfold servingEnv
    dsimp only
    split
    · rfl
    · split <;> rfl
  version _ nlh h := ⟨false, _, congrArg Prod.fst (if_pos h), rfl, by decide⟩
  acks _ nlh h := by
    have hprotocol : nlh.cmd ≠ .protocol := fun hcmd => by rw [hcmd] at h; cases h
    have htype : nlh.cmd ≠ .type := fun hcmd => by rw [hcmd] at h; cases h
    exact ⟨none, congrArg Prod.fst ((if_neg hprotocol).trans (if_neg htype))⟩
  malloc _ := rfl
  type _ nlh h _ := by
    have hprotocol : nlh.cmd ≠ .protocol := fun hcmd => by rw [h] at hcmd; cases hcmd
    exact ⟨false, _, dsetHashDomain0.revision,
      congrArg Prod.fst ((if_neg hprotocol).trans (if_pos h)), rfl, rfl, rfl, rfl, le_rfl, le_rfl⟩

/-- The arguments of a line that creates a set. -/
def sizedArgv : List Str :=
  [bytes "create", bytes "a", bytes "hash:domain", bytes "hashsize", bytes "64"]

theorem sizedArgv_args : cmdArgs sizedArgv = some ⟨.create, some (bytes "a"),
    some (bytes "hash:domain"), [bytes "hashsize", bytes "64"]⟩ := by decide

theorem noEnvopt_sizedArgv : NoEnvopt sizedArgv := by
  have hhead : ∀ t ∈ sizedArgv, t.head? ≠ some 45 := by
    simp only [sizedArgv, List.forall_mem_cons]
    exact ⟨by decide, by decide, by decide, by decide, by decide,
      fun t ht => absurd ht List.not_mem_nil⟩
  exact fun t ht => dsetMatchEnvopt_of_head (hhead t ht)

theorem dsetInit_fine : (dsetInit 4096 () [] : Process Unit).Fine :=
  ⟨by decide, fun h => absurd h Bool.false_ne_true, rfl, le_rfl⟩

theorem line_accepted_iff_sized :
    ((∃ cmd d', parseLine servingEnv (loops servingEnv 0) sizedArgv (dsetInit 4096 () []) =
        .ok (.ok cmd) d') ↔ ∃ c, cmdArgs sizedArgv = some c ∧ c.data.isSome = true) ∧
      ∀ cmd d', parseLine servingEnv (loops servingEnv 0) sizedArgv (dsetInit 4096 () []) =
        .ok (.ok cmd) d' → ∃ c, cmdArgs sizedArgv = some c ∧ cmd = c.cmd ∧
          c.data = some d'.session.data.forget ∧ d'.Fine := by
  refine line_accepted_iff servingEnv_serves dsetInit_fine rfl (loops servingEnv 0)
    noEnvopt_sizedArgv fun c hc => ?_
  obtain rfl := Option.some.inj (sizedArgv_args.symm.trans hc)
  exact ⟨rfl, fun h => absurd h (by decide)⟩

end Dset.User
