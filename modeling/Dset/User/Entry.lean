import Dset.Hash.Keys
import Dset.User.Batch
import Dset.User.Truncation

/-! The element of an `add`, `del` or `test` on its way from the command line to the kernel: the
argument is stored as it is, cut where it is read, put into a message, and copied into a key. -/

namespace Dset.User

open Dset.Lib Dset.Core

variable {κ : Type} {E : Env κ} {d : Process κ}

/-! ### Keys in messages -/

def Cmd.isElem (c : Cmd) : Bool := c = .add || c = .del || c = .test

/-- The key that `hash_domain_uadt` makes of the text of a domain. -/
def domainKey (s : Str) : List UInt8 := (Hash.nlaStrlcpy (s ++ [0])).domain

def attrsKeys (l : List Attr) : List (List UInt8) :=
  l.filterMap fun | .domain s => some (domainKey s) | _ => none

@[simp] theorem attrsKeys_nil : attrsKeys [] = [] := rfl

@[simp] theorem attrsKeys_append (l l' : List Attr) :
    attrsKeys (l ++ l') = attrsKeys l ++ attrsKeys l' := List.filterMap_append

/-- The keys that the kernel operates on at a message. -/
def Nlmsg.keys (nlh : Nlmsg) : List (List UInt8) :=
  if nlh.cmd.isElem then attrsKeys nlh.attrs else []

def Session.keys (s : Session) : List (List UInt8) := s.buffer.toList.flatMap Nlmsg.keys

/-- The keys handed over so far: those in the messages sent, and in the one that is sent with
what comes next. -/
def Process.keys (d : Process κ) : List (List UInt8) :=
  d.sent.flatMap (·.1.keys) ++ d.session.keys

/-- One more key, unless it did not fit. -/
def Gains (key : List UInt8) (l l' : List (List UInt8)) : Prop := l' = l ++ [key] ∨ l' = l

theorem Gains.within {key : List UInt8} {l l' : List (List UInt8)} (h : Gains key l l') :
    l' <+: l ++ [key] := by
  rcases h with rfl | rfl
  · exact List.prefix_rfl
  · exact List.prefix_append _ _

namespace Nlmsg

variable {nlh nlh' : Nlmsg}

theorem keys_of_attrs {l : List Attr} (hcmd : nlh'.cmd = nlh.cmd)
    (hattrs : nlh'.attrs = nlh.attrs ++ l) :
    nlh'.keys = nlh.keys ++ if nlh.cmd.isElem then attrsKeys l else [] := by
  unfold keys
  rw [hcmd, hattrs]
  split
  · exact attrsKeys_append _ _
  · rfl

theorem keys_same {l : List Attr} (hcmd : nlh'.cmd = nlh.cmd)
    (hattrs : nlh'.attrs = nlh.attrs ++ l) (hl : attrsKeys l = []) : nlh'.keys = nlh.keys := by
  rw [keys_of_attrs hcmd hattrs, hl, ite_self, List.append_nil]

theorem keys_gains {l : List Attr} {key : List UInt8} (hcmd : nlh'.cmd = nlh.cmd)
    (hattrs : nlh'.attrs = nlh.attrs ++ l) (hl : attrsKeys l = [key]) :
    Gains key nlh.keys nlh'.keys := by
  rw [keys_of_attrs hcmd hattrs, hl]
  split
  · exact .inl rfl
  · exact .inr (List.append_nil _)

theorem keys_addattr (nlh : Nlmsg) (bufsize alen : ℕ) {a : Attr} (ha : attrsKeys [a] = []) :
    (nlh.addattr bufsize alen a).keys = nlh.keys := by
  unfold addattr rawdata2attr
  split
  · rfl
  · exact keys_same rfl rfl ha

theorem keys_openNested (s : Session) (nlh : Nlmsg) {a : Attr} (ha : attrsKeys [a] = []) :
    (s.openNested nlh a).1.keys = nlh.keys := by
  unfold Session.openNested Nlmsg.openNested
  by_cases h : s.bufsize < nlh.len + mnlAttrHdrlen
  · rw [if_pos h]
  · rw [if_neg h]
    exact keys_same rfl rfl ha

theorem keys_closeNested (p : Nlmsg × List Nest) : (Session.closeNested p).1.keys = p.1.keys := by
  obtain ⟨nlh, nested⟩ := p
  cases nested with
  | nil => rfl
  | cons nest nested => exact keys_same rfl rfl rfl

theorem keys_closeAll (nlh : Nlmsg) (nested : List Nest) :
    (Session.closeAll nlh nested).keys = nlh.keys := by
  induction nested generalizing nlh with
  | nil => rfl
  | cons nest nested ih => exact (ih (nlh.nestEnd nest)).trans (keys_same rfl rfl rfl)

/-- The attributes of `test` are put as far as they fit. -/
theorem addattrsUpto_attrs (bufsize : ℕ) (l : List Attr) (nlh : Nlmsg) :
    (nlh.addattrsUpto bufsize l).cmd = nlh.cmd ∧
      ∃ k, (nlh.addattrsUpto bufsize l).attrs = nlh.attrs ++ l.take k := by
  induction l generalizing nlh with
  | nil => exact ⟨rfl, 0, (List.append_nil _).symm⟩
  | cons a l ih =>
    unfold addattrsUpto rawdata2attr
    by_cases hfull : nlh.bufferFull bufsize a.attrLen = true
    · rw [if_pos hfull]
      exact ⟨rfl, 0, (List.append_nil _).symm⟩
    · rw [if_neg hfull]
      obtain ⟨hcmd, k, hattrs⟩ := ih (nlh.put a)
      refine ⟨hcmd, k + 1, hattrs.trans ?_⟩
      rw [List.take_succ_cons]
      exact List.append_assoc nlh.attrs [a] _

end Nlmsg

/-! ### The messages of a command about an element -/

namespace Session

variable {s : Session} {t : Str}

theorem attrsKeys_adtAttrs (ht : s.data.getDomain = some t) :
    attrsKeys s.data.adtAttrs = [domainKey t] := by
  rw [Data.adtAttrs, ht, attrsKeys_append]
  cases s.data.getTimeout <;> rfl

theorem attrsKeys_take_adtAttrs (ht : s.data.getDomain = some t) (k : ℕ) :
    attrsKeys (s.data.adtAttrs.take k) = [] ∨
      attrsKeys (s.data.adtAttrs.take k) = [domainKey t] := by
  rw [Data.adtAttrs, ht]
  cases k with
  | zero => exact .inl rfl
  | succ k =>
    refine .inr ?_
    cases s.data.getTimeout with
    | none => exact congrArg (fun l => attrsKeys (.domain t :: l)) List.take_nil
    | some v =>
      cases k with
      | zero => rfl
      | succ k => exact congrArg (fun l => attrsKeys (.domain t :: .timeout v :: l)) List.take_nil

theorem attrsKeys_itemAttrs (ht : s.data.getDomain = some t) :
    attrsKeys (itemAttrs s.itemOf) = [domainKey t] := by
  rw [itemAttrs, List.cons_append, itemOf]
  show attrsKeys (s.data.adtAttrs ++ _ ++ _) = _
  rw [attrsKeys_append, attrsKeys_append, attrsKeys_adtAttrs ht]
  rfl

/-- What building a message of a command about an element leaves of the session, and what it
does to the keys. -/
structure Builds (s : Session) (keys : List (List UInt8) → Prop) (s' : Session) : Prop where
  data : s'.data = s.data
  cmd : s'.cmd = s.cmd
  keys : keys s'.keys

theorem keys_of_buffer {nlh : Nlmsg} (h : s.buffer = some nlh) : s.keys = nlh.keys := by
  unfold Session.keys
  rw [h]
  exact List.append_nil _

theorem keys_setBuffer (nlh : Nlmsg) : (s.setBuffer nlh).keys = nlh.keys := keys_of_buffer rfl

theorem keys_startMsg : s.startMsg.keys = s.keys := by
  unfold startMsg Session.keys
  cases s.buffer with
  | none =>
    unfold Nlmsg.keys
    split <;> rfl
  | some nlh => exact (List.append_nil _).symm

/-- The element of an add or delete is behind the keys that were there, or it is rolled back. -/
theorem buildItem_keys (ht : s.data.getDomain = some t) (nlh : Nlmsg) (nested : List Nest) :
    (∃ s', s.buildItem nlh nested = .full s' ∧ Builds s (· = nlh.keys) s') ∨
      ∃ s', s.buildItem nlh nested = .done s' ∧ Builds s (Gains (domainKey t) nlh.keys) s' := by
  rcases s.buildItem_eq nlh nested with h | ⟨h, -⟩
  · exact .inl ⟨_, h, rfl, rfl, keys_of_buffer rfl⟩
  · refine .inr ⟨_, h, rfl, rfl, ?_⟩
    rw [keys_of_buffer rfl]
    exact Nlmsg.keys_gains rfl rfl (attrsKeys_itemAttrs ht)

def BuildEnds (s : Session) (key : List UInt8) : Built → Prop
  | .done s' => Builds s (Gains key s.keys) s'
  | .full s' => Builds s (· = s.keys) s'
  | .invalid s' _ => s'.keys = s.keys

theorem buildAdt_keys (ht : s.data.getDomain = some t) {nlh : Nlmsg} (hkeys : nlh.keys = s.keys)
    (aggregate : Bool) : BuildEnds s (domainKey t) (s.buildAdt nlh aggregate) := by
  have hitem (nlh : Nlmsg) (nested : List Nest) (hkeys : nlh.keys = s.keys) :
      BuildEnds s (domainKey t) (s.buildItem nlh nested) := by
    rcases buildItem_keys ht nlh nested with ⟨s', h, hs'⟩ | ⟨s', h, hs'⟩
    · rw [h]
      exact ⟨hs'.data, hs'.cmd, hs'.keys.trans hkeys⟩
    · rw [h]
      exact ⟨hs'.data, hs'.cmd, hkeys ▸ hs'.keys⟩
  unfold buildAdt
  split
  · exact hitem nlh _ hkeys
  · split
    · exact (keys_setBuffer nlh).trans hkeys
    · exact (keys_setBuffer nlh).trans hkeys
    · rename_i name _ _ _
      have hname : (nlh.addattr s.bufsize dsetMaxnamelen (.setname name.text)).keys = s.keys :=
        (nlh.keys_addattr _ _ rfl).trans hkeys
      dsimp only
      split
      · exact hitem _ _ hname
      · refine hitem _ _ ?_
        rw [Nlmsg.keys_openNested s _ rfl, Nlmsg.keys_addattr _ _ _ rfl, hname]

theorem buildTest_keys (ht : s.data.getDomain = some t) {nlh : Nlmsg} (hkeys : nlh.keys = s.keys) :
    BuildEnds s (domainKey t) (s.buildTest nlh) := by
  unfold buildTest
  split
  · exact (keys_setBuffer nlh).trans hkeys
  · exact (keys_setBuffer nlh).trans hkeys
  · rename_i name _ _ _
    dsimp only
    refine ⟨rfl, rfl, ?_⟩
    show Gains _ _ ((s.setBuffer _).keys)
    rw [keys_setBuffer, Nlmsg.keys_closeNested]
    have hopen : (s.openNested (nlh.addattr s.bufsize dsetMaxnamelen (.setname name.text))
        .data).1.keys = s.keys := by
      rw [Nlmsg.keys_openNested s _ rfl, Nlmsg.keys_addattr _ _ _ rfl, hkeys]
    rw [← hopen]
    obtain ⟨hcmd, k, hattrs⟩ := Nlmsg.addattrsUpto_attrs s.bufsize s.data.adtAttrs
      (s.openNested (nlh.addattr s.bufsize dsetMaxnamelen (.setname name.text)) .data).1
    rcases attrsKeys_take_adtAttrs ht k with hnone | hkey
    · exact .inr (Nlmsg.keys_same hcmd hattrs hnone)
    · exact Nlmsg.keys_gains hcmd hattrs hkey

/-- A command about an element hands over its key, or nothing. -/
theorem buildMsg_keys (hcmd : s.cmd.isElem = true) (ht : s.data.getDomain = some t)
    (aggregate : Bool) : BuildEnds s (domainKey t) (s.buildMsg aggregate) := by
  unfold buildMsg
  cases hs : s.cmd <;> rw [hs] at hcmd <;> first
    | exact absurd hcmd (by decide)
    | exact buildAdt_keys ht keys_startMsg _
    | exact buildTest_keys ht keys_startMsg

end Session

/-! ### The answer to a command about an element -/

/-- What the answer leaves alone, above all the blob when there is no error. -/
structure Acked (d : Process κ) (ret : ℤ) (d' : Process κ) : Prop where
  sent : d'.sent = d.sent
  buffer : d'.session.buffer = d.session.buffer
  cmd : d'.session.cmd = d.session.cmd
  data : 0 ≤ ret → d'.session.data = d.session.data

theorem Acked.refl (d : Process κ) (ret : ℤ) : Acked d ret d := ⟨rfl, rfl, rfl, fun _ => rfl⟩

theorem Acked.trans {ret ret' : ℤ} {d' d'' : Process κ} (h : Acked d ret d') (hpos : 0 < ret)
    (h' : Acked d' ret' d'') : Acked d ret' d'' where
  sent := h'.sent.trans h.sent
  buffer := h'.buffer.trans h.buffer
  cmd := h'.cmd.trans h.cmd
  data := fun hret => (h'.data hret).trans (h.data hpos.le)

section

variable {X : ℕ → Process κ → Prop}

theorem failure_acked (r : Report) : Ends (failure r) d (Acked d) X :=
  ⟨rfl, rfl, rfl, fun h => absurd h (by decide)⟩

theorem return_acked (ret : ℤ) : Ends (pure ret) d (Acked d) X := Acked.refl d ret

theorem callbackError_acked (hcmd : d.session.cmd.isElem = true) (errno : ℕ)
    (quoted : Option Quoted) : Ends (callbackError E errno quoted) d (Acked d) X := by
  have herror {d' : Process κ} (hsent : d'.sent = d.sent)
      (hbuffer : d'.session.buffer = d.session.buffer) (hcmd : d'.session.cmd = d.session.cmd) :
      Acked d mnlCbError d' := ⟨hsent, hbuffer, hcmd, fun h => absurd h (by decide)⟩
  simp only [callbackError, ends_bind, ends_ite, ends_session, ends_pure]
  refine ⟨fun _ => ?_, fun _ => ⟨fun _ => ?_, fun _ => ?_⟩⟩
  · simp only [callbackAcked, ends_bind, ends_session]
    cases hs : d.session.cmd <;> rw [hs] at hcmd <;> first
      | exact absurd hcmd (by decide)
      | exact return_acked _
      | skip
    simp only [ends_ite, ends_bind, ends_modifySession, ends_pure, Prog.dsetWarn, ends_report]
    exact ⟨fun _ => Acked.refl d _, fun _ => ⟨rfl, rfl, rfl, fun _ => rfl⟩⟩
  · exact ⟨fun _ => herror rfl rfl rfl, fun _ => herror rfl rfl rfl⟩
  · simp only [decodeErrmsg, ends_bind, ends_session]
    cases quoted with
    | none => exact herror rfl rfl rfl
    | some q =>
      simp only [ends_ite]
      exact ⟨fun _ => herror rfl rfl rfl, fun _ => ⟨fun _ => herror rfl rfl rfl,
        fun _ => herror rfl rfl rfl⟩⟩

theorem callbackData_acked {list : Cmd → Nla → Prog κ ℤ} (hcmd : d.session.cmd.isElem = true)
    (cmd : Cmd) (multi : Bool) (nla : Option Nla) :
    Ends (callbackData E list cmd multi nla) d (Acked d) X := by
  simp only [callbackData, ends_bind, ends_session, ends_ite]
  generalize (if cmd = .list ∧ d.session.cmd = .save then Cmd.save else cmd) = c
  refine ⟨fun _ => failure_acked _, fun heq => ?_⟩
  rw [not_not] at heq
  subst heq
  cases nla with
  | none => exact failure_acked _
  | some nla =>
    dsimp only
    cases nla.protocol with
    | none => exact failure_acked _
    | some proto =>
      simp only [ends_ite]
      refine ⟨fun _ => failure_acked _, fun _ => ?_⟩
      cases hs : d.session.cmd <;> rw [hs] at hcmd <;> first
        | exact absurd hcmd (by decide)
        | exact failure_acked _

theorem callback_acked {list : Cmd → Nla → Prog κ ℤ} (hcmd : d.session.cmd.isElem = true)
    (m : KMsg) : Ends (callback E list m) d (Acked d) X := by
  cases m with
  | noop => exact return_acked _
  | error errno quoted => exact callbackError_acked hcmd errno quoted
  | done ret =>
    simp only [callback, callbackDone, ends_bind, ends_session, ends_ite]
    refine ⟨fun h => ?_, fun _ => failure_acked _⟩
    rcases h with h | h <;> rw [h] at hcmd <;> exact absurd hcmd (by decide)
  | data cmd multi nla => exact callbackData_acked hcmd cmd multi nla

theorem mnlCbRun2_acked {list : Cmd → Nla → Prog κ ℤ} (hcmd : d.session.cmd.isElem = true)
    (l : List KMsg) : Ends (mnlCbRun2 (callback E list) l) d (Acked d) X := by
  induction l generalizing d with
  | nil => exact return_acked _
  | cons m l ih =>
    simp only [mnlCbRun2, ends_bind, ends_ite, ends_pure]
    apply (callback_acked hcmd m).mono _ fun _ _ h => h
    intro ret d' h
    refine ⟨fun _ => h, fun hpos => ?_⟩
    apply (ih (h.cmd ▸ hcmd)).mono _ fun _ _ h => h
    exact fun ret' d'' h' => h.trans (not_le.mp hpos) h'

theorem mnlRecv_acked {list : Cmd → Nla → Prog κ ℤ} (hcmd : d.session.cmd.isElem = true)
    (datagrams : List (List KMsg)) :
    Ends (mnlRecv (callback E list) datagrams) d (Acked d) X := by
  induction datagrams generalizing d with
  | nil => exact return_acked _
  | cons datagram l ih =>
    simp only [mnlRecv, ends_bind, ends_modifySession, ends_ite, ends_pure]
    apply (mnlCbRun2_acked (d := d.mapSession fun s => { s with stale := l.length }) hcmd
      datagram).mono _ fun _ _ h => h
    intro ret d' h
    have hread : Acked d ret d' := ⟨h.sent, h.buffer, h.cmd, h.data⟩
    refine ⟨fun _ => hread, fun hpos => ?_⟩
    apply (ih (h.cmd ▸ hcmd)).mono _ fun _ _ h => h
    exact fun ret' d'' h' => hread.trans (not_le.mp hpos) h'

/-- A message with its answer: it is sent, unless that fails. -/
theorem dsetMnlQuery_acked {list : Cmd → Nla → Prog κ ℤ} (hcmd : d.session.cmd.isElem = true)
    (nlh : Nlmsg) :
    Ends (dsetMnlQuery E (callback E list) nlh) d
      (fun ret d' => (d'.sent = d.sent ++ [(nlh, (E.answer d.kernel nlh).1)] ∨
          ret < 0 ∧ d'.sent = d.sent) ∧
        d'.session.cmd = d.session.cmd ∧ (0 ≤ ret → d'.session.data = d.session.data)) X := by
  have hneg {p : Prop} : (0 : ℤ) ≤ -1 → p := fun h => absurd h (by decide)
  simp only [dsetMnlQuery, ends_bind, ends_ext, ends_ite, ends_get, ends_set, ends_pure,
    ends_modifySession]
  refine ⟨fun _ => ⟨fun _ => ?_, fun _ => ⟨.inl trivial, trivial, hneg⟩⟩,
    fun _ => ⟨.inr ⟨by decide, trivial⟩, trivial, hneg⟩⟩
  let d1 : Process κ := { d with
    kernel := (E.answer d.kernel nlh).2
    sent := d.sent ++ [(nlh, (E.answer d.kernel nlh).1)]
    calls := d.calls + 1 }
  have hrecv : Ends (mnlRecv (callback E list) (E.answer d.kernel nlh).1) d1 (Acked d1) X :=
    mnlRecv_acked (d := d1) hcmd _
  exact hrecv.mono (fun ret d' h => ⟨.inl h.sent, h.cmd, h.data⟩) fun _ _ h => h

end

/-! ### Handing over a key -/

/-- The end of a program that may send the message under construction: it loses the keys only
when it fails. -/
structure Flushes (d : Process κ) (ret : ℤ) (d' : Process κ) : Prop where
  within : d'.keys <+: d.keys
  keys : 0 ≤ ret → d'.keys = d.keys
  data : 0 ≤ ret → d'.session.data = d.session.data
  cmd : d'.session.cmd = d.session.cmd

theorem dsetCommit_flushes
    (hcmd : d.session.buffer.isSome = true → d.session.cmd.isElem = true) :
    Ends (dsetCommit E) d (Flushes d) fun _ _ => True := by
  simp only [dsetCommit, ends_bind, ends_session]
  cases hbuffer : d.session.buffer with
  | none => exact ⟨List.prefix_rfl, fun _ => rfl, fun _ => rfl, rfl⟩
  | some nlh =>
    rw [hbuffer] at hcmd
    have hkeys : d.keys = d.sent.flatMap (·.1.keys) ++ nlh.keys := by
      rw [Process.keys, Session.keys_of_buffer hbuffer]
    -- behind the commit the buffer is empty
    have hcommitted (d' : Process κ) {ret : ℤ} (hsent : d'.sent = d.sent ++
          [(Session.closeAll nlh d.session.nested,
            (E.answer d.kernel (Session.closeAll nlh d.session.nested)).1)] ∨
          ret < 0 ∧ d'.sent = d.sent) (hbuf : d'.session.buffer = none) :
        d'.keys <+: d.keys ∧ (0 ≤ ret → d'.keys = d.keys) := by
      have hsession : d'.session.keys = [] := by
        unfold Session.keys
        rw [hbuf]
        rfl
      rcases hsent with hsent | ⟨hneg, hsent⟩
      · have heq : d'.keys = d.keys := by
          rw [hkeys, Process.keys, hsession, hsent, List.flatMap_append, List.append_nil,
            List.flatMap_singleton, Nlmsg.keys_closeAll]
        exact ⟨heq ▸ List.prefix_rfl, fun _ => heq⟩
      · refine ⟨?_, fun h => absurd h (not_le.mpr hneg)⟩
        rw [hkeys, Process.keys, hsession, hsent, List.append_nil]
        exact List.prefix_append _ _
    simp only [ends_bind, ends_modifySession, ends_ite, ends_pure, ends_session, ends_dsetErr]
    apply (dsetMnlQuery_acked (E := E) (X := fun _ _ => True) (hcmd rfl) _).mono _ fun _ _ h => h
    rintro ret d' ⟨hsent, hcmd', hdata⟩
    have hneg {p : Prop} : (0 : ℤ) ≤ -1 → p := fun h => absurd h (by decide)
    obtain ⟨hwithin, hsame⟩ := hcommitted (d'.mapSession Session.committed) hsent rfl
    have hfails : Flushes d (-1) (d'.mapSession Session.committed) :=
      ⟨hwithin, hneg, hneg, hcmd'⟩
    refine ⟨fun _ => ⟨fun _ => hfails, fun _ => ?_⟩, fun hret => ?_⟩
    · exact ⟨hfails.within, hneg, hneg, hfails.cmd⟩
    · have hret := not_lt.mp hret
      exact ⟨hwithin, fun _ => hsame hret, fun _ => hdata hret, hcmd'⟩

section

variable {t : Str}

theorem Gains.append_left {key : List UInt8} {l l' : List (List UInt8)} (h : Gains key l l')
    (k : List (List UInt8)) : Gains key (k ++ l) (k ++ l') := by
  rcases h with rfl | rfl
  · exact .inl (List.append_assoc _ _ _).symm
  · exact .inr rfl

theorem buildMsg_gains (hcmd : d.session.cmd.isElem = true)
    (ht : d.session.data.getDomain = some t) (aggregate : Bool) {X : ℕ → Process κ → Prop} :
    Ends (buildMsg aggregate) d
      (fun ret d' => (ret ≤ 0 → Gains (domainKey t) d.keys d'.keys) ∧
        (0 < ret → d'.keys = d.keys) ∧
        (0 ≤ ret → d'.session.cmd = d.session.cmd ∧ d'.session.data = d.session.data)) X := by
  have hbuild := Session.buildMsg_keys hcmd ht aggregate
  simp only [buildMsg, ends_bind, ends_session]
  cases hs : d.session.buildMsg aggregate with
  | done s =>
    rw [hs] at hbuild
    exact ⟨fun _ => hbuild.keys.append_left _, fun h => absurd h (by decide),
      fun _ => ⟨hbuild.cmd, hbuild.data⟩⟩
  | full s =>
    rw [hs] at hbuild
    exact ⟨fun h => absurd h (by decide), fun _ => congrArg (_ ++ ·) hbuild.keys,
      fun _ => ⟨hbuild.cmd, hbuild.data⟩⟩
  | invalid s r =>
    rw [hs] at hbuild
    exact ⟨fun _ => .inr (congrArg (_ ++ ·) hbuild), fun h => absurd h (by decide),
      fun h => absurd h (by decide)⟩

/-- An element that does not fit is put into an empty buffer, behind what was sent. -/
theorem buildOrCommit_within (hcmd : d.session.cmd.isElem = true)
    (ht : d.session.data.getDomain = some t) (aggregate : Bool) :
    Ends (buildOrCommit E aggregate) d
      (fun ret d' => d'.keys <+: d.keys ++ [domainKey t] ∧
        (0 ≤ ret → d'.session.cmd = d.session.cmd)) fun _ _ => True := by
  simp only [buildOrCommit, ends_bind, ends_ite, ends_pure]
  apply (buildMsg_gains hcmd ht aggregate (X := fun _ _ => True)).mono _ fun _ _ h => h
  rintro ret d1 ⟨hgains, hfull, hsame⟩
  refine ⟨fun hret => ⟨(hgains hret).within, fun h => (hsame h).1⟩, fun hret => ?_⟩
  have hpos := not_le.mp hret
  obtain ⟨hcmd1, hdata1⟩ := hsame hpos.le
  have helem1 : d1.session.cmd.isElem = true := hcmd1 ▸ hcmd
  apply (dsetCommit_flushes fun _ => helem1).mono _ fun _ _ h => h
  intro ret2 d2 h2
  have hwithin : d2.keys <+: d.keys := hfull hpos ▸ h2.within
  refine ⟨fun hneg => ⟨hwithin.trans (List.prefix_append _ _), fun h => ?_⟩, fun hret2 => ?_⟩
  · exact absurd h (not_le.mpr hneg)
  have hret2 := not_lt.mp hret2
  have hkeys2 : d2.keys = d.keys := (h2.keys hret2).trans (hfull hpos)
  have hcmd2 : d2.session.cmd = d.session.cmd := h2.cmd.trans hcmd1
  have ht2 : d2.session.data.getDomain = some t := by rw [h2.data hret2, hdata1, ht]
  apply (buildMsg_gains (hcmd2 ▸ hcmd) ht2 false (X := fun _ _ => True)).mono _ fun _ _ h => h
  rintro ret3 d3 ⟨hgains3, hfull3, hsame3⟩
  rw [hkeys2] at hgains3 hfull3
  refine ⟨?_, fun h => (hsame3 h).1.trans hcmd2⟩
  rcases le_or_gt ret3 0 with h | h
  · exact (hgains3 h).within
  · rw [hfull3 h]
    exact List.prefix_append _ _

/-- The message of a command about an element, up to the end of the command. -/
theorem executeMsg_within {cmd : Cmd} (hcmd : d.session.cmd.isElem = true)
    (ht : d.session.data.getDomain = some t) (aggregate : Bool) :
    Ends (executeMsg E cmd aggregate) d (fun _ d' => d'.keys <+: d.keys ++ [domainKey t])
      fun _ _ => True := by
  simp only [executeMsg, ends_bind, ends_ite, ends_modifyData, ends_pure, ends_modifySession,
    ends_session]
  apply (buildOrCommit_within hcmd ht aggregate).mono _ fun _ _ h => h
  rintro ret d1 ⟨hwithin, hcmd1⟩
  refine ⟨fun _ => hwithin, fun hret => ⟨fun _ => ?_, fun _ => ?_⟩⟩
  · split
    · trivial
    · exact hwithin
  · have helem : d1.session.cmd.isElem = true := by
      rw [hcmd1 (not_lt.mp hret)]
      exact hcmd
    have hcommit := dsetCommit_flushes (E := E) (d := d1.mapSession fun s =>
      { s with savedType := s.data.getType }) fun _ => helem
    exact hcommit.mono (fun ret2 d2 h2 => h2.within.trans hwithin) fun _ _ h => h

theorem Asked.keys {d' : Process κ} (h : Asked E d d')
    (hbuffer : d'.session.buffer = d.session.buffer) : d'.keys = d.keys := by
  obtain ⟨l, hsent, hquery⟩ := h.sent
  have hnone : l.flatMap (·.1.keys) = [] := by
    rw [List.flatMap_eq_nil_iff]
    intro m hm
    have hq := hquery m hm
    unfold Nlmsg.keys
    cases hs : m.1.cmd <;> rw [hs] at hq <;> first
      | rfl
      | exact absurd hq (by decide)
  unfold Process.keys Session.keys
  rw [hsent, hbuffer, List.flatMap_append, hnone, List.append_nil]

/-- The message under construction, which is sent before a command that is not put behind it. -/
theorem startCmd_within {cmd : Cmd} (hcmd : cmd ≠ .none)
    (hidle : d.session.buffer.isSome = true → d.session.cmd.isElem = true) :
    Ends (startCmd E cmd) d
      (fun r d' => d'.keys <+: d.keys ∧ ∀ aggregate, r = .ok aggregate →
        d'.keys = d.keys ∧ d'.session.data.getDomain = d.session.data.getDomain)
      fun _ _ => True := by
  simp only [startCmd, ends_bind, ends_ite, ends_pure, ends_session]
  apply (openSession_asks hcmd).mono _ fun _ _ h => h
  intro ok d1 h1
  have hbuffer : d1.session.buffer = d.session.buffer := congrArg (·.buffer) h1.steady
  have hkeys := h1.asked.keys hbuffer
  refine ⟨fun _ => ⟨hkeys ▸ List.prefix_rfl, fun _ h => by cases h⟩, fun hok => ?_⟩
  refine ⟨fun hnone => absurd hnone hcmd, fun _ => ?_⟩
  have hok : ok = true := by simpa using hok
  have hdomain : d1.session.data.getDomain = d.session.data.getDomain := by
    rw [← Data.getDomain_forget, (h1.heard hok).data, Data.getDomain_forget]
  refine ⟨fun _ => ⟨hkeys ▸ List.prefix_rfl, fun _ _ => ⟨hkeys, hdomain⟩⟩, fun _ => ?_⟩
  have hidle1 : d1.session.buffer.isSome = true → d1.session.cmd.isElem = true := by
    rw [hbuffer, steady_cmd h1.steady]
    exact hidle
  apply (dsetCommit_flushes hidle1).mono _ fun _ _ h => h
  intro ret d2 h2
  refine ⟨hkeys ▸ h2.within, fun aggregate heq => ?_⟩
  split at heq
  · cases heq
  · rename_i hret
    have hret := not_lt.mp hret
    exact ⟨(h2.keys hret).trans hkeys, by rw [h2.data hret, hdomain]⟩

/-- A command about an element hands over the key of the text in the blob, or a part of what
was to be sent is lost. -/
theorem dsetCmd_within {cmd : Cmd} (hcmd : cmd.isElem = true)
    (hidle : d.session.buffer.isSome = true → d.session.cmd.isElem = true)
    (ht : d.session.data.getDomain = some t) (lineno : ℕ) :
    Ends (dsetCmd E cmd lineno) d (fun _ d' => d'.keys <+: d.keys ++ [domainKey t])
      fun _ _ => True := by
  have hmsg : cmd.isMsg = true ∧ ¬ (cmd = .type ∨ cmd = .header) ∧ cmd ≠ .none ∧
      ¬ (cmd = .list ∨ cmd = .save) := by
    cases cmd <;> first | exact absurd hcmd (by decide) | decide
  obtain ⟨hmsg, hprivate, hnone, hlist⟩ := hmsg
  simp only [dsetCmd, hmsg, Bool.not_true, Bool.false_eq_true, if_false, hprivate, ends_bind]
  apply (startCmd_within hnone hidle).mono _ fun _ _ h => h
  rintro (ret | aggregate) d1 ⟨hwithin, hstart⟩
  · exact hwithin.trans (List.prefix_append _ _)
  · obtain ⟨hkeys, hdomain⟩ := hstart aggregate rfl
    simp only [startOutput, ends_bind, ends_modifySession, ends_session, hlist, false_and, if_false,
      ends_pure]
    let d2 := d1.mapSession fun s =>
      { s with
        cmd := cmd
        lineno := lineno
        mode := { s with cmd := cmd, lineno := lineno }.outputMode cmd }
    have hexec : Ends (executeMsg E cmd aggregate) d2
        (fun _ d' => d'.keys <+: d2.keys ++ [domainKey t])
        fun _ _ => True :=
      executeMsg_within (d := d2) hcmd (hdomain.trans ht) aggregate
    exact hkeys ▸ hexec

end

/-! ### From the command line into the blob -/

/-- The checks behind the arguments change at most the report. -/
theorem checkArgs_complained (cmd : Cmd) (argv : List Str) :
    Ends (checkArgs cmd argv) d (fun _ d' => Complained d d') fun _ _ => True := by
  have hcheck {d : Process κ} {status : Problem} :
      Ends (do let _ ← Prog.customError status) d (fun _ d' => Complained d d')
        fun _ _ => True := by
    simp only [ends_bind, ends_pure]
    exact (customError_complained status).mono (fun _ _ h => h) fun _ _ h => h
  have htrans {d1 d2 : Process κ} (h1 : Complained d d1) (h2 : Complained d1 d2) :
      Complained d d2 :=
    ⟨h2.steady.trans h1.steady, h2.sent.trans h1.sent, h2.stale.trans h1.stale,
      h2.data.trans h1.data, h2.lineno.trans h1.lineno, fun hq => h2.quiet (h1.quiet hq)⟩
  have hmandatory : Ends (checkMandatory cmd) d (fun _ d' => Complained d d') fun _ _ => True := by
    simp only [checkMandatory, ends_bind, ends_session]
    refine ends_ite.mpr ⟨fun _ => Complained.refl d, fun _ => ends_ite.mpr ⟨fun _ => hcheck, fun _ =>
      ends_ite.mpr ⟨fun _ => hcheck, fun _ => Complained.refl d⟩⟩⟩
  have hallowed (d : Process κ) :
      Ends (checkAllowed cmd) d (fun _ d' => Complained d d') fun _ _ => True := by
    simp only [checkAllowed, ends_bind, ends_session]
    exact ends_ite.mpr ⟨fun _ => hcheck, fun _ => Complained.refl d⟩
  unfold checkArgs
  rw [ends_bind]
  apply hmandatory.mono _ fun _ _ h => h
  intro _ d1 h1
  rw [ends_bind]
  apply (hallowed d1).mono _ fun _ _ h => h
  exact fun _ d2 h2 => htrans h1 h2

/-- What a command about an element stores when it is parsed: its second argument, cut to the
buffer it is read from. -/
structure Entered (E : Env κ) (entry : Str) (d d' : Process κ) : Prop where
  domain : d'.session.data.getDomain = some (entry.take 255)
  pending : d'.pending = d.pending
  asked : Asked E d d'

theorem parseAdt_entered (cmd : Cmd) (arg0 arg1 : Str) (argv : List Str) :
    Ends (parseAdt E cmd arg0 arg1 argv) d
      (fun res d' => ∀ l, res = .ok l → l = [] → Entered E arg1 d d') fun _ _ => True := by
  unfold parseAdt
  refine ends_andThen (ends_orStandardError (dsetParseSetname_said (E := E)
    (fun n data => data.forget_setSetname n) arg0 (d := d) rfl)) fun _ d1 h1 => ?_
  have hleaves1 : Leaves E (NoneIgnored cmd argv) d d1 := h1.2.1.weaken
  refine ends_andThen (typeOrError_said adtTypeGet_found hleaves1) fun _ d2 h2 => ?_
  refine ends_andThen (ends_orStandardError (dsetParseElem_said arg1)) fun _ d3 h3 => ?_
  obtain ⟨-, hdata3, hleaves3⟩ := h3
  have htype3 : d3.session.data.getType.isSome = true := by
    rw [hdata3]
    unfold Data.getType
    rw [Data.test_setDomain]
    exact h2.2.2
  refine ends_andThen (callParser_said cmd argv (h2.1.trans hleaves3.weaken) rfl htype3)
    fun l d4 h4 => ?_
  -- the checks may complain, and go on with a user's own error functions
  have hresult : ∀ d5, Complained d4 d5 → l = [] → Entered E arg1 d d5 := by
    intro d5 h5 hnil
    obtain ⟨hstore, hleaves, -⟩ := h4 hnil
    have hgained := storeOpts_gained hstore
    have htest : d4.session.data.forget.test .domain = true := by
      apply hgained.kept
      rw [Data.test_forget _ (by decide), hdata3, Data.test_setDomain]
      rfl
    refine ⟨?_, (congrArg Steady.toPending h5.steady).trans hleaves.pending, hleaves.asked.trans
      (.of_sent h5.sent h5.stale)⟩
    rw [h5.data, ← Data.getDomain_forget, Data.getDomain, if_pos htest, hgained.domain, hdata3]
    rfl
  have hsame : Ends (checkArgs cmd l) d4 (fun res _ => ∀ l', res = .ok l' → l' = l)
      fun _ _ => True := by
    simp only [checkArgs, ends_bind, ends_pure]
    refine (ends_true _).mono (fun _ _ _ => (ends_true _).mono (fun _ _ _ l' h => ?_)
      fun _ _ _ => trivial) fun _ _ _ => trivial
    exact (Except.ok.inj h).symm
  apply (hsame.and (checkArgs_complained cmd l)).mono _ fun _ _ _ => trivial
  rintro res d5 ⟨hl, h5⟩ l' hres hnil
  exact hresult d5 h5 ((hl l' hres).symm.trans hnil)

theorem Cmd.isBinary_of_isElem {c : Cmd} (h : c.isElem = true) : c.isBinary = true := by
  cases c <;> first | rfl | exact absurd h (by decide)

/-- A command line about an element that is parsed. -/
theorem parseLine_entered {loops : Loops κ} {argv : List Str} {c : CmdArgs} {entry : Str}
    (hline : lineArgs argv = some c) (helem : c.cmd.isElem = true) (hentry : c.arg1 = some entry) :
    Ends (parseLine E loops argv) d
      (fun res d' => ∀ cmd, res = .ok cmd → cmd.isElem = true → Entered E entry d d')
      fun _ _ => True := by
  simp only [parseLine, ends_bind, ends_get, ends_modifySession]
  refine ends_andThen (parseEnvopts_opted EnvOpt.all argv) fun rest d1 h1 => ?_
  obtain ⟨rfl, hopted⟩ := h1
  refine ends_andThen (parseCmd_args _) fun c' d2 h2 => ?_
  obtain ⟨rfl, hc⟩ := h2
  refine ends_andThen (P := fun l d' => c'.cmd.isElem = true → l = [] → Entered E entry d2 d') ?_
    fun l d3 h3 => ?_
  · rcases hc with hnone | hc
    · unfold parseStages
      rw [hnone]
      exact ends_error
    · obtain rfl : c' = c := Option.some.inj (hc.symm.trans hline)
      obtain ⟨hbinary, -⟩ := cmdArgs_eq hc
      obtain ⟨cmd, arg0, arg1, rest⟩ := c'
      obtain ⟨a0, rfl⟩ := Option.isSome_iff_exists.mp (hbinary (Cmd.isBinary_of_isElem helem)).1
      cases hentry
      have hparse (cmd : Cmd) : Ends (parseAdt E cmd a0 entry rest) d2
          (fun res d' => ∀ l, res = .ok l → cmd.isElem = true → l = [] → Entered E entry d2 d')
          fun _ _ => True := by
        apply (parseAdt_entered cmd a0 entry rest).mono _ fun _ _ h => h
        exact fun res d' h l hl _ hnil => h l hl hnil
      replace helem : cmd.isElem = true := helem
      cases cmd <;> first
        | exact absurd helem (by decide)
        | exact hparse _
  refine ends_andThen (P := fun _ d' => d' = d3 ∧ l = []) (ends_ite.mpr
    ⟨fun _ => ends_error, fun hnil _ _ => ⟨rfl, not_not.mp hnil⟩⟩) fun _ d4 h4 => ?_
  obtain ⟨rfl, hnil⟩ := h4
  rintro cmd ⟨⟩ hcmd
  obtain ⟨hdomain, hpending, hasked⟩ := h3 hcmd hnil
  exact ⟨hdomain, hpending.trans hopted.pending,
    (Asked.of_sent (d := d) hopted.sent hopted.stale).trans hasked⟩

/-! ### Accepted entries -/

/-- A command line with an entry that is accepted: it is parsed without an error, and one more
key is sent, or waits in the message of a restore. -/
structure Accepted (E : Env κ) (loops : Loops κ) (argv : List Str) (d : Process κ) (entry : Str)
    (key : List UInt8) : Prop where
  string : 0 ∉ entry
  /-- What is collected so far are elements. -/
  idle : d.session.buffer.isSome = true → d.session.cmd.isElem = true
  line : ∃ c, lineArgs argv = some c ∧ c.cmd.isElem = true ∧ c.arg1 = some entry
  sent : ∃ cmd d1 ret d2, cmd.isElem = true ∧ parseLine E loops argv d = .ok (.ok cmd) d1 ∧
    dsetCmd E cmd d1.restoreLine d1 = .ok ret d2 ∧ d2.keys = d.keys ++ [key]

/-- The key of an accepted entry is the image of its first 255 bytes. -/
theorem Accepted.key_eq {loops : Loops κ} {argv : List Str} {entry : Str} {key : List UInt8}
    (h : Accepted E loops argv d entry key) :
    key = zeroPad Hash.dsetMaxDomainLen (entry.take 255) := by
  obtain ⟨c, hline, helem, hentry⟩ := h.line
  obtain ⟨cmd, d1, ret, d2, hcmd, hparse, hexec, hkeys⟩ := h.sent
  have hparsed : Ends (parseLine E loops argv) d
      (fun res d' => ∀ cmd, res = .ok cmd → cmd.isElem = true → Entered E entry d d')
      fun _ _ => True := parseLine_entered hline helem hentry
  have hentered := (ends_of_ok hparse).mp hparsed cmd rfl hcmd
  have hbuffer : d1.session.buffer = d.session.buffer := congrArg (·.buffer) hentered.pending
  have hcmd1 : d1.session.cmd = d.session.cmd := congrArg (·.cmd) hentered.pending
  have hidle : d1.session.buffer.isSome = true → d1.session.cmd.isElem = true := by
    rw [hbuffer, hcmd1]
    exact h.idle
  have hwithin := (ends_of_ok hexec).mp
    (dsetCmd_within (E := E) hcmd hidle hentered.domain d1.restoreLine)
  rw [hentered.asked.keys hbuffer, hkeys, List.prefix_append_right_inj] at hwithin
  have hkey : key = domainKey (entry.take 255) := by
    obtain ⟨l, hl⟩ := hwithin
    exact (List.cons.inj hl).1
  rw [hkey, domainKey]
  apply Hash.nlaStrlcpy_text
  rw [List.length_take]
  show _ < 256
  omega

/-- The first 255 bytes have the image of the whole text only when they are the whole. -/
theorem zeroPad_take_eq {entry : Str} (h0 : 0 ∉ entry) :
    zeroPad Hash.dsetMaxDomainLen (entry.take 255) = zeroPad Hash.dsetMaxDomainLen entry ↔
      entry.length < 256 := by
  constructor
  · intro heq
    by_contra hge
    have hlen : 255 < entry.length := by omega
    have hbyte := congrArg (fun l => l[255]?) heq
    simp only [zeroPad] at hbyte
    rw [List.getElem?_append_right (by rw [List.length_take]; omega),
      List.getElem?_append_left hlen, List.getElem?_eq_getElem hlen, List.length_take,
      min_eq_left hlen.le] at hbyte
    have hzero : entry[255] = 0 := (Option.some.inj hbyte).symm
    exact h0 (hzero ▸ List.getElem_mem hlen)
  · intro hlt
    rw [List.take_of_length_le (by omega)]

section

variable {E' : Env κ} {loops loops' : Loops κ} {argv argv' : List Str} {d' : Process κ}
  {entry entry' : Str} {key key' : List UInt8}

/-- The keys of accepted entries are their images, and those of different entries are different,
if and only if the entries have at most 255 bytes. -/
theorem accepted_entry_key (h : Accepted E loops argv d entry key)
    (h' : Accepted E' loops' argv' d' entry' key') :
    (key = zeroPad Hash.dsetMaxDomainLen entry ∧ key' = zeroPad Hash.dsetMaxDomainLen entry' ∧
        (entry ≠ entry' → key ≠ key')) ↔ entry.length < 256 ∧ entry'.length < 256 := by
  rw [h.key_eq, h'.key_eq, zeroPad_take_eq h.string, zeroPad_take_eq h'.string]
  constructor
  · exact fun hkeys => ⟨hkeys.1, hkeys.2.1⟩
  · rintro ⟨hlen, hlen'⟩
    refine ⟨hlen, hlen', fun hne heq => hne ?_⟩
    rw [List.take_of_length_le (by omega), List.take_of_length_le (by omega)] at heq
    have htext := congrArg cstr heq
    rwa [cstr_zeroPad (n := Hash.dsetMaxDomainLen) h.string hlen,
      cstr_zeroPad (n := Hash.dsetMaxDomainLen) h'.string hlen'] at htext

end

/-! ### A domain of 256 bytes -/

def ackEnv : Env Unit where
  answer _ _ := ([[.error 0 none]], ())
  ext _ := true

def knownProcess : Process Unit :=
  { openedProcess with setlist := [⟨⟨bytes "a", by decide, by decide⟩, dsetHashDomain0⟩] }

def addLine (entry : Str) : List Str := [bytes "add", bytes "a", entry]

def handsOver {κ : Type} (E : Env κ) (loops : Loops κ) (argv : List Str) (d : Process κ)
    (key : List UInt8) : Bool :=
  match parseLine E loops argv d with
  | .ok (.ok cmd) d1 =>
    match dsetCmd E cmd d1.restoreLine d1 with
    | .ok _ d2 => cmd.isElem && decide (d2.keys = d.keys ++ [key])
    | .error _ _ => false
  | _ => false

theorem accepted_of_handsOver {κ : Type} {E : Env κ} {loops : Loops κ} {argv : List Str}
    {d : Process κ} {entry : Str} {key : List UInt8} (h0 : 0 ∉ entry)
    (hidle : d.session.buffer = none)
    (hline : ∃ c, lineArgs argv = some c ∧ c.cmd.isElem = true ∧ c.arg1 = some entry)
    (h : handsOver E loops argv d key = true) : Accepted E loops argv d entry key := by
  refine ⟨h0, fun hbuffer => ?_, hline, ?_⟩
  · rw [hidle] at hbuffer
    exact absurd hbuffer (by decide)
  · unfold handsOver at h
    split at h
    · rename_i cmd d1 hparse
      split at h
      · rename_i ret d2 hexec
        rw [Bool.and_eq_true, decide_eq_true_eq] at h
        exact ⟨cmd, d1, ret, d2, h.1, hparse, hexec, h.2⟩
      · exact absurd h (by decide)
    · exact absurd h (by decide)

theorem accepted_a : Accepted ackEnv (loops ackEnv 0) (addLine [97]) knownProcess [97]
    (zeroPad Hash.dsetMaxDomainLen [97]) :=
  accepted_of_handsOver (by decide) rfl ⟨_, rfl, rfl, rfl⟩ (by decide +kernel)

theorem accepted_b : Accepted ackEnv (loops ackEnv 0) (addLine [98]) knownProcess [98]
    (zeroPad Hash.dsetMaxDomainLen [98]) :=
  accepted_of_handsOver (by decide) rfl ⟨_, rfl, rfl, rfl⟩ (by decide +kernel)

theorem accepted_entry_key_short :
    (zeroPad Hash.dsetMaxDomainLen [97] = zeroPad Hash.dsetMaxDomainLen [97] ∧
        zeroPad Hash.dsetMaxDomainLen [98] = zeroPad Hash.dsetMaxDomainLen [98] ∧
        (([97] : Str) ≠ [98] →
          zeroPad Hash.dsetMaxDomainLen [97] ≠ zeroPad Hash.dsetMaxDomainLen [98])) ↔
      ([97] : Str).length < 256 ∧ ([98] : Str).length < 256 :=
  accepted_entry_key accepted_a accepted_b

def longEntry : Str := List.replicate 256 97

theorem longEntry_line : ∃ c, lineArgs (addLine longEntry) = some c ∧ c.cmd.isElem = true ∧
    c.arg1 = some longEntry := by
  have hline : lineArgs (addLine longEntry) =
      some ⟨.add, some (bytes "a"), some longEntry, []⟩ := by decide +kernel
  exact ⟨_, hline, rfl, rfl⟩

/-- A domain of 256 letters is accepted, and the kernel gets the key of 255 letters. -/
theorem accepted_entry_cut :
    ¬∀ (E : Env Unit) (loops : Loops Unit) (argv : List Str) (d : Process Unit) (entry : Str)
      (key : List UInt8), Accepted E loops argv d entry key →
      key = zeroPad Hash.dsetMaxDomainLen entry := by
  intro h
  have haccepted : Accepted ackEnv (loops ackEnv 0) (addLine longEntry) knownProcess longEntry
      (zeroPad Hash.dsetMaxDomainLen (List.replicate 255 97)) :=
    accepted_of_handsOver (by decide +kernel) rfl longEntry_line (by decide +kernel)
  exact absurd (h _ _ _ _ _ _ haccepted) (by decide +kernel)

end Dset.User
