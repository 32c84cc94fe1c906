import Dset.Core.NamedSetsRun
import Dset.Hash.AdBatch
import Dset.Lib.Memory
import Dset.User.Received

/-! A batch of a restore on its way through the kernel and back. The kernel takes the elements in
order and stops at the first that it refuses, whose line it puts into the message that it quotes;
the library reads it there. The kernel copies the line number as it stands, in network order. -/

namespace Dset.User

open Dset.Lib Dset.Core Dset.Hash

variable {κ : Type} {A : Arch}

/-! ### The request -/

/-- What an element of a message is for `call_ad`: `nla_get_u32` takes the line as the machine
has its numbers, `ntohl` the timeout as it is. -/
def Item.adtAttrs (e : Endian) (i : Item) : AdtAttrs where
  lineno := i.lineno.map e.htonl
  domain := i.domain.map (· ++ [0])
  timeout := i.timeout.map (⟨·, true⟩)
  packets := none
  bytes := none
  comment := none
  skbmark := none
  skbprio := none
  skbqueue := none

theorem Item.adtAttrs_padded (e : Endian) {i : Item} (h : ∀ t ∈ i.domain, 0 ∉ t ∧ t.length ≤ 255) :
    (i.adtAttrs e).Padded := by
  intro payload hpayload
  obtain ⟨t, ht, rfl⟩ := Option.map_eq_some_iff.mp hpayload
  obtain ⟨hzero, hlen⟩ := h t ht
  rw [nlaStrlcpy_text (Nat.lt_succ_of_le hlen)]
  exact zeroPadded_zeroPad hzero (Nat.lt_succ_of_le hlen)

namespace Nlmsg

variable (nlh : Nlmsg)

/-- The attributes in front of the list of elements. -/
def head : List Attr := nlh.attrs.takeWhile Attr.isFlat

def protocol : Option ℕ := nlh.head.findSome? fun | .protocol v => some v | _ => none

def lineno : Option ℕ := nlh.head.findSome? fun | .lineno v => some v | _ => none

/-- The request in a message with elements, each with what it meets in the kernel. -/
def adRequest (e : Endian) (els : List (AdWorld × Item)) : AdRequest where
  attr := ⟨nlh.protocol, nlh.setname.bind SetName.ofStr, none, none, none, none, none⟩
  exist := nlh.exist
  lineno := nlh.lineno.isSome
  data := none
  adt := some (true, parsedElements (els.map fun x => (x.1, x.2.adtAttrs e)))

def quoted (lineno : Option ℕ) : Quoted := ⟨nlh.cmd, nlh.protocol.isSome, lineno⟩

end Nlmsg

/-! ### The answer -/

/-- The numbers of the errors, without their signs. -/
def errnoNumber : Errno → ℕ
  | .enoent => 2
  | .eagain => 11
  | .enomem => 12
  | .efault => 14
  | .ebusy => 16
  | .eexist => 17
  | .einval => 22
  | .erange => 34
  | .emsgsize => 90
  | .dsetErrProtocol => 4097
  | .dsetErrFindType => 4098
  | .dsetErrMaxSets => 4099
  | .dsetErrBusy => 4100
  | .dsetErrExistSetname2 => 4101
  | .dsetErrTypeMismatch => 4102
  | .dsetErrExist => 4103
  | .dsetErrInvalidFamily => 4104
  | .dsetErrTimeout => 4105
  | .dsetErrReferenced => 4106
  | .dsetErrCounter => 4107
  | .dsetErrComment => 4108
  | .dsetErrSkbinfo => 4109
  | .dsetErrHashFull => 4352

def retNumber : Ret → ℕ
  | .ok => 0
  | .err e => errnoNumber e

/-- The answer to a message. `call_ad` copies the message into its own and writes the line over the
one in it; an acknowledgement quotes the message as it is. -/
def Nlmsg.answer (e : Endian) (nlh : Nlmsg) : AdReply → KMsg
  | .ack ret => .error (retNumber ret) (some (nlh.quoted nlh.lineno))
  | .errline ret lineno =>
    .error (retNumber ret) (some (nlh.quoted (nlh.lineno.map fun _ => e.ntohl lineno)))

/-- What a batch sent to a kernel leads to: a value, and what is reported behind it. -/
def Sends (E : Env κ) (d : Process κ) (ret : ℤ) (report : List Report) : Prop :=
  Ends (dsetCommit E) d (fun ret' d' => ret' = ret ∧ d'.session.report = report) fun _ _ => False

section
variable {E : Env κ} {d : Process κ} {nlh : Nlmsg} {errno : ℕ} {q : Quoted}

theorem errnoNumber_ne_zero (x : Errno) : errnoNumber x ≠ 0 := by
  cases x <;> decide

/-- An acknowledged batch is not reported. -/
theorem sends_acked (hE : E.Succeeds) (hstale : d.session.stale = 0)
    (hbuffer : d.session.buffer = some nlh) (hcmd : d.session.cmd = .add ∨ d.session.cmd = .del)
    (hanswer : (E.answer d.kernel (Session.closeAll nlh d.session.nested)).1 =
      [[.error 0 (some q)]]) : Sends E d 0 d.session.report := by
  unfold Sends
  simp only [dsetCommit, ends_bind, ends_session, hbuffer, ends_modifySession, ends_ite, ends_pure]
  apply dsetMnlQuery_answered hE hstale hanswer
  have hack : d.session.Ackable := by
    unfold Session.Ackable
    rcases hcmd with h | h <;> rw [h] <;> trivial
  have hcallback := callbackAcked_acked (E := E) (X := fun _ _ => False)
    (d := d.sendTo E (Session.closeAll nlh d.session.nested)) hack
  apply hcallback.mono _ fun _ _ h => h
  rintro ret d' ⟨rfl, hsession, -⟩
  refine ⟨le_rfl, fun h => absurd h (lt_irrefl _), fun _ => ⟨trivial, ?_⟩⟩
  exact (congrArg Session.report hsession :)

/-- A quoted line is reported with the error. -/
theorem callbackError_reports (hcmd : d.session.cmd = .add ∨ d.session.cmd = .del)
    (herrno : errno ≠ 0) (hquoted : q.cmd = d.session.cmd) (hproto : q.protocol = true) {n : ℕ}
    (hlineno : q.lineno = some n) (hn : n ≠ 0) {X : ℕ → Process κ → Prop} :
    Ends (callbackError E errno (some q)) d (fun ret d' => ret = mnlCbError ∧
      d'.session.report = [.errorInLine n, .kernelError d.session.cmd errno]) X := by
  have htest : ¬(d.session.cmd = .test ∧ errno = dsetErrExist) := by
    rintro ⟨h, -⟩
    rcases hcmd with h' | h' <;> rw [h] at h' <;> cases h'
  have hreport (s : Session) (r : Report) (hs : s.lineno = n) :
      (s.addReport .error r).report = [.errorInLine n, r] := by
    unfold Session.addReport
    dsimp only
    rw [hs, if_pos ⟨hn, rfl⟩]
    rfl
  simp only [callbackError, decodeErrmsg, if_neg herrno, ends_bind, ends_session,
    ends_ite, ends_pure, ends_modifySession, ends_dsetErr]
  refine ⟨fun h => absurd h htest, fun _ => ⟨fun h => absurd hquoted h, fun _ =>
    ⟨fun h => ?_, fun _ => ⟨trivial, hreport _ _ ?_⟩⟩⟩⟩
  · rw [hproto] at h
    cases h
  · show q.lineno.getD d.session.lineno = n
    rw [hlineno]
    rfl

/-- A batch in which an element is refused is reported with the line that the kernel quotes. -/
theorem sends_refused (hE : E.Succeeds) (hstale : d.session.stale = 0)
    (hbuffer : d.session.buffer = some nlh) (hcmd : d.session.cmd = .add ∨ d.session.cmd = .del)
    (hanswer : (E.answer d.kernel (Session.closeAll nlh d.session.nested)).1 =
      [[.error errno (some q)]]) (herrno : errno ≠ 0) (hquoted : q.cmd = d.session.cmd)
    (hproto : q.protocol = true) {n : ℕ} (hlineno : q.lineno = some n) (hn : n ≠ 0) :
    Sends E d (-1) [.errorInLine n, .kernelError d.session.cmd errno] := by
  unfold Sends
  simp only [dsetCommit, ends_bind, ends_session, hbuffer, ends_modifySession, ends_ite, ends_pure]
  apply dsetMnlQuery_answered hE hstale hanswer
  have hcallback := callbackError_reports (E := E) (X := fun _ _ => False)
    (d := d.sendTo E (Session.closeAll nlh d.session.nested)) hcmd herrno hquoted hproto hlineno hn
  apply hcallback.mono _ fun _ _ h => h
  rintro ret d' ⟨rfl, hreport⟩
  have hsame : d'.session.committed.report = [.errorInLine n, .kernelError d.session.cmd errno] :=
    hreport
  refine ⟨by decide, fun _ => ⟨fun _ => ⟨trivial, hsame⟩, fun h => ?_⟩,
    fun h => absurd (by decide) h⟩
  exact absurd (hsame.trans_ne (List.cons_ne_nil _ _)) h

end

/-! ### A batch in the buffer -/

def Cmd.ofAdt : DsetAdt → Cmd
  | .add => .add
  | .del => .del

/-- A batch of a restore is in the buffer: closed it is a message of which these items are read,
each with the line it was on. -/
structure Process.Batched (d : Process κ) (adt : DsetAdt) (name : SetName) (nlh : Nlmsg)
    (items : List Item) : Prop where
  stale : d.session.stale = 0
  holds : ∃ q, d.session.Holds (some q) ∧ q.cmd = .ofAdt adt ∧ q.name = name
  closed : d.session.buffer.map (Session.closeAll · d.session.nested) = some nlh
  protocol : ∀ v ∈ nlh.protocol, dsetProtocolMin ≤ v
  read : nlh.items = some items
  lines : ∀ i ∈ items, ∃ n, i.lineno = some n ∧ n ≠ 0 ∧ n < 2 ^ 32
  texts : ∀ i ∈ items, ∀ t ∈ i.domain, 0 ∉ t ∧ t.length ≤ 255

def kernelElements (e : Endian) (els : List (AdWorld × Item)) : List (AdWorld × AdtAttrs) :=
  els.map fun x => (x.1, x.2.adtAttrs e)

/-- The answer to the message is that of `domain_set_ad`. -/
def Answers {δ : Type} (E : Env κ) (e : Endian) (d : Process κ) (nlh : Nlmsg)
    (r : Except Fault (Option (AdReply × δ))) : Prop :=
  ∀ reply x, r = .ok (some (reply, x)) → (E.answer d.kernel nlh).1 = [[nlh.answer e reply]]

/-- How a batch ends: all elements take effect and nothing is reported, or those before one that is
refused, whose line is reported where that is promised, or before one at which the kernel
crashes. -/
inductive BatchOutcome (promised : AdWorld → Prop) (jhash2 : HashDomainElem → BitVec 32 → BitVec 32)
    (E : Env κ) (e : Endian) (d : Process κ) (adt : DsetAdt) (exist : Bool)
    (inst : DomainSetNet (Hash.DomainSet A)) (s : Core.DomainSet (Hash.DomainSet A)) (i : ℕ)
    (els : List (AdWorld × Item)) :
    Except Fault (Option (AdReply × DomainSetNet (Hash.DomainSet A))) → Prop
  | done (set' : Hash.DomainSet A) (h : CarriesOut adt (kernelElements e els) s.data set')
      (hreport : Sends E d 0 d.session.report) :
      BatchOutcome promised jhash2 E e d adt exist inst s i els
        (.ok (some (.ack .ok, inst.setSlot i (some { s with data := set' }))))
  | refused (k : ℕ) (w : AdWorld) (item : Item) (n : ℕ) (errno : Errno)
      (set₁ set' : Hash.DomainSet A)
      (hbefore : CarriesOut adt ((kernelElements e els).take k) s.data set₁)
      (hat : els[k]? = some (w, item)) (hline : item.lineno = some n)
      (hexist : ¬(errno = .dsetErrExist ∧ exist = true))
      (hages : Ages set₁.extensions w set₁.table.records set'.table.records)
      (hreport : promised w →
        Sends E d (-1) [.errorInLine n, .kernelError (.ofAdt adt) (errnoNumber errno)]) :
      BatchOutcome promised jhash2 E e d adt exist inst s i els
        (.ok (some (adReply exist true w.reply (e.htonl n) (.err errno),
          inst.setSlot i (some { s with data := set' }))))
  | crashed (k : ℕ) (w : AdWorld) (item : Item) (fault : Fault) (set₁ : Hash.DomainSet A)
      (hadt : adt = .add) (hbefore : CarriesOut adt ((kernelElements e els).take k) s.data set₁)
      (hat : els[k]? = some (w, item)) (h : Crashes jhash2 w (item.adtAttrs e) set₁ fault) :
      BatchOutcome promised jhash2 E e d adt exist inst s i els (.error fault)

section

variable {adt : DsetAdt} {name : SetName} {nlh : Nlmsg} {e : Endian} {els : List (AdWorld × Item)}
  {inst : DomainSetNet (Hash.DomainSet A)} {s : Core.DomainSet (Hash.DomainSet A)} {i : ℕ}
  {jhash2 : HashDomainElem → BitVec 32 → BitVec 32} {fuel : ℕ}

theorem ofStr_self (name : SetName) : SetName.ofStr name.text = some name :=
  dif_pos ⟨name.notMem, name.length_lt⟩

/-- The attributes in front of the list of elements. -/
theorem Batch.head {bufsize : ℕ} {cmd : Cmd} {exist : Bool} {ls : List (List Attr)} {msg : Nlmsg}
    {nested : List Nest} (h : Batch bufsize cmd exist name ls msg nested) :
    ∃ v n, (Session.closeAll msg nested).head = [.protocol v, .setname name.text, .lineno n] ∧
      (Session.closeAll msg nested).setname = some name.text := by
  obtain ⟨v, n, hattrs⟩ := h.attrs
  obtain ⟨len, hnested, -⟩ := h.nested
  have hclosed : (Session.closeAll msg nested).attrs =
      [.protocol v, .setname name.text, .lineno n, .adt] ++
        (ls.flatMap itemAttrs ++ [.nestEnd ((msg.len - len) % 2 ^ 16)]) := by
    rw [hnested]
    show msg.attrs ++ [Attr.nestEnd ((msg.len - len) % 2 ^ 16)] = _
    rw [hattrs, List.append_assoc]
  refine ⟨v, n, ?_, ?_⟩
  · unfold Nlmsg.head
    rw [hclosed]
    rfl
  · unfold Nlmsg.setname
    rw [hclosed]
    rfl

/-- What the library knows of the message in its buffer. -/
theorem Process.Batched.message {d : Process κ} {items : List Item}
    (h : d.Batched adt name nlh items) : nlh.cmd = .ofAdt adt ∧ nlh.setname = some name.text ∧
      nlh.protocol.isSome = true ∧ nlh.lineno.isSome = true := by
  obtain ⟨q, ⟨msg, hbuffer, hb, -⟩, hcmd, rfl⟩ := h.holds
  have hclosed := h.closed
  rw [hbuffer] at hclosed
  obtain rfl := Option.some.inj hclosed
  obtain ⟨v, n, hhead, hname⟩ := hb.head
  refine ⟨((closeAll_eq msg _).1.trans hb.cmd).trans hcmd, hname, ?_, ?_⟩
  · unfold Nlmsg.protocol
    rw [hhead]
    rfl
  · unfold Nlmsg.lineno
    rw [hhead]
    rfl

/-- A batch reaches the loop over its elements. -/
theorem domainSetAd_batch {d : Process κ} {items : List Item} (h : d.Batched adt name nlh items)
    (hfind : inst.findSetAndId name = some (s, i)) :
    inst.domainSetAd jhash2 adt (nlh.adRequest e els) fuel =
      adElements jhash2 adt (nlh.adRequest e els).flags true fuel
        (parsedElements (kernelElements e els)) s.data >>= fun r =>
          .ok (r.map fun p => (p.1, inst.setSlot i (some { s with data := p.2 }))) := by
  obtain ⟨-, hname, hproto, hlineno⟩ := h.message
  obtain ⟨v, hv⟩ := Option.isSome_iff_exists.mp hproto
  have hmin : protocolMinFailed (nlh.adRequest e els).attr = false := by
    show (nlh.protocol.all fun v => decide (v < dsetProtocolMin)) = false
    rw [hv, Option.all_some, decide_eq_false (not_lt.mpr (h.protocol v hv))]
  have hset : (nlh.adRequest e els).attr.setname = some name := by
    show nlh.setname.bind SetName.ofStr = _
    rw [hname]
    exact ofStr_self name
  have hwell : (nlh.adRequest e els).malformed = false := by
    unfold AdRequest.malformed
    rw [hmin, hset]
    show (false || !(true && nlh.lineno.isSome)) = false
    rw [hlineno]
    rfl
  unfold DomainSetNet.domainSetAd
  rw [hwell, if_neg Bool.false_ne_true, hset]
  simp only [Option.bind_some, hfind]
  show adElements jhash2 adt _ nlh.lineno.isSome fuel _ s.data >>= _ = _
  rw [hlineno]
  rfl

theorem kernelElements_at {k : ℕ} {w : AdWorld} {tb : AdtAttrs}
    (h : (kernelElements e els)[k]? = some (w, tb)) :
    ∃ item, els[k]? = some (w, item) ∧ tb = item.adtAttrs e := by
  unfold kernelElements at h
  rw [List.getElem?_map, Option.map_eq_some_iff] at h
  obtain ⟨⟨w', item⟩, hat, heq⟩ := h
  obtain ⟨rfl, rfl⟩ := Prod.mk.inj heq
  exact ⟨item, hat, rfl⟩

theorem adReply_sent {exist : Bool} {n : ℕ} {errno : Errno} (hn : n ≠ 0)
    (hexist : ¬(errno = .dsetErrExist ∧ exist = true)) :
    adReply exist true .sent n (.err errno) = .errline (.err errno) n := by
  have hret : ¬(Ret.err errno = .ok ∨ Ret.err errno = .err .dsetErrExist ∧ exist = true) := by
    rintro (h | ⟨h, hflag⟩)
    · cases h
    · exact hexist ⟨Ret.err.inj h, hflag⟩
  unfold adReply callAdReturn
  rw [if_neg hret, decide_eq_true hn, Bool.true_and, if_pos rfl]

/-- A batch of additions to a set or of deletions from it, in any state that the set gets into: all
elements take effect and no error is reported, or those before one that is refused do, and its line
is reported if the kernel can tell it. -/
theorem restore_batch_exact {E : Env κ} {d : Process κ} {l : List Call} {forceadd : Bool}
    (hrun : (setSystem A jhash2 forceadd).Run l s.data)
    (hfind : inst.findSetAndId name = some (s, i)) (hE : E.Succeeds)
    (hbatch : d.Batched adt name nlh (els.map (·.2))) (hfuel : 32 ≤ fuel)
    (hanswers : Answers E e d nlh (inst.domainSetAd jhash2 adt (nlh.adRequest e els) fuel)) :
    BatchOutcome (fun w => w.reply = .sent) jhash2 E e d adt nlh.exist inst s i els
      (inst.domainSetAd jhash2 adt (nlh.adRequest e els) fuel) := by
  obtain ⟨hcmd, -, hproto, hhead⟩ := hbatch.message
  obtain ⟨q, ⟨msg, hbuffer, -, -, hsession, -, hadt⟩, hq, -⟩ := hbatch.holds
  rw [← hsession] at hadt
  have htexts : ∀ x ∈ kernelElements e els, x.2.Padded := by
    intro x hx
    obtain ⟨y, hy, rfl⟩ := List.mem_map.mp hx
    exact y.2.adtAttrs_padded e (hbatch.texts y.2 (List.mem_map_of_mem hy))
  have hends := adElements_ends adt (nlh.adRequest e els).flags
    (run_good hrun).1 (run_bits hrun) htexts true hfuel
  rw [domainSetAd_batch hbatch hfind] at hanswers ⊢
  generalize adElements jhash2 adt (nlh.adRequest e els).flags true fuel
    (parsedElements (kernelElements e els)) s.data = r at hends hanswers ⊢
  have hclosed := hbatch.closed
  rw [hbuffer] at hclosed
  obtain rfl := Option.some.inj hclosed
  cases hends with
  | done set' h =>
    exact .done set' h (sends_acked hE hbatch.stale hbuffer hadt (hanswers _ _ rfl))
  | refused k w tb errno set₁ set' hbefore hat hexist hages =>
    obtain ⟨item, hitem, rfl⟩ := kernelElements_at hat
    obtain ⟨n, hline, hn, hlt⟩ := hbatch.lines item
      (List.mem_map_of_mem (List.mem_of_getElem? hitem))
    have hlineno : (item.adtAttrs e).lineno.getD 0 = e.htonl n := by
      show (item.lineno.map e.htonl).getD 0 = _
      rw [hline]
      rfl
    rw [hlineno] at hanswers ⊢
    refine .refused k w item n errno set₁ set' hbefore hitem hline hexist hages fun hsent => ?_
    have hanswer := hanswers _ _ rfl
    rw [hsent, adReply_sent (e.htonl_ne_zero hlt hn) hexist] at hanswer
    rw [← hq, ← hsession]
    refine sends_refused hE hbatch.stale hbuffer hadt hanswer (errnoNumber_ne_zero errno)
      (hcmd.trans (hsession.trans hq).symm) hproto ?_ hn
    -- the line over that of the first element
    obtain ⟨n₀, hn₀⟩ := Option.isSome_iff_exists.mp hhead
    show Option.map (fun _ => e.ntohl (e.htonl n)) _ = some n
    rw [hn₀, Option.map_some, e.ntohl_htonl hlt]
  | crashed k w tb fault set₁ hadd hbefore hat h =>
    obtain ⟨item, hitem, rfl⟩ := kernelElements_at hat
    exact .crashed k w item fault set₁ hadd hbefore hitem h

/-! ### The same domain twice -/

def replyOf {δ : Type} : Except Fault (Option (AdReply × δ)) → Option AdReply
  | .ok (some (reply, _)) => some reply
  | _ => none

/-- A kernel in which the set is new. -/
def newSetEnv (els : List (AdWorld × Item)) : Env Unit where
  answer _ nlh :=
    ((replyOf (smallNet.inst.domainSetAd firstByte .add (nlh.adRequest .little els) 32)).toList.map
      fun reply => [nlh.answer .little reply], ())
  ext _ := true

theorem newSetEnv_answers (els : List (AdWorld × Item)) (d : Process Unit) (nlh : Nlmsg) :
    Answers (newSetEnv els) .little d nlh
      (smallNet.inst.domainSetAd firstByte .add (nlh.adRequest .little els) 32) := by
  intro reply x h
  unfold newSetEnv
  dsimp only
  rw [h]
  rfl

def lineAttrs (n : ℕ) : List Attr := [.domain [120], .lineno n]

def twicePacket : Packet := ⟨.add, false, smallName, [lineAttrs 1, lineAttrs 2]⟩

def twiceBuffer : Nlmsg :=
  ⟨.add, false, 88, [.protocol dsetProtocol, .setname smallName.text, .lineno 1, .adt] ++
    twicePacket.elems.flatMap itemAttrs⟩

/-- The lines `add a x` and `add a x` were read. -/
def twiceRead : Process Unit :=
  asked.mapSession fun s => { s with
    cmd := .add
    savedSetname := smallName
    nested := [⟨3, 44⟩]
    buffer := some twiceBuffer }

def twiceClosed : Nlmsg := Session.closeAll twiceBuffer [⟨3, 44⟩]

def twiceItem (n : ℕ) : Item :=
  ⟨.add, some smallName.text, none, some [120], none, none, none, some n⟩

/-- Nothing fails but perhaps the message that reports the line. -/
def twiceWorld (reply : LineReply) : AdWorld :=
  ⟨fun _ => 0, fun _ => noFailure, ⟨fun _ => true, fun _ _ => true⟩, true, reply⟩

def twiceElements (reply : LineReply) : List (AdWorld × Item) :=
  [(twiceWorld .sent, twiceItem 1), (twiceWorld reply, twiceItem 2)]

theorem twiceRead_batched (reply : LineReply) :
    twiceRead.Batched .add smallName twiceClosed ((twiceElements reply).map (·.2)) where
  stale := rfl
  holds := by
    have hbatch : Batch 4096 .add false smallName twicePacket.elems twiceBuffer [⟨3, 44⟩] :=
      ⟨rfl, rfl, ⟨_, _, rfl⟩, by unfold SmallItem; decide, ⟨44, rfl, by decide⟩, by decide⟩
    exact ⟨twicePacket, ⟨twiceBuffer, rfl, hbatch, by decide, rfl, rfl, .inl rfl⟩, rfl, rfl⟩
  closed := rfl
  protocol := by decide
  read := by
    show _ = some [twiceItem 1, twiceItem 2]
    decide
  lines := by
    intro i hi
    rcases List.mem_pair.mp hi with rfl | rfl
    · exact ⟨1, rfl, by decide, by decide⟩
    · exact ⟨2, rfl, by decide, by decide⟩
  texts := by
    intro i hi t ht
    rcases List.mem_pair.mp hi with rfl | rfl
    all_goals
      obtain rfl := Option.some.inj ht
      decide

theorem twice_reply (reply : LineReply) :
    replyOf (smallNet.inst.domainSetAd firstByte .add
      (twiceClosed.adRequest .little (twiceElements reply)) 32) =
        some (adReply false true reply (Endian.little.htonl 2) (.err .dsetErrExist)) := by
  cases reply <;> decide +kernel

/-- The second of the lines is refused, not the first, if that has not been told. -/
theorem twice_refused {promised : AdWorld → Prop} {E : Env Unit} {reply : LineReply}
    {s : Core.DomainSet (Hash.DomainSet x64)} {inst : DomainSetNet (Hash.DomainSet x64)} {i : ℕ}
    {r : Except Fault (Option (AdReply × DomainSetNet (Hash.DomainSet x64)))} {told : AdReply}
    (h : BatchOutcome promised firstByte E .little twiceRead .add false inst s i
      (twiceElements reply) r)
    (htold : replyOf r = some told) (hne : told ≠ .ack .ok)
    (hfirst : ∀ ret, told ≠ .errline ret (Endian.little.htonl 1)) :
    ∃ errno, told = adReply false true reply (Endian.little.htonl 2) (.err errno) ∧
      (promised (twiceWorld reply) →
        Sends E twiceRead (-1) [.errorInLine 2, .kernelError .add (errnoNumber errno)]) := by
  cases h with
  | done set' h => exact absurd (Option.some.inj htold).symm hne
  | refused k w item n errno set₁ set' hbefore hat hline hexist hages hreport =>
    obtain rfl | rfl : k = 0 ∨ k = 1 := by
      have hlt : k < 2 := (List.getElem?_eq_some_iff.mp hat).1
      omega
    · obtain ⟨rfl, rfl⟩ := Prod.mk.inj (Option.some.inj hat)
      obtain rfl := Option.some.inj hline
      refine absurd (Option.some.inj htold).symm ?_
      rw [show (twiceWorld .sent).reply = .sent from rfl,
        adReply_sent (by decide) (fun h => Bool.false_ne_true h.2)]
      exact hfirst _
    · obtain ⟨rfl, rfl⟩ := Prod.mk.inj (Option.some.inj hat)
      obtain rfl := Option.some.inj hline
      exact ⟨errno, (Option.some.inj htold).symm, hreport⟩
  | crashed => cases htold

theorem smallNet_slot : ∃ s, smallNet.inst.findSetAndId smallName = some (s, 0) ∧
    (setSystem x64 firstByte false).Run [] s.data :=
  ⟨_, rfl, .start (smallSet_init firstByte 2 0 rfl)⟩

/-- A domain is added twice: the second line is reported. -/
theorem restore_batch_twice : Sends (newSetEnv (twiceElements .sent)) twiceRead (-1)
    [.errorInLine 2, .kernelError .add (errnoNumber .dsetErrExist)] := by
  obtain ⟨s, hfind, hrun⟩ := smallNet_slot
  have hend := restore_batch_exact hrun hfind (fun _ => rfl) (twiceRead_batched .sent) (le_refl 32)
    (newSetEnv_answers (twiceElements .sent) twiceRead twiceClosed)
  obtain ⟨errno, htold, h⟩ := twice_refused hend (twice_reply .sent) (by decide)
    fun _ h => absurd (AdReply.errline.inj h).2 (by decide)
  have hsent (errno : Errno) : adReply false true .sent (Endian.little.htonl 2) (.err errno) =
      .errline (.err errno) (Endian.little.htonl 2) :=
    adReply_sent (by decide) fun h => Bool.false_ne_true h.2
  rw [hsent, hsent] at htold
  obtain rfl := Ret.err.inj (AdReply.errline.inj htold).1
  exact h rfl

/-- Every batch of a restore ends in this way, whether or not the kernel can tell the line. -/
def ReportsLines (A : Arch) (κ : Type) : Prop :=
  ∀ (jhash2 : HashDomainElem → BitVec 32 → BitVec 32) (forceadd : Bool) (l : List Call)
    (inst : DomainSetNet (Hash.DomainSet A)) (s : Core.DomainSet (Hash.DomainSet A)) (i : ℕ)
    (adt : DsetAdt) (name : SetName) (nlh : Nlmsg) (e : Endian) (els : List (AdWorld × Item))
    (E : Env κ) (d : Process κ) (fuel : ℕ),
    (setSystem A jhash2 forceadd).Run l s.data → inst.findSetAndId name = some (s, i) →
    E.Succeeds → d.Batched adt name nlh (els.map (·.2)) → 32 ≤ fuel →
    Answers E e d nlh (inst.domainSetAd jhash2 adt (nlh.adRequest e els) fuel) →
    BatchOutcome (fun _ => True) jhash2 E e d adt nlh.exist inst s i els
      (inst.domainSetAd jhash2 adt (nlh.adRequest e els) fuel)

/-- Without memory for the message with the second line the first is reported, and no memory. -/
theorem restore_batch_untold : ¬ReportsLines x64 Unit := by
  intro hall
  obtain ⟨s, hfind, hrun⟩ := smallNet_slot
  have hanswers := newSetEnv_answers (twiceElements .noMemory) twiceRead twiceClosed
  have hend := hall _ _ _ _ s 0 .add smallName twiceClosed .little (twiceElements .noMemory) _
    twiceRead 32 hrun hfind (fun _ => rfl) (twiceRead_batched .noMemory) (le_refl 32) hanswers
  obtain ⟨errno, -, hsecond⟩ := twice_refused hend (twice_reply .noMemory) (by decide) nofun
  have hanswer : ((newSetEnv (twiceElements .noMemory)).answer () twiceClosed).1 =
      [[.error 12 (some (twiceClosed.quoted twiceClosed.lineno))]] := by
    unfold newSetEnv
    dsimp only
    rw [twice_reply .noMemory]
    rfl
  have hfirst : Sends (newSetEnv (twiceElements .noMemory)) twiceRead (-1)
      [.errorInLine 1, .kernelError .add 12] :=
    sends_refused (fun _ => rfl) rfl rfl (.inl rfl) hanswer (by decide) rfl rfl rfl (by decide)
  have hboth := (hsecond trivial).and hfirst
  refine (hboth.mono (fun ret d' h => ?_) fun _ _ h => h.1).elim
  exact absurd (h.1.2.symm.trans h.2.2) (by simp)

end

end Dset.User
