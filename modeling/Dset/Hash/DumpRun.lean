import Dset.Core.Names
import Dset.Hash.DumpStage

/-! Dumps of a namespace of hash sets. Between the steps of a session sets are created, destroyed,
renamed and swapped, and any calls on sets come. A set that keeps its slot is listed with one
header, and each of its domains that stays alive in one message. -/

namespace Dset.Hash

open Dset.Lib List

variable {A : Arch}

/-! ### A dump -/

/-- A namespace with its clock, whether the table that a session keeps is one the set no longer
has, and the messages of the session, each with the set it is about. -/
structure Dump (A : Arch) where
  now : ℕ
  net : Core.Net (DomainSet A) (Htable A)
  replaced : Bool
  sent : List (ℕ × Core.Skb)

inductive DumpMove (A : Arch) where
  | create (attr : Core.CmdAttrs) (exist : Bool) (o : Core.CreateOutcomes (DomainSet A))
  | destroy (attr : Core.CmdAttrs) (setname : Core.SetName)
  | rename (attr : Core.CmdAttrs)
  | swap (attr : Core.CmdAttrs)
  /-- A call on the set in slot `i`. -/
  | op (i : ℕ) (c : Call)
  | call
  | scan
  | list (c : DumpCall)
  | release

/-- The key is added to the set in slot `i`. -/
def DumpMove.Adds (i : ℕ) (e : HashDomainElem) : DumpMove A → Prop
  | .op k c => k = i ∧ c.adds e
  | _ => False

namespace Dump

variable (s : Dump A)

/-- A step of the namespace. -/
def Moves (m : Core.Move (DomainSet A) (Htable A)) (s' : Dump A) : Prop :=
  ∃ net events, s.net.step mtypeVariant m = some (.ok (net, events)) ∧
    s' = { s with net := net, sent := s.sent ++ events.filterMap message? }

/-- Behind a call on the set in slot `i`. The table that session `j` keeps changes with the set,
unless it has been replaced. -/
def called (j i id : ℕ) (c : Call) (data : DomainSet A) : Dump A :=
  { s with
    now := c.now
    net := s.net.changeData i (fun _ => data)
      fun t => if s.replaced || c.resized then t else data.table
    replaced := s.replaced || c.resized && s.net.startedBy j == some id }

/-- The next message of session `j` is the first of a set. -/
def begins (j : ℕ) : Bool := s.net.sessions[j]?.all fun p => p.cb.arg0 == 0

def messages (n : ℕ) : List (List Core.Attr) := about n s.sent

end Dump

/-- Dump session `j` of a namespace that anything has led to, from its request on. -/
def dumpSystem (A : Arch) (jhash2 : HashDomainElem → BitVec 32 → BitVec 32) (start j : ℕ) :
    System (Dump A) (DumpMove A) where
  init s := (∃ l net req, (Core.netSystem mtypeVariant).Run l net ∧ net.sessions.length = j ∧
      net.inst.isDestroyed = false ∧ listsElements req ∧
      s.net = { net with sessions := net.sessions ++ [.init req] }) ∧
    (∀ i set, s.net.inst.domainSet i = some set → set.data.forceadd = false →
      Reached jhash2 start s.now set.data) ∧
    s.now ≤ start + 2 ^ (A.longBits - 1) ∧ s.replaced = false ∧ s.sent = []
  step s m s' := match m with
    | .create attr exist o => s.Moves (.create attr exist o) s'
    | .destroy attr setname => s.Moves (.destroy attr setname) s'
    | .rename attr => s.Moves (.rename attr) s'
    | .swap attr => s.Moves (.swap attr) s'
    | .op i c => ∃ set data, s.net.inst.domainSet i = some set ∧
        (clockedSystem A jhash2 start).step (s.now, set.data) c (c.now, data) ∧
        s' = s.called j i set.id c data
    | .call => s.Moves (.session j .call) s'
    | .scan => s.Moves (.session j .scan) s'
    | .list c => c.Timely s.now ∧ c.last ≤ start + 2 ^ (A.longBits - 1) ∧ ∃ s1,
        s.Moves (.session j (.list (c.listCall A).fns ⟨c.cap, c.pad64, 0, []⟩)) s1 ∧
        s' = { s1 with now := c.last, replaced := s.replaced && !s.begins j }
    | .release => s.Moves (.session j .release) s'

/-- The set `n` is in slot `i`, a set without `forceadd` that session `j` is asked for. -/
def Dump.Lists (j i n : ℕ) (s : Dump A) : Prop :=
  ∃ set, s.net.inst.domainSet i = some set ∧ set.id = n ∧ set.type.dumpLast = false ∧
    set.data.forceadd = false ∧ ∀ p, s.net.sessions[j]? = some p → p.cb.dump = none →
      ∀ name, p.req.setname = some name → set.name = name

/-- The set in slot `i` has the key alive. -/
def Dump.Live (i start : ℕ) (e : HashDomainElem) (d : Deadline) (s : Dump A) : Prop :=
  ∃ set, s.net.inst.domainSet i = some set ∧ set.data.Live start s.now e d

def Dump.Ended (j : ℕ) (s : Dump A) : Prop :=
  ∃ p, s.net.sessions[j]? = some p ∧ p.phase = .ended none

/-! ### The steps of a dump -/

section
variable {i n j : ℕ} {p : Core.Session (Htable A)} {set : Core.DomainSet (DomainSet A)}
  {jhash2 : HashDomainElem → BitVec 32 → BitVec 32} {start : ℕ} {P : Lister A → Prop}
  {c : DumpCall} {s s' : Dump A} {m : DumpMove A}

/-- What holds of a dump while the set `n` keeps slot `i`. -/
structure Tracks (jhash2 : HashDomainElem → BitVec 32 → BitVec 32) (start : ℕ) (P : Lister A → Prop)
    (j i n : ℕ) (s : Dump A) : Prop where
  reach : ∃ l, (Core.netSystem mtypeVariant).Run l s.net
  isDestroyed : s.net.inst.isDestroyed = false
  lists : s.Lists j i n
  stage : ∃ p set, s.net.sessions[j]? = some p ∧ s.net.inst.domainSet i = some set ∧
    Reached jhash2 start s.now set.data ∧
    Stage (Listed jhash2 start P) i n s.now set.data s.replaced (s.messages n) p

theorem Tracks.atSlot (h : Tracks jhash2 start P j i n s) (hp : s.net.sessions[j]? = some p)
    (hset : s.net.inst.domainSet i = some set) : AtSlot i n s.net.inst set p := by
  obtain ⟨l, hrun⟩ := h.reach
  obtain ⟨set', hset', hid, hlast, -⟩ := h.lists
  obtain rfl := Option.some.inj (hset.symm.trans hset')
  have hb := (Core.netSystem_balanced hrun).1
  exact ⟨hset, hid, hlast, hb.identified, hb.sound p (mem_of_getElem? hp), h.isDestroyed,
    (Core.netSystem_referenced hrun).max_lt⟩

/-- A step keeps that, and does not more to the set than a call. -/
structure Advances (jhash2 : HashDomainElem → BitVec 32 → BitVec 32) (start : ℕ)
    (P : Lister A → Prop) (j i n : ℕ) (s : Dump A) (m : DumpMove A) (s' : Dump A) : Prop where
  tracks : Tracks jhash2 start P j i n s'
  evolves : ∃ set set', s.net.inst.domainSet i = some set ∧
    s'.net.inst.domainSet i = some set' ∧
    Evolves jhash2 start (m.Adds i) s.now set.data s'.now set'.data

theorem Tracks.advance (h : Tracks jhash2 start P j i n s)
    (hreach : ∃ l, (Core.netSystem mtypeVariant).Run l s'.net)
    (hdestroyed : s'.net.inst.isDestroyed = false) (hl' : s'.Lists j i n)
    {p' : Core.Session (Htable A)} (hp' : s'.net.sessions[j]? = some p')
    (hset : s.net.inst.domainSet i = some set) {set' : Core.DomainSet (DomainSet A)}
    (hset' : s'.net.inst.domainSet i = some set')
    (hm : Evolves jhash2 start (m.Adds i) s.now set.data s'.now set'.data)
    (hstage : Stage (Listed jhash2 start P) i n s'.now set'.data s'.replaced (s'.messages n) p') :
    Advances jhash2 start P j i n s m s' := by
  obtain ⟨p, set1, hp, hset1, hreached, -⟩ := h.stage
  obtain rfl := Option.some.inj (hset.symm.trans hset1)
  exact ⟨⟨hreach, hdestroyed, hl', p', set', hp', hset', hreached.evolves hm, hstage⟩,
    set, set', hset, hset', hm⟩

/-- A step of the namespace is one of its runs. -/
theorem reached_step {net net' : Core.Net (DomainSet A) (Htable A)}
    (h : ∃ l, (Core.netSystem mtypeVariant).Run l net) {m : Core.Move (DomainSet A) (Htable A)}
    {events : List Core.DumpEvent}
    (hstep : net.step mtypeVariant m = some (.ok (net', events))) :
    ∃ l, (Core.netSystem mtypeVariant).Run l net' := by
  obtain ⟨l, hrun⟩ := h
  exact ⟨_, hrun.snoc (show (Core.netSystem mtypeVariant).step net ⟨m, events⟩ net' from hstep)⟩

theorem Tracks.command (h : Tracks jhash2 start P j i n s)
    {move : Core.Move (DomainSet A) (Htable A)} {ret : Ret}
    {inst' : Core.DomainSetNet (DomainSet A)} (hresult : Core.CommandResult s.net.inst ret inst')
    (hm : s.net.step mtypeVariant move = s.net.locked { s.net with inst := inst' })
    (hmoves : s.Moves move s') (hl' : s'.Lists j i n) : Advances jhash2 start P j i n s m s' := by
  obtain ⟨net, events, hstep, rfl⟩ := hmoves
  obtain ⟨p, set, hp, hset, hreached, hstage⟩ := h.stage
  have hreach' := reached_step h.reach hstep
  rw [hm] at hstep
  obtain rfl := Core.Net.locked_events hstep
  obtain ⟨-, rfl⟩ := Core.Net.locked_ok hstep
  obtain ⟨set', hset', hid', -⟩ := id hl'
  have hs := h.atSlot hp hset
  have hdata : set'.data = set.data :=
    hresult.data_eq hs.identified hset hset' (hid'.trans hs.id.symm)
  refine h.advance hreach' (hresult.isDestroyed_eq.trans h.isDestroyed) hl' hp hset hset'
    (.same le_rfl hdata) ?_
  rw [hdata]
  unfold Dump.messages at hstage ⊢
  rwa [filterMap_nil, append_nil]

theorem Tracks.op (h : Tracks jhash2 start P j i n s) {k : ℕ} {c : Call}
    {t : Core.DomainSet (DomainSet A)} {data : DomainSet A}
    (ht : s.net.inst.domainSet k = some t)
    (hstep : (clockedSystem A jhash2 start).step (s.now, t.data) c (c.now, data))
    (hl' : (s.called j k t.id c data).Lists j i n)
    (hP : ∀ set, (s.called j k t.id c data).net.inst.domainSet i = some set →
      Admits jhash2 start P c.now set.data) :
    Advances jhash2 start P j i n s (.op k c) (s.called j k t.id c data) := by
  obtain ⟨p, set, hp, hset, hreached, hstage⟩ := h.stage
  have hs := h.atSlot hp hset
  have hreach' := reached_step h.reach (m := .data k (fun _ => data) fun tb =>
    if s.replaced || c.resized then tb else data.table) rfl
  have hnet : (s.called j k t.id c data).net = { s.net with
      inst := s.net.inst.setSlot k (some { t with data := data })
      sessions := s.net.sessions.map (Core.Session.changePriv t.id
        fun tb => if s.replaced || c.resized then tb else data.table) } := by
    unfold Dump.called Core.Net.changeData
    dsimp only
    rw [ht]
  have hslot := Core.DomainSetNet.domainSet_setSlot (Core.DomainSetNet.domainSet_lt ht)
    (some { t with data := data }) i
  have hstarted : s.net.startedBy j = p.started := by
    unfold Core.Net.startedBy
    rw [hp]
    rfl
  have hp' : (s.called j k t.id c data).net.sessions[j]? =
      some (p.changePriv t.id fun tb => if s.replaced || c.resized then tb else data.table) := by
    rw [hnet, getElem?_map, hp]
    rfl
  have hisDestroyed : (s.called j k t.id c data).net.inst.isDestroyed = false := by
    rw [hnet]
    exact h.isDestroyed
  by_cases hk : i = k
  · subst hk
    obtain rfl := Option.some.inj (ht.symm.trans hset)
    have hset' :
        (s.called j i t.id c data).net.inst.domainSet i = some { t with data := data } := by
      rw [hnet, hslot, if_pos rfl]
    refine h.advance hreach' hisDestroyed hl' hp' hset hset'
      (.call c hstep le_rfl fun e hadd => ⟨rfl, hadd⟩) ?_
    have hstage' := hstage.op hstep (hP _ hset')
    rw [← hs.id, ← hstarted] at hstage'
    rw [← hs.id]
    exact hstage'
  · have hset' : (s.called j k t.id c data).net.inst.domainSet i = some set := by
      rw [hnet, hslot, if_neg hk]
      exact hset
    have hid : t.id ≠ n := fun hid => hk (hs.eq_of_id ht hid).symm
    refine h.advance hreach' hisDestroyed hl' hp' hset hset' (.same hstep.1 rfl) ?_
    have hstage' := hstage.opOther hid hstep.1 c.resized
      fun tb => if s.replaced || c.resized then tb else data.table
    rw [← hstarted] at hstage'
    exact hstage'

/-- The set that a session is asked for by its name is found in slot `i`. -/
theorem Tracks.asked (h : Tracks jhash2 start P j i n s) (hp : s.net.sessions[j]? = some p)
    (hset : s.net.inst.domainSet i = some set) (hdump : p.cb.dump = none) :
    ∀ name, p.req.setname = some name → s.net.inst.findSetAndId name = some (set, i) := by
  intro name hname
  obtain ⟨l, hrun⟩ := h.reach
  obtain ⟨set', hset', -, -, -, hasked⟩ := h.lists
  obtain rfl := Option.some.inj (hset.symm.trans hset')
  rw [← hasked p hp hdump name hname]
  exact (Core.netSystem_named hrun).2.findSetAndId hset

/-- A step of session `j`. -/
theorem Tracks.session (h : Tracks jhash2 start P j i n s)
    {move : Core.SessionMove (DomainSet A) (Htable A)} (hmoves : s.Moves (.session j move) s') :
    ∃ p inst' p' events, s.net.sessions[j]? = some p ∧
      Core.sessionStep mtypeVariant s.net.inst p move = some (.ok (inst', p', events)) ∧
      s'.net.inst = inst' ∧ s'.net.sessions[j]? = some p' ∧ s'.now = s.now ∧
      s'.replaced = s.replaced ∧
      s'.messages n = s.messages n ++ about n (events.filterMap message?) ∧
      inst'.isDestroyed = false ∧ ∃ l, (Core.netSystem mtypeVariant).Run l s'.net := by
  obtain ⟨net, events, hstep, rfl⟩ := hmoves
  obtain ⟨l, hrun⟩ := h.reach
  have hreach' := reached_step h.reach hstep
  obtain ⟨p, inst', p', hp, hsession, rfl⟩ := Core.Net.session_ok hstep
  obtain ⟨inst1, p1, events1, heq, hresult⟩ :=
    (Core.netSystem_balanced hrun).1.sessionStep hp hsession
  cases heq
  refine ⟨p, inst', p', events, hp, hsession, rfl, ?_, rfl, rfl, about_append _ _,
    hresult.sets.isDestroyed.trans h.isDestroyed, hreach'⟩
  have hlt : j < s.net.sessions.length := (List.getElem?_eq_some_iff.mp hp).1
  exact getElem?_set_self hlt

/-- A step of session `j` that leaves the clock and the data of the sets alone. -/
theorem Tracks.quiet (h : Tracks jhash2 start P j i n s)
    {move : Core.SessionMove (DomainSet A) (Htable A)} (hmoves : s.Moves (.session j move) s')
    (hl' : s'.Lists j i n)
    (hdata : ∀ p inst' p' events,
      Core.sessionStep mtypeVariant s.net.inst p move = some (.ok (inst', p', events)) →
      ∀ set', inst'.domainSet i = some set' →
        ∃ set, s.net.inst.domainSet i = some set ∧ set'.data = set.data)
    (hstage : ∀ p set inst' p' events, s.net.sessions[j]? = some p →
      s.net.inst.domainSet i = some set →
      Core.sessionStep mtypeVariant s.net.inst p move = some (.ok (inst', p', events)) →
      Stage (Listed jhash2 start P) i n s.now set.data s.replaced (s.messages n) p →
      Stage (Listed jhash2 start P) i n s.now set.data s.replaced
        (s.messages n ++ about n (events.filterMap message?)) p') :
    Advances jhash2 start P j i n s m s' := by
  obtain ⟨p, set, hp, hset, hreached, hstage0⟩ := h.stage
  obtain ⟨p1, inst', p', events, hp1, hsession, hinst, hp', hnow, hreplaced, hmessages, hdestroyed,
    hreach⟩ := h.session hmoves
  obtain rfl := Option.some.inj (hp.symm.trans hp1)
  obtain ⟨set', hset', -⟩ := id hl'
  rw [hinst] at hset'
  obtain ⟨set1, hset1, heq⟩ := hdata p inst' p' events hsession set' hset'
  obtain rfl := Option.some.inj (hset.symm.trans hset1)
  refine h.advance hreach (by rw [hinst, hdestroyed]) hl' hp' hset (by rw [hinst, hset'])
    (.same hnow.ge heq) ?_
  rw [hnow, hreplaced, hmessages, heq]
  exact hstage p set inst' p' events hp hset hsession hstage0

theorem Tracks.call (h : Tracks jhash2 start P j i n s) (hmoves : s.Moves (.session j .call) s')
    (hl' : s'.Lists j i n) : Advances jhash2 start P j i n s m s' := by
  refine h.quiet hmoves hl' ?_ ?_
  · intro p inst' p' events hsession set' hset'
    simp only [Core.sessionStep] at hsession
    split at hsession <;> cases hsession
    exact ⟨set', hset', rfl⟩
  · intro p set inst' p' events hp hset hsession hstage
    simp only [Core.sessionStep] at hsession
    split at hsession <;> cases hsession
    rename_i hphase
    rw [show about n (filterMap message? []) = [] from rfl, append_nil]
    exact hstage.call (h.atSlot hp hset) hphase (h.asked hp hset)

theorem Tracks.scan (h : Tracks jhash2 start P j i n s) (hmoves : s.Moves (.session j .scan) s')
    (hl' : s'.Lists j i n) : Advances jhash2 start P j i n s m s' := by
  refine h.quiet hmoves hl' ?_ ?_
  · intro p inst' p' events hsession set' hset'
    simp only [Core.sessionStep] at hsession
    split at hsession
    · have hscan : _ = inst' := congrArg Prod.fst (Except.ok.inj (Option.some.inj hsession))
      exact dumpScan_data (hscan ▸ hset')
    · cases hsession
  · intro p set inst' p' events hp hset hsession hstage
    simp only [Core.sessionStep] at hsession
    split at hsession
    · rename_i hphase
      have hscan := Except.ok.inj (Option.some.inj hsession)
      obtain ⟨hstage', hmessages⟩ := hstage.scan (h.atSlot hp hset) hphase
      rw [hscan] at hstage' hmessages
      rw [hmessages, show about n [] = [] from rfl, append_nil]
      exact hstage'
    · cases hsession

theorem Tracks.release (h : Tracks jhash2 start P j i n s)
    (hmoves : s.Moves (.session j .release) s') (hl' : s'.Lists j i n) :
    Advances jhash2 start P j i n s m s' := by
  refine h.quiet hmoves hl' ?_ ?_
  · intro p inst' p' events hsession set' hset'
    simp only [Core.sessionStep] at hsession
    split at hsession
    · exact dumpRelease_data (Option.some.inj hsession) hset'
    · cases hsession
  · intro p set inst' p' events hp hset hsession hstage
    simp only [Core.sessionStep] at hsession
    split at hsession
    · rename_i hphase
      exact hstage.release hphase (Option.some.inj hsession)
    · cases hsession

theorem Tracks.list (h : Tracks jhash2 start P j i n s) (hc : c.Timely s.now)
    (hclock : c.last ≤ start + 2 ^ (A.longBits - 1)) {s1 : Dump A}
    (hmoves : s.Moves (.session j (.list (c.listCall A).fns ⟨c.cap, c.pad64, 0, []⟩)) s1)
    (hs' : s' = { s1 with now := c.last, replaced := s.replaced && !s.begins j })
    (hl' : s'.Lists j i n)
    (hP : ∀ set, s'.net.inst.domainSet i = some set → Admits jhash2 start P s'.now set.data) :
    Advances jhash2 start P j i n s m s' := by
  obtain ⟨p, set, hp, hset, hreached, hstage⟩ := h.stage
  obtain ⟨p1, inst', p', events, hp1, hsession, hinst, hp', -, -, hmessages, hdestroyed, hreach⟩ :=
    h.session hmoves
  obtain rfl := Option.some.inj (hp.symm.trans hp1)
  subst hs'
  obtain ⟨set', hset', -⟩ := id hl'
  have hs := h.atSlot hp hset
  have hbegins : s.begins j = (p.cb.arg0 == 0) := by
    unfold Dump.begins
    rw [hp]
    rfl
  simp only [Core.sessionStep] at hsession
  split at hsession
  · rename_i mode index hphase
    obtain ⟨⟨inst1, p1⟩, hlisting, heq⟩ : ∃ r,
        Core.dumpListing mtypeVariant (c.listCall A).fns s.net.inst p mode index
          ⟨c.cap, c.pad64, 0, []⟩ = .ok r ∧ (r.1, r.2, []) = (inst', p', events) := by
      revert hsession
      generalize Core.dumpListing mtypeVariant (c.listCall A).fns s.net.inst p mode index _ = r
      intro hsession
      cases r with
      | error e => cases hsession
      | ok r => exact ⟨r, rfl, Except.ok.inj (Option.some.inj hsession)⟩
    cases heq
    have hset1 : inst1.domainSet i = some set' := (congrArg (·.domainSet i) hinst).symm.trans hset'
    have hstage' := hstage.list hs hphase hreached hc hclock hlisting hset1 (hP set' hset')
    refine h.advance hreach ((congrArg (·.isDestroyed) hinst).trans hdestroyed) hl' hp' hset hset'
      (.listing hset hlisting hset1 hc hclock) ?_
    show Stage _ i n c.last set'.data (s.replaced && !s.begins j) (s1.messages n) p1
    rw [hbegins, hmessages, show about n (filterMap message? []) = [] from rfl, append_nil]
    exact hstage'
  · cases hsession

/-! ### Every run -/

theorem Tracks.init (h : (dumpSystem A jhash2 start j).init s) (hlists : s.Lists j i n) :
    Tracks jhash2 start P j i n s := by
  obtain ⟨⟨l, net, req, hrun, hlen, hdestroyed, hreq, hnet⟩, hreached, -, hreplaced, hsent⟩ := h
  obtain ⟨set, hset, -, -, hforceadd, -⟩ := id hlists
  have hp : s.net.sessions[j]? = some (.init req) := by
    rw [hnet, ← hlen]
    exact getElem?_concat_length
  refine ⟨?_, ?_, hlists, _, set, hp, hset, hreached i set hset hforceadd, ?_⟩
  · rw [hnet]
    exact reached_step ⟨l, hrun⟩ (m := .dump req) rfl
  · rw [hnet]
    exact hdestroyed
  · refine .ahead ⟨hreq, fun mode hdump => ?_, trivial⟩ (.inl ⟨rfl, rfl⟩) (fun hstarted => ?_) ?_
    · cases hdump
    · cases hstarted
    · unfold Dump.messages
      rw [hsent]
      rfl

theorem Tracks.step (h : Tracks jhash2 start P j i n s) {m : DumpMove A}
    (hstep : (dumpSystem A jhash2 start j).step s m s') (hl' : s'.Lists j i n)
    (hP : ∀ set, s'.net.inst.domainSet i = some set → Admits jhash2 start P s'.now set.data) :
    Advances jhash2 start P j i n s m s' := by
  cases m with
  | create attr exist o =>
    exact h.command (Core.DomainSetNet.domainSetCreate_result mtypeVariant attr exist o) rfl hstep
      hl'
  | destroy attr setname =>
    exact h.command (Core.DomainSetNet.domainSetDestroy_result attr setname) rfl hstep hl'
  | rename attr => exact h.command (Core.DomainSetNet.domainSetRename_result attr) rfl hstep hl'
  | swap attr => exact h.command (Core.DomainSetNet.domainSetSwap_result attr) rfl hstep hl'
  | op k c =>
    obtain ⟨t, data, ht, hcall, rfl⟩ := hstep
    exact h.op ht hcall hl' hP
  | call => exact h.call hstep hl'
  | scan => exact h.scan hstep hl'
  | list c =>
    obtain ⟨hc, hclock, s1, hmoves, hs'⟩ := hstep
    exact h.list hc hclock hmoves hs' hl' hP
  | release => exact h.release hstep hl'

theorem dumpSystem_clock {m : DumpMove A} (hstep : (dumpSystem A jhash2 start j).step s m s')
    (h : s.now ≤ start + 2 ^ (A.longBits - 1)) : s'.now ≤ start + 2 ^ (A.longBits - 1) := by
  have hmoves : ∀ {m : Core.Move (DomainSet A) (Htable A)}, s.Moves m s' →
      s'.now ≤ start + 2 ^ (A.longBits - 1) := by
    rintro m ⟨net, events, -, rfl⟩
    exact h
  cases m with
  | op k c =>
    obtain ⟨t, data, -, hcall, rfl⟩ := hstep
    exact hcall.2.1
  | list c =>
    obtain ⟨-, hclock, s1, -, rfl⟩ := hstep
    exact hclock
  | _ => exact hmoves hstep

theorem run_tracks {C : Dump A → Prop} (hlists : ∀ s, C s → s.Lists j i n)
    (hP : ∀ s, C s → s.now ≤ start + 2 ^ (A.longBits - 1) →
      ∀ set, s.net.inst.domainSet i = some set → Admits jhash2 start P s.now set.data)
    {l : List (DumpMove A)} (h : ((dumpSystem A jhash2 start j).within C).Run l s) :
    Tracks jhash2 start P j i n s ∧ s.now ≤ start + 2 ^ (A.longBits - 1) := by
  refine h.invariant (P := fun s => Tracks jhash2 start P j i n s ∧
    s.now ≤ start + 2 ^ (A.longBits - 1)) ?_ ?_
  · rintro s ⟨hinit, hC⟩
    exact ⟨.init hinit (hlists s hC), hinit.2.2.1⟩
  · rintro s m s' ⟨hs, hclock⟩ ⟨hstep, hC⟩
    have hclock' := dumpSystem_clock hstep hclock
    exact ⟨(hs.step hstep (hlists s' hC) (hP s' hC hclock')).tracks, hclock'⟩

/-- A dump that has ended has sent one listing of the set. -/
theorem Tracks.ended (h : Tracks jhash2 start P j i n s) (hended : s.Ended j) :
    ∃ L, Listed jhash2 start P L ∧ L.phase = .ended .ok ∧ L.sent = s.messages n ∧
      (s.messages n).countP beginsSet = 1 := by
  obtain ⟨p, set, hp, hset, -, hstage⟩ := h.stage
  obtain ⟨p', hp', hphase⟩ := hended
  obtain rfl := Option.some.inj (hp.symm.trans hp')
  have hgoing : ¬Going i p := by
    intro hgoing
    have hphase' := hgoing.phase
    rwa [hphase] at hphase'
  cases hstage with
  | ahead hgoing' => exact absurd hgoing' hgoing
  | during _ _ _ _ _ _ _ hgoing' => exact absurd hgoing' hgoing
  | behind _ _ _ hgoing' => exact absurd hgoing' hgoing
  | complete L hL hLphase _ hsent =>
    have hsent' : L.sent = s.messages n := by
      rw [hsent.sent, pending_eq_nil (by simp [hphase]), append_nil]
    exact ⟨L, hL, hLphase, hsent', hsent' ▸ hsent.begins⟩
  | failed e hfailed => simp [hphase] at hfailed

theorem admits_live {e : HashDomainElem} {d : Deadline} (h : s.Live i start e d)
    (hclock : s.now ≤ start + 2 ^ (A.longBits - 1)) (hset : s.net.inst.domainSet i = some set) :
    Admits jhash2 start (fun L => L.set.Live start L.now e d) s.now set.data := by
  rintro L hL hnow ⟨a, ha⟩
  obtain ⟨set', hset', hlive⟩ := h
  obtain rfl := Option.some.inj (hset.symm.trans hset')
  rw [← hL] at hlive
  exact ((LiveIn.later_iff ha.inRange hnow hclock).mp hlive).1

/-- What stays alive and is not added again keeps its deadline. -/
theorem run_deadline {e : HashDomainElem} {l : List (DumpMove A)}
    (h : (((dumpSystem A jhash2 start j).guard fun _ m => ¬m.Adds i e).within fun s =>
      s.Lists j i n ∧ ∃ d, s.Live i start e d).Run l s) :
    ∃ d, ((dumpSystem A jhash2 start j).within fun s =>
      s.Lists j i n ∧ s.Live i start e d).Run l s := by
  induction h with
  | start hinit =>
    obtain ⟨hinit, hlists, d, hlive⟩ := hinit
    exact ⟨d, .start ⟨hinit, hlists, hlive⟩⟩
  | @snoc l s s' m hrun hstep ih =>
    obtain ⟨⟨hadds, hstep⟩, hlists', d', hlive'⟩ := hstep
    obtain ⟨d, hrun'⟩ := ih
    obtain ⟨htracks, hclock⟩ := run_tracks (P := fun _ => True) (fun s hs => hs.1)
      (fun s _ _ set _ L _ _ _ => trivial) hrun'
    have hclock' := dumpSystem_clock hstep hclock
    obtain ⟨set, set', hset, hset', hm⟩ :=
      (htracks.step hstep hlists' fun set _ L _ _ _ => trivial).evolves
    obtain ⟨p, set1, -, hset1, hreached, -⟩ := htracks.stage
    obtain rfl := Option.some.inj (hset.symm.trans hset1)
    obtain ⟨set1, hset1, hlive⟩ := hrun'.of_within.2.2
    obtain rfl := Option.some.inj (hset.symm.trans hset1)
    obtain ⟨set1, hset1, hlive'⟩ := hlive'
    obtain rfl := Option.some.inj (hset'.symm.trans hset1)
    obtain ⟨a, ha⟩ := hreached.represents hclock
    have hbefore := hm.before hreached hclock' hadds hlive'
    obtain rfl : d = d' := Option.some.inj
      (((ha.live e d).mpr hlive).symm.trans ((ha.live e d').mpr hbefore))
    exact ⟨d, hrun'.snoc ⟨hstep, hlists', set', hset', hlive'⟩⟩

theorem attrDomains_flatten (l : List (List Core.Attr)) :
    attrDomains l.flatten = l.flatMap attrDomains := by
  rw [flatMap_def]
  exact filterMap_flatten

end

/-- A listing is complete and without repeats, for a set that keeps its slot and whatever comes
between the steps of the dump: when the dump ends without an error, exactly one message has the
header of the set, no domain comes twice, and one that stays alive and is not added again comes in
exactly one message. -/
theorem dump_complete (jhash2 : HashDomainElem → BitVec 32 → BitVec 32) (start j i n : ℕ) :
    (∀ l (s : Dump A), ((dumpSystem A jhash2 start j).within (Dump.Lists j i n)).Run l s →
      s.Ended j → (s.messages n).countP beginsSet = 1 ∧
        (attrDomains (s.messages n).flatten).Nodup) ∧
    ∀ e l (s : Dump A), (((dumpSystem A jhash2 start j).guard fun _ m => ¬m.Adds i e).within
      fun s => s.Lists j i n ∧ ∃ d, s.Live i start e d).Run l s →
      s.Ended j → (s.messages n).countP (fun m => decide (e.domain ∈ attrDomains m)) = 1 := by
  refine ⟨?_, ?_⟩
  · intro l s hrun hended
    obtain ⟨htracks, -⟩ := run_tracks (P := fun _ => True) (fun s hs => hs)
      (fun s _ _ set _ L _ _ _ => trivial) hrun
    obtain ⟨L, ⟨l', hL⟩, -, hsent, hbegins⟩ := htracks.ended hended
    exact ⟨hbegins, hsent ▸ Lister.run_nodup hL.of_within.1⟩
  · intro e l s hrun hended
    obtain ⟨d, hrun'⟩ := run_deadline hrun
    obtain ⟨htracks, -⟩ := run_tracks (fun s hs => hs.1)
      (fun s hs hclock set hset => admits_live hs.2 hclock hset) hrun'
    obtain ⟨L, ⟨l', hL⟩, hphase, hsent, -⟩ := htracks.ended hended
    have hmem := (Lister.run_keeps hL).ended hphase
    rw [Lister.listed_ended hphase, hsent, attrDomains_flatten] at hmem
    have hnodup := Lister.run_nodup hL.of_within.1
    rw [hsent, attrDomains_flatten] at hnodup
    exact countP_mem_of_nodup hnodup hmem

/-- The set of type `hash:domain` in the first of two slots, and a request to dump all sets. -/
def oneSet (now : ℕ) (data : DomainSet x64) : Dump x64 where
  now := now
  net := ⟨⟨[some { coreSet data with refNetlink := 0 }, none], false, false, 1⟩, none, [],
    [.init ⟨none, 8, none, none⟩]⟩
  replaced := false
  sent := []

theorem oneSet_init {l : List Call} {now : ℕ} {data : DomainSet x64} (hclock : now ≤ 2 ^ 63)
    (h : (clockedSystem x64 firstByte 0).Run l (now, data)) :
    (dumpSystem x64 firstByte 0 0).init (oneSet now data) := by
  let attr : Core.CmdAttrs :=
    ⟨some 8, some (coreSet data).name, none, some (coreSet data).name, some 0, some 0, none⟩
  let net : Core.Net (DomainSet x64) (Htable x64) :=
    ⟨⟨[some { coreSet data with refNetlink := 0 }, none], false, false, 1⟩, none, [], []⟩
  have hrun : (Core.netSystem mtypeVariant).Run
      ([] ++ [⟨.create attr false ⟨true, .ok (coreSet data).type, true, .ok data, true⟩, []⟩]) net :=
    .snoc (.start ⟨2, 256, rfl⟩) rfl
  refine ⟨⟨_, net, ⟨none, 8, none, none⟩, hrun, rfl, rfl,
    fun type => ⟨Nat.zero_testBit 1, Nat.zero_testBit 2⟩, rfl⟩, ?_, ?_, rfl, rfl⟩
  · intro i set hset hforceadd
    match i with
    | 0 =>
      cases hset
      exact ⟨l, now, le_rfl, h⟩
    | 1 => cases hset
    | i + 2 => cases hset
  · show now ≤ 0 + 2 ^ 63
    omega

/-- A step of the dump. One for a message runs in one tick. -/
def applyDump (s : Dump x64) (m : DumpMove x64) : Option (Dump x64) :=
  let moves (m : Core.Move (DomainSet x64) (Htable x64)) : Option (Dump x64) :=
    match s.net.step mtypeVariant m with
    | some (.ok (net, events)) =>
      some { s with net := net, sent := s.sent ++ events.filterMap message? }
    | _ => none
  match m with
  | .create attr exist o => moves (.create attr exist o)
  | .destroy attr setname => moves (.destroy attr setname)
  | .rename attr => moves (.rename attr)
  | .swap attr => moves (.swap attr)
  | .op i c =>
    match s.net.inst.domainSet i with
    | none => none
    | some t => (applyClocked (s.now, t.data) c).map fun p => s.called 0 i t.id c p.2
  | .call => moves (.session 0 .call)
  | .scan => moves (.session 0 .scan)
  | .list c =>
    if s.now ≤ c.head ∧ c.head ≤ 2 ^ 63 then
      let c := { c with bucket := fun _ => c.head, last := c.head }
      (moves (.session 0 (.list (c.listCall x64).fns ⟨c.cap, c.pad64, 0, []⟩))).map fun s1 =>
        { s1 with now := c.last, replaced := s.replaced && !s.begins 0 }
    else none
  | .release => moves (.session 0 .release)

theorem applyDump_step {s s' : Dump x64} {m : DumpMove x64} (h : applyDump s m = some s') :
    ∃ m', (∀ e, m'.Adds 0 e → m.Adds 0 e) ∧ (dumpSystem x64 firstByte 0 0).step s m' s' := by
  have hmoves : ∀ {m : Core.Move (DomainSet x64) (Htable x64)} {s1 : Dump x64},
      (match s.net.step mtypeVariant m with
        | some (.ok (net, events)) =>
          some { s with net := net, sent := s.sent ++ events.filterMap message? }
        | _ => none) = some s1 → s.Moves m s1 := by
    intro m s1 h
    split at h
    · rename_i net events hstep
      exact ⟨net, events, hstep, (Option.some.inj h).symm⟩
    · cases h
  unfold applyDump at h
  cases m with
  | create attr exist o => exact ⟨.create attr exist o, fun e he => he, hmoves h⟩
  | destroy attr setname => exact ⟨.destroy attr setname, fun e he => he, hmoves h⟩
  | rename attr => exact ⟨.rename attr, fun e he => he, hmoves h⟩
  | swap attr => exact ⟨.swap attr, fun e he => he, hmoves h⟩
  | op i c =>
    dsimp only at h
    split at h
    · cases h
    · rename_i t ht
      obtain ⟨p, hcall, rfl⟩ := Option.map_eq_some_iff.mp h
      have hstep := applyClocked_step hcall
      refine ⟨.op i c, fun e he => he, t, p.2, ht, ?_, rfl⟩
      rw [← hstep.2.2.1]
      exact hstep
  | call => exact ⟨.call, fun e he => he, hmoves h⟩
  | scan => exact ⟨.scan, fun e he => he, hmoves h⟩
  | list c =>
    obtain ⟨⟨hhead, hclock⟩, h⟩ := Option.ite_none_right_eq_some.mp h
    obtain ⟨s1, hs1, rfl⟩ := Option.map_eq_some_iff.mp h
    refine ⟨.list { c with bucket := fun _ => c.head, last := c.head }, fun e he => he.elim,
      ⟨hhead, monotone_const, fun _ => ⟨le_rfl, le_rfl⟩⟩, ?_, s1, hmoves hs1, rfl⟩
    show c.head ≤ 0 + 2 ^ 63
    omega
  | release => exact ⟨.release, fun e he => he, hmoves h⟩

instance : DecidablePred fun phase : Core.DumpPhase => phase = .ended none
  | .ended none => isTrue rfl
  | .ended (some _) => isFalse (by simp)
  | .waiting | .scanning .. | .listing .. | .releasing .. | .finished => isFalse (by simp)

theorem length_a : ([97] : List UInt8).length < Core.dsetMaxnamelen := by decide

/-- Two messages for the set of `oneSet` and one for a set made in between, when the first set has
been resized and the domain of the first message is deleted. -/
def twoMessages : List (DumpMove x64) :=
  let list (now cap : ℕ) : DumpMove x64 :=
    .list ⟨0, now, fun _ => true, fun _ => now, now, cap, false⟩
  let typename := some (coreSet timedSet).name
  let attr : Core.CmdAttrs :=
    ⟨some 8, some ⟨[97], zero_notMem_a, length_a⟩, none, typename, some 0, some 0, none⟩
  [.call, .scan, list 1 440, .release,
    .op 0 ⟨2, .resize ⟨fun _ => true, fun _ _ => true⟩, .ret .ok⟩,
    .op 0 ⟨3, .del keyA true, .ret .ok⟩,
    .create attr false ⟨true, .ok (coreSet timedSet).type, true, .ok timedSet, true⟩,
    .call, .scan, list 3 pageSize, .release, .call, .scan, list 3 pageSize, .release, .call]

theorem dump_complete_two : ∃ l s,
    (((dumpSystem x64 firstByte 0 0).guard fun _ m => ¬m.Adds 0 keyB.toHashDomainElem).within
      fun s => s.Lists 0 0 0 ∧ ∃ d, s.Live 0 0 keyB.toHashDomainElem d).Run l s ∧
    s.Ended 0 ∧ (s.messages 0).length = 2 ∧ (s.messages 0).countP beginsSet = 1 ∧
    (attrDomains (s.messages 0).flatten).Nodup ∧
    (s.messages 0).countP (fun m => decide (keyB.domain ∈ attrDomains m)) = 1 := by
  let keeps (s : Dump x64) : Bool :=
    (s.net.inst.domainSet 0).any (fun t => t.id = 0 && !t.type.dumpLast && !t.data.forceadd &&
      t.data.Live 0 s.now keyB.toHashDomainElem ⊤) && s.net.sessions.all (·.req.setname.isNone)
  have hkeeps {s : Dump x64} (h : keeps s = true) :
      s.Lists 0 0 0 ∧ ∃ d, s.Live 0 0 keyB.toHashDomainElem d := by
    simp only [keeps, Bool.and_eq_true, Option.any_eq_true, all_eq_true, decide_eq_true_eq,
      Bool.not_eq_true', Option.isNone_iff_eq_none] at h
    obtain ⟨⟨t, ht, ⟨⟨hid, hlast⟩, hforceadd⟩, hlive⟩, hname⟩ := h
    refine ⟨⟨t, ht, hid, hlast, hforceadd, fun p hp _ name hreq => ?_⟩, ⊤, t, ht, hlive⟩
    rw [hname p (mem_of_getElem? hp)] at hreq
    cases hreq
  obtain ⟨⟨now, set⟩, hrun, hQ⟩ := run_of_applyClocked (l := threeCalls) (Q := fun s =>
    s.1 = 1 && keeps (oneSet 1 s.2) &&
      (twoMessages.foldlM (fun s m => (applyDump s m).filter keeps) (oneSet 1 s.2)).any fun s =>
        (s.messages 0).length = 2 && s.net.sessions[0]?.any (·.phase = .ended none))
    timedSet_init (by decide +kernel)
  simp only [Bool.and_eq_true, decide_eq_true_eq, Option.any_eq_true] at hQ
  obtain ⟨⟨rfl, hstart⟩, s, hs, hlength, p, hp, hphase⟩ := hQ
  have hadds : ∀ m ∈ twoMessages, ¬m.Adds 0 keyB.toHashDomainElem := by
    simp [twoMessages, DumpMove.Adds, Call.adds]
  obtain ⟨l, hdump⟩ := System.Run.exists_foldlM (M := ((dumpSystem x64 firstByte 0 0).guard
      fun _ m => ¬m.Adds 0 keyB.toHashDomainElem).within fun s =>
        s.Lists 0 0 0 ∧ ∃ d, s.Live 0 0 keyB.toHashDomainElem d)
    (fun s m s' hm hstep => by
      obtain ⟨hstep, hkeep⟩ := Option.filter_eq_some_iff.mp hstep
      obtain ⟨m', hm', hstep'⟩ := applyDump_step hstep
      exact ⟨m', ⟨fun hadd => hadds m hm (hm' _ hadd), hstep'⟩, hkeeps hkeep⟩)
    (.start ⟨oneSet_init (by decide) hrun, hkeeps hstart⟩) hs
  have hended : s.Ended 0 := ⟨p, hp, hphase⟩
  have hlists : ((dumpSystem x64 firstByte 0 0).within (Dump.Lists 0 0 0)).Run l s := by
    refine System.Run.mono ?_ ?_ hdump
    · exact fun s h => ⟨h.1, h.2.1⟩
    · exact fun s m s' h => ⟨h.1.2, h.2.1⟩
  obtain ⟨hbegins, hnodup⟩ := (dump_complete firstByte 0 0 0 0).1 l s hlists hended
  exact ⟨l, s, hdump, hended, hlength, hbegins, hnodup,
    (dump_complete firstByte 0 0 0 0).2 keyB.toHashDomainElem l s hdump hended⟩

end Dset.Hash
