import Dset.Core.DumpStart
import Dset.Lib.Parties
import Dset.Lib.Run

/-! A network namespace with everybody who uses its sets: the commands of userspace,
match rules and ematches that hold sets by their index, dump sessions, and the set
types, which change the data of their sets at any time. Commands and holders run under
the nfnl mutex; dump sessions go on in between, also while all sets are destroyed. -/

namespace Dset.Core

open Dset.Lib

variable {δ π : Type}

def dsetDimMax : ℕ := 6

/-- Who has called `domain_set_nfnl_get_byindex`. -/
inductive Holder where
  /-- `dset_match_v0_checkentry`, before it looks at the dimension. -/
  | checking (index dim : ℕ)
  /-- A match rule. -/
  | rule (index : ℕ)
  /-- `em_dset_change`, before `kmemdup`. -/
  | copying (index : ℕ)
  /-- An ematch. -/
  | ematch (index : ℕ)
  /-- Behind `domain_set_nfnl_put`. -/
  | gone
  deriving DecidableEq

def Holder.index : Holder → Option ℕ
  | .checking index _ | .rule index | .copying index | .ematch index => some index
  | .gone => none

/-- The state of the namespace; `destroying` is the next slot of a command that
destroys all sets. -/
structure Net (δ π : Type) where
  inst : DomainSetNet δ
  destroying : Option ℕ
  holders : List Holder
  sessions : List (Session π)

/-- Who makes a step, and the outcomes of what it calls. -/
inductive Move (δ π : Type) where
  | create (attr : CmdAttrs) (exist : Bool) (o : CreateOutcomes δ)
  | destroy (attr : CmdAttrs) (setname : SetName)
  | destroyAll (attr : CmdAttrs)
  /-- The next slot of a command that destroys all sets. -/
  | destroyNext
  | flush (attr : CmdAttrs)
  | rename (attr : CmdAttrs)
  | swap (attr : CmdAttrs)
  /-- The type changes the data of the set in slot `i`, and with it what sessions have
  in `DSET_CB_PRIVATE`. -/
  | data (i : ℕ) (f : δ → δ) (g : π → π)
  /-- `dset_match_v0_checkentry`. -/
  | checkentry (index dim : ℕ)
  /-- `em_dset_change`; `size` tells whether the data have the right length. -/
  | emChange (size : Bool) (index : ℕ)
  /-- The next step of a holder, with the outcome of `kmemdup`. -/
  | holder (i : ℕ) (kmemdup : Bool)
  /-- A dump request. -/
  | dump (req : DumpRequest)
  /-- The next step of dump session `j`. -/
  | session (j : ℕ) (m : SessionMove δ π)

/-- The type changes what a session in the middle of the set `id` keeps in
`DSET_CB_PRIVATE`. -/
def Session.changePriv (id : ℕ) (g : π → π) (p : Session π) : Session π :=
  { p with cb := { p.cb with priv := if p.started = some id then p.cb.priv.map g else p.cb.priv } }

namespace Net

variable (v : Variant δ π) (s : Net δ π)

def getByindex (index : ℕ) (h : Holder) : Net δ π :=
  let (index', inst) := s.inst.domainSetNfnlGetByindex index
  if index' = dsetInvalidId then { s with inst := inst }
  else { s with inst := inst, holders := s.holders ++ [h] }

def putByindex (i index : ℕ) : Except Fault (Net δ π) := do
  let inst ← s.inst.domainSetNfnlPut index
  return { s with inst := inst, holders := s.holders.set i .gone }

/-- The next step of holder `i`: the failing paths of `dset_match_v0_checkentry` and
`em_dset_change` put the index again, and so does whoever goes away. -/
def holderStep (i : ℕ) (kmemdup : Bool) : Option (Except Fault (Net δ π)) :=
  match s.holders[i]? with
  | some (.checking index dim) =>
    if dsetDimMax < dim then some (s.putByindex i index)
    else some (.ok { s with holders := s.holders.set i (.rule index) })
  | some (.copying index) =>
    if kmemdup then some (.ok { s with holders := s.holders.set i (.ematch index) })
    else some (s.putByindex i index)
  | some (.rule index) | some (.ematch index) => some (s.putByindex i index)
  | some .gone | none => none

/-- The loop of a command that destroys all sets. -/
def destroyNext : Option (Net δ π) :=
  match s.destroying with
  | none => none
  | some i =>
    if i < s.inst.domainSetMax then
      some { s with inst := s.inst.setSlot i none, destroying := some (i + 1) }
    else some { s with inst := { s.inst with isDestroyed := false }, destroying := none }

/-- The type changes the data of the set in slot `i`. -/
def changeData (i : ℕ) (f : δ → δ) (g : π → π) : Net δ π :=
  match s.inst.domainSet i with
  | none => s
  | some set => { s with
      inst := s.inst.setSlot i (some { set with data := f set.data })
      sessions := s.sessions.map (Session.changePriv set.id g) }

def session (j : ℕ) (m : SessionMove δ π) : Option (Except Fault (Net δ π × List DumpEvent)) :=
  match s.sessions[j]? with
  | none => none
  | some p => (sessionStep v s.inst p m).map fun r => r.map fun r =>
    ({ s with inst := r.1, sessions := s.sessions.set j r.2.1 }, r.2.2)

/-- A step under the nfnl mutex. -/
def locked (s' : Net δ π) : Option (Except Fault (Net δ π × List DumpEvent)) :=
  if s.destroying.isSome then none else some (.ok (s', []))

/-- A step, what it shows, or the fault it runs into. -/
def step : Move δ π → Option (Except Fault (Net δ π × List DumpEvent))
  | .create attr exist o =>
    s.locked { s with inst := (s.inst.domainSetCreate v attr exist o).2 }
  | .destroy attr setname => s.locked { s with inst := (s.inst.domainSetDestroy attr setname).2 }
  | .destroyAll attr =>
    let (ret, inst) := s.inst.domainSetDestroyAll attr
    s.locked { s with inst := inst, destroying := if ret = .ok then some 0 else none }
  | .destroyNext => s.destroyNext.map fun s' => .ok (s', [])
  | .flush attr => s.locked { s with inst := (s.inst.domainSetFlush v attr).2 }
  | .rename attr => s.locked { s with inst := (s.inst.domainSetRename attr).2 }
  | .swap attr => s.locked { s with inst := (s.inst.domainSetSwap attr).2 }
  | .data i f g => some (.ok (s.changeData i f g, []))
  | .checkentry index dim => s.locked (s.getByindex index (.checking index dim))
  | .emChange size index => if size then s.locked (s.getByindex index (.copying index)) else none
  | .holder i kmemdup =>
    if s.destroying.isSome then none
    else (s.holderStep i kmemdup).map fun r => r.map fun s' => (s', [])
  | .dump req => some (.ok ({ s with sessions := s.sessions ++ [.init req] }, []))
  | .session j m => s.session v j m

theorem locked_ok {s s' s1 : Net δ π} {events : List DumpEvent}
    (h : s.locked s1 = some (.ok (s', events))) : s.destroying = none ∧ s' = s1 := by
  unfold locked at h
  split at h
  · cases h
  · rename_i hd
    cases h
    exact ⟨by simpa using hd, rfl⟩

theorem locked_events {s s' s1 : Net δ π} {events : List DumpEvent}
    (h : s.locked s1 = some (.ok (s', events))) : events = [] := by
  unfold locked at h
  split at h
  · cases h
  · cases h
    rfl

theorem session_ok {v : Variant δ π} {s s' : Net δ π} {j : ℕ} {m : SessionMove δ π} {events : List DumpEvent}
    (h : s.session v j m = some (.ok (s', events))) :
    ∃ p inst' p', s.sessions[j]? = some p ∧
      sessionStep v s.inst p m = some (.ok (inst', p', events)) ∧
      s' = { s with inst := inst', sessions := s.sessions.set j p' } := by
  unfold Net.session at h
  split at h
  · cases h
  · rename_i p hp
    obtain ⟨r, hr, heq⟩ := Option.map_eq_some_iff.mp h
    cases r with
    | error e => cases heq
    | ok r =>
      cases heq
      exact ⟨p, _, _, hp, hr, rfl⟩

end Net

structure NetLabel (δ π : Type) where
  move : Move δ π
  events : List DumpEvent

/-- The length of the first array, a `domain_set_id_t` that is cut down below
`DSET_INVALID_ID`; `config` is `CONFIG_DOMAIN_SET_MAX`. -/
def initMax (maxSets config : ℕ) : ℕ :=
  let domainSetMax := (if maxSets ≠ 0 then maxSets else config) % 2 ^ 16
  if dsetInvalidId ≤ domainSetMax then dsetInvalidId - 1 else domainSetMax

def netInit (maxSets config : ℕ) : DomainSetNet δ :=
  ⟨List.replicate (initMax maxSets config) none, false, false, 0⟩

theorem domainSet_netInit (maxSets config i : ℕ) :
    (netInit maxSets config : DomainSetNet δ).domainSet i = none := by
  simp only [DomainSetNet.domainSet, netInit, List.getD_eq_getElem?_getD, List.getElem?_replicate]
  split <;> rfl

theorem initMax_lt (maxSets config : ℕ) : initMax maxSets config < dsetInvalidId := by
  unfold initMax
  generalize (if maxSets ≠ 0 then maxSets else config) % 2 ^ 16 = domainSetMax
  have : dsetInvalidId = 65535 := rfl
  dsimp only
  split <;> omega

theorem netInit_max_lt (maxSets config : ℕ) :
    (netInit maxSets config : DomainSetNet δ).domainSetMax < dsetInvalidId := by
  rw [DomainSetNet.domainSetMax, netInit, List.length_replicate]
  exact initMax_lt maxSets config

/-- A namespace and everything that happens in it. -/
def netSystem (v : Variant δ π) : System (Net δ π) (NetLabel δ π) where
  init s := ∃ maxSets config, s = ⟨netInit maxSets config, none, [], []⟩
  step s l s' := s.step v l.move = some (.ok (s', l.events))

end Dset.Core
