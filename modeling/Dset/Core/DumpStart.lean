import Dset.Core.Commands

/-! `domain_set_dump_start` and `domain_set_dump_done`, cut where the code drops its
locks: entering a call, one iteration of the loop under `domain_set_ref_lock`, building
the message for the set found, and releasing the set. A session keeps `cb->args`
between its calls; what it has started and not yet released is recorded beside it. -/

namespace Dset.Core

variable {δ π : Type}

inductive DumpType where
  | all | one | last
  deriving DecidableEq

/-- `dump_type` and `dump_flags`, as `DSET_CB_DUMP` keeps them. -/
structure DumpMode where
  type : DumpType
  flags : ℕ
  deriving DecidableEq

def DumpMode.listSetname (m : DumpMode) : Bool := m.flags.testBit 1

def DumpMode.listHeader (m : DumpMode) : Bool := m.flags.testBit 2

/-- `cb->args`; without `dump` it is `DUMP_INIT`. -/
structure CbArgs (π : Type) where
  proto : ℕ
  dump : Option DumpMode
  index : ℕ
  priv : Option π
  arg0 : ℕ

/-- The request behind a dump: the result of parsing it, and its attributes. -/
structure DumpRequest where
  nlaParse : Option Errno
  protocol : ℕ
  setname : Option SetName
  flags : Option ℕ

inductive DumpPhase where
  /-- Between two calls. -/
  | waiting
  /-- In the loop, before the lock; `set` tells whether the last slot held one. -/
  | scanning (mode : DumpMode) (max : ℕ) (set : Bool)
  /-- With a set, behind the lock. -/
  | listing (mode : DumpMode) (index : ℕ)
  /-- At `release_refcount`. -/
  | releasing (index : ℕ) (ret : Ret) (skb : Skb)
  /-- The last call returned no data, or an error. -/
  | ended (err : Option Errno)
  /-- Behind `domain_set_dump_done`. -/
  | finished

structure Session (π : Type) where
  req : DumpRequest
  cb : CbArgs π
  phase : DumpPhase
  started : Option ℕ

/-- What the others see of a session: sets it starts and releases, and the messages it
sends, with the set they are about. -/
inductive DumpEvent where
  | start (id : ℕ)
  | release (id : ℕ)
  | message (id : ℕ) (skb : Skb)

def Session.init (req : DumpRequest) : Session π := ⟨req, ⟨0, none, 0, none, 0⟩, .waiting, none⟩

def dumpInit (inst : DomainSetNet δ) (req : DumpRequest) (cb : CbArgs π) :
    Except Errno (DumpMode × CbArgs π) :=
  match req.nlaParse with
  | some e => .error e
  | none =>
    let cb := { cb with proto := req.protocol }
    -- the flags go through a `u32` whose lower half is the type
    let flags := (req.flags.getD 0) % 2 ^ 16
    match req.setname with
    | some name =>
      match inst.findSetAndId name with
      | none => .error .enoent
      | some (_, index) =>
        .ok (⟨.one, flags⟩, { cb with index := index, dump := some ⟨.one, flags⟩ })
    | none => .ok (⟨.all, flags⟩, { cb with dump := some ⟨.all, flags⟩ })

/-- Entering the loop, when the index is one of the array. -/
def dumpEnter (inst : DomainSetNet δ) (s : Session π) (mode : DumpMode) : Session π :=
  if inst.domainSetMax ≤ s.cb.index then { s with phase := .ended none }
  else
    let max := if mode.type = .one then s.cb.index + 1 else inst.domainSetMax
    { s with phase := .scanning mode max false }

/-- A call up to its loop. -/
def dumpCall (inst : DomainSetNet δ) (s : Session π) : Session π :=
  match s.cb.dump with
  | some mode => dumpEnter inst s mode
  | none =>
    match dumpInit inst s.req s.cb with
    | .error e => { s with phase := .ended (some e) }
    | .ok (mode, cb) => dumpEnter inst { s with cb := cb } mode

/-- The sets a pass over the array leaves to the other one. -/
def DumpMode.skips (mode : DumpMode) (type : DomainSetType) : Bool :=
  mode.type ≠ .one ∧ (mode.type = .all ↔ type.dumpLast = true)

/-- The start `uref(set, cb, true)` of a listing. -/
def urefStart (v : Variant δ π) (data : δ) (cb : CbArgs π) : CbArgs π :=
  match v.uref with
  | none => cb
  | some uref => { cb with priv := some (uref data) }

def urefEnd (v : Variant δ π) (cb : CbArgs π) : CbArgs π :=
  match v.uref with
  | none => cb
  | some _ => { cb with priv := none }

/-- One iteration of the loop, or its end. -/
def dumpScan (v : Variant δ π) (inst : DomainSetNet δ) (s : Session π) (mode : DumpMode) (max : ℕ)
    (set : Bool) : DomainSetNet δ × Session π × List DumpEvent :=
  if s.cb.index < max then
    match inst.domainSet s.cb.index with
    | none =>
      if mode.type = .one then (inst, { s with phase := .ended (some .enoent) }, [])
      else if inst.isDestroyed then (inst, { s with phase := .ended none }, [])
      else (inst, { s with
        cb := { s.cb with index := s.cb.index + 1 }
        phase := .scanning mode max false }, [])
    | some set =>
      if inst.isDestroyed then
        if mode.type = .one then (inst, { s with phase := .ended (some .enoent) }, [])
        else (inst, { s with phase := .ended none }, [])
      else if mode.skips set.type then (inst, { s with
        cb := { s.cb with index := s.cb.index + 1 }
        phase := .scanning mode max true }, [])
      else if s.cb.arg0 = 0 then
        (inst.setSlot s.cb.index (some { set with refNetlink := set.refNetlink + 1 }), { s with
          phase := .listing mode s.cb.index
          started := some set.id }, [.start set.id])
      else (inst, { s with phase := .listing mode s.cb.index }, [])
  else if mode.type = .all then
    let mode : DumpMode := { mode with type := .last }
    let cb := { s.cb with dump := some mode, index := 0 }
    (inst, { s with
      cb := if set then urefEnd v cb else cb
      phase := .scanning mode max set }, [])
  else (inst, { s with phase := .ended none }, [])

/-- What `variant->head` and `variant->list` make of a set, the arguments and the
buffer; listing sets `DSET_CB_ARG0`. -/
structure ListFns (δ π : Type) where
  head : DomainSet δ → Skb → Ret × δ × Skb
  list : DomainSet δ → CbArgs π → Skb → Ret × ℕ × Skb

def nextSet (mode : DumpMode) (cb : CbArgs π) : CbArgs π :=
  { cb with index := if mode.type = .one then dsetInvalidId else cb.index + 1 }

/-- `default` of the switch: list some more of the set. -/
def dumpList (fns : ListFns δ π) (mode : DumpMode) (set : DomainSet δ) (cb : CbArgs π) (skb : Skb) :
    Ret × CbArgs π × Skb :=
  let (ret, arg0, skb) := fns.list set cb skb
  let cb := { cb with arg0 := arg0 }
  if arg0 = 0 then (ret, nextSet mode cb, skb) else (ret, cb, skb)

def coreHeader (proto index : ℕ) (set : DomainSet δ) : List Attr :=
  [.typename set.type.name.text, .family set.family, .revision set.revision] ++
    if dsetProtocolMin < proto then [.index index] else []

/-- `case 0` of the switch: the header of the set first. -/
def dumpHeader (v : Variant δ π) (fns : ListFns δ π) (mode : DumpMode) (index : ℕ)
    (set : DomainSet δ) (cb : CbArgs π) (skb : Skb) : Ret × CbArgs π × δ × Skb :=
  let (fits, skb) := skb.putAll (coreHeader cb.proto index set)
  if !fits then (.err .efault, nextSet mode cb, set.data, skb)
  else
    let (ret, data, skb) := fns.head set skb
    let set := { set with data := data }
    if ret ≠ .ok then (ret, cb, data, skb)
    else if mode.listHeader then (.ok, nextSet mode cb, data, skb)
    else
      let (ret, cb, skb) := dumpList fns mode set (urefStart v data cb) skb
      (ret, cb, data, skb)

/-- From the end of the lock up to `release_refcount`: what the code returns, its
arguments, the data of the set and the buffer. -/
def dumpMessage (v : Variant δ π) (fns : ListFns δ π) (mode : DumpMode) (index : ℕ)
    (set : DomainSet δ) (cb : CbArgs π) (skb : Skb) : Ret × CbArgs π × δ × Skb :=
  match startMsg skb with
  | none => (.err .emsgsize, cb, set.data, skb)
  | some skb =>
    let (fits, skb) := skb.putAll [.protocol cb.proto, .setname set.name.text]
    if !fits then (.err .efault, nextSet mode cb, set.data, skb)
    else if mode.listSetname then (.ok, nextSet mode cb, set.data, skb)
    else if cb.arg0 = 0 then dumpHeader v fns mode index set cb skb
    else
      let (ret, cb, skb) := dumpList fns mode set cb skb
      (ret, cb, set.data, skb)

/-- Behind the lock: the message for the set in slot `index`. -/
def dumpListing (v : Variant δ π) (fns : ListFns δ π) (inst : DomainSetNet δ) (s : Session π)
    (mode : DumpMode) (index : ℕ) (skb : Skb) : Except Fault (DomainSetNet δ × Session π) :=
  match inst.domainSet index with
  | none => .error .nullPointer
  | some set =>
    let (ret, cb, data, skb) := dumpMessage v fns mode index set s.cb skb
    .ok (inst.setSlot index (some { set with data := data }),
      { s with cb := cb, phase := .releasing index ret skb })

/-- `__domain_set_put_netlink`. -/
def putNetlink (set : DomainSet δ) : Except Fault (DomainSet δ) :=
  if set.refNetlink = 0 then .error .bug else .ok { set with refNetlink := set.refNetlink - 1 }

def dumpPut (v : Variant δ π) (inst : DomainSetNet δ) (s : Session π) (index : ℕ) :
    Except Fault (DomainSetNet δ × Session π × List DumpEvent) :=
  match inst.domainSet index with
  | none => .error .nullPointer
  | some set => do
    let set' ← putNetlink set
    return (inst.setSlot index (some set'),
      { s with cb := urefEnd v s.cb, started := none }, [.release set.id])

/-- What a call returns in the end, and its message. -/
def dumpReturn (s : Session π) (id : Option ℕ) (ret : Ret) (skb : Skb) :
    Session π × List DumpEvent :=
  match ret with
  | .err e => ({ s with phase := .ended (some e) }, [])
  | .ok =>
    if skb.len = 0 then ({ s with phase := .ended none }, [])
    else ({ s with phase := .waiting }, id.toList.map fun id => .message id skb)

/-- From `release_refcount` on. -/
def dumpRelease (v : Variant δ π) (inst : DomainSetNet δ) (s : Session π) (index : ℕ) (ret : Ret)
    (skb : Skb) : Except Fault (DomainSetNet δ × Session π × List DumpEvent) :=
  if ret ≠ .ok ∨ s.cb.arg0 = 0 then do
    let (inst, s', events) ← dumpPut v inst s index
    let (s', events') := dumpReturn { s' with cb := { s'.cb with arg0 := 0 } } s.started ret skb
    return (inst, s', events' ++ events)
  else
    let (s', events) := dumpReturn s s.started ret skb
    return (inst, s', events)

/-- `domain_set_dump_done`. -/
def dumpDone (v : Variant δ π) (inst : DomainSetNet δ) (s : Session π) :
    Except Fault (DomainSetNet δ × Session π × List DumpEvent) :=
  if s.cb.arg0 ≠ 0 then do
    let (inst, s, events) ← dumpPut v inst s s.cb.index
    return (inst, { s with phase := .finished }, events)
  else return (inst, { s with phase := .finished }, [])

/-- The next step of a session: a call, an iteration of its loop, its message, its end
at `release_refcount`, or `domain_set_dump_done` behind a call. -/
inductive SessionMove (δ π : Type) where
  | call
  | scan
  | list (fns : ListFns δ π) (skb : Skb)
  | release
  | done

/-- What a step of a session does to the sets and to the session, and what it shows. -/
def sessionStep (v : Variant δ π) (inst : DomainSetNet δ) (s : Session π) :
    SessionMove δ π → Option (Except Fault (DomainSetNet δ × Session π × List DumpEvent))
  | .call =>
    match s.phase with
    | .waiting => some (.ok (inst, dumpCall inst s, []))
    | _ => none
  | .scan =>
    match s.phase with
    | .scanning mode max set => some (.ok (dumpScan v inst s mode max set))
    | _ => none
  | .list fns skb =>
    match s.phase with
    | .listing mode index =>
      some ((dumpListing v fns inst s mode index skb).map fun r => (r.1, r.2, []))
    | _ => none
  | .release =>
    match s.phase with
    | .releasing index ret skb => some (dumpRelease v inst s index ret skb)
    | _ => none
  | .done =>
    match s.phase with
    | .waiting | .ended _ => some (dumpDone v inst s)
    | _ => none

end Dset.Core
