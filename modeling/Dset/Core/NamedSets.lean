import Dset.Core.Lookup
import Dset.Core.Names
import Dset.Hash.AdRequest

/-! What the commands on hash sets come to: a map from names to sets of domains with deadlines.
`create`, `destroy`, `flush`, `rename`, `swap`, `add`, `del` and `test` have their plain meaning
on the map, whatever slots the sets are in, however the array grows, and while rules hold sets,
sessions dump them and their types change them. -/

namespace Dset.Core

open Dset.Lib Dset.Hash

variable {A : Arch}

/-! ### The requests about elements -/

/-- The attributes of a request about elements: `DSET_ATTR_DATA` and `DSET_ATTR_ADT` with their
nested flags, and whether there is a `DSET_ATTR_LINENO`. -/
structure AdRequest where
  attr : CmdAttrs
  exist : Bool
  lineno : Bool
  data : Option (Bool × AdWorld × Option AdtAttrs)
  adt : Option (Bool × List (AdWorld × Option AdtAttrs))

def AdRequest.flags (req : AdRequest) : CmdFlags := ⟨req.exist, false, false⟩

/-- Both lists of elements or none, or one that is not well formed. -/
def AdRequest.malformed (req : AdRequest) : Bool :=
  protocolMinFailed req.attr || req.attr.setname.isNone || req.data.isSome == req.adt.isSome ||
    req.data.any (fun d => !d.1) || req.adt.any (fun d => !d.1 || !req.lineno)

def AdRequest.elements (req : AdRequest) : List (AdWorld × Option AdtAttrs) :=
  match req.data with
  | some (_, x) => [x]
  | none => (req.adt.map (·.2)).getD []

/-- No name, or no nested attributes. -/
def malformedTest (attr : CmdAttrs) : Bool :=
  protocolMinFailed attr || attr.setname.isNone || attr.data != some true

namespace DomainSetNet

/-- `domain_set_ad`; without a result a loop of `call_ad` was cut off. -/
def domainSetAd (jhash2 : HashDomainElem → BitVec 32 → BitVec 32) (adt : DsetAdt) (req : AdRequest)
    (fuel : ℕ) (inst : DomainSetNet (Hash.DomainSet A)) :
    Except Fault (Option (AdReply × DomainSetNet (Hash.DomainSet A))) :=
  if req.malformed then return some (.ack (.err .dsetErrProtocol), inst)
  else match req.attr.setname.bind inst.findSetAndId with
  | none => return some (.ack (.err .enoent), inst)
  | some (s, i) => do
    let r ←
      match req.data with
      | some (_, x) => adData jhash2 adt req.flags req.lineno fuel x s.data
      | none => adElements jhash2 adt req.flags req.lineno fuel ((req.adt.map (·.2)).getD []) s.data
    return r.map fun p => (p.1, inst.setSlot i (some { s with data := p.2 }))

/-- `hash_domain_uadt` for the test command of userspace, which has no place for a line number. -/
def uadtTest (jhash2 : HashDomainElem → BitVec 32 → BitVec 32) (jiffies : BitVec A.longBits)
    (set : Hash.DomainSet A) (tb : AdtAttrs) : Except Fault (Bool × Hash.DomainSet A) :=
  if tb.lineno.isSome then .error .nullPointer
  else .ok (hashDomainUadt set tb (fun _ => (false, set)) fun value ext =>
    let p := mtypeTest jhash2 jiffies set value ext ext ⟨false, false, false⟩
    (p.1, p.2.1))

def domainSetUtest (jhash2 : HashDomainElem → BitVec 32 → BitVec 32) (now : ℕ) (attr : CmdAttrs)
    (tb : Option AdtAttrs) (inst : DomainSetNet (Hash.DomainSet A)) :
    Except Fault (Ret × DomainSetNet (Hash.DomainSet A)) :=
  if malformedTest attr then return (.err .dsetErrProtocol, inst)
  else match attr.setname.bind inst.findSetAndId, tb with
  | none, _ => return (.err .enoent, inst)
  | _, none => return (.err .dsetErrProtocol, inst)
  | some (s, i), some tb => do
    let r ← uadtTest jhash2 (jiffiesAt A now) s.data tb
    return (if r.1 then .ok else .err .dsetErrExist, inst.setSlot i (some { s with data := r.2 }))

end DomainSetNet

/-! ### The specification -/

/-- A set: the settings it was made with, and its keys. -/
structure NamedSet (A : Arch) where
  settings : Hash.DomainSet A
  keys : KeySet

abbrev NamedSets (A : Arch) := SetName → Option (NamedSet A)

/-- The sets at a tick; while all of them are destroyed no command gets in. -/
structure NamedState (A : Arch) where
  now : ℕ
  destroying : Bool
  sets : NamedSets A

/-- A step: one of `Net`, the requests about elements with their replies, and a call that the type
of a set makes by itself, for a packet or for its timer. -/
inductive SetsCall (A : Arch) where
  | move (m : Move (Hash.DomainSet A) (Htable A)) (ret : Ret) (events : List DumpEvent)
  | ad (adt : DsetAdt) (req : AdRequest) (reply : AdReply)
  | test (attr : CmdAttrs) (tb : Option AdtAttrs) (ret : Ret)
  | type (name : SetName) (c : Call)

def laterKeys (s : KeySet) (now : ℕ) : KeySet :=
  { s with now := now, live := s.live.remaining now }

def flushed (x : NamedSet A) (now : ℕ) : NamedSet A :=
  { x with keys := { x.keys with now := now, live := .empty } }

namespace NamedSets

variable (m m' : NamedSets A)

def setKeys (name : SetName) (x : NamedSet A) (keys : KeySet) : NamedSets A :=
  Function.update m name (some { x with keys := keys })

/-- What a command does to the sets when it returns zero at a tick. -/
def Commands (now : ℕ) : Move (Hash.DomainSet A) (Htable A) → Prop
  | .create attr exist o => ∃ name, attr.setname = some name ∧
      (exist = true ∧ m name ≠ none ∧ m' = m ∨ m name = none ∧ ∃ set, o.create = .ok set ∧
        m' = Function.update m name (some ⟨set, ⟨set.withTimeout, now, .empty⟩⟩))
  | .destroy _ name => m name ≠ none ∧ m' = Function.update m name none
  | .flush attr =>
    match attr.setname with
    | some name => m name ≠ none ∧
        m' = Function.update m name ((m name).map fun x => flushed x now)
    | none => m' = fun name => (m name).map fun x => flushed x now
  | .rename attr => ∃ name name2, attr.setname = some name ∧ attr.setname2 = some name2 ∧
      m name ≠ none ∧ m name2 = none ∧
      m' = Function.update (Function.update m name none) name2 (m name)
  | .swap attr => ∃ name name2, attr.setname = some name ∧ attr.setname2 = some name2 ∧
      m name ≠ none ∧ m name2 ≠ none ∧
      m' = Function.update (Function.update m name (m name2)) name2 (m name)
  | _ => False

/-- Nothing but time passes, over one set. -/
def Passes (now : ℕ) : Prop :=
  m' = m ∨ ∃ name x, m name = some x ∧ m' = m.setKeys name x (laterKeys x.keys now)

/-- `add` and `del` carry out their elements, up to one that is refused. -/
def Ads (now now' : ℕ) (adt : DsetAdt) (req : AdRequest) (reply : AdReply) : Prop :=
  if req.malformed then reply = .ack (.err .dsetErrProtocol) ∧ m' = m
  else ∃ name, req.attr.setname = some name ∧
    match m name with
    | none => reply = .ack (.err .enoent) ∧ m' = m
    | some x => ∃ keys, keys.now ≤ now' ∧ ElementsOutcome x.settings adt req.exist req.lineno
        (laterKeys x.keys now) keys req.elements reply ∧ m' = m.setKeys name x keys

/-- `test` finds what is alive. -/
def Tests (now : ℕ) (attr : CmdAttrs) (tb : Option AdtAttrs) (ret : Ret) : Prop :=
  if malformedTest attr then ret = .err .dsetErrProtocol ∧ m' = m
  else ∃ name, attr.setname = some name ∧
    match m name, tb with
    | none, _ => ret = .err .enoent ∧ m' = m
    | some _, none => ret = .err .dsetErrProtocol ∧ m' = m
    | some x, some tb => (ret = .ok ∨ ret = .err .dsetErrExist) ∧
        (ret = .ok ↔ ∃ q, adtRequest x.settings tb = .ok q ∧ x.keys.live.remaining now q.1 ≠ none) ∧
        m' = m.setKeys name x (laterKeys x.keys now)

end NamedSets

/-- The meaning of a step of `Net`. A command that fails changes nothing; the one that destroys
all sets takes them away one by one, and lets no other command in before they are gone. -/
def NamedState.Moves (s s' : NamedState A) (m : Move (Hash.DomainSet A) (Htable A)) (ret : Ret) :
    Prop :=
  match m with
  | .destroyAll _ => s.destroying = false ∧ s'.destroying = decide (ret = .ok) ∧ s'.sets = s.sets
  | .destroyNext => s.destroying = true ∧
      (s'.destroying = true ∧ (s'.sets = s.sets ∨ ∃ name, s'.sets = Function.update s.sets name none) ∨
        s'.destroying = false ∧ s'.sets = fun _ => none)
  | .checkentry _ _ | .emChange _ _ | .holder _ _ | .dump _ | .session _ _ =>
    s'.destroying = s.destroying ∧ s.sets.Passes s'.sets s'.now
  | .data _ _ _ => False
  | m => s.destroying = false ∧ s'.destroying = false ∧
      if ret = .ok then s.sets.Commands s'.sets s'.now m else s'.sets = s.sets

/-- The named sets and everything that happens to them. -/
def namedSystem (A : Arch) (start : ℕ) : System (NamedState A) (SetsCall A) where
  init s := s = ⟨start, false, fun _ => none⟩
  step s c s' := s.now ≤ s'.now ∧
    match c with
    | .move m ret _ => s.Moves s' m ret
    | .ad adt req reply => s.destroying = false ∧ s'.destroying = false ∧
        s.sets.Ads s'.sets s.now s'.now adt req reply
    | .test attr tb ret => s.destroying = false ∧ s'.destroying = false ∧
        s.sets.Tests s'.sets s'.now attr tb ret
    | .type name c => s'.destroying = s.destroying ∧ c.now = s'.now ∧
        ∃ x keys, s.sets name = some x ∧ (keySetSystem A start).step x.keys c keys ∧
          s'.sets = s.sets.setKeys name x keys

/-! ### The implementation -/

def Net.ret {δ π : Type} (v : Variant δ π) (s : Net δ π) : Move δ π → Ret
  | .create attr exist o => (s.inst.domainSetCreate v attr exist o).1
  | .destroy attr setname => (s.inst.domainSetDestroy attr setname).1
  | .destroyAll attr => (s.inst.domainSetDestroyAll attr).1
  | .flush attr => (s.inst.domainSetFlush v attr).1
  | .rename attr => (s.inst.domainSetRename attr).1
  | .swap attr => (s.inst.domainSetSwap attr).1
  | _ => .ok

/-- A request has left the array `inst`, and other tables in what sessions keep of a set. -/
def Net.Requested {δ π : Type} (s s' : Net δ π) (inst : DomainSetNet δ) : Prop :=
  s.destroying = none ∧ ∃ id g,
    s' = { s with inst := inst, sessions := s.sessions.map (Session.changePriv id g) }

/-- The sets are of the hash type, made without `forceadd`, and listed by its functions; their
type changes them in calls of its own only. -/
def HashMove (jhash2 : HashDomainElem → BitVec 32 → BitVec 32) (now : ℕ) :
    Move (Hash.DomainSet A) (Htable A) → Prop
  | .create _ _ o => ∀ set, o.create = .ok set → (setSystem A jhash2 false).init set
  | .session _ (.list fns _) => ∃ c : ListCall A, fns = c.fns ∧ c.head = jiffiesAt A now
  | .data _ _ _ => False
  | _ => True

/-- A namespace of hash sets over a clock that stays within half the range of `jiffies`. -/
def setsSystem (A : Arch) (jhash2 : HashDomainElem → BitVec 32 → BitVec 32) (start fuel : ℕ) :
    System (ℕ × Net (Hash.DomainSet A) (Htable A)) (SetsCall A) where
  init s := s.1 = start ∧ (netSystem mtypeVariant).init s.2
  step s c s' := s.1 ≤ s'.1 ∧ s'.1 ≤ start + 2 ^ (A.longBits - 1) ∧
    match c with
    | .move m ret events => HashMove jhash2 s'.1 m ∧ s.2.ret mtypeVariant m = ret ∧
        (netSystem mtypeVariant).step s.2 ⟨m, events⟩ s'.2
    | .ad adt req reply => TimelyElements s.1 req.elements s'.1 ∧
        (∀ x ∈ req.elements, ∀ tb, x.2 = some tb → tb.Padded) ∧ ∃ inst,
        s.2.inst.domainSetAd jhash2 adt req fuel = .ok (some (reply, inst)) ∧ s.2.Requested s'.2 inst
    | .test attr tb ret => (∀ tb', tb = some tb' → tb'.Padded) ∧ ∃ inst,
        s.2.inst.domainSetUtest jhash2 s'.1 attr tb = .ok (ret, inst) ∧ s.2.Requested s'.2 inst
    | .type name c => c.now = s'.1 ∧ ∃ i set data g, s.2.inst.domainSet i = some set ∧
        set.name = name ∧ c.op.Accepted set.data ∧
        (setSystem A jhash2 false).step set.data c data ∧
        s'.2 = s.2.changeData i (fun _ => data) g

end Dset.Core
