import Dset.Hash.Timeout

/-! The extensions of a record: how a request fills them, what destroying them
gives back, and the match test of a lookup (`domain_set.h`,
`domain_set_core.c`). -/

namespace Dset.Hash

section
variable (A : Arch)

/-- `sizeof(struct rcu_head)`: two pointers. -/
def sizeofRcuHead : ℕ := 2 * (A.longBits / 8)

/-- `sizeof(struct hbucket)`: the RCU head, 64 bits of bitmap and the two bytes
`size` and `pos`, rounded up for the array of values. -/
def sizeofHbucket : ℕ := sizeofRcuHead A + 8 + 8

/-- `ext_size(n, dsize)`. -/
def extSize (n dsize : ℕ) : ℕ := sizeofHbucket A + n * dsize

/-- `sizeof(struct domain_set_comment_rcu) + strlen(c->str) + 1`. -/
def commentSize (c : DomainSetCommentRcu) : ℕ := sizeofRcuHead A + c.str.length + 1

end

variable {A : Arch}

/-- `domain_set_comment_free`, the pointer being cleared by the caller. -/
def domainSetCommentFree (A : Arch) (a : Accounts) : Option DomainSetCommentRcu → Accounts
  | none => a
  | some c => { a with extSize := a.extSize - commentSize A c, freed := c.addr :: a.freed }

def domainSetExtDestroy (x : Extensions) (a : Accounts) (r : Record A) : Accounts × Record A :=
  if x.comment then (domainSetCommentFree A a r.comment, { r with comment := none }) else (a, r)

/-- `domain_set_init_comment`; `alloc` is the outcome of its `kmalloc`. -/
def domainSetInitComment (A : Arch) (alloc : Bool) (a : Accounts)
    (c : Option DomainSetCommentRcu) (ext : DomainSetExt) :
    Accounts × Option DomainSetCommentRcu :=
  let len := (ext.comment.getD []).length
  let a := domainSetCommentFree A a c
  if len = 0 then (a, none)
  else if !alloc then (a, none)
  else
    let c : DomainSetCommentRcu :=
      ⟨a.nextAddr, (ext.comment.getD []).take (min len dsetMaxCommentSize)⟩
    ({ a with extSize := a.extSize + commentSize A c, nextAddr := a.nextAddr + 1 }, some c)

/-- `domain_set_init_counter`: a value that is not given leaves the counter. -/
def domainSetInitCounter (c : DomainSetCounter) (ext : DomainSetExt) : DomainSetCounter where
  bytes := if ext.bytes != ullongMax then ext.bytes else c.bytes
  packets := if ext.packets != ullongMax then ext.packets else c.packets

/-- The lines of `mtype_add` behind `overwrite_extensions`. -/
def overwriteExtensions (x : Extensions) (jiffies : BitVec A.longBits) (alloc : Bool)
    (a : Accounts) (r : Record A) (ext : DomainSetExt) : Accounts × Record A :=
  let r := if x.counter then { r with counter := domainSetInitCounter r.counter ext } else r
  let p := if x.comment then domainSetInitComment A alloc a r.comment ext else (a, r.comment)
  let r := { r with comment := p.2 }
  let r := if x.skbinfo then { r with skbinfo := ext.skbinfo } else r
  let r := if x.timeout then { r with timeout := domainSetTimeoutSet jiffies ext.timeout } else r
  (p.1, r)

def domainSetMatchCounter (counter mtch : BitVec 64) (op : ℕ) : Bool :=
  match op with
  | 0 => true
  | 1 => counter == mtch
  | 2 => counter != mtch
  | 3 => counter.ult mtch
  | 4 => mtch.ult counter
  | _ => false

def domainSetUpdateCounter (c : DomainSetCounter) (ext : DomainSetExt) (flags : CmdFlags) :
    DomainSetCounter :=
  if ext.packets != ullongMax && !flags.skipCounterUpdate then
    ⟨c.bytes + ext.bytes, c.packets + ext.packets⟩
  else c

/-- The conditions of `domain_set_match_extensions` on one record. -/
def extensionsMatch (x : Extensions) (jiffies : BitVec A.longBits) (mext : DomainSetExt)
    (flags : CmdFlags) (r : Record A) : Bool :=
  !(x.timeout && domainSetTimeoutExpired jiffies r.timeout) &&
    !(x.counter && flags.matchCounters &&
      !(domainSetMatchCounter r.counter.packets mext.packets mext.packetsOp &&
        domainSetMatchCounter r.counter.bytes mext.bytes mext.bytesOp))

/-- `domain_set_match_extensions`: nothing, or the record with its counters
moved on and the values handed back in `mext`. -/
def domainSetMatchExtensions (x : Extensions) (jiffies : BitVec A.longBits) (ext mext : DomainSetExt)
    (flags : CmdFlags) (r : Record A) : Option (Record A × DomainSetExt) :=
  if x.timeout && domainSetTimeoutExpired jiffies r.timeout then none
  else if x.counter && flags.matchCounters &&
      !(domainSetMatchCounter r.counter.packets mext.packets mext.packetsOp &&
        domainSetMatchCounter r.counter.bytes mext.bytes mext.bytesOp) then none
  else
    some (if x.counter then { r with counter := domainSetUpdateCounter r.counter ext flags } else r,
      if x.skbinfo then { mext with skbinfo := r.skbinfo } else mext)

theorem domainSetMatchExtensions_isSome (x : Extensions) (jiffies : BitVec A.longBits)
    (ext mext : DomainSetExt) (flags : CmdFlags) (r : Record A) :
    (domainSetMatchExtensions x jiffies ext mext flags r).isSome =
      extensionsMatch x jiffies mext flags r := by
  unfold domainSetMatchExtensions extensionsMatch
  split <;> rename_i h1 <;> simp only [h1]
  · rfl
  split <;> rename_i h2 <;> simp only [h2] <;> rfl

/-- A matching lookup touches nothing of the record but its counters. -/
theorem domainSetMatchExtensions_frame {x : Extensions} {jiffies : BitVec A.longBits}
    {ext mext : DomainSetExt} {flags : CmdFlags} {r r' : Record A} {mext' : DomainSetExt}
    (h : domainSetMatchExtensions x jiffies ext mext flags r = some (r', mext')) :
    r'.elem = r.elem ∧ r'.timeout = r.timeout ∧ r'.skbinfo = r.skbinfo ∧
      r'.comment = r.comment := by
  unfold domainSetMatchExtensions at h
  split at h
  · cases h
  split at h
  · cases h
  · simp only [Option.some.injEq, Prod.mk.injEq] at h
    obtain ⟨rfl, -⟩ := h
    split <;> simp

end Dset.Hash
