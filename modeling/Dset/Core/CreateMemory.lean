import Dset.Hash.List
import Dset.Hash.ResizeMemory
import Dset.Core.Lookup

/-! `domain_set_create` with all it takes on its way: the blocks of the set, of its
`struct htype`, of its table and of the slot array, a reference to the module of the type,
and the timer of the garbage collection. What is taken is known at each of the labels
`cleanup`, `put_out` and `out`, and each label hands back what it stands for, so that an error
and a set that is there already leave everything as it was. Without blocks, references and
timers this is the command of the core. -/

namespace Dset.Core

open Dset.Lib

variable {A : Hash.Arch} {π : Type}

/-! ### The kernel around a set -/

structure SetType where
  type : DomainSetType
  me : ℕ

/-- The type specific part of a set, with the block of the set itself, that of its
`struct htype` and those of its table. -/
structure HeapSet (A : Hash.Arch) where
  addr : ℕ
  h : ℕ
  t : Hash.NewTable A
  set : Hash.DomainSet A

def HeapSet.blocks (s : HeapSet A) : List ℕ := s.t.blocks ++ [s.h, s.addr]

/-- The timer of a set, by the `struct htype` it is part of. -/
def HeapSet.timer (s : HeapSet A) : List ℕ := if s.set.withTimeout then [s.h] else []

/-- The sets of a namespace, the block of their array, the registered types, the references
to modules, the timers that run and the memory. -/
structure Kernel (A : Hash.Arch) where
  inst : DomainSetNet (HeapSet A)
  list : ℕ
  types : List SetType
  moduleRefs : ℕ → ℕ
  timers : List ℕ
  heap : Heap

/-- How the calls of `domain_set_create` end: the allocations, `request_module` with the types
that are registered behind it, `try_module_get`, and the parsing of the nested attributes. -/
structure CreateCalls where
  kzalloc : Bool
  requestModule : Bool
  loaded : List SetType
  tryModuleGet : Bool
  nlaParseNested : Option Hash.CreateAttrs
  allocHtype : Bool
  allocTable : Bool
  initval : BitVec 32
  kvcalloc : Bool

namespace Kernel

variable (k : Kernel A)

/-- A block is allocated; it is the `next` of the heap before. -/
def alloc : Kernel A := { k with heap := k.heap.alloc.2 }

def kfree (p : ℕ) : Kernel A := { k with heap := k.heap.free p }

def moduleGet (me : ℕ) : Kernel A :=
  { k with moduleRefs := Function.update k.moduleRefs me (k.moduleRefs me + 1) }

def modulePut (me : ℕ) : Kernel A :=
  { k with moduleRefs := Function.update k.moduleRefs me (k.moduleRefs me - 1) }

/-- `mtype_gc_init`. -/
def gcInit (h : ℕ) : Kernel A := { k with timers := h :: k.timers }

def delTimerSync (h : ℕ) : Kernel A := { k with timers := k.timers.erase h }

def findSetType (name : SetName) (family revision : ℕ) : Option SetType :=
  k.types.find? fun t => strncmp t.type.name name &&
    (t.type.family == family || t.type.family == nfprotoUnspec) &&
    t.type.revisionMin ≤ revision && revision ≤ t.type.revisionMax

/-- `__find_set_type_get` as far as under `rcu_read_lock`; none when no type has the name. -/
def tryFindSetType (c : CreateCalls) (name : SetName) (family revision : ℕ) :
    Option (Except Errno SetType × Kernel A) :=
  match k.findSetType name family revision with
  | some type =>
    some (if c.tryModuleGet then (.ok type, k.moduleGet type.me) else (.error .efault, k))
  | none =>
    if k.types.any (strncmp ·.type.name name) then some (.error .dsetErrFindType, k) else none

/-- `find_set_type_get`: `__find_set_type_get`, and once more behind `load_settype`. -/
def findSetTypeGet (c : CreateCalls) (name : SetName) (family revision : ℕ) :
    Except Errno SetType × Kernel A :=
  match k.tryFindSetType c name family revision with
  | some r => r
  | none =>
    let k := { k with types := c.loaded }
    if !c.requestModule then (.error .dsetErrFindType, k)
    else (k.tryFindSetType c name family revision).getD (.error .dsetErrFindType, k)

/-- `hash_domain_create` for the set at `addr`. -/
def hashDomainCreate (c : CreateCalls) (addr family : ℕ) (tb : Hash.CreateAttrs) :
    Except Errno (HeapSet A) × Kernel A :=
  if family ≠ nfprotoUnspec then (.error .dsetErrInvalidFamily, k)
  else if !(Hash.domainSetOptattrNetorder tb.hashsize && Hash.domainSetOptattrNetorder tb.maxelem &&
      Hash.domainSetOptattrNetorder tb.timeout && Hash.domainSetOptattrNetorder tb.cadtFlags) then
    (.error .dsetErrProtocol, k)
  else
    let hashsize := (tb.hashsize.map fun a => max a.value Hash.dsetMiminalHashsize).getD
      Hash.dsetDefaultHashsize
    let maxelem := (tb.maxelem.map Hash.Nlattr.value).getD Hash.dsetDefaultMaxelem
    if !c.allocHtype then (.error .enomem, k)
    else
      let h := k.heap.next
      let k := k.alloc
      let hbits := Hash.htableBits hashsize
      if Hash.htableSize A hbits = 0 then (.error .enomem, k.kfree h)
      else if !c.allocTable then (.error .enomem, k.kfree h)
      else
        let t := k.heap.next
        let k := k.alloc
        let k := if tb.timeout.isSome then k.gcInit h else k
        (.ok ⟨addr, h, ⟨t, List.replicate (Hash.jhashSize hbits) none⟩,
          Hash.emptySet A tb maxelem hbits c.initval⟩, k)

def mtypeDestroy (s : HeapSet A) : Kernel A :=
  let k := if s.set.withTimeout then k.delTimerSync s.h else k
  { k with heap :=
      (Hash.mtypeAhashDestroy s.set.extensions s.t true s.set.acct k.heap).2.free s.h }

/-- Label `out`. -/
def out (addr : ℕ) : Kernel A := k.kfree addr

def putOut (me addr : ℕ) : Kernel A := (k.modulePut me).out addr

def cleanup (me : ℕ) (s : HeapSet A) : Kernel A := (k.mtypeDestroy s).putOut me s.addr

/-- The array of `i` slots that takes the place of the old one. -/
def growList (i : ℕ) : Kernel A :=
  let list := k.heap.next
  let k := k.alloc
  { k with inst := k.inst.grow (i - k.inst.domainSetMax), list := list, heap := k.heap.free k.list }

/-- `domain_set(inst, index) = set`. -/
def addSet (index : ℕ) (set : DomainSet (HeapSet A)) : Kernel A :=
  { k with inst := { k.inst.setSlot index (some set) with nextId := k.inst.nextId + 1 } }

def domainSetCreate (attr : CmdAttrs) (exist : Bool) (c : CreateCalls) : Ret × Kernel A :=
  match attr.setname, attr.typename, attr.revision, attr.family with
  | some name, some typename, some revision, some family =>
    if protocolMinFailed attr || attr.data == some false then (.err .dsetErrProtocol, k)
    else if !c.kzalloc then (.err .enomem, k)
    else
      let addr := k.heap.next
      match k.alloc.findSetTypeGet c typename family revision with
      | (.error e, k) => (.err e, k.out addr)
      | (.ok type, k) =>
        match if attr.data.isSome then c.nlaParseNested else some ⟨none, none, none, none⟩ with
        | none => (.err .dsetErrProtocol, k.putOut type.me addr)
        | some tb =>
          match k.hashDomainCreate c addr family tb with
          | (.error e, k) => (.err e, k.putOut type.me addr)
          | (.ok data, k) =>
            let set : DomainSet (HeapSet A) :=
              ⟨k.inst.nextId, name, type.type, family, revision, 0, 0, data⟩
            match k.inst.findFreeId name with
            | .eexist clash =>
              if exist && strncmp set.type.name clash.type.name &&
                  set.type.family == clash.type.family &&
                  set.type.revisionMin == clash.type.revisionMin &&
                  set.type.revisionMax == clash.type.revisionMax &&
                  Hash.mtypeSameSet data.set clash.data.set
              then (.ok, k.cleanup type.me data) else (.err .eexist, k.cleanup type.me data)
            | .maxSets =>
              -- a `domain_set_id_t`
              let i := (k.inst.domainSetMax + domainSetInc) % 2 ^ 16
              if i < k.inst.domainSetMax ∨ i = dsetInvalidId then
                (.err .dsetErrMaxSets, k.cleanup type.me data)
              else if !c.kvcalloc then (.err .dsetErrMaxSets, k.cleanup type.me data)
              else (.ok, (k.growList i).addSet k.inst.domainSetMax set)
            | .free index => (.ok, k.addSet index set)
  | _, _, _, _ => (.err .dsetErrProtocol, k)

/-! ### Without memory -/

/-- Without blocks and timer this is the `hash_domain_create` of the set type. -/
theorem hashDomainCreate_set (c : CreateCalls) (addr family : ℕ) (tb : Hash.CreateAttrs) :
    (k.hashDomainCreate c addr family tb).1.map (·.set) =
      Hash.hashDomainCreate A (family = nfprotoUnspec) tb c.allocHtype c.allocTable c.initval := by
  unfold Kernel.hashDomainCreate Hash.hashDomainCreate
  by_cases hfamily : family = nfprotoUnspec
  · simp only [hfamily, ne_eq, not_true_eq_false, if_false, decide_true, Bool.not_true,
      Bool.false_eq_true]
    split
    · rfl
    split
    · rfl
    split
    · rfl
    split <;> rfl
  · simp only [hfamily, ne_eq, not_false_eq_true, if_true, decide_false, Bool.not_false]
    rfl

/-- How the calls of the command end, as the core tells them apart. -/
def outcomes (attr : CmdAttrs) (c : CreateCalls) : CreateOutcomes (HeapSet A) :=
  match attr.typename, attr.revision, attr.family with
  | some typename, some revision, some family =>
    let r := k.alloc.findSetTypeGet c typename family revision
    { kzalloc := c.kzalloc
      findSetTypeGet := r.1.map (·.type)
      nlaParseNested := c.nlaParseNested.isSome
      create :=
        match if attr.data.isSome then c.nlaParseNested else some ⟨none, none, none, none⟩ with
        | none => .error .dsetErrProtocol
        | some tb => (r.2.hashDomainCreate c k.heap.next family tb).1
      kvcalloc := c.kvcalloc }
  | _, _, _ =>
    ⟨c.kzalloc, .error .dsetErrProtocol, false, .error .dsetErrProtocol, c.kvcalloc⟩

/-! ### What is taken -/

theorem blocksOf_none (n : ℕ) :
    Hash.blocksOf (List.replicate n (none : Option (ℕ × Hash.Hbucket A))) = [] :=
  List.flatMap_eq_nil_iff.mpr fun o ho => by
    rw [List.eq_of_mem_replicate ho]
    rfl

/-- Between `k` and `k'` these blocks, references to modules and timers were taken, and
everything else that was taken went back; the sets and their array are the same. -/
structure Took (k k' : Kernel A) (blocks modules timers : List ℕ) : Prop where
  inst : k'.inst = k.inst
  list : k'.list = k.list
  moduleRefs : ∀ m, k'.moduleRefs m = k.moduleRefs m + modules.count m
  timers : k'.timers = timers ++ k.timers
  heap : k.heap.Holds k'.heap blocks

namespace Took

variable {k} {k' : Kernel A} {blocks modules timers : List ℕ}

theorem refl (k : Kernel A) : Took k k [] [] [] :=
  ⟨rfl, rfl, fun _ => rfl, rfl, .refl _⟩

theorem alloc (h : Took k k' blocks modules timers) :
    Took k k'.alloc (k'.heap.next :: blocks) modules timers :=
  { h with heap := h.heap.alloc }

theorem kfree {p : ℕ} (h : Took k k' (p :: blocks) modules timers) :
    Took k (k'.kfree p) blocks modules timers :=
  { h with heap := h.heap.free }

theorem moduleGet (h : Took k k' blocks modules timers) (me : ℕ) :
    Took k (k'.moduleGet me) blocks (me :: modules) timers where
  inst := h.inst
  list := h.list
  moduleRefs m := by
    show Function.update k'.moduleRefs me (k'.moduleRefs me + 1) m = _
    rw [List.count_cons, Function.update_apply]
    by_cases hm : m = me
    · subst hm
      rw [if_pos rfl, h.moduleRefs, if_pos (beq_self_eq_true m)]
      omega
    · rw [if_neg hm, h.moduleRefs, if_neg (by simpa using Ne.symm hm), Nat.add_zero]
  timers := h.timers
  heap := h.heap

theorem modulePut {me : ℕ} (h : Took k k' blocks (me :: modules) timers) :
    Took k (k'.modulePut me) blocks modules timers where
  inst := h.inst
  list := h.list
  moduleRefs m := by
    have hrefs := h.moduleRefs m
    rw [List.count_cons] at hrefs
    show Function.update k'.moduleRefs me (k'.moduleRefs me - 1) m = _
    rw [Function.update_apply]
    by_cases hm : m = me
    · subst hm
      rw [if_pos (beq_self_eq_true m)] at hrefs
      rw [if_pos rfl, hrefs]
      omega
    · rw [if_neg hm, hrefs, if_neg (by simpa using Ne.symm hm), Nat.add_zero]
  timers := h.timers
  heap := h.heap

theorem gcInit (h : Took k k' blocks modules timers) (p : ℕ) :
    Took k (k'.gcInit p) blocks modules (p :: timers) :=
  { h with timers := congrArg (p :: ·) h.timers }

theorem delTimerSync {p : ℕ} (h : Took k k' blocks modules (p :: timers)) :
    Took k (k'.delTimerSync p) blocks modules timers where
  inst := h.inst
  list := h.list
  moduleRefs := h.moduleRefs
  timers := by
    show k'.timers.erase p = _
    rw [h.timers, List.cons_append, List.erase_cons_head]
  heap := h.heap

theorem loaded (h : Took k k' blocks modules timers) (types : List SetType) :
    Took k { k' with types := types } blocks modules timers := { h with }

theorem mtypeDestroy {s : HeapSet A}
    (h : Took k k' (s.blocks ++ blocks) modules (s.timer ++ timers)) :
    Took k (k'.mtypeDestroy s) (s.addr :: blocks) modules timers := by
  have htimer : Took k (if s.set.withTimeout then k'.delTimerSync s.h else k')
      (s.blocks ++ blocks) modules timers := by
    unfold HeapSet.timer at h
    split at h
    next hx =>
      rw [if_pos hx]
      exact h.delTimerSync
    next hx =>
      rw [if_neg hx]
      exact h
  unfold Kernel.mtypeDestroy
  generalize (if s.set.withTimeout then k'.delTimerSync s.h else k') = k1 at htimer ⊢
  have hheap := htimer.heap
  rw [HeapSet.blocks, List.append_assoc] at hheap
  have hdestroy := Hash.mtypeAhashDestroy_holds s.set.extensions true s.set.acct hheap
  exact { htimer with heap := hdestroy.free }

theorem out {addr : ℕ} (h : Took k k' (addr :: blocks) modules timers) :
    Took k (k'.out addr) blocks modules timers := h.kfree

theorem putOut {me addr : ℕ} (h : Took k k' (addr :: blocks) (me :: modules) timers) :
    Took k (k'.putOut me addr) blocks modules timers := h.modulePut.out

theorem cleanup {me : ℕ} {s : HeapSet A}
    (h : Took k k' (s.blocks ++ blocks) (me :: modules) (s.timer ++ timers)) :
    Took k (k'.cleanup me s) blocks modules timers := h.mtypeDestroy.putOut

theorem tryFindSetType (h : Took k k' blocks modules timers) {c : CreateCalls} {name : SetName}
    {family revision : ℕ} {r : Except Errno SetType × Kernel A}
    (hr : k'.tryFindSetType c name family revision = some r) :
    match r.1 with
    | .error _ => Took k r.2 blocks modules timers
    | .ok type => Took k r.2 blocks (type.me :: modules) timers := by
  unfold Kernel.tryFindSetType at hr
  split at hr
  · obtain rfl := Option.some.inj hr
    cases c.tryModuleGet with
    | true => exact h.moduleGet _
    | false => exact h
  · split at hr
    · obtain rfl := Option.some.inj hr
      exact h
    · cases hr

theorem findSetTypeGet (h : Took k k' blocks modules timers) {c : CreateCalls} {name : SetName}
    {family revision : ℕ} {r : Except Errno SetType × Kernel A}
    (hr : k'.findSetTypeGet c name family revision = r) :
    match r.1 with
    | .error _ => Took k r.2 blocks modules timers
    | .ok type => Took k r.2 blocks (type.me :: modules) timers := by
  unfold Kernel.findSetTypeGet at hr
  split at hr
  next r' hr' =>
    subst hr
    exact h.tryFindSetType hr'
  next =>
    have hloaded := h.loaded c.loaded
    simp only at hr
    split at hr
    · subst hr
      exact hloaded
    generalize hk : ({ k' with types := c.loaded } : Kernel A) = k1 at hr hloaded
    cases hr' : k1.tryFindSetType c name family revision with
    | none =>
      rw [hr'] at hr
      subst hr
      exact hloaded
    | some r' =>
      rw [hr'] at hr
      subst hr
      exact hloaded.tryFindSetType hr'

/-- The blocks and the timer of the set, or none. -/
theorem hashDomainCreate {addr : ℕ} (h : Took k k' (addr :: blocks) modules timers)
    {c : CreateCalls} {family : ℕ} {tb : Hash.CreateAttrs}
    {r : Except Errno (HeapSet A) × Kernel A} (hr : k'.hashDomainCreate c addr family tb = r) :
    match r.1 with
    | .error _ => Took k r.2 (addr :: blocks) modules timers
    | .ok s => Took k r.2 (s.blocks ++ blocks) modules (s.timer ++ timers) ∧ s.addr = addr := by
  unfold Kernel.hashDomainCreate at hr
  split at hr
  · subst hr
    exact h
  split at hr
  · subst hr
    exact h
  simp only at hr
  split at hr
  · subst hr
    exact h
  split at hr
  · subst hr
    exact h.alloc.kfree
  split at hr
  · subst hr
    exact h.alloc.kfree
  subst hr
  refine ⟨?_, rfl⟩
  have hblocks := h.alloc.alloc
  simp only [HeapSet.blocks, HeapSet.timer, Hash.NewTable.blocks, blocksOf_none]
  by_cases htimeout : tb.timeout.isSome = true
  · rw [if_pos htimeout, if_pos (show Hash.DomainSet.withTimeout _ = true from htimeout)]
    exact hblocks.gcInit _
  · rw [if_neg htimeout, if_neg (show ¬ Hash.DomainSet.withTimeout _ = true from htimeout)]
    exact hblocks

end Took

/-! ### Create -/

/-- A set was made in slot `i`: it has its blocks, a reference to the module of its type and its
timer. Where the array grew, the new array took the place of the old one. -/
structure Made (k k' : Kernel A) (i : ℕ) (set : DomainSet (HeapSet A)) (type : SetType) :
    Prop where
  created : Created k.inst k'.inst i set
  ofType : set.type = type.type
  moduleRefs : ∀ m, k'.moduleRefs m = k.moduleRefs m + [type.me].count m
  timers : k'.timers = set.data.timer ++ k.timers
  heap : (k'.list = k.list ∧ k'.inst.domainSetMax = k.inst.domainSetMax ∧
      k.heap.Holds k'.heap set.data.blocks) ∨
    (i = k.inst.domainSetMax ∧ k.inst.domainSetMax < k'.inst.domainSetMax ∧
      (k.heap.free k.list).Holds k'.heap (k'.list :: set.data.blocks))

section

variable {k} {k' : Kernel A} {set : DomainSet (HeapSet A)} {type : SetType}

theorem Took.made (h : Took k k' (set.data.blocks ++ []) [type.me] (set.data.timer ++ []))
    (hfresh : k.inst.Fresh set) (htype : set.type = type.type) {index : ℕ}
    (hfree : k.inst.findFreeId set.name = .free index) :
    Made k (k'.addSet index set) index set type := by
  rw [List.append_nil, List.append_nil] at h
  have hcreated : Created k.inst (k'.addSet index set).inst index set := by
    rw [addSet, h.inst]
    exact hfresh.created hfree
  exact
    { created := hcreated
      ofType := htype
      moduleRefs := h.moduleRefs
      timers := h.timers
      heap := .inl ⟨h.list, (DomainSetNet.setSlot_max _ _ _).trans (by rw [h.inst]), h.heap⟩ }

theorem Took.made_grow (h : Took k k' (set.data.blocks ++ []) [type.me] (set.data.timer ++ []))
    (hfresh : k.inst.Fresh set) (htype : set.type = type.type)
    (hfull : k.inst.findFreeId set.name = .maxSets) {i : ℕ} (hi : k.inst.domainSetMax < i)
    (hvalid : i < dsetInvalidId) :
    Made k ((k'.growList i).addSet k.inst.domainSetMax set) k.inst.domainSetMax set type := by
  rw [List.append_nil, List.append_nil] at h
  have hinst : ((k'.growList i).addSet k.inst.domainSetMax set).inst =
      { (k.inst.grow (i - k.inst.domainSetMax)).setSlot k.inst.domainSetMax (some set) with
        nextId := k.inst.nextId + 1 } := by
    show { (k'.inst.grow (i - k'.inst.domainSetMax)).setSlot k.inst.domainSetMax (some set) with
        nextId := k'.inst.nextId + 1 } = _
    rw [h.inst]
  have hmax : k.inst.domainSetMax <
      ((k'.growList i).addSet k.inst.domainSetMax set).inst.domainSetMax := by
    rw [hinst]
    show _ < ((k.inst.grow _).setSlot _ _).domainSetMax
    rw [DomainSetNet.setSlot_max, DomainSetNet.grow_max]
    omega
  have hheap : (k.heap.free k.list).Holds (k'.heap.alloc.2.free k'.list)
      (k'.heap.next :: set.data.blocks) := by
    rw [h.list]
    exact h.heap.alloc.freeBefore k.list
  exact
    { created := by
        rw [hinst]
        exact hfresh.created_grow hfull hi hvalid
      ofType := htype
      moduleRefs := h.moduleRefs
      timers := h.timers
      heap := .inr ⟨rfl, hmax, hheap⟩ }

end

inductive CreateResult (k : Kernel A) (attr : CmdAttrs) (exist : Bool) : Ret → Kernel A → Prop
  | failed (e : Errno) (k' : Kernel A) (h : Took k k' [] [] []) :
      CreateResult k attr exist (.err e) k'
  | existed (name : SetName) (clash : DomainSet (HeapSet A)) (k' : Kernel A)
      (hname : attr.setname = some name) (hclash : k.inst.findSet name = some clash)
      (hexist : exist = true) (h : Took k k' [] [] []) : CreateResult k attr exist .ok k'
  | made (name : SetName) (i : ℕ) (set : DomainSet (HeapSet A)) (type : SetType) (k' : Kernel A)
      (hname : attr.setname = some name) (hnew : k.inst.findSet name = none)
      (hset : set.name = name) (h : Made k k' i set type) : CreateResult k attr exist .ok k'

/-- Nothing is changed by a create that fails or finds the same set there; a new name gets one
slot that was empty, and one reference to the module of its type is taken. -/
theorem create_restores_or_makes (attr : CmdAttrs) (exist : Bool) (c : CreateCalls) :
    CreateResult k attr exist (k.domainSetCreate attr exist c).1
      (k.domainSetCreate attr exist c).2 := by
  have hstart : Took k k [] [] [] := .refl k
  unfold domainSetCreate
  split
  · rename_i name typename revision family hname _ _ _
    split
    · exact .failed _ _ hstart
    split
    · exact .failed _ _ hstart
    simp only
    split
    · rename_i e k1 hr
      exact .failed _ _ (hstart.alloc.findSetTypeGet hr).out
    rename_i type k1 hr
    have htype : Took k k1 [k.heap.next] [type.me] [] := hstart.alloc.findSetTypeGet hr
    split
    · exact .failed _ _ htype.putOut
    split
    · rename_i e k2 hr
      exact .failed _ _ (htype.hashDomainCreate hr).putOut
    rename_i data k2 hr
    obtain ⟨hdata, haddr⟩ := htype.hashDomainCreate hr
    have hcleanup : Took k (k2.cleanup type.me data) [] [] [] := hdata.cleanup
    obtain ⟨inst, list, types, moduleRefs, timers, heap⟩ := k2
    obtain rfl : inst = k.inst := hdata.inst
    set s : DomainSet (HeapSet A) :=
      ⟨k.inst.nextId, name, type.type, family, revision, 0, 0, data⟩
    have hfresh : k.inst.Fresh s := ⟨rfl, rfl, rfl⟩
    have hnew (h : ∀ clash, k.inst.findFreeId name ≠ .eexist clash) :
        k.inst.findSet name = none :=
      DomainSetNet.findSet_eq_none (DomainSetNet.findFreeId_noClash h)
    split
    · rename_i clash hclash
      split
      · rename_i hsame
        have hexist : exist = true := by
          simp only [Bool.and_eq_true] at hsame
          exact hsame.1.1.1.1.1
        exact .existed name clash _ hname (DomainSetNet.findFreeId_eexist hclash) hexist hcleanup
      · exact .failed _ _ hcleanup
    · rename_i hfull
      split
      · exact .failed _ _ hcleanup
      split
      · exact .failed _ _ hcleanup
      rename_i hwrap _
      obtain ⟨hlt, hvalid⟩ := DomainSetNet.grown_lt rfl hwrap
      have hname' := hnew fun clash heq => by rw [hfull] at heq; cases heq
      exact .made name _ s type _ hname hname' rfl
        (hdata.made_grow hfresh rfl hfull hlt hvalid)
    · rename_i index hfree
      have hname' := hnew fun clash heq => by rw [hfree] at heq; cases heq
      exact .made name _ s type _ hname hname' rfl (hdata.made hfresh rfl hfree)
  · exact .failed _ _ hstart

/-- The slots are those that the command of the core leaves. -/
theorem domainSetCreate_inst (v : Variant (HeapSet A) π)
    (hv : ∀ a b, v.sameSet a b = Hash.mtypeSameSet a.set b.set) (attr : CmdAttrs) (exist : Bool)
    (c : CreateCalls) :
    ((k.domainSetCreate attr exist c).1, (k.domainSetCreate attr exist c).2.inst) =
      k.inst.domainSetCreate v attr exist (k.outcomes attr c) := by
  obtain ⟨protocol, setname, setname2, typename, revision, family, data⟩ := attr
  unfold domainSetCreate DomainSetNet.domainSetCreate outcomes
  cases setname with
  | none => rfl
  | some name =>
  cases typename with
  | none => rfl
  | some typename =>
  cases revision with
  | none => rfl
  | some revision =>
  cases family with
  | none => rfl
  | some family =>
  simp only
  have hstart : Took k k.alloc [k.heap.next] [] [] := (Took.refl k).alloc
  split
  · rfl
  split
  · rfl
  generalize hr : k.alloc.findSetTypeGet c typename family revision = r
  have htype := hstart.findSetTypeGet hr
  obtain ⟨e | type, k1⟩ := r
  · exact congrArg (Prod.mk _) htype.out.inst
  simp only [Except.map]
  have htype : Took k k1 [k.heap.next] [type.me] [] := htype
  generalize htb : (if data.isSome = true then c.nlaParseNested
    else some ⟨none, none, none, none⟩) = tb
  cases tb with
  | none =>
    simp only
    split <;> exact congrArg (Prod.mk _) htype.putOut.inst
  | some tb =>
    have hparsed : (data.isSome && !c.nlaParseNested.isSome) = false := by
      cases data with
      | none => rfl
      | some nested =>
        have htb : c.nlaParseNested = some tb := htb
        rw [htb]
        rfl
    simp only [hparsed, Bool.false_eq_true, if_false]
    generalize hr : k1.hashDomainCreate c k.heap.next family tb = r
    have hdata := htype.hashDomainCreate hr
    obtain ⟨e | s, k2⟩ := r
    · exact congrArg (Prod.mk _) hdata.putOut.inst
    obtain ⟨hdata, -⟩ := hdata
    have hcleanup : (k2.cleanup type.me s).inst = k.inst := hdata.cleanup.inst
    obtain ⟨inst, list, types, moduleRefs, timers, heap⟩ := k2
    obtain rfl : inst = k.inst := hdata.inst
    simp only
    cases k.inst.findFreeId name with
    | eexist clash =>
      simp only [hv]
      split <;> exact congrArg (Prod.mk _) hcleanup
    | maxSets =>
      simp only
      split
      · exact congrArg (Prod.mk _) hcleanup
      split
      · exact congrArg (Prod.mk _) hcleanup
      · rfl
    | free index => rfl

end Kernel

end Dset.Core
