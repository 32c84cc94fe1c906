import Dset.Core.Lookup
import Dset.Core.Names
import Dset.Lib.Run
import Mathlib.Data.List.Nodup

/-! The sets the library knows (`types.c`): a list of names and types that mirrors the
commands the kernel acknowledged. Adding compares the name with all entries but the
last, and the caller ignores what the list operations return, so that an acknowledged
`-exist` create can leave two entries of one name. The entries agree with the kernel as
long as this does not happen and no set of another type or revision takes the place of
one that is known. -/

namespace Dset.User

open Dset.Lib Dset.Core

variable {δ π : Type}

/-- `struct dset_type`, as far as it says which type of set it is. -/
structure DsetType where
  name : SetName
  revision : ℕ
  deriving DecidableEq

/-- `struct dset` of the list `setlist`. -/
structure CachedSet where
  name : SetName
  type : DsetType
  deriving DecidableEq

def dsetHashDomain0 : DsetType := ⟨hashDomainName, 0⟩

/-! ### The list -/

/-- The loop of `dset_cache_add`, which ends at the last entry without a look at it. -/
def dsetCacheAppend (n : CachedSet) : List CachedSet → Option (List CachedSet)
  | [] => some [n]
  | [s] => some [s, n]
  | s :: t :: setlist =>
    if n.name = s.name then none else (dsetCacheAppend n (t :: setlist)).map (s :: ·)

/-- `dset_cache_add`; `malloc` tells whether there is memory for the entry. -/
def dsetCacheAdd (malloc : Bool) (name : SetName) (type : DsetType) (setlist : List CachedSet) :
    Ret × List CachedSet :=
  if !malloc then (.err .enomem, setlist)
  else match dsetCacheAppend ⟨name, type⟩ setlist with
  | none => (.err .eexist, setlist)
  | some setlist => (.ok, setlist)

def dsetCacheDel (name : Option SetName) (setlist : List CachedSet) : Ret × List CachedSet :=
  match name with
  | none => (.ok, [])
  | some name =>
    if setlist.any (·.name = name) then (.ok, setlist.eraseP (·.name = name))
    else (.err .eexist, setlist)

/-- `dset_cache_rename`: the first entry with the name. -/
def dsetCacheRename (name name2 : SetName) (setlist : List CachedSet) : Ret × List CachedSet :=
  match setlist.findIdx? (·.name = name) with
  | none => (.err .eexist, setlist)
  | some i => (.ok, setlist.modify i fun s => { s with name := name2 })

/-- `dset_cache_swap`: the first entries with the names, if there are both. -/
def dsetCacheSwap (name name2 : SetName) (setlist : List CachedSet) : Ret × List CachedSet :=
  match setlist.findIdx? (·.name = name), setlist.findIdx? (·.name = name2) with
  | some a, some b =>
    (.ok, (setlist.modify a fun s => { s with name := name2 }).modify b
      fun s => { s with name := name })
  | _, _ => (.err .eexist, setlist)

/-! ### The commands and their acknowledgement -/

/-- A command on sets, as the library's data name it. -/
inductive SetCmd where
  | create (name : SetName) (type : DsetType)
  | destroy (name : Option SetName)
  | rename (name name2 : SetName)
  | swap (name name2 : SetName)
  deriving DecidableEq

def SetCmd.attrs : SetCmd → CmdAttrs
  | .create name type => ⟨some dsetProtocol, some name, none, some type.name, some type.revision,
      some nfprotoUnspec, some true⟩
  | .destroy name => ⟨some dsetProtocol, name, none, none, none, none, none⟩
  | .rename name name2 | .swap name name2 =>
    ⟨some dsetProtocol, some name, some name2, none, none, none, none⟩

/-- `callback_error` at an acknowledgement; what the list operations return is ignored. -/
def callbackAck (malloc : Bool) (cmd : SetCmd) (setlist : List CachedSet) : List CachedSet :=
  match cmd with
  | .create name type => (dsetCacheAdd malloc name type setlist).2
  | .destroy name => (dsetCacheDel name setlist).2
  | .rename name name2 => (dsetCacheRename name name2 setlist).2
  | .swap name name2 => (dsetCacheSwap name name2 setlist).2

/-- A command that destroys all sets, up to its end. -/
def destroySlots (inst : DomainSetNet δ) : DomainSetNet δ :=
  { inst with domainSetList := inst.domainSetList.map fun _ => none, isDestroyed := false }

/-- What the kernel makes of a command; `exist` is the flag of its message. -/
def kernelCmd (v : Variant δ π) (exist : Bool) (o : CreateOutcomes δ) (inst : DomainSetNet δ)
    (cmd : SetCmd) : Ret × DomainSetNet δ :=
  match cmd with
  | .create .. => inst.domainSetCreate v cmd.attrs exist o
  | .destroy none =>
    match inst.domainSetDestroyAll cmd.attrs with
    | (.ok, inst) => (.ok, destroySlots inst)
    | (.err e, inst) => (.err e, inst)
  | .destroy (some name) => inst.domainSetDestroy cmd.attrs name
  | .rename .. => inst.domainSetRename cmd.attrs
  | .swap .. => inst.domainSetSwap cmd.attrs

/-- One command of the session, with the outcomes of what it calls. -/
structure CacheLabel (δ : Type) where
  cmd : SetCmd
  exist : Bool
  outcomes : CreateOutcomes δ
  malloc : Bool

/-- The type a create finds is one that `find_set_type` finds. -/
def CacheLabel.FindsType (l : CacheLabel δ) : Prop :=
  ∀ name type t, l.cmd = .create name type → l.outcomes.findSetTypeGet = .ok t →
    ∃ types, findSetType types type.name nfprotoUnspec type.revision = some t

structure CacheState (δ : Type) where
  inst : DomainSetNet δ
  setlist : List CachedSet

/-- A session that starts with an empty cache and any sets in the kernel, and the commands
it issues that the kernel acknowledges. -/
def cacheSystem (v : Variant δ π) : System (CacheState δ) (CacheLabel δ) where
  init s := s.setlist = []
  step s l s' := l.FindsType ∧ ∃ inst,
    kernelCmd v l.exist l.outcomes s.inst l.cmd = (.ok, inst) ∧
      s' = ⟨inst, callbackAck l.malloc l.cmd s.setlist⟩

def headerOf (inst : DomainSetNet δ) (name : SetName) : Option DsetType :=
  (inst.findSet name).map fun s => ⟨s.type.name, s.revision⟩

/-- No name twice, and every entry is a set of the kernel with its type. -/
structure CacheState.Truthful (s : CacheState δ) : Prop where
  nodup : (s.setlist.map (·.name)).Nodup
  agrees : ∀ e ∈ s.setlist, headerOf s.inst e.name = some e.type

def CacheState.Knows (s : CacheState δ) (name : SetName) : Prop :=
  ∃ e ∈ s.setlist, e.name = name

/-- The steps that keep the cache truthful: a create that only finds the set there already
does not meet it in the last entry of the cache, and names its revision when the cache does
not know it; two sets swapped of which the cache knows one are of one type and revision. -/
def CacheKeeps (s : CacheState δ) (l : CacheLabel δ) : Prop :=
  match l.cmd with
  | .create name type =>
    headerOf s.inst name = none ∨ l.malloc = false ∨
      (∃ e ∈ s.setlist.dropLast, e.name = name) ∨
      ¬ s.Knows name ∧ headerOf s.inst name = some type
  | .swap name name2 =>
    (s.Knows name ↔ s.Knows name2) ∨ headerOf s.inst name = headerOf s.inst name2
  | _ => True

/-! ### What the kernel says afterwards -/

/-- A create makes a set that was not there, or finds one of the type's name. -/
theorem kernelCmd_create {v : Variant δ π} {l : CacheLabel δ} (hfinds : l.FindsType)
    {inst inst' : DomainSetNet δ} {name : SetName} {type : DsetType}
    (hcmd : l.cmd = .create name type)
    (h : kernelCmd v l.exist l.outcomes inst l.cmd = (.ok, inst')) :
    (headerOf inst name = none ∧
        ∀ n, headerOf inst' n = if n = name then some type else headerOf inst n) ∨
      ∃ t, headerOf inst name = some t ∧ inst' = inst := by
  rw [hcmd, kernelCmd] at h
  rcases DomainSetNet.domainSetCreate_cases v (SetCmd.create name type).attrs l.exist l.outcomes with
    ⟨e, heq⟩ | ⟨name', clash, t, heq, hname, hfind, ht, htype, -⟩ |
      ⟨i, set, inst1, heq, hc, hname, ht, hrev⟩
  · rw [h] at heq
    cases heq
  · rw [h] at heq
    cases heq
    cases hname
    refine .inr ⟨⟨clash.type.name, clash.revision⟩, ?_, rfl⟩
    rw [headerOf, hfind]
    rfl
  · rw [h] at heq
    cases heq
    cases hname
    obtain ⟨types, htypes⟩ := hfinds _ _ _ hcmd ht
    have hset : (⟨set.type.name, set.revision⟩ : DsetType) = type := by
      have hname := findSetType_some htypes
      have hrev : type.revision = set.revision := Option.some.inj hrev
      rw [hname, ← hrev]
    refine .inl ⟨?_, fun n => ?_⟩
    · rw [headerOf, DomainSetNet.findSet_eq_none hc.name]
      rfl
    · rw [headerOf, hc.findSet]
      split
      · rw [Option.map_some, hset]
      · rfl

theorem kernelCmd_destroy {v : Variant δ π} {exist : Bool} {o : CreateOutcomes δ}
    {inst inst' : DomainSetNet δ} {name : SetName}
    (h : kernelCmd v exist o inst (.destroy (some name)) = (.ok, inst')) {n : SetName}
    (hn : n ≠ name) : headerOf inst' n = headerOf inst n := by
  rw [headerOf, DomainSetNet.domainSetDestroy_findSet h hn]
  rfl

theorem kernelCmd_rename {v : Variant δ π} {exist : Bool} {o : CreateOutcomes δ}
    {inst inst' : DomainSetNet δ} {name name2 : SetName}
    (h : kernelCmd v exist o inst (.rename name name2) = (.ok, inst')) :
    headerOf inst name2 = none ∧ headerOf inst' name2 = headerOf inst name ∧
      ∀ n, n ≠ name → n ≠ name2 → headerOf inst' n = headerOf inst n := by
  rw [kernelCmd] at h
  obtain ⟨hnone, ⟨s, hs, hs'⟩, hother⟩ := DomainSetNet.domainSetRename_findSet h rfl rfl
  refine ⟨?_, ?_, fun n h1 h2 => ?_⟩
  · rw [headerOf, hnone]
    rfl
  · rw [headerOf, headerOf, hs, hs']
    rfl
  · rw [headerOf, hother n h1 h2]
    rfl

theorem kernelCmd_swap {v : Variant δ π} {exist : Bool} {o : CreateOutcomes δ}
    {inst inst' : DomainSetNet δ} {name name2 : SetName}
    (h : kernelCmd v exist o inst (.swap name name2) = (.ok, inst')) :
    headerOf inst' name = headerOf inst name2 ∧ headerOf inst' name2 = headerOf inst name ∧
      ∀ n, n ≠ name → n ≠ name2 → headerOf inst' n = headerOf inst n := by
  rw [kernelCmd] at h
  obtain ⟨⟨s, t, hs, ht, hs', ht'⟩, hother⟩ := DomainSetNet.domainSetSwap_findSet h rfl rfl
  refine ⟨?_, ?_, fun n h1 h2 => ?_⟩
  · rw [headerOf, headerOf, ht, hs']
    rfl
  · rw [headerOf, headerOf, hs, ht']
    rfl
  · rw [headerOf, hother n h1 h2]
    rfl

/-! ### What the list operations do -/

theorem dsetCacheAppend_eq (n : CachedSet) (setlist : List CachedSet) :
    dsetCacheAppend n setlist =
      if ∃ e ∈ setlist.dropLast, e.name = n.name then none else some (setlist ++ [n]) := by
  induction setlist with
  | nil => simp [dsetCacheAppend]
  | cons s l ih =>
    cases l with
    | nil => simp [dsetCacheAppend]
    | cons t l =>
      rw [dsetCacheAppend, ih]
      by_cases hs : n.name = s.name
      · simp [hs]
      · have hs' : ¬ s.name = n.name := Ne.symm hs
        simp only [hs, if_false, List.dropLast_cons_cons, List.mem_cons, exists_eq_or_imp, hs',
          false_or, apply_ite (Option.map _), Option.map_none, Option.map_some, List.cons_append]

/-- In a list without a name twice, the entry with a name is at one place. -/
theorem name_eq_iff {setlist : List CachedSet} (hn : (setlist.map (·.name)).Nodup)
    {name : SetName} {a j : ℕ} {s : CachedSet}
    (ha : setlist.findIdx? (·.name = name) = some a) (hs : setlist[j]? = some s) :
    s.name = name ↔ j = a := by
  obtain ⟨hlt, hname, -⟩ := List.findIdx?_eq_some_iff_getElem.mp ha
  simp only [decide_eq_true_eq] at hname
  obtain ⟨hj, hget⟩ := List.getElem?_eq_some_iff.mp hs
  constructor
  · intro h
    have hj' : j < (setlist.map (·.name)).length := by simpa using hj
    have ha' : a < (setlist.map (·.name)).length := by simpa using hlt
    refine (@List.Nodup.getElem_inj_iff _ _ hn j hj' a ha').mp ?_
    rw [List.getElem_map, List.getElem_map, hget, hname, h]
  · rintro rfl
    rw [← hname, ← hget]

theorem dsetCacheRename_eq {setlist : List CachedSet} (hn : (setlist.map (·.name)).Nodup)
    (name name2 : SetName) : (dsetCacheRename name name2 setlist).2 =
      setlist.map fun s => if s.name = name then { s with name := name2 } else s := by
  unfold dsetCacheRename
  split
  · rename_i hnone
    rw [List.findIdx?_eq_none_iff] at hnone
    conv_lhs => rw [← List.map_id setlist]
    refine List.map_congr_left fun s hs => ?_
    have := hnone s hs
    simp only [decide_eq_false_iff_not] at this
    rw [if_neg this]
    rfl
  · rename_i a ha
    refine List.ext_getElem? fun j => ?_
    rw [List.getElem?_modify, List.getElem?_map]
    cases hs : setlist[j]? with
    | none => simp
    | some s =>
      have := name_eq_iff hn ha hs
      by_cases hj : a = j
      · simp [hj, this.mpr hj.symm]
      · simp [hj, mt this.mp (Ne.symm hj)]

theorem findIdx?_name_eq_none {setlist : List CachedSet} {name : SetName} :
    setlist.findIdx? (·.name = name) = none ↔ ¬ ∃ e ∈ setlist, e.name = name := by
  simp [List.findIdx?_eq_none_iff]

/-- Swapping two names the list has, one entry at a time. -/
theorem dsetCacheSwap_eq {setlist : List CachedSet} (hn : (setlist.map (·.name)).Nodup)
    {name name2 : SetName} (h : ∃ e ∈ setlist, e.name = name)
    (h2 : ∃ e ∈ setlist, e.name = name2) : (dsetCacheSwap name name2 setlist).2 =
      setlist.map fun s => if s.name = name then { s with name := name2 }
        else if s.name = name2 then { s with name := name } else s := by
  cases ha : setlist.findIdx? (·.name = name) with
  | none => exact absurd h (findIdx?_name_eq_none.mp ha)
  | some a =>
    cases hb : setlist.findIdx? (·.name = name2) with
    | none => exact absurd h2 (findIdx?_name_eq_none.mp hb)
    | some b =>
      simp only [dsetCacheSwap, ha, hb]
      refine List.ext_getElem? fun j => ?_
      rw [List.getElem?_modify, List.getElem?_modify, List.getElem?_map]
      cases hs : setlist[j]? with
      | none => simp
      | some s =>
        have hja := name_eq_iff hn ha hs
        have hjb := name_eq_iff hn hb hs
        by_cases h1 : j = a <;> by_cases h2 : j = b
        · have hname := hja.mpr h1
          have hname2 := hjb.mpr h2
          simp [← h1, ← h2, hname, ← hname2]
        · simp [Ne.symm h2, hja.mpr h1, ← h1]
        · have hne := mt hja.mp h1
          rw [hjb.mpr h2] at hne
          simp [Ne.symm h1, hjb.mpr h2, ← h2, hne]
        · simp [Ne.symm h1, Ne.symm h2, mt hja.mp h1, mt hjb.mp h2]

theorem dsetCacheSwap_unknown {setlist : List CachedSet} {name name2 : SetName}
    (h : ¬ ((∃ e ∈ setlist, e.name = name) ∧ ∃ e ∈ setlist, e.name = name2)) :
    (dsetCacheSwap name name2 setlist).2 = setlist := by
  cases ha : setlist.findIdx? (·.name = name) with
  | none => simp only [dsetCacheSwap, ha]
  | some a =>
    cases hb : setlist.findIdx? (·.name = name2) with
    | none => simp only [dsetCacheSwap, ha, hb]
    | some b =>
      refine absurd ⟨?_, ?_⟩ h
      · by_contra hno
        rw [findIdx?_name_eq_none.mpr hno] at ha
        cases ha
      · by_contra hno
        rw [findIdx?_name_eq_none.mpr hno] at hb
        cases hb

/-! ### One command -/

namespace CacheState.Truthful

variable {s : CacheState δ}

/-- A name the cache knows is a set of the kernel. -/
theorem header_of_knows (h : s.Truthful) {name : SetName} (hk : s.Knows name) :
    headerOf s.inst name ≠ none := by
  obtain ⟨e, he, rfl⟩ := hk
  rw [h.agrees e he]
  exact Option.some_ne_none _

/-- Renaming the entries by `g`, which keeps the names apart. -/
theorem map (h : s.Truthful) {inst' : DomainSetNet δ} (g : SetName → SetName)
    (hinj : ∀ e ∈ s.setlist, ∀ e' ∈ s.setlist, g e.name = g e'.name → e.name = e'.name)
    (hheader : ∀ e ∈ s.setlist, headerOf inst' (g e.name) = headerOf s.inst e.name) :
    CacheState.Truthful ⟨inst', s.setlist.map fun e => ⟨g e.name, e.type⟩⟩ where
  nodup := by
    have : (s.setlist.map fun e => (⟨g e.name, e.type⟩ : CachedSet)).map (·.name) =
        (s.setlist.map (·.name)).map g := by
      rw [List.map_map, List.map_map]
      rfl
    rw [this]
    refine h.nodup.map_on fun x hx y hy hxy => ?_
    obtain ⟨e, he, rfl⟩ := List.mem_map.mp hx
    obtain ⟨e', he', rfl⟩ := List.mem_map.mp hy
    exact hinj e he e' he' hxy
  agrees := by
    intro e he
    obtain ⟨e', he', rfl⟩ := List.mem_map.mp he
    rw [hheader e' he', h.agrees e' he']

theorem sublist (h : s.Truthful) {inst' : DomainSetNet δ} {setlist' : List CachedSet}
    (hsub : setlist'.Sublist s.setlist)
    (hheader : ∀ e ∈ setlist', headerOf inst' e.name = headerOf s.inst e.name) :
    CacheState.Truthful ⟨inst', setlist'⟩ where
  nodup := h.nodup.sublist (hsub.map _)
  agrees e he := (hheader e he).trans (h.agrees e (hsub.subset he))

theorem append_iff (h : s.Truthful) {inst' : DomainSetNet δ} {n : CachedSet}
    (hn : ¬ s.Knows n.name)
    (hheader : ∀ e ∈ s.setlist, headerOf inst' e.name = headerOf s.inst e.name) :
    CacheState.Truthful ⟨inst', s.setlist ++ [n]⟩ ↔ headerOf inst' n.name = some n.type := by
  constructor
  · intro h'
    exact h'.agrees n (by simp)
  · intro hn'
    refine ⟨?_, fun e he => ?_⟩
    · simp only [List.map_append, List.map_cons, List.map_nil]
      rw [List.nodup_append]
      refine ⟨h.nodup, List.nodup_singleton _, fun x hx y hy hxy => hn ?_⟩
      obtain ⟨e, he, rfl⟩ := List.mem_map.mp hx
      exact ⟨e, he, hxy.trans (List.mem_singleton.mp hy)⟩
    · rcases List.mem_append.mp he with he | he
      · exact (hheader e he).trans (h.agrees e he)
      · rw [List.mem_singleton.mp he, hn']

theorem not_append {inst' : DomainSetNet δ} {n : CachedSet}
    (hn : s.Knows n.name) : ¬ CacheState.Truthful ⟨inst', s.setlist ++ [n]⟩ := by
  intro h'
  have := h'.nodup
  simp only [List.map_append, List.map_cons, List.map_nil] at this
  rw [List.nodup_append] at this
  obtain ⟨e, he, heq⟩ := hn
  exact this.2.2 _ (List.mem_map_of_mem he) _ (List.mem_singleton_self _) heq

end CacheState.Truthful

theorem name_ne_of_mem_eraseP {setlist : List CachedSet} (hn : (setlist.map (·.name)).Nodup)
    {name : SetName} {e : CachedSet} (he : e ∈ setlist.eraseP (·.name = name)) : e.name ≠ name := by
  induction setlist with
  | nil => cases he
  | cons t l ih =>
    rw [List.map_cons, List.nodup_cons] at hn
    by_cases ht : t.name = name
    · rw [List.eraseP_cons_of_pos (by simpa using ht)] at he
      rintro heq
      exact hn.1 (List.mem_map.mpr ⟨e, he, heq.trans ht.symm⟩)
    · rw [List.eraseP_cons_of_neg (by simpa using ht)] at he
      rcases List.mem_cons.mp he with rfl | he
      · exact ht
      · exact ih hn.2 he

section Step

variable {v : Variant δ π} {s s' : CacheState δ} {l : CacheLabel δ}

theorem cacheKeeps_create (h : s.Truthful) {name : SetName} {type : DsetType}
    (hcmd : l.cmd = .create name type) (hstep : (cacheSystem v).step s l s') :
    s'.Truthful ↔ CacheKeeps s l := by
  obtain ⟨hfinds, inst', hk, rfl⟩ := hstep
  simp only [CacheKeeps, hcmd, callbackAck, dsetCacheAdd, dsetCacheAppend_eq]
  rcases kernelCmd_create hfinds hcmd hk with ⟨hnone, hheader⟩ | ⟨t, ht, rfl⟩
  · -- a new set, which the cache cannot know
    have hunknown : ¬ s.Knows name := fun hk => h.header_of_knows hk hnone
    have hlast : ¬ ∃ e ∈ s.setlist.dropLast, e.name = name := by
      rintro ⟨e, he, hname⟩
      exact hunknown ⟨e, List.dropLast_subset _ he, hname⟩
    have hsame : ∀ e ∈ s.setlist, headerOf inst' e.name = headerOf s.inst e.name := by
      intro e he
      rw [hheader, if_neg fun heq => hunknown ⟨e, he, heq⟩]
    simp only [hnone, true_or, iff_true]
    cases l.malloc with
    | false => exact h.sublist (List.Sublist.refl _) hsame
    | true =>
      simp only [Bool.not_true, Bool.false_eq_true, if_false, hlast]
      refine (h.append_iff hunknown hsame).mpr ?_
      rw [hheader, if_pos rfl]
  · simp only [ht, reduceCtorEq, false_or]
    cases l.malloc with
    | false => simpa using h.sublist (List.Sublist.refl _) fun _ _ => rfl
    | true =>
      simp only [Bool.not_true, Bool.false_eq_true, if_false, Bool.true_eq_false, false_or]
      by_cases hlast : ∃ e ∈ s.setlist.dropLast, e.name = name
      · simp only [hlast, if_true, true_or, iff_true]
        exact h
      · simp only [hlast, if_false, false_or]
        by_cases hknown : s.Knows name
        · simp only [hknown, not_true, false_and, iff_false]
          exact CacheState.Truthful.not_append hknown
        · simp only [hknown, not_false_iff, true_and, ← ht]
          exact h.append_iff hknown fun _ _ => rfl

theorem cacheKeeps_destroy (h : s.Truthful) {name : Option SetName}
    (hcmd : l.cmd = .destroy name) (hstep : (cacheSystem v).step s l s') : s'.Truthful := by
  obtain ⟨-, inst', hk, rfl⟩ := hstep
  rw [hcmd] at hk ⊢
  cases name with
  | none => exact ⟨List.nodup_nil, fun e he => by cases he⟩
  | some name =>
    simp only [callbackAck, dsetCacheDel]
    split
    · refine h.sublist List.eraseP_sublist fun e he => ?_
      exact kernelCmd_destroy hk (name_ne_of_mem_eraseP h.nodup he)
    · rename_i hany
      refine h.sublist (List.Sublist.refl _) fun e he => kernelCmd_destroy hk fun heq => hany ?_
      exact List.any_eq_true.mpr ⟨e, he, by simpa using heq⟩

theorem cacheKeeps_rename (h : s.Truthful) {name name2 : SetName}
    (hcmd : l.cmd = .rename name name2) (hstep : (cacheSystem v).step s l s') : s'.Truthful := by
  obtain ⟨-, inst', hk, rfl⟩ := hstep
  rw [hcmd] at hk ⊢
  obtain ⟨hnone, hname2, hother⟩ := kernelCmd_rename hk
  have hunknown : ∀ e ∈ s.setlist, e.name ≠ name2 :=
    fun e he heq => h.header_of_knows ⟨e, he, heq⟩ hnone
  have hmap : callbackAck l.malloc (.rename name name2) s.setlist =
      s.setlist.map fun e => ⟨if e.name = name then name2 else e.name, e.type⟩ := by
    rw [callbackAck, dsetCacheRename_eq h.nodup]
    refine List.map_congr_left fun e _ => ?_
    split <;> rfl
  rw [hmap]
  refine h.map (fun n => if n = name then name2 else n) (fun e he e' he' heq => ?_)
    fun e he => ?_
  · have := hunknown e he
    have := hunknown e' he'
    grind
  · split
    · rename_i heq
      rw [hname2, heq]
    · rename_i hne
      exact hother _ hne (hunknown e he)

theorem cacheKeeps_swap (h : s.Truthful) {name name2 : SetName} (hcmd : l.cmd = .swap name name2)
    (hstep : (cacheSystem v).step s l s') : s'.Truthful ↔ CacheKeeps s l := by
  obtain ⟨-, inst', hk, rfl⟩ := hstep
  simp only [CacheKeeps, hcmd]
  rw [hcmd] at hk
  obtain ⟨hname, hname2, hother⟩ := kernelCmd_swap hk
  by_cases hboth : s.Knows name ∧ s.Knows name2
  · have hmap : callbackAck l.malloc (.swap name name2) s.setlist = s.setlist.map fun e =>
        ⟨if e.name = name then name2 else if e.name = name2 then name else e.name, e.type⟩ := by
      rw [callbackAck, dsetCacheSwap_eq h.nodup hboth.1 hboth.2]
      refine List.map_congr_left fun e _ => ?_
      split
      · rfl
      · split <;> rfl
    simp only [hboth, true_or, iff_true]
    rw [hmap]
    refine h.map (fun n => if n = name then name2 else if n = name2 then name else n)
      (fun e _ e' _ heq => by grind) fun e he => ?_
    split
    · rename_i heq
      rw [hname2, heq]
    split
    · rename_i heq
      rw [hname, heq]
    · rename_i hne hne2
      exact hother _ hne hne2
  · have hsame : callbackAck l.malloc (.swap name name2) s.setlist = s.setlist :=
      dsetCacheSwap_unknown hboth
    rw [hsame]
    constructor
    · intro h'
      -- the entry of the name that is known says what it said before
      by_cases h1 : s.Knows name
      · obtain ⟨e, he, rfl⟩ := h1
        refine .inr ?_
        rw [h.agrees e he, ← hname, h'.agrees e he]
      by_cases h2 : s.Knows name2
      · obtain ⟨e, he, rfl⟩ := h2
        refine .inr ?_
        rw [h.agrees e he, ← hname2, h'.agrees e he]
      · exact .inl (iff_of_false h1 h2)
    · intro hkeeps
      refine h.sublist (List.Sublist.refl _) fun e he => ?_
      rcases hkeeps with hiff | heq
      · have h1 : ¬ s.Knows name := fun h1 => hboth ⟨h1, hiff.mp h1⟩
        have h2 : ¬ s.Knows name2 := fun h2 => hboth ⟨hiff.mpr h2, h2⟩
        exact hother _ (fun heq => h1 ⟨e, he, heq⟩) fun heq => h2 ⟨e, he, heq⟩
      · by_cases h1 : e.name = name
        · rw [h1, hname, heq]
        by_cases h2 : e.name = name2
        · rw [h2, hname2, heq]
        · exact hother _ h1 h2

theorem cacheKeeps_iff (h : s.Truthful) (hstep : (cacheSystem v).step s l s') :
    s'.Truthful ↔ CacheKeeps s l := by
  cases hcmd : l.cmd with
  | create name type => exact cacheKeeps_create h hcmd hstep
  | destroy name =>
    simp only [CacheKeeps, hcmd, iff_true]
    exact cacheKeeps_destroy h hcmd hstep
  | rename name name2 =>
    simp only [CacheKeeps, hcmd, iff_true]
    exact cacheKeeps_rename h hcmd hstep
  | swap name name2 => exact cacheKeeps_swap h hcmd hstep

end Step

/-- A session keeps its cache truthful all along exactly when all its commands meet
`CacheKeeps`. -/
theorem cache_truthful (v : Variant δ π) (l : List (CacheLabel δ)) (s : CacheState δ) :
    ((cacheSystem v).guard CacheKeeps).Run l s ↔
      ((cacheSystem v).within CacheState.Truthful).Run l s := by
  refine System.Run.guard_iff_within (fun s hs => ?_) fun s i s' h hstep => cacheKeeps_iff h hstep
  have hs : s.setlist = [] := hs
  exact ⟨by rw [hs]; exact List.nodup_nil, fun e he => by rw [hs] at he; cases he⟩

/-- `create a hash:domain`, then the same with `-exist`. -/
theorem cache_duplicate : ¬ ∀ (l : List (CacheLabel Unit)) (s : CacheState Unit),
    (cacheSystem bareVariant).Run l s → s.Truthful := by
  intro h
  let name : SetName := ⟨bytes "a", by decide, by decide⟩
  let create (exist : Bool) : CacheLabel Unit :=
    ⟨.create name dsetHashDomain0, exist, ⟨true, .ok hashDomainType, true, .ok (), true⟩, true⟩
  let entry : CachedSet := ⟨name, dsetHashDomain0⟩
  let inst : DomainSetNet Unit :=
    ⟨[some ⟨0, name, hashDomainType, nfprotoUnspec, 0, 0, 0, ()⟩], false, false, 1⟩
  have hfinds : ∀ exist, (create exist).FindsType := by
    rintro exist name' type t hc ht
    cases hc
    cases ht
    exact ⟨[hashDomainType], rfl⟩
  have hstart : (cacheSystem bareVariant).init ⟨⟨[none], false, false, 0⟩, []⟩ := rfl
  have hfirst : (cacheSystem bareVariant).Run ([] ++ [create false]) ⟨inst, [entry]⟩ :=
    .snoc (.start hstart) ⟨hfinds _, inst, rfl, rfl⟩
  have hrun : (cacheSystem bareVariant).Run ([] ++ [create false] ++ [create true])
      ⟨inst, [entry, entry]⟩ := .snoc hfirst ⟨hfinds _, inst, rfl, rfl⟩
  have := (h _ _ hrun).nodup
  exact absurd this (by simp [entry])

end Dset.User
