import Dset.Core.Commands
import Dset.Lib.Run
import Mathlib.Order.MinMax

/-! The registered set types of the kernel (`domain_set_type_register`,
`domain_set_type_unregister`). Types are known by their addresses. A new type is looked for at
its least revision and its own family alone, so that it can overlap a registered one from below,
and one of any family is not compared with those of a single one. As long as no such type is
registered, no name, family and revision is served by two types. -/

namespace Dset.Core

open Dset.Lib List

/-- `struct domain_set_type` with the protocol of its module. -/
structure TypeStruct where
  protocol : ℕ
  type : DomainSetType
  deriving DecidableEq

variable {ι : Type}

section

variable [DecidableEq ι] (info : ι → TypeStruct)

def matchesType (name : SetName) (family revision : ℕ) (t : ι) : Bool :=
  strncmp (info t).type.name name &&
    ((info t).type.family == family || (info t).type.family == nfprotoUnspec) &&
    (info t).type.revisionMin ≤ revision && revision ≤ (info t).type.revisionMax

/-- `find_set_type`, in `domain_set_type_list`. -/
def findType (types : List ι) (name : SetName) (family revision : ℕ) : Option ι :=
  types.find? (matchesType info name family revision)

/-- What `find_set_type` says about a type that is registered or unregistered. -/
def findLeast (types : List ι) (t : ι) : Option ι :=
  findType info types (info t).type.name (info t).type.family (info t).type.revisionMin

/-- `domain_set_type_register`; none when the list is left broken, a node being added twice. -/
def domainSetTypeRegister (types : List ι) (t : ι) : Option (Ret × List ι) :=
  if (info t).protocol ≠ dsetProtocol then some (.err .einval, types)
  else if (findLeast info types t).isSome then some (.err .einval, types)
  else if t ∈ types then none
  else some (.ok, t :: types)

/-- `domain_set_type_unregister`; none when a node that is not in the list is deleted. -/
def domainSetTypeUnregister (types : List ι) (t : ι) : Option (List ι) :=
  if (findLeast info types t).isNone then some types
  else if t ∈ types then some (types.erase t)
  else none

inductive TypeCall (ι : Type) where
  | register (t : ι)
  | unregister (t : ι)

def TypeCall.run (types : List ι) : TypeCall ι → Option (List ι)
  | .register t => (domainSetTypeRegister info types t).map (·.2)
  | .unregister t => domainSetTypeUnregister info types t

/-- The registry: an empty list, and the calls of the modules. -/
def typeRegistry : System (List ι) (TypeCall ι) where
  init types := types = []
  step types call types' := call.run info types = some types'

/-- No name, family and revision is served by two types. -/
def Unambiguous (types : List ι) : Prop :=
  ∀ t ∈ types, ∀ t' ∈ types, ∀ name family revision,
    matchesType info name family revision t = true →
    matchesType info name family revision t' = true → t = t'

/-- Two types of one name that share a family and a revision. -/
def Overlap (t t' : ι) : Prop :=
  let a := (info t).type
  let b := (info t').type
  a.name = b.name ∧
    (a.family = b.family ∨ a.family = nfprotoUnspec ∨ b.family = nfprotoUnspec) ∧
    max a.revisionMin b.revisionMin ≤ min a.revisionMax b.revisionMax

/-- The calls that keep the list unambiguous: a type that is registered overlaps with none that is
there, or one is found in its place. -/
def Allowed (types : List ι) : TypeCall ι → Prop
  | .register t => (info t).protocol ≠ dsetProtocol ∨ (findLeast info types t).isSome = true ∨
      ∀ t' ∈ types, ¬ Overlap info t' t
  | .unregister _ => True

end

variable {info : ι → TypeStruct}

theorem matchesType_iff {name : SetName} {family revision : ℕ} {t : ι} :
    matchesType info name family revision t = true ↔ (info t).type.name = name ∧
      ((info t).type.family = family ∨ (info t).type.family = nfprotoUnspec) ∧
      (info t).type.revisionMin ≤ revision ∧ revision ≤ (info t).type.revisionMax := by
  simp [matchesType, strncmp_iff, and_assoc]

/-- `find_set_type` of the commands, which looks for the type behind the address. -/
theorem findType_type (types : List ι) (name : SetName) (family revision : ℕ) :
    (findType info types name family revision).map (fun t => (info t).type) =
      findSetType (types.map fun t => (info t).type) name family revision := by
  unfold findType findSetType
  rw [List.find?_map]
  rfl

/-- Types that overlap are those that serve a request in common. -/
theorem overlap_iff {t t' : ι} : Overlap info t t' ↔ ∃ name family revision,
    matchesType info name family revision t = true ∧
      matchesType info name family revision t' = true := by
  simp only [matchesType_iff]
  constructor
  · rintro ⟨hname, hfamily, hrev⟩
    have hle := le_min_iff.mp hrev
    have hmin := max_le_iff.mp hle.1
    have hmax := max_le_iff.mp hle.2
    refine ⟨(info t).type.name, if (info t).type.family = nfprotoUnspec then
      (info t').type.family else (info t).type.family,
      max (info t).type.revisionMin (info t').type.revisionMin,
      ⟨rfl, ?_, le_max_left _ _, hle.1⟩, hname.symm, ?_, le_max_right _ _, hle.2⟩
    · split
      next h => exact .inr h
      next => exact .inl rfl
    · split
      next => exact .inl rfl
      next h =>
        rcases hfamily with hfamily | hfamily | hfamily
        · exact .inl hfamily.symm
        · exact absurd hfamily h
        · exact .inr hfamily
  · rintro ⟨name, family, revision, ⟨hn, hf, h1, h2⟩, hn', hf', h1', h2'⟩
    refine ⟨hn.trans hn'.symm, ?_, (max_le h1 h1').trans (le_min h2 h2')⟩
    rcases hf with hf | hf
    · rcases hf' with hf' | hf'
      · exact .inl (hf.trans hf'.symm)
      · exact .inr (.inr hf')
    · exact .inr (.inl hf)

/-- An unambiguous list serves a request with the one type that matches, wherever it stands. -/
theorem Unambiguous.findType_perm {types types' : List ι} (h : Unambiguous info types)
    (hperm : types' ~ types) (name : SetName) (family revision : ℕ) :
    findType info types' name family revision = findType info types name family revision := by
  unfold findType
  cases hfind : types.find? (matchesType info name family revision) with
  | none =>
    rw [List.find?_eq_none] at hfind ⊢
    exact fun t ht => hfind t (hperm.subset ht)
  | some t =>
    have hmem := List.mem_of_find?_eq_some hfind
    have ht := List.find?_some hfind
    cases hfind' : types'.find? (matchesType info name family revision) with
    | none => exact absurd ht (List.find?_eq_none.mp hfind' t (hperm.symm.subset hmem))
    | some t' =>
      have hmem' := hperm.subset (List.mem_of_find?_eq_some hfind')
      exact congrArg some (h t' hmem' t hmem _ _ _ (List.find?_some hfind') ht)

/-- A type is found at its least revision, unless its range is empty. -/
theorem findLeast_isSome {types : List ι} {t : ι} (ht : t ∈ types)
    (hrange : (info t).type.revisionMin ≤ (info t).type.revisionMax) :
    (findLeast info types t).isSome = true := by
  unfold findLeast findType
  rw [List.find?_isSome]
  exact ⟨t, ht, matchesType_iff.mpr ⟨rfl, .inl rfl, le_rfl, hrange⟩⟩

variable [DecidableEq ι]

theorem TypeCall.run_cases {types types' : List ι} {call : TypeCall ι}
    (h : call.run info types = some types') :
    types' = types ∨
      (∃ t, call = .register t ∧ (info t).protocol = dsetProtocol ∧
        findLeast info types t = none ∧ t ∉ types ∧ types' = t :: types) ∨
      ∃ t, call = .unregister t ∧ t ∈ types ∧ types' = types.erase t := by
  cases call with
  | register t =>
    obtain ⟨r, hr, hr2⟩ := Option.map_eq_some_iff.mp h
    unfold domainSetTypeRegister at hr
    split at hr
    · obtain rfl := Option.some.inj hr
      exact .inl hr2.symm
    next hprotocol =>
      split at hr
      · obtain rfl := Option.some.inj hr
        exact .inl hr2.symm
      next hfind =>
        split at hr
        · cases hr
        next hmem =>
          obtain rfl := Option.some.inj hr
          exact .inr (.inl ⟨t, rfl, not_not.mp hprotocol,
            Option.not_isSome_iff_eq_none.mp hfind, hmem, hr2.symm⟩)
  | unregister t =>
    have h : domainSetTypeUnregister info types t = some types' := h
    unfold domainSetTypeUnregister at h
    split at h
    · exact .inl (Option.some.inj h).symm
    · split at h
      next hmem => exact .inr (.inr ⟨t, rfl, hmem, (Option.some.inj h).symm⟩)
      · cases h

/-- One call keeps the list unambiguous if and only if it is allowed. -/
theorem unambiguous_step {types types' : List ι} {call : TypeCall ι}
    (h : Unambiguous info types) (hstep : call.run info types = some types') :
    Unambiguous info types' ↔ Allowed info types call := by
  rcases TypeCall.run_cases hstep with rfl | ⟨t, rfl, hprotocol, hfind, hmem, rfl⟩ |
    ⟨t, rfl, -, rfl⟩
  · refine iff_of_true h ?_
    cases call with
    | unregister t => trivial
    | register t =>
      by_contra hnot
      obtain ⟨hprotocol, hnot⟩ := not_or.mp hnot
      obtain ⟨hfind, -⟩ := not_or.mp hnot
      obtain ⟨r, hr, hr2⟩ := Option.map_eq_some_iff.mp hstep
      rw [domainSetTypeRegister, if_neg hprotocol, if_neg hfind] at hr
      split at hr
      · cases hr
      · obtain rfl := Option.some.inj hr
        exact absurd (congrArg List.length hr2) (by simp)
  · constructor
    · intro hu
      refine .inr (.inr fun t' ht' hoverlap => hmem ?_)
      obtain ⟨name, family, revision, h1, h2⟩ := overlap_iff.mp hoverlap
      have heq := hu t' (mem_cons_of_mem t ht') t mem_cons_self name family revision h1 h2
      exact heq ▸ ht'
    · rintro (hp | hf | hno)
      · exact absurd hprotocol hp
      · rw [hfind] at hf
        cases hf
      · intro a ha b hb name family revision h1 h2
        rcases mem_cons.mp ha with ht | ha
        · rcases mem_cons.mp hb with ht' | hb
          · exact ht.trans ht'.symm
          · rw [ht] at h1
            exact absurd (overlap_iff.mpr ⟨name, family, revision, h2, h1⟩) (hno b hb)
        · rcases mem_cons.mp hb with ht' | hb
          · rw [ht'] at h2
            exact absurd (overlap_iff.mpr ⟨name, family, revision, h1, h2⟩) (hno a ha)
          · exact h a ha b hb name family revision h1 h2
  · refine iff_of_true (fun a ha b hb => ?_) trivial
    exact h a (List.mem_of_mem_erase ha) b (List.mem_of_mem_erase hb)

/-- No address is registered twice. -/
theorem typeRegistry_nodup {calls : List (TypeCall ι)} {types : List ι}
    (h : (typeRegistry info).Run calls types) : types.Nodup := by
  refine h.invariant ?_ ?_
  · rintro s rfl
    exact List.nodup_nil
  · intro s call s' hs hstep
    rcases TypeCall.run_cases hstep with rfl | ⟨t, -, -, -, hmem, rfl⟩ | ⟨t, -, -, rfl⟩
    · exact hs
    · exact List.nodup_cons.mpr ⟨hmem, hs⟩
    · exact hs.erase t

/-- The runs of allowed calls are those all of whose lists are unambiguous; in these, requests are
served alike in whatever order the types stand. In every run, a registered type that is found
when it is unregistered, as each one with a revision is, leaves the list, and no other does. -/
theorem type_registry_unambiguous (info : ι → TypeStruct) (calls : List (TypeCall ι))
    (types : List ι) :
    (((typeRegistry info).guard (Allowed info)).Run calls types ↔
      ((typeRegistry info).within (Unambiguous info)).Run calls types) ∧
    (((typeRegistry info).guard (Allowed info)).Run calls types →
      Unambiguous info types ∧ ∀ types', types' ~ types → ∀ name family revision,
        findType info types' name family revision = findType info types name family revision) ∧
    ((typeRegistry info).Run calls types → ∀ t ∈ types,
      ((findLeast info types t).isSome = true ↔
        ∃ types', domainSetTypeUnregister info types t = some types' ∧
          t ∉ types' ∧ types ~ t :: types') ∧
      ((info t).type.revisionMin ≤ (info t).type.revisionMax →
        (findLeast info types t).isSome = true)) := by
  have hiff : ((typeRegistry info).guard (Allowed info)).Run calls types ↔
      ((typeRegistry info).within (Unambiguous info)).Run calls types := by
    apply System.Run.guard_iff_within
    · rintro s rfl t ht
      cases ht
    · intro s call s' hs hstep
      exact unambiguous_step hs hstep
  refine ⟨hiff, fun h => ?_, fun h t ht => ⟨?_, findLeast_isSome ht⟩⟩
  · have hun := (hiff.mp h).of_within.2
    exact ⟨hun, fun types' hperm => hun.findType_perm hperm⟩
  · have hnodup := typeRegistry_nodup h
    constructor
    · intro hfind
      refine ⟨types.erase t, ?_, hnodup.not_mem_erase, perm_cons_erase ht⟩
      unfold domainSetTypeUnregister
      rw [if_neg (by simpa using Option.isSome_iff_ne_none.mp hfind), if_pos ht]
    · rintro ⟨types', hun, hnot, -⟩
      by_contra hfind
      unfold domainSetTypeUnregister at hun
      rw [if_pos (by simpa using hfind)] at hun
      obtain rfl := Option.some.inj hun
      exact hnot ht

/-- Revision 1 alone, and revisions 0 to 4 behind it. -/
def overlapping (late : Bool) : TypeStruct :=
  ⟨dsetProtocol, if late then ⟨hashDomainName, nfprotoUnspec, 0, 4, 1⟩
    else ⟨hashDomainName, nfprotoUnspec, 1, 1, 1⟩⟩

/-- Revision 1 of `hash:domain` is served by two types. -/
theorem type_registry_ambiguous :
    ¬ ∀ (info : Bool → TypeStruct) (calls : List (TypeCall Bool)) (types : List Bool),
      (typeRegistry info).Run calls types → Unambiguous info types := by
  intro h
  have hrun : (typeRegistry overlapping).Run [.register false, .register true] [true, false] :=
    .snoc (l := [TypeCall.register false]) (.snoc (l := []) (.start rfl) rfl) rfl
  have hone := h overlapping _ _ hrun true (by decide) false (by decide) hashDomainName
    nfprotoUnspec 1 (by decide) (by decide)
  exact absurd hone (by decide)

end Dset.Core
