import Dset.User.Session
import Dset.User.TypeList
import Mathlib.Data.List.Pairwise
import Mathlib.Order.MinMax

/-! The revision of a set type that a `create` uses (`create_type_get`, `adt_type_get`). The
kernel reports the least and the greatest revision it knows. They are compared with the least and
the greatest registered ones; where these cross but no registered revision lies between the
kernel's, all are marked as unsupported and the missing match is written to. Otherwise the greatest
common revision is returned, whatever marks earlier lookups have left. -/

namespace Dset.User.Types

open Dset.Lib Dset.Core List

def nfprotoIpv4 : ℕ := 2

def nfprotoDsetIpv46 : ℕ := 255

/-- The answer to `DSET_CMD_TYPE`: `DSET_OPT_REVISION` and `DSET_OPT_REVISION_MIN`. -/
structure TypeReply where
  revision : ℕ
  revisionMin : Option ℕ
  deriving DecidableEq

namespace TypeReply

variable (k : TypeReply)

def kmax : ℕ := k.revision

def kmin : ℕ := k.revisionMin.getD k.revision

end TypeReply

inductive CreateError where
  | unknownSettype (typename : Str)
  | upgradeProgram (typename : Str) (family kmin tmax : ℕ)
  | upgradeKernel (typename : Str) (family kmax tmin : ℕ)
  deriving DecidableEq

/-- How `create_type_get` ends; `failed` when the kernel does not answer. -/
inductive Got (ι : Type) where
  | type (t : ι)
  | errptr (e : CreateError)
  | failed
  | nullMatch
  deriving DecidableEq

variable {ι : Type}

section

variable [DecidableEq ι] (info : ι → TypeInfo)

def dsetMatchTypename (name : Str) (t : ι) : Bool :=
  name = (info t).name || (info t).aliases.any (name = ·)

def matchFamily (t : ι) (family : ℕ) : Bool :=
  family = nfprotoUnspec || (info t).family = family || (info t).family = nfprotoDsetIpv46

def dsetTypenameResolve (typelist : List ι) (str : Str) : Option Str :=
  (typelist.find? (dsetMatchTypename info str)).map fun t => (info t).name

/-- The types a loop of `create_type_get` does not pass over. -/
def considered (marks : ι → KernelCheck) (typename : Str) (family : ℕ) (t : ι) : Bool :=
  marks t ≠ .mismatch && (dsetMatchTypename info typename t && matchFamily info t family)

/-- `match`, `tmin` and `tmax`. -/
structure Range (ι : Type) where
  first : ι
  tmin : ℕ
  tmax : ℕ

/-- What the first loop does with a type of the name. -/
def Range.extend (r : Option (Range ι)) (t : ι) : Option (Range ι) :=
  match r with
  | none => some ⟨t, (info t).revision, (info t).revision⟩
  | some r =>
    if (info t).family = (info r.first).family then some { r with tmin := (info t).revision }
    else some r

def registeredRange (marks : ι → KernelCheck) (typename : Str) (typelist : List ι) :
    Option (Range ι) :=
  typelist.foldl (fun r t =>
    if considered info marks typename nfprotoUnspec t then Range.extend info r t else r) none

def chosenFamily (first : ι) : ℕ :=
  if (info first).family = nfprotoDsetIpv46 then nfprotoIpv4 else (info first).family

/-- The body of the second loop, on `match` and the marks. -/
def disableStep (typename : Str) (family : ℕ) (k : TypeReply)
    (s : Option ι × (ι → KernelCheck)) (t : ι) : Option ι × (ι → KernelCheck) :=
  if considered info s.2 typename family t then
    if (info t).revision < k.kmin ∨ k.kmax < (info t).revision then
      (s.1, Function.update s.2 t .mismatch)
    else (s.1.or (some t), s.2)
  else s

/-- `create_type_get`, the kernel's answer being `reply`. -/
def createTypeGet (typelist : List ι) (typename : Str) (reply : Option TypeReply)
    (marks : ι → KernelCheck) : Got ι × (ι → KernelCheck) :=
  match registeredRange info marks typename typelist with
  | none => (.errptr (.unknownSettype typename), marks)
  | some r =>
    let family := chosenFamily info r.first
    if marks r.first = .ok then (.type r.first, marks)
    else match reply with
    | none => (.failed, marks)
    | some k =>
      if min r.tmax k.kmax < max r.tmin k.kmin then
        if r.tmax < k.kmin then
          (.errptr (.upgradeProgram typename family k.kmin r.tmax), marks)
        else (.errptr (.upgradeKernel typename family k.kmax r.tmin), marks)
      else match typelist.foldl (disableStep info typename family k) (none, marks) with
      | (none, marks) => (.nullMatch, marks)
      | (some t, marks) => (.type t, Function.update marks t .ok)

/-- `adt_type_get` of a set that is not in the cache, behind the kernel's answer. -/
def adtTypeGet (typelist : List ι) (typename : Str) (revision : ℕ) (marks : ι → KernelCheck) :
    Option ι × (ι → KernelCheck) :=
  match typelist.find? fun t => marks t ≠ .mismatch && ((info t).name = typename &&
      (matchFamily info t nfprotoUnspec && (info t).revision = revision)) with
  | none => (none, marks)
  | some t => (some t, Function.update marks t .ok)

/-- A lookup of the session; the kernel may fail to answer a `create`. -/
inductive TypeLookup where
  | create (typename : Str) (answered : Bool)
  | adt (typename : Str) (revision : ℕ)

/-- The lookups of a program on the marks of its types. A `create` has the name of a type from
`dset_typename_resolve`; an existing set has a revision the kernel knows. -/
def typeLookups (typelist : List ι) (K : Str → TypeReply) : System (ι → KernelCheck) TypeLookup where
  init marks := ∀ t, marks t = .checkNeeded
  step marks call marks' :=
    match call with
    | .create typename answered => (∃ str, dsetTypenameResolve info typelist str = some typename) ∧
        marks' = (createTypeGet info typelist typename
          (if answered then some (K typename) else none) marks).2
    | .adt typename revision => (K typename).kmin ≤ revision ∧ revision ≤ (K typename).kmax ∧
        marks' = (adtTypeGet info typelist typename revision marks).2

/-- The revisions of each name descend, as `dset_type_add` promises, and no type has the name of
another set type among its aliases. -/
structure SetTypes (typelist : List ι) : Prop where
  descending : Descending info typelist
  apart : ∀ t ∈ typelist, ∀ later ∈ typelist,
    dsetMatchTypename info (info t).name later = true → (info later).name = (info t).name

def InRange (k : TypeReply) (t : ι) : Prop := k.kmin ≤ (info t).revision ∧ (info t).revision ≤ k.kmax

instance (k : TypeReply) (t : ι) : Decidable (InRange info k t) := inferInstanceAs (Decidable (_ ∧ _))

/-- The registered type of the name with the greatest revision the kernel knows. -/
def IsBest (typelist : List ι) (typename : Str) (k : TypeReply) (t : ι) : Prop :=
  (t ∈ typelist ∧ dsetMatchTypename info typename t = true ∧ InRange info k t) ∧
    ∀ other ∈ typelist, dsetMatchTypename info typename other = true → InRange info k other →
      other = t ∨ (info other).revision < (info t).revision

/-- The greatest common revision is found, or its lack is reported. -/
def Best (typelist : List ι) (typename : Str) (k : TypeReply) : Got ι → Prop
  | .type t => IsBest info typelist typename k t
  | .errptr _ =>
    ∀ t ∈ typelist, dsetMatchTypename info typename t = true → ¬ InRange info k t
  | .failed => False
  | .nullMatch => False

/-- The types of the name that are not marked as unsupported. -/
def live (typelist : List ι) (typename : Str) (marks : ι → KernelCheck) : List ι :=
  typelist.filter (considered info marks typename nfprotoUnspec)

/-- The kernel's revisions cross those of the family of `first`. -/
def Crosses (types : List ι) (first : ι) (k : TypeReply) : Prop :=
  k.kmin ≤ k.kmax ∧ k.kmin ≤ (info first).revision ∧
    ∃ t ∈ types, (info t).family = (info first).family ∧ (info t).revision ≤ k.kmax

/-- With the first type `first`, the kernel's revisions cross the registered ones just if one of
the family chosen lies between them, and so does one as high as any. -/
def Between (types : List ι) (first : ι) (k : TypeReply) : Prop :=
  (Crosses info types first k ↔
    ∃ t ∈ types, matchFamily info t (chosenFamily info first) = true ∧ InRange info k t) ∧
  ∀ t ∈ types, InRange info k t → ∃ other ∈ types,
    matchFamily info other (chosenFamily info first) = true ∧ InRange info k other ∧
      (info t).revision ≤ (info other).revision

/-- The lookups that are decided right. -/
def Negotiable (typelist : List ι) (K : Str → TypeReply) (marks : ι → KernelCheck) :
    TypeLookup → Prop
  | .create typename true => ∀ first, (live info typelist typename marks).head? = some first →
      marks first ≠ .ok → Between info (live info typelist typename marks) first (K typename)
  | _ => True

/-- Registered revisions of the name below and above the kernel's, and none between them. -/
def Gap (typelist : List ι) (typename : Str) (k : TypeReply) : Prop :=
  k.kmin ≤ k.kmax ∧
  (∃ t ∈ typelist, dsetMatchTypename info typename t = true ∧ (info t).revision < k.kmin) ∧
  (∃ t ∈ typelist, dsetMatchTypename info typename t = true ∧ k.kmax < (info t).revision) ∧
  ∀ t ∈ typelist, dsetMatchTypename info typename t = true → ¬ InRange info k t

end

variable {info : ι → TypeInfo}

theorem matchFamily_unspec (t : ι) : matchFamily info t nfprotoUnspec = true := by
  simp [matchFamily]

theorem matchTypename_self (t : ι) : dsetMatchTypename info (info t).name t = true := by
  simp [dsetMatchTypename]

theorem considered_iff {marks : ι → KernelCheck} {typename : Str} {family : ℕ} {t : ι} :
    considered info marks typename family t = true ↔ marks t ≠ .mismatch ∧
      dsetMatchTypename info typename t = true ∧ matchFamily info t family = true := by
  simp [considered]

theorem mem_live {typelist : List ι} {typename : Str} {marks : ι → KernelCheck} {t : ι} :
    t ∈ live info typelist typename marks ↔ t ∈ typelist ∧ marks t ≠ .mismatch ∧
      dsetMatchTypename info typename t = true := by
  simp [live, considered_iff, matchFamily_unspec]

/-- A type belongs to the family chosen for it. -/
theorem matchFamily_chosen {t first : ι} (h : (info t).family = (info first).family) :
    matchFamily info t (chosenFamily info first) = true := by
  unfold matchFamily chosenFamily
  split
  next h46 => simp [h, h46]
  next => simp [h]

theorem IsBest.unique {typelist : List ι} {typename : Str} {k : TypeReply} {t u : ι}
    (ht : IsBest info typelist typename k t) (hu : IsBest info typelist typename k u) : t = u := by
  rcases ht.2 u hu.1.1 hu.1.2.1 hu.1.2.2 with h | hlt
  · exact h.symm
  rcases hu.2 t ht.1.1 ht.1.2.1 ht.1.2.2 with h | hgt
  · exact h
  · omega

/-! ### The two loops -/

theorem registeredRange_eq (marks : ι → KernelCheck) (typename : Str) (typelist : List ι) :
    registeredRange info marks typename typelist =
      (live info typelist typename marks).foldl (Range.extend info) none := by
  rw [live, List.foldl_filter]
  rfl

/-- Behind the first type the loop only lowers `tmin`, to the least revision of its family. -/
theorem foldl_extend (r : Range ι) (types : List ι)
    (hdesc : types.Pairwise fun t later => (info later).revision < (info t).revision)
    (hlow : ∀ t ∈ types, (info t).revision < r.tmin) :
    ∃ tmin ≤ r.tmin, types.foldl (Range.extend info) (some r) = some { r with tmin := tmin } ∧
      ∀ n, tmin ≤ n ↔ r.tmin ≤ n ∨
        ∃ t ∈ types, (info t).family = (info r.first).family ∧ (info t).revision ≤ n := by
  induction types generalizing r with
  | nil => exact ⟨r.tmin, le_rfl, rfl, fun n => by simp⟩
  | cons t types ih =>
    obtain ⟨hhead, htail⟩ := List.pairwise_cons.mp hdesc
    have ht := hlow t mem_cons_self
    by_cases hfamily : (info t).family = (info r.first).family
    · obtain ⟨tmin, hle, hfold, hn⟩ := ih { r with tmin := (info t).revision } htail hhead
      refine ⟨tmin, hle.trans ht.le, ?_, fun n => ?_⟩
      · rw [List.foldl_cons, Range.extend]
        simpa only [if_pos hfamily] using hfold
      · rw [hn n]
        constructor
        · rintro (h | ⟨u, hu, h⟩)
          · exact .inr ⟨t, mem_cons_self, hfamily, h⟩
          · exact .inr ⟨u, mem_cons_of_mem t hu, h⟩
        · rintro (h | ⟨u, hu, hfam, h⟩)
          · exact .inl (ht.le.trans h)
          · rcases mem_cons.mp hu with rfl | hu
            · exact .inl h
            · exact .inr ⟨u, hu, hfam, h⟩
    · obtain ⟨tmin, hle, hfold, hn⟩ := ih r htail fun u hu => hlow u (mem_cons_of_mem t hu)
      refine ⟨tmin, hle, ?_, fun n => ?_⟩
      · rw [List.foldl_cons, Range.extend]
        simpa only [if_neg hfamily] using hfold
      · rw [hn n]
        refine or_congr_right ⟨?_, ?_⟩
        · rintro ⟨u, hu, h⟩
          exact ⟨u, mem_cons_of_mem t hu, h⟩
        · rintro ⟨u, hu, hfam, h⟩
          rcases mem_cons.mp hu with rfl | hu
          · exact absurd hfam hfamily
          · exact ⟨u, hu, hfam, h⟩

theorem registeredRange_cases {marks : ι → KernelCheck} {typename : Str} {typelist : List ι}
    (hdesc : (live info typelist typename marks).Pairwise
      fun t later => (info later).revision < (info t).revision) :
    (live info typelist typename marks = [] ∧
      registeredRange info marks typename typelist = none) ∨
    ∃ first tmin, (live info typelist typename marks).head? = some first ∧
      registeredRange info marks typename typelist = some ⟨first, tmin, (info first).revision⟩ ∧
      tmin ≤ (info first).revision ∧ ∀ n, tmin ≤ n ↔ ∃ t ∈ live info typelist typename marks,
        (info t).family = (info first).family ∧ (info t).revision ≤ n := by
  rw [registeredRange_eq]
  generalize live info typelist typename marks = types at hdesc ⊢
  cases types with
  | nil => exact .inl ⟨rfl, rfl⟩
  | cons first types =>
    obtain ⟨hhead, htail⟩ := List.pairwise_cons.mp hdesc
    obtain ⟨tmin, hle, hfold, hn⟩ := foldl_extend
      ⟨first, (info first).revision, (info first).revision⟩ types htail hhead
    refine .inr ⟨first, tmin, rfl, hfold, hle, fun n => ?_⟩
    rw [hn n]
    constructor
    · rintro (h | ⟨u, hu, h⟩)
      · exact ⟨first, mem_cons_self, rfl, h⟩
      · exact ⟨u, mem_cons_of_mem first hu, h⟩
    · rintro ⟨u, hu, hfam, h⟩
      rcases mem_cons.mp hu with rfl | hu
      · exact .inl h
      · exact .inr ⟨u, hu, hfam, h⟩

theorem not_inRange {k : TypeReply} {t : ι} :
    ((info t).revision < k.kmin ∨ k.kmax < (info t).revision) ↔ ¬ InRange info k t := by
  unfold InRange
  omega

variable [DecidableEq ι]

theorem foldl_disable_marks (typename : Str) (family : ℕ) (k : TypeReply) (typelist : List ι)
    (s : Option ι × (ι → KernelCheck)) (t : ι) :
    (typelist.foldl (disableStep info typename family k) s).2 t = s.2 t ∨
      (typelist.foldl (disableStep info typename family k) s).2 t = .mismatch ∧
        dsetMatchTypename info typename t = true ∧ ¬ InRange info k t := by
  induction typelist generalizing s with
  | nil => exact .inl rfl
  | cons u typelist ih =>
    rw [List.foldl_cons]
    rcases ih (disableStep info typename family k s u) with h | h
    · rw [h]
      unfold disableStep
      split
      next hcons =>
        split
        next hout =>
          by_cases htu : t = u
          · subst htu
            exact .inr ⟨Function.update_self .., (considered_iff.mp hcons).2.1, not_inRange.mp hout⟩
          · exact .inl (Function.update_of_ne htu ..)
        next => exact .inl rfl
      next => exact .inl rfl
    · exact .inr h

/-- The match of the second loop: the first type of the family that the kernel knows. -/
theorem foldl_disable_match (typename : Str) (family : ℕ) (k : TypeReply) (typelist : List ι)
    (s : Option ι × (ι → KernelCheck)) :
    (typelist.foldl (disableStep info typename family k) s).1 =
      s.1.or (typelist.find? fun t => considered info s.2 typename family t && InRange info k t) := by
  induction typelist generalizing s with
  | nil => simp
  | cons u typelist ih =>
    rw [List.foldl_cons, ih, List.find?_cons]
    unfold disableStep
    by_cases hcons : considered info s.2 typename family u = true
    · rw [if_pos hcons]
      by_cases hin : InRange info k u
      · rw [if_neg (by rw [not_inRange]; exact not_not.mpr hin)]
        simp [hcons, hin]
      · rw [if_pos (not_inRange.mpr hin)]
        simp only [hcons, hin, decide_false, Bool.and_false]
        congr 2
        funext t
        by_cases htu : t = u
        · simp [htu, hin]
        · simp [considered, Function.update_of_ne htu]
    · rw [if_neg hcons]
      simp [hcons]

/-! ### One lookup -/

omit [DecidableEq ι] in
theorem rev_find? {types : List ι} {p : ι → Bool} {t u : ι}
    (hdesc : Descending info types) (hfind : types.find? p = some t) (hu : u ∈ types)
    (hpu : p u = true) (hname : (info u).name = (info t).name) :
    (info u).revision ≤ (info t).revision := by
  induction types with
  | nil => cases hu
  | cons v types ih =>
    rw [List.find?_cons] at hfind
    obtain ⟨hhead, htail⟩ := descending_cons.mp hdesc
    cases hpv : p v with
    | true =>
      simp only [hpv] at hfind
      obtain rfl := Option.some.inj hfind
      rcases mem_cons.mp hu with rfl | hu
      · exact le_rfl
      · exact (hhead u hu hname).le
    | false =>
      simp only [hpv] at hfind
      rcases mem_cons.mp hu with rfl | hu
      · exact absurd hpu (by simp [hpv])
      · exact ih htail hfind hu

/-- The name is that of a set type, and no alias. -/
def OwnName (info : ι → TypeInfo) (typelist : List ι) (typename : Str) : Prop :=
  ∀ t ∈ typelist, dsetMatchTypename info typename t = true → (info t).name = typename

/-- The marks say what the kernel knows, and none is set unless it knows a type of the name. -/
structure MarksRight (info : ι → TypeInfo) (typelist : List ι) (K : Str → TypeReply)
    (marks : ι → KernelCheck) : Prop where
  mismatch : ∀ t ∈ typelist, marks t = .mismatch → ¬ InRange info (K (info t).name) t
  ok : ∀ t ∈ typelist, marks t = .ok → InRange info (K (info t).name) t
  touched : ∀ t ∈ typelist, marks t ≠ .checkNeeded →
    ∃ u ∈ typelist, (info u).name = (info t).name ∧ InRange info (K (info t).name) u

section

variable {typelist : List ι} {typename : Str} {K : Str → TypeReply} {marks : ι → KernelCheck}

omit [DecidableEq ι] in
theorem resolve_ownName (h : SetTypes info typelist) {str : Str}
    (hstr : dsetTypenameResolve info typelist str = some typename) :
    OwnName info typelist typename := by
  obtain ⟨t, hfind, rfl⟩ := Option.map_eq_some_iff.mp hstr
  exact fun later hlater hmatch => h.apart t (List.mem_of_find?_eq_some hfind) later hlater hmatch

omit [DecidableEq ι] in
theorem live_descending (h : SetTypes info typelist) (hown : OwnName info typelist typename) :
    (live info typelist typename marks).Pairwise
      fun t later => (info later).revision < (info t).revision := by
  refine (List.Pairwise.filter _ h.descending).imp_of_mem fun {t later} ht hlater hlt => ?_
  have ht := mem_live.mp ht
  have hlater := mem_live.mp hlater
  exact hlt ((hown later hlater.1 hlater.2.2).trans (hown t ht.1 ht.2.2).symm)

omit [DecidableEq ι] in
/-- A type the kernel knows is not passed over. -/
theorem MarksRight.mem_live (hm : MarksRight info typelist K marks)
    (hown : OwnName info typelist typename) {t : ι} (ht : t ∈ typelist)
    (hmatch : dsetMatchTypename info typename t = true) (hin : InRange info (K typename) t) :
    t ∈ live info typelist typename marks := by
  refine Types.mem_live.mpr ⟨ht, fun hmis => ?_, hmatch⟩
  have hnot := hm.mismatch t ht hmis
  rw [hown t ht hmatch] at hnot
  exact hnot hin

omit [DecidableEq ι] in
theorem rev_le_head {types : List ι} {first t : ι}
    (hdesc : types.Pairwise fun t later => (info later).revision < (info t).revision)
    (hhead : types.head? = some first) (ht : t ∈ types) :
    t = first ∨ (info t).revision < (info first).revision := by
  cases types with
  | nil => cases ht
  | cons u types =>
    obtain rfl := Option.some.inj hhead
    rcases mem_cons.mp ht with rfl | ht
    · exact .inl rfl
    · exact .inr ((List.pairwise_cons.mp hdesc).1 t ht)

omit [DecidableEq ι] in
theorem rev_inj {types : List ι} {t u : ι}
    (hdesc : types.Pairwise fun t later => (info later).revision < (info t).revision)
    (ht : t ∈ types) (hu : u ∈ types) (heq : (info t).revision = (info u).revision) : t = u := by
  have hinj := List.Pairwise.forall_of_forall_of_flip
    (R := fun t u : ι => (info t).revision = (info u).revision → t = u) (l := types)
    (fun t _ _ => rfl) (hdesc.imp fun hlt heq => absurd heq (Nat.ne_of_gt hlt))
    (hdesc.imp fun hlt heq => absurd heq (Nat.ne_of_lt hlt))
  exact hinj ht hu heq

omit [DecidableEq ι] in
/-- Where none of the name is known, the marks of the lookup are as it found them. -/
theorem Between.of_none {types : List ι} {first : ι} {k : TypeReply}
    (hnone : ∀ t ∈ types, ¬ InRange info k t) :
    Between info types first k ↔ ¬ Crosses info types first k := by
  constructor
  · intro h hcross
    obtain ⟨t, ht, -, hin⟩ := h.1.mp hcross
    exact hnone t ht hin
  · intro h
    refine ⟨iff_of_false h ?_, fun t ht hin => absurd hin (hnone t ht)⟩
    rintro ⟨t, ht, -, hin⟩
    exact hnone t ht hin

omit [DecidableEq ι] in
/-- What the first loop found crosses the kernel's revisions. -/
theorem crosses_iff {types : List ι} {first : ι} {k : TypeReply} {tmin : ℕ}
    (hle : tmin ≤ (info first).revision) (hn : ∀ n, tmin ≤ n ↔
      ∃ t ∈ types, (info t).family = (info first).family ∧ (info t).revision ≤ n) :
    ¬ min (info first).revision k.kmax < max tmin k.kmin ↔ Crosses info types first k := by
  rw [not_lt, max_le_iff, le_min_iff, le_min_iff, hn k.kmax]
  unfold Crosses
  tauto

omit [DecidableEq ι] in
theorem negotiable_create : Negotiable info typelist K marks (.create typename true) ↔
    ∀ first, (live info typelist typename marks).head? = some first → marks first ≠ .ok →
      Between info (live info typelist typename marks) first (K typename) := Iff.rfl

omit [DecidableEq ι] in
/-- A first type that is marked as known is the best. -/
theorem MarksRight.best_of_ok (hm : MarksRight info typelist K marks) (h : SetTypes info typelist)
    (hown : OwnName info typelist typename) {first : ι}
    (hhead : (live info typelist typename marks).head? = some first) (hok : marks first = .ok) :
    IsBest info typelist typename (K typename) first := by
  have hfirst := Types.mem_live.mp (List.mem_of_head? hhead)
  have hin := hm.ok first hfirst.1 hok
  rw [hown first hfirst.1 hfirst.2.2] at hin
  refine ⟨⟨hfirst.1, hfirst.2.2, hin⟩, fun other hother hmatch hin => ?_⟩
  exact rev_le_head (live_descending h hown) hhead (hm.mem_live hown hother hmatch hin)

omit [DecidableEq ι] in
/-- An error is right if and only if no type of the name is known. -/
theorem MarksRight.none_iff_between (hm : MarksRight info typelist K marks)
    (hown : OwnName info typelist typename) {first : ι}
    (hno : ¬ Crosses info (live info typelist typename marks) first (K typename)) :
    (∀ t ∈ typelist, dsetMatchTypename info typename t = true → ¬ InRange info (K typename) t) ↔
      Between info (live info typelist typename marks) first (K typename) := by
  constructor
  · intro hnone
    refine (Between.of_none fun t ht => ?_).mpr hno
    exact hnone t (Types.mem_live.mp ht).1 (Types.mem_live.mp ht).2.2
  · intro hbetween t ht hmatch hin
    obtain ⟨u, hu, hfam, huin, -⟩ := hbetween.2 t (hm.mem_live hown ht hmatch hin) hin
    exact hno (hbetween.1.mpr ⟨u, hu, hfam, huin⟩)

omit [DecidableEq ι] in
/-- The second loop finds the best if and only if that is of the family chosen. -/
theorem MarksRight.search_iff_between (hm : MarksRight info typelist K marks)
    (h : SetTypes info typelist) (hown : OwnName info typelist typename) {first : ι}
    (hyes : Crosses info (live info typelist typename marks) first (K typename)) :
    (∃ t, typelist.find? (fun t => considered info marks typename (chosenFamily info first) t &&
        InRange info (K typename) t) = some t ∧
      IsBest info typelist typename (K typename) t) ↔
      Between info (live info typelist typename marks) first (K typename) := by
  constructor
  · rintro ⟨t, hfind, hbest⟩
    have htp := List.find?_some hfind
    simp only [Bool.and_eq_true, decide_eq_true_eq] at htp
    have htcons := considered_iff.mp htp.1
    have htlive := Types.mem_live.mpr ⟨hbest.1.1, htcons.1, htcons.2.1⟩
    refine ⟨iff_of_true hyes ⟨t, htlive, htcons.2.2, htp.2⟩, fun u hu huin => ?_⟩
    refine ⟨t, htlive, htcons.2.2, htp.2, ?_⟩
    rcases hbest.2 u (Types.mem_live.mp hu).1 (Types.mem_live.mp hu).2.2 huin with rfl | hlt
    · exact le_rfl
    · exact hlt.le
  · intro hbetween
    -- one of the family lies between the kernel's revisions, so that the search ends
    obtain ⟨w, hw, hwfam, hwin⟩ := hbetween.1.mp hyes
    have hwl := Types.mem_live.mp hw
    have hfinds : ∀ v ∈ live info typelist typename marks,
        matchFamily info v (chosenFamily info first) = true → InRange info (K typename) v →
        (considered info marks typename (chosenFamily info first) v &&
          decide (InRange info (K typename) v)) = true := by
      intro v hv hfam hin
      have hv := Types.mem_live.mp hv
      rw [considered_iff.mpr ⟨hv.2.1, hv.2.2, hfam⟩]
      simpa using hin
    have hsome : (typelist.find? fun v => considered info marks typename (chosenFamily info first) v &&
        decide (InRange info (K typename) v)).isSome = true :=
      List.find?_isSome.mpr ⟨w, hwl.1, hfinds w hw hwfam hwin⟩
    obtain ⟨t, hfind⟩ := Option.isSome_iff_exists.mp hsome
    have ht := List.mem_of_find?_eq_some hfind
    have htp := List.find?_some hfind
    simp only [Bool.and_eq_true, decide_eq_true_eq] at htp
    have htcons := considered_iff.mp htp.1
    have htlive := Types.mem_live.mpr ⟨ht, htcons.1, htcons.2.1⟩
    refine ⟨t, hfind, ⟨ht, htcons.2.1, htp.2⟩, fun u hu humatch huin => ?_⟩
    have hulive := hm.mem_live hown hu humatch huin
    obtain ⟨v, hv, hvfam, hvin, huv⟩ := hbetween.2 u hulive huin
    have hvl := Types.mem_live.mp hv
    have hvt := rev_find? h.descending hfind hvl.1 (hfinds v hv hvfam hvin)
      ((hown v hvl.1 hvl.2.2).trans (hown t ht htcons.2.1).symm)
    rcases (huv.trans hvt).eq_or_lt with heq | hlt
    · exact .inl (rev_inj (live_descending h hown) hulive htlive heq)
    · exact .inr hlt

/-- A `create` finds the best revision if and only if it is negotiable. -/
theorem createTypeGet_best (h : SetTypes info typelist) (hown : OwnName info typelist typename)
    (hm : MarksRight info typelist K marks) :
    Best info typelist typename (K typename)
        (createTypeGet info typelist typename (some (K typename)) marks).1 ↔
      Negotiable info typelist K marks (.create typename true) := by
  rw [negotiable_create]
  unfold createTypeGet
  have hdesc : (live info typelist typename marks).Pairwise
      fun t later => (info later).revision < (info t).revision := live_descending h hown
  rcases registeredRange_cases hdesc with
    ⟨hnil, hr⟩ | ⟨first, tmin, hhead, hr, hle, hn⟩
  · rw [hr, hnil]
    refine iff_of_true (fun t ht hmatch hin => ?_) fun first hfirst => by cases hfirst
    have hmem := hm.mem_live hown ht hmatch hin
    rw [hnil] at hmem
    cases hmem
  rw [hr, hhead]
  by_cases hok : marks first = .ok
  · simp only [if_pos hok]
    refine iff_of_true (hm.best_of_ok h hown hhead hok) fun first' hfirst' hnok => ?_
    obtain rfl := Option.some.inj hfirst'
    exact absurd hok hnok
  have hiff : (∀ first', some first = some first' → marks first' ≠ .ok →
      Between info (live info typelist typename marks) first' (K typename)) ↔
      Between info (live info typelist typename marks) first (K typename) := by
    simp [hok]
  rw [hiff]
  simp only [if_neg hok]
  have hcross := crosses_iff (k := K typename) hle hn
  by_cases hlt : min (info first).revision (K typename).kmax < max tmin (K typename).kmin
  · rw [if_pos hlt]
    have hnone := hm.none_iff_between hown fun h => hcross.mpr h hlt
    split <;> exact hnone
  rw [if_neg hlt]
  have hsearch := hm.search_iff_between h hown (hcross.mp hlt)
  have hmatch := @foldl_disable_match _ info _ typename (chosenFamily info first) (K typename)
    typelist (none, marks)
  rw [Option.none_or] at hmatch
  rw [← hsearch, ← hmatch]
  rcases typelist.foldl (disableStep info typename (chosenFamily info first) (K typename))
    (none, marks) with ⟨found, marks'⟩
  cases found with
  | none => exact iff_of_false id fun ⟨t, ht, _⟩ => by cases ht
  | some t => exact ⟨fun hbest => ⟨t, rfl, hbest⟩, fun ⟨u, hu, hbest⟩ => Option.some.inj hu ▸ hbest⟩

/-- What a `create` that is answered does to the marks, unless it is left without a match. -/
theorem createTypeGet_marks {k : TypeReply}
    (hmatch : (createTypeGet info typelist typename (some k) marks).1 ≠ .nullMatch) (t : ι) :
    (createTypeGet info typelist typename (some k) marks).2 t = marks t ∨
      dsetMatchTypename info typename t = true ∧
      ((createTypeGet info typelist typename (some k) marks).2 t = .mismatch ∧ ¬ InRange info k t ∨
        (createTypeGet info typelist typename (some k) marks).2 t = .ok ∧ InRange info k t) ∧
      ∃ u ∈ typelist, dsetMatchTypename info typename u = true ∧ InRange info k u := by
  unfold createTypeGet at hmatch ⊢
  split
  next => exact .inl rfl
  next r hr =>
    rw [hr] at hmatch
    simp only at hmatch ⊢
    split
    next => exact .inl rfl
    next hok =>
      rw [if_neg hok] at hmatch
      split
      next => split <;> exact .inl rfl
      next hlt =>
        rw [if_neg hlt] at hmatch
        have hfound := @foldl_disable_match _ info _ typename (chosenFamily info r.first) k
          typelist (none, marks)
        have hmarks := @foldl_disable_marks _ info _ typename (chosenFamily info r.first) k
          typelist (none, marks) t
        generalize typelist.foldl (disableStep info typename (chosenFamily info r.first) k)
          (none, marks) = s at hmatch hfound hmarks ⊢
        obtain ⟨found, marks'⟩ := s
        cases found with
        | none => exact absurd rfl hmatch
        | some u =>
          rw [Option.none_or] at hfound
          have hfound : some u = typelist.find? fun t =>
            considered info marks typename (chosenFamily info r.first) t && InRange info k t := hfound
          have hu := List.find?_some hfound.symm
          simp only [Bool.and_eq_true, decide_eq_true_eq] at hu
          have humem := List.mem_of_find?_eq_some hfound.symm
          have humatch := (considered_iff.mp hu.1).2.1
          by_cases htu : t = u
          · subst htu
            exact .inr ⟨humatch, .inr ⟨Function.update_self .., hu.2⟩, t, humem, humatch, hu.2⟩
          · simp only [Function.update_of_ne htu]
            rcases hmarks with h | ⟨hmis, htmatch, hout⟩
            · exact .inl h
            · exact .inr ⟨htmatch, .inl ⟨hmis, hout⟩, u, humem, humatch, hu.2⟩

/-- A `create` that is not answered leaves the marks. -/
theorem createTypeGet_failed : (createTypeGet info typelist typename none marks).2 = marks := by
  unfold createTypeGet
  split
  next => rfl
  next => split <;> rfl

/-- What the lookup of an existing set does to the marks. -/
theorem adtTypeGet_marks {revision : ℕ} (t : ι) :
    (adtTypeGet info typelist typename revision marks).2 t = marks t ∨
      t ∈ typelist ∧ (info t).name = typename ∧ (info t).revision = revision ∧
        (adtTypeGet info typelist typename revision marks).2 t = .ok := by
  unfold adtTypeGet
  split
  next => exact .inl rfl
  next u hfind =>
    by_cases htu : t = u
    · subst htu
      have ht := List.find?_some hfind
      simp only [Bool.and_eq_true, decide_eq_true_eq] at ht
      exact .inr ⟨List.mem_of_find?_eq_some hfind, ht.2.1, ht.2.2.2, Function.update_self ..⟩
    · exact .inl (Function.update_of_ne htu ..)

omit [DecidableEq ι] in
theorem MarksRight.of_checkNeeded (h : ∀ t, marks t = .checkNeeded) :
    MarksRight info typelist K marks where
  mismatch t _ ht := by rw [h t] at ht; cases ht
  ok t _ ht := by rw [h t] at ht; cases ht
  touched t _ ht := absurd (h t) ht

theorem marksRight_step (h : SetTypes info typelist) {marks' : ι → KernelCheck} {call : TypeLookup}
    (hm : MarksRight info typelist K marks) (hcall : Negotiable info typelist K marks call)
    (hstep : (typeLookups info typelist K).step marks call marks') :
    MarksRight info typelist K marks' := by
  -- each mark is as before, or says what the kernel knows of the name
  suffices hnew : ∀ t ∈ typelist, marks' t = marks t ∨
      ((marks' t = .mismatch ∧ ¬ InRange info (K (info t).name) t ∨
        marks' t = .ok ∧ InRange info (K (info t).name) t) ∧
      ∃ u ∈ typelist, (info u).name = (info t).name ∧ InRange info (K (info t).name) u) by
    refine ⟨fun t ht hmark => ?_, fun t ht hmark => ?_, fun t ht hmark => ?_⟩
    · rcases hnew t ht with heq | ⟨⟨-, hout⟩ | ⟨hok, -⟩, -⟩
      · exact hm.mismatch t ht (heq ▸ hmark)
      · exact hout
      · rw [hok] at hmark
        cases hmark
    · rcases hnew t ht with heq | ⟨⟨hmis, -⟩ | ⟨-, hin⟩, -⟩
      · exact hm.ok t ht (heq ▸ hmark)
      · rw [hmis] at hmark
        cases hmark
      · exact hin
    · rcases hnew t ht with heq | ⟨-, hu⟩
      · exact hm.touched t ht (heq ▸ hmark)
      · exact hu
  intro t ht
  cases call with
  | create typename answered =>
    obtain ⟨⟨str, hstr⟩, rfl⟩ := hstep
    have hown := resolve_ownName h hstr
    cases answered with
    | false => exact .inl (congrFun createTypeGet_failed t)
    | true =>
      have hbest := (createTypeGet_best h hown hm).mpr hcall
      have hne : (createTypeGet info typelist typename (some (K typename)) marks).1 ≠ .nullMatch := by
        intro hnull
        rw [hnull] at hbest
        exact hbest
      rcases createTypeGet_marks hne t with heq | ⟨hmatch, hmark, u, hu, humatch, huin⟩
      · exact .inl heq
      · rw [hown t ht hmatch]
        exact .inr ⟨hmark, u, hu, hown u hu humatch, huin⟩
  | adt typename revision =>
    obtain ⟨hmin, hmax, rfl⟩ := hstep
    have hmarks : (adtTypeGet info typelist typename revision marks).2 t = marks t ∨
        t ∈ typelist ∧ (info t).name = typename ∧ (info t).revision = revision ∧
          (adtTypeGet info typelist typename revision marks).2 t = .ok := adtTypeGet_marks t
    rcases hmarks with heq | ⟨-, rfl, rfl, hok⟩
    · exact .inl heq
    · exact .inr ⟨.inr ⟨hok, hmin, hmax⟩, t, ht, rfl, hmin, hmax⟩

theorem marksRight_run (h : SetTypes info typelist) {calls : List TypeLookup}
    (hrun : ((typeLookups info typelist K).guard (Negotiable info typelist K)).Run calls marks) :
    MarksRight info typelist K marks := by
  refine hrun.invariant ?_ ?_
  · exact fun s hs => .of_checkNeeded hs
  · exact fun s call s' hs hstep => marksRight_step h hs hstep.1 hstep.2

omit [DecidableEq ι] in
/-- For types of one family, only a gap is not negotiable. -/
theorem negotiable_iff_not_gap (h : SetTypes info typelist) (hown : OwnName info typelist typename)
    (hm : MarksRight info typelist K marks)
    (hfamily : ∀ t ∈ typelist, ∀ u ∈ typelist, dsetMatchTypename info typename t = true →
      dsetMatchTypename info typename u = true → (info t).family = (info u).family) :
    Negotiable info typelist K marks (.create typename true) ↔
      ¬ Gap info typelist typename (K typename) := by
  have hdesc : (live info typelist typename marks).Pairwise
      fun t later => (info later).revision < (info t).revision := live_descending h hown
  have hsame : ∀ t ∈ live info typelist typename marks,
      ∀ u ∈ live info typelist typename marks, (info t).family = (info u).family := by
    intro t ht u hu
    have ht := mem_live.mp ht
    have hu := mem_live.mp hu
    exact hfamily t ht.1 u hu.1 ht.2.2 hu.2.2
  rw [negotiable_create]
  by_cases hin : ∃ t ∈ typelist, dsetMatchTypename info typename t = true ∧
      InRange info (K typename) t
  · obtain ⟨t, ht, hmatch, htin⟩ := hin
    refine iff_of_true (fun first hhead hok => ?_) fun hgap => hgap.2.2.2 t ht hmatch htin
    have hfirst := List.mem_of_head? hhead
    have htlive := hm.mem_live hown ht hmatch htin
    have hle : (info t).revision ≤ (info first).revision := by
      rcases rev_le_head hdesc hhead htlive with rfl | hlt
      · exact le_rfl
      · exact hlt.le
    have hmf : ∀ u ∈ live info typelist typename marks,
        matchFamily info u (chosenFamily info first) = true :=
      fun u hu => matchFamily_chosen (hsame u hu first hfirst)
    refine ⟨iff_of_true ?_ ⟨t, htlive, hmf t htlive, htin⟩, fun u hu huin => ?_⟩
    · exact ⟨htin.1.trans htin.2, htin.1.trans hle, t, htlive, hsame t htlive first hfirst, htin.2⟩
    · exact ⟨u, hu, hmf u hu, huin, le_rfl⟩
  · have hnone : ∀ t ∈ typelist, dsetMatchTypename info typename t = true →
        ¬ InRange info (K typename) t := fun t ht hmatch htin => hin ⟨t, ht, hmatch, htin⟩
    -- no lookup has marked a type of the name, so that all of them are looked at
    have hfresh : ∀ t ∈ typelist, dsetMatchTypename info typename t = true →
        marks t = .checkNeeded := by
      intro t ht hmatch
      by_contra hmark
      obtain ⟨u, hu, hname, huin⟩ := hm.touched t ht hmark
      rw [hown t ht hmatch] at hname huin
      exact hnone u hu (hname ▸ matchTypename_self u) huin
    have hlive : ∀ t ∈ typelist, dsetMatchTypename info typename t = true →
        t ∈ live info typelist typename marks := by
      intro t ht hmatch
      exact mem_live.mpr ⟨ht, by rw [hfresh t ht hmatch]; decide, hmatch⟩
    have hout : ∀ t ∈ live info typelist typename marks, ¬ InRange info (K typename) t :=
      fun t ht => hnone t (mem_live.mp ht).1 (mem_live.mp ht).2.2
    constructor
    · rintro hneg ⟨hk, ⟨low, hlow, hlowm, hlowr⟩, ⟨high, hhigh, hhighm, hhighr⟩, -⟩
      have hlowl := hlive low hlow hlowm
      obtain ⟨first, hhead⟩ : ∃ first, (live info typelist typename marks).head? = some first :=
        Option.isSome_iff_exists.mp (List.isSome_head?.mpr (List.ne_nil_of_mem hlowl))
      have hfirst := mem_live.mp (List.mem_of_head? hhead)
      have hok : marks first ≠ .ok := by
        rw [hfresh first hfirst.1 hfirst.2.2]
        decide
      refine (Between.of_none hout).mp (hneg first hhead hok) ⟨hk, ?_, low, hlowl, ?_, by omega⟩
      · rcases rev_le_head hdesc hhead (hlive high hhigh hhighm) with rfl | hlt <;> omega
      · exact hsame low hlowl first (List.mem_of_head? hhead)
    · intro hgap first hhead hok
      refine (Between.of_none hout).mpr ?_
      rintro ⟨hk, hmin, low, hlow, -, hmax⟩
      have hfirst := List.mem_of_head? hhead
      have hlow' := hout low hlow
      have hfirst' := hout first hfirst
      unfold InRange at hlow' hfirst'
      refine hgap ⟨hk, ⟨low, (mem_live.mp hlow).1, (mem_live.mp hlow).2.2, by omega⟩,
        ⟨first, (mem_live.mp hfirst).1, (mem_live.mp hfirst).2.2, by omega⟩, hnone⟩

/-- In every run of negotiable lookups, the next `create` finds the greatest common revision or
reports that there is none, if and only if it is negotiable itself; the type found is the same
whatever was looked up before. Where all types of the name are of one family, those lookups are
not negotiable that find a gap. -/
theorem create_type_get_best (info : ι → TypeInfo) (typelist : List ι) (K : Str → TypeReply)
    (h : SetTypes info typelist) (calls : List TypeLookup) (marks : ι → KernelCheck)
    (hrun : ((typeLookups info typelist K).guard (Negotiable info typelist K)).Run calls marks)
    (str typename : Str) (hstr : dsetTypenameResolve info typelist str = some typename) :
    (Best info typelist typename (K typename)
        (createTypeGet info typelist typename (some (K typename)) marks).1 ↔
      Negotiable info typelist K marks (.create typename true)) ∧
    (∀ t u, IsBest info typelist typename (K typename) t →
      IsBest info typelist typename (K typename) u → t = u) ∧
    ((∀ t ∈ typelist, ∀ u ∈ typelist, dsetMatchTypename info typename t = true →
        dsetMatchTypename info typename u = true → (info t).family = (info u).family) →
      (Negotiable info typelist K marks (.create typename true) ↔
        ¬ Gap info typelist typename (K typename))) := by
  have hm := marksRight_run h hrun
  have hown := resolve_ownName h hstr
  exact ⟨createTypeGet_best h hown hm, fun t u => IsBest.unique, negotiable_iff_not_gap h hown hm⟩

end

theorem gapTypes_setTypes : SetTypes gapTypes [false, true] where
  descending := by
    refine descending_cons.mpr ⟨?_, List.pairwise_singleton _ _⟩
    decide
  apart := by decide

/-- A set of revision 1 is looked up before a `create`, with a kernel of revisions 1 to 3. -/
theorem create_type_get_best_marked :
    ∃ marks, (createTypeGet gapTypes [false, true] (bytes "hash:domain") (some ⟨3, some 1⟩)
      marks).1 = .type false ∧ marks true = .ok ∧
      Best gapTypes [false, true] (bytes "hash:domain") ⟨3, some 1⟩
        (createTypeGet gapTypes [false, true] (bytes "hash:domain") (some ⟨3, some 1⟩) marks).1 := by
  have hstr : dsetTypenameResolve gapTypes [false, true] (bytes "dhash") =
      some (bytes "hash:domain") := by decide
  have hrun : ((typeLookups gapTypes [false, true] fun _ => ⟨3, some 1⟩).guard
      (Negotiable gapTypes [false, true] fun _ => ⟨3, some 1⟩)).Run
      [.adt (bytes "hash:domain") 1]
      (adtTypeGet gapTypes [false, true] (bytes "hash:domain") 1 fun _ => .checkNeeded).2 :=
    .snoc (l := []) (.start fun _ => rfl) ⟨trivial, by decide, by decide, rfl⟩
  have hbest := create_type_get_best gapTypes [false, true] (fun _ => ⟨3, some 1⟩) gapTypes_setTypes
    _ _ hrun _ _ hstr
  have hgap : ¬ Gap gapTypes [false, true] (bytes "hash:domain") ⟨3, some 1⟩ := by
    rintro ⟨-, -, ⟨t, -, -, ht⟩, -⟩
    revert ht
    cases t <;> decide
  exact ⟨_, by decide, by decide, hbest.1.mpr ((hbest.2.2 (by decide)).mpr hgap)⟩

/-- Revisions 3 and 1 are registered and the kernel knows revision 2 alone. -/
theorem create_type_get_missing :
    ¬ ∀ (info : Bool → TypeInfo) (typelist : List Bool) (k : TypeReply) (str typename : Str),
      SetTypes info typelist → dsetTypenameResolve info typelist str = some typename →
      Best info typelist typename k
        (createTypeGet info typelist typename (some k) fun _ => .checkNeeded).1 := by
  intro h
  have hbest := h gapTypes [false, true] ⟨2, some 2⟩ (bytes "dhash") (bytes "hash:domain")
    gapTypes_setTypes (by decide)
  have hnull : (createTypeGet gapTypes [false, true] (bytes "hash:domain") (some ⟨2, some 2⟩)
      fun _ => .checkNeeded).1 = .nullMatch := by decide
  rw [hnull] at hbest
  exact hbest

end Dset.User.Types
