import Dset.User.Data
import Mathlib.Data.List.Perm.Basic

/-! The list of the types the library knows (`dset_type_add`). Types are known by their addresses.
A type is put before the first one of its name whose revision is lower. Where all of that name are
higher there is none, and the type goes to the head of the list, before them. As long as no type
comes in so, the revisions of each name descend. -/

namespace Dset.User

open Dset.Lib Dset.Core List

/-- `struct dset_type`, as far as the list of types reads it. -/
structure TypeInfo where
  name : Str
  aliases : List Str
  revision : ℕ
  family : ℕ
  deriving DecidableEq

variable {ι : Type}

section

variable [DecidableEq ι] (info : ι → TypeInfo)

/-- The registered type is one of the name and revision of the new one. -/
def SameRevision (type t : ι) : Prop :=
  (info t).name = (info type).name ∧ (info t).revision = (info type).revision

/-- The registered type is an earlier revision of the new one. -/
def LowerRevision (type t : ι) : Prop :=
  (info t).name = (info type).name ∧ (info t).revision < (info type).revision

instance (type t : ι) : Decidable (SameRevision info type t) :=
  inferInstanceAs (Decidable (_ ∧ _))

instance (type t : ι) : Decidable (LowerRevision info type t) :=
  inferInstanceAs (Decidable (_ ∧ _))

/-- How the loop of `dset_type_add` ends: the type is known, it was inserted, or there was no place
for it. -/
inductive Placed (ι : Type) where
  | eexist
  | inserted (typelist : List ι)
  | passed
  deriving DecidableEq

/-- The list of the loop behind a node it has passed. -/
def Placed.behind (t : ι) : Placed ι → Placed ι
  | .inserted l => .inserted (t :: l)
  | p => p

/-- The loop of `dset_type_add`. -/
def placeType (type : ι) : List ι → Placed ι
  | [] => .passed
  | [t] =>
    if SameRevision info type t then .eexist
    else if LowerRevision info type t then .inserted [type, t]
    else .passed
  | t :: next :: rest =>
    if SameRevision info type t then .eexist
    else if LowerRevision info type t then .inserted (type :: t :: next :: rest)
    else if SameRevision info type next then .eexist
    else if LowerRevision info type next then .inserted (t :: type :: next :: rest)
    else (placeType type (next :: rest)).behind t

/-- `dset_type_add`; none when the list is left broken, a node being linked in twice. -/
def dsetTypeAdd (typelist : List ι) (type : ι) : Option (Ret × List ι) :=
  if dsetMaxnamelen - 1 < (info type).name.length then some (.err .einval, typelist)
  else match placeType info type typelist with
  | .eexist => some (.err .eexist, typelist)
  | .inserted l => if type ∈ typelist then none else some (.ok, l)
  | .passed => if type ∈ typelist then none else some (.ok, type :: typelist)

/-- The list at the start of the program and the calls, each with what it returns. -/
def typeListSystem : System (List ι) (ι × Ret) where
  init typelist := typelist = []
  step typelist call typelist' := dsetTypeAdd info typelist call.1 = some (call.2, typelist')

/-- The revisions of each name descend strictly. -/
def Descending (typelist : List ι) : Prop :=
  typelist.Pairwise fun t later =>
    (info later).name = (info t).name → (info later).revision < (info t).revision

/-- Types of that name are registered, and all of them have higher revisions. -/
def Lowest (typelist : List ι) (type : ι) : Prop :=
  (info type).name.length ≤ dsetMaxnamelen - 1 ∧
    (∃ t ∈ typelist, (info t).name = (info type).name) ∧
    ∀ t ∈ typelist, (info t).name = (info type).name → (info type).revision < (info t).revision

/-- The names that `dset_type_add` lets in. -/
def NamesFit (typelist : List ι) : Prop :=
  ∀ t ∈ typelist, (info t).name.length ≤ dsetMaxnamelen - 1

/-- The types whose calls returned 0, the latest first. -/
def addedTypes (calls : List (ι × Ret)) : List ι :=
  ((calls.filter (·.2 = .ok)).map (·.1)).reverse

end

variable {info : ι → TypeInfo}

theorem descending_cons {t : ι} {l : List ι} : Descending info (t :: l) ↔
    (∀ later ∈ l, (info later).name = (info t).name → (info later).revision < (info t).revision) ∧
      Descending info l := List.pairwise_cons

/-- Nothing of that name comes behind the place of a type with its revision or a higher one. -/
theorem Descending.lower {type t : ι} {l : List ι} (h : Descending info (t :: l))
    (ht : LowerRevision info type t) :
    ∀ later ∈ t :: l, (info later).name = (info type).name → LowerRevision info type later := by
  intro later hlater hname
  rcases mem_cons.mp hlater with rfl | hlater
  · exact ht
  · exact ⟨hname, ((descending_cons.mp h).1 later hlater (hname.trans ht.1.symm)).trans ht.2⟩

theorem LowerRevision.not_same {type t : ι} (h : LowerRevision info type t) :
    ¬ SameRevision info type t := fun hsame => absurd hsame.2 (Nat.ne_of_lt h.2)

/-- A type stands well before an earlier revision of it. -/
theorem Descending.insert {type t : ι} {l : List ι} (h : Descending info (t :: l))
    (ht : LowerRevision info type t) :
    (∀ later ∈ t :: l, ¬ SameRevision info type later) ∧ Descending info (type :: t :: l) := by
  constructor
  · intro later hlater hsame
    exact (h.lower ht later hlater hsame.1).not_same hsame
  · refine descending_cons.mpr ⟨fun later hlater hname => ?_, h⟩
    exact (h.lower ht later hlater hname).2

/-- A node that is neither known nor lower has a higher revision or another name. -/
theorem higher_of_not {type t : ι} (hsame : ¬ SameRevision info type t)
    (hlower : ¬ LowerRevision info type t) (hname : (info t).name = (info type).name) :
    (info type).revision < (info t).revision := by
  have hne : (info t).revision ≠ (info type).revision := fun h => hsame ⟨hname, h⟩
  have hnlt : ¬ (info t).revision < (info type).revision := fun h => hlower ⟨hname, h⟩
  omega

/-- What the loop finds out about an ordered list. -/
def PlacedRight (info : ι → TypeInfo) (type : ι) (l : List ι) : Placed ι → Prop
  | .eexist => ∃ t ∈ l, SameRevision info type t
  | .inserted l' => (∃ t ∈ l, LowerRevision info type t) ∧
      (∀ t ∈ l, ¬ SameRevision info type t) ∧ l' ~ type :: l ∧ Descending info l'
  | .passed => ∀ t ∈ l, ¬ SameRevision info type t ∧ ¬ LowerRevision info type t

theorem PlacedRight.behind {type t : ι} {l : List ι} {p : Placed ι} (h : PlacedRight info type l p)
    (hl : Descending info (t :: l)) (hsame : ¬ SameRevision info type t)
    (hlower : ¬ LowerRevision info type t) : PlacedRight info type (t :: l) (p.behind t) := by
  cases p with
  | eexist =>
    obtain ⟨s, hs, hs2⟩ := h
    exact ⟨s, mem_cons_of_mem t hs, hs2⟩
  | inserted l' =>
    obtain ⟨⟨s, hs, hs2⟩, hno, hperm, hdesc⟩ := h
    refine ⟨⟨s, mem_cons_of_mem t hs, hs2⟩, ?_, (hperm.cons t).trans (.swap type t l), ?_⟩
    · intro u hu
      rcases mem_cons.mp hu with rfl | hu
      · exact hsame
      · exact hno u hu
    · refine descending_cons.mpr ⟨fun u hu hname => ?_, hdesc⟩
      rcases mem_cons.mp (hperm.subset hu) with rfl | hu
      · exact higher_of_not hsame hlower hname.symm
      · exact (descending_cons.mp hl).1 u hu hname
  | passed =>
    intro u hu
    rcases mem_cons.mp hu with rfl | hu
    · exact ⟨hsame, hlower⟩
    · exact h u hu

theorem placeType_right (type : ι) {l : List ι} (h : Descending info l) :
    PlacedRight info type l (placeType info type l) := by
  induction l with
  | nil =>
    intro t ht
    cases ht
  | cons t rest ih =>
    by_cases hsame : SameRevision info type t
    · have hp : placeType info type (t :: rest) = .eexist := by
        cases rest <;> simp only [placeType, if_pos hsame]
      rw [hp]
      exact ⟨t, mem_cons_self, hsame⟩
    by_cases hlower : LowerRevision info type t
    · have hp : placeType info type (t :: rest) = .inserted (type :: t :: rest) := by
        cases rest <;> simp only [placeType, if_neg hsame, if_pos hlower]
      rw [hp]
      have hinsert := h.insert hlower
      exact ⟨⟨t, mem_cons_self, hlower⟩, hinsert.1, .refl _, hinsert.2⟩
    -- the node behind `t` is looked at twice, here and at the head of the rest
    have hbehind := (ih (descending_cons.mp h).2).behind h hsame hlower
    cases rest with
    | nil => simpa only [placeType, if_neg hsame, if_neg hlower, Placed.behind] using hbehind
    | cons next rest =>
      have hp : placeType info type (t :: next :: rest) =
          (placeType info type (next :: rest)).behind t := by
        rw [placeType, if_neg hsame, if_neg hlower]
        split
        next hs => cases rest <;> simp only [placeType, if_pos hs, Placed.behind]
        next hs =>
          split
          next hl => cases rest <;> simp only [placeType, if_neg hs, if_pos hl, Placed.behind]
          next hl => rfl
      rw [hp]
      exact hbehind

variable [DecidableEq ι]

/-- The cases of a call on an ordered list. -/
inductive AddCase (info : ι → TypeInfo) (l : List ι) (type : ι) : Option (Ret × List ι) → Prop
  | einval (hlong : dsetMaxnamelen - 1 < (info type).name.length) :
      AddCase info l type (some (.err .einval, l))
  | eexist (hfit : (info type).name.length ≤ dsetMaxnamelen - 1)
      (hsame : ∃ t ∈ l, SameRevision info type t) : AddCase info l type (some (.err .eexist, l))
  | added {l' : List ι} (hfit : (info type).name.length ≤ dsetMaxnamelen - 1)
      (hno : ∀ t ∈ l, ¬ SameRevision info type t) (hperm : l' ~ type :: l)
      (hiff : Descending info l' ↔ ¬ Lowest info l type) : AddCase info l type (some (.ok, l'))

theorem dsetTypeAdd_case {l : List ι} (type : ι) (h : Descending info l) :
    AddCase info l type (dsetTypeAdd info l type) := by
  unfold dsetTypeAdd
  by_cases hlong : dsetMaxnamelen - 1 < (info type).name.length
  · rw [if_pos hlong]
    exact .einval hlong
  rw [if_neg hlong]
  have hfit := Nat.le_of_not_lt hlong
  have hnew : (∀ t ∈ l, ¬ SameRevision info type t) → type ∉ l :=
    fun hno hmem => hno type hmem ⟨rfl, rfl⟩
  have hright := placeType_right type h
  cases hp : placeType info type l with
  | eexist =>
    rw [hp] at hright
    exact .eexist hfit hright
  | inserted l' =>
    rw [hp] at hright
    obtain ⟨⟨t, ht, hlower⟩, hno, hperm, hdesc⟩ := hright
    simp only [if_neg (hnew hno)]
    refine .added hfit hno hperm (iff_of_true hdesc fun hlow => ?_)
    exact absurd (hlow.2.2 t ht hlower.1) (Nat.lt_asymm hlower.2)
  | passed =>
    rw [hp] at hright
    have hno : ∀ t ∈ l, ¬ SameRevision info type t := fun t ht => (hright t ht).1
    have hhigher : ∀ t ∈ l, (info t).name = (info type).name →
        (info type).revision < (info t).revision :=
      fun t ht hname => higher_of_not (hright t ht).1 (hright t ht).2 hname
    simp only [if_neg (hnew hno)]
    refine .added hfit hno (.refl _) ⟨?_, fun hnot => ?_⟩
    · rintro hdesc ⟨-, ⟨t, ht, hname⟩, -⟩
      have hlt := (descending_cons.mp hdesc).1 t ht hname
      exact absurd (hhigher t ht hname) (Nat.lt_asymm hlt)
    · refine descending_cons.mpr ⟨fun t ht hname => ?_, h⟩
      exact absurd ⟨hfit, ⟨t, ht, hname⟩, hhigher⟩ hnot

/-- One call keeps the order if and only if its type is not the lowest of its name. -/
theorem descending_step {l l' : List ι} {call : ι × Ret} (h : Descending info l)
    (hstep : (typeListSystem info).step l call l') :
    Descending info l' ↔ ¬ Lowest info l call.1 := by
  obtain ⟨type, r⟩ := call
  have hstep : dsetTypeAdd info l type = some (r, l') := hstep
  have hcase := dsetTypeAdd_case type h
  rw [hstep] at hcase
  cases hcase with
  | einval hlong => exact iff_of_true h fun hlow => absurd hlow.1 (Nat.not_le_of_lt hlong)
  | eexist hfit hsame =>
    obtain ⟨t, ht, hname, hrev⟩ := hsame
    exact iff_of_true h fun hlow => absurd hrev (Nat.ne_of_gt (hlow.2.2 t ht hname))
  | added hfit hno hperm hiff => exact hiff

/-- What an ordered list has to do with the calls that led to it. -/
structure Registered (info : ι → TypeInfo) (calls : List (ι × Ret)) (l : List ι) : Prop where
  descending : Descending info l
  fit : NamesFit info l
  nodup : l.Nodup
  perm : l ~ addedTypes calls

omit [DecidableEq ι] in
theorem addedTypes_snoc (calls : List (ι × Ret)) (type : ι) (r : Ret) :
    addedTypes (calls ++ [(type, r)]) = if r = .ok then type :: addedTypes calls
      else addedTypes calls := by
  unfold addedTypes
  split
  next h => simp [h]
  next h => simp [h]

theorem registered_step {calls : List (ι × Ret)} {l l' : List ι} {call : ι × Ret}
    (h : Registered info calls l) (hstep : (typeListSystem info).step l call l')
    (hdesc : Descending info l') : Registered info (calls ++ [call]) l' := by
  obtain ⟨type, r⟩ := call
  have hstep : dsetTypeAdd info l type = some (r, l') := hstep
  have hcase := dsetTypeAdd_case type h.descending
  rw [hstep] at hcase
  cases hcase with
  | einval hlong =>
    exact ⟨h.descending, h.fit, h.nodup, by simpa [addedTypes_snoc] using h.perm⟩
  | eexist hfit hsame =>
    exact ⟨h.descending, h.fit, h.nodup, by simpa [addedTypes_snoc] using h.perm⟩
  | added hfit hno hperm hiff =>
    refine ⟨hdesc, fun t ht => ?_, ?_, ?_⟩
    · rcases mem_cons.mp (hperm.subset ht) with rfl | ht
      · exact hfit
      · exact h.fit t ht
    · have hnew : type ∉ l := fun hmem => hno type hmem ⟨rfl, rfl⟩
      exact hperm.nodup_iff.mpr (List.nodup_cons.mpr ⟨hnew, h.nodup⟩)
    · rw [addedTypes_snoc, if_pos rfl]
      exact hperm.trans (h.perm.cons type)

theorem registered_run {calls : List (ι × Ret)} {l : List ι}
    (h : ((typeListSystem info).within (Descending info)).Run calls l) :
    Registered info calls l := by
  refine h.history ?_ ?_
  · rintro s ⟨rfl, hs⟩
    exact ⟨hs, List.forall_mem_nil _, List.nodup_nil, Perm.refl _⟩
  · intro calls s call s' hs hstep
    exact registered_step hs hstep.1 hstep.2

theorem Registered.call {calls : List (ι × Ret)} {l : List ι} (h : Registered info calls l)
    (type : ι) : ∃ r l', dsetTypeAdd info l type = some (r, l') ∧
      (r = .err .eexist ↔ ∃ t ∈ l, SameRevision info type t) ∧
      (r = .err .eexist → l' = l) := by
  have hcase := dsetTypeAdd_case type h.descending
  generalize dsetTypeAdd info l type = res at hcase
  cases hcase with
  | einval hlong =>
    refine ⟨_, _, rfl, iff_of_false (by simp) ?_, fun _ => rfl⟩
    rintro ⟨t, ht, hname, -⟩
    have := h.fit t ht
    rw [hname] at this
    omega
  | eexist hfit hsame => exact ⟨_, _, rfl, iff_of_true rfl hsame, fun _ => rfl⟩
  | added hfit hno hperm hiff =>
    refine ⟨_, _, rfl, iff_of_false (by simp) ?_, fun h => by cases h⟩
    rintro ⟨t, ht, hsame⟩
    exact hno t ht hsame

/-- The runs in which no type comes in below all the others of its name are those all of whose
lists descend. In these the types whose calls returned 0 are on the list, each once, and the next
call fails with `-EEXIST` if and only if its name and revision are known, and leaves the list. -/
theorem type_list_descending (info : ι → TypeInfo) (calls : List (ι × Ret)) (typelist : List ι) :
    (((typeListSystem info).guard fun l call => ¬ Lowest info l call.1).Run calls typelist ↔
      ((typeListSystem info).within (Descending info)).Run calls typelist) ∧
    (((typeListSystem info).guard fun l call => ¬ Lowest info l call.1).Run calls typelist →
      Descending info typelist ∧ typelist.Nodup ∧ typelist ~ addedTypes calls ∧
      ∀ type, ∃ r l', dsetTypeAdd info typelist type = some (r, l') ∧
        (r = .err .eexist ↔ ∃ t ∈ typelist, SameRevision info type t) ∧
        (r = .err .eexist → l' = typelist)) := by
  have hiff : ((typeListSystem info).guard fun l call => ¬ Lowest info l call.1).Run calls
      typelist ↔ ((typeListSystem info).within (Descending info)).Run calls typelist := by
    apply System.Run.guard_iff_within
    · rintro s rfl
      exact List.Pairwise.nil
    · intro s call s' hs hstep
      exact descending_step hs hstep
  refine ⟨hiff, fun h => ?_⟩
  have hreg := registered_run (hiff.mp h)
  exact ⟨hreg.descending, hreg.nodup, hreg.perm, hreg.call⟩

def gapTypes (low : Bool) : TypeInfo :=
  ⟨bytes "hash:domain", [bytes "dhash"], if low then 1 else 3, nfprotoUnspec⟩

/-- Revision 1 comes to stand before revision 3. -/
theorem type_list_ascending :
    ¬ ∀ (info : Bool → TypeInfo) (calls : List (Bool × Ret)) (typelist : List Bool),
      (typeListSystem info).Run calls typelist → Descending info typelist := by
  intro h
  have hfirst : dsetTypeAdd gapTypes [] false = some (.ok, [false]) := by decide
  have hsecond : dsetTypeAdd gapTypes [false] true = some (.ok, [true, false]) := by decide
  have hrun : (typeListSystem gapTypes).Run [(false, .ok), (true, .ok)] [true, false] :=
    .snoc (l := [(false, Ret.ok)]) (.snoc (l := []) (.start rfl) hfirst) hsecond
  have hlt := (descending_cons.mp (h gapTypes _ _ hrun)).1 false (by decide) rfl
  exact absurd hlt (by decide)

end Dset.User
