import Dset.User.Entries
import Mathlib.Data.Finset.Erase

/-! What the entries of a listing depend on. Two blobs agree on options when the same of them are
stored, with the same values. They agree on all options whose bits are cleared, and storing the same
attributes into both extends the agreement by the options of these, as long as no two of the members
share a byte: so they print alike whatever they held before. An element is printed from a blob that
is cleared of `DSET_ADT_FLAGS`, a header from one that is cleared of `DSET_CREATE_FLAGS`; arguments
of other options depend on earlier entries. -/

namespace Dset.User.Options

open Dset.Lib Dset.Core

/-! ### What is stored -/

def DsetOpt.apart (o o' : DsetOpt) : Bool :=
  match o.member, o'.member with
  | some m, some m' => m.Apart m'
  | _, _ => true

def DsetOpt.loadable (o : DsetOpt) : Bool := o.assigned || o = .cadtFlags || o = .lineno

/-- The bits that storing an option of an attribute sets. -/
def loadBits (opt : DsetOpt) (value : List UInt8) : Finset DsetOpt :=
  if opt = .cadtFlags then {.cadtFlags} ∪ cadtFlagBits (leNat (cadtFlagsMember.stored value))
  else {opt}

theorem mem_loadBits (opt : DsetOpt) (value : List UInt8) : opt ∈ loadBits opt value := by
  unfold loadBits
  split
  · next hflags =>
    rw [hflags]
    exact Finset.mem_union_left _ (Finset.mem_singleton_self _)
  · exact Finset.mem_singleton_self opt

theorem DsetOpt.member_of_assigned {opt : DsetOpt} (h : opt.assigned = true) :
    ∃ m, opt.member = some m := by
  cases opt <;> first | exact absurd h (by decide) | exact ⟨_, rfl⟩

namespace Blob

variable {b b₁ : Blob} {opt : DsetOpt} {value : List UInt8}

/-- What `dset_data_set` does with an option of an attribute. -/
theorem set_loadable (hopt : opt.loadable = true) (h : b.set opt value = some b₁) :
    ∃ m, opt.member = some m ∧ b₁ = (b.store m value).flagsSet (loadBits opt value) := by
  by_cases hassigned : opt.assigned = true
  · have hflags : opt ≠ .cadtFlags := by
      rintro rfl
      cases hassigned
    obtain ⟨m, hm⟩ := DsetOpt.member_of_assigned hassigned
    rw [b.set_assigned hassigned hm] at h
    refine ⟨m, hm, ?_⟩
    rw [loadBits, if_neg hflags]
    exact (Option.some.inj h).symm
  · have hcases : opt = .cadtFlags ∨ opt = .lineno := by
      simpa [DsetOpt.loadable, hassigned] using hopt
    rcases hcases with rfl | rfl
    · refine ⟨cadtFlagsMember, rfl, ?_⟩
      rw [← Option.some.inj h, loadBits, if_pos rfl]
      simp only [flagsSet, store, Finset.union_assoc]
    · cases h

/-- An option whose member is apart keeps its value. -/
theorem read_set_of_apart (hopt : opt.loadable = true) (h : b.set opt value = some b₁) {o : DsetOpt}
    (hapart : o.apart opt = true) {m : Member} (hm : o.member = some m) :
    b₁.mem.read m.offset m.size = b.mem.read m.offset m.size := by
  obtain ⟨m', hm', rfl⟩ := set_loadable hopt h
  have hapart : m.Apart m' := by simpa [DsetOpt.apart, hm, hm'] using hapart
  exact b.read_store_of_apart hapart.symm value

theorem test_set (hopt : opt.loadable = true) (h : b.set opt value = some b₁) (o : DsetOpt) :
    b₁.test o = (decide (o ∈ loadBits opt value) || b.test o) := by
  obtain ⟨m, -, rfl⟩ := set_loadable hopt h
  rw [test_flagsSet, test_store]

theorem type_set (hopt : opt.loadable = true) (h : b.set opt value = some b₁) :
    b₁.type = b.type := by
  obtain ⟨m, -, rfl⟩ := set_loadable hopt h
  rfl

theorem mem_loadBits_iff {o : DsetOpt} (hmem : o ∈ loadBits opt value) :
    o = opt ∨ o ∈ ({.before, .physdev, .nomatch, .counters, .createComment, .skbinfo} :
      Finset DsetOpt) := by
  unfold loadBits at hmem
  split at hmem
  · next hflags =>
    rcases Finset.mem_union.mp hmem with hmem | hmem
    · exact .inl ((Finset.mem_singleton.mp hmem).trans hflags.symm)
    · exact .inr (Finset.mem_of_mem_filter o hmem)
  · exact .inl (Finset.mem_singleton.mp hmem)

/-- Storing an option sets no other one with a member of its own. -/
theorem eq_of_mem_loadBits {o : DsetOpt} (ho : o.assigned = true) (hmem : o ∈ loadBits opt value) :
    o = opt := by
  have hflag : ∀ o ∈ ({.before, .physdev, .nomatch, .counters, .createComment, .skbinfo} :
      Finset DsetOpt), o.assigned = false := by decide
  refine (mem_loadBits_iff hmem).resolve_right fun hmem => ?_
  rw [hflag o hmem] at ho
  cases ho

/-- No attribute sets the bit of the type or of `forceadd`. -/
theorem test_set_of_not (hopt : opt.loadable = true) (h : b.set opt value = some b₁) {o : DsetOpt}
    (ho : o = .type ∨ o = .forceadd) : b₁.test o = b.test o := by
  have hbit : o ∉ loadBits opt value := by
    intro hmem
    rcases mem_loadBits_iff hmem with rfl | hmem
    · rcases ho with rfl | rfl <;> cases hopt
    · rcases ho with rfl | rfl <;> exact absurd hmem (by decide)
  rw [test_set hopt h o, decide_eq_false hbit, Bool.false_or]

theorem getType_set (hopt : opt.loadable = true) (h : b.set opt value = some b₁) :
    b₁.getType = b.getType := by
  rw [getType, getType, test_set_of_not hopt h (.inl rfl), type_set hopt h]

/-- Another option, whose member is apart, keeps its value. -/
theorem get_set_of_apart (hopt : opt.loadable = true) (h : b.set opt value = some b₁) {o : DsetOpt}
    (ho : o.assigned = true) (hname : o ≠ .typename) (hne : o ≠ opt) (hapart : o.apart opt = true) :
    b₁.get o = b.get o := by
  obtain ⟨m, hm⟩ := DsetOpt.member_of_assigned ho
  have htest := test_set hopt h o
  rw [decide_eq_false fun hmem => hne (eq_of_mem_loadBits ho hmem), Bool.false_or] at htest
  have hread := read_set_of_apart hopt h hapart hm
  simp only [get, hname, false_and, if_false, htest, hm, Option.map_some, hread]

end Blob

/-! ### Blobs that agree -/

/-- Two blobs agree on options: the same of them are stored, with the same values. -/
def Agree (P : DsetOpt → Prop) (b b' : Blob) : Prop :=
  ∀ o, P o → b.test o = b'.test o ∧ (o.assigned = true → b.test o = true →
    ∀ m, o.member = some m → b.mem.read m.offset m.size = b'.mem.read m.offset m.size)

/-- Options of attributes whose members share no byte. -/
structure Apart (Q : Finset DsetOpt) : Prop where
  loadable : ∀ o ∈ Q, o.loadable = true
  apart : ∀ o ∈ Q, ∀ o' ∈ Q, o ≠ o' → o.apart o' = true

namespace Agree

variable {P : DsetOpt → Prop} {b b' b₁ b₁' : Blob} {Q : Finset DsetOpt}

theorem mono {P' : DsetOpt → Prop} (h : Agree P b b') (hP : ∀ o, P' o → P o) : Agree P' b b' :=
  fun o ho => h o (hP o ho)

/-- Blobs agree on the options that both do not store. -/
theorem of_unset {o : DsetOpt} (h : b.test o = false) (h' : b'.test o = false) :
    Agree (· = o) b b' := by
  rintro o rfl
  refine ⟨h.trans h'.symm, fun _ htest => ?_⟩
  rw [h] at htest
  cases htest

theorem flagsUnset (b b' : Blob) (flags : Finset DsetOpt) :
    Agree (· ∈ flags) (b.flagsUnset flags) (b'.flagsUnset flags) := by
  intro o ho
  have hclear (b : Blob) : (b.flagsUnset flags).test o = false := by simp [ho]
  exact of_unset (hclear b) (hclear b') o rfl

/-- Storing the same value adds its option to the agreement. -/
theorem set (hQ : Apart Q) (hP : ∀ o, P o → o.assigned = true → o ∈ Q) {opt : DsetOpt}
    (hopt : opt ∈ Q) (h : Agree P b b') {value : List UInt8} (hb : b.set opt value = some b₁)
    (hb' : b'.set opt value = some b₁') : Agree (fun o => P o ∨ o = opt) b₁ b₁' := by
  have hload := hQ.loadable opt hopt
  intro o ho
  have htest := Blob.test_set hload hb o
  have htest' := Blob.test_set hload hb' o
  rcases eq_or_ne o opt with rfl | hne
  · obtain ⟨m, hm, rfl⟩ := Blob.set_loadable hload hb
    obtain ⟨m', hm', rfl⟩ := Blob.set_loadable hload hb'
    obtain rfl : m = m' := Option.some.inj (hm.symm.trans hm')
    refine ⟨by rw [htest, htest']; simp [mem_loadBits], fun _ _ m' hm' => ?_⟩
    obtain rfl : m = m' := Option.some.inj (hm.symm.trans hm')
    exact (b.read_store value).trans (b'.read_store value).symm
  · have hold := h o (ho.resolve_right hne)
    refine ⟨by rw [htest, htest', hold.1], fun hassigned hset m hm => ?_⟩
    have hbit : o ∉ loadBits opt value := fun hbit => hne (Blob.eq_of_mem_loadBits hassigned hbit)
    rw [htest, decide_eq_false hbit, Bool.false_or] at hset
    have hapart := hQ.apart o (hP o (ho.resolve_right hne) hassigned) opt hopt hne
    rw [Blob.read_set_of_apart hload hb hapart hm, Blob.read_set_of_apart hload hb' hapart hm]
    exact hold.2 hassigned hset m hm

theorem attr2data (hQ : Apart Q) (hP : ∀ o, P o → o.assigned = true → o ∈ Q) {p : AttrPolicy}
    (hopt : p.opt ∈ Q) (h : Agree P b b') {a : NlAttr} (hb : attr2data b p a = some b₁)
    (hb' : Options.attr2data b' p a = some b₁') : Agree (fun o => P o ∨ o = p.opt) b₁ b₁' := by
  unfold Options.attr2data at hb hb'
  split at hb
  · cases hb
  next hlen =>
    rw [if_neg hlen] at hb'
    exact h.set hQ hP hopt hb hb'

def Loaded (policy : ℕ → Option AttrPolicy) (nla : Nla) (is : List ℕ) (o : DsetOpt) : Prop :=
  ∃ i ∈ is, (nla i).isSome = true ∧ ∃ p, policy i = some p ∧ p.opt = o

/-- Loading the same attributes adds their options to the agreement. -/
theorem loadAttrs (hQ : Apart Q) {policy : ℕ → Option AttrPolicy}
    (hpolicy : ∀ i p, policy i = some p → p.opt ∈ Q.erase .setname) {nla : Nla} {is : List ℕ}
    (hP : ∀ o, P o → o.assigned = true → o ∈ Q) (h : Agree P b b')
    (hb : loadAttrs policy nla is b = some b₁)
    (hb' : Options.loadAttrs policy nla is b' = some b₁') :
    Agree (fun o => P o ∨ Loaded policy nla is o) b₁ b₁' := by
  induction is generalizing P b b' with
  | nil =>
    cases hb
    cases hb'
    exact h.mono fun o ho => ho.resolve_right fun ⟨i, hi, _⟩ => List.not_mem_nil hi
  | cons i is ih =>
    have hskip (o : DsetOpt) (hnot : (nla i).isSome = true → policy i = none)
        (hload : Loaded policy nla (i :: is) o) : Loaded policy nla is o := by
      obtain ⟨j, hj, hsome, p, hp, rfl⟩ := hload
      rcases List.mem_cons.mp hj with rfl | hj
      · rw [hnot hsome] at hp
        cases hp
      · exact ⟨j, hj, hsome, p, hp, rfl⟩
    unfold Options.loadAttrs at hb hb'
    cases ha : nla i with
    | none =>
      simp only [ha] at hb hb'
      exact (ih hP h hb hb').mono fun o => Or.imp_right (hskip o (by simp [ha]))
    | some a =>
      cases hp : policy i with
      | none =>
        simp only [ha, hp] at hb hb'
        exact (ih hP h hb hb').mono fun o => Or.imp_right (hskip o fun _ => hp)
      | some p =>
        simp only [ha, hp] at hb hb'
        obtain ⟨b₂, hb₂, hb⟩ := Option.bind_eq_some_iff.mp hb
        obtain ⟨b₂', hb₂', hb'⟩ := Option.bind_eq_some_iff.mp hb'
        have hopt := Finset.mem_of_mem_erase (hpolicy i p hp)
        have h₂ := h.attr2data hQ hP hopt hb₂ hb₂'
        refine (ih (fun o ho hassigned => ?_) h₂ hb hb').mono fun o ho => ?_
        · rcases ho with ho | rfl
          · exact hP o ho hassigned
          · exact hopt
        · rcases ho with ho | ⟨j, hj, hsome, q, hq, rfl⟩
          · exact .inl (.inl ho)
          · rcases List.mem_cons.mp hj with rfl | hj
            · obtain rfl : p = q := Option.some.inj (hp.symm.trans hq)
              exact .inl (.inr rfl)
            · exact .inr ⟨j, hj, hsome, q, hq, rfl⟩

theorem setType (h : Agree P b b') (t : TypeDesc) : Agree P (b.setType t) (b'.setType t) := by
  intro o ho
  obtain ⟨htest, hread⟩ := h o ho
  simp only [Blob.setType, Blob.test_flagsSet]
  refine ⟨by simp only [Blob.test] at htest ⊢; rw [htest], ?_⟩
  intro hassigned hset m hm
  have hne : o ≠ .type := by
    rintro rfl
    cases hassigned
  exact hread hassigned (by simpa [Blob.test, hne] using hset) m hm

/-- Blobs that agree on an option give the same value of it. -/
theorem get (h : Agree P b b') {o : DsetOpt} (ho : P o) (hassigned : o.assigned = true)
    (hname : o ≠ .typename) : b.get o = b'.get o := by
  obtain ⟨htest, hread⟩ := h o ho
  obtain ⟨m, hm⟩ := DsetOpt.member_of_assigned hassigned
  by_cases hset : b.test o = true
  · rw [b.get_of_test hname hm hset, b'.get_of_test hname hm (htest ▸ hset),
      hread hassigned hset m hm]
  · have hunset (b : Blob) (hb : ¬ b.test o = true) : b.get o = none := by
      simp [Blob.get, hname, hb]
    rw [hunset b hset, hunset b' (htest ▸ hset)]

end Agree

/-! ### Texts -/

section Text

variable {P : DsetOpt → Prop} {b b' : Blob}

/-- An argument is printed alike from blobs that agree on its option. -/
theorem argText_congr (h : Agree P b b') (mode : OutputMode) {k : Keyword}
    (hk : (dsetKeyword k).print.isSome = true → P (dsetKeyword k).opt) :
    argText mode b (dsetKeyword k) = argText mode b' (dsetKeyword k) := by
  unfold argText
  cases hp : (dsetKeyword k).print with
  | none => rfl
  | some print =>
  have hk := hk (by rw [hp]; rfl)
  have htest := (h _ hk).1
  have hget (hassigned : (dsetKeyword k).opt.assigned = true)
      (hname : (dsetKeyword k).opt ≠ .typename) :
      b.get (dsetKeyword k).opt = b'.get (dsetKeyword k).opt := h.get hk hassigned hname
  have hprint : ∀ print ∈ (dsetKeyword k).print,
      print b (dsetKeyword k).opt = print b' (dsetKeyword k).opt := by
    intro print hprint
    -- A flag prints nothing, and every other option is printed from its value.
    cases k <;> cases hprint <;> first
      | rfl
      | exact congrArg (Option.bind · _) (hget rfl DsetOpt.noConfusion)
      | exact congrArg (Option.map _) (hget rfl DsetOpt.noConfusion)
  simp only [htest, hprint print hp]

theorem argsText_congr (h : Agree P b b') (mode : OutputMode) {ks : List Keyword}
    (hks : ∀ k ∈ ks, (dsetKeyword k).print.isSome = true → P (dsetKeyword k).opt) : argsText mode b ks = argsText mode b' ks := by
  induction ks with
  | nil => rfl
  | cons k ks ih =>
    have hk := argText_congr h mode (hks k List.mem_cons_self)
    have hks := ih fun k hk => hks k (List.mem_cons_of_mem _ hk)
    simp only [argsText, hk, hks]

theorem dsetPrintNumber_congr {opt : DsetOpt} (h : b.get opt = b'.get opt) :
    dsetPrintNumber b opt = dsetPrintNumber b' opt := congrArg (Option.bind · _) h

/-- The text of an element depends on the name and type of its set, its domain, and the options of
the arguments. -/
theorem adtText_congr (h : Agree P b b') (htype : b.getType = b'.getType) (mode : OutputMode)
    {t : TypeDesc} (hname : P .setname) (hdomain : P .domain)
    (hargs : ∀ k ∈ t.addArgs, (dsetKeyword k).print.isSome = true → P (dsetKeyword k).opt) :
    adtText mode b t = adtText mode b' t := by
  have hsetname := h.get hname rfl DsetOpt.noConfusion
  have hdomain := h.get hdomain rfl DsetOpt.noConfusion
  simp only [adtText, dsetDataSetname, dsetPrintElem, dsetPrintDomain, hsetname, htype, hdomain,
    argsText_congr h mode hargs]

/-- The text of a header depends on the name of its set, the numbers the kernel always sends, and
the options of the arguments. -/
theorem createText_congr (h : Agree P b b') (mode : OutputMode) (listHeader : Bool) {t : TypeDesc}
    (hname : P .setname) (hnumbers : P .memsize ∧ P .references ∧ P .elements)
    (hargs : ∀ k ∈ t.createArgs, (dsetKeyword k).print.isSome = true → P (dsetKeyword k).opt) :
    createText mode b listHeader t = createText mode b' listHeader t := by
  obtain ⟨hmemsize, hreferences, helements⟩ := hnumbers
  have hsetname := h.get hname rfl DsetOpt.noConfusion
  have hmemsize := dsetPrintNumber_congr (h.get hmemsize rfl DsetOpt.noConfusion)
  have hreferences := dsetPrintNumber_congr (h.get hreferences rfl DsetOpt.noConfusion)
  have htest := (h .elements helements).1
  have helements := dsetPrintNumber_congr (h.get helements rfl DsetOpt.noConfusion)
  simp only [createText, dsetDataSetname, elementsText, hsetname, hmemsize, hreferences, htest,
    helements, argsText_congr h mode hargs]

end Text

/-! ### One entry -/

def adtOpts : Finset DsetOpt :=
  {.setname, .domain, .timeout, .cadtFlags, .lineno, .name, .nameref, .bytes, .packets, .adtComment,
    .skbmark, .skbprio, .skbqueue}

def createOpts : Finset DsetOpt :=
  {.setname, .family, .typename, .revision, .domain, .timeout, .cadtFlags, .gc, .hashsize, .maxelem,
    .probes, .resize, .size, .elements, .references, .memsize}

theorem adtOpts_apart : Apart adtOpts := ⟨by decide, by decide⟩

theorem createOpts_apart : Apart createOpts := ⟨by decide, by decide⟩

theorem adtAttrs_opt (i : ℕ) (p : AttrPolicy) (h : adtAttrs i = some p) :
    p.opt ∈ adtOpts.erase .setname := by
  unfold adtAttrs at h
  split at h <;> cases h <;> decide

theorem createAttrs_opt (i : ℕ) (p : AttrPolicy) (h : createAttrs i = some p) :
    p.opt ∈ createOpts.erase .setname := by
  unfold createAttrs at h
  split at h <;> cases h <;> decide

def nameValue (setname : NlAttr) : List UInt8 :=
  Member.stored ⟨16, dsetMaxnamelen, true⟩ (hostValue setnamePolicy setname)

/-- Clearing the bits of other options leaves a value. -/
theorem Blob.get_flagsUnset (b : Blob) {flags : Finset DsetOpt} {o : DsetOpt} (ho : o ∉ flags)
    (hname : o ≠ .typename) : (b.flagsUnset flags).get o = b.get o := by
  have htest : (b.flagsUnset flags).test o = b.test o := by simp [ho]
  simp only [Blob.get, hname, false_and, if_false, htest]
  rfl

theorem Blob.get_setType (b : Blob) (t : TypeDesc) {o : DsetOpt} (ho : o ≠ .type)
    (hname : o ≠ .typename) : (b.setType t).get o = b.get o := by
  have htest : (b.setType t).test o = b.test o := by simp [setType, test, flagsSet, ho]
  simp only [Blob.get, hname, false_and, if_false, htest]
  rfl

section Keep

variable {b b₁ b₂ : Blob} {Q : Finset DsetOpt}

/-- The name and the type of the set stay. -/
structure Keeps (b b₁ : Blob) : Prop where
  name : b₁.get .setname = b.get .setname
  type : b₁.getType = b.getType
  typeBit : b₁.test .type = b.test .type
  forceadd : b₁.test .forceadd = b.test .forceadd

theorem Keeps.trans (h : Keeps b b₁) (h' : Keeps b₁ b₂) : Keeps b b₂ :=
  ⟨h'.name.trans h.name, h'.type.trans h.type, h'.typeBit.trans h.typeBit,
    h'.forceadd.trans h.forceadd⟩

theorem attr2data_keeps (hQ : Apart Q) (hname : .setname ∈ Q) {p : AttrPolicy}
    (hopt : p.opt ∈ Q.erase .setname) {a : NlAttr} (h : attr2data b p a = some b₁) :
    Keeps b b₁ := by
  unfold attr2data at h
  obtain ⟨hne, hmem⟩ := Finset.mem_erase.mp hopt
  have hload := hQ.loadable _ hmem
  split at h
  · cases h
  · exact ⟨Blob.get_set_of_apart hload h rfl DsetOpt.noConfusion hne.symm
      (hQ.apart _ hname _ hmem hne.symm), Blob.getType_set hload h,
      Blob.test_set_of_not hload h (.inl rfl), Blob.test_set_of_not hload h (.inr rfl)⟩

theorem loadAttrs_keeps (hQ : Apart Q) (hname : .setname ∈ Q) {policy : ℕ → Option AttrPolicy}
    (hpolicy : ∀ i p, policy i = some p → p.opt ∈ Q.erase .setname) {nla : Nla} {is : List ℕ}
    (h : loadAttrs policy nla is b = some b₁) : Keeps b b₁ := by
  induction is generalizing b with
  | nil =>
    cases h
    exact ⟨rfl, rfl, rfl, rfl⟩
  | cons i is ih =>
    unfold loadAttrs at h
    cases ha : nla i with
    | none =>
      simp only [ha] at h
      exact ih h
    | some a =>
      cases hp : policy i with
      | none =>
        simp only [ha, hp] at h
        exact ih h
      | some p =>
        simp only [ha, hp] at h
        obtain ⟨b₂, hb₂, h⟩ := Option.bind_eq_some_iff.mp h
        exact (attr2data_keeps hQ hname (hpolicy i p hp) hb₂).trans (ih h)

end Keep

/-- The blob belongs to a set of this name and type. -/
structure InSet (setname : NlAttr) (t : TypeDesc) (b : Blob) : Prop where
  name : b.get .setname = some (nameValue setname)
  type : b.getType = some t
  forceadd : b.test .forceadd = false

theorem InSet.keeps {setname : NlAttr} {t : TypeDesc} {b b₁ : Blob} (h : InSet setname t b)
    (hb : Keeps b b₁) : InSet setname t b₁ :=
  ⟨hb.name.trans h.name, hb.type.trans h.type, hb.forceadd.trans h.forceadd⟩

/-- An element of the set is yet to be loaded. -/
theorem InSet.cleared {setname : NlAttr} {t : TypeDesc} {b : Blob} (h : InSet setname t b) :
    InSet setname t (b.flagsUnset dsetAdtFlags) where
  name := (b.get_flagsUnset (by decide) DsetOpt.noConfusion).trans h.name
  type := by
    have htest : (b.flagsUnset dsetAdtFlags).test .type = b.test .type := by simp [dsetAdtFlags]
    rw [Blob.getType, htest]
    exact h.type
  forceadd := by simp [h.forceadd]

namespace Agree

variable {P P' : DsetOpt → Prop} {b b' : Blob}

theorem or (h : Agree P b b') (h' : Agree P' b b') : Agree (fun o => P o ∨ P' o) b b' :=
  fun o ho => ho.elim (h o) (h' o)

/-- Blobs that give the same value agree on its option. -/
theorem of_get {opt : DsetOpt} {value : List UInt8} (hassigned : opt.assigned = true)
    (hname : opt ≠ .typename) (h : b.get opt = some value) (h' : b'.get opt = some value) :
    Agree (· = opt) b b' := by
  rintro o rfl
  have hset {b : Blob} (h : b.get o = some value) : b.test o = true := by
    by_contra hnot
    simp [Blob.get, hname, hnot] at h
  refine ⟨by rw [hset h, hset h'], fun _ htest m hm => ?_⟩
  rw [b.get_of_test hname hm htest] at h
  rw [b'.get_of_test hname hm (hset h')] at h'
  exact Option.some.inj (h.trans h'.symm)

/-- Blobs without a type agree on the name of it. -/
theorem get_typename (h : Agree P b b') (ho : P .typename) (htype : b.test .type = false)
    (htype' : b'.test .type = false) : b.get .typename = b'.get .typename := by
  obtain ⟨htest, hread⟩ := h _ ho
  simp only [Blob.get, htype, htype', htest]
  by_cases hset : b'.test .typename = true
  · simp only [hset]
    exact congrArg some (hread rfl (htest.trans hset) _ rfl)
  · simp [hset]

end Agree

section Printed

variable (c : Settings)

/-- An element was printed from a blob of its set, cleared of the options of elements and loaded
with its own attributes. -/
structure ElemEntry.Printed (e : ElemEntry) : Prop where
  registered : e.type ∈ c.typelist
  domain : (e.nla attrDomain).isSome = true
  text : ∃ b₀ b, InSet e.setname e.type b₀ ∧
    loadAttrs adtAttrs e.nla attrTypes (b₀.flagsUnset dsetAdtFlags) = some b ∧
    adtText c.mode b e.type = some e.text

/-- A header was printed from a blob of its name, cleared of the options of headers and loaded with
its own attributes. -/
structure HeaderEntry.Printed (h : HeaderEntry) : Prop where
  numbers : ∀ i ∈ attrsOfHeader, (h.nla i).isSome = true
  text : ∃ b₀ b₁ t b₂ text, b₀.get .setname = some (nameValue h.setname) ∧
    loadHeader h.typename h.family h.revision h.nla b₀ = some b₁ ∧
    dsetTypeCheck c b₁ = some (t, b₂) ∧ createText c.mode b₂ c.listHeader t = some text ∧
    h.text = separator c.mode h.later ++ text

/-- The options the types print are cleared: those of `add` before each element, apart from
`forceadd`, which no attribute sets, and those of `create` before each header. -/
def Settings.ArgsCleared : Prop :=
  ∀ t ∈ c.typelist,
    (∀ k ∈ t.addArgs, (dsetKeyword k).print.isSome = true →
      (dsetKeyword k).opt ∈ dsetAdtFlags ∨ (dsetKeyword k).opt = .forceadd) ∧
    ∀ k ∈ t.createArgs, (dsetKeyword k).print.isSome = true → (dsetKeyword k).opt ∈ dsetCreateFlags

variable {c}

/-- Elements of the same attributes have the same text. -/
theorem ElemEntry.Printed.text_eq (hc : c.ArgsCleared) {e f : ElemEntry} (he : e.Printed c)
    (hf : f.Printed c) (hname : e.setname = f.setname) (htype : e.type = f.type)
    (hnla : e.nla = f.nla) : e.text = f.text := by
  obtain ⟨b₀, b, hin, hload, htext⟩ := he.text
  obtain ⟨b₀', b', hin', hload', htext'⟩ := hf.text
  rw [← hnla] at hload'
  rw [← htype] at htext'
  have hclear := Agree.flagsUnset b₀ b₀' dsetAdtFlags
  have hsetname : Agree (· = .setname) (b₀.flagsUnset dsetAdtFlags) (b₀'.flagsUnset dsetAdtFlags) :=
    Agree.of_get rfl DsetOpt.noConfusion hin.cleared.name (hname ▸ hin'.cleared.name)
  have hforceadd := Agree.of_unset hin.cleared.forceadd hin'.cleared.forceadd
  have hP (o : DsetOpt) (ho : (o ∈ dsetAdtFlags ∨ o = .setname) ∨ o = .forceadd)
      (hassigned : o.assigned = true) : o ∈ adtOpts := by
    have hflags : ∀ o ∈ dsetAdtFlags, o.assigned = true → o ∈ adtOpts := by decide
    rcases ho with (ho | rfl) | rfl
    · exact hflags o ho hassigned
    · decide
    · cases hassigned
  have hagree :=
    ((hclear.or hsetname).or hforceadd).loadAttrs adtOpts_apart adtAttrs_opt hP hload hload'
  have hin₁ := hin.cleared.keeps (loadAttrs_keeps adtOpts_apart (by decide) adtAttrs_opt hload)
  have hin₁' := hin'.cleared.keeps (loadAttrs_keeps adtOpts_apart (by decide) adtAttrs_opt hload')
  have hgetType : b.getType = b'.getType := hin₁.type.trans (htype ▸ hin₁'.type.symm)
  have hdomain : Agree.Loaded adtAttrs e.nla attrTypes .domain :=
    ⟨attrDomain, by decide, he.domain, _, rfl, rfl⟩
  have hcongr := adtText_congr hagree hgetType c.mode (.inl (.inl (.inr rfl))) (.inr hdomain)
    fun k hk hprint => .inl (((hc e.type he.registered).1 k hk hprint).imp_left .inl)
  exact Option.some.inj (htext.symm.trans (hcongr.trans htext'))

/-- The blobs two headers of the same attributes are printed from. -/
theorem loadHeader_agree {typename family revision : NlAttr} {nla : Nla} {b b' b₁ b₁' : Blob}
    {setname : NlAttr} (hb : b.get .setname = some (nameValue setname))
    (hb' : b'.get .setname = some (nameValue setname))
    (h : loadHeader typename family revision nla b = some b₁)
    (h' : loadHeader typename family revision nla b' = some b₁') :
    Agree (fun o => o ∈ dsetCreateFlags ∨ o = .setname ∨ o = .revision ∨
      Agree.Loaded createAttrs nla attrTypes o) b₁ b₁' := by
  unfold loadHeader at h h'
  obtain ⟨x₁, hx₁, h⟩ := Option.bind_eq_some_iff.mp h
  obtain ⟨x₂, hx₂, h⟩ := Option.bind_eq_some_iff.mp h
  obtain ⟨x₃, hx₃, h⟩ := Option.bind_eq_some_iff.mp h
  obtain ⟨y₁, hy₁, h'⟩ := Option.bind_eq_some_iff.mp h'
  obtain ⟨y₂, hy₂, h'⟩ := Option.bind_eq_some_iff.mp h'
  obtain ⟨y₃, hy₃, h'⟩ := Option.bind_eq_some_iff.mp h'
  have hflags : ∀ o ∈ dsetCreateFlags, o.assigned = true → o ∈ createOpts := by decide
  have hsetname : Agree (· = .setname) (b.flagsUnset dsetCreateFlags)
      (b'.flagsUnset dsetCreateFlags) := by
    have hkeep (b : Blob) : (b.flagsUnset dsetCreateFlags).get .setname = b.get .setname :=
      b.get_flagsUnset (by decide) DsetOpt.noConfusion
    exact Agree.of_get rfl DsetOpt.noConfusion ((hkeep b).trans hb) ((hkeep b').trans hb')
  have h₀ := (Agree.flagsUnset b b' dsetCreateFlags).or hsetname
  have h₁ := h₀.attr2data createOpts_apart (by
    rintro o (ho | rfl) hassigned
    · exact hflags o ho hassigned
    · decide) (by decide) hx₁ hy₁
  have h₂ := h₁.attr2data createOpts_apart (by
    rintro o ((ho | rfl) | rfl) hassigned
    · exact hflags o ho hassigned
    all_goals decide) (by decide) hx₂ hy₂
  have h₃ := h₂.attr2data createOpts_apart (by
    rintro o (((ho | rfl) | rfl) | rfl) hassigned
    · exact hflags o ho hassigned
    all_goals decide) (by decide) hx₃ hy₃
  have h₄ := h₃.loadAttrs createOpts_apart createAttrs_opt (by
    rintro o ((((ho | rfl) | rfl) | rfl) | rfl) hassigned
    · exact hflags o ho hassigned
    all_goals decide) h h'
  refine h₄.mono fun o ho => ?_
  rcases ho with ho | rfl | rfl | ho
  · exact .inl (.inl (.inl (.inl (.inl ho))))
  · exact .inl (.inl (.inl (.inl (.inr rfl))))
  · exact .inl (.inr rfl)
  · exact .inr ho

/-- Before a header is checked, it has the name of its set, no type and no `forceadd`. -/
theorem loadHeader_keeps {typename family revision : NlAttr} {nla : Nla} {b b₁ : Blob}
    (h : loadHeader typename family revision nla b = some b₁) :
    b₁.get .setname = b.get .setname ∧ b₁.test .type = false ∧ b₁.test .forceadd = false := by
  unfold loadHeader at h
  obtain ⟨x₁, hx₁, h⟩ := Option.bind_eq_some_iff.mp h
  obtain ⟨x₂, hx₂, h⟩ := Option.bind_eq_some_iff.mp h
  obtain ⟨x₃, hx₃, h⟩ := Option.bind_eq_some_iff.mp h
  have h₁ := attr2data_keeps createOpts_apart (by decide) (by decide) hx₁
  have h₂ := attr2data_keeps createOpts_apart (by decide) (by decide) hx₂
  have h₃ := attr2data_keeps createOpts_apart (by decide) (by decide) hx₃
  have h₄ := loadAttrs_keeps createOpts_apart (by decide) createAttrs_opt h
  have hkeeps := ((h₁.trans h₂).trans h₃).trans h₄
  refine ⟨hkeeps.name.trans (b.get_flagsUnset (by decide) DsetOpt.noConfusion), ?_, ?_⟩
  · exact hkeeps.typeBit.trans (by simp [dsetCreateFlags])
  · exact hkeeps.forceadd.trans (by simp [dsetCreateFlags])

/-- Headers of the same attributes have the same text, behind the separator. -/
theorem HeaderEntry.Printed.text_eq (hc : c.ArgsCleared) {h k : HeaderEntry} (hh : h.Printed c)
    (hk : k.Printed c) (hname : h.setname = k.setname) (htypename : h.typename = k.typename)
    (hfamily : h.family = k.family) (hrevision : h.revision = k.revision) (hnla : h.nla = k.nla) :
    ∃ text, h.text = separator c.mode h.later ++ text ∧ k.text = separator c.mode k.later ++ text := by
  obtain ⟨b₀, b₁, t, b₂, text, hget, hload, hcheck, htext, htexth⟩ := hh.text
  obtain ⟨b₀', b₁', t', b₂', text', hget', hload', hcheck', htext', htextk⟩ := hk.text
  rw [← htypename, ← hfamily, ← hrevision, ← hnla] at hload'
  rw [← hname] at hget'
  have hagree := loadHeader_agree hget hget' hload hload'
  have hbytes := hagree.get_typename (.inl (by decide)) (loadHeader_keeps hload).2.1
    (loadHeader_keeps hload').2.1
  have hrev := hagree.get (o := .revision) (.inr (.inr (.inl rfl))) rfl DsetOpt.noConfusion
  -- Both headers find the same type.
  unfold dsetTypeCheck at hcheck hcheck'
  rw [← hbytes, ← hrev] at hcheck'
  obtain ⟨x, hx, hcheck⟩ := Option.bind_eq_some_iff.mp hcheck
  obtain ⟨y, hy, hcheck⟩ := Option.bind_eq_some_iff.mp hcheck
  obtain ⟨u, hu, hcheck⟩ := Option.bind_eq_some_iff.mp hcheck
  simp only [hx, hy, hu, Option.bind_eq_bind, Option.bind_some, Option.pure_def, Option.some.injEq,
    Prod.mk.injEq] at hcheck hcheck'
  obtain ⟨rfl, rfl⟩ := hcheck
  obtain ⟨rfl, rfl⟩ := hcheck'
  have hu := List.mem_of_find?_eq_some hu
  have hnumber (i : ℕ) (p : AttrPolicy) (hi : i ∈ attrsOfHeader ∧ i ∈ attrTypes)
      (hp : createAttrs i = some p) : Agree.Loaded createAttrs h.nla attrTypes p.opt :=
    ⟨i, hi.2, hh.numbers i hi.1, p, hp, rfl⟩
  have hcongr := createText_congr (hagree.setType u) c.mode c.listHeader (.inr (.inl rfl))
    ⟨.inr (.inr (.inr (hnumber 25 _ (by decide) rfl))),
      .inr (.inr (.inr (hnumber 24 _ (by decide) rfl))),
      .inr (.inr (.inr (hnumber 23 _ (by decide) rfl)))⟩ fun k hk hprint =>
      .inl ((hc u hu).2 k hk hprint)
  obtain rfl : text = text' := Option.some.inj (htext.symm.trans (hcongr.trans htext'))
  exact ⟨text, htexth, htextk⟩

end Printed

/-! ### Exchanges -/

/-- What the kernel sends with a message: the numbers of a header, the domain of each element. -/
structure ListMsg.FromKernel (m : ListMsg) : Prop where
  header : ∀ attrs ∈ m.data, ∀ i ∈ attrsOfHeader, ∃ a ∈ attrs, a.type = i
  elems : ∀ elems ∈ m.adt, ∀ attrs ∈ elems, ∃ a ∈ attrs, a.type = attrDomain

/-- An exchange begins with the header of the first set. -/
structure Exchange (ms : List ListMsg) : Prop where
  starts : ∀ m ∈ ms.head?, m.data.isSome = true
  fromKernel : ∀ m ∈ ms, m.FromKernel

section Run

variable {c : Settings}

theorem nla_isSome {policy : ℕ → Option AttrPolicy} {attrs : List NlAttr} {nla : Nla} {i : ℕ}
    (h : mnlAttrParseNested policy attrs = some nla) (hi : ∃ a ∈ attrs, a.type = i) :
    (nla i).isSome = true := by
  unfold mnlAttrParseNested at h
  split at h
  · obtain rfl := Option.some.inj h
    -- What was taken is only replaced by another one.
    have hfold (attrs : List NlAttr) (tb : Nla)
        (hi : (tb i).isSome = true ∨ ∃ a ∈ attrs, a.type = i) :
        (attrs.foldl (fun (tb : Nla) a => Function.update tb a.type (some a)) tb i).isSome = true := by
      induction attrs generalizing tb with
      | nil => exact hi.resolve_right fun ⟨a, ha, _⟩ => List.not_mem_nil ha
      | cons a attrs ih =>
        rw [List.foldl_cons]
        refine ih (Function.update tb a.type (some a)) ?_
        by_cases hai : a.type = i
        · left
          rw [← hai, Function.update_self]
          rfl
        · rcases hi with hi | ⟨x, hx, hxi⟩
          · left
            rwa [Function.update_of_ne (Ne.symm hai)]
          · right
            refine ⟨x, (List.mem_cons.mp hx).resolve_left ?_, hxi⟩
            rintro rfl
            exact hai hxi
    exact hfold attrs _ (.inr hi)
  · cases h

/-- The set of the blob is one of the registered types. -/
def Settings.Typed (c : Settings) (setname : NlAttr) (b : Blob) : Prop :=
  ∃ t ∈ c.typelist, InSet setname t b

theorem listAdt_printed {setname : NlAttr} {b b₁ : Blob} {nla : Nla} {entry : Option ElemEntry}
    (hb : c.Typed setname b) (hdomain : (nla attrDomain).isSome = true)
    (h : listAdt c setname (b.flagsUnset dsetAdtFlags) nla = some (entry, b₁)) :
    (∀ e ∈ entry, e.Printed c) ∧ c.Typed setname b₁ := by
  obtain ⟨t, ht, hin⟩ := hb
  have htype := hin.cleared.type
  have htest : (b.flagsUnset dsetAdtFlags).test .type = true := by
    by_contra hnot
    rw [Blob.getType, if_neg hnot] at htype
    cases htype
  have hstored : (b.flagsUnset dsetAdtFlags).type = some t := by
    rwa [Blob.getType, if_pos htest] at htype
  unfold listAdt at h
  rw [if_pos htest, hstored] at h
  obtain ⟨x, hx, h⟩ := Option.bind_eq_some_iff.mp h
  obtain rfl := Option.some.inj hx
  obtain ⟨b₂, hload, h⟩ := Option.bind_eq_some_iff.mp h
  have hkeeps := loadAttrs_keeps adtOpts_apart (by decide) adtAttrs_opt hload
  have htyped : c.Typed setname b₂ := ⟨t, ht, hin.cleared.keeps hkeeps⟩
  split at h
  · obtain ⟨rfl, rfl⟩ : none = entry ∧ b₂ = b₁ := by simpa using h
    exact ⟨fun e he => absurd he (Option.not_mem_none e), htyped⟩
  · obtain ⟨text, htext, h⟩ := Option.bind_eq_some_iff.mp h
    obtain ⟨rfl, rfl⟩ : some ⟨setname, t, nla, text⟩ = entry ∧ b₂ = b₁ := by simpa using h
    refine ⟨fun e he => ?_, htyped⟩
    obtain rfl := Option.some.inj he
    exact ⟨ht, hdomain, b, b₂, hin, hload, htext⟩

/-- The elements of a message are printed one by one. -/
theorem listElems_printed {setname : NlAttr} {elems : List (List NlAttr)} {b : Blob}
    (hb : c.Typed setname b) (helems : ∀ attrs ∈ elems, ∃ a ∈ attrs, a.type = attrDomain) :
    (∀ e ∈ (listElems c setname elems b).1, e.Printed c) ∧
      ∀ b₁ ∈ (listElems c setname elems b).2, c.Typed setname b₁ := by
  induction elems generalizing b with
  | nil =>
    refine ⟨fun e he => absurd he List.not_mem_nil, fun b₁ hb₁ => ?_⟩
    obtain rfl := Option.some.inj hb₁
    exact hb
  | cons attrs elems ih =>
    unfold listElems
    cases hx : (mnlAttrParseNested adtAttrs attrs).bind
      (listAdt c setname (b.flagsUnset dsetAdtFlags)) with
    | none => exact ⟨fun e he => absurd he List.not_mem_nil, fun b₁ hb₁ => by cases hb₁⟩
    | some x =>
      obtain ⟨entry, b₁⟩ := x
      obtain ⟨nla, hnla, hadt⟩ := Option.bind_eq_some_iff.mp hx
      have hdomain := nla_isSome hnla (helems attrs List.mem_cons_self)
      obtain ⟨hentry, hb₁⟩ := listAdt_printed hb hdomain hadt
      obtain ⟨hrest, hlast⟩ := ih hb₁ fun attrs h => helems attrs (List.mem_cons_of_mem _ h)
      refine ⟨fun e he => ?_, hlast⟩
      rcases List.mem_append.mp he with he | he
      · exact hentry e (Option.mem_toList.mp he)
      · exact hrest e he

/-- A header is printed, and the type of its set is in the blob. -/
theorem listHeader_printed {setname : NlAttr} {m : ListMsg} {attrs : List NlAttr} {s s₁ : ListState}
    {entry : HeaderEntry} (hname : s.blob.get .setname = some (nameValue setname))
    (hattrs : ∀ i ∈ attrsOfHeader, ∃ a ∈ attrs, a.type = i)
    (h : listHeader c setname m attrs s = some (entry, s₁)) :
    entry.Printed c ∧ c.Typed setname s₁.blob := by
  unfold listHeader at h
  obtain ⟨typename, -, h⟩ := Option.bind_eq_some_iff.mp h
  obtain ⟨family, -, h⟩ := Option.bind_eq_some_iff.mp h
  obtain ⟨revision, -, h⟩ := Option.bind_eq_some_iff.mp h
  obtain ⟨nla, hnla, h⟩ := Option.bind_eq_some_iff.mp h
  obtain ⟨b₁, hload, h⟩ := Option.bind_eq_some_iff.mp h
  obtain ⟨⟨t, b₂⟩, hcheck, h⟩ := Option.bind_eq_some_iff.mp h
  obtain ⟨text, htext, h⟩ := Option.bind_eq_some_iff.mp h
  obtain ⟨saved, -, h⟩ := Option.bind_eq_some_iff.mp h
  cases h
  refine ⟨⟨fun i hi => nla_isSome hnla (hattrs i hi), s.blob, b₁, t, b₂, text, hname, hload, hcheck,
    htext, rfl⟩, ?_⟩
  unfold dsetTypeCheck at hcheck
  obtain ⟨x, -, hcheck⟩ := Option.bind_eq_some_iff.mp hcheck
  obtain ⟨y, -, hcheck⟩ := Option.bind_eq_some_iff.mp hcheck
  obtain ⟨u, hu, hcheck⟩ := Option.bind_eq_some_iff.mp hcheck
  obtain ⟨rfl, rfl⟩ : u = t ∧ b₁.setType u = b₂ := by simpa using hcheck
  obtain ⟨hget, -, hforceadd⟩ := loadHeader_keeps hload
  refine ⟨u, List.mem_of_find?_eq_some hu, ?_, ?_, ?_⟩
  · rw [b₁.get_setType u DsetOpt.noConfusion DsetOpt.noConfusion, hget, hname]
  · simp [Blob.getType, Blob.setType, Blob.test, Blob.flagsSet]
  · simpa [Blob.setType, Blob.test, Blob.flagsSet] using hforceadd

/-- All entries were printed from their own attributes. -/
def Entries.Printed (c : Settings) (x : Entries) : Prop :=
  (∀ h ∈ x.headers, h.Printed c) ∧ ∀ e ∈ x.elems, e.Printed c

theorem Entries.printed_nil : Entries.Printed c ⟨[], []⟩ :=
  ⟨fun _ hh => absurd hh List.not_mem_nil, fun _ he => absurd he List.not_mem_nil⟩

theorem Entries.Printed.append {x y : Entries} (hx : x.Printed c) (hy : y.Printed c) :
    Entries.Printed c (x ++ y) :=
  ⟨fun h hh => (List.mem_append.mp hh).elim (hx.1 h) (hy.1 h),
    fun e he => (List.mem_append.mp he).elim (hx.2 e) (hy.2 e)⟩

/-- The blob holds the type of a set, or only names are listed. -/
def Settings.Ready (c : Settings) (b : Blob) : Prop :=
  (∃ t ∈ c.typelist, b.getType = some t ∧ b.test .forceadd = false) ∨ (c.listSetname = true ∧ c.mode ≠ .save)

/-- The elements of a message are printed behind its header. -/
theorem elems_printed {s : ListState} {m : ListMsg} (hm : m.FromKernel) {setname : NlAttr}
    (hs : c.Typed setname s.blob) {headers : List HeaderEntry}
    (hheaders : ∀ h ∈ headers, h.Printed c) :
    Entries.Printed c ⟨headers, (listElems c setname (m.adt.getD []) s.blob).1⟩ ∧
      ∀ s₁ ∈ (listElems c setname (m.adt.getD []) s.blob).2.map fun b => { s with blob := b },
        c.Ready s₁.blob := by
  have hdomains : ∀ attrs ∈ m.adt.getD [], ∃ a ∈ attrs, a.type = attrDomain := by
    cases hadt : m.adt with
    | none => exact fun attrs h => absurd h List.not_mem_nil
    | some elems => exact hm.elems elems hadt
  obtain ⟨helems, hlast⟩ := listElems_printed hs hdomains
  refine ⟨⟨hheaders, helems⟩, fun s₁ hs₁ => ?_⟩
  obtain ⟨b, hb, rfl⟩ := Option.map_eq_some_iff.mp hs₁
  obtain ⟨t, ht, hin⟩ := hlast b hb
  exact .inl ⟨t, ht, hin.type, hin.forceadd⟩

/-- A message that brings its header, or whose set has been seen, has its entries printed. -/
theorem callbackList_printed {s : ListState} {m : ListMsg} (hm : m.FromKernel)
    (hs : m.data.isSome = true ∨ c.Ready s.blob) :
    (callbackList c s m).1.Printed c ∧ ∀ s₁ ∈ (callbackList c s m).2, c.Ready s₁.blob := by
  have hnil : Entries.Printed c ⟨[], []⟩ ∧
      ∀ s₁ ∈ (none : Option ListState), c.Ready s₁.blob :=
    ⟨Entries.printed_nil, fun s₁ h => absurd h (Option.not_mem_none s₁)⟩
  unfold callbackList
  cases hset : m.setname.bind fun setname =>
    (attr2data s.blob setnamePolicy setname).map (setname, ·) with
  | none => exact hnil
  | some x =>
    obtain ⟨setname, b⟩ := x
    obtain ⟨a, -, hx⟩ := Option.bind_eq_some_iff.mp hset
    obtain ⟨b', hb, hab⟩ := Option.map_eq_some_iff.mp hx
    obtain ⟨rfl, rfl⟩ := Prod.mk.inj hab
    obtain ⟨hname, htype, hforceadd⟩ : b'.get .setname = some (nameValue a) ∧
        b'.getType = s.blob.getType ∧ b'.test .forceadd = s.blob.test .forceadd := by
      unfold attr2data at hb
      split at hb
      · cases hb
      · exact ⟨s.blob.get_set_assigned rfl DsetOpt.noConfusion rfl hb, Blob.getType_set rfl hb,
          Blob.test_set_of_not rfl hb (.inr rfl)⟩
    dsimp only
    split
    next hlist =>
      refine ⟨Entries.printed_nil, fun s₁ hs₁ => ?_⟩
      obtain rfl := Option.some.inj hs₁
      exact .inr hlist
    next hlist =>
      split
      · exact hnil
      · split
        · exact hnil
        · cases hdata : m.data with
          | none =>
            -- No header: the type is the one of the header before.
            have hready := hs.resolve_left (by simp [hdata])
            obtain ⟨t, ht, hst, hunset⟩ := hready.resolve_right hlist
            have htyped : c.Typed a b' := ⟨t, ht, hname, htype.trans hst, hforceadd.trans hunset⟩
            exact elems_printed (s := { s with blob := b' }) hm htyped fun h hh =>
              absurd hh List.not_mem_nil
          | some attrs =>
            dsimp only
            cases hheader : listHeader c a m attrs { s with blob := b' } with
            | none => exact hnil
            | some x =>
              obtain ⟨entry, s₁⟩ := x
              obtain ⟨hprinted, htyped⟩ :=
                listHeader_printed (s := { s with blob := b' }) hname (hm.header attrs hdata) hheader
              refine elems_printed hm htyped fun h hh => ?_
              obtain rfl := List.mem_singleton.mp hh
              exact hprinted

/-- All entries of an exchange are printed from their own attributes. -/
theorem listEntries_printed {s : ListState} {ms : List ListMsg} (hms : ∀ m ∈ ms, m.FromKernel)
    (hs : (∀ m ∈ ms.head?, m.data.isSome = true) ∨ c.Ready s.blob) :
    (listEntries c s ms).Printed c := by
  induction ms generalizing s with
  | nil => exact Entries.printed_nil
  | cons m ms ih =>
    have hm := callbackList_printed (hms m List.mem_cons_self) (hs.imp_left fun h => h m rfl)
    unfold listEntries
    cases hx : callbackList c s m with
    | mk entries s₁ =>
      rw [hx] at hm
      cases s₁ with
      | none => exact hm.1
      | some s₁ =>
        exact hm.1.append (ih (fun m h => hms m (List.mem_cons_of_mem _ h)) (.inr (hm.2 s₁ rfl)))

end Run

/-! ### Two exchanges -/

/-- Elements of the same attributes and of sets of the same name and type are printed alike, as are
headers of the same attributes behind the separator. -/
def Entries.Alike (c : Settings) (x y : Entries) : Prop :=
  (∀ e ∈ x.elems, ∀ f ∈ y.elems,
    e.setname = f.setname → e.type = f.type → e.nla = f.nla → e.text = f.text) ∧
  ∀ h ∈ x.headers, ∀ k ∈ y.headers,
    h.setname = k.setname → h.typename = k.typename → h.family = k.family →
    h.revision = k.revision → h.nla = k.nla →
    ∃ text, h.text = separator c.mode h.later ++ text ∧ k.text = separator c.mode k.later ++ text

/-- What is printed for an entry depends on its own attributes, in any two exchanges with one list of
types, when `DSET_ADT_FLAGS` and `DSET_CREATE_FLAGS` clear the options of the types' arguments. -/
theorem entries_independent (c : Settings) (hc : c.ArgsCleared) (s s' : ListState)
    (x y : List ListMsg) (hx : Exchange x) (hy : Exchange y) :
    (listEntries c s x).Alike c (listEntries c s' y) := by
  have hprinted : (listEntries c s x).Printed c := listEntries_printed hx.fromKernel (.inl hx.starts)
  have hprinted' : (listEntries c s' y).Printed c :=
    listEntries_printed hy.fromKernel (.inl hy.starts)
  refine ⟨fun e he f hf hname htype hnla => ?_, fun h hh k hk hname htypename hfamily hrev hnla => ?_⟩
  · exact (hprinted.2 e he).text_eq hc (hprinted'.2 f hf) hname htype hnla
  · exact (hprinted.1 h hh).text_eq hc (hprinted'.1 k hk) hname htypename hfamily hrev hnla

/-! ### Arguments that are not cleared -/

def dsetHashDomain0 (addArgs : List Keyword) : TypeDesc where
  name := bytes "hash:domain"
  aliases := [bytes "dhash"]
  revision := 0
  mismatch := false
  createArgs := [.hashsize, .maxelem, .timeout, .probes, .resize, .gc]
  addArgs := addArgs

def hashDomainSettings (mode : OutputMode) (addArgs : List Keyword) : Settings :=
  ⟨mode, false, false, [dsetHashDomain0 addArgs], fun _ => none⟩

def startState : ListState := ⟨.reset, [], 0⟩

def stringAttr (type : ℕ) (s : String) : NlAttr := ⟨type, false, bytes s ++ [0]⟩

def numberAttr (type n : ℕ) : NlAttr := ⟨type, true, (leBytes 4 n).reverse⟩

/-- A message of a set with its header and the domains of some elements. -/
def sampleMsg (name : String) (hashsize : ℕ) (domains : List String) : ListMsg where
  setname := some (stringAttr 2 name)
  typename := some (stringAttr 3 "hash:domain")
  family := some ⟨5, false, [0]⟩
  revision := some ⟨4, false, [0]⟩
  data := some [numberAttr 18 hashsize, numberAttr 19 65536, numberAttr 24 0, numberAttr 25 200,
    numberAttr 23 1]
  adt := some (domains.map fun s => [stringAttr attrDomain s])

theorem sampleMsg_fromKernel (name : String) (hashsize : ℕ) (domains : List String) :
    (sampleMsg name hashsize domains).FromKernel where
  header := by
    rintro attrs hattrs i hi
    obtain rfl := Option.some.inj hattrs
    simp only [attrsOfHeader, List.mem_cons, List.not_mem_nil, or_false] at hi
    rcases hi with rfl | rfl | rfl | rfl | rfl <;> simp [numberAttr]
  elems := by
    rintro elems helems attrs hattrs
    obtain rfl := Option.some.inj helems
    obtain ⟨s, -, rfl⟩ := List.mem_map.mp hattrs
    exact ⟨_, List.mem_singleton_self _, rfl⟩

theorem exchange_sample (name : String) (hashsize : ℕ) (domains : List String) (ms : List ListMsg)
    (hms : ∀ m ∈ ms, m.FromKernel) : Exchange (sampleMsg name hashsize domains :: ms) where
  starts := by
    rintro m hm
    obtain rfl := Option.some.inj hm
    rfl
  fromKernel := by
    rintro m hm
    rcases List.mem_cons.mp hm with rfl | hm
    · exact sampleMsg_fromKernel name hashsize domains
    · exact hms m hm

theorem entries_independent_hashDomain :
    (hashDomainSettings .save [.timeout]).ArgsCleared ∧
      Exchange [sampleMsg "foo" 1024 ["a.org"]] ∧ Exchange [sampleMsg "foo" 2048 ["b.org", "a.org"]] ∧
      (listEntries (hashDomainSettings .save [.timeout]) startState
        [sampleMsg "foo" 1024 ["a.org"]]).Alike (hashDomainSettings .save [.timeout])
        (listEntries (hashDomainSettings .save [.timeout]) startState
          [sampleMsg "foo" 2048 ["b.org", "a.org"]]) := by
  have hc : (hashDomainSettings .save [.timeout]).ArgsCleared := by
    rintro t ht
    obtain rfl := List.mem_singleton.mp ht
    exact ⟨by decide, by decide⟩
  have hx := exchange_sample "foo" 1024 ["a.org"] [] fun m hm => absurd hm List.not_mem_nil
  have hy := exchange_sample "foo" 2048 ["b.org", "a.org"] [] fun m hm => absurd hm List.not_mem_nil
  exact ⟨hc, hx, hy, entries_independent _ hc _ _ _ _ hx hy⟩

/-- With the argument `hashsize` of `add`, an element is printed with the hash size of its set, and a
plain header is printed behind an empty line when another one was printed before. -/
theorem entries_dependent :
    (¬ ∀ (c : Settings) (s s' : ListState) (x y : List ListMsg), Exchange x → Exchange y →
      ∀ e ∈ (listEntries c s x).elems, ∀ f ∈ (listEntries c s' y).elems,
        e.setname = f.setname → e.type = f.type → e.nla = f.nla → e.text = f.text) ∧
    ¬ ∀ (c : Settings) (s s' : ListState) (x y : List ListMsg), Exchange x → Exchange y →
      ∀ h ∈ (listEntries c s x).headers, ∀ k ∈ (listEntries c s' y).headers,
        h.setname = k.setname → h.typename = k.typename → h.family = k.family →
        h.revision = k.revision → h.nla = k.nla → h.text = k.text := by
  have hnone : ∀ m ∈ ([] : List ListMsg), m.FromKernel := fun m hm => absurd hm List.not_mem_nil
  have hfoo (hashsize : ℕ) := exchange_sample "foo" hashsize ["a.org"] [] hnone
  constructor
  · intro h
    obtain ⟨nla, hx, hy⟩ : ∃ nla,
        (listEntries (hashDomainSettings .save [.hashsize]) startState
          [sampleMsg "foo" 1024 ["a.org"]]).elems = [⟨stringAttr 2 "foo", dsetHashDomain0 [.hashsize],
            nla, bytes "add foo a.org hashsize 1024\n"⟩] ∧
        (listEntries (hashDomainSettings .save [.hashsize]) startState
          [sampleMsg "foo" 2048 ["a.org"]]).elems = [⟨stringAttr 2 "foo", dsetHashDomain0 [.hashsize],
            nla, bytes "add foo a.org hashsize 2048\n"⟩] := ⟨_, rfl, rfl⟩
    have htext := h (hashDomainSettings .save [.hashsize]) startState startState
      [sampleMsg "foo" 1024 ["a.org"]] [sampleMsg "foo" 2048 ["a.org"]] (hfoo 1024) (hfoo 2048)
    rw [hx, hy] at htext
    have hsame : bytes "add foo a.org hashsize 1024\n" = bytes "add foo a.org hashsize 2048\n" :=
      htext _ (List.mem_singleton_self _) _ (List.mem_singleton_self _) rfl rfl rfl
    exact absurd hsame (by decide)
  · intro h
    have hbar := exchange_sample "bar" 1024 [] [sampleMsg "foo" 1024 ["a.org"]] fun m hm =>
      List.mem_singleton.mp hm ▸ sampleMsg_fromKernel _ _ _
    obtain ⟨first, nla, text, text', hx, hy, hhead, hhead'⟩ : ∃ first nla text text',
        (listEntries (hashDomainSettings .plain [.timeout]) startState
          [sampleMsg "foo" 1024 ["a.org"]]).headers = [⟨stringAttr 2 "foo",
            stringAttr 3 "hash:domain", ⟨5, false, [0]⟩, ⟨4, false, [0]⟩, nla, false, text⟩] ∧
        (listEntries (hashDomainSettings .plain [.timeout]) startState
          [sampleMsg "bar" 1024 [], sampleMsg "foo" 1024 ["a.org"]]).headers
          = [first, ⟨stringAttr 2 "foo", stringAttr 3 "hash:domain", ⟨5, false, [0]⟩,
            ⟨4, false, [0]⟩, nla, true, text'⟩] ∧
        text.head? = some 78 ∧ text'.head? = some 10 := ⟨_, _, _, _, rfl, rfl, rfl, rfl⟩
    have htext := h (hashDomainSettings .plain [.timeout]) startState startState
      [sampleMsg "foo" 1024 ["a.org"]] [sampleMsg "bar" 1024 [], sampleMsg "foo" 1024 ["a.org"]]
      (hfoo 1024) hbar
    rw [hx, hy] at htext
    have hsame : text = text' := htext _ (List.mem_singleton_self _) _ (List.mem_of_mem_getLast? rfl)
      rfl rfl rfl rfl rfl
    rw [hsame, hhead'] at hhead
    exact absurd hhead (by decide)

end Dset.User.Options
