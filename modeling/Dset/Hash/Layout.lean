import Dset.Hash.Create
import Dset.Lib.Layout
import Mathlib.Data.Nat.Bitwise

/-! The layout of an element (`domain_set_elem_len`): its key and behind it the extensions that
a request selects. Each extension is put at its own alignment, but the size of an element is
rounded up to the alignment of the key alone. The fields never overlap; in the elements behind
the first of a bucket array they are aligned only when that size is a multiple of their
alignments all the same. -/

namespace Dset.Hash.Layout

open Dset.Lib

/-- `struct domain_set_ext_type`, as far as the layout takes it. -/
structure ExtType where
  type : ℕ
  flag : ℕ
  len : ℕ
  align : ℕ
  deriving DecidableEq

/-- `add_extension`; an extension without a flag is selected by `DSET_ATTR_TIMEOUT`. -/
def addExtension (ext : ExtType) (flags : ℕ) (timeout : Bool) : Bool :=
  if ext.flag ≠ 0 then flags &&& ext.flag ≠ 0 else timeout

/-- `ALIGN`: the bits of the mask `a - 1` are cleared. -/
def alignMask (x a : ℕ) : ℕ := x + (a - 1) - ((x + (a - 1)) &&& (a - 1))

/-- What `domain_set_elem_len` leaves in the set: an offset for each extension that is selected,
`set->extensions` and the length. -/
structure ElemLen where
  offset : List (Option ℕ)
  extensions : ℕ
  len : ℕ
  deriving DecidableEq

def elemLenLoop (flags : ℕ) (timeout : Bool) : List ExtType → ℕ → ElemLen
  | [], len => ⟨[], 0, len⟩
  | ext :: exts, len =>
    if !addExtension ext flags timeout then
      let r := elemLenLoop flags timeout exts len
      { r with offset := none :: r.offset }
    else
      let offset := alignMask len ext.align
      let r := elemLenLoop flags timeout exts (offset + ext.len)
      ⟨some offset :: r.offset, ext.type ||| r.extensions, r.len⟩

/-- The alignment of the key, or 1 in place of none. -/
def keyAlign (align : ℕ) : ℕ := if align = 0 then 1 else align

/-- `domain_set_elem_len`, of the extensions in the table, the `DSET_ATTR_CADT_FLAGS` and
`DSET_ATTR_TIMEOUT` of the request, and the length and alignment of the key. -/
def domainSetElemLen (exts : List ExtType) (cadtFlags : Option ℕ) (timeout : Bool)
    (len align : ℕ) : ElemLen :=
  let r := elemLenLoop (cadtFlags.getD 0) timeout exts len
  { r with len := alignMask r.len (keyAlign align) }

def domainSetExtensions (A : Arch) : List ExtType :=
  let word := A.longBits / 8
  [⟨2 ^ 1, 2 ^ 3, 16, 8⟩, ⟨2 ^ 0, 0, word, word⟩, ⟨2 ^ 3, 2 ^ 6, 16, 4⟩,
    ⟨2 ^ 2 ||| 2 ^ 7, 2 ^ 4, word, word⟩]

/-! ### The fields of an element -/

def ExtType.field (ext : ExtType) : Field := ⟨ext.len, ext.align⟩

def selected (exts : List ExtType) (cadtFlags : Option ℕ) (timeout : Bool) : List ExtType :=
  exts.filter (addExtension · (cadtFlags.getD 0) timeout)

/-- The offsets and extensions, where there is an offset. -/
def offsets (exts : List ExtType) (offset : List (Option ℕ)) : List (ℕ × ExtType) :=
  (exts.zip offset).filterMap fun p => p.2.map (·, p.1)

/-- The alignments in a table are powers of two. -/
def PowersOfTwo (exts : List ExtType) : Prop := ∀ ext ∈ exts, ∃ k, ext.align = 2 ^ k

theorem alignMask_eq (x : ℕ) {a : ℕ} (ha : ∃ k, a = 2 ^ k) : alignMask x a = alignUp x a := by
  obtain ⟨k, rfl⟩ := ha
  exact (alignUp_two_pow x k).symm

/-- The loop places the selected extensions one behind the other. -/
theorem elemLenLoop_placed {exts : List ExtType} (hpow : PowersOfTwo exts) (flags : ℕ)
    (timeout : Bool) (len : ℕ) :
    (offsets exts (elemLenLoop flags timeout exts len).offset).map (fun p => (p.1, p.2.field)) =
        placed len ((exts.filter (addExtension · flags timeout)).map ExtType.field) ∧
      (elemLenLoop flags timeout exts len).len =
        fieldsEnd len ((exts.filter (addExtension · flags timeout)).map ExtType.field) := by
  induction exts generalizing len with
  | nil => exact ⟨rfl, rfl⟩
  | cons ext exts ih =>
    have hrest : PowersOfTwo exts := fun e he => hpow e (List.mem_cons_of_mem ext he)
    by_cases hadd : addExtension ext flags timeout = true
    · have halign := alignMask_eq len (hpow ext List.mem_cons_self)
      obtain ⟨hplaced, hend⟩ := ih hrest (alignMask len ext.align + ext.len)
      rw [List.filter_cons, if_pos hadd, List.map_cons, placed, fieldsEnd]
      simp only [elemLenLoop, hadd, Bool.not_true, Bool.false_eq_true, if_false]
      rw [show (ext.field).align = ext.align from rfl, show (ext.field).size = ext.len from rfl,
        ← halign]
      exact ⟨congrArg (List.cons _) hplaced, hend⟩
    · obtain ⟨hplaced, hend⟩ := ih hrest len
      rw [List.filter_cons, if_neg hadd]
      simp only [elemLenLoop, hadd, Bool.not_false, if_true]
      exact ⟨hplaced, hend⟩

theorem offsets_snd (flags : ℕ) (timeout : Bool) (exts : List ExtType) (len : ℕ) :
    (offsets exts (elemLenLoop flags timeout exts len).offset).map (·.2) =
      exts.filter (addExtension · flags timeout) := by
  induction exts generalizing len with
  | nil => rfl
  | cons ext exts ih =>
    by_cases hadd : addExtension ext flags timeout = true
    · rw [List.filter_cons, if_pos hadd]
      simp only [elemLenLoop, hadd, Bool.not_true, Bool.false_eq_true, if_false]
      exact congrArg (List.cons ext) (ih _)
    · rw [List.filter_cons, if_neg hadd]
      simp only [elemLenLoop, hadd, Bool.not_false, if_true]
      exact ih len

/-! ### What a layout owes -/

/-- The key and the extensions have bytes of their own inside the element. -/
structure Separate (len : ℕ) (fields : List (ℕ × ExtType)) (dsize : ℕ) : Prop where
  key_inside : len ≤ dsize
  inside : ∀ p ∈ fields, p.1 + p.2.len ≤ dsize
  behind_key : ∀ p ∈ fields, len ≤ p.1
  pairwise : fields.Pairwise fun p q => p.1 + p.2.len ≤ q.1

/-- Every extension of every element is at its alignment, in an array of elements that starts at
a multiple of 8. -/
def Aligned (fields : List (ℕ × ExtType)) (dsize : ℕ) : Prop :=
  ∀ block, 8 ∣ block → ∀ i, ∀ p ∈ fields, p.2.align ∣ block + i * dsize + p.1

/-- The layout of a request: each selected extension has one offset, and the fields are separate
and aligned. -/
def LayoutRight (exts : List ExtType) (cadtFlags : Option ℕ) (timeout : Bool) (len align : ℕ) :
    Prop :=
  let r := domainSetElemLen exts cadtFlags timeout len align
  (offsets exts r.offset).map (·.2) = selected exts cadtFlags timeout ∧
    Separate len (offsets exts r.offset) r.len ∧ Aligned (offsets exts r.offset) r.len

theorem keyAlign_pow {align : ℕ} (h : align = 0 ∨ ∃ k, align = 2 ^ k) :
    ∃ k, keyAlign align = 2 ^ k := by
  rcases h with rfl | ⟨k, rfl⟩
  · exact ⟨0, rfl⟩
  · exact ⟨k, if_neg (Nat.two_pow_pos k).ne'⟩

section

variable {exts : List ExtType} {cadtFlags : Option ℕ} {timeout : Bool} {len align : ℕ}

/-- The bytes up to the end of the last field, each selected extension being put at its own
alignment behind the key. -/
def fieldsLen (exts : List ExtType) (cadtFlags : Option ℕ) (timeout : Bool) (len : ℕ) : ℕ :=
  fieldsEnd len ((selected exts cadtFlags timeout).map ExtType.field)

theorem domainSetElemLen_len (hpow : PowersOfTwo exts) (halign : align = 0 ∨ ∃ k, align = 2 ^ k) :
    (domainSetElemLen exts cadtFlags timeout len align).len =
      alignUp (fieldsLen exts cadtFlags timeout len) (keyAlign align) := by
  obtain ⟨k, hk⟩ := keyAlign_pow halign
  have hloop := (elemLenLoop_placed hpow (cadtFlags.getD 0) timeout len).2
  simp only [domainSetElemLen]
  rw [hloop, alignMask_eq _ ⟨k, hk⟩]
  rfl

theorem offsets_inside (hpow : PowersOfTwo exts) {p : ℕ × ExtType}
    (hp : p ∈ offsets exts (domainSetElemLen exts cadtFlags timeout len align).offset) :
    len ≤ p.1 ∧ p.1 + p.2.len ≤ fieldsLen exts cadtFlags timeout len ∧ p.2.align ∣ p.1 ∧
      p.2 ∈ selected exts cadtFlags timeout := by
  have hplaced := (elemLenLoop_placed hpow (cadtFlags.getD 0) timeout len).1
  have hmem : (p.1, p.2.field) ∈ placed len ((selected exts cadtFlags timeout).map ExtType.field) :=
    hplaced ▸ List.mem_map_of_mem hp
  have hpos : ∀ f ∈ (selected exts cadtFlags timeout).map ExtType.field, 0 < f.align := by
    intro f hf
    obtain ⟨ext, hext, rfl⟩ := List.mem_map.mp hf
    obtain ⟨k, hk⟩ := hpow ext (List.mem_of_mem_filter hext)
    exact lt_of_lt_of_eq (Nat.two_pow_pos k) hk.symm
  obtain ⟨h1, h2, h3, -⟩ := placed_inside hpos hmem
  refine ⟨h1, h2, h3, ?_⟩
  have hsnd : p.2 ∈ (offsets exts (elemLenLoop (cadtFlags.getD 0) timeout exts len).offset).map
      (·.2) := List.mem_map_of_mem hp
  rwa [offsets_snd] at hsnd

/-- The fields never overlap. -/
theorem separate (hpow : PowersOfTwo exts) (halign : align = 0 ∨ ∃ k, align = 2 ^ k) :
    Separate len (offsets exts (domainSetElemLen exts cadtFlags timeout len align).offset)
      (domainSetElemLen exts cadtFlags timeout len align).len := by
  have hpos : ∀ f ∈ (selected exts cadtFlags timeout).map ExtType.field, 0 < f.align := by
    intro f hf
    obtain ⟨ext, hext, rfl⟩ := List.mem_map.mp hf
    obtain ⟨k, hk⟩ := hpow ext (List.mem_of_mem_filter hext)
    exact lt_of_lt_of_eq (Nat.two_pow_pos k) hk.symm
  obtain ⟨k, hk⟩ := keyAlign_pow halign
  have hend : fieldsLen exts cadtFlags timeout len ≤
      (domainSetElemLen exts cadtFlags timeout len align).len := by
    rw [domainSetElemLen_len hpow halign, hk]
    exact le_alignUp (Nat.two_pow_pos k)
  refine ⟨(le_fieldsEnd hpos len).trans hend, fun p hp => ?_, fun p hp => ?_, ?_⟩
  · exact (offsets_inside hpow hp).2.1.trans hend
  · exact (offsets_inside hpow hp).1
  · have hpairs := placed_pairwise hpos len
    rw [selected, ← (elemLenLoop_placed hpow (cadtFlags.getD 0) timeout len).1,
      List.pairwise_map] at hpairs
    exact hpairs

/-- The extensions are aligned if and only if every selected one has an alignment that divides 8
and is either no larger than that of the key or reached, behind the last field, with fewer bytes
than the alignment of the key. -/
theorem aligned_iff (hpow : PowersOfTwo exts) (halign : align = 0 ∨ ∃ k, align = 2 ^ k) :
    Aligned (offsets exts (domainSetElemLen exts cadtFlags timeout len align).offset)
        (domainSetElemLen exts cadtFlags timeout len align).len ↔
      ∀ ext ∈ selected exts cadtFlags timeout, ext.align ∣ 8 ∧
        (ext.align ≤ keyAlign align ∨ alignUp (fieldsLen exts cadtFlags timeout len) ext.align <
          fieldsLen exts cadtFlags timeout len + keyAlign align) := by
  obtain ⟨k, hk⟩ := keyAlign_pow halign
  have hlen : (domainSetElemLen exts cadtFlags timeout len align).len =
      alignUp (fieldsLen exts cadtFlags timeout len) (keyAlign align) :=
    domainSetElemLen_len hpow halign
  have hext (p : ℕ × ExtType)
      (hp : p ∈ offsets exts (domainSetElemLen exts cadtFlags timeout len align).offset) :
      (∀ block, 8 ∣ block → ∀ i, p.2.align ∣
        block + i * (domainSetElemLen exts cadtFlags timeout len align).len + p.1) ↔
      p.2.align ∣ 8 ∧ (p.2.align ≤ keyAlign align ∨
        alignUp (fieldsLen exts cadtFlags timeout len) p.2.align <
          fieldsLen exts cadtFlags timeout len + keyAlign align) := by
    obtain ⟨-, -, hdvd, hmem⟩ := offsets_inside hpow hp
    obtain ⟨i, hi⟩ := hpow p.2 (List.mem_of_mem_filter hmem)
    rw [aligned_in_arrays_iff hdvd, hlen, hk, hi, two_pow_dvd_alignUp_iff]
  constructor
  · intro haligned ext hmem
    have hsnd : ext ∈ (offsets exts (domainSetElemLen exts cadtFlags timeout len align).offset).map
        (·.2) := (offsets_snd (cadtFlags.getD 0) timeout exts len).symm ▸ hmem
    obtain ⟨p, hp, rfl⟩ := List.mem_map.mp hsnd
    exact (hext p hp).mp fun block hblock i => haligned block hblock i p hp
  · intro h block hblock i p hp
    exact (hext p hp).mpr (h p.2 (offsets_inside hpow hp).2.2.2) block hblock i

end

/-! ### The extensions of the source -/

theorem domainSetExtensions_pow (A : Arch) : PowersOfTwo (domainSetExtensions A) := by
  intro ext hext
  have hword : ∃ k, A.longBits / 8 = 2 ^ k := by
    rcases A.longBits_eq with h | h
    · exact ⟨2, by omega⟩
    · exact ⟨3, by omega⟩
  unfold domainSetExtensions at hext
  simp only [List.mem_cons, List.not_mem_nil, or_false] at hext
  rcases hext with rfl | rfl | rfl | rfl
  · exact ⟨3, rfl⟩
  · exact hword
  · exact ⟨2, rfl⟩
  · exact hword

theorem addExtension_flag (type i len align flags : ℕ) (timeout : Bool) :
    addExtension ⟨type, 2 ^ i, len, align⟩ flags timeout = flags.testBit i := by
  rw [addExtension, if_pos (Nat.two_pow_pos i).ne', Nat.and_two_pow]
  cases flags.testBit i <;> simp

theorem addExtension_timeout (type len align flags : ℕ) (timeout : Bool) :
    addExtension ⟨type, 0, len, align⟩ flags timeout = timeout := rfl

/-- The source's extensions on a machine of either width: with 64 bits they are always aligned.
With 32 bits they are not, for a key that is aligned to less than 8 bytes, when counters are
selected with just one of timeout and comment. -/
theorem domainSetExtensions_aligned_iff (A : Arch) (cadtFlags : Option ℕ) (timeout : Bool)
    (len : ℕ) {align : ℕ} (halign : align = 0 ∨ ∃ k, align = 2 ^ k) :
    Aligned (offsets (domainSetExtensions A)
        (domainSetElemLen (domainSetExtensions A) cadtFlags timeout len align).offset)
        (domainSetElemLen (domainSetExtensions A) cadtFlags timeout len align).len ↔
      A.longBits = 64 ∨ (cadtFlags.getD 0).testBit 3 = false ∨
        timeout = (cadtFlags.getD 0).testBit 4 ∨ 8 ≤ align := by
  rw [aligned_iff (domainSetExtensions_pow A) halign]
  have hkey : align < 8 ∧ (keyAlign align = 1 ∨ keyAlign align = 2 ∨ keyAlign align = 4) ∨
      8 ≤ keyAlign align ∧ 8 ≤ align := by
    rcases halign with rfl | ⟨k, rfl⟩
    · exact .inl ⟨by decide, .inl rfl⟩
    · rw [keyAlign, if_neg (Nat.two_pow_pos k).ne']
      match k with
      | 0 | 1 | 2 => simp
      | k + 3 =>
        have := Nat.pow_le_pow_right (n := 2) (by omega) (Nat.le_add_left 3 k)
        exact .inr ⟨this, this⟩
  unfold fieldsLen selected domainSetExtensions
  simp only [List.filter_cons, List.filter_nil, addExtension_flag,
    addExtension_timeout]
  generalize keyAlign align = a at hkey ⊢
  generalize (cadtFlags.getD 0).testBit 3 = counter
  generalize (cadtFlags.getD 0).testBit 6 = skbinfo
  generalize (cadtFlags.getD 0).testBit 4 = comment
  rcases A.longBits_eq with hA | hA <;> rw [hA] <;> cases counter <;> cases timeout <;>
    cases skbinfo <;> cases comment <;>
    simp [fieldsEnd, ExtType.field, alignUp] <;> omega

theorem getD_testBit (tb : CreateAttrs) (i : ℕ) :
    ((tb.cadtFlags.map Nlattr.value).getD 0).testBit i = tb.flag i := by
  unfold CreateAttrs.flag
  cases tb.cadtFlags with
  | none => exact Nat.zero_testBit i
  | some a => rfl

/-- The element size of a set is the length of the layout for its key, an array of characters. -/
theorem domainSetElemLen_create (A : Arch) (tb : CreateAttrs) (len : ℕ) :
    (domainSetElemLen (domainSetExtensions A) (tb.cadtFlags.map Nlattr.value) tb.timeout.isSome len
      1).len = Hash.domainSetElemLen A (addExtensions tb) len := by
  have hone : 1 = 0 ∨ ∃ k, 1 = 2 ^ k := .inr ⟨0, rfl⟩
  rw [domainSetElemLen_len (domainSetExtensions_pow A) hone]
  unfold fieldsLen selected domainSetExtensions Hash.domainSetElemLen addExtensions
  simp only [List.filter_cons, List.filter_nil, addExtension_flag, addExtension_timeout,
    getD_testBit tb]
  cases tb.flag 3 <;> cases tb.timeout.isSome <;> cases tb.flag 6 <;> cases tb.flag 4 <;>
    simp [fieldsEnd, ExtType.field, alignUp, align, keyAlign]

/-- In a bucket array of a set that was created the extensions stand at their alignment, but with
32 bits not when it has counters and just one of timeout and comment. -/
theorem hashDomainCreate_aligned_iff {familyUnspec : Bool} {tb : CreateAttrs}
    {allocHtype allocTable : Bool} {initval : BitVec 32} {set : DomainSet A}
    (h : hashDomainCreate A familyUnspec tb allocHtype allocTable initval = .ok set) :
    Aligned (offsets (domainSetExtensions A) (domainSetElemLen (domainSetExtensions A)
        (tb.cadtFlags.map Nlattr.value) tb.timeout.isSome dsetMaxDomainLen 1).offset) set.dsize ↔
      A.longBits = 64 ∨ set.withCounter = false ∨ set.withTimeout = set.withComment := by
  obtain ⟨maxelem, hbits, -, rfl⟩ := hashDomainCreate_eq h
  have hdsize : (emptySet A tb maxelem hbits initval).dsize = (domainSetElemLen
      (domainSetExtensions A) (tb.cadtFlags.map Nlattr.value) tb.timeout.isSome dsetMaxDomainLen
        1).len := (domainSetElemLen_create A tb dsetMaxDomainLen).symm
  have hone : 1 = 0 ∨ ∃ k, 1 = 2 ^ k := .inr ⟨0, rfl⟩
  have hsmall : ¬ 8 ≤ 1 := by decide
  rw [hdsize, domainSetExtensions_aligned_iff A _ _ _ hone, getD_testBit tb, getD_testBit tb]
  simp only [hsmall, or_false]
  rfl

/-! ### Any extensions -/

/-- The layout of a request is right if and only if every selected extension has an alignment that
divides 8 and is either no larger than that of the key or reached, behind the last field, with
fewer bytes than the alignment of the key. -/
theorem layoutRight_iff {exts : List ExtType} (hpow : PowersOfTwo exts) (cadtFlags : Option ℕ)
    (timeout : Bool) (len : ℕ) {align : ℕ} (halign : align = 0 ∨ ∃ k, align = 2 ^ k) :
    LayoutRight exts cadtFlags timeout len align ↔
      ∀ ext ∈ selected exts cadtFlags timeout, ext.align ∣ 8 ∧
        (ext.align ≤ keyAlign align ∨ alignUp (fieldsLen exts cadtFlags timeout len) ext.align <
          fieldsLen exts cadtFlags timeout len + keyAlign align) := by
  rw [← aligned_iff hpow halign]
  refine ⟨fun h => h.2.2, fun h => ⟨?_, separate hpow halign, h⟩⟩
  exact offsets_snd (cadtFlags.getD 0) timeout exts len

def arch32 : Arch := ⟨32, 100, .inl rfl, by decide⟩

theorem layoutRight_iff_counters :
    LayoutRight (domainSetExtensions arch32) (some (2 ^ 3)) false dsetMaxDomainLen 1 ↔
      ∀ ext ∈ selected (domainSetExtensions arch32) (some (2 ^ 3)) false, ext.align ∣ 8 ∧
        (ext.align ≤ keyAlign 1 ∨
          alignUp (fieldsLen (domainSetExtensions arch32) (some (2 ^ 3)) false dsetMaxDomainLen)
            ext.align <
          fieldsLen (domainSetExtensions arch32) (some (2 ^ 3)) false dsetMaxDomainLen +
            keyAlign 1) :=
  layoutRight_iff (domainSetExtensions_pow arch32) _ _ _ (.inr ⟨0, rfl⟩)

/-- With 32 bits, counters and timeout make elements of 276 bytes: the counters of the second
element are not at a multiple of 8. -/
theorem layout_misaligned :
    ¬ ∀ exts, PowersOfTwo exts → ∀ (cadtFlags : Option ℕ) (timeout : Bool) (len align : ℕ),
      (align = 0 ∨ ∃ k, align = 2 ^ k) → LayoutRight exts cadtFlags timeout len align := by
  intro h
  have hone : 1 = 0 ∨ ∃ k, 1 = 2 ^ k := .inr ⟨0, rfl⟩
  obtain ⟨-, -, haligned⟩ := h (domainSetExtensions arch32) (domainSetExtensions_pow arch32)
    (some (2 ^ 3)) true dsetMaxDomainLen 1 hone
  rw [domainSetExtensions_aligned_iff arch32 _ _ _ hone] at haligned
  exact absurd haligned (by decide)

end Dset.Hash.Layout
