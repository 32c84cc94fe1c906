import Dset.Hash.CallAd
import Mathlib.Data.List.GetD

/-! Which requests name the same element. The policy lets domains of 256 bytes through
and bytes behind the first zero byte, while the key is the first 255 bytes of the
attribute and the table compares keys as strings. -/

namespace Dset.Hash

open Dset.Lib List

variable {A : Arch}

/-- What `nla_validate` asks of an `NLA_NUL_STRING` with this `.len`: a zero byte within its
reach, and no more than `len` bytes when one at the end is not counted. -/
def nlaNulString (len : ℕ) (payload : List UInt8) : Bool :=
  (payload.take (len + 1)).contains 0 &&
    decide ((if payload.getLast? = some 0 then payload.length - 1 else payload.length) ≤ len)

/-- The key is the string and nothing else: equal keys are equal strings, and keys that
compare equal have the same bucket in every table. -/
structure KeysAgree (jhash2 : HashDomainElem → BitVec 32 → BitVec 32) (p p' : List UInt8)
    (e e' : HashDomainElem) : Prop where
  key : e = e' ↔ cstr p = cstr p'
  bucket : hashDomainDataEqual e e' = true → ∀ initval htableBits,
    hkey jhash2 e initval htableBits = hkey jhash2 e' initval htableBits

/-- Strings that agree up to their byte 255 are equal, and so are the bytes behind them. -/
def SameImage (p p' : List UInt8) : Prop :=
  (cstr p).take (dsetMaxDomainLen - 1) = (cstr p').take (dsetMaxDomainLen - 1) →
    cstr p = cstr p' ∧ ∀ i < dsetMaxDomainLen - 1, p.getD i 0 = p'.getD i 0

/-! ### The bytes of a key -/

theorem getD_append_zeros (t : List UInt8) (k i : ℕ) : (t ++ replicate k 0).getD i 0 = t.getD i 0 := by
  rcases Nat.lt_or_ge i t.length with h | h
  · rw [getD_append _ _ _ _ h]
  · rw [getD_append_right _ _ _ _ h, getD_eq_default _ _ h]
    simp [getD]

theorem cstr_append_zeros (t : List UInt8) (k : ℕ) : cstr (t ++ replicate k 0) = cstr t := by
  induction t with
  | nil => cases k <;> simp [cstr, replicate_succ]
  | cons a t ih =>
    unfold cstr at ih ⊢
    by_cases ha : a = 0
    · simp [ha]
    · simp [ha, ih]

/-- The byte that `nla_strlcpy` does not count is zero. -/
theorem getD_srclen {p : List UInt8} {i : ℕ}
    (h : (if p.getLast? = some 0 then p.length - 1 else p.length) ≤ i) : p.getD i 0 = 0 := by
  split at h
  · rename_i hlast
    rw [getLast?_eq_getElem?] at hlast
    rcases Nat.lt_or_ge i p.length with hlt | hge
    · obtain rfl : i = p.length - 1 := by omega
      rw [getD_eq_getElem?_getD, hlast, Option.getD_some]
    · exact getD_eq_default _ _ hge
  · exact getD_eq_default _ _ h

theorem nlaStrlcpy_getD (p : List UInt8) (i : ℕ) :
    (nlaStrlcpy p).domain.getD i 0 = if i < dsetMaxDomainLen - 1 then p.getD i 0 else 0 := by
  unfold nlaStrlcpy zeroPad
  simp only
  rw [getD_append_zeros, getD_eq_getElem?_getD, getElem?_take]
  generalize hsrc : (if p.getLast? = some 0 then p.length - 1 else p.length) = srclen
  by_cases h : i < dsetMaxDomainLen - 1
  · rw [if_pos h]
    split
    · rfl
    · exact (getD_srclen (hsrc.trans_le (by omega))).symm
  · rw [if_neg h, if_neg (by omega)]
    rfl

/-- Keys are equal when their first 255 bytes are. -/
theorem nlaStrlcpy_eq_iff {p p' : List UInt8} :
    nlaStrlcpy p = nlaStrlcpy p' ↔ ∀ i < dsetMaxDomainLen - 1, p.getD i 0 = p'.getD i 0 := by
  constructor
  · intro h i hi
    have h1 := nlaStrlcpy_getD p i
    rw [h, nlaStrlcpy_getD p' i, if_pos hi, if_pos hi] at h1
    exact h1.symm
  · intro h
    have hdomain : (nlaStrlcpy p).domain = (nlaStrlcpy p').domain := by
      apply ext_getElem ((nlaStrlcpy p).length_domain.trans (nlaStrlcpy p').length_domain.symm)
      intro i h1 h2
      rw [← getD_eq_getElem _ 0 h1, ← getD_eq_getElem _ 0 h2, nlaStrlcpy_getD, nlaStrlcpy_getD]
      split
      · exact h i ‹_›
      · rfl
    generalize nlaStrlcpy p = e at hdomain
    generalize nlaStrlcpy p' = e' at hdomain
    cases e
    cases e'
    simpa using hdomain

theorem length_cstr_le (p : List UInt8) :
    (cstr p).length ≤ if p.getLast? = some 0 then p.length - 1 else p.length := by
  have hle : (cstr p).length ≤ p.length := by
    have := congrArg length (cstr_append_tail p)
    rw [length_append] at this
    omega
  split
  · rename_i hlast
    by_contra hgt
    have hall : cstr p = p := by
      have := cstr_append_tail p
      have htail : cstrTail p = [] := by
        have := congrArg length this
        rw [length_append] at this
        exact length_eq_zero_iff.mp (by omega)
      rwa [htail, append_nil] at this
    have hmem := mem_of_getLast? hlast
    rw [← hall] at hmem
    exact zero_notMem_cstr p hmem
  · exact hle

theorem cstr_nlaStrlcpy (p : List UInt8) :
    cstr (nlaStrlcpy p).domain = (cstr p).take (dsetMaxDomainLen - 1) := by
  have hlen := length_cstr_le p
  unfold nlaStrlcpy zeroPad
  simp only
  rw [cstr_append_zeros]
  generalize (if p.getLast? = some 0 then p.length - 1 else p.length) = srclen at hlen ⊢
  unfold cstr at hlen ⊢
  rw [← take_takeWhile]
  rcases le_total srclen (dsetMaxDomainLen - 1) with h | h
  · rw [min_eq_left h, take_of_length_le hlen, take_of_length_le (hlen.trans h)]
  · rw [min_eq_right h]

/-! ### Two requests -/

/-- Equal images have equal strings, up to the byte 255. -/
theorem take_cstr_of_eq {p p' : List UInt8} (h : nlaStrlcpy p = nlaStrlcpy p') :
    (cstr p).take (dsetMaxDomainLen - 1) = (cstr p').take (dsetMaxDomainLen - 1) := by
  rw [← cstr_nlaStrlcpy, ← cstr_nlaStrlcpy, h]

/-- Strings that differ behind their byte 255 only have equal images. -/
theorem nlaStrlcpy_eq_of_take {p p' : List UInt8}
    (h : (cstr p).take (dsetMaxDomainLen - 1) = (cstr p').take (dsetMaxDomainLen - 1))
    (hne : cstr p ≠ cstr p') : nlaStrlcpy p = nlaStrlcpy p' := by
  have hlong : dsetMaxDomainLen - 1 ≤ (cstr p).length ∧ dsetMaxDomainLen - 1 ≤ (cstr p').length := by
    have hlen := congrArg length h
    rw [length_take, length_take] at hlen
    by_contra hshort
    have h1 : (cstr p).length ≤ dsetMaxDomainLen - 1 := by omega
    have h2 : (cstr p').length ≤ dsetMaxDomainLen - 1 := by omega
    rw [take_of_length_le h1, take_of_length_le h2] at h
    exact hne h
  have hfront : ∀ (q : List UInt8) (i : ℕ), i < dsetMaxDomainLen - 1 →
      dsetMaxDomainLen - 1 ≤ (cstr q).length →
      q.getD i 0 = ((cstr q).take (dsetMaxDomainLen - 1)).getD i 0 := by
    intro q i hi hq
    conv_lhs => rw [← cstr_append_tail q]
    rw [getD_append _ _ _ _ (by omega), getD_eq_getElem?_getD, getD_eq_getElem?_getD,
      getElem?_take, if_pos hi]
  rw [nlaStrlcpy_eq_iff]
  intro i hi
  rw [hfront p i hi hlong.1, hfront p' i hi hlong.2, h]

/-- The keys of two images compare equal when their strings agree up to the byte 255. -/
theorem hashDomainDataEqual_nlaStrlcpy (p p' : List UInt8) :
    hashDomainDataEqual (nlaStrlcpy p) (nlaStrlcpy p') = true ↔
      (cstr p).take (dsetMaxDomainLen - 1) = (cstr p').take (dsetMaxDomainLen - 1) := by
  have htail : ∀ q, cstrTail (nlaStrlcpy q).domain ≠ [] := by
    intro q hnil
    have happ := congrArg length (cstr_append_tail (nlaStrlcpy q).domain)
    rw [hnil, append_nil, cstr_nlaStrlcpy, length_take, (nlaStrlcpy q).length_domain] at happ
    unfold dsetMaxDomainLen at happ
    omega
  rw [hashDomainDataEqual, strcmpEq_cstr _ _ (htail p) (htail p'), cstr_nlaStrlcpy, cstr_nlaStrlcpy]

section
variable {set set' : DomainSet A} {tb tb' : AdtAttrs} {p p' : List UInt8}
  {q q' : HashDomainElem × DomainSetExt}

theorem adtRequest_key (h : tb.domain = some p) (hq : adtRequest set tb = .ok q) :
    q.1 = nlaStrlcpy p := by
  unfold adtRequest hashDomainUadt at hq
  rw [h] at hq
  simp only at hq
  split at hq
  · cases hq
  · rw [← Except.ok.inj hq]

/-- Two requests agree in their keys as in their strings if and only if nothing behind the
strings and no byte 256 tells them apart. -/
theorem equal_domains_equal_keys (jhash2 : HashDomainElem → BitVec 32 → BitVec 32)
    (h : tb.domain = some p) (h' : tb'.domain = some p') (hq : adtRequest set tb = .ok q)
    (hq' : adtRequest set' tb' = .ok q') :
    KeysAgree jhash2 p p' q.1 q'.1 ↔ SameImage p p' := by
  rw [adtRequest_key h hq, adtRequest_key h' hq']
  constructor
  · rintro ⟨hkey, -⟩ htake
    by_cases hstr : cstr p = cstr p'
    · exact ⟨hstr, nlaStrlcpy_eq_iff.mp (hkey.mpr hstr)⟩
    · exact absurd (hkey.mp (nlaStrlcpy_eq_of_take htake hstr)) hstr
  · intro hsame
    refine ⟨⟨fun heq => (hsame (take_cstr_of_eq heq)).1, fun hstr => ?_⟩, fun heq _ _ => ?_⟩
    · exact nlaStrlcpy_eq_iff.mpr (hsame (by rw [hstr])).2
    · rw [nlaStrlcpy_eq_iff.mpr (hsame ((hashDomainDataEqual_nlaStrlcpy p p').mp heq)).2]

end

/-- Terminated texts of at most 255 bytes, as the library sends them, agree. -/
theorem sameImage_text {t t' : List UInt8} (h0 : (0 : UInt8) ∉ t) (h0' : (0 : UInt8) ∉ t')
    (hlen : t.length < dsetMaxDomainLen) (hlen' : t'.length < dsetMaxDomainLen) :
    SameImage (t ++ [0]) (t' ++ [0]) := by
  have hstr : ∀ u : List UInt8, 0 ∉ u → cstr (u ++ [0]) = u := by
    intro u hu
    rw [show ([0] : List UInt8) = replicate 1 0 from rfl, cstr_append_zeros, cstr_eq_self hu]
  intro htake
  rw [hstr t h0, hstr t' h0', take_of_length_le (by omega), take_of_length_le (by omega)] at htake
  subst htake
  exact ⟨rfl, fun _ _ => rfl⟩

/-- `abc` with zero bytes behind it has the key of `abc`, and `abd` another one. -/
theorem equal_domains_equal_keys_padded :
    KeysAgree elemHash (bytes "abc" ++ [0]) (bytes "abc\x00\x00" ++ [0])
      (nlaStrlcpy (bytes "abc" ++ [0])) (nlaStrlcpy (bytes "abc\x00\x00" ++ [0])) ∧
    KeysAgree elemHash (bytes "abc" ++ [0]) (bytes "abd" ++ [0])
      (nlaStrlcpy (bytes "abc" ++ [0])) (nlaStrlcpy (bytes "abd" ++ [0])) := by
  have hq (t : List UInt8) : adtRequest (smallSet 2 0) (bareAttrs t) =
      .ok (nlaStrlcpy (t ++ [0]), plainExt) := rfl
  refine ⟨(equal_domains_equal_keys elemHash rfl rfl (hq _) (hq _)).mpr fun _ => ⟨by decide, ?_⟩,
    (equal_domains_equal_keys elemHash rfl rfl (hq _) (hq _)).mpr ?_⟩
  · intro i _
    match i with
    | 0 | 1 | 2 | 3 | 4 | 5 | _ + 6 => rfl
  · exact sameImage_text (by decide) (by decide) (by decide) (by decide)

/-- `abc`, and `abc` with bytes behind its terminator: the policy lets both through, they
compare equal, and they have different keys and buckets. -/
theorem equal_domains_differ :
    ¬∀ (set : DomainSet x64) (tb tb' : AdtAttrs) (p p' : List UInt8)
      (q q' : HashDomainElem × DomainSetExt), tb.domain = some p → tb'.domain = some p' →
      nlaNulString dsetMaxDomainLen p = true → nlaNulString dsetMaxDomainLen p' = true →
      adtRequest set tb = .ok q → adtRequest set tb' = .ok q' →
      KeysAgree elemHash p p' q.1 q'.1 := by
  intro h
  have hagree := h (smallSet 2 0) (bareAttrs (bytes "abc")) (bareAttrs (bytes "abc" ++ 0 :: bytes "xyz"))
    (bytes "abc" ++ [0]) (bytes "abc" ++ 0 :: bytes "xyz" ++ [0])
    (nlaStrlcpy (bytes "abc" ++ [0]), plainExt)
    (nlaStrlcpy (bytes "abc" ++ 0 :: bytes "xyz" ++ [0]), plainExt) rfl rfl (by decide) (by decide)
    rfl rfl
  have hbucket := hagree.bucket (by decide +kernel) 0 6
  exact absurd hbucket (by decide +kernel)

end Dset.Hash
