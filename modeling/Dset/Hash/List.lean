import Dset.Core.DumpStart
import Dset.Hash.Capacity

/-! Listing a set: `mtype_head` and `mtype_list`. A bucket is written as a whole; one
that does not fit behind other buckets is left to the next message, and one that does
not fit as the first of a message is an error. Twelve elements with long comments do
not fit into a page. -/

namespace Dset.Hash

open Dset.Lib List

variable {A : Arch}

/-- The fields of the attribute `DSET_ATTR_CADT_FLAGS`. -/
def cadtFlags (set : DomainSet A) : ℕ :=
  (if set.withCounter then 2 ^ 3 else 0) + (if set.withComment then 2 ^ 4 else 0) +
    (if set.forceadd then 2 ^ 5 else 0) + if set.withSkbinfo then 2 ^ 6 else 0

def domainSetPutFlags (set : DomainSet A) : List Core.Attr :=
  (if set.withTimeout then [.timeout set.timeout] else []) ++
    if cadtFlags set = 0 then [] else [.cadtFlags (cadtFlags set)]

/-- The set as `mtype_head` and the listing behind it find it. -/
def headSet (jiffies : BitVec A.longBits) (alloc : ℕ → Bool) (set : DomainSet A) : DomainSet A :=
  if set.withTimeout then mtypeExpire jiffies alloc set else set

/-- The attributes of `mtype_head`; the counts are put as `u32`. -/
def headAttrs (sizeofHtype ref : ℕ) (set : DomainSet A) : List Core.Attr :=
  [.data, .hashsize (jhashSize set.table.htableBits), .maxelem set.maxelem, .references ref,
    .memsize ((sizeofHtype + sizeofHtable A + set.acct.extSize) % 2 ^ 32).toNat,
    .elements (set.acct.elements % 2 ^ 32).toNat] ++ domainSetPutFlags set

def mtypeHead (sizeofHtype : ℕ) (jiffies : BitVec A.longBits) (alloc : ℕ → Bool)
    (set : Core.DomainSet (DomainSet A)) (skb : Core.Skb) : Ret × DomainSet A × Core.Skb :=
  let data := headSet jiffies alloc set.data
  let (fits, skb) := skb.putAll (headAttrs sizeofHtype set.ref data)
  if fits then (.ok, data, skb.nestEnd) else (.err .emsgsize, data, skb)

def domainSetPutSkbinfo (skbinfo : DomainSetSkbinfo) : List Core.Attr :=
  (if skbinfo.skbmark ≠ 0 ∨ skbinfo.skbmarkmask ≠ 0 then
    [.skbmark (skbinfo.skbmark.setWidth 64 <<< 32 ||| skbinfo.skbmarkmask.setWidth 64)] else []) ++
  (if skbinfo.skbprio ≠ 0 then [.skbprio skbinfo.skbprio] else []) ++
  if skbinfo.skbqueue ≠ 0 then [.skbqueue skbinfo.skbqueue] else []

def domainSetPutExtensions (x : Extensions) (jiffies : BitVec A.longBits) (r : Record A) :
    List Core.Attr :=
  (if x.timeout then [.timeout (domainSetTimeoutGet jiffies r.timeout)] else []) ++
  (if x.counter then [.bytes r.counter.bytes, .packets r.counter.packets] else []) ++
  (if x.comment then r.comment.toList.map fun c => .comment c.str else []) ++
  if x.skbinfo then domainSetPutSkbinfo r.skbinfo else []

/-- How the elements of a bucket come out: all of them, or none because the nested
attribute of one or something in it does not fit. -/
inductive BucketEnd where
  | listed (skb : Core.Skb)
  | noNest
  | noPut

def listSlots (x : Extensions) (jiffies : BitVec A.longBits) : Core.Skb → List (Slot A) → BucketEnd
  | skb, [] => .listed skb
  | skb, s :: l =>
    if !s.used then listSlots x jiffies skb l
    else if s.data.isExpired x jiffies then listSlots x jiffies skb l
    else match skb.put .data with
      | none => .noNest
      | some skb =>
        let (fits, skb) := skb.putAll
          (.domain s.data.elem.domain :: domainSetPutExtensions x jiffies s.data)
        if !fits then .noPut else listSlots x jiffies skb.nestEnd l

/-- The buckets from number `i` on. `atd` is the buffer before `DSET_ATTR_ADT`, and
`skb` where each bucket is cut off again. -/
def listBuckets (x : Extensions) (jiffies : ℕ → BitVec A.longBits) (first : ℕ) (atd : Core.Skb) :
    List (Option (Hbucket A)) → ℕ → Core.Skb → Ret × ℕ × Core.Skb
  | [], _, skb => (.ok, 0, skb.nestEnd)
  | none :: l, i, skb => listBuckets x jiffies first atd l (i + 1) skb
  | some n :: l, i, skb =>
    match listSlots x (jiffies i) skb (n.value.take n.pos) with
    | .listed skb' => listBuckets x jiffies first atd l (i + 1) skb'
    | .noNest => if i = first then (.err .emsgsize, i, atd) else (.ok, i, skb.nestEnd)
    | .noPut => if i = first then (.err .emsgsize, 0, skb) else (.ok, i, skb.nestEnd)

/-- `mtype_list` of the table in `DSET_CB_PRIVATE`; `jiffies` is the clock at each bucket. -/
def mtypeList (jiffies : ℕ → BitVec A.longBits) (set : Core.DomainSet (DomainSet A))
    (cb : Core.CbArgs (Htable A)) (skb : Core.Skb) : Ret × ℕ × Core.Skb :=
  match skb.put .adt with
  | none => (.err .emsgsize, cb.arg0, skb)
  | some body =>
    listBuckets set.data.extensions jiffies cb.arg0 skb
      ((cb.priv.elim [] Htable.bucket).drop cb.arg0) cb.arg0 body

def mtypeSameSet (a b : DomainSet A) : Bool :=
  a.maxelem = b.maxelem && a.timeout = b.timeout && a.extensions = b.extensions

/-- `mtype_variant`, with the table that `mtype_uref` keeps. -/
def mtypeVariant : Core.Variant (DomainSet A) (Htable A) :=
  ⟨mtypeSameSet, mtypeFlush, some fun set => set.table⟩

/-- What the listing calls of a message find outside the set: the size of a `struct htype`,
the clock and the allocations of the expiry pass, and the clock at each bucket. -/
structure ListCall (A : Arch) where
  sizeofHtype : ℕ
  head : BitVec A.longBits
  alloc : ℕ → Bool
  bucket : ℕ → BitVec A.longBits

def ListCall.fns (c : ListCall A) : Core.ListFns (DomainSet A) (Htable A) :=
  ⟨mtypeHead c.sizeofHtype c.head c.alloc, mtypeList c.bucket⟩

/-! ### The bytes of a bucket -/

def listedRecords (x : Extensions) (jiffies : BitVec A.longBits) (o : Option (Hbucket A)) :
    List (Record A) :=
  (o.elim [] fun n => slotRecords (n.value.take n.pos)).filter fun r => !r.isExpired x jiffies

def elementAttrs (x : Extensions) (jiffies : BitVec A.longBits) (r : Record A) : List Core.Attr :=
  .data :: .domain r.elem.domain :: domainSetPutExtensions x jiffies r ++ [.nestEnd]

/-- Behind a number of 64-bit values: on a machine that aligns them, the last one ends at a
multiple of eight. -/
def wideEnd (pad64 : Bool) (tail : ℕ) : ℕ := if pad64 then align tail 8 else tail

/-- Where an element ends that starts behind `tail` bytes: 264 bytes for its domain,
8 for a timeout, 12 for each counter, the comment with its header and terminator, and
what is not zero of the skbinfo. -/
def elementEnd (pad64 : Bool) (x : Extensions) (tail : ℕ) (r : Record A) : ℕ :=
  let tail := tail + 264 + if x.timeout then 8 else 0
  let tail := if x.counter then wideEnd pad64 (tail + if pad64 then 28 else 24) else tail
  let tail := tail + if x.comment then r.comment.elim 0 fun c => align (c.str.length + 5) 4 else 0
  if x.skbinfo then
    (if r.skbinfo.skbmark ≠ 0 ∨ r.skbinfo.skbmarkmask ≠ 0 then wideEnd pad64 (tail + 12) else tail) +
      (if r.skbinfo.skbprio ≠ 0 then 8 else 0) + if r.skbinfo.skbqueue ≠ 0 then 8 else 0
  else tail

theorem nlaTotalSize_eq (n : ℕ) : Core.nlaTotalSize n = align (n + 4) 4 := by
  unfold Core.nlaTotalSize align
  omega

section
variable {pad64 : Bool} {tail : ℕ}

theorem four_dvd_wideEnd (h : 4 ∣ tail) : 4 ∣ wideEnd pad64 tail := by
  unfold wideEnd align
  split <;> omega

theorem wide_size (h : 4 ∣ tail) :
    tail + (Core.nlaTotalSize 8 + if pad64 && tail % 8 = 0 then Core.nlaTotalSize 0 else 0) =
      wideEnd pad64 (tail + 12) := by
  unfold wideEnd Core.nlaTotalSize align
  cases pad64
  · simp
  · simp only [Bool.true_and, decide_eq_true_eq, if_true]
    split <;> omega

theorem attrsEnd_counter (h : 4 ∣ tail) (c : DomainSetCounter) :
    Core.attrsEnd pad64 tail [.bytes c.bytes, .packets c.packets] =
      wideEnd pad64 (tail + if pad64 then 28 else 24) := by
  have hfirst : tail + Core.Attr.size pad64 tail (.bytes c.bytes) = wideEnd pad64 (tail + 12) :=
    wide_size h
  have hsecond : wideEnd pad64 (tail + 12) + Core.Attr.size pad64 (wideEnd pad64 (tail + 12))
      (.packets c.packets) = wideEnd pad64 (wideEnd pad64 (tail + 12) + 12) :=
    wide_size (four_dvd_wideEnd (by omega))
  rw [Core.attrsEnd_cons, Core.attrsEnd_cons, hfirst, hsecond]
  show wideEnd pad64 (wideEnd pad64 (tail + 12) + 12) = _
  unfold wideEnd align
  cases pad64
  · simp
  · simp only [if_true]
    omega

theorem attrsEnd_skbinfo (h : 4 ∣ tail) (i : DomainSetSkbinfo) :
    Core.attrsEnd pad64 tail (domainSetPutSkbinfo i) =
      (if i.skbmark ≠ 0 ∨ i.skbmarkmask ≠ 0 then wideEnd pad64 (tail + 12) else tail) +
        (if i.skbprio ≠ 0 then 8 else 0) + if i.skbqueue ≠ 0 then 8 else 0 := by
  unfold domainSetPutSkbinfo
  rw [Core.attrsEnd_append, Core.attrsEnd_append]
  have hmark : ∀ v, Core.attrsEnd pad64 tail [.skbmark v] = wideEnd pad64 (tail + 12) :=
    fun v => wide_size h
  have hprio : ∀ (t : ℕ) v, Core.attrsEnd pad64 t [.skbprio v] = t + 8 := fun _ _ => rfl
  have hqueue : ∀ (t : ℕ) v, Core.attrsEnd pad64 t [.skbqueue v] = t + 8 := fun _ _ => rfl
  have hnil : ∀ t : ℕ, Core.attrsEnd pad64 t [] = t := fun _ => rfl
  split <;> split <;> split <;> simp only [hmark, hprio, hqueue, hnil, Nat.add_zero]

/-- The attributes of an element take the bytes up to its end. -/
theorem attrsEnd_element (x : Extensions) (jiffies : BitVec A.longBits) (h : 4 ∣ tail)
    (r : Record A) :
    Core.attrsEnd pad64 tail (elementAttrs x jiffies r) = elementEnd pad64 x tail r := by
  have hnil : ∀ t : ℕ, Core.attrsEnd pad64 t [] = t := fun _ => rfl
  have hfront : Core.attrsEnd pad64 tail [.data, .domain r.elem.domain] = tail + 264 := by
    simp only [Core.attrsEnd_cons, Core.Attr.size, r.elem.length_domain, hnil]
    rfl
  have htimeout : Core.attrsEnd pad64 (tail + 264)
      (if x.timeout then [.timeout (domainSetTimeoutGet jiffies r.timeout)] else []) =
      tail + 264 + if x.timeout then 8 else 0 := by
    split <;> rfl
  generalize ht : tail + 264 + (if x.timeout then 8 else 0) = t at htimeout
  have h4 : 4 ∣ t := by split at ht <;> omega
  have hcounter : Core.attrsEnd pad64 t
      (if x.counter then [.bytes r.counter.bytes, .packets r.counter.packets] else []) =
      if x.counter then wideEnd pad64 (t + if pad64 then 28 else 24) else t := by
    split
    · exact attrsEnd_counter h4 r.counter
    · rfl
  generalize ht' : (if x.counter then wideEnd pad64 (t + if pad64 then 28 else 24) else t) = t'
    at hcounter
  have h4' : 4 ∣ t' := by
    split at ht'
    · rw [← ht']
      exact four_dvd_wideEnd (by split <;> omega)
    · exact ht' ▸ h4
  have hcomment : Core.attrsEnd pad64 t'
      (if x.comment then r.comment.toList.map fun c => .comment c.str else []) =
      t' + if x.comment then r.comment.elim 0 fun c => align (c.str.length + 5) 4 else 0 := by
    split
    · cases r.comment with
      | none => rfl
      | some c =>
        show t' + Core.nlaTotalSize (c.str.length + 1) = _
        rw [nlaTotalSize_eq]
        rfl
    · rfl
  generalize ht'' : t' + (if x.comment then r.comment.elim 0 fun c => align (c.str.length + 5) 4
    else 0) = t'' at hcomment
  have h4'' : 4 ∣ t'' := by
    have halign : ∀ n, 4 ∣ align n 4 := fun n => Nat.dvd_mul_left _ _
    rw [← ht'']
    refine Nat.dvd_add h4' ?_
    split
    · cases r.comment with
      | none => exact Nat.dvd_zero 4
      | some c => exact halign _
    · exact Nat.dvd_zero 4
  have hskbinfo : Core.attrsEnd pad64 t'' (if x.skbinfo then domainSetPutSkbinfo r.skbinfo else []) =
      if x.skbinfo then (if r.skbinfo.skbmark ≠ 0 ∨ r.skbinfo.skbmarkmask ≠ 0 then
        wideEnd pad64 (t'' + 12) else t'') + (if r.skbinfo.skbprio ≠ 0 then 8 else 0) +
        (if r.skbinfo.skbqueue ≠ 0 then 8 else 0) else t'' := by
    split
    · exact attrsEnd_skbinfo h4'' r.skbinfo
    · rfl
  unfold elementEnd
  simp only
  rw [ht, ht', ht'', ← hskbinfo, ← hcomment, ← hcounter, ← htimeout, ← hfront]
  have hend : ∀ t : ℕ, Core.attrsEnd pad64 t [.nestEnd] = t := fun _ => rfl
  unfold elementAttrs domainSetPutExtensions
  rw [Core.attrsEnd_append _ _ _ [.nestEnd], hend]
  simp only [← Core.attrsEnd_append, append_assoc, cons_append, nil_append]

theorem four_dvd_elementEnd (x : Extensions) (h : 4 ∣ tail) (r : Record A) :
    4 ∣ elementEnd pad64 x tail r := by
  rw [← attrsEnd_element x 0 h r]
  exact Core.four_dvd_attrsEnd h _

theorem le_elementEnd (x : Extensions) (h : 4 ∣ tail) (r : Record A) :
    tail ≤ elementEnd pad64 x tail r := by
  rw [← attrsEnd_element x 0 h r]
  exact Core.le_attrsEnd pad64 tail _

theorem le_foldl_elementEnd (x : Extensions) (h : 4 ∣ tail) (rs : List (Record A)) :
    tail ≤ rs.foldl (elementEnd pad64 x) tail := by
  induction rs generalizing tail with
  | nil => exact le_rfl
  | cons r rs ih => exact (le_elementEnd x h r).trans (ih (four_dvd_elementEnd x h r))

end

/-- What is put for one element, when it fits and when it does not. -/
theorem put_element (x : Extensions) (jiffies : BitVec A.longBits) {skb : Core.Skb}
    (h : 4 ∣ skb.len) (r : Record A) :
    (elementEnd skb.pad64 x skb.len r ≤ skb.cap → ∃ skb1 skb2, skb.put .data = some skb1 ∧
      skb1.putAll (.domain r.elem.domain :: domainSetPutExtensions x jiffies r) = (true, skb2) ∧
      skb2.nestEnd = { skb with
        len := elementEnd skb.pad64 x skb.len r
        attrs := skb.attrs ++ elementAttrs x jiffies r }) ∧
    (skb.cap < elementEnd skb.pad64 x skb.len r → ∀ skb1, skb.put .data = some skb1 →
      (skb1.putAll (.domain r.elem.domain :: domainSetPutExtensions x jiffies r)).1 = false) := by
  have hend : Core.attrsEnd skb.pad64 (skb.len + 4)
      (.domain r.elem.domain :: domainSetPutExtensions x jiffies r) =
      elementEnd skb.pad64 x skb.len r := by
    rw [← attrsEnd_element x jiffies h r, elementAttrs, Core.attrsEnd_append]
    rfl
  have hle := Core.le_attrsEnd skb.pad64 (skb.len + 4)
    (.domain r.elem.domain :: domainSetPutExtensions x jiffies r)
  have hsize : Core.Attr.size skb.pad64 skb.len .data = 4 := rfl
  unfold Core.Skb.put
  rw [hsize]
  constructor
  · intro hfits
    refine ⟨_, _, if_pos (by omega), Core.Skb.putAll_eq (by rw [hend]; exact hfits), ?_⟩
    simp only [Core.Skb.nestEnd, hend, elementAttrs, append_assoc, cons_append, nil_append]
  · intro hfull skb1 hput
    split at hput
    · rename_i hroom
      obtain rfl := Option.some.inj hput
      exact Core.Skb.putAll_full (by rw [hend]; exact hfull) hroom
    · cases hput

/-- A bucket is listed when its elements end within the buffer. -/
theorem listSlots_listed (x : Extensions) (jiffies : BitVec A.longBits) {skb : Core.Skb}
    {l : List (Slot A)} (h : 4 ∣ skb.len)
    (hfits : ((slotRecords l).filter fun r => !r.isExpired x jiffies).foldl
      (elementEnd skb.pad64 x) skb.len ≤ skb.cap) :
    listSlots x jiffies skb l = .listed { skb with
      len := ((slotRecords l).filter fun r => !r.isExpired x jiffies).foldl
        (elementEnd skb.pad64 x) skb.len
      attrs := skb.attrs ++ ((slotRecords l).filter fun r => !r.isExpired x jiffies).flatMap
        (elementAttrs x jiffies) } := by
  induction l generalizing skb with
  | nil => simp [listSlots]
  | cons s l ih =>
    rw [listSlots]
    cases hu : s.used
    · rw [slotRecords_cons_unused l hu] at hfits ⊢
      exact ih h hfits
    cases hx : s.data.isExpired x jiffies
    · rw [slotRecords_cons_used l hu, filter_cons_of_pos (by simp [hx])] at hfits ⊢
      have hnext : 4 ∣ elementEnd skb.pad64 x skb.len s.data := four_dvd_elementEnd x h s.data
      have hone := (le_foldl_elementEnd x hnext _).trans hfits
      obtain ⟨skb1, skb2, hput, hall, hskb⟩ := (put_element x jiffies h s.data).1 hone
      simp only [hput, hall, hskb, Bool.not_true, Bool.false_eq_true, if_false]
      rw [ih hnext hfits]
      simp only [foldl_cons, flatMap_cons, append_assoc]
    · rw [slotRecords_cons_used l hu, filter_cons_of_neg (by simp [hx])] at hfits ⊢
      exact ih h hfits

theorem listSlots_full (x : Extensions) (jiffies : BitVec A.longBits) {skb : Core.Skb}
    {l : List (Slot A)} (h : 4 ∣ skb.len) (hlen : skb.len ≤ skb.cap)
    (hfull : skb.cap < ((slotRecords l).filter fun r => !r.isExpired x jiffies).foldl
      (elementEnd skb.pad64 x) skb.len) :
    listSlots x jiffies skb l = .noNest ∨ listSlots x jiffies skb l = .noPut := by
  induction l generalizing skb with
  | nil => exact absurd hfull (not_lt.mpr hlen)
  | cons s l ih =>
    rw [listSlots]
    cases hu : s.used
    · rw [slotRecords_cons_unused l hu] at hfull
      exact ih h hlen hfull
    cases hx : s.data.isExpired x jiffies
    · rw [slotRecords_cons_used l hu, filter_cons_of_pos (by simp [hx])] at hfull
      have hnext : 4 ∣ elementEnd skb.pad64 x skb.len s.data := four_dvd_elementEnd x h s.data
      obtain ⟨hfits, hfull'⟩ := put_element x jiffies h s.data
      rcases le_or_gt (elementEnd skb.pad64 x skb.len s.data) skb.cap with hle | hgt
      · obtain ⟨skb1, skb2, hput, hall, hskb⟩ := hfits hle
        simp only [hput, hall, hskb, Bool.not_true, Bool.false_eq_true, if_false]
        exact ih hnext hle hfull
      · cases hput : skb.put .data with
        | none => exact .inl rfl
        | some skb1 =>
          have hno := hfull' hgt skb1 hput
          exact .inr (by simp [hno])
    · rw [slotRecords_cons_used l hu, filter_cons_of_neg (by simp [hx])] at hfull
      exact ih h hlen hfull

/-! ### The first bucket of a message -/

/-- Behind its first bucket a message does not fail. -/
theorem listBuckets_ok (x : Extensions) (jiffies : ℕ → BitVec A.longBits) {first : ℕ}
    (atd : Core.Skb) (l : List (Option (Hbucket A))) {i : ℕ} (h : first < i) (skb : Core.Skb) :
    (listBuckets x jiffies first atd l i skb).1 = .ok := by
  induction l generalizing i skb with
  | nil => rfl
  | cons o l ih =>
    cases o with
    | none => exact ih (h.trans (Nat.lt_succ_self i)) skb
    | some n =>
      rw [listBuckets]
      split
      · exact ih (h.trans (Nat.lt_succ_self i)) _
      · rw [if_neg h.ne']
      · rw [if_neg h.ne']

/-- A call fails exactly when its first bucket does not fit. -/
theorem mtypeList_ok_iff (jiffies : ℕ → BitVec A.longBits) (set : Core.DomainSet (DomainSet A))
    (cb : Core.CbArgs (Htable A)) {skb : Core.Skb} (h4 : 4 ∣ skb.len) (h : skb.len + 4 ≤ skb.cap) :
    (mtypeList jiffies set cb skb).1 = .ok ↔
      (listedRecords set.data.extensions (jiffies cb.arg0)
        ((cb.priv.elim [] Htable.bucket).getD cb.arg0 none)).foldl
          (elementEnd skb.pad64 set.data.extensions) (skb.len + 4) ≤ skb.cap := by
  have hput : skb.put .adt =
      some { skb with len := skb.len + 4, attrs := skb.attrs ++ [.adt] } := if_pos h
  unfold mtypeList
  rw [hput]
  simp only
  generalize cb.priv.elim [] Htable.bucket = bucket
  rcases Nat.lt_or_ge cb.arg0 bucket.length with hlt | hge
  swap
  · rw [drop_of_length_le hge, getD_eq_default _ _ hge]
    exact iff_of_true rfl h
  rw [drop_eq_getElem_cons hlt, getD_eq_getElem _ _ hlt]
  cases bucket[cb.arg0] with
  | none => exact iff_of_true (listBuckets_ok _ _ _ _ (Nat.lt_succ_self _) _) h
  | some n =>
    rw [listBuckets]
    have h4' : 4 ∣ skb.len + 4 := Nat.dvd_add h4 (Nat.dvd_refl 4)
    show _ ↔ foldl _ _ ((slotRecords (n.value.take n.pos)).filter _) ≤ _
    rcases le_or_gt (foldl (elementEnd skb.pad64 set.data.extensions) (skb.len + 4)
      ((slotRecords (n.value.take n.pos)).filter fun r =>
        !r.isExpired set.data.extensions (jiffies cb.arg0))) skb.cap with hle | hgt
    · rw [listSlots_listed set.data.extensions (jiffies cb.arg0) (by exact h4') (by exact hle)]
      exact iff_of_true (listBuckets_ok _ _ _ _ (Nat.lt_succ_self _) _) hle
    · have hfull : listSlots set.data.extensions (jiffies cb.arg0)
          { skb with len := skb.len + 4, attrs := skb.attrs ++ [.adt] } (n.value.take n.pos) =
            .noNest ∨ _ := listSlots_full _ _ h4' h hgt
      refine iff_of_false ?_ (not_le.mpr hgt)
      rcases hfull with hfull | hfull <;> rw [hfull] <;> simp

def pageSize : ℕ := 4096

/-- The bytes in front of the first bucket: the header of the message, protocol and set
name, for the first message of a set its core header and `mtype_head`, and the start of
`DSET_ATTR_ADT`. -/
def frontLen (set : Core.DomainSet (DomainSet A)) (cb : Core.CbArgs (Htable A)) : ℕ :=
  28 + align (set.name.text.length + 5) 4 +
    (if cb.arg0 = 0 then
      align (set.type.name.text.length + 5) 4 + 16 + (if Core.dsetProtocolMin < cb.proto then 8 else 0) +
        44 + (if set.data.withTimeout then 8 else 0) + if cadtFlags set.data = 0 then 0 else 8
    else 0) + 4

/-- The bucket a message begins with: bucket 0 as the expiry pass of `mtype_head` leaves it,
or the next one of the table that the listing holds. -/
def firstBucket (c : ListCall A) (set : DomainSet A) (cb : Core.CbArgs (Htable A)) :
    Option (Hbucket A) :=
  if cb.arg0 = 0 then (headSet c.head c.alloc set).table.hbucket 0
  else (cb.priv.elim [] Htable.bucket).getD cb.arg0 none

/-- The elements of the first bucket end within the page. -/
def FirstBucketFits (c : ListCall A) (pad64 : Bool) (set : Core.DomainSet (DomainSet A))
    (cb : Core.CbArgs (Htable A)) : Prop :=
  (listedRecords set.data.extensions (c.bucket cb.arg0) (firstBucket c set.data cb)).foldl
    (elementEnd pad64 set.data.extensions) (frontLen set cb) ≤ pageSize

theorem align_le (n a : ℕ) : align n a ≤ n + a - 1 := Nat.div_mul_le_self _ _

theorem four_dvd_frontLen (set : Core.DomainSet (DomainSet A)) (cb : Core.CbArgs (Htable A)) :
    4 ∣ frontLen set cb := by
  have halign : ∀ n, 4 ∣ align n 4 := fun n => Nat.dvd_mul_left _ _
  have h1 := halign (set.name.text.length + 5)
  have h2 := halign (set.type.name.text.length + 5)
  unfold frontLen
  split <;> (try split) <;> (try split) <;> (try split) <;> omega

theorem frontLen_le (set : Core.DomainSet (DomainSet A)) (cb : Core.CbArgs (Htable A)) :
    frontLen set cb ≤ 200 := by
  have hname := set.name.length_lt
  have htype := set.type.name.length_lt
  have h1 := align_le (set.name.text.length + 5) 4
  have h2 := align_le (set.type.name.text.length + 5) 4
  unfold Core.dsetMaxnamelen at hname htype
  unfold frontLen
  split <;> (try split) <;> (try split) <;> (try split) <;> omega

theorem attrsEnd_coreHeader (pad64 : Bool) (tail proto index : ℕ) (set : Core.DomainSet (DomainSet A)) :
    Core.attrsEnd pad64 tail (Core.coreHeader proto index set) =
      tail + align (set.type.name.text.length + 5) 4 + 16 +
        if Core.dsetProtocolMin < proto then 8 else 0 := by
  have hname : Core.Attr.size pad64 tail (.typename set.type.name.text) =
      align (set.type.name.text.length + 5) 4 := nlaTotalSize_eq _
  unfold Core.coreHeader
  rw [cons_append, Core.attrsEnd_cons, hname]
  split <;> rfl

theorem attrsEnd_headAttrs (pad64 : Bool) (tail sizeofHtype ref : ℕ) (set : DomainSet A) :
    Core.attrsEnd pad64 tail (headAttrs sizeofHtype ref set) =
      tail + 44 + (if set.withTimeout then 8 else 0) + if cadtFlags set = 0 then 0 else 8 := by
  unfold headAttrs domainSetPutFlags
  rw [Core.attrsEnd_append, Core.attrsEnd_append]
  split <;> split <;> rfl

theorem headSet_config (jiffies : BitVec A.longBits) (alloc : ℕ → Bool) (set : DomainSet A) :
    (headSet jiffies alloc set).extensions = set.extensions ∧
      (headSet jiffies alloc set).forceadd = set.forceadd := by
  unfold headSet
  split <;> exact ⟨rfl, rfl⟩

theorem dumpList_fst (c : ListCall A) (mode : Core.DumpMode) (set : Core.DomainSet (DomainSet A))
    (cb : Core.CbArgs (Htable A)) (skb : Core.Skb) :
    (Core.dumpList c.fns mode set cb skb).1 = (mtypeList c.bucket set cb skb).1 := by
  unfold Core.dumpList
  show (if _ then _ else _ : Ret × _ × _).1 = _
  split <;> rfl

/-- A message of a full listing is built, or it fails because its first bucket does not
fit into the page. -/
theorem bucket_listed (c : ListCall A) (pad64 : Bool) (mode : Core.DumpMode) (index : ℕ)
    (set : Core.DomainSet (DomainSet A)) (cb : Core.CbArgs (Htable A))
    (hset : mode.listSetname = false) (hheader : mode.listHeader = false) :
    (Core.dumpMessage mtypeVariant c.fns mode index set cb ⟨pageSize, pad64, 0, []⟩).1 = .ok ↔
      FirstBucketFits c pad64 set cb := by
  have hfront := frontLen_le set cb
  have h4 := four_dvd_frontLen set cb
  unfold frontLen at hfront h4
  have hname : Core.attrsEnd pad64 20 [.protocol cb.proto, .setname set.name.text] =
      28 + align (set.name.text.length + 5) 4 := by
    rw [← nlaTotalSize_eq]
    rfl
  have hpage : pageSize = 4096 := rfl
  unfold Core.dumpMessage Core.startMsg
  simp only [Nat.zero_add, if_pos (show 20 ≤ pageSize by decide)]
  rw [Core.Skb.putAll_eq (by simp only [hname]; omega)]
  simp only [hname, hset, Bool.not_true, Bool.false_eq_true, if_false, nil_append]
  unfold FirstBucketFits firstBucket frontLen
  by_cases h0 : cb.arg0 = 0
  · -- the first message of a set
    rw [if_pos h0, if_pos h0, if_pos h0]
    rw [if_pos h0] at hfront h4
    obtain ⟨hext, hforce⟩ := headSet_config c.head c.alloc set.data
    have hflags : cadtFlags (headSet c.head c.alloc set.data) = cadtFlags set.data := by
      simp only [cadtFlags, DomainSet.withCounter, DomainSet.withComment, DomainSet.withSkbinfo,
        hext, hforce]
    have htimeout : (headSet c.head c.alloc set.data).withTimeout = set.data.withTimeout := by
      rw [DomainSet.withTimeout, hext]
    unfold Core.dumpHeader
    rw [Core.Skb.putAll_eq (by simp only [attrsEnd_coreHeader]; omega)]
    simp only [attrsEnd_coreHeader, Bool.not_true, Bool.false_eq_true, if_false]
    simp only [show c.fns.head = mtypeHead c.sizeofHtype c.head c.alloc from rfl, mtypeHead]
    rw [Core.Skb.putAll_eq (by
      simp only [attrsEnd_headAttrs, htimeout, hflags]
      omega)]
    simp only [attrsEnd_headAttrs, htimeout, hflags, hheader, if_true, ne_eq, not_true_eq_false,
      Bool.false_eq_true, if_false]
    rw [dumpList_fst]
    refine (mtypeList_ok_iff _ _ _ ?_ ?_).trans ?_
    · simp only [Core.Skb.nestEnd]
      omega
    · simp only [Core.Skb.nestEnd]
      omega
    · simp only [Core.urefStart, mtypeVariant, Option.elim, Core.Skb.nestEnd, h0, hext, ← Nat.add_assoc]
      rfl
  · rw [if_neg h0, if_neg h0, if_neg h0]
    rw [if_neg h0] at hfront h4
    rw [dumpList_fst]
    refine (mtypeList_ok_iff _ _ _ ?_ ?_).trans ?_
    · simp only
      omega
    · simp only
      omega
    · rfl

/-! ### Sets with comments, and without -/

/-- Without comments an element takes at most 324 bytes. -/
theorem elementEnd_le {x : Extensions} (h : x.comment = false) (tail : ℕ) (r : Record A) :
    elementEnd false x tail r ≤ tail + 324 := by
  unfold elementEnd wideEnd
  simp only [h, Bool.false_eq_true, if_false]
  split <;> split <;> (try split) <;> (try split) <;> (try split) <;> (try split) <;> omega

theorem foldl_elementEnd_le {x : Extensions} (h : x.comment = false) (tail : ℕ)
    (rs : List (Record A)) :
    rs.foldl (elementEnd false x) tail ≤ tail + 324 * rs.length := by
  induction rs generalizing tail with
  | nil => exact le_rfl
  | cons r rs ih =>
    have hone := elementEnd_le h tail r
    have hrest := ih (elementEnd false x tail r)
    rw [foldl_cons, length_cons]
    omega

section
variable {jhash2 : HashDomainElem → BitVec 32 → BitVec 32}

/-- A set without comments can be listed whenever it is, on machines that do not align
64-bit values. -/
theorem run_bucket_listed {l : List Call} {forceadd : Bool} (c : ListCall A)
    (set : Core.DomainSet (DomainSet A)) (h : (setSystem A jhash2 forceadd).Run l set.data)
    (hcomment : set.data.withComment = false) (cb : Core.CbArgs (Htable A))
    (hpriv : cb.arg0 ≠ 0 → cb.priv = some set.data.table) : FirstBucketFits c false set cb := by
  obtain ⟨hg, -⟩ := run_good h
  have hbucket : GoodBucket set.data.extensions (set.data.home jhash2) cb.arg0
      (firstBucket c set.data cb) := by
    unfold firstBucket
    split
    · rename_i h0
      rw [h0]
      unfold headSet
      split
      · exact (mtypeExpire_good c.head c.alloc hg.table).1.hbucket 0
      · exact hg.table.hbucket 0
    · rename_i h0
      rw [hpriv h0]
      exact hg.table.hbucket cb.arg0
  have hlen : (listedRecords set.data.extensions (c.bucket cb.arg0)
      (firstBucket c set.data cb)).length ≤ ahashMaxSize := by
    refine (length_filter_le _ _).trans ?_
    cases hb : firstBucket c set.data cb with
    | none => exact Nat.zero_le _
    | some n =>
      rw [hb] at hbucket
      have hrecords := length_slotRecords (n.value.take n.pos)
      have hsize : n.value.length ≤ ahashMaxSize := hbucket.size_le
      rw [length_take] at hrecords
      show (slotRecords (n.value.take n.pos)).length ≤ ahashMaxSize
      omega
  have hfront := frontLen_le set cb
  have hmax : ahashMaxSize = 12 := rfl
  have hend := foldl_elementEnd_le (x := set.data.extensions) hcomment (frontLen set cb)
    (listedRecords set.data.extensions (c.bucket cb.arg0) (firstBucket c set.data cb))
  unfold FirstBucketFits pageSize
  omega

end

theorem zero_notMem_typename : (0 : UInt8) ∉ bytes "hash:domain" := by decide

theorem length_typename : (bytes "hash:domain").length < Core.dsetMaxnamelen := by decide

/-- `hash_domain_type`, and a set of this type in the core. -/
def coreSet (data : DomainSet x64) : Core.DomainSet (DomainSet x64) :=
  let name : Core.SetName := ⟨bytes "hash:domain", zero_notMem_typename, length_typename⟩
  ⟨0, name, ⟨name, 0, 0, 4, 1⟩, 0, 0, 0, 1, data⟩

def atBucket (data : DomainSet x64) : Core.CbArgs (Htable x64) :=
  ⟨9, some ⟨.one, 0⟩, 0, some data.table, 33⟩

theorem zero_notMem_commented (i : Fin 8) : (0 : UInt8) ∉ [97, UInt8.ofNat (97 + i)] := by
  revert i
  decide

/-- Eight domains of one bucket, with comments of 255 bytes. -/
def commented : List (ℕ × Op) :=
  (finRange 8).map fun i : Fin 8 =>
    (0, .add (keyTwo 97 (UInt8.ofNat (97 + i.val)) (zero_notMem_commented i))
      { plainExt with comment := some (replicate 255 97) } plainFlags noFailure)

theorem commented_enabled {c : ℕ × Op} (hc : c ∈ commented) (set : DomainSet x64) :
    c.2.Enabled set := by
  obtain ⟨i, -, rfl⟩ := mem_map.mp hc
  trivial

/-- Seven of them are listed in one message. -/
theorem bucket_listed_commented : ∃ l set, (setSystem x64 firstByte false).Run l set ∧
    set.table.records.length = 7 ∧
    (Core.dumpMessage mtypeVariant (⟨0, 0, fun _ => true, fun _ => 0⟩ : ListCall x64).fns ⟨.one, 0⟩ 0
      (coreSet set) (atBucket set) ⟨pageSize, false, 0, []⟩).1 = .ok := by
  have htest : runOpsTest firstByte (smallSet 20 16) (commented.take 7) (fun s =>
      s.table.records.length = 7 &&
        (listedRecords s.extensions 0 (s.table.hbucket 33)).foldl (elementEnd false s.extensions)
          (frontLen (coreSet s) (atBucket s)) ≤ pageSize) = true := by decide +kernel
  obtain ⟨p, hp, hs⟩ := runOpsTest_iff.mp htest
  have hrun := run_of_runOps (.start (smallSet_init _ 20 16 rfl))
    (fun c hc => commented_enabled (mem_of_mem_take hc)) hp
  rw [Bool.and_eq_true, decide_eq_true_eq, decide_eq_true_eq] at hs
  exact ⟨_, p.2, hrun, hs.1, (bucket_listed _ _ _ _ _ _ rfl rfl).mpr hs.2⟩

/-- All eight do not fit into a page. -/
theorem bucket_not_listed :
    ¬∀ (l : List Call) (set : Core.DomainSet (DomainSet x64)),
      (setSystem x64 firstByte false).Run l set.data → ∀ (c : ListCall x64) (pad64 : Bool)
        (mode : Core.DumpMode) (index : ℕ) (cb : Core.CbArgs (Htable x64)),
        mode.listSetname = false → mode.listHeader = false →
        (cb.arg0 ≠ 0 → cb.priv = some set.data.table) →
        (Core.dumpMessage mtypeVariant c.fns mode index set cb ⟨pageSize, pad64, 0, []⟩).1 = .ok := by
  intro h
  have htest : runOpsTest firstByte (smallSet 20 16) commented (fun s =>
      decide (pageSize < (listedRecords s.extensions 0 (s.table.hbucket 33)).foldl
        (elementEnd false s.extensions) (frontLen (coreSet s) (atBucket s)))) = true := by
    decide +kernel
  obtain ⟨p, hp, hs⟩ := runOpsTest_iff.mp htest
  have hrun := run_of_runOps (.start (smallSet_init _ 20 16 rfl))
    (fun c hc => commented_enabled hc) hp
  have hok := h _ (coreSet p.2) hrun ⟨0, 0, fun _ => true, fun _ => 0⟩ false ⟨.one, 0⟩ 0
    (atBucket p.2) rfl rfl fun _ => rfl
  rw [bucket_listed _ _ _ _ _ _ rfl rfl] at hok
  exact absurd hok (not_le.mpr (of_decide_eq_true hs))

end Dset.Hash
