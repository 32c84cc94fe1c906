import Dset.Hash.ListRun

/-! A message of a dump. The first one of a set begins with its header and pins its table, every
one goes on with the elements from the cursor on, and where the last bucket is written the session
moves on to the next set. -/

namespace Dset.Hash

open Dset.Lib List

variable {A : Arch}

/-! ### Headers -/

def isHeader : Core.Attr → Bool
  | .typename _ => true
  | _ => false

/-- The message has the header of a set. -/
def beginsSet (l : List Core.Attr) : Bool := l.any isHeader

/-- The buffer has got attributes, none of them a header. -/
structure Fills (skb skb' : Core.Skb) : Prop where
  len : skb.len ≤ skb'.len
  begins : beginsSet skb'.attrs = beginsSet skb.attrs

theorem put_len_le {skb skb' : Core.Skb} {a : Core.Attr} (h : skb.put a = some skb') :
    skb.len ≤ skb'.len := by
  unfold Core.Skb.put at h
  split at h
  · obtain rfl := Option.some.inj h
    exact Nat.le_add_right _ _
  · cases h

theorem putAll_len_le (skb : Core.Skb) (l : List Core.Attr) : skb.len ≤ (skb.putAll l).2.len := by
  induction l generalizing skb with
  | nil => exact le_rfl
  | cons a l ih =>
    unfold Core.Skb.putAll
    split
    · exact le_rfl
    · rename_i skb1 hput
      exact (put_len_le hput).trans (ih skb1)

/-- What fits is behind the attributes that were there. -/
theorem putAll_fits {skb skb' : Core.Skb} {l : List Core.Attr} (h : skb.putAll l = (true, skb')) :
    skb'.attrs = skb.attrs ++ l := by
  obtain ⟨l', -, hattrs, hall⟩ := skb.putAll_attrs l
  rw [h] at hattrs hall
  rw [hattrs, hall rfl]

theorem beginsSet_append (l l' : List Core.Attr) :
    beginsSet (l ++ l') = (beginsSet l || beginsSet l') := any_append

theorem beginsSet_ite {b : Prop} [Decidable b] {l : List Core.Attr} (h : beginsSet l = false) :
    beginsSet (if b then l else []) = false := by
  split
  · exact h
  · rfl

namespace Fills

variable {skb skb' skb'' : Core.Skb}

theorem refl (skb : Core.Skb) : Fills skb skb := ⟨le_rfl, rfl⟩

theorem trans (h : Fills skb skb') (h' : Fills skb' skb'') : Fills skb skb'' :=
  ⟨h.len.trans h'.len, h'.begins.trans h.begins⟩

theorem put {a : Core.Attr} (ha : isHeader a = false) (h : skb.put a = some skb') :
    Fills skb skb' := by
  refine ⟨put_len_le h, ?_⟩
  rw [Core.Skb.put_attrs h]
  simp [beginsSet, ha]

theorem putAll (skb : Core.Skb) {l : List Core.Attr} (hl : beginsSet l = false) :
    Fills skb (skb.putAll l).2 := by
  refine ⟨putAll_len_le skb l, ?_⟩
  obtain ⟨l', hprefix, hattrs, -⟩ := skb.putAll_attrs l
  have hl' : beginsSet l' = false := by
    obtain ⟨l'', rfl⟩ := hprefix
    rw [beginsSet_append, Bool.or_eq_false_iff] at hl
    exact hl.1
  rw [hattrs, beginsSet_append, hl', Bool.or_false]

theorem nestEnd : Fills skb skb.nestEnd := ⟨le_rfl, by simp [beginsSet, Core.Skb.nestEnd, isHeader]⟩

end Fills

theorem beginsSet_extensions (x : Extensions) (jiffies : BitVec A.longBits) (r : Record A) :
    beginsSet (domainSetPutExtensions x jiffies r) = false := by
  have hcomment : beginsSet (r.comment.toList.map fun c => .comment c.str) = false := by
    cases r.comment <;> rfl
  have hskbinfo : beginsSet (domainSetPutSkbinfo r.skbinfo) = false := by
    unfold domainSetPutSkbinfo
    rw [beginsSet_append, beginsSet_append, beginsSet_ite rfl, beginsSet_ite rfl,
      beginsSet_ite rfl]
    rfl
  unfold domainSetPutExtensions
  rw [beginsSet_append, beginsSet_append, beginsSet_append, beginsSet_ite rfl, beginsSet_ite rfl,
    beginsSet_ite hcomment, beginsSet_ite hskbinfo]
  rfl

theorem listSlots_fills {x : Extensions} {jiffies : BitVec A.longBits} {skb skb' : Core.Skb}
    {l : List (Slot A)} (h : listSlots x jiffies skb l = .listed skb') : Fills skb skb' := by
  induction l generalizing skb with
  | nil =>
    obtain rfl := BucketEnd.listed.inj h
    exact .refl _
  | cons s l ih =>
    rw [listSlots] at h
    split at h
    · exact ih h
    split at h
    · exact ih h
    split at h
    · cases h
    · rename_i skb1 hdata
      have hall := Fills.putAll skb1
        (l := .domain s.data.elem.domain :: domainSetPutExtensions x jiffies s.data)
        (beginsSet_extensions x jiffies s.data)
      generalize skb1.putAll _ = p at h hall
      obtain ⟨fits, skb2⟩ := p
      cases fits with
      | false => cases h
      | true => exact (((Fills.put rfl hdata).trans hall).trans .nestEnd).trans (ih h)

theorem listBuckets_fills (x : Extensions) (jiffies : ℕ → BitVec A.longBits) (first : ℕ)
    {atd skb : Core.Skb} (l : List (Option (Hbucket A))) (i : ℕ) (h : Fills atd skb) :
    Fills atd (listBuckets x jiffies first atd l i skb).2.2 := by
  induction l generalizing i skb with
  | nil => exact h.trans .nestEnd
  | cons o l ih =>
    cases o with
    | none => exact ih (i + 1) h
    | some n =>
      rw [listBuckets]
      split
      · rename_i skb' hslots
        exact ih (i + 1) (h.trans (listSlots_fills hslots))
      · split
        · exact .refl atd
        · exact h.trans .nestEnd
      · split
        · exact h
        · exact h.trans .nestEnd

theorem mtypeList_fills (jiffies : ℕ → BitVec A.longBits) (set : Core.DomainSet (DomainSet A))
    (cb : Core.CbArgs (Htable A)) (skb : Core.Skb) :
    Fills skb (mtypeList jiffies set cb skb).2.2 := by
  unfold mtypeList
  split
  · exact .refl skb
  · rename_i body hput
    exact listBuckets_fills _ _ _ _ _ (Fills.put rfl hput)

/-! ### The front of a message -/

theorem beginsSet_coreHeader (proto index : ℕ) (set : Core.DomainSet (DomainSet A)) :
    beginsSet (Core.coreHeader proto index set) = true := by
  unfold Core.coreHeader
  rw [beginsSet_append]
  rfl

theorem attrDomains_coreHeader (proto index : ℕ) (set : Core.DomainSet (DomainSet A)) :
    attrDomains (Core.coreHeader proto index set) = [] := by
  unfold Core.coreHeader
  rw [attrDomains_append]
  split <;> rfl

theorem beginsSet_headAttrs (sizeofHtype ref : ℕ) (set : DomainSet A) :
    beginsSet (headAttrs sizeofHtype ref set) = false := by
  unfold headAttrs domainSetPutFlags
  rw [beginsSet_append, beginsSet_append, beginsSet_ite rfl]
  split <;> rfl

theorem attrDomains_headAttrs (sizeofHtype ref : ℕ) (set : DomainSet A) :
    attrDomains (headAttrs sizeofHtype ref set) = [] := by
  unfold headAttrs domainSetPutFlags
  rw [attrDomains_append, attrDomains_append]
  split <;> split <;> rfl

theorem mtypeHead_ok {c : ListCall A} {set : Core.DomainSet (DomainSet A)} {skb skb' : Core.Skb}
    {ret : Ret} {data : DomainSet A} (h : c.fns.head set skb = (ret, data, skb')) :
    data = headSet c.head c.alloc set.data ∧ (ret = .ok → Fills skb skb' ∧
      attrDomains skb'.attrs = attrDomains skb.attrs) := by
  have h : mtypeHead c.sizeofHtype c.head c.alloc set skb = (ret, data, skb') := h
  unfold mtypeHead at h
  generalize headSet c.head c.alloc set.data = data0 at h ⊢
  have hfills := Fills.putAll skb (beginsSet_headAttrs c.sizeofHtype set.ref data0)
  rcases hput : skb.putAll (headAttrs c.sizeofHtype set.ref data0) with ⟨fits, skb1⟩
  simp only [hput] at h hfills
  cases fits with
  | false =>
    cases h
    exact ⟨rfl, fun hret => Ret.noConfusion hret⟩
  | true =>
    cases h
    refine ⟨rfl, fun _ => ⟨hfills.trans .nestEnd, ?_⟩⟩
    rw [attrDomains_nestEnd, putAll_fits hput, attrDomains_append, attrDomains_headAttrs,
      append_nil]

/-- What `mtype_uref` and the cursor make of the arguments when a message lists a set. -/
def listedCb (mode : Core.DumpMode) (cb : Core.CbArgs (Htable A)) (data : DomainSet A) (arg0 : ℕ) :
    Core.CbArgs (Htable A) :=
  let cb := { cb with priv := if cb.arg0 = 0 then some data.table else cb.priv, arg0 := arg0 }
  if arg0 = 0 then Core.nextSet mode cb else cb

section
variable {mode : Core.DumpMode} (cb : Core.CbArgs (Htable A)) (data : DomainSet A) (arg0 : ℕ)

theorem listedCb_dump : (listedCb mode cb data arg0).dump = cb.dump := by
  unfold listedCb
  dsimp only
  split <;> rfl

theorem listedCb_index :
    (listedCb mode cb data arg0).index =
      if arg0 = 0 then if mode.type = .one then Core.dsetInvalidId else cb.index + 1
      else cb.index := by
  unfold listedCb
  dsimp only
  split <;> rfl

theorem listedCb_priv :
    (listedCb mode cb data arg0).priv = if cb.arg0 = 0 then some data.table else cb.priv := by
  unfold listedCb
  dsimp only
  split <;> rfl

end

/-- A message of a full listing: the header belongs to the first one of a set, `mtype_list` writes
the rest, behind attributes without a domain. -/
structure Dumped (c : ListCall A) (mode : Core.DumpMode) (set : Core.DomainSet (DomainSet A))
    (cb cb' : Core.CbArgs (Htable A)) (data : DomainSet A) (skb : Core.Skb) : Prop where
  found : data = if cb.arg0 = 0 then headSet c.head c.alloc set.data else set.data
  cursor : cb' = listedCb mode cb data cb'.arg0
  list : ∃ body, attrDomains body.attrs = [] ∧
    mtypeList c.bucket { set with data := data }
      { cb with priv := if cb.arg0 = 0 then some data.table else cb.priv } body =
        (.ok, cb'.arg0, skb)
  begins : beginsSet skb.attrs = decide (cb.arg0 = 0)
  len : skb.len ≠ 0

variable {c : ListCall A} {mode : Core.DumpMode} {set : Core.DomainSet (DomainSet A)}
  {cb cb' : Core.CbArgs (Htable A)}

theorem dumpList_listed {data : DomainSet A} {body skb : Core.Skb}
    (h : Core.dumpList c.fns mode { set with data := data }
      { cb with priv := if cb.arg0 = 0 then some data.table else cb.priv } body = (.ok, cb', skb)) :
    cb' = listedCb mode cb data cb'.arg0 ∧
      mtypeList c.bucket { set with data := data }
        { cb with priv := if cb.arg0 = 0 then some data.table else cb.priv } body =
          (.ok, cb'.arg0, skb) ∧ Fills body skb := by
  have hfills := mtypeList_fills c.bucket { set with data := data }
    { cb with priv := if cb.arg0 = 0 then some data.table else cb.priv } body
  unfold Core.dumpList at h
  simp only [show c.fns.list = mtypeList c.bucket from rfl] at h
  generalize mtypeList c.bucket _ _ body = r at h hfills ⊢
  obtain ⟨ret, arg0, skb1⟩ := r
  unfold listedCb
  split at h
  · rename_i hzero
    cases h
    obtain rfl : arg0 = 0 := hzero
    exact ⟨by simp [Core.nextSet], rfl, hfills⟩
  · rename_i hne
    cases h
    exact ⟨by simp [show ¬arg0 = 0 from hne], rfl, hfills⟩

/-- What a call of `domain_set_dump_start` for a set makes of its arguments and its buffer, when
it does not fail. -/
theorem dumpMessage_dumped (hset : mode.listSetname = false) (hheader : mode.listHeader = false)
    {index : ℕ} {data : DomainSet A} {skb skb' : Core.Skb} (hempty : skb.attrs = [])
    (h : Core.dumpMessage mtypeVariant c.fns mode index set cb skb = (.ok, cb', data, skb')) :
    Dumped c mode set cb cb' data skb' := by
  unfold Core.dumpMessage at h
  split at h
  · cases h
  rename_i skb1 hstart
  have hskb1 : 20 ≤ skb1.len ∧ skb1.attrs = [] := by
    unfold Core.startMsg at hstart
    split at hstart
    · obtain rfl := Option.some.inj hstart
      exact ⟨Nat.le_add_left _ _, hempty⟩
    · cases hstart
  have hfills2 := Fills.putAll skb1
    (l := [.protocol cb.proto, .setname set.name.text]) rfl
  rcases hput : skb1.putAll [.protocol cb.proto, .setname set.name.text] with ⟨fits, skb2⟩
  rw [hput] at h hfills2
  cases fits with
  | false => cases h
  | true =>
    have hattrs2 := putAll_fits hput
    rw [hskb1.2, nil_append] at hattrs2
    have hlen2 : 20 ≤ skb2.len := hskb1.1.trans hfills2.len
    simp only [Bool.not_true, Bool.false_eq_true, if_false, hset] at h
    split at h
    · rename_i hzero
      unfold Core.dumpHeader at h
      rcases hcore : skb2.putAll (Core.coreHeader cb.proto index set) with ⟨fits, skb3⟩
      simp only [hcore] at h
      cases fits with
      | false => cases h
      | true =>
        have hattrs3 := putAll_fits hcore
        have hlen3 : 20 ≤ skb3.len := by
          have hle := putAll_len_le skb2 (Core.coreHeader cb.proto index set)
          rw [hcore] at hle
          exact hlen2.trans hle
        simp only [Bool.not_true, Bool.false_eq_true, if_false, hheader] at h
        rcases hhead : c.fns.head set skb3 with ⟨ret, data1, skb4⟩
        obtain ⟨hdata, hfits⟩ := mtypeHead_ok hhead
        simp only [hhead] at h
        split at h
        · rename_i hret
          exact absurd (Prod.mk.inj h).1 hret
        rename_i hret
        obtain ⟨hfills4, hdomains4⟩ := hfits (not_not.mp hret)
        rcases hlist : Core.dumpList c.fns mode { set with data := data1 }
          (Core.urefStart mtypeVariant data1 cb) skb4 with ⟨ret, cb1, skb5⟩
        simp only [hlist] at h
        cases h
        have hlist' : Core.dumpList c.fns mode { set with data := data }
            { cb with priv := if cb.arg0 = 0 then some data.table else cb.priv } skb4 =
              (.ok, cb', skb') := by
          rw [if_pos hzero]
          exact hlist
        obtain ⟨hcursor, hmtype, hfills⟩ := dumpList_listed hlist'
        refine ⟨by rw [if_pos hzero, hdata], hcursor, ⟨skb4, ?_, hmtype⟩, ?_, ?_⟩
        · rw [hdomains4, hattrs3, attrDomains_append, hattrs2, attrDomains_coreHeader]
          rfl
        · rw [hfills.begins, hfills4.begins, hattrs3, beginsSet_append, beginsSet_coreHeader,
            Bool.or_true, decide_eq_true hzero]
        · have hle := hfills4.len.trans hfills.len
          omega
    · rename_i hne
      rcases hlist : Core.dumpList c.fns mode set cb skb2 with ⟨ret, cb1, skb3⟩
      simp only [hlist] at h
      cases h
      have hlist' : Core.dumpList c.fns mode { set with data := set.data }
          { cb with priv := if cb.arg0 = 0 then some set.data.table else cb.priv } skb2 =
            (.ok, cb', skb') := by
        rw [if_neg hne]
        exact hlist
      obtain ⟨hcursor, hmtype, hfills⟩ := dumpList_listed hlist'
      refine ⟨(if_neg hne).symm, hcursor, ⟨skb2, ?_, hmtype⟩, ?_, ?_⟩
      · rw [hattrs2]
        rfl
      · rw [hfills.begins, hattrs2, decide_eq_false hne]
        rfl
      · have hle := hfills.len
        omega

/-- A message leaves the set alone, or it takes the expired elements away. -/
theorem dumpMessage_data (c : ListCall A) (mode : Core.DumpMode) (index : ℕ)
    (set : Core.DomainSet (DomainSet A)) (cb : Core.CbArgs (Htable A)) (skb : Core.Skb) :
    (Core.dumpMessage mtypeVariant c.fns mode index set cb skb).2.2.1 = set.data ∨
      (Core.dumpMessage mtypeVariant c.fns mode index set cb skb).2.2.1 =
        headSet c.head c.alloc set.data := by
  unfold Core.dumpMessage
  split
  · exact .inl rfl
  rename_i skb1 _
  rcases skb1.putAll [.protocol cb.proto, .setname set.name.text] with ⟨fits, skb2⟩
  dsimp only
  split
  · exact .inl rfl
  split
  · exact .inl rfl
  split
  · unfold Core.dumpHeader
    rcases skb2.putAll (Core.coreHeader cb.proto index set) with ⟨fits, skb3⟩
    have hdata : (c.fns.head set skb3).2.1 = headSet c.head c.alloc set.data :=
      (mtypeHead_ok (show c.fns.head set skb3 = _ from rfl)).1
    dsimp only
    split
    · exact .inl rfl
    split
    · exact .inr hdata
    split
    · exact .inr hdata
    · exact .inr hdata
  · exact .inl rfl

/-! ### The steps of a session -/

section
variable {inst : Core.DomainSetNet (DomainSet A)} {p : Core.Session (Htable A)} {i : ℕ}

theorem dumpPut_inv {index : ℕ} {inst' : Core.DomainSetNet (DomainSet A)}
    {p' : Core.Session (Htable A)} {events : List Core.DumpEvent}
    (h : Core.dumpPut mtypeVariant inst p index = .ok (inst', p', events)) :
    p' = { p with cb := { p.cb with priv := none }, started := none } ∧
      (∃ id, events = [.release id]) ∧ ∃ t, inst.domainSet index = some t ∧
        inst' = inst.setSlot index (some { t with refNetlink := t.refNetlink - 1 }) := by
  unfold Core.dumpPut at h
  split at h
  · cases h
  · rename_i t ht
    obtain ⟨t', hput, h⟩ := bind_ok h
    cases h
    unfold Core.putNetlink at hput
    split at hput
    · cases hput
    · cases hput
      exact ⟨rfl, ⟨_, rfl⟩, t, ht, rfl⟩

/-- The steps of a session but its message leave the data of all sets alone. -/
theorem dumpScan_data {max : ℕ} {b : Bool} {set' : Core.DomainSet (DomainSet A)}
    (h : (Core.dumpScan mtypeVariant inst p mode max b).1.domainSet i = some set') :
    ∃ set, inst.domainSet i = some set ∧ set'.data = set.data := by
  unfold Core.dumpScan at h
  split at h
  · split at h
    · split at h
      · exact ⟨set', h, rfl⟩
      · split at h <;> exact ⟨set', h, rfl⟩
    · rename_i t ht
      split at h
      · split at h <;> exact ⟨set', h, rfl⟩
      split at h
      · exact ⟨set', h, rfl⟩
      split at h
      · rw [Core.DomainSetNet.domainSet_setSlot (Core.DomainSetNet.domainSet_lt ht)] at h
        split at h
        · rename_i heq
          cases h
          exact ⟨t, heq ▸ ht, rfl⟩
        · exact ⟨set', h, rfl⟩
      · exact ⟨set', h, rfl⟩
  · split at h <;> exact ⟨set', h, rfl⟩

theorem dumpRelease_data {index : ℕ} {ret : Ret} {skb : Core.Skb}
    {inst' : Core.DomainSetNet (DomainSet A)} {p' : Core.Session (Htable A)}
    {events : List Core.DumpEvent}
    (hrelease : Core.dumpRelease mtypeVariant inst p index ret skb = .ok (inst', p', events))
    {set' : Core.DomainSet (DomainSet A)} (h : inst'.domainSet i = some set') :
    ∃ set, inst.domainSet i = some set ∧ set'.data = set.data := by
  unfold Core.dumpRelease at hrelease
  split at hrelease
  · obtain ⟨⟨inst1, p1, events1⟩, hput, hrelease⟩ := bind_ok hrelease
    obtain ⟨-, -, t, ht, hinst⟩ := dumpPut_inv hput
    cases hrelease
    rw [hinst, Core.DomainSetNet.domainSet_setSlot (Core.DomainSetNet.domainSet_lt ht)] at h
    split at h
    · rename_i heq
      cases h
      exact ⟨t, heq ▸ ht, rfl⟩
    · exact ⟨set', h, rfl⟩
  · cases hrelease
    exact ⟨set', h, rfl⟩

theorem skips_iff {type : Core.DomainSetType} : mode.skips type = true ↔
    mode.type ≠ .one ∧ (mode.type = .all ↔ type.dumpLast = true) := by
  unfold Core.DumpMode.skips
  exact decide_eq_true_iff

end

end Dset.Hash
