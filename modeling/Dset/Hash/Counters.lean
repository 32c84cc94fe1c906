import Dset.Hash.PacketSafety

/-! `domain_set_test`: a packet against a set with counters. The packet is looked up by several
keys, and the loop over them ends at the first that answers, so that at most one record is
counted. -/

namespace Dset.Hash

open Dset.Lib List

variable {A : Arch} {σ : Type}

/-! ### The keys of a packet -/

/-- The keys a packet is looked up by, as long as none answers. -/
def lookedUp (charSigned : Bool) (skb : List UInt8) (stack : HashDomainElem) :
    List HashDomainElem :=
  match hashDomainKadt charSigned skb stack true (fun e l => (0, l ++ [e])) [] with
  | .ok p => p.2
  | .error _ => []

theorem firstNonzero_collect (ks l : List HashDomainElem) :
    firstNonzero (fun e l => (0, l ++ [e])) ks l = (0, l ++ ks) := by
  induction ks generalizing l with
  | nil => rw [append_nil]; rfl
  | cons k ks ih =>
    rw [firstNonzero, if_neg (by simp), ih, append_assoc]
    rfl

/-- Copying over a shorter key leaves the key of the string that is copied. -/
theorem HashDomainElem.strncpy_zeroFrom {e : HashDomainElem} {n : ℕ} (he : e.ZeroFrom n)
    (src : List UInt8) (hsrc : n ≤ src.length) (hn : n ≤ dsetMaxDomainLen) :
    ∃ e', e.strncpy 0 src n = .ok e' ∧
      e'.domain = zeroPad dsetMaxDomainLen (cstr (src.take n)) := by
  have hle : (cstr (src.take n)).length ≤ n := by
    have := congrArg List.length (cstr_append_tail (src.take n))
    rw [length_append, length_take] at this
    omega
  have hlen : (zeroPad n (cstr (src.take n))).length = n := length_zeroPad hle
  obtain ⟨e', hw, hd⟩ := e.write_ok 0 (zeroPad n (cstr (src.take n))) (by omega)
  refine ⟨e', by rw [HashDomainElem.strncpy, Lib.strncpy, if_pos (.inl hsrc)]; exact hw, ?_⟩
  have htail : e.domain.drop n = replicate (dsetMaxDomainLen - n) 0 := by
    rw [eq_replicate_of_mem he, length_drop, e.length_domain]
  rw [hd, take_zero, nil_append, Nat.zero_add, hlen, htail, zeroPad, zeroPad, append_assoc,
    ← replicate_add]
  congr 2
  omega

theorem HashDomainElem.ZeroFrom.of_zeroPad {e : HashDomainElem} {t : List UInt8}
    (h : e.domain = zeroPad dsetMaxDomainLen t) {n : ℕ} (hn : t.length ≤ n) : e.ZeroFrom n := by
  intro b hb
  rw [h, zeroPad, drop_append, drop_of_length_le hn, nil_append] at hb
  exact eq_of_mem_replicate (mem_of_mem_drop hb)

/-- Whatever the buffer holds before its terminator, and whatever `adtfn` answers, the same keys
are looked up in the same order. -/
theorem suffixLoop_keys {name : HashDomainElem} {total : ℕ} (htotal : total ≤ dsetMaxDomainLen)
    (h0 : 0 ∈ name.domain.take total) {i : ℕ} (hi : i ≤ total) {e : HashDomainElem}
    (he : e.ZeroFrom (total - i)) :
    ∃ ks : List HashDomainElem, (∀ k ∈ ks, ZeroPadded k.domain) ∧
      ∀ (σ : Type) (adtfn : HashDomainElem → σ → ℤ × σ) (s : σ),
        suffixLoop adtfn name total i e s = .ok (firstNonzero adtfn ks s) := by
  have hname := name.length_domain
  have hpadded {e : HashDomainElem} {src : List UInt8} {n : ℕ}
      (hdomain : e.domain = zeroPad dsetMaxDomainLen (cstr (src.take n)))
      (hlen : (cstr (src.take n)).length < dsetMaxDomainLen) : ZeroPadded e.domain := by
    rw [hdomain]
    exact zeroPadded_zeroPad (zero_notMem_cstr _) hlen
  induction i generalizing e with
  | zero =>
    obtain ⟨e', hcopy, hdomain⟩ := HashDomainElem.strncpy_zeroFrom (n := total) he name.domain
      (by omega) htotal
    -- the terminator ends the whole name inside of its buffer
    have hlen : (cstr (name.domain.take total)).length < dsetMaxDomainLen := by
      have happ := congrArg List.length (cstr_append_tail (name.domain.take total))
      have htail : cstrTail (name.domain.take total) ≠ [] := by
        intro hnil
        have hself := cstr_append_tail (name.domain.take total)
        rw [hnil, append_nil] at hself
        exact zero_notMem_cstr _ (hself.symm ▸ h0)
      have hpos := length_pos_of_ne_nil htail
      rw [length_append, length_take] at happ
      omega
    refine ⟨[e'], fun k hk => ?_, fun σ adtfn s => ?_⟩
    · rw [mem_singleton.mp hk]
      exact hpadded hdomain hlen
    · rw [suffixLoop, hcopy]
      simp only [firstNonzero, bind, Except.bind]
      split
      · rfl
      · rename_i hz
        rw [← not_not.mp hz]
        rfl
  | succ i ih =>
    have hget : name.domain[i]? = some name.domain[i] := getElem?_eq_getElem (by omega)
    by_cases hdot : name.domain[i] = dot
    · obtain ⟨e', hcopy, hdomain⟩ := HashDomainElem.strncpy_zeroFrom (e := e) (n := total - i - 1)
        (he.mono (by omega)) (name.domain.drop (i + 1)) (by rw [length_drop]; omega) (by omega)
      have hle : (cstr ((name.domain.drop (i + 1)).take (total - i - 1))).length ≤ total - i - 1 := by
        have := congrArg List.length (cstr_append_tail ((name.domain.drop (i + 1)).take (total - i - 1)))
        rw [length_append, length_take] at this
        omega
      obtain ⟨ks, hks, hloop⟩ := ih (by omega) (e := e')
        (.of_zeroPad hdomain (hle.trans (by omega)))
      refine ⟨e' :: ks, fun k hk => ?_, fun σ adtfn s => ?_⟩
      · rcases mem_cons.mp hk with rfl | hk
        · exact hpadded hdomain (by omega)
        · exact hks k hk
      · rw [suffixLoop, hget]
        simp only [if_pos hdot, hcopy, firstNonzero, bind, Except.bind]
        split
        · rfl
        · exact hloop σ adtfn _
    · obtain ⟨ks, hks, hloop⟩ := ih (by omega) (e := e) (he.mono (by omega))
      refine ⟨ks, hks, fun σ adtfn s => ?_⟩
      rw [suffixLoop, hget]
      simp only [if_neg hdot]
      exact hloop σ adtfn s

/-- A packet that the code gets through is looked up by the same keys whatever they answer. -/
theorem hashDomainKadt_keys {charSigned : Bool} {skb : List UInt8} {stack : HashDomainElem}
    {adtfn : HashDomainElem → σ → ℤ × σ} {s : σ} {p : ℤ × σ}
    (h : hashDomainKadt charSigned skb stack true adtfn s = .ok p) :
    (∀ k ∈ lookedUp charSigned skb stack, ZeroPadded k.domain) ∧
      p = firstNonzero adtfn (lookedUp charSigned skb stack) s := by
  have hkeys : ∃ ks : List HashDomainElem, (∀ k ∈ ks, ZeroPadded k.domain) ∧
      ∀ (σ : Type) (adtfn : HashDomainElem → σ → ℤ × σ) (s : σ),
        hashDomainKadt charSigned skb stack true adtfn s = .ok (firstNonzero adtfn ks s) := by
    unfold hashDomainKadt at h ⊢
    obtain ⟨r, hloop, h⟩ := bind_ok h
    rw [hloop]
    match r, h with
    | none, _ => exact ⟨[], by simp, fun σ adtfn s => rfl⟩
    | some (name, total + 1), h =>
      obtain ⟨name', hw, h⟩ := bind_ok h
      have htotal : total + 1 ≤ dsetMaxDomainLen := by
        by_contra hgt
        unfold HashDomainElem.write at hw
        rw [dif_neg (by simpa using hgt)] at hw
        cases hw
      obtain ⟨name'', hw', hdomain⟩ := name.write_ok total [0] (by simpa using htotal)
      obtain rfl : name'' = name' := Except.ok.inj (hw'.symm.trans hw)
      have h0 : 0 ∈ name''.domain.take (total + 1) := by
        rw [hdomain, append_assoc, take_append, length_take, name.length_domain,
          min_eq_left (by omega)]
        simp
      have hzero : zeroElem.ZeroFrom (total + 1 - (total + 1)) := fun b hb =>
        eq_of_mem_replicate (mem_of_mem_drop hb)
      obtain ⟨ks, hks, hsuffix⟩ := suffixLoop_keys htotal h0 le_rfl hzero
      refine ⟨ks, hks, fun σ adtfn s => ?_⟩
      simp only [bind, Except.bind, hw, if_true]
      exact hsuffix σ adtfn s
  obtain ⟨ks, hks, hall⟩ := hkeys
  have hlooked : lookedUp charSigned skb stack = ks := by
    unfold lookedUp
    rw [hall, firstNonzero_collect, nil_append]
  rw [hlooked]
  exact ⟨hks, Except.ok.inj (h.symm.trans (hall σ adtfn s))⟩

/-- For complete labels these are the keys of the suffixes, the shortest first. -/
theorem lookedUp_labels (charSigned : Bool) {skb rest : List UInt8} {ls : List (List UInt8)}
    (hskb : skb.drop domainOffset = wire ls ++ 0 :: rest) (hne : ls ≠ [])
    (hls : ∀ l ∈ ls, 1 ≤ l.length ∧ l.length ≤ 63 ∧ dot ∉ l ∧ 0 ∉ l)
    (hlen : (dotted ls).length < dsetMaxDomainLen) (stack : HashDomainElem) :
    lookedUp charSigned skb stack = (suffixes ls).map fun u => nlaStrlcpy (dotted u ++ [0]) := by
  unfold lookedUp
  rw [hashDomainKadt_labels charSigned hskb hne hls hlen, firstNonzero_collect, nil_append]

/-! ### `domain_set_test` -/

/-- `struct domain_set_adt_opt`, as far as a test reads it. -/
structure DomainSetAdtOpt where
  family : ℕ
  cmdflags : CmdFlags
  returnNomatch : Bool
  ext : DomainSetExt
  deriving DecidableEq

/-- `struct sk_buff`: its bytes from `data` on, and `len`. -/
structure SkBuff where
  data : List UInt8
  len : BitVec 32
  deriving DecidableEq

def domainSetInitKext (skb : SkBuff) (opt : DomainSetAdtOpt) (set : DomainSet A) : DomainSetExt :=
  ⟨⟨0, 0, 0, 0⟩, 1, skb.len.setWidth 64, none,
    if opt.ext.timeout ≠ dsetNoTimeout then opt.ext.timeout else set.timeout, 0, 0⟩

def eagain : ℤ := 11

def enotempty : ℤ := 39

/-- The features of `hash:domain`: `DSET_TYPE_DOMAIN`. -/
def hashDomainFeatures : ℕ := 1

/-- `domain_set_test` on a set of this family; `complete` is the add it triggers on `-EAGAIN`. -/
def domainSetTest (jhash2 : HashDomainElem → BitVec 32 → BitVec 32) (jiffies : BitVec A.longBits)
    (charSigned : Bool) (stack : HashDomainElem) (family : ℕ)
    (complete : DomainSet A × DomainSetExt → DomainSet A × DomainSetExt) (skb : SkBuff)
    (opt : DomainSetAdtOpt) (set : DomainSet A) :
    Except Fault (ℤ × DomainSet A × DomainSetExt) :=
  if ¬(opt.family = family ∨ family = 0) then .ok (0, set, opt.ext)
  else do
    let adtfn := kadtTest jhash2 jiffies (domainSetInitKext skb opt set) opt.cmdflags
    let p ← hashDomainKadt charSigned skb.data stack true adtfn (set, opt.ext)
    if p.1 = -eagain then return (1, complete p.2)
    else
      let ret := if opt.returnNomatch && hashDomainFeatures.testBit 2 &&
          (0 < p.1 || p.1 = -enotempty) then -p.1 else p.1
      return (if ret < 0 then 0 else ret, p.2)

/-- A record behind a packet of this length. -/
def Record.count (r : Record A) (len : BitVec 32) (flags : CmdFlags) : Record A :=
  if flags.skipCounterUpdate then r
  else { r with counter := ⟨r.counter.bytes + len.setWidth 64, r.counter.packets + 1⟩ }

/-- One record is counted: that of the first of the keys at which `mtype_test` answers. -/
structure CountsOne (jhash2 : HashDomainElem → BitVec 32 → BitVec 32) (jiffies : BitVec A.longBits)
    (ext : DomainSetExt) (opt : DomainSetAdtOpt) (len : BitVec 32) (ks : List HashDomainElem)
    (set set' : DomainSet A) (k : HashDomainElem) : Prop where
  first : ∃ before after, ks = before ++ k :: after ∧
    (∀ k' ∈ before, (mtypeTest jhash2 jiffies set k' ext opt.ext opt.cmdflags).1 = false) ∧
    (mtypeTest jhash2 jiffies set k ext opt.ext opt.cmdflags).1 = true
  record : ∃ r kept, set.table.records ~ r :: kept ∧
    set'.table.records ~ r.count len opt.cmdflags :: kept ∧ r.elem = k ∧ (∀ q ∈ kept, q.elem ≠ k) ∧
    extensionsMatch set.extensions jiffies opt.ext opt.cmdflags r = true

section
variable {jhash2 : HashDomainElem → BitVec 32 → BitVec 32} {set : DomainSet A}

/-- Counting a packet, which is never the value that stands for none. -/
theorem domainSetUpdateCounter_kext (skb : SkBuff) (opt : DomainSetAdtOpt) (r : Record A) :
    { r with counter :=
        domainSetUpdateCounter r.counter (domainSetInitKext skb opt set) opt.cmdflags } =
      r.count skb.len opt.cmdflags := by
  have hpackets : ((domainSetInitKext skb opt set).packets != ullongMax) = true := by
    show ((1 : BitVec 64) != ullongMax) = true
    decide
  unfold domainSetUpdateCounter Record.count
  rw [hpackets]
  cases opt.cmdflags.skipCounterUpdate <;> rfl

/-- A record that matches, in a set with counters. -/
theorem domainSetMatchExtensions_count {x : Extensions} (hx : x.counter = true)
    {jiffies : BitVec A.longBits} {skb : SkBuff} {opt : DomainSetAdtOpt} {r r' : Record A}
    {mext : DomainSetExt}
    (h : domainSetMatchExtensions x jiffies (domainSetInitKext skb opt set) opt.ext opt.cmdflags r =
      some (r', mext)) : r' = r.count skb.len opt.cmdflags := by
  unfold domainSetMatchExtensions at h
  split at h
  · cases h
  split at h
  · cases h
  · obtain ⟨heq, -⟩ := Prod.mk.inj (Option.some.inj h)
    exact heq.symm.trans (domainSetUpdateCounter_kext skb opt r)

/-- Lookups one after the other change nothing before one answers, and this one counts. -/
theorem firstNonzero_counts (h : set.table.Good set.extensions (set.home jhash2))
    (hx : set.withCounter = true) (jiffies : BitVec A.longBits) (skb : SkBuff)
    (opt : DomainSetAdtOpt) (ks : List HashDomainElem) (hks : ∀ k ∈ ks, ZeroPadded k.domain)
    {p : ℤ × DomainSet A × DomainSetExt}
    (hp : p = firstNonzero (kadtTest jhash2 jiffies (domainSetInitKext skb opt set) opt.cmdflags) ks
      (set, opt.ext)) :
    p.1 = 0 ∧ p.2.1 = set ∨ p.1 = 1 ∧
      ∃ k, CountsOne jhash2 jiffies (domainSetInitKext skb opt set) opt skb.len ks set p.2.1 k := by
  induction ks generalizing p with
  | nil =>
    rw [hp]
    exact .inl ⟨rfl, rfl⟩
  | cons k ks ih =>
    have hres := mtypeTest_result jiffies h (hks k mem_cons_self) (domainSetInitKext skb opt set)
      opt.ext opt.cmdflags
    rw [firstNonzero] at hp
    unfold kadtTest at hp
    simp only at hp
    cases hans : (mtypeTest jhash2 jiffies set k (domainSetInitKext skb opt set) opt.ext
      opt.cmdflags).1 with
    | false =>
      have hsame : (mtypeTest jhash2 jiffies set k (domainSetInitKext skb opt set) opt.ext
          opt.cmdflags).2 = (set, opt.ext) := by
        revert hres hans
        generalize mtypeTest jhash2 jiffies set k (domainSetInitKext skb opt set) opt.ext
          opt.cmdflags = q
        obtain ⟨b, s, m⟩ := q
        intro hres hans
        cases hres with
        | missing => rfl
        | found => cases hans
      rw [hans, hsame] at hp
      simp only [Bool.false_eq_true, if_false, ne_eq, not_true] at hp
      rcases ih (fun k hk => hks k (mem_cons_of_mem _ hk)) hp with hnone | ⟨hone, k', hk'⟩
      · exact .inl hnone
      · obtain ⟨before, after, rfl, hbefore, hfound⟩ := hk'.first
        refine .inr ⟨hone, k', ⟨⟨k :: before, after, rfl, fun q hq => ?_, hfound⟩, hk'.record⟩⟩
        rcases mem_cons.mp hq with rfl | hq
        · exact hans
        · exact hbefore q hq
    | true =>
      rw [hans] at hp
      simp only [if_true, ne_eq, one_ne_zero, not_false_eq_true] at hp
      subst hp
      refine .inr ⟨rfl, k, ⟨⟨[], ks, rfl, by simp, hans⟩, ?_⟩⟩
      revert hres hans
      generalize mtypeTest jhash2 jiffies set k (domainSetInitKext skb opt set) opt.ext
        opt.cmdflags = q
      obtain ⟨b, s, m⟩ := q
      intro hres hans
      cases hres with
      | missing => cases hans
      | found r r' kept _ _ hold hnew helem hkept hmatch =>
        obtain rfl := domainSetMatchExtensions_count hx hmatch
        refine ⟨r, kept, hold, hnew, helem, hkept, ?_⟩
        rw [← domainSetMatchExtensions_isSome set.extensions jiffies
          (domainSetInitKext skb opt set), hmatch]
        rfl

/-- A packet against a set with counters: without a match nothing changes, with a match the
record of the first key that answers is counted, and nothing else changes. -/
theorem domain_set_test_counts {forceadd : Bool} {l : List Call}
    (hrun : (setSystem A jhash2 forceadd).Run l set) (hx : set.withCounter = true)
    {jiffies : BitVec A.longBits} {charSigned : Bool} {stack : HashDomainElem} {family : ℕ}
    {complete : DomainSet A × DomainSetExt → DomainSet A × DomainSetExt} {skb : SkBuff}
    {opt : DomainSetAdtOpt} {ret : ℤ} {set' : DomainSet A} {ext' : DomainSetExt}
    (h : domainSetTest jhash2 jiffies charSigned stack family complete skb opt set =
      .ok (ret, set', ext')) :
    (ret = 0 → set' = set) ∧
    (ret ≠ 0 → ∃ k, CountsOne jhash2 jiffies (domainSetInitKext skb opt set) opt skb.len
      (lookedUp charSigned skb.data stack) set set' k) := by
  unfold domainSetTest at h
  split at h
  · obtain ⟨rfl, heq⟩ := Prod.mk.inj (Except.ok.inj h)
    obtain ⟨rfl, -⟩ := Prod.mk.inj heq
    exact ⟨fun _ => rfl, fun hne => absurd rfl hne⟩
  · obtain ⟨p, hkadt, h⟩ := bind_ok h
    obtain ⟨hpadded, hp⟩ := hashDomainKadt_keys hkadt
    have hcounts := firstNonzero_counts (run_good hrun).1.table hx jiffies skb opt _ hpadded hp
    have hfeature : hashDomainFeatures.testBit 2 = false := by decide
    rcases hcounts with ⟨hzero, hset⟩ | ⟨hone, hcount⟩
    · rw [hzero, if_neg (by decide), hfeature] at h
      simp only [Bool.and_false, Bool.false_and, Bool.false_eq_true, if_false, lt_irrefl] at h
      obtain ⟨rfl, heq⟩ := Prod.mk.inj (Except.ok.inj h)
      refine ⟨fun _ => ?_, fun hne => absurd rfl hne⟩
      rw [← hset, heq]
    · rw [hone, if_neg (by decide), hfeature] at h
      simp only [Bool.and_false, Bool.false_and, Bool.false_eq_true, if_false] at h
      obtain ⟨rfl, heq⟩ := Prod.mk.inj (Except.ok.inj h)
      refine ⟨fun hzero => absurd hzero (by decide), fun _ => ?_⟩
      rw [heq] at hcount
      exact hcount

end

/-! ### The packet of `b.a` -/

def packetBA : SkBuff := ⟨replicate 40 0 ++ [1, 98, 1, 97, 0], 45⟩

def plainOpt : DomainSetAdtOpt := ⟨2, plainFlags, false, plainExt⟩

theorem packetBA_wire : packetBA.data.drop domainOffset = wire [[98], [97]] ++ 0 :: [] := by
  decide

theorem lookedUp_packetBA : lookedUp true packetBA.data zeroElem =
    [nlaStrlcpy (dotted [[97]] ++ [0]), nlaStrlcpy (dotted [[98], [97]] ++ [0])] :=
  (lookedUp_labels true packetBA_wire (by simp) (by decide) (by decide) zeroElem).trans
    (by decide +kernel)

/-- A test of this packet returns what the lookups of its keys return. -/
theorem domainSetTest_packetBA (set : DomainSet x64) {p : ℤ × DomainSet x64 × DomainSetExt}
    (hp : firstNonzero (kadtTest firstByte (jiffiesAt x64 0)
      (domainSetInitKext packetBA plainOpt set) plainFlags)
      [nlaStrlcpy (dotted [[97]] ++ [0]), nlaStrlcpy (dotted [[98], [97]] ++ [0])]
      (set, plainExt) = p) (hone : p.1 = 1) :
    domainSetTest firstByte (jiffiesAt x64 0) true zeroElem 0 id packetBA plainOpt set =
      .ok (1, p.2.1, p.2.2) := by
  have hkadt := hashDomainKadt_labels true packetBA_wire (by simp) (by decide) (by decide) zeroElem
    (kadtTest firstByte (jiffiesAt x64 0) (domainSetInitKext packetBA plainOpt set) plainFlags)
    (set, plainExt)
  rw [← lookedUp_labels true packetBA_wire (by simp) (by decide) (by decide) zeroElem,
    lookedUp_packetBA, hp] at hkadt
  unfold domainSetTest
  rw [if_neg (by decide)]
  show (hashDomainKadt true packetBA.data zeroElem true _ (set, plainExt) >>= _) = _
  rw [show plainOpt.cmdflags = plainFlags from rfl, hkadt]
  obtain ⟨ret, s⟩ := p
  obtain rfl : ret = 1 := hone
  rfl

/-- The packet of `b.a` against a set with counters that holds the key `a`. -/
theorem domain_set_test_counts_parent : ∃ (l : List Call) (set set' : DomainSet x64) (k : HashDomainElem),
    (setSystem x64 firstByte false).Run l set ∧
    CountsOne firstByte (jiffiesAt x64 0) (domainSetInitKext packetBA plainOpt set) plainOpt
      packetBA.len (lookedUp true packetBA.data zeroElem) set set' k := by
  have htest : runOpsTest firstByte (smallSet 2 8) [(0, .add keyA plainExt plainFlags noFailure)]
      (fun set => set.withCounter && decide ((firstNonzero (kadtTest firstByte (jiffiesAt x64 0)
        (domainSetInitKext packetBA plainOpt set) plainFlags)
        [nlaStrlcpy (dotted [[97]] ++ [0]), nlaStrlcpy (dotted [[98], [97]] ++ [0])]
        (set, plainExt)).1 = 1)) = true := by
    decide +kernel
  obtain ⟨p, hp, hone⟩ := runOpsTest_iff.mp htest
  have hrun := run_of_runOps (.start (smallSet_init firstByte 2 8 (by decide)))
    (by simp [Op.Enabled]) hp
  rw [Bool.and_eq_true, decide_eq_true_eq] at hone
  obtain ⟨hx, hone⟩ := hone
  obtain ⟨-, hcount⟩ := domain_set_test_counts hrun hx (domainSetTest_packetBA p.2 rfl hone)
  obtain ⟨k, hk⟩ := hcount (by decide)
  exact ⟨_, _, _, k, hrun, hk⟩

end Dset.Hash
