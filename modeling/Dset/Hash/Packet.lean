import Dset.Hash.Machine
import Dset.Hash.Uadt
import Dset.Lib.Labels

/-! `hash_domain_kadt`: the name in a packet against the set. The labels are
copied into a buffer on the stack, dots between them, and every suffix behind a
dot is looked up, the shortest first, then the whole name. Accesses outside of
the packet and of the buffers are faults. -/

namespace Dset.Hash

open Dset.Lib List

variable {A : Arch} {σ : Type}

def domainOffset : ℕ := 40

/-- The value of a `char`, which is signed or not by the machine. -/
def charValue (charSigned : Bool) (b : UInt8) : ℤ :=
  if charSigned && 128 ≤ b.toNat then (b.toNat : ℤ) - 256 else b.toNat

def HashDomainElem.write (b : HashDomainElem) (off : ℕ) (bytes : List UInt8) :
    Except Fault HashDomainElem :=
  if h : off + bytes.length ≤ dsetMaxDomainLen then
    .ok ⟨b.domain.take off ++ bytes ++ b.domain.drop (off + bytes.length), by
      have := b.length_domain
      simp only [length_append, length_take, length_drop]
      omega⟩
  else .error .outOfBounds

def HashDomainElem.strncpy (b : HashDomainElem) (off : ℕ) (src : List UInt8) (n : ℕ) :
    Except Fault HashDomainElem :=
  match Lib.strncpy src n with
  | none => .error .outOfBounds
  | some bytes => b.write off bytes

/-- The loop over the labels: `doamin_name` and `total_length` behind it, or
nothing when the name does not fit. -/
def labelLoop (charSigned : Bool) (name : HashDomainElem) (total : ℕ) :
    List UInt8 → Except Fault (Option (HashDomainElem × ℕ))
  | [] => .error .outOfBounds
  | b :: packet =>
    let labelLength := charValue charSigned b
    if labelLength = 0 then .ok (some (name, total))
    else if (dsetMaxDomainLen : ℤ) ≤ total + labelLength then .ok none
    -- a negative length is a huge `size_t`
    else if labelLength < 0 then .error .outOfBounds
    else do
      let name ← name.strncpy total packet labelLength.toNat
      let total := total + labelLength.toNat
      let name ← name.write total [dot]
      labelLoop charSigned name (total + 1) (packet.drop labelLength.toNat)
termination_by packet => packet.length

/-- The loop over the buffer from position `i - 1` down, with the last call. -/
def suffixLoop (adtfn : HashDomainElem → σ → ℤ × σ) (name : HashDomainElem) (total : ℕ) :
    ℕ → HashDomainElem → σ → Except Fault (ℤ × σ)
  | 0, e, s => do
    let e ← e.strncpy 0 name.domain total
    return adtfn e s
  | i + 1, e, s =>
    match name.domain[i]? with
    | none => .error .outOfBounds
    | some c =>
      if c = dot then do
        let e ← e.strncpy 0 (name.domain.drop (i + 1)) (total - i - 1)
        let p := adtfn e s
        if p.1 ≠ 0 then return p else suffixLoop adtfn name total i e p.2
      else suffixLoop adtfn name total i e s

/-- `hash_domain_kadt`; `stack` is what `doamin_name` holds before. -/
def hashDomainKadt (charSigned : Bool) (skb : List UInt8) (stack : HashDomainElem) (test : Bool)
    (adtfn : HashDomainElem → σ → ℤ × σ) (s : σ) : Except Fault (ℤ × σ) := do
  match ← labelLoop charSigned stack 0 (skb.drop domainOffset) with
  | none => return (0, s)
  | some (_, 0) => .error .outOfBounds
  | some (name, total + 1) =>
    let name ← name.write total [0]
    if test then suffixLoop adtfn name (total + 1) (total + 1) zeroElem s
    else do
      let e ← zeroElem.strncpy 0 name.domain dsetMaxDomainLen
      return adtfn e s

/-- Calls for one key after the other, up to the first answer that is not zero. -/
def firstNonzero (adtfn : HashDomainElem → σ → ℤ × σ) : List HashDomainElem → σ → ℤ × σ
  | [], s => (0, s)
  | k :: ks, s =>
    let p := adtfn k s
    if p.1 ≠ 0 then p else firstNonzero adtfn ks p.2

/-- `mtype_test` as the `adtfn` of a packet, with `opt->ext` in its state. -/
def kadtTest (jhash2 : HashDomainElem → BitVec 32 → BitVec 32) (jiffies : BitVec A.longBits)
    (ext : DomainSetExt) (flags : CmdFlags) (e : HashDomainElem)
    (s : DomainSet A × DomainSetExt) : ℤ × DomainSet A × DomainSetExt :=
  let p := mtypeTest jhash2 jiffies s.1 e ext s.2 flags
  (if p.1 then 1 else 0, p.2)

/-! ### The buffers -/

theorem HashDomainElem.write_ok (b : HashDomainElem) (off : ℕ) (bytes : List UInt8)
    (h : off + bytes.length ≤ dsetMaxDomainLen) :
    ∃ b', b.write off bytes = .ok b' ∧
      b'.domain = b.domain.take off ++ bytes ++ b.domain.drop (off + bytes.length) := by
  unfold HashDomainElem.write
  rw [dif_pos h]
  exact ⟨_, rfl, rfl⟩

theorem HashDomainElem.write_prefix {b : HashDomainElem} {u : List UInt8} (bytes : List UInt8)
    (hu : b.domain.take u.length = u) (h : u.length + bytes.length ≤ dsetMaxDomainLen) :
    ∃ b', b.write u.length bytes = .ok b' ∧
      b'.domain.take (u ++ bytes).length = u ++ bytes := by
  obtain ⟨b', hb, hd⟩ := b.write_ok _ _ h
  refine ⟨b', hb, ?_⟩
  rw [hd, hu]
  exact take_left' rfl

/-! ### The labels -/

theorem charValue_length (charSigned : Bool) {n : ℕ} (h : n ≤ 63) :
    charValue charSigned (UInt8.ofNat n) = n := by
  have hn : (UInt8.ofNat n).toNat = n := by
    rw [UInt8.toNat_ofNat']
    omega
  unfold charValue
  rw [hn, if_neg]
  simp only [Bool.and_eq_true, decide_eq_true_eq, not_and]
  omega

/-- The loop over complete labels collects them, a dot behind each. -/
theorem labelLoop_wire (charSigned : Bool) (ls : List (List UInt8)) (rest : List UInt8)
    (hls : ∀ l ∈ ls, 1 ≤ l.length ∧ l.length ≤ 63 ∧ 0 ∉ l) (name : HashDomainElem) (u : List UInt8)
    (hu : name.domain.take u.length = u) (hlen : (u ++ dots ls).length ≤ dsetMaxDomainLen) :
    ∃ name', labelLoop charSigned name u.length (wire ls ++ 0 :: rest) =
        .ok (some (name', (u ++ dots ls).length)) ∧
      name'.domain.take (u ++ dots ls).length = u ++ dots ls := by
  induction ls generalizing name u with
  | nil =>
    refine ⟨name, ?_, by simpa [dots] using hu⟩
    rw [wire, flatMap_nil, nil_append, labelLoop]
    simp [charValue, dots]
  | cons l ls ih =>
    obtain ⟨h1, h63, h0⟩ := hls l mem_cons_self
    have hsplit : u ++ dots (l :: ls) = (u ++ l ++ [dot]) ++ dots ls := by simp [dots]
    have hroom : u.length + l.length + 1 ≤ dsetMaxDomainLen := by
      rw [hsplit] at hlen
      simp only [length_append, length_singleton] at hlen
      omega
    obtain ⟨n1, hn1, hp1⟩ := HashDomainElem.write_prefix l hu (by omega)
    obtain ⟨n2, hn2, hp2⟩ := HashDomainElem.write_prefix [dot] hp1 (by
      simpa using hroom)
    obtain ⟨name', hloop, hpre⟩ := ih (fun k hk => hls k (mem_cons_of_mem _ hk)) n2
      (u ++ l ++ [dot]) hp2 (hsplit ▸ hlen)
    refine ⟨name', ?_, hsplit ▸ hpre⟩
    have hwire : wire (l :: ls) ++ 0 :: rest =
        UInt8.ofNat l.length :: (l ++ (wire ls ++ 0 :: rest)) := by simp [wire]
    have hcopy : name.strncpy u.length (l ++ (wire ls ++ 0 :: rest)) l.length = .ok n1 := by
      rw [HashDomainElem.strncpy, strncpy_of_notMem h0]
      exact hn1
    rw [hwire, labelLoop, charValue_length charSigned h63]
    simp only [Int.toNat_natCast]
    rw [if_neg (by omega), if_neg (by omega), if_neg (by omega), hcopy, drop_left' rfl]
    simp only [bind, Except.bind]
    rw [← length_append, hn2, hsplit]
    simpa [Nat.add_assoc] using hloop

/-! ### The suffixes -/

/-- A key buffer with nothing but zero bytes from `m` on. -/
def HashDomainElem.ZeroFrom (e : HashDomainElem) (m : ℕ) : Prop := ∀ b ∈ e.domain.drop m, b = 0

theorem HashDomainElem.ZeroFrom.mono {e : HashDomainElem} {m n : ℕ} (h : e.ZeroFrom m)
    (hle : m ≤ n) : e.ZeroFrom n := by
  intro b hb
  obtain ⟨k, rfl⟩ := Nat.exists_eq_add_of_le hle
  rw [← drop_drop] at hb
  exact h b (mem_of_mem_drop hb)

/-- Copying a longer terminated text over a shorter one leaves zero bytes behind
it: the key of the text. -/
theorem HashDomainElem.strncpy_text {e : HashDomainElem} {t : List UInt8} (rest : List UInt8) (h0 : 0 ∉ t)
    (hlen : t.length < dsetMaxDomainLen) (he : e.ZeroFrom (t.length + 1)) :
    e.strncpy 0 (t ++ 0 :: rest) (t.length + 1) = .ok (nlaStrlcpy (t ++ [0])) ∧
      (nlaStrlcpy (t ++ [0])).ZeroFrom (t.length + 1) := by
  obtain ⟨e', hw, hd⟩ := e.write_ok 0 (t ++ [0])
    (by simpa using Nat.succ_le_of_lt hlen)
  have htail : e.domain.drop (t.length + 1) = replicate (dsetMaxDomainLen - (t.length + 1)) 0 := by
    rw [eq_replicate_of_mem he, length_drop, e.length_domain]
  have hdom : e'.domain = zeroPad dsetMaxDomainLen t := by
    rw [hd]
    simp only [take_zero, nil_append, Nat.zero_add, length_append, length_singleton, htail, zeroPad]
    rw [append_assoc, show dsetMaxDomainLen - t.length = 1 + (dsetMaxDomainLen - (t.length + 1)) by
      omega, replicate_add]
    rfl
  have hkey : e' = nlaStrlcpy (t ++ [0]) := by
    have := hdom.trans (nlaStrlcpy_text hlen).symm
    cases e'
    cases hk : nlaStrlcpy (t ++ [0])
    rw [hk] at this
    simpa using this
  refine ⟨?_, ?_⟩
  · rw [HashDomainElem.strncpy, strncpy_terminated h0]
    exact hw.trans (congrArg Except.ok hkey)
  · intro b hb
    rw [← hkey, hdom, zeroPad, drop_append, drop_of_length_le (Nat.le_succ _), nil_append] at hb
    exact eq_of_mem_replicate (mem_of_mem_drop hb)

/-- The loop over the buffer calls `adtfn` for the texts behind the dots and for
the whole text. -/
theorem suffixLoop_texts (adtfn : HashDomainElem → σ → ℤ × σ) {name : HashDomainElem}
    {t rest : List UInt8} (hname : name.domain = t ++ 0 :: rest) (h0 : 0 ∉ t) (i : ℕ)
    (hi : i ≤ t.length + 1) (e : HashDomainElem) (he : e.ZeroFrom (t.length + 1 - i)) (s : σ) :
    suffixLoop adtfn name (t.length + 1) i e s = .ok (firstNonzero adtfn
      ((suffixTexts t i).map fun u => nlaStrlcpy (u ++ [0])) s) := by
  have hlen : t.length < dsetMaxDomainLen := by
    have := congrArg List.length hname
    rw [name.length_domain] at this
    simp only [length_append, length_cons] at this
    omega
  induction i generalizing e s with
  | zero =>
    obtain ⟨hcopy, -⟩ := HashDomainElem.strncpy_text rest h0 hlen he
    rw [suffixLoop, hname, hcopy]
    simp only [suffixTexts, map_cons, map_nil, firstNonzero, bind, Except.bind]
    split
    · rfl
    · rename_i hz
      simp only [ne_eq, not_not] at hz
      rw [← hz]
      rfl
  | succ i ih =>
    have hget : name.domain[i]? = if i = t.length then some 0 else t[i]? := by
      rw [hname]
      split
      · rename_i hit
        rw [hit]
        simp
      · rw [getElem?_append_left (by omega)]
    have hnext : e.ZeroFrom (t.length + 1 - i) := he.mono (by omega)
    rw [suffixLoop, suffixTexts, hget]
    by_cases hit : i = t.length
    · -- the terminator is no dot
      subst hit
      rw [if_pos rfl, if_neg (by simp)]
      simp only
      rw [if_neg (by decide)]
      exact ih (by omega) e hnext s
    · rw [if_neg hit, getElem?_eq_getElem (by omega)]
      simp only [Option.some.injEq]
      by_cases hdot : t[i] = dot
      · rw [if_pos hdot, if_pos hdot]
        have hsrc : name.domain.drop (i + 1) = t.drop (i + 1) ++ 0 :: rest := by
          rw [hname, drop_append_of_le_length (by omega)]
        have hn : t.length + 1 - i - 1 = (t.drop (i + 1)).length + 1 := by
          rw [length_drop]; omega
        obtain ⟨hcopy, hz⟩ := HashDomainElem.strncpy_text (e := e) rest
          (t := t.drop (i + 1)) (fun hm => h0 (mem_of_mem_drop hm)) (by rw [length_drop]; omega)
          (he.mono (by rw [length_drop]; omega))
        rw [hsrc, hn, hcopy]
        simp only [map_cons, firstNonzero, bind, Except.bind]
        split
        · rfl
        · exact ih (by omega) _ (hz.mono (by rw [length_drop]; omega)) _
      · rw [if_neg hdot, if_neg hdot]
        exact ih (by omega) e hnext s

/-- On complete labels the packet is looked up by the keys of the suffixes of its
name, in their order, whatever `adtfn` answers. -/
theorem hashDomainKadt_labels (charSigned : Bool) {skb rest : List UInt8} {ls : List (List UInt8)}
    (hskb : skb.drop domainOffset = wire ls ++ 0 :: rest) (hne : ls ≠ [])
    (hls : ∀ l ∈ ls, 1 ≤ l.length ∧ l.length ≤ 63 ∧ dot ∉ l ∧ 0 ∉ l)
    (hlen : (dotted ls).length < dsetMaxDomainLen) (stack : HashDomainElem)
    (adtfn : HashDomainElem → σ → ℤ × σ) (s : σ) :
    hashDomainKadt charSigned skb stack true adtfn s = .ok (firstNonzero adtfn
      ((suffixes ls).map fun u => nlaStrlcpy (dotted u ++ [0])) s) := by
  have hdots := dots_eq hne
  obtain ⟨name, hloop, hpre⟩ := labelLoop_wire charSigned ls rest
    (fun l hl => ⟨(hls l hl).1, (hls l hl).2.1, (hls l hl).2.2.2⟩) stack [] (by simp)
    (by rw [nil_append, hdots, length_append]; exact hlen)
  rw [nil_append, hdots] at hloop hpre
  -- the last dot gives way to the terminator
  have hpre' : name.domain.take (dotted ls).length = dotted ls := by
    have := congrArg (List.take (dotted ls).length) hpre
    rwa [take_take, min_eq_left (by simp), take_left' rfl] at this
  obtain ⟨name', hw, hd⟩ := name.write_ok (dotted ls).length [0]
    (by simpa using Nat.succ_le_of_lt hlen)
  rw [hpre'] at hd
  have hname : name'.domain = dotted ls ++ 0 :: name.domain.drop ((dotted ls).length + 1) := by
    rw [hd, append_assoc]
    rfl
  have h0 : 0 ∉ dotted ls := notMem_dotted (by decide) fun l hl => (hls l hl).2.2.2
  have hfirst : suffixTexts (dotted ls) ((dotted ls).length + 1) =
      suffixTexts (dotted ls) (dotted ls).length := by
    rw [suffixTexts, if_neg (by simp)]
  have hzero : zeroElem.ZeroFrom ((dotted ls).length + 1 - ((dotted ls).length + 1)) := by
    intro b hb
    exact eq_of_mem_replicate (mem_of_mem_drop hb)
  have hsuffix := suffixLoop_texts adtfn hname h0 ((dotted ls).length + 1) le_rfl zeroElem hzero s
  rw [hfirst, suffixTexts_dotted hne fun l hl => (hls l hl).2.2.1, map_map] at hsuffix
  unfold hashDomainKadt
  rw [hskb]
  rw [show ([] : List UInt8).length = 0 from rfl] at hloop
  rw [hloop, length_append, length_singleton]
  simp only [bind, Except.bind, hw, if_true]
  exact hsuffix

/-! ### The set -/

section
variable {jhash2 : HashDomainElem → BitVec 32 → BitVec 32} {set : DomainSet A}

/-- Lookups one after the other find the first key that a record holds and whose
extensions match. -/
theorem firstNonzero_kadtTest (h : set.table.Good set.extensions (set.home jhash2))
    (jiffies : BitVec A.longBits) (ext mext : DomainSetExt) (flags : CmdFlags)
    (ks : List HashDomainElem) (hks : ∀ k ∈ ks, ZeroPadded k.domain) :
    (firstNonzero (kadtTest jhash2 jiffies ext flags) ks (set, mext)).1 ≠ 0 ↔
      ∃ k ∈ ks, ∃ r ∈ set.table.records, r.elem = k ∧
        extensionsMatch set.extensions jiffies mext flags r = true := by
  induction ks with
  | nil => simp [firstNonzero]
  | cons k ks ih =>
    have hres := mtypeTest_result jiffies h (hks k mem_cons_self) ext mext flags
    rw [firstNonzero]
    unfold kadtTest
    simp only
    revert hres
    generalize mtypeTest jhash2 jiffies set k ext mext flags = p
    obtain ⟨b, s, m⟩ := p
    intro hres
    cases hres with
    | missing hno =>
      simp only [Bool.false_eq_true, if_false, ne_eq, not_true]
      rw [← ne_eq]
      refine (ih fun k hk => hks k (mem_cons_of_mem _ hk)).trans ?_
      constructor
      · rintro ⟨k', hk', hr⟩
        exact ⟨k', mem_cons_of_mem _ hk', hr⟩
      · rintro ⟨k', hk', r, hr, he, hm⟩
        rcases mem_cons.mp hk' with rfl | hk'
        · rw [hno r hr he] at hm; cases hm
        · exact ⟨k', hk', r, hr, he, hm⟩
    | found r r' kept _ _ hold _ helem _ hmatch =>
      refine iff_of_true (by simp) ⟨k, mem_cons_self, r, hold.mem_iff.mpr mem_cons_self, helem, ?_⟩
      rw [← domainSetMatchExtensions_isSome set.extensions jiffies ext, hmatch]
      rfl

/-- A packet test in every reachable state: which keys are looked up, when the
answer is not zero, and what the keys are. -/
theorem kadt_suffixes {forceadd : Bool} {l : List Call}
    (hrun : (setSystem A jhash2 forceadd).Run l set) (charSigned : Bool) {skb rest : List UInt8}
    {ls : List (List UInt8)} (hskb : skb.drop domainOffset = wire ls ++ 0 :: rest) (hne : ls ≠ [])
    (hls : ∀ l ∈ ls, 1 ≤ l.length ∧ l.length ≤ 63 ∧ dot ∉ l ∧ 0 ∉ l)
    (hlen : (dotted ls).length < dsetMaxDomainLen) (stack : HashDomainElem) :
    (∀ (σ : Type) (adtfn : HashDomainElem → σ → ℤ × σ) (s : σ),
      hashDomainKadt charSigned skb stack true adtfn s = .ok (firstNonzero adtfn
        ((suffixes ls).map fun u => nlaStrlcpy (dotted u ++ [0])) s)) ∧
    (∀ u ∈ suffixes ls,
      (nlaStrlcpy (dotted u ++ [0])).domain = zeroPad dsetMaxDomainLen (dotted u) ∧
      ∀ (ρ : Type) (tb : AdtAttrs) (ext : DomainSetExt) (fail : Errno → ρ)
        (adtfn : HashDomainElem → DomainSetExt → ρ), tb.domain = some (dotted u ++ [0]) →
        domainSetGetExtensions set tb (domainSetInitUext set) = .ok ext →
        hashDomainUadt set tb fail adtfn = adtfn (nlaStrlcpy (dotted u ++ [0])) ext) ∧
    ∀ (jiffies : BitVec A.longBits) (ext mext : DomainSetExt) (flags : CmdFlags), ∃ ret s',
      hashDomainKadt charSigned skb stack true (kadtTest jhash2 jiffies ext flags) (set, mext) =
        .ok (ret, s') ∧
      (ret ≠ 0 ↔ ∃ u, u <:+ ls ∧ u ≠ [] ∧ ∃ r ∈ set.table.records,
        r.elem = nlaStrlcpy (dotted u ++ [0]) ∧
          extensionsMatch set.extensions jiffies mext flags r = true) := by
  have hsub : ∀ u, u <:+ ls → (dotted u).length < dsetMaxDomainLen ∧ 0 ∉ dotted u := by
    intro u hu
    exact ⟨(length_dotted_le hu).trans_lt hlen,
      notMem_dotted (by decide) fun l hl => (hls l (hu.subset hl)).2.2.2⟩
  have hkey : ∀ u ∈ suffixes ls, (nlaStrlcpy (dotted u ++ [0])).domain =
      zeroPad dsetMaxDomainLen (dotted u) := fun u hu =>
    nlaStrlcpy_text (hsub u (mem_suffixes.mp hu).1).1
  have hcalls := fun (σ : Type) (adtfn : HashDomainElem → σ → ℤ × σ) (s : σ) =>
    hashDomainKadt_labels charSigned hskb hne hls hlen stack adtfn s
  have huadt : ∀ u ∈ suffixes ls, ∀ (ρ : Type) (tb : AdtAttrs) (ext : DomainSetExt)
      (fail : Errno → ρ) (adtfn : HashDomainElem → DomainSetExt → ρ),
      tb.domain = some (dotted u ++ [0]) →
      domainSetGetExtensions set tb (domainSetInitUext set) = .ok ext →
      hashDomainUadt set tb fail adtfn = adtfn (nlaStrlcpy (dotted u ++ [0])) ext := by
    intro u _ ρ tb ext fail adtfn htb hext
    simp only [hashDomainUadt, htb, hext]
  refine ⟨hcalls, fun u hu => ⟨hkey u hu, huadt u hu⟩,
    fun jiffies ext mext flags => ⟨_, _, hcalls _ _ _, ?_⟩⟩
  rw [firstNonzero_kadtTest (run_good hrun).1.table]
  · constructor
    · rintro ⟨k, hk, r, hr, he, hm⟩
      obtain ⟨u, hu, rfl⟩ := mem_map.mp hk
      exact ⟨u, (mem_suffixes.mp hu).1, (mem_suffixes.mp hu).2, r, hr, he, hm⟩
    · rintro ⟨u, hu, hnil, r, hr, he, hm⟩
      exact ⟨_, mem_map_of_mem (mem_suffixes.mpr ⟨hu, hnil⟩), r, hr, he, hm⟩
  · intro k hk
    obtain ⟨u, hu, rfl⟩ := mem_map.mp hk
    obtain ⟨h1, h2⟩ := hsub u (mem_suffixes.mp hu).1
    rw [hkey u hu]
    exact zeroPadded_zeroPad h2 h1

/-- The packet of `b.a` against a set that holds the key `a`. -/
theorem kadt_suffixes_parent : ∃ (l : List Call) (set : DomainSet x64),
    (setSystem x64 firstByte false).Run l set ∧
    ∃ ret s', hashDomainKadt true (replicate 40 0 ++ [1, 98, 1, 97, 0]) zeroElem true
        (kadtTest firstByte (jiffiesAt x64 0) plainExt plainFlags) (set, plainExt) =
      .ok (ret, s') ∧ ret ≠ 0 := by
  have htest : runOpsTest firstByte (smallSet 2 0) [(0, .add keyA plainExt plainFlags noFailure)]
      (fun set => set.table.records.any fun r => r.elem = nlaStrlcpy (dotted [[97]] ++ [0]) ∧
        extensionsMatch set.extensions (jiffiesAt x64 0) plainExt plainFlags r = true) = true := by
    decide +kernel
  obtain ⟨p, hp, hany⟩ := runOpsTest_iff.mp htest
  have hrun := run_of_runOps (.start (smallSet_init firstByte 2 0 rfl))
    (by simp [Op.Enabled]) hp
  obtain ⟨r, hr, hmatch⟩ := any_eq_true.mp hany
  obtain ⟨-, -, hkadt⟩ := kadt_suffixes hrun true
    (show (replicate 40 0 ++ [1, 98, 1, 97, 0] : List UInt8).drop domainOffset =
      wire [[98], [97]] ++ 0 :: [] by decide) (by simp) (by decide) (by decide) zeroElem
  obtain ⟨ret, s', heq, hret⟩ := hkadt (jiffiesAt x64 0) plainExt plainExt plainFlags
  refine ⟨_, _, hrun, ret, s', heq, hret.mpr ⟨[[97]], suffix_cons _ _, by simp, r, hr, ?_⟩⟩
  exact of_decide_eq_true hmatch

end

end Dset.Hash
