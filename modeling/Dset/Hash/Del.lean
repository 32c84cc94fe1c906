import Dset.Hash.Add
import Dset.Hash.Change

/-! `mtype_del`. A deletion clears one bit, lowers `pos` when the position was
the last, counts the unused positions below it and drops the bucket or replaces
it by a smaller copy. -/

namespace Dset.Hash

open Dset.Lib List

variable {A : Arch}

/-- The walk of `mtype_del` over the positions below `pos`, from `i` on with `k`
unused ones passed: where it finds the key alive. -/
def delScan (x : Extensions) (jiffies : BitVec A.longBits) (d : HashDomainElem) :
    List (Slot A) → ℕ → ℕ → Option (ℕ × ℕ)
  | [], _, _ => none
  | s :: ss, i, k =>
    if !s.used then delScan x jiffies d ss (i + 1) (k + 1)
    else if !hashDomainDataEqual s.data.elem d then delScan x jiffies d ss (i + 1) k
    else if x.timeout && domainSetTimeoutExpired jiffies s.data.timeout then none
    else some (i, k)

/-- `mtype_del` from the lookup of the bucket on; `alloc` is the outcome of its
`kzalloc`. -/
def delBucket (x : Extensions) (dsize : ℕ) (jiffies : BitVec A.longBits) (alloc : Bool)
    (d : HashDomainElem) (a : Accounts) : Option (Hbucket A) → Ret × Accounts × Option (Hbucket A)
  | none => (.err .dsetErrExist, a, none)
  | some n =>
    match delScan x jiffies d (n.value.take n.pos) 0 0 with
    | none => (.err .dsetErrExist, a, some n)
    | some (i, k) =>
      let pos := if i + 1 = n.pos then n.pos - 1 else n.pos
      let q := domainSetExtDestroy x { a with elements := a.elements - 1 } (n.data i)
      let a := q.1
      let n : Hbucket A := ⟨pos, n.value.set i ⟨false, q.2⟩⟩
      let k := k + ((n.value.take n.pos).drop i).countP fun s => !s.used
      if n.pos = 0 ∧ k = 0 then (.ok, { a with extSize := a.extSize - extSize A n.size dsize }, none)
      else if ahashInitSize ≤ k then
        if !alloc then (.ok, a, some n)
        else (.ok, { a with extSize := a.extSize - extSize A ahashInitSize dsize }, some n.shrink)
      else (.ok, a, some n)

def mtypeDel (jhash2 : HashDomainElem → BitVec 32 → BitVec 32) (jiffies : BitVec A.longBits)
    (alloc : Bool) (set : DomainSet A) (value : HashDomainElem) : Ret × DomainSet A :=
  let key := hkey jhash2 value set.initval set.table.htableBits
  let p := delBucket set.extensions set.dsize jiffies alloc value set.acct (set.table.hbucket key)
  (p.1, { set with acct := p.2.1, table := set.table.setBucket key p.2.2 })

/-- What the end of the walk says about the positions `v` from `i` on, `k` being
passed unused before. -/
def DelFound (x : Extensions) (jiffies : BitVec A.longBits) (d : HashDomainElem)
    (v : List (Slot A)) (i k : ℕ) : Option (ℕ × ℕ) → Prop
  | none => (∀ s ∈ v, s.used = true → hashDomainDataEqual s.data.elem d = false) ∨
      ∃ s ∈ v, s.used = true ∧ hashDomainDataEqual s.data.elem d = true ∧
        s.data.isExpired x jiffies = true
  | some p => ∃ j, ∃ hj : j < v.length, p = (i + j, k + (v.take j).countP fun s => !s.used) ∧
      v[j].occupied x jiffies ∧ hashDomainDataEqual v[j].data.elem d = true

theorem DelFound.cons {x : Extensions} {jiffies : BitVec A.longBits} {d : HashDomainElem}
    {s : Slot A} {v : List (Slot A)} {i k : ℕ} {p : Option (ℕ × ℕ)}
    (hne : s.used = true → hashDomainDataEqual s.data.elem d = false)
    (h : DelFound x jiffies d v (i + 1) (k + [s].countP fun s => !s.used) p) :
    DelFound x jiffies d (s :: v) i k p := by
  cases p with
  | none =>
    rcases h with h | ⟨t, ht, h⟩
    · left
      intro t ht hu
      rcases mem_cons.mp ht with rfl | ht
      · exact hne hu
      · exact h t ht hu
    · exact .inr ⟨t, mem_cons_of_mem _ ht, h⟩
  | some p =>
    obtain ⟨j, hj, rfl, hocc, heq⟩ := h
    refine ⟨j + 1, by simpa using hj, ?_, hocc, heq⟩
    simp only [take_succ_cons, countP_cons, countP_nil]
    congr 1 <;> omega

theorem delScan_found (x : Extensions) (jiffies : BitVec A.longBits) (d : HashDomainElem)
    (v : List (Slot A)) (i k : ℕ) :
    DelFound x jiffies d v i k (delScan x jiffies d v i k) := by
  induction v generalizing i k with
  | nil => simp [delScan, DelFound]
  | cons s v ih =>
    unfold delScan
    cases hu : s.used
    · simp only [Bool.not_false, if_true]
      exact .cons (by simp [hu]) (by simpa [hu] using ih (i + 1) (k + 1))
    · simp only [Bool.not_true, Bool.false_eq_true, if_false]
      cases heq : hashDomainDataEqual s.data.elem d
      · simp only [Bool.not_false, if_true]
        exact .cons (fun _ => heq) (by simpa [hu] using ih (i + 1) k)
      · simp only [Bool.not_true, Bool.false_eq_true, if_false]
        cases hx : x.timeout && domainSetTimeoutExpired jiffies s.data.timeout
        · exact ⟨0, by simp, by simp, ⟨hu, hx⟩, heq⟩
        · exact .inr ⟨s, by simp, hu, heq, hx⟩

section
variable {x : Extensions} {home : HashDomainElem → ℕ} {i dsize : ℕ} {jiffies : BitVec A.longBits}
  {alloc : Bool} {d : HashDomainElem} {a : Accounts}

/-- `mtype_del` of `d` replaces the bucket by a smaller copy. -/
def CutsDown (x : Extensions) (jiffies : BitVec A.longBits) (alloc : Bool) (d : HashDomainElem) :
    Option (Hbucket A) → Prop
  | none => False
  | some n => alloc = true ∧ ∃ j, ∃ hj : j < (n.value.take n.pos).length,
      (n.value.take n.pos)[j].occupied x jiffies ∧ (n.value.take n.pos)[j].data.elem = d ∧
      ahashInitSize ≤ (n.value.take n.pos).countP (fun s => !s.used) +
        if j + 1 = n.pos then 0 else 1

/-- What `mtype_del` makes of the bucket `b` of its key and the accounts `a`. -/
inductive DelOutcome (x : Extensions) (home : HashDomainElem → ℕ) (i dsize : ℕ)
    (jiffies : BitVec A.longBits) (alloc : Bool) (d : HashDomainElem) (a : Accounts)
    (b : Option (Hbucket A)) : Ret → Accounts → Option (Hbucket A) → Prop
  | missing (h : ∀ r ∈ bucketRecords b, r.elem = d → r.isExpired x jiffies = true) :
      DelOutcome x home i dsize jiffies alloc d a b (.err .dsetErrExist) a b
  | removed (r : Record A) (kept : List (Record A)) (a' : Accounts) (b' : Option (Hbucket A))
      (delta : ℤ) (hold : bucketRecords b ~ r :: kept) (hnew : bucketRecords b' ~ kept)
      (hgood : GoodBucket x home i b') (helem : r.elem = d)
      (hlive : r.isExpired x jiffies = false) (hkept : ∀ k ∈ kept, k.elem ≠ d)
      (hsettles : Settles x a (bucketRecords b) a' (bucketRecords b') delta)
      (hbytes : ¬CutsDown x jiffies alloc d b →
        delta = bucketBytes dsize b' - bucketBytes dsize b) :
      DelOutcome x home i dsize jiffies alloc d a b .ok a' b'

/-- The positions of the bucket `m` are those of `n`, the one at `j` cleared,
and `pos` is lowered when `j` was the last. -/
structure Hbucket.Cleared (x : Extensions) (n m : Hbucket A) (j : ℕ) : Prop where
  value : ∃ r, m.value = n.value.set j ⟨false, r⟩ ∧ (x.comment = true → r.comment = none)
  pos : m.pos = if j + 1 = n.pos then n.pos - 1 else n.pos

/-- A cleared position leaves a good bucket with the other records. -/
theorem Hbucket.Good.cleared {n m : Hbucket A} (hn : n.Good x home i) {j : ℕ} (hj : j < n.pos)
    (h : n.Cleared x m j) : m.Good x home i ∧ m.records ~ recordsBut n.value j ∧
      m.size = n.size := by
  obtain ⟨⟨r, hv, hr⟩, hpos⟩ := h
  have hjv : j < n.value.length := hj.trans_le hn.pos_le
  have hrec : m.records ~ recordsBut n.value j := by
    rw [Hbucket.records, hv]
    simpa [Slot.records] using slotRecords_set_perm hjv ⟨false, r⟩
  have hsize : m.size = n.size := by simp [Hbucket.size, hv]
  have hsub : ∀ k ∈ m.records, k ∈ n.records := fun k hk =>
    (slotRecords_perm hjv).mem_iff.mpr (mem_append_right _ (hrec.mem_iff.mp hk))
  refine ⟨⟨⟨hsize ▸ hn.size_dvd, hsize ▸ hn.size_le, ?_, ?_, ?_⟩, ?_, ?_, ?_⟩, hrec, hsize⟩
  · have := hn.pos_le
    rw [hsize, hpos]
    split <;> omega
  · intro s hs
    rw [hv] at hs
    by_cases hlast : j + 1 = n.pos
    · rw [hpos, if_pos hlast, show n.pos - 1 = j by omega,
        drop_eq_getElem_cons (by simpa using hjv)] at hs
      rcases mem_cons.mp hs with rfl | hs
      · simp
      · rw [drop_set_of_lt (by omega), hlast] at hs
        exact hn.unused s hs
    · rw [hpos, if_neg hlast, drop_set_of_lt hj] at hs
      exact hn.unused s hs
  · intro hx s hs hu
    rw [hv] at hs
    rcases mem_or_eq_of_mem_set hs with hs | rfl
    · exact hn.clean hx s hs hu
    · exact hr hx
  · exact fun k hk => hn.padded k (hsub k hk)
  · exact fun k hk => hn.home k (hsub k hk)
  · rw [(hrec.map Record.elem).nodup_iff]
    have hnd := ((slotRecords_perm hjv).map Record.elem).nodup_iff.mp hn.nodup
    rw [map_append] at hnd
    exact hnd.sublist (sublist_append_right _ _)

/-- What `mtype_del` counts as unused below the new `pos`. -/
theorem Hbucket.Good.cleared_count {n m : Hbucket A} (hn : n.Good x home i) {j : ℕ} (hj : j < n.pos)
    (hjv : j < n.value.length) (hu : n.value[j].used = true) (h : n.Cleared x m j) :
    ((n.value.take n.pos).take j).countP (fun s => !s.used) +
        ((m.value.take m.pos).drop j).countP (fun s => !s.used) =
      (m.value.take m.pos).countP (fun s => !s.used) ∧
    (m.value.take m.pos).countP (fun s => !s.used) =
      (n.value.take n.pos).countP (fun s => !s.used) + if j + 1 = n.pos then 0 else 1 := by
  obtain ⟨⟨r, hv, hr⟩, hpos⟩ := h
  have hle := hn.pos_le
  have hmpos : j ≤ m.pos := by rw [hpos]; split <;> omega
  have htake : (m.value.take m.pos).take j = (n.value.take n.pos).take j := by
    rw [take_take, take_take, min_eq_left hmpos, min_eq_left hj.le, hv, take_set_of_le le_rfl]
  refine ⟨by rw [← htake, ← countP_append, take_append_drop], ?_⟩
  rw [← take_append_drop j (m.value.take m.pos), ← take_append_drop j (n.value.take n.pos),
    countP_append, countP_append, htake, Nat.add_assoc]
  congr 1
  have hnj : (n.value.take n.pos).drop j = n.value[j] :: (n.value.take n.pos).drop (j + 1) := by
    rw [drop_eq_getElem_cons (by rw [length_take]; exact lt_min hj hjv), getElem_take]
  rw [hnj, countP_cons_of_neg (by simp [hu])]
  by_cases hlast : j + 1 = n.pos
  · rw [if_pos hlast, hpos, if_pos hlast, drop_of_length_le, drop_of_length_le]
    · simp
    · rw [length_take]; omega
    · rw [length_take]; omega
  · rw [if_neg hlast, hpos, if_neg hlast, hv, drop_eq_getElem_cons
      (by rw [length_take, length_set]; exact lt_min hj hjv), getElem_take, getElem_set_self,
      countP_cons_of_pos (by simp), take_set, drop_set_of_lt (by omega)]

variable (dsize jiffies alloc a) in
theorem delBucket_outcome {b : Option (Hbucket A)} (hb : GoodBucket x home i b)
    (hd : ZeroPadded d.domain) :
    DelOutcome x home i dsize jiffies alloc d a b (delBucket x dsize jiffies alloc d a b).1
      (delBucket x dsize jiffies alloc d a b).2.1 (delBucket x dsize jiffies alloc d a b).2.2 := by
  cases b with
  | none => exact .missing (by simp [bucketRecords])
  | some n =>
    have hn : n.Good x home i := hb
    have hscan := delScan_found x jiffies d (n.value.take n.pos) 0 0
    simp only [delBucket]
    generalize delScan x jiffies d (n.value.take n.pos) 0 0 = scan at hscan
    cases scan with
    | none =>
      refine .missing ?_
      intro r hr he
      rcases hscan with h | ⟨s, hs, hu, heq, hexp⟩
      · exact absurd he (hn.absent hd h r hr)
      · have hm := Hbucket.mem_records_of_take hs hu
        have hes := (hn.equal_iff hd hs hu).mp heq
        rw [inj_on_of_nodup_map hn.nodup hr hm (he.trans hes.symm)]
        exact hexp
    | some p =>
      obtain ⟨j, hj, rfl, ⟨hu, hexp⟩, heq⟩ := hscan
      simp only [Nat.zero_add]
      obtain ⟨hjp, hjv, hget⟩ := n.getElem_take_pos hj
      have hocc : (n.value.take n.pos)[j].occupied x jiffies := ⟨hu, hexp⟩
      have hjd : n.data j = n.value[j].data := n.data_eq hjv
      have hju : n.value[j].used = true := hget ▸ hu
      have hmem : n.data j ∈ n.records :=
        mem_slotRecords.mpr ⟨n.value[j], getElem_mem hjv, hju, hjd.symm⟩
      have helem : (n.data j).elem = d := by
        rw [hjd, ← hget]
        exact (hn.equal_iff hd (getElem_mem hj) hu).mp heq
      -- the bucket with the position cleared
      set q := domainSetExtDestroy x { a with elements := a.elements - 1 } (n.data j) with hq
      set m : Hbucket A := ⟨if j + 1 = n.pos then n.pos - 1 else n.pos,
        n.value.set j ⟨false, q.2⟩⟩ with hm
      have hcl : n.Cleared x m j := by
        refine ⟨⟨q.2, rfl, fun hx => ?_⟩, rfl⟩
        simp [hq, domainSetExtDestroy, hx]
      obtain ⟨hgood, hrec, hsize⟩ := hn.cleared hjp hcl
      obtain ⟨hk, hcount⟩ := hn.cleared_count hjp hjv hju hcl
      rw [hk, show (if j + 1 = n.pos then n.pos - 1 else n.pos) = m.pos from rfl]
      have hold : n.records ~ n.data j :: recordsBut n.value j := by
        have := slotRecords_perm hjv
        rwa [Slot.records_used hju, ← hjd] at this
      have hset : Settles x a n.records q.1 m.records 0 := by
        have h0 := domainSetExtDestroy_settles x a (n.data j)
        have h1 : Settles x a [n.data j] q.1 [] 0 := by
          have he : q.1 = { (domainSetExtDestroy x a (n.data j)).1 with
              elements := (domainSetExtDestroy x a (n.data j)).1.elements - 1 } := by
            simp only [hq, domainSetExtDestroy]
            split
            · cases (n.data j).comment <;> rfl
            · rfl
          rwa [he]
        exact (h1.frame (recordsBut n.value j)).perm hold hrec
      have hkept : ∀ k ∈ recordsBut n.value j, k.elem ≠ d := by
        rw [← helem, hjd]
        exact hn.others_ne hjv hju
      have hlive : (n.data j).isExpired x jiffies = false := by
        rw [hjd, ← hget]; exact hexp
      by_cases h0 : m.pos = 0 ∧ (m.value.take m.pos).countP (fun s => !s.used) = 0
      · -- the bucket is empty
        simp only [if_pos h0]
        have hnil : m.records = [] := by
          rw [hgood.records_take, h0.1]; rfl
        refine .removed (n.data j) _ _ none (-extSize A m.size dsize) hold ?_ trivial helem hlive
          hkept ?_ (fun _ => by simp [bucketBytes, hsize])
        · rw [bucketRecords, ← hnil]; exact hrec
        · rw [hnil] at hset
          refine ⟨hset.elements, ?_, hset.nextAddr_le, hset.addrs, hset.freed⟩
          have := hset.extSize
          simp only [bucketRecords] at this ⊢
          omega
      simp only [if_neg h0]
      by_cases h4 : ahashInitSize ≤ (m.value.take m.pos).countP fun s => !s.used
      · simp only [if_pos h4]
        cases alloc
        · exact .removed (n.data j) _ _ (some m) 0 hold hrec hgood helem hlive hkept hset
            (fun _ => by simp [bucketBytes, hsize])
        · -- the bucket is cut down
          obtain ⟨hg, hr, -⟩ := hgood.shrink h4
          have hcuts : CutsDown x jiffies true d (some n) := by
            refine ⟨rfl, j, hj, hocc, ?_, hcount ▸ h4⟩
            rw [hget, ← hjd, helem]
          simp only [Bool.not_true, Bool.false_eq_true, if_false]
          refine .removed (n.data j) _ _ (some m.shrink) (-extSize A ahashInitSize dsize) hold
            (by rw [bucketRecords, hr]; exact hrec) hg helem hlive hkept ?_ (fun h => absurd hcuts h)
          rw [← hr] at hset
          refine ⟨hset.elements, ?_, hset.nextAddr_le, hset.addrs, hset.freed⟩
          have := hset.extSize
          simp only [bucketRecords] at this ⊢
          omega
      · simp only [if_neg h4]
        exact .removed (n.data j) _ _ (some m) 0 hold hrec hgood helem hlive hkept hset
          (fun _ => by simp [bucketBytes, hsize])

end

section
variable {jhash2 : HashDomainElem → BitVec 32 → BitVec 32} {set : DomainSet A}
  {jiffies : BitVec A.longBits} {d : HashDomainElem}

inductive DelResult (jhash2 : HashDomainElem → BitVec 32 → BitVec 32) (jiffies : BitVec A.longBits)
    (alloc : Bool) (d : HashDomainElem) (set : DomainSet A) : Ret → DomainSet A → Prop
  | missing
      (h : ∀ r ∈ set.table.records, r.elem = d → r.isExpired set.extensions jiffies = true) :
      DelResult jhash2 jiffies alloc d set (.err .dsetErrExist) set
  | removed (r : Record A) (kept : List (Record A)) (set' : DomainSet A) (drift : ℤ)
      (hold : set.table.records ~ r :: kept) (hnew : set'.table.records ~ kept)
      (helem : r.elem = d) (hlive : r.isExpired set.extensions jiffies = false)
      (hkept : ∀ k ∈ kept, k.elem ≠ d) (hchange : set.Change jhash2 set' drift)
      (htable : set'.table.htableBits = set.table.htableBits)
      (hdrift : ¬CutsDown set.extensions jiffies alloc d (set.table.hbucket (set.home jhash2 d)) →
        drift = 0) :
      DelResult jhash2 jiffies alloc d set .ok set'

variable (jiffies) in
theorem mtypeDel_result (h : set.table.Good set.extensions (set.home jhash2))
    (hd : ZeroPadded d.domain) (alloc : Bool) :
    DelResult jhash2 jiffies alloc d set (mtypeDel jhash2 jiffies alloc set d).1
      (mtypeDel jhash2 jiffies alloc set d).2 := by
  have hi := DomainSet.home_lt h d
  have hout := delBucket_outcome set.dsize jiffies alloc set.acct
    (h.hbucket (set.home jhash2 d)) hd
  unfold mtypeDel
  simp only
  rw [show hkey jhash2 d set.initval set.table.htableBits = set.home jhash2 d from rfl]
  generalize delBucket set.extensions set.dsize jiffies alloc d set.acct
    (set.table.hbucket (set.home jhash2 d)) = p at hout
  obtain ⟨ret, a, b⟩ := p
  simp only at hout ⊢
  cases hout with
  | missing hm =>
    rw [set.table.setBucket_self hi]
    refine .missing (fun r hr he => hm r ?_ he)
    have := (h.mem_records hr).2
    rwa [he] at this
  | removed r kept _ _ delta hold hnew hgood helem hlive hkept hsettles hbytes =>
    have hperm := set.table.records_perm hi
    refine .removed r (kept ++ set.table.recordsBut (set.home jhash2 d)) _ _
      (hperm.trans (hold.append_right _))
      ((set.table.records_setBucket_perm hi b).trans (hnew.append_right _)) helem hlive ?_
      (.setBucket h hi hgood hsettles _) rfl (fun hc => by rw [hbytes hc]; omega)
    intro k hk hkd
    rcases mem_append.mp hk with hk | hk
    · exact hkept k hk hkd
    · exact h.recordsBut_ne hi hk (hkd ▸ rfl)

end

end Dset.Hash
