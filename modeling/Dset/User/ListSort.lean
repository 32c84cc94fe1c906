import Dset.Lib.Links
import Dset.User.Dump
import Mathlib.Data.List.GetD

/-! `list_sort.c`: a ring of nodes is sorted bottom up. Sorted chains wait in levels, a chain of a
level is merged with one as old as itself, and the last merge closes the ring again. The result is
the stable sort of the nodes, for a list of any length: behind `MAX_LIST_LENGTH_BITS` levels the
last level takes everything, and the slot behind it stays null. -/

namespace Dset.User.ListSort

open Dset.Lib

variable {ι : Type*} [DecidableEq ι] (cmp : ι → ι → ℤ)

def maxListLengthBits : ℕ := 20

/-- The variables of a merge: the end of the merged list and what is left of both lists. -/
structure Merging (ι : Type*) where
  links : Links ι
  tail : ι
  a : Option ι
  b : Option ι

/-- `tail->next = a ?: b`. -/
def Merging.finish (s : Merging ι) : Links ι := s.links.setNext s.tail (s.a.or s.b)

/-- `tail->next = x`, and with `back` also `x->prev = tail`. -/
def link (back : Bool) (m : Links ι) (tail x : ι) : Links ι :=
  if back then (m.setNext tail (some x)).setPrev x (some tail) else m.setNext tail (some x)

/-- The loop of `merge`, and with `back` that of `merge_and_restore_back_links`. -/
def mergeLoop (back : Bool) : ℕ → Merging ι → Option (Merging ι)
  | fuel, s =>
    match s.a, s.b with
    | some a, some b =>
      match fuel with
      | 0 => none
      | fuel + 1 =>
        if cmp a b ≤ 0 then
          let m := link back s.links s.tail a
          mergeLoop back fuel ⟨m, a, m.next a, some b⟩
        else
          let m := link back s.links s.tail b
          mergeLoop back fuel ⟨m, b, some a, m.next b⟩
    | _, _ => some s

/-- `merge`; `scratch` is the address of its local head. -/
def merge (fuel : ℕ) (scratch : ι) (m : Links ι) (a b : Option ι) : Option (Links ι × Option ι) :=
  (mergeLoop cmp false fuel ⟨m, scratch, a, b⟩).map fun s => (s.finish, s.finish.next scratch)

/-- The second loop of `merge_and_restore_back_links`, which reads the pointer behind `tail` before
it looks whether there is one. -/
def restoreLoop : ℕ → Links ι → ι → Option (Links ι × ι)
  | 0, _, _ => none
  | fuel + 1, m, tail =>
    match m.next tail with
    | none => none
    | some x =>
      if (m.next x).isSome then restoreLoop fuel (m.setPrev x (some tail)) x
      else some (m.setPrev x (some tail), x)

/-- `merge_and_restore_back_links` behind its first loop. -/
def Merging.restore (fuel : ℕ) (head : ι) (s : Merging ι) : Option (Links ι) :=
  (restoreLoop fuel s.finish s.tail).map fun r =>
    (r.1.setNext r.2 (some head)).setPrev head (some r.2)

def mergeAndRestoreBackLinks (fuel : ℕ) (head : ι) (m : Links ι) (a b : Option ι) :
    Option (Links ι) :=
  (mergeLoop cmp true fuel ⟨m, head, a, b⟩).bind (·.restore fuel head)

/-- Behind the inner loop of `list_sort`: the level it stopped at and the chain for it. -/
structure Carried (ι : Type*) where
  links : Links ι
  part : List (Option ι)
  lev : ℕ
  cur : Option ι

/-- The inner loop of `list_sort`; without a value it leaves the array. -/
def carry (fuel : ℕ) (scratch : ι) : List (Option ι) → Links ι → Option ι → Option (Carried ι)
  | [], _, _ => none
  | none :: part, m, cur => some ⟨m, none :: part, 0, cur⟩
  | some p :: part, m, cur =>
    (merge cmp fuel scratch m (some p) cur).bind fun r =>
      (carry fuel scratch part r.1 r.2).map fun c =>
        { c with part := none :: c.part, lev := c.lev + 1 }

structure Sorting (ι : Type*) where
  links : Links ι
  part : List (Option ι)
  maxLev : ℕ

/-- The end of an iteration of the outer loop: the chain gets its level. -/
def Carried.store (c : Carried ι) (maxLev : ℕ) : Sorting ι :=
  if maxLev < c.lev then
    let lev := if maxListLengthBits ≤ c.lev then c.lev - 1 else c.lev
    ⟨c.links, c.part.set lev c.cur, lev⟩
  else ⟨c.links, c.part.set c.lev c.cur, maxLev⟩

/-- The outer loop of `list_sort`. -/
def sortLoop (fuel : ℕ) (scratch : ι) : ℕ → Sorting ι → Option ι → Option (Sorting ι)
  | _, s, none => some s
  | 0, _, some _ => none
  | n + 1, s, some cur =>
    (carry cmp fuel scratch s.part (s.links.setNext cur none) (some cur)).bind fun c =>
      sortLoop fuel scratch n (c.store s.maxLev) (s.links.next cur)

/-- The last loop of `list_sort`. -/
def mergeLevels (fuel : ℕ) (scratch : ι) :
    List (Option ι) → Links ι → Option ι → Option (Links ι × Option ι)
  | [], m, list => some (m, list)
  | none :: part, m, list => mergeLevels fuel scratch part m list
  | some p :: part, m, list =>
    (merge cmp fuel scratch m (some p) list).bind fun r => mergeLevels fuel scratch part r.1 r.2

/-- `list_sort`. It has no value when it follows a null pointer, leaves the array of the levels or
runs out of fuel. -/
def listSort (fuel : ℕ) (scratch : ι) (m : Links ι) (head : ι) : Option (Links ι) :=
  if m.next head = some head then some m
  else do
    let last ← m.prev head
    let s ← sortLoop cmp fuel scratch fuel
      ⟨m.setNext last none, List.replicate (maxListLengthBits + 1) none, 0⟩
      ((m.setNext last none).next head)
    let r ← mergeLevels cmp fuel scratch (s.part.take s.maxLev) s.links none
    let top ← s.part[s.maxLev]?
    mergeAndRestoreBackLinks cmp fuel head r.1 top r.2

/-! ### Merging -/

/-- `cmp (a, b) <= 0`. -/
def le (a b : ι) : Bool := cmp a b ≤ 0

variable {cmp} {m : Links ι} {fuel : ℕ} {tail scratch head : ι} {a b : Option ι} {la lb : List ι}

theorem link_next (back : Bool) (m : Links ι) (tail x : ι) :
    (link back m tail x).next = (m.setNext tail (some x)).next := by
  cases back <;> rfl

theorem mergeLoop_none (h : a = none ∨ b = none) (back : Bool) :
    mergeLoop cmp back fuel ⟨m, tail, a, b⟩ = some ⟨m, tail, a, b⟩ := by
  unfold mergeLoop
  rcases h with rfl | rfl
  · rfl
  · cases a <;> rfl

variable (cmp fuel) in
/-- What holds when one of the lists is used up, and is handed on from behind a node that is taken
of them to the front of it, holds of the loop. -/
theorem mergeLoop_rec (back : Bool) {Q : Links ι → ι → List ι → List ι → Merging ι → Prop}
    (hnil : ∀ (m : Links ι) tail a b la lb, la = [] ∨ lb = [] → m.Chain a la → m.Chain b lb →
      (tail :: (la ++ lb)).Nodup → Q m tail la lb ⟨m, tail, a, b⟩)
    (hcons : ∀ (m : Links ι) tail x la lb la' lb' s, (tail :: (la ++ lb)).Nodup →
      (x :: (la' ++ lb')).Perm (la ++ lb) → la' ++ lb' ≠ [] →
      la.merge lb (le cmp) = x :: la'.merge lb' (le cmp) →
      Q (link back m tail x) x la' lb' s → Q m tail la lb s)
    (hfuel : la.length + lb.length ≤ fuel) (ha : m.Chain a la) (hb : m.Chain b lb)
    (hnodup : (tail :: (la ++ lb)).Nodup) :
    ∃ s, mergeLoop cmp back fuel ⟨m, tail, a, b⟩ = some s ∧ Q m tail la lb s := by
  have hend {fuel : ℕ} {m : Links ι} {tail : ι} {a b : Option ι} {la lb : List ι}
      (h : la = [] ∨ lb = []) (ha : m.Chain a la) (hb : m.Chain b lb)
      (hnodup : (tail :: (la ++ lb)).Nodup) :
      ∃ s, mergeLoop cmp back fuel ⟨m, tail, a, b⟩ = some s ∧ Q m tail la lb s := by
    refine ⟨_, mergeLoop_none ?_ back, hnil m tail a b la lb h ha hb hnodup⟩
    exact h.imp ha.eq_none_iff.mpr hb.eq_none_iff.mpr
  induction fuel generalizing m tail a b la lb with
  | zero => exact hend (.inl (List.length_eq_zero_iff.mp (by omega))) ha hb hnodup
  | succ fuel ih =>
    by_cases h : la = [] ∨ lb = []
    · exact hend h ha hb hnodup
    · rw [not_or] at h
      obtain ⟨x, la, rfl⟩ := List.exists_cons_of_ne_nil h.1
      obtain ⟨y, lb, rfl⟩ := List.exists_cons_of_ne_nil h.2
      have hne : ∀ z ∈ x :: la ++ y :: lb, z ≠ tail := fun z hz heq =>
        (List.nodup_cons.mp hnodup).1 (heq ▸ hz)
      have hkept (w : ι) {l : List ι} {q : Option ι} (h : m.Chain q l)
          (hsub : l ⊆ x :: la ++ y :: lb) : (link back m tail w).Chain q l := by
        refine h.congr fun z hz => ?_
        rw [link_next]
        exact m.setNext_next_ne _ (hne z (hsub hz))
      have hnext (w : ι) {z : ι} (hz : z ∈ x :: la ++ y :: lb) :
          (link back m tail w).next z = m.next z := by
        rw [link_next]
        exact m.setNext_next_ne _ (hne z hz)
      rw [List.length_cons, List.length_cons] at hfuel
      unfold mergeLoop
      rw [ha.1, hb.1]
      dsimp only
      by_cases hcmp : cmp x y ≤ 0
      · rw [if_pos hcmp, hnext x (by simp)]
        obtain ⟨s, hloop, hs⟩ := @ih _ _ _ _ la (y :: lb) (by rw [List.length_cons]; omega)
          (hkept x ha.2 (by simp)) (hkept x (hb.1 ▸ hb) (by simp)) (List.nodup_cons.mp hnodup).2
        refine ⟨s, hloop, hcons m tail x _ _ la (y :: lb) s hnodup (.refl _) (by simp) ?_ hs⟩
        exact List.cons_merge_cons_pos _ _ _ (decide_eq_true hcmp)
      · rw [if_neg hcmp, hnext y (by simp)]
        have hperm : (y :: (x :: la ++ lb)).Perm (x :: la ++ y :: lb) := List.perm_middle.symm
        obtain ⟨s, hloop, hs⟩ := @ih _ _ _ _ (x :: la) lb (by rw [List.length_cons]; omega)
          (hkept y (ha.1 ▸ ha) (by simp)) (hkept y hb.2 fun z hz => by simp [hz])
          (hperm.nodup_iff.mpr (List.nodup_cons.mp hnodup).2)
        refine ⟨s, hloop, hcons m tail y _ _ (x :: la) lb s hnodup hperm (by simp) ?_ hs⟩
        exact List.cons_merge_cons_neg _ _ _ (by simpa [le] using hcmp)

omit [DecidableEq ι] in
/-- What is left when one of the lists is used up. -/
theorem chain_or (h : la = [] ∨ lb = []) (ha : m.Chain a la) (hb : m.Chain b lb) :
    m.Chain (a.or b) (la.merge lb (le cmp)) := by
  rcases h with rfl | rfl
  · obtain rfl : a = none := ha
    rwa [Option.none_or, List.nil_merge]
  · obtain rfl : b = none := hb
    rwa [Option.or_none, List.merge_right]

/-- The lists are merged behind the tail, and no other node is written. -/
structure Merged (cmp : ι → ι → ℤ) (m : Links ι) (tail : ι) (la lb : List ι) (m' : Links ι) :
    Prop where
  chain : m'.Chain (m'.next tail) (la.merge lb (le cmp))
  prev : m'.prev = m.prev
  next : ∀ x ∉ tail :: (la ++ lb), m'.next x = m.next x

omit [DecidableEq ι] in
theorem mem_merge_append {x : ι} (h : x ∈ la.merge lb (le cmp)) : x ∈ la ++ lb :=
  (List.merge_perm_append _).mem_iff.mp h

variable (cmp) in
theorem merged_nil (h : la = [] ∨ lb = []) (ha : m.Chain a la) (hb : m.Chain b lb)
    (hnodup : (tail :: (la ++ lb)).Nodup) :
    Merged cmp m tail la lb (m.setNext tail (a.or b)) where
  chain := by
    rw [m.setNext_next]
    refine (chain_or h ha hb).congr fun x hx => m.setNext_next_ne _ ?_
    rintro rfl
    exact (List.nodup_cons.mp hnodup).1 (mem_merge_append hx)
  prev := rfl
  next x hx := m.setNext_next_ne _ (List.ne_of_not_mem_cons hx)

theorem Merged.cons {m' : Links ι} {x : ι} {la' lb' : List ι}
    (h : Merged cmp (m.setNext tail (some x)) x la' lb' m') (hnodup : (tail :: (la ++ lb)).Nodup)
    (hperm : (x :: (la' ++ lb')).Perm (la ++ lb))
    (hmerge : la.merge lb (le cmp) = x :: la'.merge lb' (le cmp)) :
    Merged cmp m tail la lb m' where
  chain := by
    have htail : m'.next tail = some x := by
      rw [h.next tail, m.setNext_next]
      rw [hperm.mem_iff]
      exact (List.nodup_cons.mp hnodup).1
    rw [hmerge, htail]
    exact ⟨rfl, h.chain⟩
  prev := h.prev
  next y hy := by
    rw [List.mem_cons, not_or] at hy
    rw [h.next y (by rw [hperm.mem_iff]; exact hy.2), m.setNext_next_ne _ hy.1]

variable (cmp fuel) in
/-- `merge` of two chains. -/
theorem merge_merged (hfuel : la.length + lb.length ≤ fuel) (ha : m.Chain a la)
    (hb : m.Chain b lb) (hnodup : (scratch :: (la ++ lb)).Nodup) :
    ∃ m' p, merge cmp fuel scratch m a b = some (m', p) ∧
      m'.Chain p (la.merge lb (le cmp)) ∧ m'.prev = m.prev ∧
      ∀ x ∉ scratch :: (la ++ lb), m'.next x = m.next x := by
  obtain ⟨s, hloop, hmerged⟩ := mergeLoop_rec cmp fuel false
    (Q := fun m tail la lb s => Merged cmp m tail la lb s.finish)
    (fun m tail a b la lb h ha hb hnodup => merged_nil cmp h ha hb hnodup)
    (fun m tail x la lb la' lb' s hnodup hperm _ hmerge h => Merged.cons h hnodup hperm hmerge)
    hfuel ha hb hnodup
  refine ⟨s.finish, _, ?_, hmerged.chain, hmerged.prev, hmerged.next⟩
  unfold merge
  rw [hloop]
  rfl

/-! ### The ring -/

/-- The last two writes of `merge_and_restore_back_links`. -/
def close (head : ι) (m : Links ι) (last : ι) : Links ι :=
  (m.setNext last (some head)).setPrev head (some last)

theorem restoreLoop_linked {l : List ι} (hne : l ≠ []) (hfuel : l.length ≤ fuel)
    (h : m.Chain (m.next tail) l) (hnodup : (tail :: l).Nodup) (hhead : head ∉ l) :
    ∃ m' last, restoreLoop fuel m tail = some (m', last) ∧ last ∈ l ∧ m'.next = m.next ∧
      (∀ x ∉ l, m'.prev x = m.prev x) ∧ (close head m' last).Linked tail l head := by
  induction l generalizing fuel m tail with
  | nil => exact absurd rfl hne
  | cons x l ih =>
    obtain ⟨htail, hl⟩ := h
    rw [List.length_cons] at hfuel
    obtain ⟨fuel, rfl⟩ := Nat.exists_eq_succ_of_ne_zero (show fuel ≠ 0 by omega)
    have hx : tail ≠ x := List.ne_of_not_mem_cons (List.nodup_cons.mp hnodup).1
    have hxh : x ≠ head := fun heq => hhead (heq ▸ List.mem_cons_self)
    unfold restoreLoop
    rw [htail]
    dsimp only
    cases l with
    | nil =>
      have hnone : m.next x = none := hl
      rw [hnone]
      refine ⟨_, _, rfl, List.mem_cons_self, rfl, ?_, ?_, ?_, ?_, ?_⟩
      · exact fun y hy => m.setPrev_prev_ne _ (List.ne_of_not_mem_cons hy)
      · exact ((m.setPrev x (some tail)).setNext_next_ne _ hx).trans htail
      · exact (Links.setPrev_prev_ne _ _ hxh).trans (m.setPrev_prev _)
      · exact (m.setPrev x (some tail)).setNext_next _
      · exact Links.setPrev_prev _ _
    | cons y l =>
      rw [hl.1, Option.isSome_some, if_pos rfl]
      obtain ⟨m', last, hloop, hlast, hnext, hprev, hlinked⟩ := ih
        (m := m.setPrev x (some tail)) (List.cons_ne_nil _ _)
        (Nat.le_of_succ_le_succ hfuel) (hl.congr fun _ _ => rfl) (List.nodup_cons.mp hnodup).2
        (fun hmem => hhead (List.mem_cons_of_mem _ hmem))
      have hxl : x ∉ y :: l := (List.nodup_cons.mp (List.nodup_cons.mp hnodup).2).1
      have htl : tail ≠ last := by
        rintro rfl
        exact (List.nodup_cons.mp hnodup).1 (List.mem_cons_of_mem _ hlast)
      refine ⟨m', last, hloop, List.mem_cons_of_mem _ hlast, hnext, ?_, ?_, ?_, hlinked⟩
      · intro z hz
        rw [hprev z fun hmem => hz (List.mem_cons_of_mem _ hmem)]
        exact m.setPrev_prev_ne _ (List.ne_of_not_mem_cons hz)
      · show (m'.setNext last (some head)).next tail = some x
        rw [m'.setNext_next_ne _ htl, hnext]
        exact htail
      · refine (Links.setPrev_prev_ne _ _ hxh).trans ?_
        exact (hprev x hxl).trans (m.setPrev_prev _)

/-- The lists are merged between the tail and the head, and no other node is written. -/
structure Restored (cmp : ι → ι → ℤ) (m : Links ι) (tail head : ι) (la lb : List ι)
    (m' : Links ι) : Prop where
  linked : m'.Linked tail (la.merge lb (le cmp)) head
  next : ∀ x ∉ tail :: (la ++ lb), m'.next x = m.next x
  prev : ∀ x ∉ head :: (la ++ lb), m'.prev x = m.prev x

theorem restored_nil (h : la = [] ∨ lb = []) (ha : m.Chain a la) (hb : m.Chain b lb)
    (hnodup : (tail :: (la ++ lb)).Nodup) (hne : la ++ lb ≠ []) (hhead : head ∉ la ++ lb)
    (hfuel : (la ++ lb).length ≤ fuel) :
    ∃ m', Merging.restore fuel head ⟨m, tail, a, b⟩ = some m' ∧
      Restored cmp m tail head la lb m' := by
  have hperm : (la.merge lb (le cmp)).Perm (la ++ lb) := List.merge_perm_append _
  have hmerged := merged_nil cmp h ha hb hnodup
  have hne' : la.merge lb (le cmp) ≠ [] := by
    rintro hnil
    rw [hnil] at hperm
    exact hne hperm.nil_eq.symm
  obtain ⟨m', last, hloop, hlast, hnext, hprev, hlinked⟩ := restoreLoop_linked hne'
    (hperm.length_eq ▸ hfuel) hmerged.chain ((hperm.cons tail).nodup_iff.mpr hnodup)
    (fun hmem => hhead (hperm.mem_iff.mp hmem))
  refine ⟨close head m' last, ?_, hlinked, ?_, ?_⟩
  · unfold Merging.restore Merging.finish
    rw [hloop]
    rfl
  · intro x hx
    have hxl : x ≠ last := by
      rintro rfl
      exact hx (List.mem_cons_of_mem _ (hperm.mem_iff.mp hlast))
    show (m'.setNext last (some head)).next x = m.next x
    rw [m'.setNext_next_ne _ hxl, hnext]
    exact hmerged.next x hx
  · intro x hx
    rw [List.mem_cons, not_or] at hx
    refine (Links.setPrev_prev_ne _ _ hx.1).trans ?_
    exact hprev x fun hmem => hx.2 (hperm.mem_iff.mp hmem)

theorem Restored.cons {m' : Links ι} {x : ι} {la' lb' : List ι}
    (h : Restored cmp (link true m tail x) x head la' lb' m') (hnodup : (tail :: (la ++ lb)).Nodup)
    (hhead : head ∉ la ++ lb) (hperm : (x :: (la' ++ lb')).Perm (la ++ lb))
    (hmerge : la.merge lb (le cmp) = x :: la'.merge lb' (le cmp)) :
    Restored cmp m tail head la lb m' where
  linked := by
    obtain ⟨htail, hrest⟩ := List.nodup_cons.mp hnodup
    have hx : x ∉ head :: (la' ++ lb') := by
      rw [List.mem_cons, not_or]
      refine ⟨?_, (List.nodup_cons.mp (hperm.nodup_iff.mpr hrest)).1⟩
      rintro rfl
      exact hhead (hperm.mem_iff.mp List.mem_cons_self)
    rw [hmerge]
    refine ⟨?_, ?_, h.linked⟩
    · rw [h.next tail fun hmem => htail (hperm.mem_iff.mp hmem), link_next]
      exact m.setNext_next _
    · rw [h.prev x hx]
      exact Links.setPrev_prev _ _
  next y hy := by
    rw [List.mem_cons, not_or] at hy
    rw [h.next y fun hmem => hy.2 (hperm.mem_iff.mp hmem), link_next]
    exact m.setNext_next_ne _ hy.1
  prev y hy := by
    rw [List.mem_cons, not_or] at hy
    have hy' : y ∉ x :: (la' ++ lb') := fun hmem => hy.2 (hperm.mem_iff.mp hmem)
    rw [List.mem_cons, not_or] at hy'
    rw [h.prev y (by rw [List.mem_cons, not_or]; exact ⟨hy.1, hy'.2⟩)]
    exact Links.setPrev_prev_ne _ _ hy'.1

variable (cmp) in
/-- `merge_and_restore_back_links` closes the ring. -/
theorem mergeAndRestoreBackLinks_ring (hfuel : (la ++ lb).length ≤ fuel) (ha : m.Chain a la)
    (hb : m.Chain b lb) (hnodup : (head :: (la ++ lb)).Nodup) (hne : la ++ lb ≠ []) :
    ∃ m', mergeAndRestoreBackLinks cmp fuel head m a b = some m' ∧
      m'.Ring head (la.merge lb (le cmp)) ∧
      ∀ x ∉ head :: (la ++ lb), m'.next x = m.next x ∧ m'.prev x = m.prev x := by
  obtain ⟨s, hloop, hrestored⟩ := mergeLoop_rec cmp fuel true
    (Q := fun m tail la lb s => la ++ lb ≠ [] → head ∉ la ++ lb → (la ++ lb).length ≤ fuel →
      ∃ m', s.restore fuel head = some m' ∧ Restored cmp m tail head la lb m')
    (fun m tail a b la lb h ha hb hnodup hne hhead hfuel =>
      restored_nil h ha hb hnodup hne hhead hfuel)
    (by
      intro m tail x la lb la' lb' s hnodup hperm hne' hmerge h _ hhead hfuel
      have hlen := hperm.length_eq
      rw [List.length_cons] at hlen
      obtain ⟨m', hrestore, hrestored⟩ := h hne'
        (fun hmem => hhead (hperm.mem_iff.mp (List.mem_cons_of_mem _ hmem))) (by omega)
      exact ⟨m', hrestore, hrestored.cons hnodup hhead hperm hmerge⟩)
    (List.length_append ▸ hfuel) ha hb hnodup
  obtain ⟨m', hrestore, hrestored⟩ := hrestored hne (List.nodup_cons.mp hnodup).1 hfuel
  refine ⟨m', ?_, hrestored.linked, fun x hx => ⟨hrestored.next x hx, hrestored.prev x hx⟩⟩
  unfold mergeAndRestoreBackLinks
  rw [hloop]
  exact hrestore

/-! ### The levels -/

/-- Each level holds the sorted chain of its block of nodes, a null pointer for none. -/
def Chains (cmp : ι → ι → ℤ) (m : Links ι) (part : List (Option ι)) (blocks : List (List ι)) :
    Prop :=
  List.Forall₂ (fun p block => m.Chain p (block.mergeSort (le cmp))) part blocks

section
variable {part : List (Option ι)} {blocks : List (List ι)} {block : List ι} {m' : Links ι}
  {p : Option ι}

omit [DecidableEq ι] in
theorem chain_mergeSort_congr (h : m.Chain p (block.mergeSort (le cmp)))
    (heq : ∀ x ∈ block, m'.next x = m.next x) : m'.Chain p (block.mergeSort (le cmp)) :=
  h.congr fun x hx => heq x (List.mem_mergeSort.mp hx)

omit [DecidableEq ι] in
theorem chain_mergeSort_none (h : m.Chain none (block.mergeSort (le cmp))) : block = [] := by
  have hnil := h.eq_none_iff.mp rfl
  rw [← List.length_eq_zero_iff, List.length_mergeSort] at hnil
  exact List.length_eq_zero_iff.mp hnil

omit [DecidableEq ι] in
theorem chain_mergeSort_some {x : ι} (h : m.Chain (some x) (block.mergeSort (le cmp))) :
    block ≠ [] := by
  rintro rfl
  cases h.eq_none_iff.mpr List.mergeSort_nil

omit [DecidableEq ι] in
theorem Chains.congr (h : Chains cmp m part blocks)
    (heq : ∀ x ∈ blocks.flatten, m'.next x = m.next x) : Chains cmp m' part blocks := by
  induction h with
  | nil => exact .nil
  | cons hp _ ih =>
    rw [List.flatten_cons] at heq
    refine .cons (chain_mergeSort_congr hp fun x hx => heq x (List.mem_append_left _ hx)) ?_
    exact ih fun x hx => heq x (List.mem_append_right _ hx)

/-- Behind the inner loop: the levels below the first free one are merged into the chain. -/
structure CarriedTo (cmp : ι → ι → ℤ) (scratch : ι) (m : Links ι) (blocks : List (List ι))
    (block : List ι) (low high : List (List ι)) (c : Carried ι) : Prop where
  blocks : blocks = low ++ [] :: high
  lev : c.lev = low.length
  chains : Chains cmp c.links c.part (List.replicate low.length [] ++ [] :: high)
  cur : c.links.Chain c.cur ((low.reverse.flatten ++ block).mergeSort (le cmp))
  prev : c.links.prev = m.prev
  next : ∀ x ∉ scratch :: (low.flatten ++ block), c.links.next x = m.next x

/-- The blocks behind the inner loop: those below the first free level are taken. -/
def taken (low high : List (List ι)) : List (List ι) := List.replicate low.length [] ++ [] :: high

section
variable {low high : List (List ι)} {k : ℕ}

omit [DecidableEq ι] in
theorem getD_taken (i : ℕ) : (taken low high).getD i [] =
    if i ≤ low.length then [] else (low ++ [] :: high).getD i [] := by
  unfold taken
  have hlen : (List.replicate low.length ([] : List ι)).length = low.length :=
    List.length_replicate
  rcases lt_trichotomy i low.length with hi | rfl | hi
  · rw [if_pos hi.le, List.getD_append _ _ _ _ (hlen.symm ▸ hi), List.getD_replicate _ hi]
  · rw [if_pos le_rfl, List.getD_append_right _ _ _ _ hlen.le, hlen, Nat.sub_self]
    rfl
  · rw [if_neg (not_le.mpr hi), List.getD_append_right _ _ _ _ (hlen.trans_le hi.le),
      List.getD_append_right _ _ _ _ hi.le, hlen]

omit [DecidableEq ι] in
theorem flatten_taken_set (hk : k ≤ low.length) (new : List ι) :
    ((taken low high).set k new).reverse.flatten = high.reverse.flatten ++ new := by
  have hempty (n : ℕ) : (List.replicate n ([] : List ι)).reverse.flatten = [] := by
    rw [List.reverse_replicate]
    exact List.flatten_replicate_nil
  unfold taken
  generalize low.length = n at hk
  induction n generalizing k with
  | zero =>
    obtain rfl := Nat.le_zero.mp hk
    show (new :: high).reverse.flatten = _
    rw [List.reverse_cons, List.flatten_append, List.flatten_singleton]
  | succ n ih =>
    rw [List.replicate_succ, List.cons_append]
    cases k with
    | zero =>
      show (new :: (List.replicate n [] ++ [] :: high)).reverse.flatten = _
      rw [List.reverse_cons, List.reverse_append, List.flatten_append, List.flatten_append,
        hempty, List.append_nil, List.flatten_singleton, List.reverse_cons, List.flatten_append,
        List.flatten_singleton, List.append_nil]
    | succ k =>
      show ([] :: (List.replicate n [] ++ [] :: high).set k new).reverse.flatten = _
      rw [List.reverse_cons, List.flatten_append, List.flatten_singleton, List.append_nil,
        ih (Nat.le_of_succ_le_succ hk)]

omit [DecidableEq ι] in
theorem Chains.set (h : Chains cmp m part blocks) (hp : m.Chain p (block.mergeSort (le cmp)))
    (k : ℕ) : Chains cmp m (part.set k p) (blocks.set k block) := by
  induction h generalizing k with
  | nil => exact .nil
  | cons hq hrest ih =>
    cases k with
    | zero => exact .cons hp hrest
    | succ k => exact .cons hq (ih k)

end

/-- The levels of the outer loop when it has taken the nodes `done`: all are in the levels up to
`max_lev`, the newest in the lowest, and the slot behind the last level is free. -/
structure Levels (cmp : ι → ι → ℤ) (s : Sorting ι) (blocks : List (List ι)) (done : List ι) :
    Prop where
  chains : Chains cmp s.links s.part blocks
  length : blocks.length = maxListLengthBits + 1
  flatten : blocks.reverse.flatten = done
  lt : s.maxLev < maxListLengthBits
  above : ∀ i, s.maxLev < i → blocks.getD i [] = []
  top : (done = [] ∧ s.maxLev = 0) ∨ blocks.getD s.maxLev [] ≠ []

omit [DecidableEq ι] in
theorem CarriedTo.store {x : ι} {low high : List (List ι)} {c : Carried ι} {s : Sorting ι}
    {done : List ι} (h : CarriedTo cmp scratch m blocks [x] low high c)
    (hs : Levels cmp s blocks done) :
    ∃ blocks', Levels cmp (c.store s.maxLev) blocks' (done ++ [x]) ∧
      (c.store s.maxLev).links = c.links := by
  have hlength : low.length + (1 + high.length) = maxListLengthBits + 1 := by
    rw [← hs.length, h.blocks, List.length_append, List.length_cons, Nat.add_comm 1]
  have hdone : high.reverse.flatten ++ (low.reverse.flatten ++ [x]) = done ++ [x] := by
    rw [← hs.flatten, h.blocks, List.reverse_append, List.reverse_cons, List.flatten_append,
      List.flatten_append, List.flatten_singleton, List.append_nil, List.append_assoc]
  have hnew : low.reverse.flatten ++ [x] ≠ [] := List.append_ne_nil_of_right_ne_nil _ (by simp)
  have hlt := hs.lt
  -- the chain goes to level `k`, and the levels go up to `maxLev`
  have hlevels (k maxLev : ℕ) (hk : k ≤ low.length) (hle : s.maxLev ≤ maxLev)
      (hmax : maxLev < maxListLengthBits) (hkm : k ≤ maxLev)
      (htop : k = maxLev ∨ (low.length < maxLev ∧ s.maxLev = maxLev)) :
      Levels cmp ⟨c.links, c.part.set k c.cur, maxLev⟩
        ((taken low high).set k (low.reverse.flatten ++ [x])) (done ++ [x]) := by
    have hset (i : ℕ) (hi : i ≠ k) : ((taken low high).set k (low.reverse.flatten ++ [x])).getD i [] =
        if i ≤ low.length then [] else blocks.getD i [] := by
      rw [h.blocks, ← getD_taken, List.getD_eq_getElem?_getD, List.getElem?_set_ne hi.symm,
        ← List.getD_eq_getElem?_getD]
    refine ⟨h.chains.set h.cur k, ?_, ?_, hmax, ?_, .inr ?_⟩
    · rw [List.length_set, taken, List.length_append, List.length_replicate, List.length_cons]
      omega
    · rw [flatten_taken_set hk, hdone]
    · intro i hi
      have hi : maxLev < i := hi
      rw [hset i (by omega)]
      split
      · rfl
      · exact hs.above i (by omega)
    · show ((taken low high).set k _).getD maxLev [] ≠ []
      rcases htop with rfl | ⟨hlow, rfl⟩
      · have hin : k < (taken low high).length := by
          rw [taken, List.length_append, List.length_replicate, List.length_cons]
          omega
        rw [List.getD_eq_getElem?_getD, List.getElem?_set_self hin]
        exact hnew
      · rw [hset _ (by omega), if_neg (by omega)]
        rcases hs.top with ⟨-, hzero⟩ | htop
        · omega
        · exact htop
  unfold Carried.store
  rw [h.lev]
  split
  · dsimp only
    split
    · exact ⟨_, hlevels _ _ (by omega) (by omega) (by omega) le_rfl (.inl rfl), rfl⟩
    · exact ⟨_, hlevels _ _ le_rfl (by omega) (by omega) le_rfl (.inl rfl), rfl⟩
  · exact ⟨_, hlevels _ _ le_rfl le_rfl hlt (by omega) (by omega), rfl⟩

variable (htrans : ∀ x y z, cmp x y ≤ 0 → cmp y z ≤ 0 → cmp x z ≤ 0)
  (htotal : ∀ x y, cmp x y ≤ 0 ∨ cmp y x ≤ 0)
include htrans htotal

omit [DecidableEq ι] in
theorem merge_blocks (l l' : List ι) :
    (l.mergeSort (le cmp)).merge (l'.mergeSort (le cmp)) (le cmp) =
      (l ++ l').mergeSort (le cmp) := by
  apply merge_mergeSort
  · intro x y z hxy hyz
    exact decide_eq_true (htrans x y z (of_decide_eq_true hxy) (of_decide_eq_true hyz))
  · intro x y
    rw [Bool.or_eq_true]
    exact (htotal x y).imp decide_eq_true decide_eq_true

theorem merge_sorted {l l' : List ι} {a b : Option ι} (hfuel : (l ++ l').length ≤ fuel)
    (ha : m.Chain a (l.mergeSort (le cmp))) (hb : m.Chain b (l'.mergeSort (le cmp)))
    (hnodup : (scratch :: (l ++ l')).Nodup) :
    ∃ m' p, merge cmp fuel scratch m a b = some (m', p) ∧
      m'.Chain p ((l ++ l').mergeSort (le cmp)) ∧ m'.prev = m.prev ∧
      ∀ x ∉ scratch :: (l ++ l'), m'.next x = m.next x := by
  have hperm : (l.mergeSort (le cmp) ++ l'.mergeSort (le cmp)).Perm (l ++ l') :=
    (List.mergeSort_perm l _).append (List.mergeSort_perm l' _)
  obtain ⟨m', p, hmerge, hchain, hprev, hnext⟩ := merge_merged cmp fuel
    (by rw [← List.length_append, hperm.length_eq]; exact hfuel) ha hb
    ((hperm.cons scratch).nodup_iff.mpr hnodup)
  rw [merge_blocks htrans htotal] at hchain
  refine ⟨m', p, hmerge, hchain, hprev, fun x hx => hnext x ?_⟩
  rwa [(hperm.cons scratch).mem_iff]

theorem merge_level {first : List ι} {a cur : Option ι}
    (hp : m.Chain a (first.mergeSort (le cmp))) (hrest : Chains cmp m part blocks)
    (hcur : m.Chain cur (block.mergeSort (le cmp)))
    (hnodup : (scratch :: ((first :: blocks).flatten ++ block)).Nodup)
    (hfuel : ((first :: blocks).flatten ++ block).length ≤ fuel) :
    ∃ m' cur', merge cmp fuel scratch m a cur = some (m', cur') ∧
      Chains cmp m' part blocks ∧ m'.Chain cur' ((first ++ block).mergeSort (le cmp)) ∧
      (scratch :: (blocks.flatten ++ (first ++ block))).Nodup ∧
      (blocks.flatten ++ (first ++ block)).length ≤ fuel ∧ m'.prev = m.prev ∧
      ∀ x ∉ scratch :: (first ++ block), m'.next x = m.next x := by
  rw [List.flatten_cons, List.append_assoc] at hnodup hfuel
  have hswap : (first ++ (blocks.flatten ++ block)).Perm (blocks.flatten ++ (first ++ block)) :=
    List.perm_append_comm_assoc _ _ _
  have hnodup' : (scratch :: (blocks.flatten ++ (first ++ block))).Nodup :=
    (hswap.cons scratch).nodup_iff.mp hnodup
  have hlen : (first ++ block).length ≤ fuel := by
    simp only [List.length_append] at hfuel ⊢
    omega
  obtain ⟨m', cur', hmerge, hchain, hprev, hnext⟩ := merge_sorted htrans htotal hlen hp hcur
    (hnodup'.sublist ((List.sublist_append_right _ _).cons_cons scratch))
  refine ⟨m', cur', hmerge, hrest.congr fun x hx => hnext x ?_, hchain, hnodup',
    hswap.length_eq ▸ hfuel, hprev, hnext⟩
  intro hmem
  rcases List.mem_cons.mp hmem with rfl | hmem
  · exact (List.nodup_cons.mp hnodup').1 (List.mem_append_left _ hx)
  · exact List.disjoint_of_nodup_append (List.nodup_cons.mp hnodup').2 hx hmem

theorem carry_spec (hchains : Chains cmp m part blocks) {cur : Option ι}
    (hcur : m.Chain cur (block.mergeSort (le cmp)))
    (hnodup : (scratch :: (blocks.flatten ++ block)).Nodup)
    (hfuel : (blocks.flatten ++ block).length ≤ fuel) (hfree : [] ∈ blocks) :
    ∃ low high c, carry cmp fuel scratch part m cur = some c ∧
      CarriedTo cmp scratch m blocks block low high c := by
  induction part generalizing m blocks cur block with
  | nil =>
    cases hchains
    cases hfree
  | cons p part ih =>
    cases hchains with
    | @cons _ first _ blocks hp hrest =>
      cases p with
      | none =>
        obtain rfl := chain_mergeSort_none hp
        exact ⟨[], blocks, _, rfl, rfl, rfl, .cons hp hrest, hcur, rfl, fun _ _ => rfl⟩
      | some q =>
        have hfirst := chain_mergeSort_some hp
        obtain ⟨m', cur', hmerge, hrest, hchain, hnodup', hfuel', hprev, hnext⟩ :=
          merge_level htrans htotal hp hrest hcur hnodup hfuel
        obtain ⟨low, high, c, hcarry, hc⟩ := ih hrest hchain hnodup' hfuel'
          ((List.mem_cons.mp hfree).resolve_left hfirst.symm)
        refine ⟨first :: low, high, { c with part := none :: c.part, lev := c.lev + 1 }, ?_, ?_⟩
        · unfold carry
          rw [hmerge, Option.bind_some, hcarry]
          rfl
        · refine ⟨?_, ?_, ?_, ?_, ?_, ?_⟩
          · rw [hc.blocks]
            rfl
          · exact congrArg (· + 1) hc.lev
          · refine .cons ?_ hc.chains
            rw [List.mergeSort_nil]
            rfl
          · rw [List.reverse_cons, List.flatten_append, List.flatten_singleton, List.append_assoc]
            exact hc.cur
          · exact hc.prev.trans hprev
          · intro x hx
            have hx' : (x ∉ scratch :: (low.flatten ++ (first ++ block))) ∧
                x ∉ scratch :: (first ++ block) := by
              simp only [List.flatten_cons, List.mem_cons, List.mem_append, not_or] at hx ⊢
              exact ⟨⟨hx.1, hx.2.1.2, hx.2.1.1, hx.2.2⟩, hx.1, hx.2.1.1, hx.2.2⟩
            exact (hc.next x hx'.1).trans (hnext x hx'.2)

variable (fuel) in
/-- The last loop merges all levels it is given. -/
theorem mergeLevels_spec (hchains : Chains cmp m part blocks) {list : Option ι}
    (hlist : m.Chain list (block.mergeSort (le cmp)))
    (hnodup : (scratch :: (blocks.flatten ++ block)).Nodup)
    (hfuel : (blocks.flatten ++ block).length ≤ fuel) :
    ∃ m' p, mergeLevels cmp fuel scratch part m list = some (m', p) ∧
      m'.Chain p ((blocks.reverse.flatten ++ block).mergeSort (le cmp)) ∧ m'.prev = m.prev ∧
      ∀ x ∉ scratch :: (blocks.flatten ++ block), m'.next x = m.next x := by
  induction part generalizing m blocks list block with
  | nil =>
    cases hchains
    exact ⟨m, list, rfl, hlist, rfl, fun _ _ => rfl⟩
  | cons p part ih =>
    cases hchains with
    | @cons _ first _ blocks hp hrest =>
      cases p with
      | none =>
        obtain rfl := chain_mergeSort_none hp
        rw [List.reverse_cons, List.flatten_append, List.flatten_singleton, List.append_nil]
        exact ih hrest hlist hnodup hfuel
      | some q =>
        obtain ⟨m', cur', hmerge, hrest, hchain, hnodup', hfuel', hprev, hnext⟩ :=
          merge_level htrans htotal hp hrest hlist hnodup hfuel
        obtain ⟨m'', p, hlevels, hchain', hprev', hnext'⟩ := ih hrest hchain hnodup' hfuel'
        refine ⟨m'', p, ?_, ?_, hprev'.trans hprev, ?_⟩
        · unfold mergeLevels
          rw [hmerge, Option.bind_some, hlevels]
        · rw [List.reverse_cons, List.flatten_append, List.flatten_singleton, List.append_assoc]
          exact hchain'
        · intro x hx
          have hx' : (x ∉ scratch :: (blocks.flatten ++ (first ++ block))) ∧
              x ∉ scratch :: (first ++ block) := by
            simp only [List.flatten_cons, List.mem_cons, List.mem_append, not_or] at hx ⊢
            exact ⟨⟨hx.1, hx.2.1.2, hx.2.1.1, hx.2.2⟩, hx.1, hx.2.1.1, hx.2.2⟩
          exact (hnext' x hx'.1).trans (hnext x hx'.2)

/-! ### The outer loop -/

theorem sortLoop_spec {s : Sorting ι} {done rest : List ι} {list : Option ι} {n : ℕ}
    (hs : Levels cmp s blocks done) (hlist : s.links.Chain list rest)
    (hnodup : (scratch :: (done ++ rest)).Nodup) (hfuel : (done ++ rest).length ≤ fuel)
    (hn : rest.length ≤ n) :
    ∃ s' blocks', sortLoop cmp fuel scratch n s list = some s' ∧
      Levels cmp s' blocks' (done ++ rest) ∧ s'.links.prev = s.links.prev ∧
      ∀ x ∉ scratch :: (done ++ rest), s'.links.next x = s.links.next x := by
  induction rest generalizing n s list blocks done with
  | nil =>
    obtain rfl : list = none := hlist
    refine ⟨s, blocks, ?_, by rwa [List.append_nil], rfl, fun _ _ => rfl⟩
    cases n <;> rfl
  | cons x rest ih =>
    obtain ⟨rfl, hlist⟩ := hlist
    rw [List.length_cons] at hn
    obtain ⟨n, rfl⟩ := Nat.exists_eq_succ_of_ne_zero (show n ≠ 0 by omega)
    have hblocks : blocks.flatten.Perm done := by
      rw [← hs.flatten]
      exact (List.reverse_perm blocks).flatten.symm
    have hflat : (blocks.flatten ++ x :: rest).Perm (done ++ x :: rest) := hblocks.append_right _
    have hnodup' : (scratch :: (blocks.flatten ++ x :: rest)).Nodup :=
      (hflat.cons scratch).nodup_iff.mpr hnodup
    obtain ⟨hscratch, hall⟩ := List.nodup_cons.mp hnodup'
    have hx : ∀ y ∈ blocks.flatten, y ≠ x := fun y hy heq =>
      List.disjoint_of_nodup_append hall hy (heq ▸ List.mem_cons_self)
    have hxrest : ∀ y ∈ rest, y ≠ x := by
      rintro y hy rfl
      exact (List.nodup_cons.mp (hall.sublist (List.sublist_append_right _ _))).1 hy
    -- the node by itself
    have hcur : (s.links.setNext x none).Chain (some x) ([x].mergeSort (le cmp)) := by
      rw [List.mergeSort_singleton]
      exact ⟨rfl, s.links.setNext_next _⟩
    have hfree : [] ∈ blocks := by
      have hlast : blocks.getD maxListLengthBits [] = [] := hs.above _ hs.lt
      have hin : maxListLengthBits < blocks.length := by
        rw [hs.length]
        exact Nat.lt_succ_self _
      rw [List.getD_eq_getElem _ _ hin] at hlast
      exact hlast ▸ List.getElem_mem hin
    have hsub : (blocks.flatten ++ [x]).Sublist (blocks.flatten ++ x :: rest) :=
      (List.sublist_append_left [x] rest).append_left blocks.flatten
    obtain ⟨low, high, c, hcarry, hc⟩ := carry_spec htrans htotal
      (hs.chains.congr fun y hy => s.links.setNext_next_ne none (hx y hy)) hcur
      (hnodup'.sublist (hsub.cons_cons scratch))
      (hsub.length_le.trans (hflat.length_eq ▸ hfuel)) hfree
    obtain ⟨blocks', hlevels, hlinks⟩ := hc.store hs
    have hlow : low.flatten ⊆ blocks.flatten := by
      rw [hc.blocks, List.flatten_append]
      exact List.subset_append_left _ _
    have hkept : ∀ y ∉ scratch :: (done ++ [x]), c.links.next y = s.links.next y := by
      intro y hy
      rw [((hblocks.append_right [x]).cons scratch).mem_iff.symm] at hy
      have hyx : y ≠ x := by
        rintro rfl
        exact hy (by simp)
      rw [hc.next y, s.links.setNext_next_ne none hyx]
      intro hmem
      apply hy
      rcases List.mem_cons.mp hmem with rfl | hmem
      · exact List.mem_cons_self
      · rw [List.mem_cons, List.mem_append]
        exact .inr ((List.mem_append.mp hmem).imp (fun h => hlow h) id)
    have hnodup'' : (scratch :: (done ++ [x] ++ rest)).Nodup := by
      rwa [List.append_assoc]
    have hrest : (c.store s.maxLev).links.Chain (s.links.next x) rest := by
      rw [hlinks]
      refine hlist.congr fun y hy => hkept y ?_
      intro hmem
      rcases List.mem_cons.mp hmem with rfl | hmem
      · exact hscratch (List.mem_append_right _ (List.mem_cons_of_mem _ hy))
      · exact List.disjoint_of_nodup_append (List.nodup_cons.mp hnodup'').2 hmem hy
    obtain ⟨s', blocks'', hloop, hlevels', hprev, hnext⟩ := ih (n := n) hlevels hrest hnodup''
      (by rwa [List.append_assoc]) (by omega)
    rw [List.append_assoc] at hlevels'
    refine ⟨s', blocks'', ?_, hlevels', ?_, ?_⟩
    · unfold sortLoop
      rw [hcarry, Option.bind_some]
      exact hloop
    · rw [hprev, hlinks, hc.prev]
      rfl
    · intro y hy
      rw [hnext y (by rwa [List.append_assoc]), hlinks]
      apply hkept y
      intro hmem
      apply hy
      rcases List.mem_cons.mp hmem with rfl | hmem
      · exact List.mem_cons_self
      · exact List.mem_cons_of_mem _ (by simpa using List.mem_append_left rest hmem)

/-! ### The sorted ring -/

omit [DecidableEq ι] htrans htotal in
theorem levels_init (cmp : ι → ι → ℤ) (m : Links ι) :
    Levels cmp ⟨m, List.replicate (maxListLengthBits + 1) none, 0⟩
      (List.replicate (maxListLengthBits + 1) []) [] := by
  have hchains (n : ℕ) : Chains cmp m (List.replicate n none) (List.replicate n []) := by
    induction n with
    | zero => exact .nil
    | succ n ih =>
      refine .cons ?_ ih
      rw [List.mergeSort_nil]
      rfl
  refine ⟨hchains _, List.length_replicate, ?_, Nat.succ_pos _, ?_, .inl ⟨rfl, rfl⟩⟩
  · rw [List.reverse_replicate]
    exact List.flatten_replicate_nil
  · intro i _
    rw [List.getD_eq_getElem?_getD, List.getElem?_replicate]
    split <;> rfl

omit [DecidableEq ι] htrans htotal in
/-- The nodes of the levels: those of the last level in front of the others. -/
theorem Levels.split {s : Sorting ι} {done : List ι} (h : Levels cmp s blocks done)
    (hdone : done ≠ []) : ∃ block p, block ≠ [] ∧ s.part[s.maxLev]? = some p ∧
      s.links.Chain p (block.mergeSort (le cmp)) ∧
      done = block ++ (blocks.take s.maxLev).reverse.flatten := by
  have hlt := h.lt
  have hlength := h.length
  have hin : s.maxLev < blocks.length := by omega
  have hpart : s.maxLev < s.part.length := by
    rw [h.chains.length_eq]
    exact hin
  have hempty : (blocks.drop (s.maxLev + 1)).reverse.flatten = [] := by
    rw [List.flatten_eq_nil_iff]
    intro block hblock
    obtain ⟨i, hi, rfl⟩ := List.getElem_of_mem (List.mem_reverse.mp hblock)
    have hdrop : i < (blocks.drop (s.maxLev + 1)).length := hi
    rw [List.length_drop] at hdrop
    have habove := h.above (s.maxLev + 1 + i) (by omega)
    rw [List.getD_eq_getElem _ _ (by omega)] at habove
    rw [List.getElem_drop]
    exact habove
  have hblock : blocks[s.maxLev] ≠ [] := by
    rw [← List.getD_eq_getElem _ [] hin]
    exact h.top.resolve_left fun hnil => hdone hnil.1
  refine ⟨blocks[s.maxLev], s.part[s.maxLev], hblock, List.getElem?_eq_getElem hpart,
    h.chains.get hpart hin, ?_⟩
  rw [← h.flatten]
  conv_lhs => rw [← List.take_append_drop s.maxLev blocks, List.drop_eq_getElem_cons hin]
  rw [List.reverse_append, List.reverse_cons, List.flatten_append, List.flatten_append, hempty,
    List.flatten_singleton, List.nil_append]

/-- `list_sort` on a ring of nodes. -/
theorem listSort_ring {l : List ι} (hring : m.Ring head l) (hnodup : (scratch :: head :: l).Nodup)
    (hfuel : l.length ≤ fuel) :
    ∃ m', listSort cmp fuel scratch m head = some m' ∧ m'.Ring head (l.mergeSort (le cmp)) ∧
      ∀ x ∉ scratch :: head :: l, m'.next x = m.next x ∧ m'.prev x = m.prev x := by
  have hheadl : (head :: l).Nodup := (List.nodup_cons.mp hnodup).2
  have hscratchl : (scratch :: l).Nodup :=
    hnodup.sublist ((List.sublist_cons_self head l).cons_cons scratch)
  have hhead : head ∉ l := (List.nodup_cons.mp hheadl).1
  rcases List.eq_nil_or_concat' l with rfl | ⟨front, last, rfl⟩
  · refine ⟨m, ?_, ?_, fun _ _ => ⟨rfl, rfl⟩⟩
    · unfold listSort
      rw [if_pos hring.1]
    · rwa [List.mergeSort_nil]
  · obtain ⟨hpath, -, hprevhead⟩ := Links.linked_concat.mp hring
    have hne : front ++ [last] ≠ [] := List.append_ne_nil_of_right_ne_nil _ (by simp)
    have hlast : last ≠ head := fun heq => hhead (heq ▸ by simp)
    have hnothead : m.next head ≠ some head := by
      intro heq
      cases front with
      | nil => exact hlast (Option.some.inj (hpath.1.symm.trans heq))
      | cons x front => exact hhead (Option.some.inj (hpath.1.symm.trans heq) ▸ by simp)
    -- the ring is opened behind its last node
    have hchain : (m.setNext last none).Chain ((m.setNext last none).next head)
        (front ++ [last]) := by
      have hopen : (m.setNext last none).Linked head front last := by
        refine hpath.congr (fun z hz => m.setNext_next_ne none ?_) fun _ _ => rfl
        rintro rfl
        rcases List.mem_cons.mp hz with rfl | hz
        · exact hlast rfl
        · exact List.disjoint_of_nodup_append (List.nodup_cons.mp hheadl).2 hz (by simp)
      exact hopen.chain (m.setNext_next none)
    obtain ⟨s, blocks, hloop, hlevels, hprev, hnext⟩ := sortLoop_spec htrans htotal
      (levels_init cmp (m.setNext last none)) hchain hscratchl hfuel hfuel
    rw [List.nil_append] at hlevels hnext
    obtain ⟨block, top, hblock, htop, htopchain, hsplit⟩ := hlevels.split hne
    generalize hlow : blocks.take s.maxLev = low at hsplit
    have hperm : (block ++ low.flatten).Perm (front ++ [last]) := by
      rw [hsplit]
      exact (List.reverse_perm low).flatten.symm.append_left block
    have hscratch : (scratch :: (block ++ low.flatten)).Nodup :=
      (hperm.cons scratch).nodup_iff.mpr hscratchl
    have hlowsub : low.flatten.Sublist (block ++ low.flatten) := List.sublist_append_right _ _
    obtain ⟨m2, list, hmerges, hlist, hprev2, hnext2⟩ := mergeLevels_spec fuel htrans htotal
      (hlow ▸ List.forall₂_take s.maxLev hlevels.chains)
      (by rw [List.mergeSort_nil]; rfl) (by
        rw [List.append_nil]
        exact hscratch.sublist (hlowsub.cons_cons scratch))
      (by
        rw [List.append_nil]
        exact hlowsub.length_le.trans (hperm.length_eq.trans_le hfuel))
    rw [List.append_nil] at hlist hnext2
    have htopchain2 : m2.Chain top (block.mergeSort (le cmp)) := by
      refine chain_mergeSort_congr htopchain fun x hx => hnext2 x ?_
      intro hmem
      rcases List.mem_cons.mp hmem with rfl | hmem
      · exact (List.nodup_cons.mp hscratch).1 (List.mem_append_left _ hx)
      · exact List.disjoint_of_nodup_append (List.nodup_cons.mp hscratch).2 hx hmem
    have hsorted : (block.mergeSort (le cmp) ++ low.reverse.flatten.mergeSort (le cmp)).Perm
        (front ++ [last]) := by
      rw [hsplit]
      exact (List.mergeSort_perm _ _).append (List.mergeSort_perm _ _)
    obtain ⟨m3, hrestore, hring3, hnext3⟩ := mergeAndRestoreBackLinks_ring cmp
      (hsorted.length_eq.trans_le hfuel) htopchain2 hlist
      ((hsorted.cons head).nodup_iff.mpr hheadl) (by
        intro hnil
        rw [hnil] at hsorted
        exact hne hsorted.nil_eq.symm)
    rw [merge_blocks htrans htotal, ← hsplit] at hring3
    refine ⟨m3, ?_, hring3, ?_⟩
    · unfold listSort
      rw [if_neg hnothead, hprevhead]
      simp only [bind, Option.bind_some, hloop, hmerges, htop]
      exact hrestore
    · intro x hx
      simp only [List.mem_cons, not_or] at hx
      obtain ⟨hxscratch, hxhead, hxl⟩ := hx
      have hx1 : x ∉ scratch :: (front ++ [last]) := by
        rw [List.mem_cons, not_or]
        exact ⟨hxscratch, hxl⟩
      have hx2 : x ∉ scratch :: low.flatten := by
        rw [List.mem_cons, not_or]
        exact ⟨hxscratch, fun hmem => hxl (hperm.mem_iff.mp (List.mem_append_right _ hmem))⟩
      have hx3 : x ∉ head :: (block.mergeSort (le cmp) ++
          low.reverse.flatten.mergeSort (le cmp)) := by
        rw [List.mem_cons, not_or, hsorted.mem_iff]
        exact ⟨hxhead, hxl⟩
      have hxlast : x ≠ last := by
        rintro rfl
        exact hxl (by simp)
      obtain ⟨hn, hp⟩ := hnext3 x hx3
      constructor
      · rw [hn, hnext2 x hx2, hnext x hx1]
        exact m.setNext_next_ne none hxlast
      · rw [hp, hprev2, hprev]
        rfl

end

/-! ### The entries of a listing -/

def strcmp : Str → Str → ℤ
  | [], [] => 0
  | [], _ :: _ => -1
  | _ :: _, [] => 1
  | a :: as, b :: bs => if a = b then strcmp as bs else if a < b then -1 else 1

theorem strcmp_nonpos (a b : Str) : strcmp a b ≤ 0 ↔ strcmpLe a b = true := by
  induction a generalizing b with
  | nil => cases b <;> simp [strcmp, strcmpLe]
  | cons x a ih =>
    cases b with
    | nil => simp [strcmp, strcmpLe]
    | cons y b =>
      rw [strcmp, strcmpLe]
      split
      · exact ih b
      · rw [decide_eq_true_eq]
        split <;> simp_all

/-- `bystrcmp`; `offset` is that of a node's entry in the buffer. -/
def bystrcmp (buf : List UInt8) (offset : ι → ℕ) (a b : ι) : ℤ :=
  strcmp (cstr (buf.drop (offset a))) (cstr (buf.drop (offset b)))

/-- The ring of the entries is sorted: it holds the same nodes in the order of their texts, those of
one text in the order they came, and its texts are those that are printed. -/
theorem list_sort_entries (o : Outbuf) (offset : ι → ℕ) {m : Links ι} {head scratch : ι}
    {l : List ι} {fuel : ℕ} (hring : m.Ring head l) (hnodup : (scratch :: head :: l).Nodup)
    (hsorted : l.map offset = o.sorted) (hfuel : l.length ≤ fuel) :
    ∃ m' l', listSort (bystrcmp o.buf offset) fuel scratch m head = some m' ∧ m'.Ring head l' ∧
      l' = l.mergeSort (fun a b => bystrcmp o.buf offset a b ≤ 0) ∧
      l'.map (fun x => cstr (o.buf.drop (offset x))) =
        (o.sorted.map fun offset => cstr (o.buf.drop offset)).mergeSort strcmpLe ∧
      ∀ x ∉ scratch :: head :: l, m'.next x = m.next x ∧ m'.prev x = m.prev x := by
  have hle (a b : ι) : bystrcmp o.buf offset a b ≤ 0 ↔
      strcmpLe (cstr (o.buf.drop (offset a))) (cstr (o.buf.drop (offset b))) = true :=
    strcmp_nonpos _ _
  obtain ⟨m', hsort, hring', hkept⟩ := @listSort_ring _ _ (bystrcmp o.buf offset) _ _ _ _
    (by
      intro x y z
      rw [hle, hle, hle]
      exact strcmpLe_trans _ _ _)
    (by
      intro x y
      rw [hle, hle, ← Bool.or_eq_true]
      exact strcmpLe_total _ _)
    _ hring hnodup hfuel
  refine ⟨m', _, hsort, hring', rfl, ?_, hkept⟩
  rw [← hsorted, List.map_map]
  apply List.map_mergeSort
  intro a _ b _
  rw [Bool.eq_iff_iff, le, decide_eq_true_eq]
  exact hle a b

/-- A ring of three entries, `b`, `a` and `b` again. -/
def threeLinks : Links ℕ where
  next
    | 0 => some 1
    | 1 => some 2
    | 2 => some 3
    | _ => some 0
  prev
    | 0 => some 3
    | 1 => some 0
    | 2 => some 1
    | _ => some 2

theorem list_sort_entries_three : ∃ m' l', listSort (bystrcmp [98, 0, 97, 0, 98, 0] (2 * · - 2)) 3
    9 threeLinks 0 = some m' ∧ m'.Ring 0 l' ∧ l'.Perm [1, 2, 3] := by
  obtain ⟨m', l', hsort, hring, rfl, -, -⟩ := @list_sort_entries ℕ _
    ⟨[98, 0, 97, 0, 98, 0], 8, [0, 2, 4], 0, []⟩ (2 * · - 2) threeLinks 0 9 [1, 2, 3] 3 ⟨rfl, rfl, rfl, rfl, rfl, rfl, rfl, rfl⟩
    (by decide) rfl le_rfl
  exact ⟨m', _, hsort, hring, List.mergeSort_perm _ _⟩

end Dset.User.ListSort
