import Dset.Hash.Uref

/-! Who destroys the tables, over every interleaving of a resizing and any number of
dump sessions: the steps of either party keep the invariant, unless a session that
brought `uref` of the current table to zero finds that `ref` is not zero. -/

namespace Dset.Hash

open Dset.Lib

namespace Uref

variable {s s' : Uref} {i t : ℕ} {p q : DumpPhase}

/-! ### The dump sessions -/

/-- A session in phase `p` goes to phase `q` and changes the counters of table `t`
but `ref`. -/
theorem Owned.setDump (h : s.Owned) (hi : s.dumps[i]? = some p) {f : Counters → Counters}
    (href : (f (s.tables t)).ref = (s.tables t).ref)
    (hother : ∀ t', t' ≠ t → q.holds t' = p.holds t' ∧ q.destroys t' = p.destroys t')
    (ht : t < s.next → ((s.modify t f).setDump i q).TableOk t)
    (hq : s.DumpOk q) : ((s.modify t f).setDump i q).Owned := by
  have href' : ∀ t', (((s.modify t f).setDump i q).tables t').ref = (s.tables t').ref := by
    intro t'
    show ((s.modify t f).tables t').ref = _
    rw [modify_tables]
    split
    · rename_i heq
      rw [href, heq]
    · rfl
  have hdump : ∀ r, s.DumpOk r → ((s.modify t f).setDump i q).DumpOk r := fun r hr =>
    hr.congr (Nat.le_refl _) rfl (fun t' _ _ => href' t') fun _ _ hpub => hpub
  refine ⟨h.table_lt, ?_, ?_, all_set (fun r hr => hdump r (h.dump r hr)) (hdump q hq)⟩
  · intro t' hlt
    by_cases heq : t' = t
    · exact heq ▸ ht (heq ▸ hlt)
    · obtain ⟨hh, hd⟩ := hother t' heq
      have h1 := holders_setDump hi q t f t'
      have h2 := destroyers_setDump hi q t f t'
      have htables : ((s.modify t f).setDump i q).tables t' = s.tables t' := by simp [heq]
      exact (h.table t' hlt).congr Iff.rfl Iff.rfl (by rw [htables]) (fun _ => by rw [htables])
        (by rw [htables]) (by omega) (by omega)
  · have hr := h.resize
    show ((s.modify t f).setDump i q).ResizeOk s.resize
    cases hres : s.resize <;> rw [hres] at hr <;>
      simp only [ResizeOk, href'] at hr ⊢ <;> exact hr

theorem Owned.setDump_same (h : s.Owned) (hi : s.dumps[i]? = some p)
    (hholds : ∀ t, q.holds t = p.holds t) (hdestroys : ∀ t, q.destroys t = p.destroys t)
    (hq : s.DumpOk q) : (s.setDump i q).Owned := by
  have hid : s.modify s.table id = s := by simp [modify]
  have := h.setDump (t := s.table) hi (f := id) rfl (fun t _ => ⟨hholds t, hdestroys t⟩) ?_ hq
  · rwa [hid] at this
  · intro hlt
    have h1 := holders_setDump hi q s.table id s.table
    have h2 := destroyers_setDump hi q s.table id s.table
    refine (h.table _ hlt).congr Iff.rfl Iff.rfl ?_ (fun _ => ?_) ?_ (by rw [hholds] at h1; omega)
      (by rw [hdestroys] at h2; omega) <;> rw [hid] <;> rfl

/-- The new table of a resizing is not yet the current one. -/
theorem Owned.new_ne (h : s.Owned) (hnew : s.resize.new = some t) : t < s.next ∧ t ≠ s.table := by
  have hr := h.resize
  cases hres : s.resize <;> simp only [hres, ResizePhase.new, ResizeOk, reduceCtorEq,
    Option.some.injEq] at hr hnew <;> grind

theorem Owned.startHolding (h : s.Owned) (hi : s.dumps[i]? = some (.reading t)) :
    ((s.modify t fun x => { x with uref := x.uref + 1 }).setDump i (.holding t)).Owned := by
  -- the table is current, or replaced and its resizing waits for this session
  have hread : t = s.table ∨ s.resize = .published t := h.dump _ (List.mem_of_getElem? hi)
  have huse : t = s.table ∨ 0 < s.holders t := by
    refine hread.imp_right fun heq => ?_
    rw [holders, heq]
    simp [ResizePhase.holds]
  have hlt : t < s.next := by
    rcases hread with rfl | heq
    · exact h.table_lt
    · have := h.resize
      rw [heq] at this
      exact this.1
  have hok := h.table t hlt
  have hnew : s.resize.new ≠ some t := by
    intro hnew
    have := hok.new hnew
    have := huse.resolve_left (h.new_ne hnew).2
    omega
  refine h.setDump hi rfl (fun t' hne => by simp [DumpPhase.holds, DumpPhase.destroys, hne.symm])
    (fun _ => ?_) hlt
  have h1 := holders_setDump hi (.holding t) t (fun x => { x with uref := x.uref + 1 }) t
  have h2 := destroyers_setDump hi (.holding t) t (fun x => { x with uref := x.uref + 1 }) t
  simp only [DumpPhase.holds, DumpPhase.destroys, if_true] at h1 h2
  exact hok.take huse hnew Iff.rfl Iff.rfl (by simp) (by simp) (by simp) h1 h2

theorem Owned.stopHolding (h : s.Owned) (hi : s.dumps[i]? = some (.holding t)) :
    ((s.modify t fun x => { x with uref := x.uref - 1 }).setDump i
      (if (s.tables t).uref - 1 = 0 then .zeroed t (t = s.table) else .idle)).Owned := by
  have hmem := List.mem_of_getElem? hi
  have hlt : t < s.next := h.dump _ hmem
  have hok := h.table t hlt
  have hpos : 1 ≤ s.holders t := by simpa [DumpPhase.holds] using holds_le hmem t
  have hlast : (s.tables t).uref - 1 = 0 ↔ s.holders t = 1 := by
    rw [hok.uref]
    omega
  have hq : s.DumpOk (if (s.tables t).uref - 1 = 0 then .zeroed t (t = s.table) else .idle) := by
    split
    · intro hne
      have hne : t ≠ s.table := by simpa using hne
      exact ⟨hlt, hne, hok.ref hne hpos⟩
    · trivial
  have hholds : ∀ t', DumpPhase.holds t'
      (if (s.tables t).uref - 1 = 0 then .zeroed t (t = s.table) else .idle) = 0 := by
    intro t'
    split <;> rfl
  have hdestroys : ∀ t', DumpPhase.destroys t'
      (if (s.tables t).uref - 1 = 0 then .zeroed t (t = s.table) else .idle) =
        if t = t' ∧ t ≠ s.table ∧ s.holders t = 1 then 1 else 0 := by
    intro t'
    simp only [hlast]
    split <;> simp [DumpPhase.destroys, *]
  revert hq hholds hdestroys
  generalize (if (s.tables t).uref - 1 = 0 then DumpPhase.zeroed t (t = s.table) else .idle) = q
  intro hq hholds hdestroys
  refine h.setDump hi rfl (fun t' hne => ?_) (fun _ => ?_) hq
  · rw [hholds, hdestroys, if_neg fun hc => hne hc.1.symm]
    simp [DumpPhase.holds, DumpPhase.destroys, hne.symm]
  · have h1 := holders_setDump hi q t (fun x => { x with uref := x.uref - 1 }) t
    have h2 := destroyers_setDump hi q t (fun x => { x with uref := x.uref - 1 }) t
    rw [hholds] at h1
    rw [hdestroys] at h2
    simp only [DumpPhase.holds, DumpPhase.destroys, if_true, true_and, Nat.add_zero] at h1 h2
    refine hok.giveBack Iff.rfl Iff.rfl (by simp) (by simp) (by simp) h1 (h2.trans ?_)
    have hone : s.holders t = 1 ↔ ((s.modify t fun x => { x with uref := x.uref - 1 }).setDump i
      q).holders t = 0 := by omega
    simp only [hone]

/-- The steps of a session that no resizing overtook. -/
theorem Owned.dumpStep (h : s.Owned) (hs : s.dumpStep i = some s')
    (hover : s.overtaken (.dump i) = false) : s'.Owned := by
  unfold Uref.dumpStep at hs
  split at hs
  · cases hs
  · rename_i hi
    cases hs
    exact h.setDump_same hi (fun _ => rfl) (fun _ => rfl) (.inl rfl)
  · rename_i t hi
    cases hs
    exact h.startHolding hi
  · rename_i t hi
    cases hs
    exact h.stopHolding hi
  · rename_i t current hi
    cases hs
    have hmem := List.mem_of_getElem? hi
    have hok := h.dump _ hmem
    cases current with
    | true =>
      -- not overtaken: `ref` is zero
      have href : (s.tables t).ref = 0 := by simpa [overtaken, hi] using hover
      rw [if_pos href]
      exact h.setDump_same hi (fun _ => rfl) (fun _ => by simp [DumpPhase.destroys]) trivial
    | false =>
      obtain ⟨hlt, hne, href⟩ := hok rfl
      rw [if_neg (by omega)]
      exact h.setDump_same hi (fun _ => rfl) (fun _ => by simp [DumpPhase.destroys]) ⟨hlt, hne⟩
  · rename_i t hi
    cases hs
    refine h.setDump hi rfl (fun t' hne => by simp [DumpPhase.holds, DumpPhase.destroys, hne.symm])
      (fun hlt => ?_) trivial
    have h1 := holders_setDump hi .idle t (fun x => { x with destroyed := x.destroyed + 1 }) t
    have h2 := destroyers_setDump hi .idle t (fun x => { x with destroyed := x.destroyed + 1 }) t
    simp only [DumpPhase.holds, DumpPhase.destroys, if_true] at h1 h2
    exact (h.table t hlt).destroyed Iff.rfl Iff.rfl (by simp) (by simp) (by simp) h1 h2

/-! ### The resizing -/

/-- A step of `mtype_resize` changes who holds and who destroys by its own share. -/
theorem holders_setResize (s : Uref) (r : ResizePhase) (t : ℕ) (f : Counters → Counters) (t' : ℕ) :
    ((s.modify t f).setResize r).holders t' + s.resize.holds t' = s.holders t' + r.holds t' := by
  simp only [holders, setResize, modify]
  omega

theorem destroyers_setResize (s : Uref) (r : ResizePhase) (t : ℕ) (f : Counters → Counters)
    (t' : ℕ) : ((s.modify t f).setResize r).destroyers t' + s.resize.destroys t' =
      s.destroyers t' + r.destroys t' := by
  simp only [destroyers, setResize, modify]
  omega

/-- `mtype_resize` goes on and changes the counters of table `t`. -/
theorem Owned.setResize (h : s.Owned) {r : ResizePhase} {f : Counters → Counters}
    (href : t ≠ s.table → (f (s.tables t)).ref = (s.tables t).ref)
    (htables : ∀ t', t' < s.next → ((s.modify t f).setResize r).TableOk t')
    (hpub : ∀ t', s.resize = .published t' → .reading t' ∉ s.dumps)
    (hr : ((s.modify t f).setResize r).ResizeOk r) : ((s.modify t f).setResize r).Owned := by
  refine ⟨h.table_lt, htables, hr, fun p hp => ?_⟩
  refine (h.dump p hp).congr (Nat.le_refl _) rfl (fun t' _ hne => ?_) fun t' heq hres => ?_
  · rw [setResize_tables, modify_tables]
    split
    · rename_i heq
      rw [href (heq ▸ hne), heq]
    · rfl
  · exact absurd (heq ▸ hp) (hpub t' hres)

/-- A table of which a step of `mtype_resize` changes at most `ref`, when it is the
current one. -/
theorem TableOk.setResize (h : s.TableOk t) {r : ResizePhase} {t' : ℕ} {f : Counters → Counters}
    (hf : t = t' → (f (s.tables t)).uref = (s.tables t).uref ∧
      (f (s.tables t)).destroyed = (s.tables t).destroyed ∧
      (t ≠ s.table → (f (s.tables t)).ref = (s.tables t).ref))
    (hnew : r.new = some t ↔ s.resize.new = some t)
    (hholds : r.holds t = s.resize.holds t) (hdestroys : r.destroys t = s.resize.destroys t) :
    ((s.modify t' f).setResize r).TableOk t := by
  have h1 := holders_setResize s r t' f t
  have h2 := destroyers_setResize s r t' f t
  rw [hholds] at h1
  rw [hdestroys] at h2
  by_cases heq : t = t'
  · subst heq
    obtain ⟨huref, hdestroyed, href⟩ := hf rfl
    exact h.congr Iff.rfl hnew (by simpa using huref) (by simpa using href)
      (by simpa using hdestroyed) (by omega) (by omega)
  · exact h.congr Iff.rfl hnew (by simp [heq]) (fun _ => by simp [heq]) (by simp [heq])
      (by omega) (by omega)

theorem Owned.allocate (h : s.Owned) (hres : s.resize = .idle) :
    ({ s with tables := Function.update s.tables s.next ⟨0, 0, 0⟩, next := s.next + 1,
              resize := .allocated s.next } : Uref).Owned := by
  have hholders : ∀ t, s.holders t = held (DumpPhase.holds t) s.dumps := fun t => by
    rw [holders, hres]
    rfl
  have hdestroyers : ∀ t, s.destroyers t = held (DumpPhase.destroys t) s.dumps := fun t => by
    rw [destroyers, hres]
    rfl
  refine ⟨Nat.lt_succ_of_lt h.table_lt, fun t hlt => ?_,
    ⟨Nat.lt_succ_self _, Nat.ne_of_gt h.table_lt⟩, fun p hp => ?_⟩
  · by_cases heq : t = s.next
    · -- nobody has seen the new table
      subst heq
      have h1 : held (DumpPhase.holds s.next) s.dumps = 0 := by
        rw [held_eq_zero]
        intro p hp
        have := h.dump p hp
        cases p <;> simp only [DumpPhase.holds, DumpOk] at this ⊢
        rw [if_neg (Nat.ne_of_lt this)]
      have h2 : held (DumpPhase.destroys s.next) s.dumps = 0 := by
        rw [held_eq_zero]
        intro p hp
        have := h.dump p hp
        cases p <;> simp only [DumpPhase.destroys, DumpOk] at this ⊢
        · rw [if_neg fun hc => Nat.ne_of_lt (this hc.2).1 hc.1]
        · rw [if_neg (Nat.ne_of_lt this.1)]
      constructor
      · simp [holders, h1, ResizePhase.holds]
      · intro _
        simp [destroyers, h2, ResizePhase.destroys]
      · intro hno
        exact absurd (.inr (.inl rfl)) hno
      · intro _ hpos
        simp [holders, h1, ResizePhase.holds] at hpos
      · intro _
        simp [holders, h1, ResizePhase.holds]
    · have htables : Function.update s.tables s.next ⟨0, 0, 0⟩ t = s.tables t :=
        Function.update_of_ne heq _ _
      have hlt : t < s.next + 1 := hlt
      refine (h.table t (by omega)).congr Iff.rfl (iff_of_false ?_ ?_) ?_ (fun _ => ?_) ?_
        (hholders t).symm (hdestroyers t).symm
      · exact fun hn => heq (Option.some.inj hn).symm
      · rw [hres]
        exact fun hn => by cases hn
      all_goals simp only [htables]
  · refine (h.dump p hp).congr (Nat.le_succ _) rfl (fun t hlt _ => ?_) fun t _ hpub => ?_
    · simp only [Function.update_of_ne (Nat.ne_of_lt hlt)]
    · rw [hres] at hpub
      cases hpub

theorem Owned.publish (h : s.Owned) {orig : ℕ} (hres : s.resize = .filling orig t) :
    ({ s with table := t, resize := .published orig } : Uref).Owned := by
  have hr := h.resize
  rw [hres] at hr
  obtain ⟨rfl, href, hlt, hne⟩ := hr
  have hholders : ∀ t', ({ s with table := t, resize := .published s.table } : Uref).holders t' =
      s.holders t' := fun t' => by
    simp only [holders, hres, ResizePhase.holds]
  have hdestroyers : ∀ t', ({ s with table := t, resize := .published s.table } : Uref).destroyers
      t' = s.destroyers t' := fun t' => by
    simp only [destroyers, hres, ResizePhase.destroys]
  have hnew : s.resize.new = some t := by rw [hres]; rfl
  have hheld : 0 < s.holders s.table := by
    rw [holders, hres]
    simp [ResizePhase.holds]
  have hunused := (h.table t hlt).inUse (.inr (.inl hnew))
  refine ⟨hlt, fun t' hlt' => ?_, ⟨h.table_lt, Ne.symm hne⟩, fun p hp => ?_⟩
  · have hok := h.table t' hlt'
    constructor
    · rw [hholders]
      exact hok.uref
    · rintro huse
      rw [hdestroyers]
      refine hok.inUse ?_
      rcases huse with heq | hn | hpos
      · exact .inr (.inl (heq ▸ hnew))
      · cases hn
      · exact .inr (.inr (hholders t' ▸ hpos))
    · intro hno
      rw [hdestroyers]
      refine hok.outOfUse ?_
      rintro (rfl | hn | hpos)
      · exact hno (.inr (.inr ((hholders _).symm ▸ hheld)))
      · rw [hnew] at hn
        exact hno (.inl (Option.some.inj hn).symm)
      · exact hno (.inr (.inr ((hholders _).symm ▸ hpos)))
    · intro _ hpos
      by_cases heq : t' = s.table
      · rw [heq]
        exact href
      · exact hok.ref heq (hholders t' ▸ hpos)
    · intro hn
      cases hn
  · -- nobody is about to destroy the new table
    have hdestroys : p.destroys t = 0 := by
      have := destroys_le (s := s) hp t
      omega
    have hok := h.dump p hp
    cases p with
    | idle => trivial
    | reading t' =>
      rcases hok with rfl | hpub
      · exact .inr rfl
      · rw [hres] at hpub
        cases hpub
    | holding t' => exact hok
    | zeroed t' current =>
      intro hc
      obtain ⟨h1, -, h3⟩ := hok hc
      refine ⟨h1, ?_, h3⟩
      rintro rfl
      simp [DumpPhase.destroys, hc] at hdestroys
    | freeing t' =>
      refine ⟨hok.1, ?_⟩
      rintro rfl
      simp [DumpPhase.destroys] at hdestroys

theorem Owned.resizeFailed (h : s.Owned) {orig : ℕ} (hres : s.resize = .cleared orig t) :
    ((s.modify orig fun x => { x with uref := x.uref - 1 }).setResize (.failed t)).Owned := by
  have hr := h.resize
  rw [hres] at hr
  obtain ⟨rfl, hlt, hne⟩ := hr
  refine h.setResize (fun hne => absurd rfl hne) (fun t' hlt' => ?_) (by simp [hres]) ⟨hlt, hne⟩
  have h1 := holders_setResize s (.failed t) s.table (fun x => { x with uref := x.uref - 1 }) t'
  have h2 := destroyers_setResize s (.failed t) s.table (fun x => { x with uref := x.uref - 1 }) t'
  simp only [hres, ResizePhase.holds, ResizePhase.destroys, Nat.add_zero] at h1 h2
  by_cases heq : t' = s.table
  · subst heq
    rw [if_pos rfl] at h1
    rw [if_neg hne] at h2
    refine (h.table _ hlt').giveBack Iff.rfl (iff_of_false (fun h => by cases h) ?_) (by simp)
      (by simp) (by simp) h1 (by simpa using h2)
    rw [hres]
    simpa [ResizePhase.new] using hne
  by_cases heq' : t' = t
  · -- the new table goes out of use
    subst heq'
    have hok := h.table _ hlt'
    have hnew : s.resize.new = some t' := by rw [hres]; rfl
    have hzero := hok.new hnew
    have huse := hok.inUse (.inr (.inl hnew))
    rw [if_neg (Ne.symm hne), Nat.add_zero] at h1
    rw [if_pos rfl] at h2
    constructor
    · rw [h1, setResize_tables, modify_tables, if_neg hne]
      exact hok.uref
    · rintro (hc | hc | hc)
      · exact absurd hc hne
      · cases hc
      · omega
    · intro _
      rw [h2]
      simp only [setResize_tables, modify_tables, if_neg hne]
      omega
    · intro _ hpos
      omega
    · intro hn
      cases hn
  · refine (h.table t' hlt').setResize (fun h => absurd h heq) (iff_of_false ?_ ?_) ?_ ?_
    · exact fun hn => by cases hn
    · rw [hres]
      exact fun hn => heq' (Option.some.inj hn).symm
    · simp [hres, ResizePhase.holds, Ne.symm heq]
    · simp [hres, ResizePhase.destroys, Ne.symm heq']

theorem Owned.resizeDone (h : s.Owned) {orig : ℕ} (hres : s.resize = .waited orig) :
    ((s.modify orig fun x => { x with uref := x.uref - 1 }).setResize
      (if (s.tables orig).uref - 1 = 0 then .freeing orig else .idle)).Owned := by
  have hr := h.resize
  rw [hres] at hr
  obtain ⟨hlt, hne⟩ := hr
  have hok := h.table orig hlt
  have hpos : 0 < s.holders orig := by
    rw [holders, hres]
    simp [ResizePhase.holds]
  have hlast : (s.tables orig).uref - 1 = 0 ↔ s.holders orig = 1 := by
    rw [hok.uref]
    omega
  have hholds : ∀ t', ResizePhase.holds t'
      (if (s.tables orig).uref - 1 = 0 then .freeing orig else .idle) = 0 := by
    intro t'
    split <;> rfl
  have hdestroys : ∀ t', ResizePhase.destroys t'
      (if (s.tables orig).uref - 1 = 0 then .freeing orig else .idle) =
        if orig = t' ∧ s.holders orig = 1 then 1 else 0 := by
    intro t'
    simp only [hlast]
    split <;> simp [ResizePhase.destroys, *]
  have hnew : ResizePhase.new
      (if (s.tables orig).uref - 1 = 0 then .freeing orig else .idle) = none := by
    split <;> rfl
  have hr : ∀ r, ((s.modify orig fun x => { x with uref := x.uref - 1 }).setResize r).ResizeOk
      (if (s.tables orig).uref - 1 = 0 then .freeing orig else .idle) := by
    intro r
    split
    · exact ⟨hlt, hne⟩
    · trivial
  revert hholds hdestroys hnew hr
  generalize (if (s.tables orig).uref - 1 = 0 then ResizePhase.freeing orig else .idle) = r
  intro hholds hdestroys hnew hr
  refine h.setResize (fun _ => rfl) (fun t' hlt' => ?_) (by simp [hres]) ?_
  · by_cases heq : t' = orig
    · subst heq
      have h1 := holders_setResize s r t' (fun x => { x with uref := x.uref - 1 }) t'
      have h2 := destroyers_setResize s r t' (fun x => { x with uref := x.uref - 1 }) t'
      rw [hholds, hres] at h1
      rw [hdestroys, hres] at h2
      simp only [ResizePhase.holds, ResizePhase.destroys, if_true, true_and, Nat.add_zero] at h1 h2
      refine hok.giveBack Iff.rfl ?_ (by simp) (by simp) (by simp) h1 (h2.trans ?_)
      · show r.new = _ ↔ _
        rw [hnew, hres]
        rfl
      · have hone : s.holders t' = 1 ↔
            ((s.modify t' fun x => { x with uref := x.uref - 1 }).setResize r).holders t' = 0 := by
          omega
        simp only [hone, ne_eq, hne, not_false_eq_true, true_and]
    · exact (h.table t' hlt').setResize (fun h => absurd h heq) (by rw [hnew, hres]; rfl)
        (by rw [hholds, hres]; simp [ResizePhase.holds, Ne.symm heq])
        (by rw [hdestroys, hres]; simp [ResizePhase.destroys, Ne.symm heq])
  · exact hr r

/-- The call of `mtype_ahash_destroy` at the end of `mtype_resize` or its cleanup. -/
theorem Owned.resizeDestroy (h : s.Owned) (hnew : s.resize.new = none)
    (hholds : ∀ t', s.resize.holds t' = 0)
    (hdestroys : ∀ t', s.resize.destroys t' = if t = t' then 1 else 0)
    (hpub : ∀ t', s.resize ≠ .published t') : ((s.destroy t).setResize .idle).Owned := by
  refine h.setResize (fun _ => rfl) (fun t' hlt' => ?_) (fun t' ht' => absurd ht' (hpub t')) trivial
  by_cases heq : t' = t
  · subst heq
    have h1 := holders_setResize s .idle t' (fun x => { x with destroyed := x.destroyed + 1 }) t'
    have h2 := destroyers_setResize s .idle t' (fun x => { x with destroyed := x.destroyed + 1 }) t'
    rw [hholds] at h1
    rw [hdestroys, if_pos rfl] at h2
    exact (h.table _ hlt').destroyed Iff.rfl (by rw [hnew]; rfl) (by simp) (by simp) (by simp) h1 h2
  · exact (h.table t' hlt').setResize (fun h => absurd h heq) (by rw [hnew]; rfl)
      (hholds t').symm (by rw [hdestroys, if_neg (Ne.symm heq)]; rfl)

theorem Owned.resizeStep {fail : Bool} (h : s.Owned) (hs : s.resizeStep fail = some s') :
    s'.Owned := by
  have hr := h.resize
  unfold Uref.resizeStep at hs
  cases hres : s.resize <;> rw [hres] at hr hs <;> simp only at hs
  case idle =>
    cases hs
    exact h.allocate hres
  case allocated t =>
    cases hs
    refine h.setResize (fun hne => absurd rfl hne) (fun t' hlt => ?_) (by simp [hres])
      ⟨rfl, by simp, hr⟩
    exact (h.table t' hlt).setResize (fun heq => ⟨rfl, rfl, fun hne => absurd heq hne⟩)
      (by rw [hres]; rfl) (by rw [hres]; rfl) (by rw [hres]; rfl)
  case marked orig t =>
    cases hs
    obtain ⟨rfl, href, hlt, hne⟩ := hr
    refine h.setResize (fun _ => rfl) (fun t' hlt' => ?_) (by simp [hres])
      ⟨rfl, by simpa using href, hlt, hne⟩
    by_cases heq : t' = s.table
    · subst heq
      have h1 := holders_setResize s (.filling s.table t) s.table
        (fun x => { x with uref := x.uref + 1 }) s.table
      have h2 := destroyers_setResize s (.filling s.table t) s.table
        (fun x => { x with uref := x.uref + 1 }) s.table
      simp only [hres, ResizePhase.holds, ResizePhase.destroys, if_true, Nat.add_zero] at h1 h2
      exact (h.table _ hlt').take (.inl rfl) (by simpa [hres, ResizePhase.new] using hne) Iff.rfl
        (by rw [hres]; rfl) (by simp) (by simp) (by simp) h1 h2
    · exact (h.table t' hlt').setResize (fun h => absurd h heq) (by rw [hres]; rfl)
        (by simp [hres, ResizePhase.holds, Ne.symm heq]) (by rw [hres]; rfl)
  case filling orig t =>
    obtain ⟨rfl, href, hlt, hne⟩ := hr
    split at hs <;> cases hs
    · refine h.setResize (fun hne => absurd rfl hne) (fun t' hlt' => ?_) (by simp [hres])
        ⟨rfl, hlt, hne⟩
      exact (h.table t' hlt').setResize (fun heq => ⟨rfl, rfl, fun hne => absurd heq hne⟩)
        (by rw [hres]; rfl) (by rw [hres]; rfl) (by rw [hres]; rfl)
    · exact h.publish hres
  case cleared orig t =>
    cases hs
    exact h.resizeFailed hres
  case failed t =>
    cases hs
    exact h.resizeDestroy (by rw [hres]; rfl) (fun _ => by rw [hres]; rfl)
      (fun _ => by rw [hres]; rfl) (by simp [hres])
  case published orig =>
    split at hs
    · cases hs
    · rename_i hno
      cases hs
      have hid : s.modify orig id = s := by simp [modify]
      have := h.setResize (f := id) (t := orig) (r := .waited orig) (fun _ => rfl) (fun t' hlt' => ?_)
        ?_ hr
      · rwa [hid] at this
      · exact (h.table t' hlt').setResize (fun _ => ⟨rfl, rfl, fun _ => rfl⟩) (by rw [hres]; rfl)
          (by rw [hres]; rfl) (by rw [hres]; rfl)
      · rintro t' ht'
        rw [hres] at ht'
        cases ht'
        exact hno
  case waited orig =>
    cases hs
    exact h.resizeDone hres
  case freeing orig =>
    cases hs
    exact h.resizeDestroy (by rw [hres]; rfl) (fun _ => by rw [hres]; rfl)
      (fun _ => by rw [hres]; rfl) (by simp [hres])

theorem holders_idle (hres : s.resize = .idle) (hidle : ∀ p ∈ s.dumps, p = .idle) (t : ℕ) :
    s.holders t = 0 ∧ s.destroyers t = 0 := by
  have h1 : held (DumpPhase.holds t) s.dumps = 0 :=
    held_eq_zero.mpr fun p hp => by rw [hidle p hp]; rfl
  have h2 : held (DumpPhase.destroys t) s.dumps = 0 :=
    held_eq_zero.mpr fun p hp => by rw [hidle p hp]; rfl
  simp [holders, destroyers, h1, h2, hres, ResizePhase.holds, ResizePhase.destroys]

/-- Who reads or holds a table has it in use. -/
theorem Owned.inUse (h : s.Owned)
    (ht : .reading t ∈ s.dumps ∨ .holding t ∈ s.dumps ∨ 0 < s.resize.holds t) :
    t < s.next ∧ s.InUse t := by
  have hr := h.resize
  rcases ht with ht | ht | ht
  · rcases h.dump _ ht with rfl | hpub
    · exact ⟨h.table_lt, .inl rfl⟩
    · rw [hpub] at hr
      refine ⟨hr.1, .inr (.inr ?_)⟩
      simp [holders, hpub, ResizePhase.holds]
  · have := holds_le ht t
    simp only [DumpPhase.holds, if_true] at this
    exact ⟨h.dump _ ht, .inr (.inr this)⟩
  · refine ⟨?_, .inr (.inr (Nat.lt_of_lt_of_le ht (Nat.le_add_left _ _)))⟩
    have hlt := h.table_lt
    cases hres : s.resize <;> rw [hres] at hr ht <;> simp only [ResizePhase.holds] at ht <;>
      grind [ResizeOk]

end Uref

/-! ### Runs -/

/-- The invariant holds in every run in which no session is overtaken by a resizing. -/
theorem uref_owned {l : List UrefMove} {s : Uref}
    (h : (urefSystem.guard fun s m => s.overtaken m = false).Run l s) : s.Owned := by
  refine h.invariant ?_ ?_
  · rintro s ⟨htables, hnext, htable, hres, n, hdumps⟩
    have hidle : ∀ p ∈ s.dumps, p = .idle := fun p hp => List.eq_of_mem_replicate (hdumps ▸ hp)
    have hnone := s.holders_idle hres hidle
    refine ⟨by omega, fun t ht => ?_, ?_, ?_⟩
    · constructor
      · simp [htables, (hnone t).1]
      · simp [htables, (hnone t).2]
      · intro hno
        exact absurd (.inl (by omega)) hno
      · intro _ hpos
        simp [(hnone t).1] at hpos
      · intro _
        exact (hnone t).1
    · rw [hres]
      trivial
    · intro p hp
      rw [hidle p hp]
      trivial
  · rintro s m s' hok ⟨hover, hstep⟩
    cases m with
    | resize fail => exact hok.resizeStep hstep
    | dump i => exact hok.dumpStep hstep hover

/-- A table is destroyed at most once, never as the current table nor while a session
or a resizing has it, and in the end every replaced table has been destroyed. -/
theorem uref_destroyed {l : List UrefMove} {s : Uref}
    (h : (urefSystem.guard fun s m => s.overtaken m = false).Run l s) :
    (∀ t, t < s.next → (s.tables t).destroyed ≤ 1) ∧
    (s.tables s.table).destroyed = 0 ∧
    (∀ t, .reading t ∈ s.dumps ∨ .holding t ∈ s.dumps ∨ 0 < s.resize.holds t →
      (s.tables t).destroyed = 0) ∧
    ((∀ p ∈ s.dumps, p = .idle) → s.resize = .idle →
      ∀ t, t < s.next → t ≠ s.table → (s.tables t).destroyed = 1) := by
  have hok := uref_owned h
  have hused : ∀ t, t < s.next → s.InUse t → (s.tables t).destroyed = 0 := fun t hlt huse =>
    Nat.eq_zero_of_add_eq_zero_right ((hok.table t hlt).inUse huse)
  refine ⟨fun t hlt => ?_, hused _ hok.table_lt (.inl rfl), fun t ht => ?_,
    fun hidle hres t hlt hne => ?_⟩
  · by_cases huse : s.InUse t
    · rw [hused t hlt huse]
      exact Nat.zero_le 1
    · have := (hok.table t hlt).outOfUse huse
      omega
  · obtain ⟨hlt, huse⟩ := hok.inUse ht
    exact hused t hlt huse
  · obtain ⟨h1, h2⟩ := s.holders_idle hres hidle t
    have huse : ¬s.InUse t := by
      rintro (heq | hnew | hpos)
      · exact hne heq
      · rw [hres] at hnew
        cases hnew
      · omega
    have := (hok.table t hlt).outOfUse huse
    omega

/-- A set with its first table and one dump session. -/
def oneDump : Uref := ⟨fun _ => ⟨0, 0, 0⟩, 1, 0, .idle, [.idle]⟩

/-- A session that outlives a resizing destroys the table it had. -/
theorem uref_destroyed_replaced : ∃ l s,
    (urefSystem.guard fun s m => s.overtaken m = false).Run l s ∧ s.table = 1 ∧
      (s.tables 0).destroyed = 1 ∧ (s.tables s.table).destroyed = 0 := by
  let step := fun (s : Uref) m => if s.overtaken m then none else s.move m
  let moves : List UrefMove := [.dump 0, .dump 0, .resize false, .resize false, .resize false,
    .resize false, .resize false, .resize false, .dump 0, .dump 0, .dump 0]
  obtain ⟨s, hs, htable, hidle, hres, hnext⟩ : ∃ s, moves.foldlM step oneDump = some s ∧
      s.table = 1 ∧ s.dumps = [.idle] ∧ s.resize = .idle ∧ s.next = 2 :=
    ⟨_, rfl, rfl, rfl, rfl, rfl⟩
  have hrun : (urefSystem.guard fun s m => s.overtaken m = false).Run moves s := by
    refine System.Run.foldlM (f := step) (l := []) ?_ (.start ⟨rfl, rfl, rfl, rfl, 1, rfl⟩) hs
    intro s m s' hstep
    simp only [step] at hstep
    split at hstep
    · cases hstep
    · rename_i hover
      exact ⟨Bool.eq_false_iff.mpr hover, hstep⟩
  obtain ⟨-, hcurrent, -, hgone⟩ := uref_destroyed hrun
  exact ⟨moves, s, hrun, htable, hgone (by simp [hidle]) hres 0 (by omega) (by omega), hcurrent⟩

/-- One dump session, and a resizing between its last two steps: the current table
is destroyed. -/
theorem uref_destroys_current :
    ∃ l s, urefSystem.Run l s ∧ (s.tables s.table).destroyed = 1 := by
  let moves : List UrefMove := [.dump 0, .dump 0, .dump 0, .resize false, .resize false, .dump 0,
    .dump 0]
  obtain ⟨s, hs, hd⟩ : ∃ s, moves.foldlM Uref.move oneDump = some s ∧
      (s.tables s.table).destroyed = 1 := ⟨_, rfl, rfl⟩
  exact ⟨moves, s, System.Run.foldlM (l := []) (fun _ _ _ h => h)
    (.start ⟨rfl, rfl, rfl, rfl, 1, rfl⟩) hs, hd⟩

end Dset.Hash
