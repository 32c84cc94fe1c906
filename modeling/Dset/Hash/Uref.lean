import Dset.Lib.Parties
import Dset.Lib.Run
import Mathlib.Logic.Function.Basic
import Mathlib.Data.Int.Basic

/-! The two counters of a table between `mtype_resize` and `mtype_uref`: who destroys
a table that was replaced. One step is one atomic operation on a counter, the
publication of a table or the call of `mtype_ahash_destroy`; resizing is one party,
every dump session another one. A session that has brought `uref` of the current table
to zero reads `ref` in a second step and may find there what a resizing wrote. -/

namespace Dset.Hash

open Dset.Lib

/-- What the parties share of a table: its counters, and how often
`mtype_ahash_destroy` was called for it. -/
structure Counters where
  ref : ℤ
  uref : ℤ
  destroyed : ℕ
  deriving DecidableEq

inductive ResizePhase where
  | idle
  /-- With a new table, before the lock. -/
  | allocated (t : ℕ)
  /-- Behind `atomic_set(&orig->ref, 1)`. -/
  | marked (orig t : ℕ)
  /-- Behind `atomic_inc(&orig->uref)`: copying. -/
  | filling (orig t : ℕ)
  /-- Behind `atomic_set(&orig->ref, 0)` of the cleanup. -/
  | cleared (orig t : ℕ)
  /-- Behind `atomic_dec(&orig->uref)` of the cleanup. -/
  | failed (t : ℕ)
  /-- Behind `rcu_assign_pointer(h->table, t)`: waiting for the readers. -/
  | published (orig : ℕ)
  | waited (orig : ℕ)
  /-- `atomic_dec_and_test` was true. -/
  | freeing (orig : ℕ)
  deriving DecidableEq

inductive DumpPhase where
  | idle
  /-- Behind reading `h->table`, in the read-side section. -/
  | reading (t : ℕ)
  /-- Behind `atomic_inc(&t->uref)`. -/
  | holding (t : ℕ)
  /-- `atomic_dec_and_test` was true, on the table that was current then or on a
  replaced one; `ref` is read next. -/
  | zeroed (t : ℕ) (current : Bool)
  /-- `ref` was not zero. -/
  | freeing (t : ℕ)
  deriving DecidableEq

/-- The tables of a set, numbered as they are allocated, and the parties. -/
structure Uref where
  tables : ℕ → Counters
  next : ℕ
  /-- `h->table`. -/
  table : ℕ
  resize : ResizePhase
  dumps : List DumpPhase

namespace Uref

def modify (s : Uref) (t : ℕ) (f : Counters → Counters) : Uref :=
  { s with tables := Function.update s.tables t (f (s.tables t)) }

def setDump (s : Uref) (i : ℕ) (p : DumpPhase) : Uref := { s with dumps := s.dumps.set i p }

def setResize (s : Uref) (r : ResizePhase) : Uref := { s with resize := r }

/-- `mtype_ahash_destroy`. -/
def destroy (s : Uref) (t : ℕ) : Uref := s.modify t fun x => { x with destroyed := x.destroyed + 1 }

/-- The next step of `mtype_resize`; with `fail`, copying ends in the cleanup. -/
def resizeStep (s : Uref) (fail : Bool) : Option Uref :=
  match s.resize with
  | .idle => some { s with
      tables := Function.update s.tables s.next ⟨0, 0, 0⟩
      next := s.next + 1
      resize := .allocated s.next }
  | .allocated t =>
    some ((s.modify s.table fun x => { x with ref := 1 }).setResize (.marked s.table t))
  | .marked orig t =>
    some ((s.modify orig fun x => { x with uref := x.uref + 1 }).setResize (.filling orig t))
  | .filling orig t =>
    if fail then some ((s.modify orig fun x => { x with ref := 0 }).setResize (.cleared orig t))
    else some { s with table := t, resize := .published orig }
  | .cleared orig t =>
    some ((s.modify orig fun x => { x with uref := x.uref - 1 }).setResize (.failed t))
  | .failed t => some ((s.destroy t).setResize .idle)
  | .published orig =>
    -- the readers that began before the publication are those that hold `orig`
    if .reading orig ∈ s.dumps then none else some (s.setResize (.waited orig))
  | .waited orig =>
    some ((s.modify orig fun x => { x with uref := x.uref - 1 }).setResize
      (if (s.tables orig).uref - 1 = 0 then .freeing orig else .idle))
  | .freeing orig => some ((s.destroy orig).setResize .idle)

/-- The next step of `mtype_uref`, its start when the session holds no table and its
end when it does. -/
def dumpStep (s : Uref) (i : ℕ) : Option Uref :=
  match s.dumps[i]? with
  | none => none
  | some .idle => some (s.setDump i (.reading s.table))
  | some (.reading t) =>
    some ((s.modify t fun x => { x with uref := x.uref + 1 }).setDump i (.holding t))
  | some (.holding t) =>
    some ((s.modify t fun x => { x with uref := x.uref - 1 }).setDump i
      (if (s.tables t).uref - 1 = 0 then .zeroed t (t = s.table) else .idle))
  | some (.zeroed t _) => some (s.setDump i (if (s.tables t).ref = 0 then .idle else .freeing t))
  | some (.freeing t) => some ((s.destroy t).setDump i .idle)

end Uref

inductive UrefMove where
  | resize (fail : Bool)
  | dump (i : ℕ)

def Uref.move (s : Uref) : UrefMove → Option Uref
  | .resize fail => s.resizeStep fail
  | .dump i => s.dumpStep i

/-- A set with its first table, and any number of dump sessions. -/
def urefSystem : System Uref UrefMove where
  init s := s.tables = (fun _ => ⟨0, 0, 0⟩) ∧ s.next = 1 ∧ s.table = 0 ∧ s.resize = .idle ∧
    ∃ n, s.dumps = List.replicate n .idle
  step s m s' := s.move m = some s'

/-- A session that brought `uref` of a table to zero while it was the current one reads
another `ref` than zero: a resizing set it, before that step or behind it. -/
def Uref.overtaken (s : Uref) : UrefMove → Bool
  | .resize _ => false
  | .dump i =>
    match s.dumps[i]? with
    | some (.zeroed t true) => (s.tables t).ref ≠ 0
    | _ => false

/-! ### Who holds a table and who is going to destroy it -/

def DumpPhase.holds (t : ℕ) : DumpPhase → ℕ
  | .holding t' => if t' = t then 1 else 0
  | _ => 0

def DumpPhase.destroys (t : ℕ) : DumpPhase → ℕ
  | .zeroed t' current => if t' = t ∧ current = false then 1 else 0
  | .freeing t' => if t' = t then 1 else 0
  | _ => 0

def ResizePhase.holds (t : ℕ) : ResizePhase → ℕ
  | .filling orig _ | .cleared orig _ | .published orig | .waited orig => if orig = t then 1 else 0
  | _ => 0

def ResizePhase.destroys (t : ℕ) : ResizePhase → ℕ
  | .failed t' | .freeing t' => if t' = t then 1 else 0
  | _ => 0

/-- The new table, as long as nobody else sees it. -/
def ResizePhase.new : ResizePhase → Option ℕ
  | .allocated t | .marked _ t | .filling _ t | .cleared _ t => some t
  | _ => none

namespace Uref

def holders (s : Uref) (t : ℕ) : ℕ := held (DumpPhase.holds t) s.dumps + s.resize.holds t

def destroyers (s : Uref) (t : ℕ) : ℕ := held (DumpPhase.destroys t) s.dumps + s.resize.destroys t

def ResizeOk (s : Uref) : ResizePhase → Prop
  | .idle => True
  | .allocated t | .failed t => t < s.next ∧ t ≠ s.table
  | .marked orig t | .filling orig t =>
    orig = s.table ∧ (s.tables orig).ref = 1 ∧ t < s.next ∧ t ≠ s.table
  | .cleared orig t => orig = s.table ∧ t < s.next ∧ t ≠ s.table
  | .published orig | .waited orig | .freeing orig => orig < s.next ∧ orig ≠ s.table

def DumpOk (s : Uref) : DumpPhase → Prop
  | .idle => True
  | .reading t => t = s.table ∨ s.resize = .published t
  | .holding t => t < s.next
  | .zeroed t current => current = false → t < s.next ∧ t ≠ s.table ∧ (s.tables t).ref = 1
  | .freeing t => t < s.next ∧ t ≠ s.table

/-- Somebody sees the table as the current one, fills it or holds it. -/
def InUse (s : Uref) (t : ℕ) : Prop := t = s.table ∨ s.resize.new = some t ∨ 0 < s.holders t

/-- `uref` counts the holders, and a table out of use has been destroyed or has
exactly one party that is about to do it. -/
structure TableOk (s : Uref) (t : ℕ) : Prop where
  uref : (s.tables t).uref = s.holders t
  inUse : s.InUse t → (s.tables t).destroyed + s.destroyers t = 0
  outOfUse : ¬s.InUse t → (s.tables t).destroyed + s.destroyers t = 1
  ref : t ≠ s.table → 0 < s.holders t → (s.tables t).ref = 1
  new : s.resize.new = some t → s.holders t = 0

structure Owned (s : Uref) : Prop where
  table_lt : s.table < s.next
  table : ∀ t, t < s.next → s.TableOk t
  resize : s.ResizeOk s.resize
  dump : ∀ p ∈ s.dumps, s.DumpOk p

@[simp] theorem modify_tables (s : Uref) (t t' : ℕ) (f : Counters → Counters) :
    (s.modify t f).tables t' = if t' = t then f (s.tables t) else s.tables t' := by
  simp only [modify, Function.update_apply]

@[simp] theorem setDump_tables (s : Uref) (i : ℕ) (p : DumpPhase) :
    (s.setDump i p).tables = s.tables := rfl

@[simp] theorem setResize_tables (s : Uref) (r : ResizePhase) :
    (s.setResize r).tables = s.tables := rfl

@[simp] theorem destroy_tables (s : Uref) (t t' : ℕ) :
    (s.destroy t).tables t' = if t' = t then
      { s.tables t with destroyed := (s.tables t).destroyed + 1 } else s.tables t' :=
  s.modify_tables t t' _

variable {s s' : Uref} {i t : ℕ} {p q : DumpPhase}

/-- A table that a step does not touch, but for `ref` of the current one. -/
theorem TableOk.congr (h : s.TableOk t) (htable : t = s'.table ↔ t = s.table)
    (hnew : s'.resize.new = some t ↔ s.resize.new = some t)
    (huref : (s'.tables t).uref = (s.tables t).uref)
    (href : t ≠ s.table → (s'.tables t).ref = (s.tables t).ref)
    (hdestroyed : (s'.tables t).destroyed = (s.tables t).destroyed)
    (hholders : s'.holders t = s.holders t) (hdestroyers : s'.destroyers t = s.destroyers t) :
    s'.TableOk t := by
  have huse : s'.InUse t ↔ s.InUse t := by rw [InUse, InUse, htable, hnew, hholders]
  constructor
  · rw [huref, hholders, h.uref]
  · rw [huse, hdestroyed, hdestroyers]
    exact h.inUse
  · rw [huse, hdestroyed, hdestroyers]
    exact h.outOfUse
  · intro hne hpos
    rw [href (hne ∘ htable.mpr)]
    exact h.ref (hne ∘ htable.mpr) (hholders ▸ hpos)
  · rw [hnew, hholders]
    exact h.new

theorem TableOk.take (h : s.TableOk t) (huse : t = s.table ∨ 0 < s.holders t)
    (hnew : s.resize.new ≠ some t) (htable : t = s'.table ↔ t = s.table)
    (hnew' : s'.resize.new = some t ↔ s.resize.new = some t)
    (huref : (s'.tables t).uref = (s.tables t).uref + 1)
    (href : (s'.tables t).ref = (s.tables t).ref)
    (hdestroyed : (s'.tables t).destroyed = (s.tables t).destroyed)
    (hholders : s'.holders t = s.holders t + 1) (hdestroyers : s'.destroyers t = s.destroyers t) :
    s'.TableOk t := by
  constructor
  · rw [huref, h.uref, hholders]
    rfl
  · intro _
    rw [hdestroyed, hdestroyers]
    exact h.inUse (huse.imp_right .inr)
  · intro hno
    exact absurd (.inr (.inr (hholders ▸ Nat.succ_pos _))) hno
  · intro hne _
    rw [href]
    exact h.ref (hne ∘ htable.mpr) (huse.resolve_left (hne ∘ htable.mpr))
  · intro hn
    exact absurd (hnew'.mp hn) hnew

/-- One holder less; the last holder of a replaced table is going to destroy it. -/
theorem TableOk.giveBack (h : s.TableOk t) (htable : t = s'.table ↔ t = s.table)
    (hnew' : s'.resize.new = some t ↔ s.resize.new = some t)
    (huref : (s'.tables t).uref = (s.tables t).uref - 1)
    (href : t ≠ s.table → (s'.tables t).ref = (s.tables t).ref)
    (hdestroyed : (s'.tables t).destroyed = (s.tables t).destroyed)
    (hholders : s'.holders t + 1 = s.holders t)
    (hdestroyers : s'.destroyers t =
      s.destroyers t + if t ≠ s.table ∧ s'.holders t = 0 then 1 else 0) : s'.TableOk t := by
  have huse := h.inUse (.inr (.inr (by omega)))
  have hnew : s.resize.new ≠ some t := by
    intro hn
    have := h.new hn
    omega
  constructor
  · rw [huref, h.uref]
    omega
  · intro hin
    have : ¬(t ≠ s.table ∧ s'.holders t = 0) := by
      rintro ⟨hne, hzero⟩
      rcases hin with heq | heq | hpos
      · exact hne (htable.mp heq)
      · exact hnew (hnew'.mp heq)
      · omega
    rw [hdestroyed, hdestroyers, if_neg this]
    exact huse
  · intro hno
    have hgone : t ≠ s.table ∧ s'.holders t = 0 :=
      ⟨fun heq => hno (.inl (htable.mpr heq)), by
        by_contra hpos
        exact hno (.inr (.inr (Nat.pos_of_ne_zero hpos)))⟩
    rw [hdestroyed, hdestroyers, if_pos hgone]
    omega
  · intro hne _
    rw [href (hne ∘ htable.mpr)]
    exact h.ref (hne ∘ htable.mpr) (by omega)
  · intro hn
    exact absurd (hnew'.mp hn) hnew

/-- The call of `mtype_ahash_destroy` somebody was about to make. -/
theorem TableOk.destroyed (h : s.TableOk t) (htable : t = s'.table ↔ t = s.table)
    (hnew' : s'.resize.new = some t ↔ s.resize.new = some t)
    (huref : (s'.tables t).uref = (s.tables t).uref)
    (href : (s'.tables t).ref = (s.tables t).ref)
    (hdestroyed : (s'.tables t).destroyed = (s.tables t).destroyed + 1)
    (hholders : s'.holders t = s.holders t) (hdestroyers : s'.destroyers t + 1 = s.destroyers t) :
    s'.TableOk t := by
  have huse : s'.InUse t ↔ s.InUse t := by rw [InUse, InUse, htable, hnew', hholders]
  constructor
  · rw [huref, hholders, h.uref]
  · intro hin
    have := h.inUse (huse.mp hin)
    omega
  · intro hno
    have := h.outOfUse (hno ∘ huse.mpr)
    omega
  · rw [hholders, href, ne_eq, htable]
    exact h.ref
  · rw [hnew', hholders]
    exact h.new

/-- A step of one session changes who holds and who destroys by its own share. -/
theorem holders_setDump (h : s.dumps[i]? = some p) (q : DumpPhase) (t : ℕ) (f : Counters → Counters)
    (t' : ℕ) : ((s.modify t f).setDump i q).holders t' + p.holds t' = s.holders t' + q.holds t' := by
  have := held_set (w := DumpPhase.holds t') h q
  simp only [holders, setDump, modify]
  omega

theorem destroyers_setDump (h : s.dumps[i]? = some p) (q : DumpPhase) (t : ℕ)
    (f : Counters → Counters) (t' : ℕ) :
    ((s.modify t f).setDump i q).destroyers t' + p.destroys t' =
      s.destroyers t' + q.destroys t' := by
  have := held_set (w := DumpPhase.destroys t') h q
  simp only [destroyers, setDump, modify]
  omega

theorem holds_le (h : p ∈ s.dumps) (t : ℕ) : p.holds t ≤ s.holders t :=
  Nat.le_trans (le_held h) (Nat.le_add_right _ _)

theorem destroys_le (h : p ∈ s.dumps) (t : ℕ) : p.destroys t ≤ s.destroyers t :=
  Nat.le_trans (le_held h) (Nat.le_add_right _ _)

/-- What a session knows is about `ref`, the current table and a publication. -/
theorem DumpOk.congr (h : s.DumpOk p) (hnext : s.next ≤ s'.next) (htable : s'.table = s.table)
    (href : ∀ t, t < s.next → t ≠ s.table → (s'.tables t).ref = (s.tables t).ref)
    (hpub : ∀ t, p = .reading t → s.resize = .published t → s'.resize = .published t) :
    s'.DumpOk p := by
  cases p with
  | idle => trivial
  | reading t => exact h.imp (·.trans htable.symm) (hpub t rfl)
  | holding t => exact Nat.lt_of_lt_of_le h hnext
  | zeroed t current =>
    intro hc
    obtain ⟨hlt, hne, hr⟩ := h hc
    exact ⟨Nat.lt_of_lt_of_le hlt hnext, htable ▸ hne, (href t hlt hne).trans hr⟩
  | freeing t => exact ⟨Nat.lt_of_lt_of_le h.1 hnext, htable ▸ h.2⟩

end Uref

end Dset.Hash
