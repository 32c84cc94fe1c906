import Dset.Hash.ListRun

/-! Sets over time. A set that some calls have led to is a set of keys with deadlines at any later
tick; from one tick to another it is left alone, or it is called, and what is not added keeps its
deadline as long as it is alive. -/

namespace Dset.Hash

open Dset.Lib List

variable {A : Arch} {jhash2 : HashDomainElem → BitVec 32 → BitVec 32} {start now now' : ℕ}
  {data data' : DomainSet A}

def Call.adds (e : HashDomainElem) (c : Call) : Prop :=
  match c.op with
  | .add d _ _ _ => d.toHashDomainElem = e
  | _ => False

/-- What is alive behind a call was alive before it, to the same deadline, if it is not added. -/
theorem KeySet.Meets.before {a : KeySet} {m m' : DeadlineMap HashDomainElem} {c : Call}
    {e : HashDomainElem} {d : Deadline} (h : a.Meets A m m' c) (hadds : ¬c.adds e)
    (hd : m' e = some d) : m e = some d := by
  obtain ⟨now, op, out⟩ := c
  unfold KeySet.Meets at h
  cases op with
  | add k ext flags alloc =>
    cases out with
    | ret ret =>
      rw [h.2] at hd
      split at hd
      · have hne : e ≠ k.toHashDomainElem := fun heq => hadds heq.symm
        rwa [DeadlineMap.insert, Function.update_of_ne hne] at hd
      · exact hd
    | _ => exact h.elim
  | del k alloc =>
    cases out with
    | ret ret =>
      rw [h.2.2, DeadlineMap.erase] at hd
      by_cases heq : e = k.toHashDomainElem
      · rw [heq, Function.update_self] at hd
        cases hd
      · rwa [Function.update_of_ne heq] at hd
    | _ => exact h.elim
  | test k ext mext flags =>
    cases out with
    | found b =>
      rwa [h.2] at hd
    | _ => exact h.elim
  | expire alloc =>
    cases out with
    | done =>
      have h : m' = m := h
      rwa [h] at hd
    | _ => exact h.elim
  | flush =>
    cases out with
    | done =>
      have h : m' = .empty := h
      rw [h] at hd
      cases hd
    | _ => exact h.elim
  | resize alloc =>
    cases out with
    | ret ret => rwa [h.2] at hd
    | _ => exact h.elim

/-- Some calls have led to the set, up to a tick. -/
def Reached (jhash2 : HashDomainElem → BitVec 32 → BitVec 32) (start now : ℕ)
    (data : DomainSet A) : Prop :=
  ∃ l t, t ≤ now ∧ (clockedSystem A jhash2 start).Run l (t, data)

/-- The set is left alone from one tick to another, or it is called; of the keys only those that
are `added` may be added. -/
inductive Evolves (jhash2 : HashDomainElem → BitVec 32 → BitVec 32) (start : ℕ)
    (added : HashDomainElem → Prop) (now : ℕ) (data : DomainSet A) (now' : ℕ)
    (data' : DomainSet A) : Prop
  | same (hle : now ≤ now') (hdata : data' = data)
  | call (c : Call) (hstep : (clockedSystem A jhash2 start).step (now, data) c (c.now, data'))
      (hle : c.now ≤ now') (hadds : ∀ e, c.adds e → added e)

variable {added : HashDomainElem → Prop}

/-- The expiry pass of `mtype_head` adds nothing. -/
theorem Evolves.head {head : ℕ} (alloc : ℕ → Bool) (hle : now ≤ head) (hhead : head ≤ now')
    (hclock : now' ≤ start + 2 ^ (A.longBits - 1)) :
    Evolves jhash2 start added now data now' (headSet (jiffiesAt A head) alloc data) := by
  unfold headSet
  split
  · rename_i htimeout
    exact .call ⟨head, .expire alloc, .done⟩
      ⟨hle, hhead.trans hclock, rfl, trivial, htimeout, rfl⟩ hhead fun e hadd => hadd.elim
  · exact .same (hle.trans hhead) rfl

theorem Reached.evolves (h : Reached jhash2 start now data)
    (hm : Evolves jhash2 start added now data now' data') : Reached jhash2 start now' data' := by
  obtain ⟨l, t, ht, hrun⟩ := h
  cases hm with
  | same hle hdata =>
    rw [hdata]
    exact ⟨l, t, ht.trans hle, hrun⟩
  | call c hstep hle => exact ⟨_, c.now, hle, hrun.snoc ⟨ht.trans hstep.1, hstep.2⟩⟩

theorem Reached.represents (h : Reached jhash2 start now data)
    (hclock : now ≤ start + 2 ^ (A.longBits - 1)) : ∃ a, Represents jhash2 start (now, data) a := by
  obtain ⟨l, t, ht, hrun⟩ := h
  obtain ⟨a, -, ha⟩ := (represents_simulation jhash2 start).run hrun
  exact ⟨_, ha.later ht hclock⟩

/-- What is alive and not added was alive before, to the same deadline. -/
theorem Evolves.before {e : HashDomainElem} {d : Deadline}
    (hm : Evolves jhash2 start added now data now' data') (h : Reached jhash2 start now data)
    (hclock : now' ≤ start + 2 ^ (A.longBits - 1)) (hadds : ¬added e)
    (hlive : data'.Live start now' e d) : data.Live start now e d := by
  cases hm with
  | same hle hdata =>
    obtain ⟨a, ha⟩ := h.represents (hle.trans hclock)
    rw [hdata] at hlive
    exact ((LiveIn.later_iff ha.inRange hle hclock).mp hlive).1
  | call c hstep hle hc =>
    obtain ⟨a, ha⟩ := h.represents (hstep.1.trans hstep.2.1)
    obtain ⟨a', ⟨-, -, -, hmeets⟩, ha'⟩ :=
      (represents_simulation jhash2 start).step _ _ _ _ ha hstep
    have hlive' := ((LiveIn.later_iff ha'.inRange hle hclock).mp hlive).1
    have hbefore := hmeets.before (fun hadd => hadds (hc e hadd)) ((ha'.live e d).mpr hlive')
    exact (ha.live e d).mp (DeadlineMap.remaining_eq_some.mp hbefore).1

end Dset.Hash
