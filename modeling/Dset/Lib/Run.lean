import Mathlib.Tactic.TypeStar
import Mathlib.Data.List.Basic

/-! Labelled transition systems and their finite runs. A property of every run
is proved by one induction here (`Run.invariant`) and a step lemma at the place
of use. `guard` keeps only the steps that meet a condition on the state before
the step and its label; a forward simulation carries whole runs, with their
labels, to the runs of another system. -/

namespace Dset.Lib

variable {σ α ι : Type*}

/-- The states a party can start in and the steps it can take. -/
structure System (σ ι : Type*) where
  init : σ → Prop
  step : σ → ι → σ → Prop

namespace System

variable (M : System σ ι)

/-- The steps labelled `l`, oldest first, lead from a start state to `s`. -/
inductive Run : List ι → σ → Prop
  | start {s : σ} (h : M.init s) : Run [] s
  | snoc {l : List ι} {s s' : σ} {i : ι} (hrun : Run l s) (hstep : M.step s i s') :
      Run (l ++ [i]) s'

/-- The same system with only those steps that meet `C`. -/
def guard (C : σ → ι → Prop) : System σ ι where
  init := M.init
  step s i s' := C s i ∧ M.step s i s'

/-- The same system, confined to the states that meet `P`. -/
def within (P : σ → Prop) : System σ ι where
  init s := M.init s ∧ P s
  step s i s' := M.step s i s' ∧ P s'

def startingAt (s0 : σ) : System σ ι where
  init s := s = s0
  step := M.step

variable {M}

/-- What holds at the start and is kept by every step holds in every state
a run reaches. -/
theorem Run.invariant {P : σ → Prop} (hinit : ∀ s, M.init s → P s)
    (hstep : ∀ s i s', P s → M.step s i s' → P s') {l : List ι} {s : σ} (h : M.Run l s) :
    P s := by
  induction h with
  | start h => exact hinit _ h
  | snoc _ hs ih => exact hstep _ _ _ ih hs

/-- What holds of the steps so far and the state they lead to. -/
theorem Run.history {P : List ι → σ → Prop} (hinit : ∀ s, M.init s → P [] s)
    (hstep : ∀ l s i s', P l s → M.step s i s' → P (l ++ [i]) s') {l : List ι} {s : σ}
    (h : M.Run l s) : P l s := by
  induction h with
  | start h => exact hinit _ h
  | snoc _ hs ih => exact hstep _ _ _ _ ih hs

theorem Run.append {l l' : List ι} {s0 s : σ} (h : M.Run l s0) (h' : (M.startingAt s0).Run l' s) :
    M.Run (l ++ l') s := by
  induction h' with
  | start h0 =>
    cases h0
    simpa using h
  | snoc _ hs ih =>
    rw [← List.append_assoc]
    exact .snoc ih hs

theorem Run.foldlM {f : σ → ι → Option σ} (hf : ∀ s i s', f s i = some s' → M.step s i s')
    {l l' : List ι} {s s' : σ} (h : M.Run l s) (hrun : l'.foldlM f s = some s') :
    M.Run (l ++ l') s' := by
  induction l' generalizing l s with
  | nil =>
    obtain rfl : s = s' := by simpa using hrun
    simpa using h
  | cons i l' ih =>
    rw [List.foldlM_cons] at hrun
    obtain ⟨s1, hs1, hrest⟩ := Option.bind_eq_some_iff.mp hrun
    have := ih (h.snoc (hf _ _ _ hs1)) hrest
    simpa using this

/-- What is computed need not be computed under the labels of the steps. -/
theorem Run.exists_foldlM {κ : Type*} {f : σ → κ → Option σ} {l : List ι} {l' : List κ} {s s' : σ}
    (hf : ∀ s k s', k ∈ l' → f s k = some s' → ∃ i, M.step s i s') (h : M.Run l s)
    (hrun : l'.foldlM f s = some s') : ∃ l, M.Run l s' := by
  induction l' generalizing l s with
  | nil =>
    obtain rfl : s = s' := by simpa using hrun
    exact ⟨l, h⟩
  | cons k l' ih =>
    rw [List.foldlM_cons] at hrun
    obtain ⟨s1, hs1, hrest⟩ := Option.bind_eq_some_iff.mp hrun
    obtain ⟨i, hi⟩ := hf s k s1 List.mem_cons_self hs1
    exact ih (fun s k s' hk => hf s k s' (List.mem_cons_of_mem _ hk)) (h.snoc hi) hrest

theorem Run.mono {N : System σ ι} (hinit : ∀ s, M.init s → N.init s)
    (hstep : ∀ s i s', M.step s i s' → N.step s i s') {l : List ι} {s : σ} (h : M.Run l s) :
    N.Run l s := by
  induction h with
  | start h => exact .start (hinit _ h)
  | snoc _ hs ih => exact .snoc ih (hstep _ _ _ hs)

theorem Run.of_within {P : σ → Prop} {l : List ι} {s : σ} (h : (M.within P).Run l s) :
    M.Run l s ∧ P s := by
  induction h with
  | start h => exact ⟨.start h.1, h.2⟩
  | snoc _ hs ih => exact ⟨.snoc ih.1 hs.1, hs.2⟩

theorem Run.within_mono {P Q : σ → Prop} (hPQ : ∀ s, P s → Q s) {l : List ι} {s0 s : σ} (h0 : P s0)
    (h : ((M.within P).startingAt s0).Run l s) : ((M.within Q).startingAt s0).Run l s ∧ P s := by
  induction h with
  | start h => exact ⟨.start h, h ▸ h0⟩
  | snoc _ hs ih => exact ⟨.snoc ih.1 ⟨hs.1, hPQ _ hs.2⟩, hs.2⟩

/-- Where `C` says which steps keep `P`, the runs all of whose steps meet `C` are the runs
all of whose states meet `P`. -/
theorem Run.guard_iff_within {C : σ → ι → Prop} {P : σ → Prop} (hinit : ∀ s, M.init s → P s)
    (hstep : ∀ s i s', P s → M.step s i s' → (P s' ↔ C s i)) {l : List ι} {s : σ} :
    (M.guard C).Run l s ↔ (M.within P).Run l s := by
  constructor
  · intro h
    induction h with
    | start h => exact .start ⟨h, hinit _ h⟩
    | snoc _ hs ih => exact .snoc ih ⟨hs.2, (hstep _ _ _ ih.of_within.2 hs.2).mpr hs.1⟩
  · intro h
    induction h with
    | start h => exact .start h.1
    | snoc hrun hs ih =>
      exact .snoc ih ⟨(hstep _ _ _ hrun.of_within.2 hs.1).mp hs.2, hs.1⟩

/-- `R` relates every start state of `M` to one of `A`, and every step of `M`
from related states to a step of `A` with the same label. -/
structure Simulation (M : System σ ι) (A : System α ι) (R : σ → α → Prop) : Prop where
  init : ∀ s, M.init s → ∃ a, A.init a ∧ R s a
  step : ∀ s i s' a, R s a → M.step s i s' → ∃ a', A.step a i a' ∧ R s' a'

theorem Simulation.run {A : System α ι} {R : σ → α → Prop} (h : Simulation M A R)
    {l : List ι} {s : σ} (hrun : M.Run l s) : ∃ a, A.Run l a ∧ R s a := by
  induction hrun with
  | start hi =>
    obtain ⟨a, ha, hR⟩ := h.init _ hi
    exact ⟨a, .start ha, hR⟩
  | snoc _ hs ih =>
    obtain ⟨a, ha, hR⟩ := ih
    obtain ⟨a', hstep, hR'⟩ := h.step _ _ _ _ hR hs
    exact ⟨a', .snoc ha hstep, hR'⟩

end System

end Dset.Lib
