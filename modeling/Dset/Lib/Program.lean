import Mathlib.Init

/-! Programs with a state that return a value or leave with another one. `Ends` is what is
known of both ways to end; it passes through the constructs of a program one by one. -/

namespace Dset.Lib

variable {ε σ α β : Type}

/-- The program returns with `Q` or leaves with `X`. -/
def Ends (x : EStateM ε σ α) (s : σ) (Q : α → σ → Prop) (X : ε → σ → Prop) : Prop :=
  match x s with
  | .ok a s' => Q a s'
  | .error e s' => X e s'

section

variable {s : σ} {Q Q' : α → σ → Prop} {X X' : ε → σ → Prop}

@[simp] theorem ends_pure (a : α) : Ends (pure a) s Q X ↔ Q a s := Iff.rfl

@[simp] theorem ends_bind (x : EStateM ε σ α) (f : α → EStateM ε σ β) {Q : β → σ → Prop} :
    Ends (x >>= f) s Q X ↔ Ends x s (fun a s' => Ends (f a) s' Q X) X := by
  unfold Ends
  show (match EStateM.bind x f s with | .ok b s' => Q b s' | .error e s' => X e s') ↔ _
  unfold EStateM.bind
  cases x s <;> exact Iff.rfl

@[simp] theorem ends_map (f : α → β) (x : EStateM ε σ α) {Q : β → σ → Prop} :
    Ends (f <$> x) s Q X ↔ Ends x s (fun a s' => Q (f a) s') X := by
  unfold Ends
  show (match EStateM.map f x s with | .ok b s' => Q b s' | .error e s' => X e s') ↔ _
  unfold EStateM.map
  cases x s <;> exact Iff.rfl

@[simp] theorem ends_get {Q : σ → σ → Prop} : Ends (get : EStateM ε σ σ) s Q X ↔ Q s s := Iff.rfl

@[simp] theorem ends_set (s' : σ) {Q : PUnit → σ → Prop} :
    Ends (set s' : EStateM ε σ PUnit) s Q X ↔ Q ⟨⟩ s' := Iff.rfl

@[simp] theorem ends_modify (f : σ → σ) {Q : PUnit → σ → Prop} :
    Ends (modify f : EStateM ε σ PUnit) s Q X ↔ Q ⟨⟩ (f s) := Iff.rfl

@[simp] theorem ends_throw (e : ε) : Ends (throw e : EStateM ε σ α) s Q X ↔ X e s := Iff.rfl

theorem ends_ite {c : Prop} [Decidable c] {x y : EStateM ε σ α} :
    Ends (if c then x else y) s Q X ↔ (c → Ends x s Q X) ∧ (¬c → Ends y s Q X) := by
  by_cases h : c <;> simp [h]

theorem ends_of_ok {x : EStateM ε σ α} {a : α} {s' : σ} (h : x s = .ok a s') :
    Ends x s Q X ↔ Q a s' := by
  unfold Ends
  rw [h]

theorem Ends.mono {x : EStateM ε σ α} (h : Ends x s Q X) (hQ : ∀ a s', Q a s' → Q' a s')
    (hX : ∀ e s', X e s' → X' e s') : Ends x s Q' X' := by
  unfold Ends at *
  cases hx : x s with
  | ok a s' => exact hQ a s' (by rwa [hx] at h)
  | error e s' => exact hX e s' (by rwa [hx] at h)

/-- Two things that are known of the same run. -/
theorem Ends.and {x : EStateM ε σ α} (h : Ends x s Q X) (h' : Ends x s Q' X') :
    Ends x s (fun a s' => Q a s' ∧ Q' a s') fun e s' => X e s' ∧ X' e s' := by
  unfold Ends at *
  cases hx : x s with
  | ok a s' => exact ⟨by rwa [hx] at h, by rwa [hx] at h'⟩
  | error e s' => exact ⟨by rwa [hx] at h, by rwa [hx] at h'⟩

theorem ends_true (x : EStateM ε σ α) : Ends x s (fun _ _ => True) fun _ _ => True := by
  unfold Ends
  cases x s <;> trivial

theorem Ends.elim {x : EStateM ε σ α} {p : Prop} (h : Ends x s (fun _ _ => p) fun _ _ => p) : p := by
  unfold Ends at h
  cases hx : x s with
  | ok a s' => rwa [hx] at h
  | error e s' => rwa [hx] at h

theorem Ends.bind {x : EStateM ε σ α} {f : α → EStateM ε σ β} {R : β → σ → Prop}
    (h : Ends x s Q X) (hf : ∀ a s', Q a s' → Ends (f a) s' R X') (hX : ∀ e s', X e s' → X' e s') :
    Ends (x >>= f) s R X' := by
  rw [ends_bind]
  exact h.mono hf hX

end

end Dset.Lib
