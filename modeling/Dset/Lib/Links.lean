import Mathlib.Data.List.Sort

/-! Lists of nodes linked by pointers: chains that end in a null pointer, and rings whose nodes
point to both neighbours. What is read of a chain stays when other nodes are written. -/

namespace Dset.Lib

variable {ι : Type*}

/-- The pointers of the nodes; `none` is null. -/
structure Links (ι : Type*) where
  next : ι → Option ι
  prev : ι → Option ι

namespace Links

section
variable [DecidableEq ι]

def setNext (m : Links ι) (x : ι) (p : Option ι) : Links ι :=
  { m with next := Function.update m.next x p }

def setPrev (m : Links ι) (x : ι) (p : Option ι) : Links ι :=
  { m with prev := Function.update m.prev x p }

variable (m : Links ι) {x y : ι} (p : Option ι)

@[simp] theorem setNext_next : (m.setNext x p).next x = p := Function.update_self _ _ _

@[simp] theorem setNext_next_ne (h : y ≠ x) : (m.setNext x p).next y = m.next y :=
  Function.update_of_ne h _ _

@[simp] theorem setNext_prev : (m.setNext x p).prev = m.prev := rfl

@[simp] theorem setPrev_prev : (m.setPrev x p).prev x = p := Function.update_self _ _ _

@[simp] theorem setPrev_prev_ne (h : y ≠ x) : (m.setPrev x p).prev y = m.prev y :=
  Function.update_of_ne h _ _

@[simp] theorem setPrev_next : (m.setPrev x p).next = m.next := rfl

end

variable {m m' : Links ι} {p q : Option ι} {x y : ι} {l : List ι}

/-! ### Chains -/

/-- The nodes from pointer `p` to the null pointer are `l`. -/
def Chain (m : Links ι) : Option ι → List ι → Prop
  | p, [] => p = none
  | p, x :: l => p = some x ∧ m.Chain (m.next x) l

@[simp] theorem chain_nil : m.Chain p [] ↔ p = none := Iff.rfl

@[simp] theorem chain_cons : m.Chain p (x :: l) ↔ p = some x ∧ m.Chain (m.next x) l := Iff.rfl

/-- A chain is read of the `next` pointers of its nodes alone. -/
theorem Chain.congr (h : m.Chain p l) (heq : ∀ x ∈ l, m'.next x = m.next x) : m'.Chain p l := by
  induction l generalizing p with
  | nil => exact h
  | cons x l ih =>
    obtain ⟨rfl, hl⟩ := h
    refine ⟨rfl, ?_⟩
    rw [heq x List.mem_cons_self]
    exact ih hl fun y hy => heq y (List.mem_cons_of_mem _ hy)

theorem Chain.eq_none_iff (h : m.Chain p l) : p = none ↔ l = [] := by
  cases l with
  | nil => exact iff_of_true h rfl
  | cons x l => exact iff_of_false (by rw [h.1]; exact Option.some_ne_none x) (List.cons_ne_nil x l)

/-! ### Rings -/

/-- From `x` over the nodes `l` to `y`, every node points to the next one, and back. -/
def Linked (m : Links ι) : ι → List ι → ι → Prop
  | x, [], y => m.next x = some y ∧ m.prev y = some x
  | x, z :: l, y => m.next x = some z ∧ m.prev z = some x ∧ m.Linked z l y

/-- A list with its head, in a circle. -/
def Ring (m : Links ι) (head : ι) (l : List ι) : Prop := m.Linked head l head

/-- The links of a path are read of the `next` pointers of its nodes but the last, and of the `prev`
pointers of its nodes but the first. -/
theorem Linked.congr (h : m.Linked x l y) (hnext : ∀ z ∈ x :: l, m'.next z = m.next z)
    (hprev : ∀ z ∈ y :: l, m'.prev z = m.prev z) : m'.Linked x l y := by
  induction l generalizing x with
  | nil =>
    obtain ⟨h1, h2⟩ := h
    exact ⟨(hnext x List.mem_cons_self).trans h1, (hprev y List.mem_cons_self).trans h2⟩
  | cons z l ih =>
    obtain ⟨h1, h2, hl⟩ := h
    refine ⟨(hnext x List.mem_cons_self).trans h1, (hprev z (by simp)).trans h2, ih hl ?_ ?_⟩
    · exact fun w hw => hnext w (List.mem_cons_of_mem _ hw)
    · intro w hw
      apply hprev
      rcases List.mem_cons.mp hw with rfl | hw
      · exact List.mem_cons_self
      · exact List.mem_cons_of_mem _ (List.mem_cons_of_mem _ hw)

/-- A path to a node whose `next` pointer is null is a chain. -/
theorem Linked.chain (h : m.Linked x l y) (hy : m.next y = none) :
    m.Chain (m.next x) (l ++ [y]) := by
  induction l generalizing x with
  | nil => exact ⟨h.1, hy⟩
  | cons w l ih => exact ⟨h.1, ih h.2.2⟩

/-- A path cut in front of its last node. -/
theorem linked_concat {z : ι} : m.Linked x (l ++ [z]) y ↔
    m.Linked x l z ∧ m.next z = some y ∧ m.prev y = some z := by
  induction l generalizing x with
  | nil => simp [Linked, and_assoc]
  | cons w l ih =>
    show _ ∧ _ ∧ m.Linked w (l ++ [z]) y ↔ (_ ∧ _ ∧ m.Linked w l z) ∧ _
    rw [ih, and_assoc, and_assoc]

end Links

/-! ### Merging -/

section
variable {α : Type*} {le : α → α → Bool}

/-- Numbered elements of a list that stand below each other are the same. -/
theorem zipIdxLE_antisymm {l : List α} {a b : α × ℕ} (ha : a ∈ l.zipIdx) (hb : b ∈ l.zipIdx)
    (hab : List.zipIdxLE le a b) (hba : List.zipIdxLE le b a) : a = b := by
  have hindex : a.2 = b.2 := by
    unfold List.zipIdxLE at hab hba
    split at hab
    · rename_i h1
      split at hba
      · rename_i h2
        rw [if_pos h2, decide_eq_true_eq] at hab
        exact Nat.le_antisymm hab (of_decide_eq_true hba)
      · cases hba
    · cases hab
  obtain ⟨x, i⟩ := a
  obtain ⟨y, j⟩ := b
  obtain rfl : i = j := hindex
  have hx := List.mk_mem_zipIdx_iff_getElem?.mp ha
  have hy := List.mk_mem_zipIdx_iff_getElem?.mp hb
  rw [Option.some.inj (hx.symm.trans hy)]

theorem mergeSort_zipIdx_from (l : List α) (n : ℕ) :
    ((l.zipIdx n).mergeSort (List.zipIdxLE le)).map (·.1) = l.mergeSort le := by
  have hshift : (l.zipIdx.mergeSort (List.zipIdxLE le)).map (fun p => (p.1, n + p.2)) =
      (l.zipIdx n).mergeSort (List.zipIdxLE le) := by
    rw [List.zipIdx_eq_map_add (i := n)]
    apply List.map_mergeSort
    intro a _ b _
    simp only [List.zipIdxLE, Nat.add_le_add_iff_left]
  rw [← hshift, List.map_map]
  exact List.mergeSort_zipIdx

/-- Sorted halves merge to the sorted whole: the sort is stable. -/
theorem merge_mergeSort (htrans : ∀ a b c, le a b → le b c → le a c)
    (htotal : ∀ a b, le a b || le b a) (l l' : List α) :
    (l.mergeSort le).merge (l'.mergeSort le) le = (l ++ l').mergeSort le := by
  have hzip : (l ++ l').zipIdx = l.zipIdx ++ l'.zipIdx l.length := by
    rw [List.zipIdx_append, Nat.zero_add]
  have hsorted (k : List (α × ℕ)) :
      (k.mergeSort (List.zipIdxLE le)).Pairwise fun a b => List.zipIdxLE le a b = true :=
    List.pairwise_mergeSort (List.zipIdxLE_trans htrans) (List.zipIdxLE_total htotal) k
  -- among numbered elements the order is antisymmetric, and the sorted list is unique
  have hunique : (l.zipIdx.mergeSort (List.zipIdxLE le)).merge
      ((l'.zipIdx l.length).mergeSort (List.zipIdxLE le)) (List.zipIdxLE le) =
      (l ++ l').zipIdx.mergeSort (List.zipIdxLE le) := by
    have hperm : (l.zipIdx.mergeSort (List.zipIdxLE le)).merge
        ((l'.zipIdx l.length).mergeSort (List.zipIdxLE le)) (List.zipIdxLE le) |>.Perm
        (l ++ l').zipIdx := by
      rw [hzip]
      exact (List.merge_perm_append _).trans ((List.mergeSort_perm _ _).append
        (List.mergeSort_perm _ _))
    have hmerged := List.pairwise_merge (List.zipIdxLE_trans htrans)
      (List.zipIdxLE_total htotal) _ _ (hsorted l.zipIdx) (hsorted (l'.zipIdx l.length))
    refine List.Perm.eq_of_pairwise ?_ hmerged (hsorted _)
      (hperm.trans (List.mergeSort_perm _ _).symm)
    intro a b ha hb hab hba
    exact zipIdxLE_antisymm (hperm.mem_iff.mp ha) (List.mem_mergeSort.mp hb) hab hba
  calc (l.mergeSort le).merge (l'.mergeSort le) le
      = ((l.zipIdx.mergeSort (List.zipIdxLE le)).map (·.1)).merge
          (((l'.zipIdx l.length).mergeSort (List.zipIdxLE le)).map (·.1)) le := by
        rw [List.mergeSort_zipIdx, mergeSort_zipIdx_from]
    _ = ((l.zipIdx.mergeSort (List.zipIdxLE le)).merge
          ((l'.zipIdx l.length).mergeSort (List.zipIdxLE le)) (List.zipIdxLE le)).map (·.1) := by
        refine (List.merge_stable _ _ ?_).symm
        intro x y hx hy
        have hlt := (List.mem_zipIdx (List.mem_mergeSort.mp hx)).2.1
        have hge := (List.mem_zipIdx (List.mem_mergeSort.mp hy)).1
        omega
    _ = (l ++ l').mergeSort le := by
        rw [hunique, List.mergeSort_zipIdx]

end

end Dset.Lib
