import Mathlib.Algebra.BigOperators.Group.List.Basic
import Mathlib.Algebra.GroupWithZero.Nat
import Mathlib.Data.List.ReduceOption

/-! A stream of items and separators divided into batches: the items in order, each in one batch,
and no batch across a separator. A batch under construction is filled item by item and closed. It
is filled as far as its limit when items of one key are only kept apart by a full batch. -/

namespace Dset.Lib

variable {α : Type*} {P : List α → Prop}

/-- The items of a stream in batches that meet `P`; `none` is a separator. -/
inductive Batches (P : List α → Prop) : List (Option α) → List (List α) → Prop
  | nil : Batches P [] []
  | separator {l : List (Option α)} {gs : List (List α)} (h : Batches P l gs) :
    Batches P (none :: l) gs
  | batch {l : List (Option α)} {gs : List (List α)} {g : List α} (hg : P g) (h : Batches P l gs) :
    Batches P (g.map some ++ l) (g :: gs)

namespace Batches

variable {l l' : List (Option α)} {gs gs' : List (List α)} {g : List α}

theorem append (h : Batches P l gs) (h' : Batches P l' gs') : Batches P (l ++ l') (gs ++ gs') := by
  induction h with
  | nil => exact h'
  | separator _ ih => exact .separator ih
  | batch hg _ ih =>
    rw [List.append_assoc]
    exact .batch hg ih

theorem snoc (h : Batches P l gs) (hg : P g) : Batches P (l ++ g.map some) (gs ++ [g]) := by
  apply h.append
  rw [← List.append_nil (g.map some)]
  exact .batch hg .nil

theorem snoc_separator (h : Batches P l gs) : Batches P (l ++ [none]) gs := by
  rw [← List.append_nil gs]
  exact h.append (.separator .nil)

/-- No item is lost, repeated or moved. -/
theorem flatten_eq (h : Batches P l gs) : gs.flatten = l.reduceOption := by
  induction h with
  | nil => rfl
  | separator _ ih => exact ih
  | @batch l gs g hg _ ih =>
    have hsome : (g.map some).reduceOption = g := by
      rw [List.reduceOption, List.filterMap_map]
      exact List.filterMap_some
    rw [List.flatten_cons, List.reduceOption_append, hsome, ih]

theorem forall_mem (h : Batches P l gs) : ∀ g ∈ gs, P g := by
  induction h with
  | nil => exact fun g hg => absurd hg List.not_mem_nil
  | separator _ ih => exact ih
  | batch hg _ ih => exact List.forall_mem_cons.mpr ⟨hg, ih⟩

end Batches

/-- The batches with the one under construction, unless it is empty. -/
def closeBatch (gs : List (List α)) : List α → List (List α)
  | [] => gs
  | x :: g => gs ++ [x :: g]

/-- The stream up to the items `g` of a batch under construction. -/
def Filling (P : List α → Prop) (l : List (Option α)) (gs : List (List α)) (g : List α) : Prop :=
  ∃ front, l = front ++ g.map some ∧ Batches P front gs

namespace Filling

variable {l : List (Option α)} {gs : List (List α)} {g : List α}

theorem of_batches (h : Batches P l gs) : Filling P l gs [] := ⟨l, by simp, h⟩

theorem push (h : Filling P l gs g) (x : α) : Filling P (l ++ [some x]) gs (g ++ [x]) := by
  obtain ⟨front, rfl, hfront⟩ := h
  exact ⟨front, by simp, hfront⟩

theorem close (h : Filling P l gs g) (hg : g ≠ [] → P g) : Batches P l (closeBatch gs g) := by
  obtain ⟨front, rfl, hfront⟩ := h
  cases g with
  | nil =>
    rw [List.map_nil, List.append_nil]
    exact hfront
  | cons x g => exact hfront.snoc (hg (List.cons_ne_nil x g))

end Filling

/-! ### Packing -/

section

variable {α β : Type*}

/-- All items have one key. -/
def Alike (key : α → Option β) (r : List α) : Prop := ∀ x ∈ r, ∀ y ∈ r, key x = key y ∧ key x ≠ none

def total (w : α → ℕ) (r : List α) : ℕ := (r.map w).sum

/-- Every batch has one item or items of one key, and items of one key in a row are in one batch
if they fit: one of the batches is as large as they are, or beyond the limit. -/
structure Packed (key : α → Option β) (w : α → ℕ) (limit : ℕ) (l : List (Option α))
    (gs : List (List α)) : Prop where
  alike : ∀ g ∈ gs, (∃ x, g = [x]) ∨ Alike key g
  covers : ∀ r, Alike key r → r.map some <:+: l → 0 < total w r →
    ∃ g ∈ gs, total w r ≤ total w g ∨ limit < total w g

/-- The batches `gs` and the one under construction, to which a last item with a key belongs. -/
structure Packing (key : α → Option β) (w : α → ℕ) (limit : ℕ) (l : List (Option α))
    (gs : List (List α)) (g : List α) : Prop where
  packed : Packed key w limit l (gs ++ [g])
  last : ∀ r, Alike key r → r.map some <:+ l →
    (∃ b ∈ gs, limit < total w b) ∨ total w r ≤ total w g
  tail : ∀ x, [some x] <:+ l → key x ≠ none → x ∈ g.getLast?

variable {key : α → Option β} {w : α → ℕ} {limit : ℕ} {l : List (Option α)} {gs gs' : List (List α)}
  {g r : List α} {x : α}

theorem total_snoc : total w (r ++ [x]) = total w r + w x := by simp [total]

@[simp] theorem total_nil : total w [] = 0 := rfl

theorem Alike.subset (h : Alike key g) (hr : r ⊆ g) : Alike key r :=
  fun x hx y hy => h x (hr hx) y (hr hy)

theorem Alike.singleton (h : key x ≠ none) : Alike key [x] := by
  intro y hy z hz
  rw [List.mem_singleton.mp hy, List.mem_singleton.mp hz]
  exact ⟨rfl, h⟩

/-- A run of items at the end of a stream ends with its last item. -/
theorem suffix_snoc (h : r.map some <:+ l ++ [some x]) :
    r = [] ∨ ∃ r', r = r' ++ [x] ∧ r'.map some <:+ l := by
  rcases List.suffix_concat_iff.mp h with h | ⟨t, ht, hl⟩
  · exact .inl (List.map_eq_nil_iff.mp h)
  · obtain ⟨r', r'', rfl, rfl, hx⟩ := List.map_eq_append_iff.mp ht
    obtain ⟨y, rfl, hy⟩ := List.map_eq_singleton_iff.mp hx
    obtain rfl := Option.some.inj hy
    exact .inr ⟨r', rfl, hl⟩

theorem suffix_separator (h : r.map some <:+ l ++ [none]) : r = [] := by
  rcases List.suffix_concat_iff.mp h with h | ⟨t, ht, -⟩
  · exact List.map_eq_nil_iff.mp h
  · obtain ⟨r', r'', rfl, rfl, hx⟩ := List.map_eq_append_iff.mp ht
    obtain ⟨y, rfl, hy⟩ := List.map_eq_singleton_iff.mp hx
    cases hy

namespace Packed

/-- An empty batch counts for nothing. -/
theorem drop_nil (h : Packed key w limit l (gs ++ [[]] ++ gs')) : Packed key w limit l (gs ++ gs') where
  alike g hg := h.alike g (by rcases List.mem_append.mp hg with hg | hg <;> simp [hg])
  covers r hr hl hpos := by
    obtain ⟨g, hg, hle⟩ := h.covers r hr hl hpos
    refine ⟨g, ?_, hle⟩
    simp only [List.mem_append, List.mem_singleton] at hg ⊢
    rcases hg with (hg | rfl) | hg
    · exact .inl hg
    · rw [total_nil] at hle
      omega
    · exact .inr hg

/-- Behind one more item or separator: only the runs that end with it are new. -/
theorem snoc {o : Option α} (h : Packed key w limit l gs) (hsub : ∀ g ∈ gs, ∃ g' ∈ gs',
      total w g ≤ total w g')
    (halike : ∀ g ∈ gs', (∃ x, g = [x]) ∨ Alike key g)
    (hnew : ∀ r, Alike key r → r.map some <:+ l ++ [o] → 0 < total w r →
      ∃ g ∈ gs', total w r ≤ total w g ∨ limit < total w g) :
    Packed key w limit (l ++ [o]) gs' where
  alike := halike
  covers r hr hl hpos := by
    rcases List.infix_concat_iff.mp hl with hl | hl
    · exact hnew r hr hl hpos
    · obtain ⟨g, hg, hle⟩ := h.covers r hr hl hpos
      obtain ⟨g', hg', hgg⟩ := hsub g hg
      exact ⟨g', hg', hle.imp (Nat.le_trans · hgg) (Nat.lt_of_lt_of_le · hgg)⟩

end Packed

namespace Packing

theorem nil : Packing key w limit [] [] [] where
  packed := by
    refine ⟨fun g hg => ?_, fun r hr hl hpos => ?_⟩
    · obtain rfl := List.mem_singleton.mp hg
      exact .inr fun x hx => absurd hx List.not_mem_nil
    · rw [List.map_eq_nil_iff.mp (List.infix_nil.mp hl)] at hpos
      exact absurd hpos (Nat.lt_irrefl 0)
  last r _ hl := by
    rw [List.map_eq_nil_iff.mp (List.suffix_nil.mp hl)]
    exact .inr (Nat.zero_le _)
  tail x hl := absurd (List.suffix_nil.mp hl) (List.cons_ne_nil _ _)

theorem mem_snoc {b : List α} (hb : b ∈ gs ++ [g]) : b ∈ gs ∨ b = g := by
  rcases List.mem_append.mp hb with hb | hb
  · exact .inl hb
  · exact .inr (List.mem_singleton.mp hb)

/-- One more item for the batch. -/
theorem push (h : Packing key w limit l gs g) (hx : key x ≠ none) (hg : ∀ y ∈ g, key y = key x) :
    Packing key w limit (l ++ [some x]) gs (g ++ [x]) := by
  have halike : Alike key (g ++ [x]) := by
    have hkey : ∀ y ∈ g ++ [x], key y = key x := by
      intro y hy
      rcases List.mem_append.mp hy with hy | hy
      · exact hg y hy
      · rw [List.mem_singleton.mp hy]
    intro y hy z hz
    exact ⟨(hkey y hy).trans (hkey z hz).symm, hkey y hy ▸ hx⟩
  have hlast : ∀ r, Alike key r → r.map some <:+ l ++ [some x] →
      (∃ b ∈ gs, limit < total w b) ∨ total w r ≤ total w (g ++ [x]) := by
    intro r hr hl
    rcases suffix_snoc hl with rfl | ⟨r', rfl, hl'⟩
    · exact .inr (Nat.zero_le _)
    · refine (h.last r' (hr.subset (List.subset_append_left _ _)) hl').imp_right fun hle => ?_
      rw [total_snoc, total_snoc]
      exact Nat.add_le_add_right hle _
  refine ⟨h.packed.snoc (fun b hb => ?_) (fun b hb => ?_) (fun r hr hl _ => ?_), hlast, ?_⟩
  · rcases mem_snoc hb with hb | rfl
    · exact ⟨b, List.mem_append_left _ hb, Nat.le_refl _⟩
    · refine ⟨b ++ [x], List.mem_append_right _ (List.mem_singleton_self _), ?_⟩
      rw [total_snoc]
      exact Nat.le_add_right _ _
  · rcases mem_snoc hb with hb | rfl
    · exact h.packed.alike b (List.mem_append_left _ hb)
    · exact .inr halike
  · rcases hlast r hr hl with ⟨b, hb, hlt⟩ | hle
    · exact ⟨b, List.mem_append_left _ hb, .inr hlt⟩
    · exact ⟨_, List.mem_append_right _ (List.mem_singleton_self _), .inl hle⟩
  · intro y hy _
    rw [List.getLast?_append_of_ne_nil _ (List.cons_ne_nil _ _)]
    have hyx : some y = some x := by
      obtain ⟨t, ht⟩ := hy
      exact (List.append_inj' ht rfl).2 |> List.cons.inj |>.1
    exact hyx.symm

/-- The batch is closed, as it is full or of another key, and the item opens the next one. -/
theorem next (h : Packing key w limit l gs g)
    (hother : limit < total w g ∨ ∀ y ∈ g.getLast?, key y ≠ key x) :
    Packing key w limit (l ++ [some x]) (gs ++ [g]) [x] := by
  have hlast : ∀ r, Alike key r → r.map some <:+ l ++ [some x] →
      (∃ b ∈ gs ++ [g], limit < total w b) ∨ total w r ≤ total w [x] := by
    intro r hr hl
    rcases hother with hfull | hother
    · exact .inl ⟨g, List.mem_append_right _ (List.mem_singleton_self g), hfull⟩
    refine .inr ?_
    rcases suffix_snoc hl with rfl | ⟨r', rfl, hl'⟩
    · exact Nat.zero_le _
    -- an item in front of it would have another key
    rcases r'.eq_nil_or_concat with rfl | ⟨r₁, y, rfl⟩
    · exact Nat.le_refl _
    · have hy := hr y (by simp) x (by simp)
      have hsuffix : [some y] <:+ l := by
        refine List.IsSuffix.trans ?_ hl'
        rw [List.concat_eq_append, List.map_append]
        exact List.suffix_append _ _
      exact absurd hy.1 (hother y (h.tail y hsuffix hy.2))
  refine ⟨h.packed.snoc (fun b hb => ⟨b, List.mem_append_left _ hb, Nat.le_refl _⟩) (fun b hb => ?_)
    (fun r hr hl _ => ?_), hlast, ?_⟩
  · rcases mem_snoc hb with hb | rfl
    · exact h.packed.alike b hb
    · exact .inl ⟨x, rfl⟩
  · rcases hlast r hr hl with ⟨b, hb, hlt⟩ | hle
    · exact ⟨b, List.mem_append_left _ hb, .inr hlt⟩
    · exact ⟨_, List.mem_append_right _ (List.mem_singleton_self _), .inl hle⟩
  · intro y hy _
    obtain ⟨t, ht⟩ := hy
    exact (Option.some.inj ((List.append_inj' ht rfl).2 |> List.cons.inj |>.1)) ▸ rfl

/-- A separator, or an item without a key, closes the batch and stays alone. -/
theorem alone (h : Packing key w limit l gs g) {o : Option α} (ho : ∀ x ∈ o, key x = none) :
    Packing key w limit (l ++ [o]) (gs ++ [g] ++ o.toList.map fun x => [x]) [] := by
  have hempty : ∀ r, Alike key r → r.map some <:+ l ++ [o] → r = [] := by
    intro r hr hl
    cases o with
    | none => exact suffix_separator hl
    | some x =>
      rcases suffix_snoc hl with rfl | ⟨r', rfl, -⟩
      · rfl
      · exact absurd (ho x rfl) (hr x (by simp) x (by simp)).2
  refine ⟨h.packed.snoc (fun b hb => ⟨b, List.mem_append_left _ (List.mem_append_left _ hb),
      Nat.le_refl _⟩)
    (fun b hb => ?_) (fun r hr hl hpos => ?_), fun r hr hl => ?_, fun x hl hx => ?_⟩
  · rcases mem_snoc hb with hb | rfl
    · rcases List.mem_append.mp hb with hb | hb
      · exact h.packed.alike b hb
      · obtain ⟨x, -, rfl⟩ := List.mem_map.mp hb
        exact .inl ⟨x, rfl⟩
    · exact .inr fun x hx => absurd hx List.not_mem_nil
  · rw [hempty r hr hl] at hpos
    exact absurd hpos (Nat.lt_irrefl 0)
  · rw [hempty r hr hl]
    exact .inr (Nat.zero_le _)
  · exact absurd (hempty [x] (.singleton hx) hl) (List.cons_ne_nil _ _)

/-- An empty batch can be left out. -/
theorem drop_nil {gs' : List (List α)} (h : Packing key w limit l (gs ++ [[]] ++ gs') g) :
    Packing key w limit l (gs ++ gs') g where
  packed := by
    have hpacked := h.packed
    rw [List.append_assoc] at hpacked ⊢
    exact hpacked.drop_nil
  last r hr hl := by
    refine (h.last r hr hl).imp_left ?_
    rintro ⟨b, hb, hlt⟩
    simp only [List.mem_append, List.mem_singleton] at hb
    rcases hb with (hb | rfl) | hb
    · exact ⟨b, List.mem_append_left _ hb, hlt⟩
    · exact absurd hlt (Nat.not_lt_zero _)
    · exact ⟨b, List.mem_append_right _ hb, hlt⟩
  tail := h.tail

/-- The batch that is closed may have been empty. -/
theorem of_snoc {g' : List α} {gs' : List (List α)}
    (h : Packing key w limit l (gs ++ [g] ++ gs') g') : Packing key w limit l (closeBatch gs g ++ gs') g' := by
  cases g with
  | nil => exact h.drop_nil
  | cons x g => exact h

/-- The batches at the end of the stream. -/
theorem closed (h : Packing key w limit l gs g) : Packed key w limit l (closeBatch gs g) := by
  have hpacked := h.packed
  cases g with
  | nil =>
    rw [← List.append_nil (gs ++ [[]])] at hpacked
    rw [closeBatch, ← List.append_nil gs]
    exact hpacked.drop_nil
  | cons x g => exact hpacked

end Packing

end

end Dset.Lib
