import Dset.User.Items

/-! The messages that commands build, and the message in which the adds and deletes of a
restore are collected: what is in it after every step, and what the kernel can read in it when
it is sent. -/

namespace Dset.User

open Dset.Lib Dset.Core

variable {κ : Type}

/-! ### Putting attributes -/

namespace Nlmsg

variable (nlh : Nlmsg)

def puts (l : List Attr) : Nlmsg :=
  { nlh with len := nlh.len + attrsLen l, attrs := nlh.attrs ++ l }

@[simp] theorem puts_nil : nlh.puts [] = nlh := by simp [puts]

theorem puts_cons (a : Attr) (l : List Attr) : nlh.puts (a :: l) = (nlh.put a).puts l := by
  simp [puts, put, Nat.add_assoc]

theorem puts_puts (l l' : List Attr) : (nlh.puts l).puts l' = nlh.puts (l ++ l') := by
  simp [puts, Nat.add_assoc]

theorem put_eq_puts (a : Attr) : nlh.put a = nlh.puts [a] := by rw [puts_cons, puts_nil]

/-- The length of a message with all its attributes. -/
def Sized : Prop := nlh.len = headerLen + attrsLen nlh.attrs

/-- An attribute fits: there is room for the bytes reserved for it, and for a reply. -/
theorem addattr_eq {bufsize alen : ℕ} {a : Attr}
    (h : nlh.len + mnlAttrHdrlen + mnlAlign alen + nlmsgerrLen ≤ bufsize) :
    nlh.addattr bufsize alen a = nlh.puts [a] := by
  have hfull : nlh.bufferFull bufsize alen = false := decide_eq_false (by omega)
  rw [addattr, rawdata2attr, hfull, if_neg Bool.false_ne_true, Option.getD_some, put_eq_puts]

theorem addattrs_some {bufsize : ℕ} {l : List Attr} {nlh' : Nlmsg}
    (h : addattrs bufsize nlh l = some nlh') :
    nlh' = nlh.puts l ∧ (l ≠ [] → (∀ a ∈ l, a.payload ≤ a.attrLen) → (∀ a ∈ l, a.isFlat = true) →
      nlh'.len + nlmsgerrLen ≤ bufsize) := by
  induction l generalizing nlh with
  | nil =>
    obtain rfl := Option.some.inj h
    exact ⟨(puts_nil nlh).symm, fun h => absurd rfl h⟩
  | cons a l ih =>
    unfold addattrs rawdata2attr at h
    by_cases hfull : nlh.bufferFull bufsize a.attrLen = true
    · rw [hfull] at h
      cases h
    · rw [if_neg hfull] at h
      obtain ⟨heq, hroom⟩ := ih (nlh.put a) h
      refine ⟨by rw [heq, puts_cons], fun _ hlen hflat => ?_⟩
      by_cases hnil : l = []
      · subst hnil
        obtain rfl := Option.some.inj h
        have hle := hlen a List.mem_cons_self
        have hf := hflat a List.mem_cons_self
        have hsize : a.size = mnlAttrHdrlen + mnlAlign a.payload := by
          cases a <;> first | rfl | cases hf
        have halign : mnlAlign a.payload ≤ mnlAlign a.attrLen := by
          unfold mnlAlign
          omega
        have hnot : ¬ bufsize < nlh.len + 0 + mnlAttrHdrlen + mnlAlign a.attrLen + nlmsgerrLen :=
          fun h => hfull (decide_eq_true h)
        show nlh.len + a.size + nlmsgerrLen ≤ bufsize
        omega
      · exact hroom hnil (fun b hb => hlen b (List.mem_cons_of_mem _ hb))
          fun b hb => hflat b (List.mem_cons_of_mem _ hb)

/-- Attributes for which there is room with some to spare. -/
theorem addattrs_fits {bufsize room : ℕ} {l : List Attr} (hflat : ∀ a ∈ l, a.isFlat = true)
    (hlen : ∀ a ∈ l, mnlAlign a.attrLen ≤ room)
    (hroom : nlh.len + attrsLen l + room + nlmsgerrLen ≤ bufsize) :
    addattrs bufsize nlh l = some (nlh.puts l) := by
  induction l generalizing nlh with
  | nil => rw [puts_nil]; rfl
  | cons a l ih =>
    have hle := hlen a List.mem_cons_self
    have hf := hflat a List.mem_cons_self
    have hsize : mnlAttrHdrlen ≤ a.size := by
      cases a <;> first | exact Nat.le_add_right _ _ | cases hf
    rw [attrsLen_cons] at hroom
    have hfull : nlh.bufferFull bufsize a.attrLen = false := decide_eq_false (by omega)
    rw [addattrs, rawdata2attr, hfull, if_neg Bool.false_ne_true]
    refine (ih (nlh.put a) (fun b hb => hflat b (List.mem_cons_of_mem _ hb))
      (fun b hb => hlen b (List.mem_cons_of_mem _ hb)) ?_).trans (by rw [puts_cons])
    show nlh.len + a.size + attrsLen l + room + nlmsgerrLen ≤ bufsize
    omega

end Nlmsg

/-! ### Elements -/

namespace Session

variable (s : Session)

/-- The attributes of the element of an add or del. -/
def itemOf : List Attr := s.data.adtAttrs ++ [.lineno s.lineno]

theorem itemOf_mem {a : Attr} (h : a ∈ s.itemOf) :
    a.isFlat = true ∧ a.payload ≤ a.attrLen ∧ mnlAlign a.attrLen ≤ 256 := by
  rw [itemOf, Data.adtAttrs, List.mem_append, List.mem_append, List.mem_map, List.mem_map,
    List.mem_singleton] at h
  rcases h with (⟨t, ht, rfl⟩ | ⟨v, _, rfl⟩) | rfl
  · refine ⟨rfl, ?_, show mnlAlign 256 ≤ 256 by decide⟩
    rw [Option.mem_toList, Data.getDomain] at ht
    split at ht
    · obtain rfl := Option.some.inj ht
      show (s.data.domaindata.take 255).length + 1 ≤ 256
      rw [List.length_take]
      omega
    · cases ht
  · exact ⟨rfl, le_rfl, show mnlAlign 4 ≤ 256 by decide⟩
  · exact ⟨rfl, le_rfl, show mnlAlign 4 ≤ 256 by decide⟩

theorem attrsLen_itemOf : attrsLen s.itemOf ≤ 276 := by
  have hdomain (t : Str) (ht : t ∈ s.data.getDomain) : (Attr.domain t).size ≤ 260 := by
    rw [Option.mem_def, Data.getDomain] at ht
    split at ht
    · obtain rfl := Option.some.inj ht
      show 4 + ((s.data.domaindata.take 255).length + 1 + 3) / 4 * 4 ≤ 260
      rw [List.length_take]
      omega
    · cases ht
  have hlineno : attrsLen [Attr.lineno s.lineno] = 8 := by
    rw [attrsLen_cons, attrsLen_nil]
    show mnlAttrHdrlen + mnlAlign 4 + 0 = 8
    decide
  rw [itemOf, Data.adtAttrs, attrsLen_append, attrsLen_append, hlineno]
  have htimeout : attrsLen (s.data.getTimeout.toList.map Attr.timeout) ≤ 8 := by
    cases s.data.getTimeout with
    | none => exact Nat.zero_le _
    | some v =>
      show attrsLen [Attr.timeout v] ≤ 8
      rw [attrsLen_cons, attrsLen_nil]
      show mnlAttrHdrlen + mnlAlign 4 + 0 ≤ 8
      decide
  cases h : s.data.getDomain with
  | none =>
    simp only [Option.toList_none, List.map_nil, attrsLen_nil]
    omega
  | some t =>
    have := hdomain t h
    simp only [Option.toList_some, List.map_cons, List.map_nil, attrsLen_cons, attrsLen_nil]
    omega

theorem small_itemOf : SmallItem s.itemOf := by
  refine ⟨fun a ha => (s.itemOf_mem ha).1, ?_⟩
  have := s.attrsLen_itemOf
  show 4 + _ < 2 ^ 16
  omega

theorem itemOf_ne_nil : s.itemOf ≠ [] := List.append_ne_nil_of_right_ne_nil _ (List.cons_ne_nil _ _)

end Session

theorem Nlmsg.nestEnd_puts (nlh : Nlmsg) (l : List Attr) :
    ((nlh.put .data).puts l).nestEnd ⟨nlh.attrs.length, nlh.len⟩ = nlh.puts (itemAttrs l) := by
  have hlen : nlh.len + Attr.data.size + attrsLen l - nlh.len = Attr.data.size + attrsLen l := by
    omega
  simp only [nestEnd, puts, put, hlen, itemAttrs, attrsLen_append, attrsLen_cons, List.append_assoc,
    List.cons_append, List.nil_append, Nlmsg.mk.injEq, true_and, attrsLen_nil]
  refine ⟨?_, trivial⟩
  show _ = nlh.len + (Attr.data.size + (attrsLen l + 0))
  omega

theorem Nlmsg.nestCancel_put (nlh : Nlmsg) (a : Attr) :
    (nlh.put a).nestCancel ⟨nlh.attrs.length, nlh.len⟩ = nlh := by
  simp [nestCancel, put]

/-- An element is put behind what is there, or rolled back. -/
theorem Session.buildItem_eq (s : Session) (nlh : Nlmsg) (nested : List Nest) :
    s.buildItem nlh nested = .full { s with buffer := some nlh, nested := nested } ∨
      s.buildItem nlh nested =
          .done { s with buffer := some (nlh.puts (itemAttrs s.itemOf)), nested := nested } ∧
        (nlh.puts (itemAttrs s.itemOf)).len + nlmsgerrLen ≤ s.bufsize := by
  unfold buildItem Nlmsg.openNested
  by_cases hopen : s.bufsize < nlh.len + mnlAttrHdrlen
  · rw [if_pos hopen]
    exact .inl rfl
  · rw [if_neg hopen]
    dsimp only
    cases hput : Nlmsg.addattrs s.bufsize (nlh.put .data) (s.data.adtAttrs ++ [.lineno s.lineno]) with
    | none =>
      refine .inl ?_
      rw [Nlmsg.nestCancel_put]
    | some nlh' =>
      obtain ⟨rfl, hroom⟩ := Nlmsg.addattrs_some _ hput
      refine .inr ⟨?_, ?_⟩
      · rw [← Nlmsg.nestEnd_puts]
        rfl
      · have := hroom s.itemOf_ne_nil (fun a ha => (s.itemOf_mem ha).2.1)
          fun a ha => (s.itemOf_mem ha).1
        rw [← Nlmsg.nestEnd_puts]
        exact this

theorem Session.buildItem_fits (s : Session) (nlh : Nlmsg) (nested : List Nest)
    (h : nlh.len + 600 ≤ s.bufsize) :
    s.buildItem nlh nested =
        .done { s with buffer := some (nlh.puts (itemAttrs s.itemOf)), nested := nested } := by
  have hlen := s.attrsLen_itemOf
  have hopen : ¬ s.bufsize < nlh.len + mnlAttrHdrlen := by
    show ¬ s.bufsize < nlh.len + 4
    omega
  have hput : Nlmsg.addattrs s.bufsize (nlh.put .data) (s.data.adtAttrs ++ [.lineno s.lineno]) =
      some ((nlh.put .data).puts s.itemOf) := by
    refine Nlmsg.addattrs_fits _ (fun a ha => (s.itemOf_mem ha).1)
      (fun a ha => (s.itemOf_mem ha).2.2) ?_
    show nlh.len + 4 + attrsLen s.itemOf + 256 + 20 ≤ s.bufsize
    omega
  unfold buildItem Nlmsg.openNested
  rw [if_neg hopen]
  dsimp only
  rw [hput, ← Nlmsg.nestEnd_puts]

/-! ### The message of many elements -/

/-- A message in which elements of one set are collected. -/
structure Batch (bufsize : ℕ) (cmd : Cmd) (exist : Bool) (name : SetName) (ls : List (List Attr))
    (nlh : Nlmsg) (nested : List Nest) : Prop where
  cmd : nlh.cmd = cmd
  exist : nlh.exist = exist
  attrs : ∃ v n, nlh.attrs =
    [.protocol v, .setname name.text, .lineno n, .adt] ++ ls.flatMap itemAttrs
  small : ∀ l ∈ ls, SmallItem l
  nested : ∃ len, nested = [⟨3, len⟩] ∧ nlh.len = len + Attr.adt.size + attrsLen (ls.flatMap itemAttrs)
  room : nlh.len + nlmsgerrLen ≤ bufsize

/-- The list of elements is short enough for its length, if the message were closed now. -/
def nestFits (nlh : Nlmsg) (nested : List Nest) : Prop :=
  ∀ nest ∈ nested, nlh.len - nest.len < 2 ^ 16

section

variable {bufsize : ℕ} {cmd : Cmd} {exist : Bool} {name : SetName} {ls : List (List Attr)}
  {nlh : Nlmsg} {nested : List Nest}

theorem Batch.push (h : Batch bufsize cmd exist name ls nlh nested) {l : List Attr}
    (hl : SmallItem l) (hroom : (nlh.puts (itemAttrs l)).len + nlmsgerrLen ≤ bufsize) :
    Batch bufsize cmd exist name (ls ++ [l]) (nlh.puts (itemAttrs l)) nested where
  cmd := h.cmd
  exist := h.exist
  attrs := by
    obtain ⟨v, n, hattrs⟩ := h.attrs
    refine ⟨v, n, ?_⟩
    show nlh.attrs ++ itemAttrs l = _
    rw [hattrs, List.append_assoc, List.flatMap_append, List.flatMap_singleton]
  small := fun l' hl' => by
    rcases List.mem_append.mp hl' with hl' | hl'
    · exact h.small l' hl'
    · rw [List.mem_singleton.mp hl']
      exact hl
  nested := by
    obtain ⟨len, hnested, hlen⟩ := h.nested
    refine ⟨len, hnested, ?_⟩
    show nlh.len + attrsLen (itemAttrs l) = _
    rw [hlen, List.flatMap_append, attrsLen_append, List.flatMap_singleton, Nat.add_assoc]
  room := hroom

/-- The elements that the kernel reads in a closed batch: all of them, if their length fits. -/
theorem Batch.items (h : Batch bufsize cmd exist name ls nlh nested) (htyped : cmd.isTyped = true)
    (hfits : nestFits nlh nested) :
    (Session.closeAll nlh nested).items =
      some (ls.map (·.foldl Item.put (Item.of cmd (some name.text)))) := by
  obtain ⟨v, n, hattrs⟩ := h.attrs
  obtain ⟨len, hnested, hlen⟩ := h.nested
  have hlt : nlh.len - len < 2 ^ 16 := hfits ⟨3, len⟩ (by rw [hnested]; exact List.mem_singleton_self _)
  have hnest : nlh.len - len = Attr.adt.size + attrsLen (ls.flatMap itemAttrs) := by omega
  have hclose : Session.closeAll nlh nested = nlh.nestEnd ⟨3, len⟩ := by rw [hnested]; rfl
  have hclosed : (nlh.nestEnd ⟨3, len⟩).attrs = [.protocol v, .setname name.text, .lineno n, .adt] ++
      (ls.flatMap itemAttrs ++ [.nestEnd (Attr.adt.size + attrsLen (ls.flatMap itemAttrs))]) := by
    show nlh.attrs ++ [Attr.nestEnd ((nlh.len - len) % 2 ^ 16)] = _
    rw [Nat.mod_eq_of_lt hlt, hnest, hattrs, List.append_assoc]
  have hlens : nestLens (nlh.nestEnd ⟨3, len⟩).attrs [] = true := by
    rw [hclosed]
    show nestLens (ls.flatMap itemAttrs ++ _) [Attr.adt.size] = true
    rw [nestLens_elements h.small]
    show (decide _ && _) = true
    rw [decide_eq_true rfl]
    rfl
  have hcmd : (nlh.nestEnd ⟨3, len⟩).cmd = cmd := h.cmd
  have hname : (nlh.nestEnd ⟨3, len⟩).setname = some name.text := by
    unfold Nlmsg.setname
    rw [hclosed]
    rfl
  rw [hclose, Nlmsg.items, hlens, if_pos rfl, Nlmsg.readItems, hcmd, htyped, if_pos rfl, hname,
    hclosed]
  show some (itemsFrom _ none (ls.flatMap itemAttrs ++ _)) = _
  rw [itemsFrom_elements h.small]
  show some (_ ++ []) = _
  rw [List.append_nil]

theorem Batch.items_none (h : Batch bufsize cmd exist name ls nlh nested)
    (hfits : ¬ nestFits nlh nested) : (Session.closeAll nlh nested).items = none := by
  obtain ⟨v, n, hattrs⟩ := h.attrs
  obtain ⟨len, hnested, hlen⟩ := h.nested
  have hge : 2 ^ 16 ≤ nlh.len - len := by
    by_contra hlt
    refine hfits fun nest hnest => ?_
    rw [hnested, List.mem_singleton] at hnest
    subst hnest
    exact not_le.mp hlt
  have hnest : nlh.len - len = Attr.adt.size + attrsLen (ls.flatMap itemAttrs) := by omega
  have hclose : Session.closeAll nlh nested = nlh.nestEnd ⟨3, len⟩ := by rw [hnested]; rfl
  have hclosed : (nlh.nestEnd ⟨3, len⟩).attrs = [.protocol v, .setname name.text, .lineno n, .adt] ++
      (ls.flatMap itemAttrs ++ [.nestEnd ((nlh.len - len) % 2 ^ 16)]) := by
    show nlh.attrs ++ [Attr.nestEnd ((nlh.len - len) % 2 ^ 16)] = _
    rw [hattrs, List.append_assoc]
  have hlens : nestLens (nlh.nestEnd ⟨3, len⟩).attrs [] = false := by
    rw [hclosed]
    show nestLens (ls.flatMap itemAttrs ++ _) [Attr.adt.size] = false
    rw [nestLens_elements h.small]
    show (decide _ && _) = false
    rw [decide_eq_false (by omega), Bool.false_and]
  rw [hclose, Nlmsg.items, hlens, if_neg Bool.false_ne_true]

end

end Dset.User
