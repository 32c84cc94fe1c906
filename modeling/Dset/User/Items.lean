import Dset.User.ParseSpec

/-! The items in a message to the kernel: what a command, or one line of a restore, asks for.
A message can only be read when the lengths of its nested attributes are those of what is in
them. -/

namespace Dset.User

open Dset.Lib Dset.Core

/-- A command of a script, as far as a message carries it. -/
structure Item where
  cmd : Cmd
  setname : Option Str
  setname2 : Option Str
  domain : Option Str
  timeout : Option ℕ
  hashsize : Option ℕ
  maxelem : Option ℕ
  lineno : Option ℕ
  deriving DecidableEq

def Item.of (cmd : Cmd) (setname : Option Str) : Item :=
  ⟨cmd, setname, none, none, none, none, none, none⟩

def Item.put (i : Item) : Attr → Item
  | .setname s => { i with setname := some s }
  | .setname2 s => { i with setname2 := some s }
  | .domain s => { i with domain := some s }
  | .timeout v => { i with timeout := some v }
  | .hashsize v => { i with hashsize := some v }
  | .maxelem v => { i with maxelem := some v }
  | .lineno v => { i with lineno := some v }
  | _ => i

/-- The nested attributes have the length of what is in them; the lengths of the open ones so
far are on a stack. -/
def nestLens : List Attr → List ℕ → Bool
  | [], stack => stack = []
  | .data :: l, stack => nestLens l (Attr.data.size :: stack)
  | .adt :: l, stack => nestLens l (Attr.adt.size :: stack)
  | .nestEnd _ :: _, [] => false
  | .nestEnd n :: l, [len] => n = len && nestLens l []
  | .nestEnd n :: l, len :: outer :: stack => n = len && nestLens l ((outer + len) :: stack)
  | _ :: l, [] => nestLens l []
  | a :: l, len :: stack => nestLens l ((len + a.size) :: stack)

/-- The items in the nested attributes of a message, one in each `DSET_ATTR_DATA`. -/
def itemsFrom (base : Item) : Option Item → List Attr → List Item
  | _, [] => []
  | _, .data :: l => itemsFrom base (some base) l
  | cur, .nestEnd _ :: l => cur.toList ++ itemsFrom base none l
  | cur, a :: l => itemsFrom base (cur.map (·.put a)) l

namespace Nlmsg

variable (nlh : Nlmsg)

/-- The name of the set a message is about. -/
def setname : Option Str :=
  nlh.attrs.findSome? fun | .setname s => some s | _ => none

def readItems : List Item :=
  if nlh.cmd.isTyped then itemsFrom (Item.of nlh.cmd nlh.setname) none nlh.attrs
  else [nlh.attrs.foldl Item.put (Item.of nlh.cmd none)]

/-- The items in a message that can be read. -/
def items : Option (List Item) := if nestLens nlh.attrs [] then some nlh.readItems else none

end Nlmsg

/-! ### Attributes that are not nested -/

def Attr.isFlat : Attr → Bool
  | .data | .adt | .nestEnd _ => false
  | _ => true

def attrsLen (l : List Attr) : ℕ := (l.map Attr.size).sum

@[simp] theorem attrsLen_nil : attrsLen [] = 0 := rfl

@[simp] theorem attrsLen_cons (a : Attr) (l : List Attr) :
    attrsLen (a :: l) = a.size + attrsLen l := List.sum_cons

@[simp] theorem attrsLen_append (l l' : List Attr) :
    attrsLen (l ++ l') = attrsLen l + attrsLen l' := by
  simp [attrsLen]

theorem nestLens_cons {a : Attr} (ha : a.isFlat = true) (l : List Attr) (len : ℕ)
    (stack : List ℕ) :
    nestLens (a :: l) (len :: stack) = nestLens l ((len + a.size) :: stack) := by
  cases a <;> first | rfl | cases ha

theorem nestLens_cons_nil {a : Attr} (ha : a.isFlat = true) (l : List Attr) :
    nestLens (a :: l) [] = nestLens l [] := by
  cases a <;> first | rfl | cases ha

theorem nestLens_append {l : List Attr} (hl : ∀ a ∈ l, a.isFlat = true) (rest : List Attr)
    (len : ℕ) (stack : List ℕ) :
    nestLens (l ++ rest) (len :: stack) = nestLens rest ((len + attrsLen l) :: stack) := by
  induction l generalizing len with
  | nil => rfl
  | cons a l ih =>
    rw [List.cons_append, nestLens_cons (hl a List.mem_cons_self),
      ih fun a ha => hl a (List.mem_cons_of_mem _ ha), attrsLen_cons, Nat.add_assoc]

theorem nestLens_append_nil {l : List Attr} (hl : ∀ a ∈ l, a.isFlat = true) (rest : List Attr) :
    nestLens (l ++ rest) [] = nestLens rest [] := by
  induction l with
  | nil => rfl
  | cons a l ih =>
    rw [List.cons_append, nestLens_cons_nil (hl a List.mem_cons_self),
      ih fun a ha => hl a (List.mem_cons_of_mem _ ha)]

theorem itemsFrom_cons {a : Attr} (ha : a.isFlat = true) (base : Item) (cur : Option Item)
    (l : List Attr) : itemsFrom base cur (a :: l) = itemsFrom base (cur.map (·.put a)) l := by
  cases a <;> first | rfl | cases ha

/-- Attributes in front of all nested ones are in no item. -/
theorem itemsFrom_append_none {l : List Attr} (hl : ∀ a ∈ l, a.isFlat = true) (base : Item)
    (rest : List Attr) : itemsFrom base none (l ++ rest) = itemsFrom base none rest := by
  induction l with
  | nil => rfl
  | cons a l ih =>
    rw [List.cons_append, itemsFrom_cons (hl a List.mem_cons_self)]
    exact ih fun a ha => hl a (List.mem_cons_of_mem _ ha)

theorem itemsFrom_append_some {l : List Attr} (hl : ∀ a ∈ l, a.isFlat = true) (base i : Item)
    (rest : List Attr) :
    itemsFrom base (some i) (l ++ rest) = itemsFrom base (some (l.foldl Item.put i)) rest := by
  induction l generalizing i with
  | nil => rfl
  | cons a l ih =>
    rw [List.cons_append, itemsFrom_cons (hl a List.mem_cons_self)]
    exact ih (fun a ha => hl a (List.mem_cons_of_mem _ ha)) _

/-! ### Elements -/

/-- The attributes of an element as `buildItem` puts them. -/
def itemAttrs (l : List Attr) : List Attr :=
  .data :: l ++ [.nestEnd ((Attr.data.size + attrsLen l) % 2 ^ 16)]

def SmallItem (l : List Attr) : Prop :=
  (∀ a ∈ l, a.isFlat = true) ∧ Attr.data.size + attrsLen l < 2 ^ 16

theorem nestLens_itemAttrs {l : List Attr} (hl : SmallItem l) (rest : List Attr) (len : ℕ)
    (stack : List ℕ) : nestLens (itemAttrs l ++ rest) (len :: stack) =
      nestLens rest ((len + (Attr.data.size + attrsLen l)) :: stack) := by
  rw [itemAttrs, Nat.mod_eq_of_lt hl.2, List.cons_append, List.cons_append, List.append_assoc]
  show nestLens (l ++ _) (Attr.data.size :: len :: stack) = _
  rw [nestLens_append hl.1]
  show (decide _ && _) = _
  rw [decide_eq_true rfl, Bool.true_and]
  rfl

theorem nestLens_itemAttrs_nil {l : List Attr} (hl : SmallItem l) (rest : List Attr) :
    nestLens (itemAttrs l ++ rest) [] = nestLens rest [] := by
  rw [itemAttrs, Nat.mod_eq_of_lt hl.2, List.cons_append, List.cons_append, List.append_assoc]
  show nestLens (l ++ _) [Attr.data.size] = _
  rw [nestLens_append hl.1]
  show (decide _ && _) = _
  rw [decide_eq_true rfl, Bool.true_and]
  rfl

theorem itemsFrom_itemAttrs {l : List Attr} (hl : ∀ a ∈ l, a.isFlat = true) (base : Item)
    (cur : Option Item) (rest : List Attr) :
    itemsFrom base cur (itemAttrs l ++ rest) =
      l.foldl Item.put base :: itemsFrom base none rest := by
  rw [itemAttrs, List.cons_append, List.cons_append, List.append_assoc]
  show itemsFrom base (some base) (l ++ _) = _
  rw [itemsFrom_append_some hl]
  rfl

theorem attrsLen_itemAttrs (l : List Attr) :
    attrsLen (itemAttrs l) = Attr.data.size + attrsLen l := by
  rw [itemAttrs, List.cons_append, attrsLen_cons, attrsLen_append]
  rfl

theorem nestLens_elements {ls : List (List Attr)} (hls : ∀ l ∈ ls, SmallItem l)
    (rest : List Attr) (len : ℕ) (stack : List ℕ) :
    nestLens (ls.flatMap itemAttrs ++ rest) (len :: stack) =
      nestLens rest ((len + attrsLen (ls.flatMap itemAttrs)) :: stack) := by
  induction ls generalizing len with
  | nil => rfl
  | cons l ls ih =>
    rw [List.flatMap_cons, List.append_assoc, nestLens_itemAttrs (hls l List.mem_cons_self),
      ih fun l hl => hls l (List.mem_cons_of_mem _ hl), attrsLen_append, attrsLen_itemAttrs,
      Nat.add_assoc]

theorem itemsFrom_elements {ls : List (List Attr)} (hls : ∀ l ∈ ls, SmallItem l) (base : Item)
    (rest : List Attr) :
    itemsFrom base none (ls.flatMap itemAttrs ++ rest) =
      ls.map (·.foldl Item.put base) ++ itemsFrom base none rest := by
  induction ls with
  | nil => rfl
  | cons l ls ih =>
    rw [List.flatMap_cons, List.append_assoc,
      itemsFrom_itemAttrs (hls l List.mem_cons_self).1, List.map_cons, List.cons_append,
      ih fun l hl => hls l (List.mem_cons_of_mem _ hl)]

end Dset.User
