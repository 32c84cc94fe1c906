import Dset.Lib.Batches
import Dset.User.Stream

/-! Every line of a restore is delivered once and in order: the messages of a stream are its
script in batches. A message has `DSET_FLAG_EXIST` as the options stand at its first line, and it
can be read unless its list of elements has outgrown the 16 bits of `nla_len`, which takes pages
of more than 64 KiB. -/

namespace Dset.User

open Dset.Lib Dset.Core

variable {κ : Type}

/-! ### The script of a stream -/

/-- What a line asks for, with its domain cut, and whether `-exist` was given on a line so far. -/
structure ScriptItem where
  exist : Bool
  item : Item
  deriving DecidableEq

/-- What a line of a stream asks for: nothing, a `COMMIT` or an item; and the option behind it. -/
def lineScript (lineno : ℕ) (exist : Bool) (line : List UInt8) : List (Option ScriptItem) × Bool :=
  if isBlank (skipSpace line) then ([], exist) else if isCommit (skipSpace line) then ([none], exist)
  else match readArgv ⟨[], [], false⟩ (skipSpace line) with
    | none => ([], exist)
    | some argv => (((lineArgs argv).bind (·.item lineno)).toList.map fun i =>
        some ⟨exist || givesExist argv, i.cut⟩, exist || givesExist argv)

/-- What the lines of a stream ask for, behind a line with a number. -/
def script (lineno : ℕ) (exist : Bool) : List (List UInt8) → List (Option ScriptItem)
  | [] => []
  | line :: lines => (lineScript ((lineno + 1) % 2 ^ 32) exist line).1 ++
      script ((lineno + 1) % 2 ^ 32) (lineScript ((lineno + 1) % 2 ^ 32) exist line).2 lines

/-! ### Messages -/

/-- The bytes that the element of an item takes. -/
def Item.len (i : Item) : ℕ :=
  attrsLen (itemAttrs (i.domain.toList.map .domain ++ i.timeout.toList.map .timeout ++
    i.lineno.toList.map .lineno))

theorem Item.len_cut_le (i : Item) : i.cut.len ≤ 280 := by
  have hdomain : attrsLen (i.cut.domain.toList.map .domain) ≤ 260 := by
    unfold Item.cut
    cases i.domain with
    | none => exact Nat.zero_le _
    | some t =>
      have hlen : (t.take 255).length ≤ 255 := List.length_take_le _ _
      show 4 + ((t.take 255).length + 1 + 3) / 4 * 4 + 0 ≤ 260
      omega
  have hword (o : Option ℕ) {f : ℕ → Attr} (hf : ∀ v, (f v).size = 8) :
      attrsLen (o.toList.map f) ≤ 8 := by
    cases o with
    | none => exact Nat.zero_le _
    | some v => exact (congrArg (· + 0) (hf v)).le
  have hsize : mnlAttrHdrlen + mnlAlign 4 = 8 := by decide
  have htimeout : attrsLen (i.cut.timeout.toList.map .timeout) ≤ 8 := hword _ fun _ => hsize
  have hlineno : attrsLen (i.cut.lineno.toList.map .lineno) ≤ 8 := hword _ fun _ => hsize
  have hdata : Attr.data.size = 4 := rfl
  unfold Item.len
  rw [attrsLen_itemAttrs, attrsLen_append, attrsLen_append, hdata]
  omega

/-- The length of the list of elements in a message with these items. -/
def batchLen (g : List ScriptItem) : ℕ := Attr.adt.size + (g.map (·.item.len)).sum

/-- What is read of a message with these items. -/
def batchMail (g : List ScriptItem) : Bool × Option (List Item) :=
  (g.head?.any (·.exist), if batchLen g < 2 ^ 16 then some (g.map (·.item)) else none)

/-- The items of one message: a single one, or elements to add to one set or to delete from it,
not more than the buffer holds. -/
structure OneMessage (page : ℕ) (g : List ScriptItem) : Prop where
  ne_nil : g ≠ []
  related : (∃ x, g = [x]) ∨ ∃ (cmd : Cmd) (name : Str), (cmd = .add ∨ cmd = .del) ∧
    ∀ x ∈ g, x.item.cmd = cmd ∧ x.item.setname = some name
  room : batchLen g + nlmsgerrLen ≤ page

/-- In a page of at most 64 KiB every message can be read. -/
theorem OneMessage.read {page : ℕ} {g : List ScriptItem} (h : OneMessage page g)
    (hpage : page ≤ 2 ^ 16) : (batchMail g).2 = some (g.map (·.item)) := by
  have hroom := h.room
  have hlen : nlmsgerrLen = 20 := rfl
  exact if_pos (by omega)

/-- What is read of the messages in such a page. -/
theorem items_read {page : ℕ} {l : List (Option ScriptItem)} {gs : List (List ScriptItem)}
    (h : Batches (OneMessage page) l gs) (hpage : page ≤ 2 ^ 16) :
    ((gs.map batchMail).filterMap (·.2)).flatten = l.reduceOption.map (·.item) := by
  have hread : (gs.map batchMail).filterMap (·.2) = gs.map (·.map (·.item)) := by
    rw [List.filterMap_map, ← List.filterMap_eq_map]
    apply List.filterMap_congr
    intro g hg
    exact (h.forall_mem g hg).read hpage
  rw [hread, ← List.map_flatten, h.flatten_eq]

/-! ### One command -/

/-- The command and the set of an item that can be collected in a message with others. -/
def ScriptItem.batchKey (x : ScriptItem) : Option (Cmd × Str) :=
  if (x.item.cmd = .add ∨ x.item.cmd = .del) ∧ x.item.lineno ≠ some 0 then
    x.item.setname.map (x.item.cmd, ·)
  else none

theorem ScriptItem.batchKey_eq_some {x : ScriptItem} {cmd : Cmd} {name : Str} :
    x.batchKey = some (cmd, name) ↔ (cmd = .add ∨ cmd = .del) ∧ x.item.cmd = cmd ∧
      x.item.setname = some name ∧ x.item.lineno ≠ some 0 := by
  unfold batchKey
  by_cases h : (x.item.cmd = .add ∨ x.item.cmd = .del) ∧ x.item.lineno ≠ some 0
  · rw [if_pos h, Option.map_eq_some_iff]
    constructor
    · rintro ⟨t, ht, heq⟩
      obtain ⟨rfl, rfl⟩ := Prod.mk.inj heq
      exact ⟨h.1, rfl, ht, h.2⟩
    · rintro ⟨-, rfl, hname, -⟩
      exact ⟨name, hname, rfl⟩
  · rw [if_neg h]
    refine iff_of_false nofun ?_
    rintro ⟨hcmd, rfl, -, hline⟩
    exact h ⟨hcmd, hline⟩

def InBuffer (page : ℕ) : Option Packet → List ScriptItem → Prop
  | none, g => g = []
  | some q, g => g.head?.map (·.exist) = some q.exist ∧
      (∀ x ∈ g, x.batchKey = some (q.cmd, q.name.text)) ∧
      q.elems.map (·.foldl Item.put (Item.of q.cmd (some q.name.text))) = g.map (·.item) ∧
      q.nlaLen = batchLen g ∧ batchLen g + nlmsgerrLen ≤ page

theorem InBuffer.message {page : ℕ} {q : Packet} {g : List ScriptItem} (h : InBuffer page (some q) g) :
    g ≠ [] ∧ OneMessage page g ∧ q.mail = batchMail g := by
  obtain ⟨hhead, hall, hitems, hlen, hroom⟩ := h
  obtain ⟨x, hx, hexist⟩ := Option.map_eq_some_iff.mp hhead
  have hne : g ≠ [] := by
    rintro rfl
    cases hx
  have hcmd := (ScriptItem.batchKey_eq_some.mp (hall x (List.mem_of_head? hx))).1
  refine ⟨hne, ⟨hne, .inr ⟨q.cmd, q.name.text, hcmd, fun y hy => ?_⟩, hroom⟩, ?_⟩
  · have hkey := ScriptItem.batchKey_eq_some.mp (hall y hy)
    exact ⟨hkey.2.1, hkey.2.2.1⟩
  · unfold Packet.mail batchMail
    rw [hitems, hlen, hx, Option.any_some, hexist]

/-- How much a message may hold before an element of the same set does not fit any more. -/
def batchLimit (page : ℕ) : ℕ := page - 676

/-- The script so far is in the messages sent and in the buffer, as tight as it may be. -/
def Carries (page : ℕ) (l : List (Option ScriptItem)) (log : List (Bool × Option (List Item)))
    (p : Option Packet) : Prop :=
  ∃ gs g, Filling (OneMessage page) l gs g ∧ log = gs.map batchMail ∧ InBuffer page p g ∧
    Packing ScriptItem.batchKey (·.item.len) (batchLimit page) l gs g

section

variable {page : ℕ} {l : List (Option ScriptItem)} {log : List (Bool × Option (List Item))}
  {p : Option Packet}

theorem InBuffer.flush {gs : List (List ScriptItem)} {g : List ScriptItem} (h : InBuffer page p g)
    (hfill : Filling (OneMessage page) l gs g) : Batches (OneMessage page) l (closeBatch gs g) ∧
      gs.map batchMail ++ p.toList.map Packet.mail = (closeBatch gs g).map batchMail := by
  cases p with
  | none =>
    obtain rfl : g = [] := h
    exact ⟨hfill.close (absurd rfl ·), List.append_nil _⟩
  | some q =>
    obtain ⟨hne, hone, hmail⟩ := h.message
    refine ⟨hfill.close fun _ => hone, ?_⟩
    obtain ⟨x, g, rfl⟩ := List.exists_cons_of_ne_nil hne
    rw [Option.toList_some, List.map_singleton, hmail, closeBatch, List.map_append]
    rfl

theorem Carries.flush (h : Carries page l log p) : ∃ gs, Batches (OneMessage page) l gs ∧
    log ++ p.toList.map Packet.mail = gs.map batchMail ∧
      Packed ScriptItem.batchKey (·.item.len) (batchLimit page) l gs := by
  obtain ⟨gs, g, hfill, rfl, hin, hpack⟩ := h
  obtain ⟨hgs, hlog⟩ := hin.flush hfill
  exact ⟨_, hgs, hlog, hpack.closed⟩

/-- The buffer is flushed for something that stays alone, a `COMMIT` or an item. -/
theorem Carries.alone (h : Carries page l log p) {o : Option ScriptItem}
    (ho : ∀ x ∈ o, x.batchKey = none ∧ OneMessage page [x]) :
    Carries page (l ++ [o]) (log ++ p.toList.map Packet.mail ++
      o.toList.map fun x => batchMail [x]) none := by
  obtain ⟨gs, g, hfill, rfl, hin, hpack⟩ := h
  obtain ⟨hgs, hlog⟩ := hin.flush hfill
  have hone : Batches (OneMessage page) (l ++ [o]) (closeBatch gs g ++ o.toList.map fun x => [x]) := by
    cases o with
    | none =>
      rw [Option.toList_none, List.map_nil, List.append_nil]
      exact hgs.snoc_separator
    | some x => exact hgs.snoc (ho x rfl).2
  refine ⟨_, [], .of_batches hone, ?_, rfl, (hpack.alone fun x hx => (ho x hx).1).of_snoc⟩
  rw [hlog, List.map_append, List.map_map]
  rfl

/-- The buffer is flushed for the first item of another message. -/
theorem Carries.next (h : Carries page l log p) {x : ScriptItem} {q : Packet}
    (hother : ∀ gs g, Packing ScriptItem.batchKey (·.item.len) (batchLimit page) l gs g →
      InBuffer page p g → batchLimit page < total (·.item.len) g ∨
        ∀ y ∈ g.getLast?, y.batchKey ≠ x.batchKey)
    (hq : InBuffer page (some q) [x]) :
    Carries page (l ++ [some x]) (log ++ p.toList.map Packet.mail) (some q) := by
  obtain ⟨gs, g, hfill, rfl, hin, hpack⟩ := h
  obtain ⟨hgs, hlog⟩ := hin.flush hfill
  have hnext := hpack.next (hother gs g hpack hin)
  rw [← List.append_nil (gs ++ [g])] at hnext
  refine ⟨_, [x], (Filling.of_batches hgs).push x, hlog, hq, ?_⟩
  rw [← List.append_nil (closeBatch gs g)]
  exact hnext.of_snoc

theorem Carries.start : Carries page [] [] none := ⟨[], [], .of_batches .nil, rfl, rfl, .nil⟩

theorem batchLen_singleton (x : ScriptItem) : batchLen [x] = Attr.adt.size + x.item.len := by
  unfold batchLen
  rw [List.map_singleton, List.sum_singleton]

theorem batchLen_snoc (g : List ScriptItem) (x : ScriptItem) :
    batchLen (g ++ [x]) = batchLen g + x.item.len := by
  unfold batchLen
  rw [List.map_append, List.map_singleton, List.sum_append, List.sum_singleton, Nat.add_assoc]

theorem Session.toItem_adt {s : Session} {t : Str} (hcmd : s.cmd = .add ∨ s.cmd = .del)
    (ht : s.data.getDomain = some t) :
    s.toItem = ⟨s.cmd, s.setnameText, none, some t, s.data.getTimeout, none, none,
        some s.lineno⟩ ∧
      s.itemOf.foldl Item.put (Item.of s.cmd s.setnameText) = s.toItem ∧
      attrsLen (itemAttrs s.itemOf) = s.toItem.len := by
  have hfold : s.itemOf.foldl Item.put (Item.of s.cmd s.setnameText) = s.toItem := by
    unfold toItem
    rcases hcmd with h | h <;> rw [h]
  have hitem := foldl_itemOf s (Item.of s.cmd s.setnameText) ht rfl
  rw [hfold] at hitem
  refine ⟨hitem, hfold, ?_⟩
  rw [hitem]
  unfold Item.len itemOf Data.adtAttrs
  rw [ht]
  rfl

/-- An element is collected exactly if its item has a key. -/
theorem Session.toItem_key {s : Session} (exist : Bool)
    (hadt : s.cmd = .add ∨ s.cmd = .del → ∃ t, s.data.getDomain = some t) {cmd : Cmd} {name : Str} :
    (⟨exist, s.toItem⟩ : ScriptItem).batchKey = some (cmd, name) ↔
      s.Collects ∧ s.cmd = cmd ∧ s.setnameText = some name := by
  rw [ScriptItem.batchKey_eq_some]
  show _ ∧ s.toItem.cmd = cmd ∧ s.toItem.setname = _ ∧ s.toItem.lineno ≠ _ ↔ _
  unfold Session.Collects
  rw [Session.toItem_cmd]
  constructor
  · rintro ⟨hcmd, rfl, hname, hline⟩
    obtain ⟨t, ht⟩ := hadt hcmd
    rw [(toItem_adt hcmd ht).1] at hname hline
    exact ⟨⟨fun h => hline (congrArg some h), hcmd⟩, rfl, hname⟩
  · rintro ⟨⟨hline, hcmd⟩, rfl, hname⟩
    obtain ⟨t, ht⟩ := hadt hcmd
    rw [(toItem_adt hcmd ht).1]
    exact ⟨hcmd, rfl, hname, fun h => hline (Option.some.inj h)⟩

theorem Session.toItem_key_none {s : Session} (exist : Bool)
    (hadt : s.cmd = .add ∨ s.cmd = .del → ∃ t, s.data.getDomain = some t) (h : ¬ s.Collects) :
    (⟨exist, s.toItem⟩ : ScriptItem).batchKey = none := by
  cases hkey : (⟨exist, s.toItem⟩ : ScriptItem).batchKey with
  | none => rfl
  | some k => exact absurd ((toItem_key exist hadt).mp hkey).1 h

theorem Session.setnameText_eq {s : Session} {name : SetName} (h : s.data.getSetname = some name) :
    s.setnameText = some name.text := by
  unfold setnameText
  rw [h, Option.map_some]

theorem InBuffer.first {s : Session} {i : Item} (hitem : s.toItem = i.cut) (hpage : 4096 ≤ page)
    (hcollects : s.Collects) {t : Str} (ht : s.data.getDomain = some t)
    {name : SetName} (hname : s.data.getSetname = some name) :
    InBuffer page (some ⟨s.cmd, s.envopts.exist, name, [s.itemOf]⟩)
      [⟨s.envopts.exist, s.toItem⟩] := by
  obtain ⟨heq, hfold, hlen⟩ := Session.toItem_adt hcollects.2 ht
  have hset := Session.setnameText_eq hname
  have hsmall : s.toItem.len ≤ 280 := hitem ▸ i.len_cut_le
  have hadt : Attr.adt.size = 4 := rfl
  have herr : nlmsgerrLen = 20 := rfl
  refine ⟨rfl, ?_, ?_, ?_, ?_⟩
  · intro x hx
    rw [List.mem_singleton.mp hx]
    exact (Session.toItem_key _ fun _ => ⟨t, ht⟩).mpr ⟨hcollects, rfl, hset⟩
  · rw [List.map_singleton, List.map_singleton, ← hset, hfold]
  · rw [batchLen_singleton, ← hlen]
    unfold Packet.nlaLen
    rw [List.flatMap_singleton]
  · rw [batchLen_singleton]
    show Attr.adt.size + s.toItem.len + _ ≤ _
    omega

theorem InBuffer.push {s : Session} {q : Packet} {g : List ScriptItem}
    (h : InBuffer page (some q) g) {t : Str} (ht : s.data.getDomain = some t)
    (hcollects : s.Collects) (hcmd : s.cmd = q.cmd) (hname : s.data.getSetname = some q.name)
    (hroom : (q.push s.itemOf).nlaLen + nlmsgerrLen ≤ page) :
    InBuffer page (some (q.push s.itemOf)) (g ++ [⟨s.envopts.exist, s.toItem⟩]) := by
  obtain ⟨hhead, hall, hitems, hlen, -⟩ := h
  obtain ⟨heq, hfold, hsize⟩ := Session.toItem_adt hcollects.2 ht
  have hset := Session.setnameText_eq hname
  have hnla : (q.push s.itemOf).nlaLen = batchLen (g ++ [⟨s.envopts.exist, s.toItem⟩]) := by
    rw [batchLen_snoc, ← hlen, ← hsize]
    unfold Packet.nlaLen Packet.push
    rw [List.flatMap_append, attrsLen_append, List.flatMap_singleton, Nat.add_assoc]
  refine ⟨?_, ?_, ?_, hnla, hnla ▸ hroom⟩
  · obtain ⟨x, hx, hexist⟩ := Option.map_eq_some_iff.mp hhead
    rw [List.head?_append, hx]
    exact congrArg some hexist
  · intro x hx
    rcases List.mem_append.mp hx with hx | hx
    · exact hall x hx
    · rw [List.mem_singleton.mp hx]
      exact (Session.toItem_key _ fun _ => ⟨t, ht⟩).mpr ⟨hcollects, hcmd, hset⟩
  · rw [hcmd, hset] at hfold
    show (q.elems ++ [s.itemOf]).map (·.foldl Item.put (Item.of q.cmd (some q.name.text))) = _
    rw [List.map_append, List.map_append, List.map_singleton, List.map_singleton, hitems, hfold]

theorem Moves.carries {s : Session} {i : Item} (hitem : s.toItem = i.cut) (hpage : 4096 ≤ s.bufsize)
    (hadt : s.cmd = .add ∨ s.cmd = .del → ∃ t, s.data.getDomain = some t)
    {sent : List (Bool × Option (List Item))} {p' : Option Packet} (h : Moves s p sent p')
    (hc : Carries s.bufsize l log p) :
    Carries s.bufsize (l ++ [some ⟨s.envopts.exist, s.toItem⟩]) (log ++ sent) p' := by
  cases h with
  | single hcollects =>
    have hsmall : s.toItem.len ≤ 280 := hitem ▸ i.len_cut_le
    have hlen : batchLen [⟨s.envopts.exist, s.toItem⟩] = 4 + s.toItem.len := batchLen_singleton _
    have herr : nlmsgerrLen = 20 := rfl
    have hone : OneMessage s.bufsize [⟨s.envopts.exist, s.toItem⟩] :=
      ⟨List.cons_ne_nil _ _, .inl ⟨_, rfl⟩, by omega⟩
    have hmail : (s.envopts.exist, some [s.toItem]) = batchMail [⟨s.envopts.exist, s.toItem⟩] := by
      unfold batchMail
      rw [if_pos (by omega)]
      rfl
    have halone := hc.alone (o := some ⟨s.envopts.exist, s.toItem⟩) fun x hx => by
      obtain rfl := Option.some.inj hx
      exact ⟨Session.toItem_key_none _ hadt hcollects, hone⟩
    rw [← List.append_assoc, hmail]
    exact halone
  | push q hp htakes hroom =>
    subst hp
    obtain ⟨gs, g, hfill, hlog, hin, hpack⟩ := hc
    obtain ⟨hline, hcmd, hname⟩ := htakes
    obtain ⟨x, hx, -⟩ := Option.map_eq_some_iff.mp hin.1
    have hadd := (ScriptItem.batchKey_eq_some.mp (hin.2.1 x (List.mem_of_head? hx))).1
    have hcollects : s.Collects := ⟨hline, hcmd ▸ hadd⟩
    obtain ⟨t, ht⟩ := hadt hcollects.2
    have hkey := (Session.toItem_key s.envopts.exist hadt).mpr
      ⟨hcollects, hcmd, Session.setnameText_eq hname⟩
    rw [List.append_nil]
    refine ⟨gs, _, hfill.push _, hlog, hin.push ht hcollects hcmd hname hroom,
      hpack.push (hkey ▸ Option.some_ne_none _) fun y hy => ?_⟩
    rw [hin.2.1 y hy, hkey]
  | full q hp htakes hbig =>
    subst hp
    obtain ⟨hline, hcmd, hname⟩ := htakes
    have hcollects : s.Collects := by
      obtain ⟨gs, g, -, -, hin, -⟩ := hc
      obtain ⟨x, hx, -⟩ := Option.map_eq_some_iff.mp hin.1
      have hadd := (ScriptItem.batchKey_eq_some.mp (hin.2.1 x (List.mem_of_head? hx))).1
      exact ⟨hline, hcmd ▸ hadd⟩
    obtain ⟨t, ht⟩ := hadt hcollects.2
    refine hc.next (fun gs g _ hin => .inl ?_) (.first hitem hpage hcollects ht hname)
    have hlen : q.nlaLen = 4 + total (·.item.len) g := hin.2.2.2.1
    unfold batchLimit
    omega
  | fresh hcollects hother name hname =>
    obtain ⟨t, ht⟩ := hadt hcollects.2
    refine hc.next (fun gs g _ hin => .inr fun y hy hsame => ?_) (.first hitem hpage hcollects ht hname)
    cases p with
    | none =>
      obtain rfl : g = [] := hin
      cases hy
    | some q =>
      rw [hin.2.1 y (List.mem_of_getLast? hy)] at hsame
      obtain ⟨-, hcmd, hset⟩ := (Session.toItem_key _ hadt).mp hsame.symm
      rw [Session.setnameText_eq hname] at hset
      refine hother q rfl ⟨hcollects.1, hcmd, ?_⟩
      rw [hname, name_eq_of_text (Option.some.inj hset)]

/-! ### Lines -/

/-- A line carries what it asks for into the messages. -/
theorem LineMoves.carries {lineno : ℕ} {exist exist' : Bool} {line : List UInt8}
    {sent : List (Bool × Option (List Item))} {p' : Option Packet} (hpage : 4096 ≤ page)
    (h : LineMoves page lineno exist line p sent p' exist') (hc : Carries page l log p) :
    Carries page (l ++ (lineScript lineno exist line).1) (log ++ sent) p' ∧
      exist' = (lineScript lineno exist line).2 := by
  cases h with
  | blank h =>
    unfold lineScript
    rw [if_pos h, List.append_nil, List.append_nil]
    exact ⟨hc, rfl⟩
  | commit hblank h =>
    unfold lineScript
    rw [if_neg (Bool.eq_false_iff.mp hblank), if_pos h]
    have halone := hc.alone (o := none) fun x hx => absurd hx (Option.not_mem_none x)
    rw [Option.toList_none, List.map_nil, List.append_nil] at halone
    exact ⟨halone, rfl⟩
  | @command _ hcommit argv hread c hline hchanges s hdata hcmd hlineno hbufsize hexist _ _ h =>
    rename_i hblank
    have hadt (h : s.cmd = .add ∨ s.cmd = .del) : ∃ t, s.data.getDomain = some t := by
      obtain ⟨arg0, arg1, -, -, -, hdomain, -⟩ := data_adt (hcmd ▸ h) hdata
      rw [Data.getDomain_forget] at hdomain
      exact ⟨_, hdomain⟩
    obtain ⟨i, hi, hitem⟩ := Session.toItem_item hdata hcmd hchanges
    subst hbufsize
    have hscript : lineScript lineno exist line =
        ([some ⟨s.envopts.exist, s.toItem⟩], exist || givesExist argv) := by
      unfold lineScript
      rw [if_neg (Bool.eq_false_iff.mp hblank), if_neg (Bool.eq_false_iff.mp hcommit), hread]
      show ((((lineArgs argv).bind _).toList.map _), _) = _
      rw [hline, Option.bind_some, ← hlineno, hi, hexist, hitem]
      rfl
    rw [hscript]
    exact ⟨h.carries hitem hpage hadt hc, rfl⟩

/-- The lines of a stream carry its script into the messages. -/
theorem ScriptMoves.carries {lineno : ℕ} {exist : Bool} {lines : List (List UInt8)}
    {sent : List (Bool × Option (List Item))} {p' : Option Packet} (hpage : 4096 ≤ page)
    (h : ScriptMoves page lineno exist lines p sent p') (hc : Carries page l log p) :
    Carries page (l ++ script lineno exist lines) (log ++ sent) p' := by
  induction h generalizing l log with
  | nil lineno exist p =>
    rw [script, List.append_nil, List.append_nil]
    exact hc
  | cons h _ ih =>
    obtain ⟨hone, rfl⟩ := h.carries hpage hc
    rw [script, ← List.append_assoc, ← List.append_assoc]
    exact ih hone

end

/-! ### A stream -/

section

variable {E : Env κ} {loops : Loops κ} {source : Source} {d : Process κ}
  {past : List (Nlmsg × List (List KMsg))} {page : ℕ} {exist : Bool} {stream : List UInt8}

/-- The messages that lines leave are their script in batches. -/
theorem ScriptMoves.delivers {lineno : ℕ} {lines : List (List UInt8)}
    {sent : List (Bool × Option (List Item))} {p' : Option Packet} (hpage : 4096 ≤ page)
    (h : ScriptMoves page lineno exist lines none sent p')
    (hlogged : d.Logged past ([] ++ sent ++ p'.toList.map Packet.mail)) :
    ∃ gs, Batches (OneMessage page) (script lineno exist lines) gs ∧
      Packed ScriptItem.batchKey (·.item.len) (batchLimit page) (script lineno exist lines) gs ∧
      d.Logged past (gs.map batchMail) := by
  obtain ⟨gs, hgs, hsent, hpacked⟩ := (h.carries hpage .start).flush
  rw [List.append_assoc] at hlogged
  refine ⟨gs, hgs, hpacked, ?_⟩
  rw [← hsent]
  exact hlogged

end

/-! ### Two elements -/

section

variable {E : Env κ} {loops : Loops κ} {source : Source}

end

theorem zero_notMem_nameA : (0 : UInt8) ∉ bytes "a" := by decide

theorem length_nameA : (bytes "a").length < dsetMaxnamelen := by decide

def restoring : Process Unit :=
  { dsetInit 4096 () [] with
    setlist := [⟨⟨bytes "a", zero_notMem_nameA, length_nameA⟩, dsetHashDomain0⟩] }

end Dset.User
