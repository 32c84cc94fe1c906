import Dset.User.Batch

/-! The messages that hold one command. A buffer of a page has room for all of them, so nothing
is left out, and the kernel reads in one of them what the blob says. -/

namespace Dset.User

open Dset.Lib Dset.Core

variable {κ : Type}

/-! ### Attributes that fit -/

namespace Nlmsg

variable (nlh : Nlmsg)

theorem addattrsCreate_fits {bufsize room : ℕ} {l : List Attr} (hflat : ∀ a ∈ l, a.isFlat = true)
    (hlen : ∀ a ∈ l, mnlAlign a.createAttrLen ≤ room)
    (hroom : nlh.len + attrsLen l + room + mnlAttrHdrlen + nlmsgerrLen ≤ bufsize) :
    nlh.addattrsCreate bufsize l = nlh.puts l := by
  induction l generalizing nlh with
  | nil => rw [puts_nil]; rfl
  | cons a l ih =>
    have hle := hlen a List.mem_cons_self
    rw [attrsLen_cons] at hroom
    have hput : nlh.addattr bufsize a.createAttrLen a = nlh.puts [a] := addattr_eq _ (by omega)
    have hrest : (nlh.puts [a]).len + attrsLen l + room + mnlAttrHdrlen + nlmsgerrLen ≤
        bufsize := by
      show nlh.len + attrsLen [a] + attrsLen l + room + mnlAttrHdrlen + nlmsgerrLen ≤ bufsize
      rw [attrsLen_cons, attrsLen_nil]
      omega
    show (nlh.addattr bufsize a.createAttrLen a).addattrsCreate bufsize l = _
    rw [hput, ih _ (fun b hb => hflat b (List.mem_cons_of_mem _ hb))
      (fun b hb => hlen b (List.mem_cons_of_mem _ hb)) hrest, puts_puts, List.singleton_append]

/-- A message in which the kernel reads one item, with room for a reply. -/
structure Single (bufsize : ℕ) (exist : Bool) (i : Item) (nlh : Nlmsg) : Prop where
  cmd : nlh.cmd = i.cmd
  exist : nlh.exist = exist
  items : nlh.items = some [i]
  room : nlh.len + nlmsgerrLen ≤ bufsize

end Nlmsg

theorem size_setname {s : Str} (h : s.length < dsetMaxnamelen) :
    (Attr.setname s).size ≤ 36 := by
  show 4 + (s.length + 1 + 3) / 4 * 4 ≤ 36
  have hmax : dsetMaxnamelen = 32 := rfl
  omega

/-! ### What the blob says -/

namespace Session

variable (s : Session)

def setnameText : Option Str := s.data.getSetname.map (·.text)

def toItem : Item :=
  match s.cmd with
  | .create => s.data.createAttrs.foldl Item.put (Item.of .create s.setnameText)
  | .add | .del => s.itemOf.foldl Item.put (Item.of s.cmd s.setnameText)
  | .rename | .swap => { Item.of s.cmd s.setnameText with setname2 := s.data.getSetname2 }
  | _ => Item.of s.cmd s.setnameText

def newMsg : Nlmsg := (Nlmsg.fillHdr s.cmd s.envopts.exist).put (.protocol s.protocol)

theorem startMsg_new (h : s.buffer = none) : s.startMsg = s.newMsg := by
  rw [startMsg, h]
  rfl

theorem newMsg_len : s.newMsg.len = 28 := by
  show headerLen + (mnlAttrHdrlen + mnlAlign 1) = 28
  decide

theorem newMsg_puts_len (l : List Attr) : (s.newMsg.puts l).len = 28 + attrsLen l := by
  rw [← s.newMsg_len]
  rfl

def withMsg (nlh : Nlmsg) : Session := { s with buffer := some nlh, nested := [] }

variable {s}

theorem setBuffer_eq (hnested : s.nested = []) (nlh : Nlmsg) : s.setBuffer nlh = s.withMsg nlh := by
  rw [withMsg, ← hnested]
  rfl

theorem addattr_setname (hbuf : 4096 ≤ s.bufsize) {nlh : Nlmsg} (hlen : nlh.len ≤ 1024)
    (a : Attr) :
    nlh.addattr s.bufsize dsetMaxnamelen a = nlh.puts [a] := by
  refine Nlmsg.addattr_eq _ ?_
  show nlh.len + 4 + (32 + 3) / 4 * 4 + 20 ≤ s.bufsize
  omega

theorem putSetname_eq (hbuf : 4096 ≤ s.bufsize) {nlh : Nlmsg} (hlen : nlh.len ≤ 1024) :
    s.putSetname nlh = nlh.puts (s.setnameText.toList.map .setname) := by
  unfold putSetname setnameText
  cases s.data.getSetname with
  | none => exact (Nlmsg.puts_nil nlh).symm
  | some name => exact addattr_setname hbuf hlen _

theorem setname_lt {t : Str} (h : s.setnameText = some t) : t.length < dsetMaxnamelen := by
  obtain ⟨name, _, rfl⟩ := Option.map_eq_some_iff.mp h
  exact name.length_lt

theorem putSetname_single (hbuf : 4096 ≤ s.bufsize) (hcmd : s.cmd = .destroy ∨ s.cmd = .flush) :
    (s.putSetname s.newMsg).Single s.bufsize s.envopts.exist s.toItem := by
  have hitem : s.toItem = Item.of s.cmd s.setnameText := by
    unfold toItem
    rcases hcmd with h | h <;> rw [h]
  have hlen : s.newMsg.len ≤ 1024 := by
    rw [newMsg_len]
    decide
  rw [putSetname_eq hbuf hlen, hitem]
  cases hname : s.setnameText with
  | none =>
    refine ⟨rfl, rfl, ?_, ?_⟩
    swap
    · rw [newMsg_puts_len]
      show 28 + 0 + 20 ≤ s.bufsize
      omega
    rcases hcmd with h | h <;> simp [Nlmsg.items, Nlmsg.readItems, Nlmsg.puts, newMsg,
      Nlmsg.fillHdr, Nlmsg.put, nestLens, h, Cmd.isTyped, Item.put, Item.of]
  | some t =>
    have hsize := size_setname (setname_lt hname)
    refine ⟨rfl, rfl, ?_, ?_⟩
    · rcases hcmd with h | h <;> simp [Nlmsg.items, Nlmsg.readItems, Nlmsg.puts, newMsg,
        Nlmsg.fillHdr, Nlmsg.put, nestLens, h, Cmd.isTyped, Item.put, Item.of]
    · rw [newMsg_puts_len]
      show 28 + attrsLen [Attr.setname t] + 20 ≤ s.bufsize
      rw [attrsLen_cons, attrsLen_nil]
      omega

theorem buildNames_single (hbuf : 4096 ≤ s.bufsize) (hcmd : s.cmd = .rename ∨ s.cmd = .swap)
    (hnested : s.nested = []) {name : SetName} {name2 : Str} (hname : s.data.getSetname = some name)
    (hname2 : s.data.getSetname2 = some name2) (hlen2 : name2.length < dsetMaxnamelen) :
    ∃ nlh, s.buildNames s.newMsg = .done (s.withMsg nlh) ∧
      nlh.Single s.bufsize s.envopts.exist s.toItem := by
  have hsize := size_setname name.length_lt
  have hsize2 : (Attr.setname2 name2).size ≤ 36 := size_setname hlen2
  have hlen : s.newMsg.len ≤ 1024 := by
    rw [newMsg_len]
    decide
  have hlen1 : (s.newMsg.puts [.setname name.text]).len ≤ 1024 := by
    rw [newMsg_puts_len, attrsLen_cons, attrsLen_nil]
    omega
  have hitem : s.toItem = { Item.of s.cmd (some name.text) with setname2 := some name2 } := by
    unfold toItem setnameText
    rcases hcmd with h | h <;> rw [h, hname, hname2] <;> rfl
  refine ⟨s.newMsg.puts ([.setname name.text] ++ [.setname2 name2]), ?_, ?_⟩
  · unfold buildNames
    rw [hname, hname2]
    dsimp only
    rw [addattr_setname hbuf hlen, addattr_setname hbuf hlen1, Nlmsg.puts_puts,
      setBuffer_eq hnested]
  · rw [hitem]
    refine ⟨rfl, rfl, ?_, ?_⟩
    · rcases hcmd with h | h <;> simp [Nlmsg.items, Nlmsg.readItems, Nlmsg.puts, newMsg,
        Nlmsg.fillHdr, Nlmsg.put, nestLens, h, Cmd.isTyped, Item.put, Item.of]
    · rw [newMsg_puts_len]
      show 28 + attrsLen ([.setname name.text] ++ [.setname2 name2]) + 20 ≤ s.bufsize
      rw [attrsLen_append, attrsLen_cons, attrsLen_nil, attrsLen_cons, attrsLen_nil]
      omega

/-- A message with one nested item behind the name of the set. -/
theorem single_items {cmd : Cmd} {exist : Bool} {len v : ℕ} {t : Str} {pre l : List Attr}
    (hcmd : cmd.isTyped = true) (hpre : ∀ a ∈ pre, a.isFlat = true) (hl : SmallItem l) :
    (Nlmsg.mk cmd exist len (.protocol v :: .setname t :: pre ++ itemAttrs l)).items =
      some [l.foldl Item.put (Item.of cmd (some t))] := by
  have hflat : ∀ a ∈ Attr.protocol v :: .setname t :: pre, a.isFlat = true := by
    intro a ha
    rcases List.mem_cons.mp ha with rfl | ha
    · rfl
    rcases List.mem_cons.mp ha with rfl | ha
    · rfl
    exact hpre a ha
  have hlens : nestLens (.protocol v :: .setname t :: pre ++ itemAttrs l) [] = true := by
    rw [nestLens_append_nil hflat, ← List.append_nil (itemAttrs l), nestLens_itemAttrs_nil hl]
    rfl
  rw [Nlmsg.items, hlens, if_pos rfl, Nlmsg.readItems, if_pos hcmd]
  show some (itemsFrom (Item.of cmd (some t)) none (_ ++ _)) = _
  rw [itemsFrom_append_none hflat, ← List.append_nil (itemAttrs l), itemsFrom_itemAttrs hl.1]
  rfl

theorem foldl_put_cmd (l : List Attr) (i : Item) : (l.foldl Item.put i).cmd = i.cmd := by
  induction l generalizing i with
  | nil => rfl
  | cons a l ih =>
    rw [List.foldl_cons, ih]
    cases a <;> rfl

variable (s) in
theorem toItem_cmd : s.toItem.cmd = s.cmd := by
  unfold toItem
  cases h : s.cmd <;> first | rfl | exact foldl_put_cmd _ _

theorem newMsg_single {t : Str} {pre l : List Attr} (htyped : s.cmd.isTyped = true)
    (hpre : ∀ a ∈ pre, a.isFlat = true) (hl : SmallItem l)
    (hroom : 52 + attrsLen (.setname t :: pre) + attrsLen l ≤ s.bufsize) :
    (s.newMsg.puts (.setname t :: pre ++ itemAttrs l)).Single s.bufsize s.envopts.exist
      (l.foldl Item.put (Item.of s.cmd (some t))) where
  cmd := by
    rw [foldl_put_cmd]
    rfl
  exist := rfl
  items := single_items htyped hpre hl
  room := by
    rw [newMsg_puts_len, attrsLen_append, attrsLen_itemAttrs]
    show 28 + (_ + (4 + _)) + 20 ≤ _
    omega

/-! ### Create -/

theorem attrsLen_option (o : Option ℕ) (f : ℕ → Attr)
    (hf : ∀ v, (f v).payload = 4 ∧ (f v).isFlat = true) : attrsLen (o.toList.map f) ≤ 8 := by
  cases o with
  | none => exact Nat.zero_le _
  | some v =>
    obtain ⟨hpayload, hflat⟩ := hf v
    have hsize : (f v).size = mnlAttrHdrlen + mnlAlign (f v).payload := by
      cases h : f v <;> rw [h] at hflat <;> first | rfl | cases hflat
    show attrsLen [f v] ≤ 8
    rw [attrsLen_cons, attrsLen_nil, hsize, hpayload]
    decide

variable (s) in
theorem createAttrs_mem {a : Attr} (h : a ∈ s.data.createAttrs) :
    a.isFlat = true ∧ mnlAlign a.createAttrLen ≤ 4 := by
  simp only [Data.createAttrs, List.mem_append, List.mem_map, or_assoc] at h
  rcases h with ⟨t, _, rfl⟩ | ⟨v, _, rfl⟩ | ⟨v, _, rfl⟩ | ⟨v, _, rfl⟩ | ⟨v, _, rfl⟩ | ⟨v, _, rfl⟩ |
    ⟨v, _, rfl⟩ | ⟨v, _, rfl⟩
  · exact ⟨rfl, show mnlAlign 0 ≤ 4 by decide⟩
  all_goals exact ⟨rfl, show mnlAlign 4 ≤ 4 by decide⟩

theorem attrsLen_domain (d : Data) : attrsLen (d.getDomain.toList.map .domain) ≤ 260 := by
  unfold Data.getDomain
  split
  · show attrsLen [Attr.domain (d.domaindata.take 255)] ≤ 260
    rw [attrsLen_cons, attrsLen_nil]
    show 4 + ((d.domaindata.take 255).length + 1 + 3) / 4 * 4 + 0 ≤ 260
    rw [List.length_take]
    omega
  · exact Nat.zero_le _

variable (s) in
theorem attrsLen_createAttrs : attrsLen s.data.createAttrs ≤ 316 := by
  have h0 := attrsLen_domain s.data
  have h1 := attrsLen_option s.data.getTimeout .timeout fun _ => ⟨rfl, rfl⟩
  have h2 := attrsLen_option (s.data.getCreate .gc) .gc fun _ => ⟨rfl, rfl⟩
  have h3 := attrsLen_option (s.data.getCreate .hashsize) .hashsize fun _ => ⟨rfl, rfl⟩
  have h4 := attrsLen_option (s.data.getCreate .maxelem) .maxelem fun _ => ⟨rfl, rfl⟩
  have h5 := attrsLen_option (s.data.getCreate .elements) .elements fun _ => ⟨rfl, rfl⟩
  have h6 := attrsLen_option (s.data.getCreate .references) .references fun _ => ⟨rfl, rfl⟩
  have h7 := attrsLen_option s.data.getMemsize .memsize fun _ => ⟨rfl, rfl⟩
  simp only [Data.createAttrs, attrsLen_append]
  omega

variable (s) in
theorem small_createAttrs : SmallItem s.data.createAttrs := by
  refine ⟨fun a ha => (s.createAttrs_mem ha).1, ?_⟩
  have := s.attrsLen_createAttrs
  show 4 + _ < 2 ^ 16
  omega

/-- The attributes in front of the nested ones of a `create`. -/
def createHead (name : SetName) (type : DsetType) : List Attr :=
  [.setname name.text, .typename type.name.text, .revision type.revision, .family nfprotoUnspec]

theorem attrsLen_createHead (name : SetName) (type : DsetType) :
    attrsLen (createHead name type) ≤ 88 := by
  have h1 := size_setname name.length_lt
  have h2 : (Attr.typename type.name.text).size ≤ 36 := size_setname type.name.length_lt
  have h3 : (Attr.revision type.revision).size = 8 := show 4 + mnlAlign 1 = 8 by decide
  have h4 : (Attr.family nfprotoUnspec).size = 8 := show 4 + mnlAlign 1 = 8 by decide
  simp only [createHead, attrsLen_cons, attrsLen_nil]
  omega

theorem buildCreate_single (hbuf : 4096 ≤ s.bufsize) (hcmd : s.cmd = .create)
    (hnested : s.nested = []) {name : SetName} {type : DsetType}
    (hname : s.data.getSetname = some name) (htype : s.data.getType = some type) :
    ∃ nlh, s.buildCreate s.newMsg = .done (s.withMsg nlh) ∧
      nlh.Single s.bufsize s.envopts.exist s.toItem := by
  have hhead := attrsLen_createHead name type
  have hcreate := s.attrsLen_createAttrs
  simp only [createHead, attrsLen_cons, attrsLen_nil] at hhead
  have hitem : s.toItem = s.data.createAttrs.foldl Item.put (Item.of .create (some name.text)) := by
    unfold toItem setnameText
    rw [hcmd, hname]
    rfl
  have h1 : s.newMsg.addattr s.bufsize dsetMaxnamelen (.setname name.text) =
      s.newMsg.puts [.setname name.text] :=
    addattr_setname hbuf (by rw [newMsg_len]; decide) _
  have h2 : (s.newMsg.puts [.setname name.text]).addattr s.bufsize dsetMaxnamelen
      (.typename type.name.text) =
        s.newMsg.puts [.setname name.text, .typename type.name.text] := by
    rw [addattr_setname hbuf, Nlmsg.puts_puts, List.singleton_append]
    rw [newMsg_puts_len, attrsLen_cons, attrsLen_nil]
    omega
  have h3 : (s.newMsg.puts [.setname name.text, .typename type.name.text]).addattr s.bufsize 1
      (.revision type.revision) = s.newMsg.puts
        [.setname name.text, .typename type.name.text, .revision type.revision] := by
    rw [Nlmsg.addattr_eq, Nlmsg.puts_puts]
    · rfl
    · rw [newMsg_puts_len, attrsLen_cons, attrsLen_cons, attrsLen_nil]
      show _ + 4 + 4 + 20 ≤ _
      omega
  have h4 : (s.newMsg.puts [.setname name.text, .typename type.name.text,
      .revision type.revision]).put (.family nfprotoUnspec) =
        s.newMsg.puts (createHead name type) := by
    rw [Nlmsg.put_eq_puts, Nlmsg.puts_puts]
    rfl
  have hopen : s.openNested (s.newMsg.puts (createHead name type)) .data =
      ((s.newMsg.puts (createHead name type)).put .data,
        [⟨(s.newMsg.puts (createHead name type)).attrs.length,
          (s.newMsg.puts (createHead name type)).len⟩]) := by
    unfold openNested Nlmsg.openNested
    rw [if_neg, hnested]
    rw [newMsg_puts_len]
    show ¬ s.bufsize < 28 + attrsLen (createHead name type) + 4
    have := attrsLen_createHead name type
    omega
  have hput : ((s.newMsg.puts (createHead name type)).put .data).addattrsCreate s.bufsize
      s.data.createAttrs = ((s.newMsg.puts (createHead name type)).put .data).puts
        s.data.createAttrs := by
    refine Nlmsg.addattrsCreate_fits _ (fun a ha => (s.createAttrs_mem ha).1)
      (fun a ha => (s.createAttrs_mem ha).2) ?_
    have := attrsLen_createHead name type
    show (s.newMsg.puts (createHead name type)).len + 4 + _ + 4 + 4 + 20 ≤ _
    rw [newMsg_puts_len]
    omega
  refine ⟨(s.newMsg.puts (createHead name type)).puts (itemAttrs s.data.createAttrs), ?_, ?_⟩
  · unfold buildCreate
    rw [hname, htype]
    dsimp only
    rw [h1, h2, h3, h4, hopen]
    dsimp only
    rw [hput]
    show Built.done { s with buffer := some (Nlmsg.nestEnd _ _), nested := [] } = _
    rw [Nlmsg.nestEnd_puts]
    rfl
  · rw [hitem, Nlmsg.puts_puts, ← hcmd]
    refine newMsg_single (by rw [hcmd]; rfl) ?_ s.small_createAttrs ?_
    · intro a ha
      simp only [List.mem_cons, List.not_mem_nil, or_false] at ha
      rcases ha with rfl | rfl | rfl <;> rfl
    · have := attrsLen_createHead name type
      show 52 + attrsLen (createHead name type) + _ ≤ _
      omega

/-! ### Add and del -/

theorem buildItem_short (hbuf : 4096 ≤ s.bufsize) {nlh : Nlmsg} (hlen : nlh.len ≤ 1024)
    (nested : List Nest) :
    s.buildItem nlh nested =
      .done { s with buffer := some (nlh.puts (itemAttrs s.itemOf)), nested := nested } :=
  s.buildItem_fits nlh nested (by omega)

theorem buildAdt_single (hbuf : 4096 ≤ s.bufsize) (hcmd : s.cmd = .add ∨ s.cmd = .del)
    (hnested : s.nested = []) (hline : s.lineno = 0) {name : SetName}
    (hname : s.data.getSetname = some name) (htype : s.data.getType.isSome = true) :
    ∃ nlh, s.buildAdt s.newMsg false = .done (s.withMsg nlh) ∧
      nlh.Single s.bufsize s.envopts.exist s.toItem := by
  obtain ⟨type, htype⟩ := Option.isSome_iff_exists.mp htype
  have hsize := size_setname name.length_lt
  have hlen : (s.newMsg.puts [.setname name.text]).len ≤ 1024 := by
    rw [newMsg_puts_len, attrsLen_cons, attrsLen_nil]
    omega
  have hitem : s.toItem = s.itemOf.foldl Item.put (Item.of s.cmd (some name.text)) := by
    unfold toItem setnameText
    rcases hcmd with h | h <;> rw [h, hname] <;> rfl
  refine ⟨s.newMsg.puts ([.setname name.text] ++ itemAttrs s.itemOf), ?_, ?_⟩
  · unfold buildAdt
    rw [if_neg Bool.false_ne_true, hname, htype]
    dsimp only
    rw [if_pos hline, addattr_setname hbuf (by rw [newMsg_len]; decide), buildItem_short hbuf hlen,
      Nlmsg.puts_puts, hnested]
    rfl
  · rw [hitem]
    refine newMsg_single ?_ (fun a ha => absurd ha List.not_mem_nil) s.small_itemOf ?_
    · rcases hcmd with h | h <;> rw [h] <;> rfl
    · have := s.attrsLen_itemOf
      rw [attrsLen_cons, attrsLen_nil]
      omega

theorem buildAdt_batch (hbuf : 4096 ≤ s.bufsize) (hnested : s.nested = []) (hline : s.lineno ≠ 0)
    {name : SetName} (hname : s.data.getSetname = some name)
    (htype : s.data.getType.isSome = true) :
    ∃ nlh nested, s.buildAdt s.newMsg false =
        .done { s with buffer := some nlh, nested := nested } ∧
      Batch s.bufsize s.cmd s.envopts.exist name [s.itemOf] nlh nested ∧
      nlh.len ≤ 72 + Attr.adt.size + attrsLen ([s.itemOf].flatMap itemAttrs) := by
  obtain ⟨type, htype⟩ := Option.isSome_iff_exists.mp htype
  have hsize := size_setname name.length_lt
  have hlineno : (Attr.lineno s.lineno).size = 8 := show 4 + mnlAlign 4 = 8 by decide
  have hlen1 : (s.newMsg.puts [.setname name.text]).len ≤ 64 := by
    rw [newMsg_puts_len, attrsLen_cons, attrsLen_nil]
    omega
  have hput : (s.newMsg.puts [.setname name.text]).addattr s.bufsize 4 (.lineno s.lineno) =
      s.newMsg.puts [.setname name.text, .lineno s.lineno] := by
    rw [Nlmsg.addattr_eq, Nlmsg.puts_puts]
    · rfl
    · show _ + 4 + 4 + 20 ≤ _
      omega
  generalize hhead : s.newMsg.puts [.setname name.text, .lineno s.lineno] = head at hput
  have hheadlen : head.len ≤ 72 := by
    rw [← hhead, newMsg_puts_len, attrsLen_cons, attrsLen_cons, attrsLen_nil]
    omega
  have hopen : s.openNested head .adt = (head.put .adt, [⟨3, head.len⟩]) := by
    unfold openNested Nlmsg.openNested
    rw [if_neg, hnested, ← hhead]
    · rfl
    · show ¬ s.bufsize < head.len + 4
      omega
  have hadt : (head.put .adt).len = head.len + 4 := rfl
  have hlen : (head.put .adt).len ≤ 1024 := by omega
  refine ⟨(head.put .adt).puts (itemAttrs s.itemOf), [⟨3, head.len⟩], ?_, ?_, ?_⟩
  · unfold buildAdt
    rw [if_neg Bool.false_ne_true, hname, htype]
    dsimp only
    rw [if_neg hline, addattr_setname hbuf (by rw [newMsg_len]; decide), hput, hopen]
    dsimp only
    rw [buildItem_short hbuf hlen]
  · have hitem := s.attrsLen_itemOf
    exact
      { cmd := by rw [← hhead]; rfl
        exist := by rw [← hhead]; rfl
        attrs := ⟨s.protocol, s.lineno, by
          rw [← hhead]
          simp [Nlmsg.puts, Nlmsg.put, newMsg, Nlmsg.fillHdr]⟩
        small := fun l hl => by
          rw [List.mem_singleton.mp hl]
          exact s.small_itemOf
        nested := ⟨head.len, rfl, by
          rw [List.flatMap_singleton]
          rfl⟩
        room := by
          show (head.put .adt).len + attrsLen (itemAttrs s.itemOf) + 20 ≤ _
          rw [attrsLen_itemAttrs, hadt]
          show _ + (4 + _) + 20 ≤ _
          omega }
  · rw [List.flatMap_singleton]
    show head.len + 4 + _ ≤ 72 + 4 + _
    omega

end Session

end Dset.User
