import Dset.User.Moves

/-! The lines of a restore as the items they ask for: what the arguments of a command say is in
the blob behind them, and the message of the command asks for it, with the domain cut. -/

namespace Dset.User

open Dset.Lib Dset.Core

variable {κ : Type} {E : Env κ} {d : Process κ}

/-! ### Items of a script -/

/-- What a command asks for on a line. -/
def CmdArgs.item (c : CmdArgs) (lineno : ℕ) : Option Item :=
  c.data.map fun data =>
    { cmd := c.cmd
      setname := c.arg0
      setname2 := if c.cmd = .rename ∨ c.cmd = .swap then c.arg1 else none
      domain := if c.cmd = .add ∨ c.cmd = .del then c.arg1 else none
      timeout := data.getTimeout
      hashsize := data.getCreate .hashsize
      maxelem := data.getCreate .maxelem
      lineno := if c.cmd = .add ∨ c.cmd = .del then some lineno else none }

/-- An item with the domain cut to its buffer. -/
def Item.cut (i : Item) : Item := { i with domain := i.domain.map (·.take 255) }

theorem name_eq_of_text {name name' : SetName} (h : name.text = name'.text) : name = name' := by
  cases name
  cases name'
  cases h
  rfl

theorem ofStr_text {s : Str} {name : SetName} (h : SetName.ofStr s = some name) :
    name.text = s := by
  unfold SetName.ofStr at h
  split at h
  · exact congrArg SetName.text (Option.some.inj h).symm
  · cases h

theorem nameData_setname {arg0 : Str} {data : Data} (h : nameData arg0 = some data) :
    ∃ name, data.getSetname = some name ∧ name.text = arg0 := by
  obtain ⟨name, hof, rfl⟩ := Option.map_eq_some_iff.mp h
  refine ⟨name, ?_, ofStr_text hof⟩
  unfold Data.getSetname
  rw [Data.test_setSetname]
  rfl

/-- Options of the set type leave the name alone. -/
theorem Gained.getSetname {os : List Opt} {data data' : Data} (h : Gained os data data')
    {name : SetName} (hname : data.getSetname = some name) : data'.getSetname = some name := by
  unfold Data.getSetname at *
  split at hname
  · rename_i htest
    rw [h.kept _ htest, if_pos rfl, h.setname, hname]
  · cases hname

/-- The options that are not stored are not read. -/
theorem getCreate_none {data : Data} {o : Opt} (h : data.test o = false) :
    data.getCreate o = none := by
  unfold Data.getCreate
  rw [h, if_neg Bool.false_ne_true]

section

variable {c : CmdArgs} {data : Data}

theorem data_adt (hcmd : c.cmd = .add ∨ c.cmd = .del) (h : c.data = some data) :
    ∃ arg0 arg1, c.arg0 = some arg0 ∧ c.arg1 = some arg1 ∧
      (∃ name, data.getSetname = some name ∧ name.text = arg0) ∧
      data.getDomain = some (arg1.take 255) ∧
      data.getCreate .hashsize = none ∧ data.getCreate .maxelem = none := by
  obtain ⟨cmd, arg0, arg1, argv⟩ := c
  cases arg0 with
  | none => rcases hcmd with rfl | rfl <;> cases h
  | some arg0 =>
    cases arg1 with
    | none => rcases hcmd with rfl | rfl <;> cases h
    | some arg1 =>
      obtain ⟨data0, hname, hstore⟩ : ∃ data0, nameData arg0 = some data0 ∧
          storeOpts (typeArgs cmd) (data0.setDomain arg1) argv = some data := by
        rcases hcmd with rfl | rfl
        all_goals
          change (if _ then none else _) = some data at h
          split at h
          · cases h
          · exact Option.bind_eq_some_iff.mp h
      have hgained := storeOpts_gained hstore
      have hopts (o : Opt) (ho : o = .hashsize ∨ o = .maxelem) : data.test o = false := by
        by_contra htest
        rcases hgained.only o (Bool.eq_true_of_not_eq_false htest) with h | h
        · rw [Data.test_setDomain, nameData_test hname] at h
          rcases ho with rfl | rfl <;> revert h <;> decide
        · rcases hcmd with rfl | rfl <;> rcases ho with rfl | rfl <;> revert h <;> decide
      have hdomain : data.test .domain = true := by
        apply hgained.kept
        rw [Data.test_setDomain]
        rfl
      refine ⟨arg0, arg1, rfl, rfl, ?_, ?_, getCreate_none (hopts _ (.inl rfl)),
        getCreate_none (hopts _ (.inr rfl))⟩
      · obtain ⟨name, hget, htext⟩ := nameData_setname hname
        refine ⟨name, hgained.getSetname ?_, htext⟩
        unfold Data.getSetname at *
        rw [Data.test_setDomain, decide_eq_false (show Opt.setname ≠ .domain by decide), Bool.false_or]
        exact hget
      · unfold Data.getDomain
        rw [hdomain, if_pos rfl, hgained.domain]
        rfl

theorem data_create (hcmd : c.cmd = .create) (h : c.data = some data) :
    ∃ arg0, c.arg0 = some arg0 ∧ (∃ name, data.getSetname = some name ∧ name.text = arg0) ∧
      data.getDomain = none := by
  obtain ⟨cmd, arg0, arg1, argv⟩ := c
  obtain rfl : cmd = .create := hcmd
  cases arg0 with
  | none => cases h
  | some arg0 =>
    cases arg1 with
    | none => cases h
    | some arg1 =>
      obtain ⟨data0, hname, hstore⟩ : ∃ data0, nameData arg0 = some data0 ∧
          storeOpts (typeArgs .create) data0 argv = some data := by
        change (if _ then none else _) = some data at h
        split at h
        · cases h
        · exact Option.bind_eq_some_iff.mp h
      have hgained := storeOpts_gained hstore
      have hdomain : data.test .domain = false := by
        by_contra htest
        rcases hgained.only .domain (Bool.eq_true_of_not_eq_false htest) with h | h
        · rw [nameData_test hname] at h
          exact absurd h (by decide)
        · exact absurd h (by decide)
      obtain ⟨name, hget, htext⟩ := nameData_setname hname
      refine ⟨arg0, rfl, ⟨name, hgained.getSetname hget, htext⟩, ?_⟩
      unfold Data.getDomain
      rw [hdomain, if_neg Bool.false_ne_true]

theorem getTimeout_none (h : data.test .timeout = false) : data.getTimeout = none := by
  unfold Data.getTimeout
  rw [h, if_neg Bool.false_ne_true]

theorem data_names (hcmd : c.cmd = .rename ∨ c.cmd = .swap) (h : c.data = some data) :
    ∃ arg0 arg1, c.arg0 = some arg0 ∧ c.arg1 = some arg1 ∧
      (∃ name, data.getSetname = some name ∧ name.text = arg0) ∧
      (∃ name2 : SetName, data.getSetname2 = some name2.text ∧ name2.text = arg1) ∧
      data.getTimeout = none ∧ data.getCreate .hashsize = none ∧
      data.getCreate .maxelem = none := by
  obtain ⟨cmd, arg0, arg1, argv⟩ := c
  cases arg0 with
  | none => rcases hcmd with rfl | rfl <;> cases h
  | some arg0 =>
    cases arg1 with
    | none => rcases hcmd with rfl | rfl <;> cases h
    | some arg1 =>
      obtain ⟨data0, hname, name2, hof, rfl⟩ : ∃ data0, nameData arg0 = some data0 ∧
          ∃ name2, SetName.ofStr arg1 = some name2 ∧ data0.setSetname2 name2 = data := by
        rcases hcmd with rfl | rfl
        all_goals
          change (if _ then none else _) = some data at h
          split at h
          · cases h
          · obtain ⟨data0, hname, h⟩ := Option.bind_eq_some_iff.mp h
            exact ⟨data0, hname, Option.map_eq_some_iff.mp h⟩
      have htest (o : Opt) (ho : o ≠ .setname2 ∧ o ≠ .setname) :
          (data0.setSetname2 name2).test o = false := by
        rw [Data.test_setSetname2, nameData_test hname, decide_eq_false ho.1,
          decide_eq_false ho.2]
        rfl
      obtain ⟨name, hget, htext⟩ := nameData_setname hname
      refine ⟨arg0, arg1, rfl, rfl, ⟨name, ?_, htext⟩, ⟨name2, ?_, ofStr_text hof⟩,
        getTimeout_none (htest _ (by decide)), getCreate_none (htest _ (by decide)),
        getCreate_none (htest _ (by decide))⟩
      · unfold Data.getSetname at *
        rw [Data.test_setSetname2, decide_eq_false (show Opt.setname ≠ .setname2 by decide),
          Bool.false_or]
        exact hget
      · unfold Data.getSetname2
        rw [Data.test_setSetname2, decide_eq_true rfl, Bool.true_or, if_pos rfl]
        exact congrArg some (cstr_zeroPad name2.notMem name2.length_lt)

theorem data_optional (hcmd : c.cmd = .destroy ∨ c.cmd = .flush) (h : c.data = some data) :
    data.getSetname.map (·.text) = c.arg0 ∧ data.getTimeout = none ∧
      data.getCreate .hashsize = none ∧ data.getCreate .maxelem = none := by
  obtain ⟨cmd, arg0, arg1, argv⟩ := c
  have hdata : arg0.elim (some Data.reset) nameData = some data := by
    rcases hcmd with rfl | rfl
    all_goals
      change (if _ then none else _) = some data at h
      split at h
      · cases h
      · exact h
  cases arg0 with
  | none =>
    obtain rfl := Option.some.inj hdata
    exact ⟨rfl, rfl, rfl, rfl⟩
  | some arg0 =>
    obtain ⟨name, hget, htext⟩ := nameData_setname hdata
    have htest (o : Opt) (ho : o ≠ .setname) : data.test o = false := by
      rw [nameData_test hdata, decide_eq_false ho]
    refine ⟨?_, getTimeout_none (htest _ (by decide)), getCreate_none (htest _ (by decide)),
      getCreate_none (htest _ (by decide))⟩
    rw [hget, Option.map_some, htext]

end

/-! ### Items in the blob -/

theorem foldl_put_same (o : Option ℕ) (f : ℕ → Attr) (hf : ∀ v i, Item.put i (f v) = i)
    (i : Item) : (o.toList.map f).foldl Item.put i = i := by
  cases o with
  | none => rfl
  | some v => exact hf v i

theorem foldl_createAttrs {data : Data} (hdomain : data.getDomain = none) (name : Option Str) :
    data.createAttrs.foldl Item.put (Item.of .create name) =
      { Item.of .create name with
        timeout := data.getTimeout
        hashsize := data.getCreate .hashsize
        maxelem := data.getCreate .maxelem } := by
  unfold Data.createAttrs
  simp only [List.foldl_append, hdomain, Option.toList_none, List.map_nil, List.foldl_nil]
  rw [foldl_put_same _ .memsize fun _ _ => rfl, foldl_put_same _ .references fun _ _ => rfl,
    foldl_put_same _ .elements fun _ _ => rfl, foldl_put_same (data.getCreate .gc) .gc fun _ _ => rfl]
  cases data.getTimeout <;> cases data.getCreate .hashsize <;> cases data.getCreate .maxelem <;> rfl

theorem foldl_itemOf (s : Session) (i : Item) {t : Str} (ht : s.data.getDomain = some t)
    (htimeout : i.timeout = none) :
    s.itemOf.foldl Item.put i =
      { i with domain := some t, timeout := s.data.getTimeout, lineno := some s.lineno } := by
  unfold Session.itemOf Data.adtAttrs
  rw [ht]
  simp only [List.foldl_append, Option.toList_some, List.map_cons, List.map_nil, List.foldl_cons,
    List.foldl_nil]
  cases s.data.getTimeout with
  | none =>
    show { i with domain := some t, lineno := some s.lineno } = _
    rw [← htimeout]
  | some v => rfl

/-- What the blob says is what the line asks for, with the domain cut. -/
theorem Session.toItem_item {s : Session} {c : CmdArgs} (hdata : c.data = some s.data.forget)
    (hcmd : s.cmd = c.cmd) (hchanges : c.cmd.changes = true) :
    ∃ i, c.item s.lineno = some i ∧ s.toItem = i.cut := by
  refine ⟨_, congrArg (Option.map _) hdata, ?_⟩
  have hhash : s.data.forget.getCreate .hashsize = s.data.getCreate .hashsize :=
    s.data.getCreate_forget (by decide)
  have hmax : s.data.forget.getCreate .maxelem = s.data.getCreate .maxelem :=
    s.data.getCreate_forget (by decide)
  have hset {arg0 : Str} (h : ∃ name, s.data.forget.getSetname = some name ∧ name.text = arg0) :
      s.setnameText = some arg0 := by
    obtain ⟨name, hget, htext⟩ := h
    unfold setnameText
    rw [← Data.getSetname_forget, hget, Option.map_some, htext]
  have hadt (h : c.cmd = .add ∨ c.cmd = .del) :
      s.itemOf.foldl Item.put (Item.of c.cmd s.setnameText) =
        Item.cut ⟨c.cmd, c.arg0, none, c.arg1, s.data.getTimeout, s.data.getCreate .hashsize,
          s.data.getCreate .maxelem, some s.lineno⟩ := by
    obtain ⟨arg0, arg1, harg0, harg1, hname, hdomain, hhash', hmax'⟩ := data_adt h hdata
    rw [Data.getDomain_forget] at hdomain
    rw [foldl_itemOf s _ hdomain rfl, hset hname, harg0, harg1, ← hhash, ← hmax, hhash', hmax']
    rfl
  have hnames (h : c.cmd = .rename ∨ c.cmd = .swap) :
      { Item.of c.cmd s.setnameText with setname2 := s.data.getSetname2 } =
        Item.cut ⟨c.cmd, c.arg0, c.arg1, none, s.data.getTimeout, s.data.getCreate .hashsize,
          s.data.getCreate .maxelem, none⟩ := by
    obtain ⟨arg0, arg1, harg0, harg1, hname, ⟨name2, hname2, htext2⟩, htimeout, hhash', hmax'⟩ :=
      data_names h hdata
    rw [Data.getSetname2_forget, htext2] at hname2
    rw [Data.getTimeout_forget] at htimeout
    rw [hset hname, hname2, harg0, harg1, htimeout, ← hhash, ← hmax, hhash', hmax']
    rfl
  have hoptional (h : c.cmd = .destroy ∨ c.cmd = .flush) :
      Item.of c.cmd s.setnameText =
        Item.cut ⟨c.cmd, c.arg0, none, none, s.data.getTimeout, s.data.getCreate .hashsize,
          s.data.getCreate .maxelem, none⟩ := by
    obtain ⟨hname, htimeout, hhash', hmax'⟩ := data_optional h hdata
    rw [Data.getTimeout_forget] at htimeout
    rw [Data.getSetname_forget] at hname
    rw [htimeout, ← hhash, ← hmax, hhash', hmax', ← hname]
    rfl
  unfold toItem
  simp only [hcmd, Data.getTimeout_forget, hhash, hmax]
  cases h : c.cmd with
  | create =>
    obtain ⟨arg0, harg0, hname, hdomain⟩ := data_create h hdata
    rw [Data.getDomain_forget] at hdomain
    rw [foldl_createAttrs hdomain, hset hname, harg0]
    rfl
  | add =>
    rw [h] at hadt hnames hoptional
    exact hadt (.inl rfl)
  | del =>
    rw [h] at hadt hnames hoptional
    exact hadt (.inr rfl)
  | rename =>
    rw [h] at hadt hnames hoptional
    exact hnames (.inl rfl)
  | swap =>
    rw [h] at hadt hnames hoptional
    exact hnames (.inr rfl)
  | destroy =>
    rw [h] at hadt hnames hoptional
    exact hoptional (.inl rfl)
  | flush =>
    rw [h] at hadt hnames hoptional
    exact hoptional (.inr rfl)
  | _ =>
    rw [h] at hchanges
    exact absurd hchanges (by decide)

theorem Session.filled_of_data {s : Session} {c : CmdArgs} (hdata : c.data = some s.data.forget)
    (hcmd : s.cmd = c.cmd) (hchanges : c.cmd.changes = true)
    (htype : c.cmd.isTyped = true → s.data.getType.isSome = true) : s.Filled := by
  have hset {arg0 : Str} (h : ∃ name, s.data.forget.getSetname = some name ∧ name.text = arg0) :
      s.data.getSetname.isSome = true := by
    obtain ⟨name, hget, -⟩ := h
    rw [← Data.getSetname_forget, hget]
    rfl
  have hadt (h : c.cmd = .add ∨ c.cmd = .del) : s.data.getSetname.isSome = true := by
    obtain ⟨arg0, arg1, -, -, hname, -⟩ := data_adt h hdata
    exact hset hname
  have hnames (h : c.cmd = .rename ∨ c.cmd = .swap) : s.data.getSetname.isSome = true ∧
      ∃ name : SetName, s.data.getSetname2 = some name.text := by
    obtain ⟨arg0, arg1, -, -, hname, ⟨name2, hname2, -⟩, -⟩ := data_names h hdata
    rw [Data.getSetname2_forget] at hname2
    exact ⟨hset hname, name2, hname2⟩
  unfold Filled
  rw [hcmd]
  cases h : c.cmd with
  | create =>
    obtain ⟨arg0, -, hname, -⟩ := data_create h hdata
    exact ⟨hset hname, htype (by rw [h]; rfl)⟩
  | add => exact ⟨hadt (.inl h), htype (by rw [h]; rfl)⟩
  | del => exact ⟨hadt (.inr h), htype (by rw [h]; rfl)⟩
  | rename => exact hnames (.inl h)
  | swap => exact hnames (.inr h)
  | destroy => trivial
  | flush => trivial
  | _ =>
    rw [h] at hchanges
    exact absurd hchanges (by decide)

end Dset.User
