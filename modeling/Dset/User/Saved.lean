import Dset.User.Delivery
import Dset.User.ListOutput
import Dset.User.Words

/-! A restore reads what a save printed. Every set is printed as the line that creates it and the
lines that add its elements; read as a script, the lines ask for the sets of the dump with their
options, and for their elements with their timeouts, each once and behind its set. Only names and
domains that are words and no options of the program come back. -/

namespace Dset.User

open Dset.Lib Dset.Core Options

variable {κ : Type}

/-! ### Options of `create` in a blob -/

namespace Data

/-- Two options of `create` lie apart in the union. -/
def CreateApart (c c' : Opt) : Prop :=
  createOffset c + 4 ≤ createOffset c' ∨ createOffset c' + 4 ≤ createOffset c

instance (c c' : Opt) : Decidable (CreateApart c c') := inferInstanceAs (Decidable (_ ∨ _))

variable {d : Data} {c c' : Opt} {v : ℕ}

theorem createOffset_le (c : Opt) : createOffset c + 4 ≤ dsetMaxnamelen := by
  cases c <;> decide

theorem length_setCreate (hlen : d.overlay.length = dsetMaxnamelen) :
    (d.setCreate c v).overlay.length = dsetMaxnamelen := by
  have hoff := createOffset_le c
  show (Overlay.setU32 d.overlay _ v).length = _
  unfold Overlay.setU32
  simp only [List.length_append, List.length_take, List.length_drop, List.length_cons,
    List.length_nil]
  omega

theorem getCreate_setCreate (hlen : d.overlay.length = dsetMaxnamelen) (hv : v < 2 ^ 32) :
    (d.setCreate c v).getCreate c = some v := by
  have hoff := createOffset_le c
  unfold getCreate
  rw [test_setCreate, decide_eq_true rfl, Bool.true_or, if_pos rfl]
  exact congrArg some (Overlay.u32_setU32 (by omega) hv)

theorem getCreate_setCreate_of_apart (hlen : d.overlay.length = dsetMaxnamelen)
    (h : CreateApart c c') : (d.setCreate c v).getCreate c' = d.getCreate c' := by
  have hne : c' ≠ c := by
    rintro rfl
    rcases h with h | h <;> omega
  have hoff := createOffset_le c
  have hoff' := createOffset_le c'
  have htake : (d.overlay.take (createOffset c)).length = createOffset c := by
    rw [List.length_take]
    omega
  -- no byte of the other option is written
  have hbyte (i : ℕ) (hi : i < 4) :
      (Overlay.setU32 d.overlay (createOffset c) v).getD (createOffset c' + i) 0 =
        d.overlay.getD (createOffset c' + i) 0 := by
    unfold Overlay.setU32
    rcases h with h | h
    · have hlen' : (d.overlay.take (createOffset c) ++ [UInt8.ofNat v, UInt8.ofNat (v / 2 ^ 8),
          UInt8.ofNat (v / 2 ^ 16), UInt8.ofNat (v / 2 ^ 24)]).length = createOffset c + 4 := by
        rw [List.length_append, htake]
        rfl
      rw [List.getD_append_right _ _ _ _ (by omega), hlen', List.getD_eq_getElem?_getD,
        List.getD_eq_getElem?_getD, List.getElem?_drop]
      congr 2
      omega
    · rw [List.append_assoc, List.getD_append _ _ _ _ (by omega), List.getD_eq_getElem?_getD,
        List.getD_eq_getElem?_getD, List.getElem?_take_of_lt (by omega)]
  have hu32 : Overlay.u32 (Overlay.setU32 d.overlay (createOffset c) v) (createOffset c') =
      Overlay.u32 d.overlay (createOffset c') := by
    have h0 := hbyte 0 (by omega)
    rw [Nat.add_zero] at h0
    unfold Overlay.u32
    rw [h0, hbyte 1 (by omega), hbyte 2 (by omega), hbyte 3 (by omega)]
  unfold getCreate
  rw [test_setCreate, decide_eq_false hne, Bool.false_or]
  exact congrArg (fun n => if d.test c' then some n else none) hu32

theorem getTimeout_setCreate (hc : c ≠ .timeout) : (d.setCreate c v).getTimeout = d.getTimeout := by
  unfold getTimeout
  rw [test_setCreate, decide_eq_false hc.symm, Bool.false_or]
  rfl

theorem getCreate_setTimeout (hc : c ≠ .timeout) : (d.setTimeout v).getCreate c = d.getCreate c := by
  unfold getCreate
  rw [test_setTimeout, decide_eq_false hc, Bool.false_or]
  rfl

/-- Nothing is read of an option that is not stored. -/
theorem test_of_getCreate (h : d.getCreate c = none) : d.test c = false := by
  unfold getCreate at h
  split at h
  · cases h
  · rename_i htest
    exact Bool.eq_false_iff.mpr htest

theorem test_of_getTimeout (h : d.getTimeout = none) : d.test .timeout = false := by
  unfold getTimeout at h
  split at h
  · cases h
  · rename_i htest
    exact Bool.eq_false_iff.mpr htest

end Data

/-- The options of a set that a save prints. -/
structure CreateOptions where
  hashsize : Option ℕ
  maxelem : Option ℕ
  timeout : Option ℕ
  gc : Option ℕ
  deriving DecidableEq

def Data.createOptions (d : Data) : CreateOptions :=
  ⟨d.getCreate .hashsize, d.getCreate .maxelem, d.getTimeout, d.getCreate .gc⟩

structure Stores (d : Data) (x : CreateOptions) : Prop where
  length : d.overlay.length = dsetMaxnamelen
  options : d.createOptions = x

namespace Stores

variable {d : Data} {x : CreateOptions} {v : ℕ}

theorem setHashsize (h : Stores d x) (hv : v < 2 ^ 32) :
    Stores (d.setCreate .hashsize v) { x with hashsize := some v } := by
  refine ⟨Data.length_setCreate h.length, ?_⟩
  rw [← h.options, Data.createOptions, Data.getCreate_setCreate h.length hv,
    Data.getCreate_setCreate_of_apart h.length (by decide),
    Data.getCreate_setCreate_of_apart h.length (by decide), Data.getTimeout_setCreate (by decide)]
  rfl

theorem setMaxelem (h : Stores d x) (hv : v < 2 ^ 32) :
    Stores (d.setCreate .maxelem v) { x with maxelem := some v } := by
  refine ⟨Data.length_setCreate h.length, ?_⟩
  rw [← h.options, Data.createOptions, Data.getCreate_setCreate h.length hv,
    Data.getCreate_setCreate_of_apart h.length (by decide),
    Data.getCreate_setCreate_of_apart h.length (by decide), Data.getTimeout_setCreate (by decide)]
  rfl

theorem setGc (h : Stores d x) (hv : v < 2 ^ 32) :
    Stores (d.setCreate .gc v) { x with gc := some v } := by
  refine ⟨Data.length_setCreate h.length, ?_⟩
  rw [← h.options, Data.createOptions, Data.getCreate_setCreate h.length hv,
    Data.getCreate_setCreate_of_apart h.length (by decide),
    Data.getCreate_setCreate_of_apart h.length (by decide), Data.getTimeout_setCreate (by decide)]
  rfl

theorem setTimeout (h : Stores d x) (hv : v < 2 ^ 32) :
    Stores (d.setTimeout v) { x with timeout := some v } := by
  have htimeout : (d.setTimeout v).getTimeout = some v := by
    unfold Data.getTimeout
    rw [Data.test_setTimeout, decide_eq_true rfl, Bool.true_or, if_pos rfl]
    exact congrArg some (Nat.mod_eq_of_lt hv)
  refine ⟨h.length, ?_⟩
  rw [← h.options, Data.createOptions, htimeout, Data.getCreate_setTimeout (by decide),
    Data.getCreate_setTimeout (by decide), Data.getCreate_setTimeout (by decide)]
  rfl

/-- The counts of a header are apart from its options. -/
theorem setCount (h : Stores d x) {c : Opt} (hc : c = .references ∨ c = .elements) :
    Stores (d.setCreate c v) x := by
  have hapart : Data.CreateApart c .hashsize ∧ Data.CreateApart c .maxelem ∧
      Data.CreateApart c .gc := by rcases hc with rfl | rfl <;> decide
  have hne : c ≠ .timeout := by rcases hc with rfl | rfl <;> decide
  refine ⟨Data.length_setCreate h.length, ?_⟩
  rw [← h.options, Data.createOptions, Data.getCreate_setCreate_of_apart h.length hapart.1,
    Data.getCreate_setCreate_of_apart h.length hapart.2.1,
    Data.getCreate_setCreate_of_apart h.length hapart.2.2, Data.getTimeout_setCreate hne]
  rfl

theorem congr (h : Stores d x) {d' : Data} (hoverlay : d'.overlay = d.overlay)
    (htimeout : d'.timeout = d.timeout)
    (htest : ∀ o ∈ [Opt.hashsize, .maxelem, .timeout, .gc], d'.test o = d.test o) :
    Stores d' x := by
  refine ⟨(congrArg List.length hoverlay).trans h.length, ?_⟩
  rw [← h.options, Data.createOptions, Data.createOptions]
  simp only [Data.getCreate, Data.getTimeout, hoverlay, htimeout, htest .hashsize (by decide),
    htest .maxelem (by decide), htest .timeout (by decide), htest .gc (by decide)]

theorem setMemsize (h : Stores d x) : Stores (d.setMemsize v) x :=
  h.congr rfl rfl fun o ho => by
    have hne : o ≠ .memsize := fun hmem => absurd (hmem ▸ ho) (by decide)
    rw [Data.test_setMemsize, decide_eq_false hne, Bool.false_or]

theorem setType (h : Stores d x) (t : DsetType) : Stores (d.setType t) x :=
  h.congr rfl rfl fun o ho => by
    have hne : o ≠ .type := fun htype => absurd (htype ▸ ho) (by decide)
    rw [Data.test_setType, decide_eq_false hne, Bool.false_or]

theorem option {x : Option ℕ → CreateOptions} {o : Option ℕ} {f : ℕ → Data} (h : Stores d (x none))
    (hf : ∀ v, o = some v → Stores (f v) (x (some v))) : Stores (o.elim d f) (x o) := by
  cases o with
  | none => exact h
  | some v => exact hf v rfl

end Stores

/-! ### The header of a set -/

/-- The options of a header are 32 bits wide. -/
structure CreateOptions.Wide (x : CreateOptions) : Prop where
  hashsize : ∀ v, x.hashsize = some v → v < 2 ^ 32
  maxelem : ∀ v, x.maxelem = some v → v < 2 ^ 32
  timeout : ∀ v, x.timeout = some v → v < 2 ^ 32
  gc : ∀ v, x.gc = some v → v < 2 ^ 32

def CreateNla.options (nla : CreateNla) : CreateOptions :=
  ⟨nla.hashsize, nla.maxelem, nla.timeout, nla.gc⟩

theorem stores_create {nla : CreateNla} (hwide : nla.options.Wide) {d : Data}
    (h : Stores d ⟨none, none, none, none⟩) : Stores (nla.store d) nla.options := by
  have htimeout := h.option (x := fun o => ⟨none, none, o, none⟩) (o := nla.timeout)
    fun v hv => h.setTimeout (hwide.timeout v hv)
  have hgc := htimeout.option (x := fun o => ⟨none, none, nla.timeout, o⟩) (o := nla.gc)
    fun v hv => htimeout.setGc (hwide.gc v hv)
  have hhashsize := hgc.option (x := fun o => ⟨o, none, nla.timeout, nla.gc⟩) (o := nla.hashsize)
    fun v hv => hgc.setHashsize (hwide.hashsize v hv)
  have hmaxelem := hhashsize.option (x := fun o => ⟨nla.hashsize, o, nla.timeout, nla.gc⟩)
    (o := nla.maxelem) fun v hv => hhashsize.setMaxelem (hwide.maxelem v hv)
  have helements := hmaxelem.option (x := fun _ => nla.options) (o := nla.elements)
    fun v _ => hmaxelem.setCount (v := v) (.inr rfl)
  have hreferences := helements.option (x := fun _ => nla.options) (o := nla.references)
    fun v _ => helements.setCount (v := v) (.inl rfl)
  exact hreferences.option (x := fun _ => nla.options) (o := nla.memsize) fun _ _ =>
    hreferences.setMemsize

theorem DumpHeader.stores_blob {h : DumpHeader} (hwide : h.create.options.Wide) {data : Data}
    (hlen : data.overlay.length = dsetMaxnamelen) : Stores (h.blob data) h.create.options := by
  have hempty : Stores ((data.setSetname h.name).startHeader h.typename dsetHashDomain0.revision)
      ⟨none, none, none, none⟩ := by
    have htest (o : Opt) (ho : o ∈ [Opt.hashsize, .maxelem, .timeout, .gc]) :
        ((data.setSetname h.name).startHeader h.typename dsetHashDomain0.revision).test o = false := by
      revert o
      simp [Data.startHeader, dsetCreateFlags]
    refine ⟨hlen, ?_⟩
    unfold Data.createOptions
    rw [getCreate_none (htest _ (by decide)), getCreate_none (htest _ (by decide)),
      getTimeout_none (htest _ (by decide)), getCreate_none (htest _ (by decide))]
  exact (stores_create hwide hempty).setType _

/-- The elements of a set leave the options alone. -/
theorem overlay_elemsBlob (es : List DumpElem) (data : Data) :
    (elemsBlob es data).overlay = data.overlay := by
  induction es generalizing data with
  | nil => rfl
  | cons e es ih =>
    have hstore : (e.blob data).overlay = data.overlay := by
      unfold DumpElem.blob AdtNla.store DumpElem.nla
      cases e.timeout <;> rfl
    exact (ih _).trans hstore

theorem SetDump.length_blob {x : SetDump} (hwide : x.create.options.Wide) {data : Data}
    (hlen : data.overlay.length = dsetMaxnamelen) :
    (x.blob data).overlay.length = dsetMaxnamelen := by
  have hmore (more : List (List DumpElem)) (data : Data) :
      (more.foldl (fun data es => elemsBlob es (data.setSetname x.name)) data).overlay =
        data.overlay := by
    induction more generalizing data with
    | nil => rfl
    | cons es more ih => exact (ih _).trans (overlay_elemsBlob es _)
  unfold SetDump.blob
  rw [hmore, overlay_elemsBlob]
  exact (x.toDumpHeader.stores_blob hwide hlen).length

/-! ### The lines -/

/-- An option of the set type with a number. -/
def optArgs (k : Keyword) : Option ℕ → List Str
  | none => []
  | some v => [k.name, numberText v]

def createArgv (name : SetName) (x : CreateOptions) : List Str :=
  bytes "create" :: name.text :: dsetHashDomain0.name.text :: (optArgs .hashsize x.hashsize ++
    optArgs .maxelem x.maxelem ++ optArgs .timeout x.timeout ++ optArgs .gc x.gc)

def addArgv (name : SetName) (e : DumpElem) : List Str :=
  bytes "add" :: name.text :: e.domain :: optArgs .timeout (e.timeout.map UInt32.toNat)

theorem flatMap_optArgs {k : Keyword} {name : String} (hk : k.name = bytes name) (v : Option ℕ) :
    (optArgs k v).flatMap (32 :: ·) = (optionTexts .save name v).flatten := by
  cases v with
  | none => rfl
  | some v =>
    show 32 :: k.name ++ (32 :: numberText v ++ []) = bytes (" " ++ name ++ " ") ++ (numberText v ++ [])
    rw [bytes_append, bytes_append, hk, List.append_assoc]
    rfl

section

variable {C : Settings}

theorem DumpElem.text_eq (hmode : C.mode = .save) (name : SetName) (e : DumpElem) :
    e.text C name = argvText (addArgv name e) := by
  have hadd : bytes "add " = bytes "add" ++ [32] := rfl
  have hblank : bytes " " = [32] := rfl
  have hend : bytes "\n" = [10] := rfl
  have hxml : ¬ OutputMode.save = .xml := by decide
  unfold DumpElem.text adtTexts
  rw [hmode]
  simp only [argvText, addArgv, List.flatMap_cons, List.flatten_append, List.flatten_cons,
    List.flatten_nil, flatMap_optArgs (show Keyword.timeout.name = bytes "timeout" from rfl),
    if_neg hxml, hadd, hblank, hend, List.append_assoc, List.cons_append, List.nil_append,
    List.append_nil]

theorem DumpHeader.text_eq (hmode : C.mode = .save) {h : DumpHeader}
    (hwide : h.create.options.Wide) {data : Data} (hlen : data.overlay.length = dsetMaxnamelen)
    (n : ℕ) : h.text C n data = argvText (createArgv h.name h.create.options) := by
  have hoptions := (h.stores_blob hwide hlen).options
  have hhashsize : (h.blob data).getCreate .hashsize = h.create.hashsize :=
    congrArg CreateOptions.hashsize hoptions
  have hmaxelem : (h.blob data).getCreate .maxelem = h.create.maxelem :=
    congrArg CreateOptions.maxelem hoptions
  have htimeout : (h.blob data).getTimeout = h.create.timeout :=
    congrArg CreateOptions.timeout hoptions
  have hgc : (h.blob data).getCreate .gc = h.create.gc := congrArg CreateOptions.gc hoptions
  have hcreate : bytes "create " = bytes "create" ++ [32] := rfl
  have hblank : bytes " " = [32] := rfl
  have hend : headerTexts .save C.envopts.listHeader (h.blob data) = [[10]] := rfl
  unfold DumpHeader.text createTexts createOptionTexts
  rw [hmode, hhashsize, hmaxelem, htimeout, hgc, hend]
  simp only [argvText, createArgv, CreateNla.options, List.flatMap_cons, List.flatMap_append,
    List.flatten_append, List.flatten_cons, List.flatten_nil,
    flatMap_optArgs (show Keyword.hashsize.name = bytes "hashsize" from rfl),
    flatMap_optArgs (show Keyword.maxelem.name = bytes "maxelem" from rfl),
    flatMap_optArgs (show Keyword.timeout.name = bytes "timeout" from rfl),
    flatMap_optArgs (show Keyword.gc.name = bytes "gc" from rfl), hcreate, hblank, List.append_assoc,
    List.cons_append, List.nil_append, List.append_nil]

end

/-- A name or a domain that comes back as it is. -/
structure Plain (t : Str) : Prop where
  word : IsWord t
  noEnvopt : ∀ o, dsetMatchEnvopt t o = false

theorem plain_of_all {t : Str} (hne : t ≠ [])
    (h : (t.all fun c => !isSep c && c != 34 && c != 0) = true) (hhead : t.head? ≠ some 45) :
    Plain t := ⟨.of_all hne h, dsetMatchEnvopt_of_head hhead⟩

theorem plain_numberText (n : ℕ) : Plain (numberText n) := by
  have hdigit {d : ℕ} (hd : d < 10) : isSep (digit d) = false ∧ digit d ≠ 34 ∧ digit d ≠ 0 ∧
      digit d ≠ 45 := by
    revert d
    decide
  obtain ⟨d, l, hcons, hd, -⟩ := numeral_eq_cons (show 1 < 10 by decide) n
  have hword : IsWord (numberText n) := by
    refine ⟨fun hnil => ?_, fun c hc => ?_⟩
    · rw [numberText_eq, hcons] at hnil
      cases hnil
    · obtain ⟨d, hd, rfl⟩ := mem_numeral (show 1 < 10 by decide) hc
      obtain ⟨hsep, h34, h0, -⟩ := hdigit hd
      exact ⟨hsep, h34, h0⟩
  refine ⟨hword, fun o => dsetMatchEnvopt_of_head ?_ o⟩
  rw [numberText_eq, hcons]
  exact fun h => (hdigit hd).2.2.2 (Option.some.inj h)

theorem plain_optArgs (k : Keyword) (v : Option ℕ) : ∀ t ∈ optArgs k v, Plain t := by
  cases v with
  | none => exact fun t ht => absurd ht List.not_mem_nil
  | some v =>
    have hname : Plain k.name := by
      apply plain_of_all <;> cases k <;> decide
    intro t ht
    rcases List.mem_cons.mp ht with rfl | ht
    · exact hname
    · rw [List.mem_singleton.mp ht]
      exact plain_numberText v

theorem plain_addArgv {name : SetName} {e : DumpElem} (hname : Plain name.text)
    (hdomain : Plain e.domain) : ∀ t ∈ addArgv name e, Plain t := by
  have hadd : Plain (bytes "add") := plain_of_all (by decide) (by decide) (by decide)
  simp only [addArgv, List.forall_mem_cons]
  exact ⟨hadd, hname, hdomain, plain_optArgs _ _⟩

theorem plain_createArgv {name : SetName} (hname : Plain name.text) (x : CreateOptions) :
    ∀ t ∈ createArgv name x, Plain t := by
  have hcreate : Plain (bytes "create") := plain_of_all (by decide) (by decide) (by decide)
  have htype : Plain dsetHashDomain0.name.text :=
    plain_of_all (by decide) (by decide) (by decide)
  simp only [createArgv, List.forall_mem_cons, List.forall_mem_append]
  exact ⟨hcreate, hname, htype, ⟨⟨plain_optArgs _ _, plain_optArgs _ _⟩, plain_optArgs _ _⟩,
    plain_optArgs _ _⟩

theorem length_optArgs (k : Keyword) {v : Option ℕ} (hv : ∀ n, v = some n → n < 2 ^ 32) :
    (optArgs k v).length ≤ 2 ∧ ((optArgs k v).flatMap (32 :: ·)).length ≤ 20 := by
  cases v with
  | none => exact ⟨Nat.zero_le _, Nat.zero_le _⟩
  | some n =>
    have hnumber := length_numberText (hv n rfl)
    have hname : k.name.length ≤ 8 := by cases k <;> decide
    refine ⟨le_rfl, ?_⟩
    simp only [optArgs, List.flatMap_cons, List.flatMap_nil, List.length_append, List.length_cons,
      List.length_nil]
    omega

theorem isLine_addArgv {name : SetName} {e : DumpElem} (hname : Plain name.text)
    (hdomain : Plain e.domain) : IsLine (addArgv name e) := by
  obtain ⟨hargs, hchars⟩ := length_optArgs .timeout (v := e.timeout.map UInt32.toNat) fun n hn => by
    obtain ⟨t, -, rfl⟩ := Option.map_eq_some_iff.mp hn
    exact t.toNat_lt
  refine ⟨List.cons_ne_nil _ _, fun t ht => (plain_addArgv hname hdomain t ht).word, ?_, ?_, ?_, ?_⟩
  · rintro c hc
    obtain rfl : 97 = c := Option.some.inj hc
    decide
  · intro h
    exact absurd (List.cons.inj h).1 (by decide)
  · have hmax : maxArgs = 32 := rfl
    simp only [addArgv, List.length_cons]
    omega
  · have hname' := name.length_lt
    have hdomain' := e.length_lt
    have hmax : dsetMaxnamelen = 32 ∧ maxCmdlineChars = 1024 := ⟨rfl, rfl⟩
    have hadd : (bytes "add").length = 3 := rfl
    simp only [addArgv, argvText, List.flatMap_cons, List.length_append, List.length_cons,
      List.length_nil]
    omega

theorem isLine_createArgv {name : SetName} (hname : Plain name.text) {x : CreateOptions}
    (hwide : x.Wide) : IsLine (createArgv name x) := by
  have h1 := length_optArgs .hashsize hwide.hashsize
  have h2 := length_optArgs .maxelem hwide.maxelem
  have h3 := length_optArgs .timeout hwide.timeout
  have h4 := length_optArgs .gc hwide.gc
  refine ⟨List.cons_ne_nil _ _, fun t ht => (plain_createArgv hname x t ht).word, ?_, ?_, ?_, ?_⟩
  · rintro c hc
    obtain rfl : 99 = c := Option.some.inj hc
    decide
  · intro h
    exact absurd (List.cons.inj h).1 (by decide)
  · have hmax : maxArgs = 32 := rfl
    simp only [createArgv, List.length_cons, List.length_append]
    omega
  · have hname' := name.length_lt
    have hmax : dsetMaxnamelen = 32 ∧ maxCmdlineChars = 1024 := ⟨rfl, rfl⟩
    have hcreate : (bytes "create").length = 6 := rfl
    have htype : dsetHashDomain0.name.text.length = 11 := rfl
    simp only [createArgv, argvText, List.flatMap_cons, List.flatMap_append, List.length_append,
      List.length_cons, List.length_nil]
    omega

/-! ### What the lines ask for -/

/-- The item of the line that creates a set. -/
def createItem (name : SetName) (x : CreateOptions) : Item :=
  { Item.of .create (some name.text) with
    timeout := x.timeout
    hashsize := x.hashsize
    maxelem := x.maxelem }

/-- The item of the line that adds an element. -/
def addItem (name : SetName) (e : DumpElem) (lineno : ℕ) : Item :=
  { Item.of .add (some name.text) with
    domain := some e.domain
    timeout := e.timeout.map UInt32.toNat
    lineno := some lineno }

def maxTimeout : ℕ := uintMax / 2 / 1000

def Keyword.put (k : Keyword) (data : Data) (v : ℕ) : Data :=
  match k with
  | .hashsize => data.setCreate .hashsize v
  | .maxelem => data.setCreate .maxelem v
  | .timeout => data.setTimeout v
  | .probes | .resize | .gc => (data.markIgnored k.opt).2

/-- The numbers that the parser of an option admits. -/
def Keyword.Admits (k : Keyword) (v : ℕ) : Prop :=
  match k with
  | .hashsize | .maxelem => v ≤ uintMax
  | .timeout => v ≤ maxTimeout
  | .probes | .resize | .gc => True

theorem Keyword.store_numberText {k : Keyword} {data : Data} {v : ℕ}
    (hnew : data.test k.opt = false) (hv : k.Admits v) :
    k.store (numberText v) data = some (k.put data v) := by
  have hnumber {max : ℕ} (hmax : max ≤ uintMax) (h : v ≤ max) :
      stringToNumberLl (numberText v) 0 max = .ok v := by
    have huint : uintMax < 2 ^ 64 := by decide
    exact stringToNumberLl_numberText (by omega) h
  unfold Keyword.store
  rw [hnew, if_neg Bool.false_ne_true]
  cases k with
  | hashsize =>
    dsimp only
    rw [hnumber le_rfl hv]
    rfl
  | maxelem =>
    dsimp only
    rw [hnumber le_rfl hv]
    rfl
  | timeout =>
    have hmax : maxTimeout ≤ uintMax := by decide
    dsimp only
    rw [← maxTimeout, hnumber hmax hv]
    rfl
  | _ => rfl

theorem storeOpts_optArgs {kws : List Keyword} {k : Keyword}
    (hfind : kws.find? (dsetMatchOption k.name ·) = some k) {data : Data} {v : Option ℕ}
    (hnew : data.test k.opt = false) (hv : ∀ n, v = some n → k.Admits n) (argv : List Str) :
    storeOpts kws data (optArgs k v ++ argv) = storeOpts kws (v.elim data (k.put data)) argv := by
  cases v with
  | none => rfl
  | some n =>
    show (kws.find? (dsetMatchOption k.name ·)).bind _ = _
    rw [hfind, Option.bind_some, Keyword.store_numberText hnew (hv n rfl), Option.bind_some]
    rfl

theorem nameData_text (name : SetName) : nameData name.text = some (Data.reset.setSetname name) := by
  unfold nameData SetName.ofStr
  rw [dif_pos ⟨name.notMem, name.length_lt⟩]
  rfl

theorem stores_nameData (name : SetName) :
    Stores (Data.reset.setSetname name) ⟨none, none, none, none⟩ := by
  have htest (o : Opt) (ho : o ≠ .setname) : (Data.reset.setSetname name).test o = false := by
    rw [nameData_test (nameData_text name), decide_eq_false ho]
  refine ⟨rfl, ?_⟩
  unfold Data.createOptions
  rw [getCreate_none (htest _ (by decide)), getCreate_none (htest _ (by decide)),
    getTimeout_none (htest _ (by decide)), getCreate_none (htest _ (by decide))]

/-- The options of a header that the parser admits. -/
structure CreateOptions.Admitted (x : CreateOptions) : Prop extends x.Wide where
  admits : ∀ v, x.timeout = some v → v ≤ maxTimeout

theorem storeOpts_create (name : SetName) {x : CreateOptions} (hx : x.Admitted) :
    ∃ data, storeOpts (typeArgs .create) (Data.reset.setSetname name)
        (optArgs .hashsize x.hashsize ++ optArgs .maxelem x.maxelem ++ optArgs .timeout x.timeout ++
          optArgs .gc x.gc) = some data ∧ data.createOptions = { x with gc := none } := by
  have hfits {v : ℕ} (hv : v < 2 ^ 32) : v ≤ uintMax := by
    have huint : uintMax = 2 ^ 32 - 1 := rfl
    omega
  have h0 := stores_nameData name
  have hnew0 : (Data.reset.setSetname name).getCreate .hashsize = none :=
    congrArg CreateOptions.hashsize h0.options
  obtain ⟨d1, h1, hstore1⟩ : ∃ d1, Stores d1 ⟨x.hashsize, none, none, none⟩ ∧ ∀ argv,
      storeOpts (typeArgs .create) (Data.reset.setSetname name) (optArgs .hashsize x.hashsize ++ argv) =
        storeOpts (typeArgs .create) d1 argv :=
    ⟨_, h0.option (x := fun o => ⟨o, none, none, none⟩) fun v hv => h0.setHashsize (hx.hashsize v hv),
      storeOpts_optArgs (by decide) (Data.test_of_getCreate hnew0)
        fun v hv => hfits (hx.hashsize v hv)⟩
  have hnew1 : d1.getCreate .maxelem = none := congrArg CreateOptions.maxelem h1.options
  obtain ⟨d2, h2, hstore2⟩ : ∃ d2, Stores d2 ⟨x.hashsize, x.maxelem, none, none⟩ ∧ ∀ argv,
      storeOpts (typeArgs .create) d1 (optArgs .maxelem x.maxelem ++ argv) =
        storeOpts (typeArgs .create) d2 argv :=
    ⟨_, h1.option (x := fun o => ⟨x.hashsize, o, none, none⟩)
        fun v hv => h1.setMaxelem (hx.maxelem v hv),
      storeOpts_optArgs (by decide) (Data.test_of_getCreate hnew1)
        fun v hv => hfits (hx.maxelem v hv)⟩
  have hnew2 : d2.getTimeout = none := congrArg CreateOptions.timeout h2.options
  obtain ⟨d3, h3, hstore3⟩ : ∃ d3, Stores d3 ⟨x.hashsize, x.maxelem, x.timeout, none⟩ ∧ ∀ argv,
      storeOpts (typeArgs .create) d2 (optArgs .timeout x.timeout ++ argv) =
        storeOpts (typeArgs .create) d3 argv :=
    ⟨_, h2.option (x := fun o => ⟨x.hashsize, x.maxelem, o, none⟩)
        fun v hv => h2.setTimeout (hx.timeout v hv),
      storeOpts_optArgs (by decide) (Data.test_of_getTimeout hnew2) hx.admits⟩
  have hnew3 : d3.getCreate .gc = none := congrArg CreateOptions.gc h3.options
  obtain ⟨d4, h4, hstore4⟩ : ∃ d4, Stores d4 ⟨x.hashsize, x.maxelem, x.timeout, none⟩ ∧ ∀ argv,
      storeOpts (typeArgs .create) d3 (optArgs .gc x.gc ++ argv) =
        storeOpts (typeArgs .create) d4 argv :=
    ⟨_, h3.option (x := fun _ => ⟨x.hashsize, x.maxelem, x.timeout, none⟩) (f := Keyword.gc.put d3)
        fun v _ => h3.congr rfl rfl fun _ _ => rfl,
      storeOpts_optArgs (by decide) (Data.test_of_getCreate hnew3) fun _ _ => trivial⟩
  have hnil := hstore4 []
  rw [List.append_nil, storeOpts] at hnil
  refine ⟨d4, ?_, h4.options⟩
  rw [List.append_assoc, List.append_assoc, hstore1, hstore2, hstore3, hnil]

theorem cmdArgs_createArgv (name : SetName) (x : CreateOptions) :
    cmdArgs (createArgv name x) = some ⟨.create, some name.text, some dsetHashDomain0.name.text,
      optArgs .hashsize x.hashsize ++ optArgs .maxelem x.maxelem ++ optArgs .timeout x.timeout ++
        optArgs .gc x.gc⟩ := by
  have hfind : (dsetCommands.find? fun c => dsetMatchCmd (bytes "create") c.name) =
      some ⟨.create, [bytes "create", bytes "new", bytes "-N"], .mandatoryArg2⟩ := by decide
  unfold cmdArgs createArgv
  dsimp only
  rw [hfind]
  rfl

theorem cmdArgs_addArgv (name : SetName) (e : DumpElem) :
    cmdArgs (addArgv name e) = some ⟨.add, some name.text, some e.domain,
      optArgs .timeout (e.timeout.map UInt32.toNat)⟩ := by
  have hfind : (dsetCommands.find? fun c => dsetMatchCmd (bytes "add") c.name) =
      some ⟨.add, [bytes "add", bytes "-A"], .mandatoryArg2⟩ := by decide
  unfold cmdArgs addArgv
  dsimp only
  rw [hfind]
  rfl

theorem item_createArgv (name : SetName) {x : CreateOptions} (hx : x.Admitted) (lineno : ℕ) :
    (cmdArgs (createArgv name x)).bind (·.item lineno) = some (createItem name x) := by
  obtain ⟨data, hstore, hoptions⟩ := storeOpts_create name hx
  have htype : ¬ (dsetMaxnamelen ≤ dsetHashDomain0.name.text.length ∨
      ¬ dsetMatchTypename dsetHashDomain0.name.text) := by decide
  rw [cmdArgs_createArgv, Option.bind_some]
  unfold CmdArgs.item CmdArgs.data
  dsimp only
  rw [if_neg htype, nameData_text, Option.bind_some, hstore, Option.map_some]
  obtain ⟨hhashsize, hmaxelem, htimeout, -⟩ := CreateOptions.mk.inj hoptions
  rw [hhashsize, hmaxelem, htimeout]
  rfl

theorem item_addArgv (name : SetName) {e : DumpElem} (hsep : elemSeparator e.domain = false)
    (htimeout : ∀ t, e.timeout = some t → t.toNat ≤ maxTimeout) (lineno : ℕ) :
    (cmdArgs (addArgv name e)).bind (·.item lineno) = some (addItem name e lineno) := by
  have hadmits : ∀ n, e.timeout.map UInt32.toNat = some n → Keyword.timeout.Admits n := by
    intro n hn
    obtain ⟨t, ht, rfl⟩ := Option.map_eq_some_iff.mp hn
    exact htimeout t ht
  have h0 : Stores ((Data.reset.setSetname name).setDomain e.domain) ⟨none, none, none, none⟩ :=
    (stores_nameData name).congr rfl rfl fun o ho => by
      have hne : o ≠ .domain := fun hdomain => absurd (hdomain ▸ ho) (by decide)
      rw [Data.test_setDomain, decide_eq_false hne, Bool.false_or]
  have h1 := h0.option (x := fun o => ⟨none, none, o, none⟩) (o := e.timeout.map UInt32.toNat)
    (f := Keyword.put .timeout _) fun n hn => h0.setTimeout (by
      obtain ⟨t, -, rfl⟩ := Option.map_eq_some_iff.mp hn
      exact t.toNat_lt)
  have hnew : Data.getTimeout ((Data.reset.setSetname name).setDomain e.domain) = none :=
    congrArg CreateOptions.timeout h0.options
  have hfind : (typeArgs .add).find? (dsetMatchOption Keyword.timeout.name ·) = some .timeout := by
    decide
  have hstore := storeOpts_optArgs hfind (Data.test_of_getTimeout hnew) hadmits []
  rw [List.append_nil, storeOpts] at hstore
  have helem : ¬ elemSeparator e.domain = true := by
    rw [hsep]
    exact Bool.false_ne_true
  rw [cmdArgs_addArgv, Option.bind_some]
  unfold CmdArgs.item CmdArgs.data
  dsimp only
  rw [if_neg helem, nameData_text, Option.bind_some, hstore, Option.map_some]
  obtain ⟨hhashsize, hmaxelem, htime, -⟩ := CreateOptions.mk.inj h1.options
  rw [hhashsize, hmaxelem, htime]
  rfl

/-! ### The script of a saved dump -/

/-- The commands of lines, the first behind line `lineno`. -/
def numbered (exist : Bool) : ℕ → List (ℕ → Item) → List (Option ScriptItem)
  | _, [] => []
  | lineno, item :: items =>
    some ⟨exist, item ((lineno + 1) % 2 ^ 32)⟩ :: numbered exist ((lineno + 1) % 2 ^ 32) items

theorem lineScript_text {argv : List Str} (hline : IsLine argv) (hopt : NoEnvopt argv) {lineno : ℕ}
    {i : Item} (hi : (cmdArgs argv).bind (·.item lineno) = some i) (exist : Bool) :
    lineScript lineno exist (argvText argv) = ([some ⟨exist, i.cut⟩], exist) := by
  obtain ⟨hblank, hcommit⟩ := hline.isCommand
  unfold lineScript
  rw [hline.skipSpace_text, if_neg (Bool.eq_false_iff.mp hblank),
    if_neg (Bool.eq_false_iff.mp hcommit), hline.readArgv_text]
  dsimp only
  rw [hopt.lineArgs_eq, hopt.givesExist_eq, hi, Bool.or_false]
  rfl

theorem script_text {argvs : List (List Str)} {items : List (ℕ → Item)}
    (h : List.Forall₂ (fun argv item => IsLine argv ∧ NoEnvopt argv ∧ ∀ lineno,
      (cmdArgs argv).bind (·.item lineno) = some (item lineno) ∧ (item lineno).cut = item lineno)
      argvs items) (lineno : ℕ) (exist : Bool) :
    script lineno exist (argvs.map argvText) = numbered exist lineno items := by
  induction h generalizing lineno with
  | nil => rfl
  | cons h _ ih =>
    obtain ⟨hline, hopt, hitem⟩ := h
    obtain ⟨hi, hcut⟩ := hitem ((lineno + 1) % 2 ^ 32)
    rw [List.map_cons, script, lineScript_text hline hopt hi, hcut, ih, numbered]
    rfl

def savedLines (h : DumpHeader) (es : List DumpElem) : List (List Str) :=
  createArgv h.name h.create.options :: es.map (addArgv h.name)

def savedItems (h : DumpHeader) (es : List DumpElem) : List (ℕ → Item) :=
  (fun _ => createItem h.name h.create.options) :: es.map (addItem h.name)

/-- A set that comes back: its name and its domains are words and no options of the program, and the
parser admits its numbers. -/
structure SetDump.Restorable (x : SetDump) : Prop where
  name : Plain x.name.text
  options : x.create.options.Admitted
  domain : ∀ e ∈ x.elems, Plain e.domain ∧ elemSeparator e.domain = false
  timeout : ∀ e ∈ x.elems, ∀ t, e.timeout = some t → t.toNat ≤ maxTimeout

/-- The elements of a set in the order in which they are printed. -/
def SetDump.Ordered (sorted : Bool) (x : SetDump) (es : List DumpElem) : Prop :=
  es.Perm x.elems ∧ (sorted = false → es = x.elems)

section

variable {C : Settings} {x : SetDump} {es : List DumpElem}

theorem cut_addItem (name : SetName) (e : DumpElem) (lineno : ℕ) :
    (addItem name e lineno).cut = addItem name e lineno := by
  have hlen := e.length_lt
  have htake : e.domain.take 255 = e.domain := List.take_of_length_le (by omega)
  unfold Item.cut addItem
  rw [Option.map_some, htake]

/-- Every line of a set asks for its command. -/
theorem SetDump.Restorable.lines (h : x.Restorable) {sorted : Bool} (hes : x.Ordered sorted es) :
    List.Forall₂ (fun argv item => IsLine argv ∧ NoEnvopt argv ∧ ∀ lineno,
      (cmdArgs argv).bind (·.item lineno) = some (item lineno) ∧ (item lineno).cut = item lineno)
      (savedLines x.toDumpHeader es) (savedItems x.toDumpHeader es) := by
  refine .cons ⟨isLine_createArgv h.name h.options.toWide,
    fun t ht => (plain_createArgv h.name _ t ht).noEnvopt,
    fun lineno => ⟨item_createArgv x.name h.options lineno, rfl⟩⟩ ?_
  rw [List.forall₂_map_left_iff, List.forall₂_map_right_iff, List.forall₂_same]
  intro e he
  obtain ⟨hdomain, hsep⟩ := h.domain e (hes.1.mem_iff.mp he)
  exact ⟨isLine_addArgv h.name hdomain, fun t ht => (plain_addArgv h.name hdomain t ht).noEnvopt,
    fun lineno => ⟨item_addArgv x.name hsep (h.timeout e (hes.1.mem_iff.mp he)) lineno,
      cut_addItem x.name e lineno⟩⟩

theorem SetText.prints_lines (hmode : C.mode = .save) (hwide : x.create.options.Wide) {data : Data}
    (hlen : data.overlay.length = dsetMaxnamelen) {n : ℕ} {out : Str}
    (h : SetText.Prints C.envopts.sorted ⟨x.toDumpHeader.text C n data,
      x.elems.map (·.text C x.name), C.footer x.name⟩ out) :
    ∃ es, x.Ordered C.envopts.sorted es ∧ out = (savedLines x.toDumpHeader es).flatMap argvText := by
  obtain ⟨ts, hperm, horder, rfl⟩ := h
  have hfooter : C.footer x.name = [] := if_neg fun h => absurd (hmode.symm.trans h.1) (by decide)
  have htext : (fun e : DumpElem => e.text C x.name) = fun e => argvText (addArgv x.name e) :=
    funext fun e => e.text_eq hmode x.name
  have hlines {es : List DumpElem} (hes : es.map (fun e => e.text C x.name) = ts) :
      x.toDumpHeader.text C n data ++ ts.flatten ++ C.footer x.name =
        (savedLines x.toDumpHeader es).flatMap argvText := by
    rw [← hes, hfooter, List.append_nil, x.toDumpHeader.text_eq hmode hwide hlen, htext, savedLines,
      List.flatMap_cons, List.flatMap_map]
    rfl
  cases hsorted : C.envopts.sorted with
  | false =>
    rw [hsorted, if_neg Bool.false_ne_true] at horder
    exact ⟨x.elems, ⟨.refl _, fun _ => rfl⟩, hlines horder.symm⟩
  | true =>
    have hmap : List.Forall₂ (fun t (e : DumpElem) => e.text C x.name = t)
        (x.elems.map fun e => e.text C x.name) x.elems := by
      rw [List.forall₂_map_left_iff, List.forall₂_same]
      exact fun _ _ => rfl
    obtain ⟨es, hes, hes'⟩ := List.perm_comp_forall₂ hperm hmap
    refine ⟨es, ⟨hes', fun h => absurd h (by decide)⟩, hlines ?_⟩
    rw [← List.forall₂_eq_eq_eq, List.forall₂_map_left_iff]
    exact hes.flip

/-- What is printed of the sets of a dump is their lines. -/
theorem prints_lines (hmode : C.mode = .save) {xs : List SetDump}
    (hxs : ∀ x ∈ xs, x.create.options.Wide) {data : Data}
    (hlen : data.overlay.length = dsetMaxnamelen) {n : ℕ} {outs : List Str}
    (h : List.Forall₂ (SetText.Prints C.envopts.sorted) (setTexts C n data xs) outs) :
    ∃ ess, List.Forall₂ (SetDump.Ordered C.envopts.sorted) xs ess ∧ outs.flatten =
      (List.zipWith (fun x es => savedLines x.toDumpHeader es) xs ess).flatten.flatMap argvText := by
  induction xs generalizing n data outs with
  | nil =>
    obtain rfl := List.forall₂_nil_left_iff.mp h
    exact ⟨[], .nil, rfl⟩
  | cons x xs ih =>
    obtain ⟨hx, hxs⟩ := List.forall_mem_cons.mp hxs
    obtain ⟨out, outs, hout, houts, rfl⟩ := List.forall₂_cons_left_iff.mp h
    obtain ⟨es, hes, rfl⟩ := SetText.prints_lines hmode hx hlen hout
    obtain ⟨ess, hess, htext⟩ := ih hxs (SetDump.length_blob hx hlen) houts
    refine ⟨es :: ess, .cons hes hess, ?_⟩
    rw [List.flatten_cons, htext, List.zipWith_cons_cons, List.flatten_cons, List.flatMap_append]

end

/-! ### The run of a save -/

/-- What is printed of the sets of a dump is read as a script that creates every set with its
options and adds its elements with their timeouts, each once and behind its set. -/
def ReadsBack (sorted : Bool) (xs : List SetDump) (out : Str) : Prop :=
  ∃ ess, List.Forall₂ (SetDump.Ordered sorted) xs ess ∧ ∀ lineno exist,
    script lineno exist (fgetsLines out) = numbered exist lineno
      (List.zipWith (fun x es => savedItems x.toDumpHeader es) xs ess).flatten

/-- The lines of a dump, with its elements in the order in which they are printed. -/
def savedText (xs : List SetDump) (ess : List (List DumpElem)) : Str :=
  (List.zipWith (fun x es => savedLines x.toDumpHeader es) xs ess).flatten.flatMap argvText

section

variable {sorted : Bool} {xs : List SetDump} {ess : List (List DumpElem)}

/-- Every line of a dump asks for its command. -/
theorem lines_of_restorable (hxs : ∀ x ∈ xs, x.Restorable)
    (hess : List.Forall₂ (SetDump.Ordered sorted) xs ess) :
    List.Forall₂ (fun argv item => IsLine argv ∧ NoEnvopt argv ∧ ∀ lineno,
      (cmdArgs argv).bind (·.item lineno) = some (item lineno) ∧ (item lineno).cut = item lineno)
      (List.zipWith (fun x es => savedLines x.toDumpHeader es) xs ess).flatten
      (List.zipWith (fun x es => savedItems x.toDumpHeader es) xs ess).flatten := by
  induction hess with
  | nil => exact .nil
  | cons hes _ ih =>
    obtain ⟨hx, hxs⟩ := List.forall_mem_cons.mp hxs
    rw [List.zipWith_cons_cons, List.zipWith_cons_cons, List.flatten_cons, List.flatten_cons]
    exact List.rel_append (hx.lines hes) (ih hxs)

theorem text_of_prints {C : Settings} (hmode : C.mode = .save) (hxs : ∀ x ∈ xs, x.Restorable)
    {data : Data} (hlen : data.overlay.length = dsetMaxnamelen) {n : ℕ} {out : Str}
    (h : (Dump.sets xs).Prints C n data out) :
    ∃ ess, List.Forall₂ (SetDump.Ordered C.envopts.sorted) xs ess ∧ out = savedText xs ess := by
  obtain ⟨outs, rfl, houts⟩ := h
  have hxml : ¬ C.mode = .xml := by
    rw [hmode]
    decide
  have hnames : ¬ C.names = true := by
    unfold Settings.names
    rw [hmode, show (OutputMode.save != .save) = false by decide, Bool.and_false]
    exact Bool.false_ne_true
  have hopening : C.opening = [] := if_neg hxml
  have hending : C.ending = [] := if_neg hxml
  rw [if_neg hnames] at houts
  obtain ⟨ess, hess, htext⟩ := prints_lines hmode (fun x hx => (hxs x hx).options.toWide) hlen houts
  refine ⟨ess, hess, ?_⟩
  rw [hopening, hending, List.nil_append, List.append_nil, htext]
  rfl

/-- The lines of a dump can be read back. -/
theorem isLine_of_restorable (hxs : ∀ x ∈ xs, x.Restorable)
    (hess : List.Forall₂ (SetDump.Ordered sorted) xs ess) :
    ∀ argv ∈ (List.zipWith (fun x es => savedLines x.toDumpHeader es) xs ess).flatten,
      IsLine argv :=
  ((List.forall₂_and_left _ _).mp (lines_of_restorable hxs hess)).1

theorem readsBack_savedText (hxs : ∀ x ∈ xs, x.Restorable)
    (hess : List.Forall₂ (SetDump.Ordered sorted) xs ess) :
    ReadsBack sorted xs (savedText xs ess) := by
  refine ⟨ess, hess, fun lineno exist => ?_⟩
  unfold savedText
  rw [fgetsLines_text (isLine_of_restorable hxs hess)]
  exact script_text (lines_of_restorable hxs hess) lineno exist

end

theorem separated_of_restorable {C : Settings} {xs : List SetDump} (hxs : ∀ x ∈ xs, x.Restorable) :
    (Dump.sets xs).Separated C := by
  refine fun _ => (List.pairwise_of_forall_mem_list fun x hx y _ hname => ?_).isChain
  have hne : x.name.text ≠ [] := (hxs x hx).name.word.ne_nil
  exact absurd (congrArg SetName.text hname) hne

/-- A save whose text is read back: the command succeeds, and what it printed asks for the sets of
the dump. -/
structure Process.Saves (E : Env κ) (lineno : ℕ) (d d₁ : Process κ) (xs : List SetDump) : Prop where
  ends : Ends (dsetCmd E .save lineno) d
    (fun ret d' => ret = 0 ∧ ∃ strs, d'.session.out.printed = d₁.session.out.printed ++ strs ∧
      ReadsBack d₁.session.envopts.sorted xs strs.flatten)
    fun _ _ => False

/-- What a save prints of sets whose names and domains are words. -/
theorem save_text {E : Env κ} (hE : E.Succeeds) (lineno : ℕ) {d d₁ : Process κ}
    {aggregate : Bool} (hstart : startCmd E .save d = .ok (.ok aggregate) d₁) (hidle : d₁.Waiting)
    (hstale : d₁.session.stale = 0) (hmode : d₁.session.outputMode .save = .save)
    (hlen : d₁.session.data.overlay.length = dsetMaxnamelen) {nlh : Nlmsg}
    (hrequest : d₁.session.request .save = some nlh) {xs : List SetDump} {code : ℤ}
    (hanswer : (E.answer d₁.kernel nlh).1.flatten =
      (Dump.sets xs).parts.map (DumpPart.msg (d₁.settings .save)) ++ [.done code])
    (hx : (Dump.sets xs).Answers (d₁.settings .save)) (hxs : ∀ x ∈ xs, x.Restorable) :
    Ends (dsetCmd E .save lineno) d
      (fun ret d' => ret = 0 ∧ ∃ strs ess, d'.session.out.printed = d₁.session.out.printed ++ strs ∧
        List.Forall₂ (SetDump.Ordered d₁.session.envopts.sorted) xs ess ∧
        strs.flatten = savedText xs ess)
      fun _ _ => False := by
  have hsep : (Dump.sets xs).Separated (d₁.settings .save) := separated_of_restorable hxs
  have hstarts := hidle.starts .save
  have htakes := hstarts.takesAll (.sets xs) hx hsep
  have hprints := Reading.run_prints hstarts (.sets xs) hx hsep
  have hblob : d₁.session.listBlob .save = d₁.session.data := by
    unfold Session.listBlob
    exact if_neg fun h => absurd h.1 (by decide)
  have hlen' : (d₁.reading .save).data.overlay.length = dsetMaxnamelen := by
    rw [← hlen, ← hblob]
    rfl
  obtain ⟨ess, hess, hout⟩ := text_of_prints hmode hxs hlen' hprints
  apply (dsetCmd_at hE (.inr rfl) lineno hstart hidle hstale hrequest htakes hanswer).mono _
    fun _ _ h => h
  rintro ret d' ⟨hret, -, strs, hprinted, htext⟩
  exact ⟨hret, strs, ess, hprinted, hess, htext.trans hout⟩

/-- What a save prints of sets whose names and domains are words, a restore reads as these sets. -/
theorem save_read_back {E : Env κ} (hE : E.Succeeds) (lineno : ℕ) {d d₁ : Process κ}
    {aggregate : Bool} (hstart : startCmd E .save d = .ok (.ok aggregate) d₁) (hidle : d₁.Waiting)
    (hstale : d₁.session.stale = 0) (hmode : d₁.session.outputMode .save = .save)
    (hlen : d₁.session.data.overlay.length = dsetMaxnamelen) {nlh : Nlmsg}
    (hrequest : d₁.session.request .save = some nlh) {xs : List SetDump} {code : ℤ}
    (hanswer : (E.answer d₁.kernel nlh).1.flatten =
      (Dump.sets xs).parts.map (DumpPart.msg (d₁.settings .save)) ++ [.done code])
    (hx : (Dump.sets xs).Answers (d₁.settings .save)) (hxs : ∀ x ∈ xs, x.Restorable) :
    Process.Saves E lineno d d₁ xs := by
  constructor
  apply (save_text hE lineno hstart hidle hstale hmode hlen hrequest hanswer hx hxs).mono _
    fun _ _ h => h
  rintro ret d' ⟨hret, strs, ess, hprinted, hess, htext⟩
  refine ⟨hret, strs, hprinted, ?_⟩
  rw [htext]
  exact readsBack_savedText hxs hess

/-! ### Two sets -/

theorem smallHeader_admitted (name : SetName) (elements : ℕ) :
    (smallHeader name elements).create.options.Admitted where
  hashsize := fun v hv => by
    obtain rfl := Option.some.inj hv
    decide
  maxelem := fun v hv => by
    obtain rfl := Option.some.inj hv
    decide
  timeout := fun v hv => by cases hv
  gc := fun v hv => by cases hv
  admits := fun v hv => by cases hv

theorem smallDump_restorable {name : SetName} (hname : Plain name.text) :
    ∀ x ∈ (smallDump name).setDumps, x.Restorable := by
  have helem {c : UInt8} (hc : c = 97 ∨ c = 98) : Plain [c] ∧ elemSeparator [c] = false := by
    rcases hc with rfl | rfl <;> exact ⟨plain_of_all (by decide) (by decide) (by decide), by decide⟩
  intro x hx
  rcases List.mem_cons.mp hx with rfl | hx
  · refine ⟨hname, smallHeader_admitted _ _, fun e he => ?_, fun e he t ht => ?_⟩
    · rcases List.mem_cons.mp he with rfl | he
      · exact helem (.inr rfl)
      · rw [List.mem_singleton.mp he]
        exact helem (.inl rfl)
    · rcases List.mem_cons.mp he with rfl | he
      · cases ht
      · rw [List.mem_singleton.mp he] at ht
        cases ht
  · rw [List.mem_singleton.mp hx]
    exact ⟨plain_of_all (by decide) (by decide) (by decide), smallHeader_admitted _ _,
      fun e he => absurd he List.not_mem_nil, fun e he => absurd he List.not_mem_nil⟩

theorem zero_notMem_r : (0 : UInt8) ∉ bytes "r" := by decide

theorem length_r : (bytes "r").length < dsetMaxnamelen := by decide

theorem save_read_back_two : Process.Saves (smallEnv ⟨bytes "r", zero_notMem_r, length_r⟩) 0
    sortedProcess sortedProcess (smallDump ⟨bytes "r", zero_notMem_r, length_r⟩).setDumps := by
  obtain ⟨nlh, hrequest⟩ := sortedProcess_request
  have hstale : sortedProcess.session.stale = 0 := rfl
  have hname : Plain (bytes "r") := plain_of_all (by decide) (by decide) (by decide)
  refine save_read_back (smallEnv_succeeds _) 0 (sortedProcess_start _) sortedProcess_waiting hstale
    rfl rfl hrequest (smallEnv_answer _ nlh) ?_ (smallDump_restorable hname)
  exact .cons_cons (by decide) (.singleton _)

end Dset.User
