import Dset.User.Dump
import Dset.User.Truncation
import Mathlib.Data.List.Permutation

/-! What `list` and `save` print. The messages of a dump are read one after the other; each
changes the data blob, the set the listing is at and the sheet the output buffer stands for.
From the sheet at the end follows what was printed: every set with its header and its
elements, in order of arrival or sorted. -/

namespace Dset.User

open Dset.Lib Dset.Core

variable {κ : Type} {E : Env κ} {d : Process κ}

/-! ### The texts have no zero bytes -/

theorem clean_append {l l' : List Str} (h : Clean l) (h' : Clean l') : Clean (l ++ l') := by
  intro t ht
  rcases List.mem_append.mp ht with ht | ht
  · exact h t ht
  · exact h' t ht

theorem clean_cons {t : Str} {l : List Str} (h : (0 : UInt8) ∉ t) (h' : Clean l) :
    Clean (t :: l) := by
  intro u hu
  rcases List.mem_cons.mp hu with rfl | hu
  · exact h
  · exact h' u hu

theorem clean_nil : Clean [] := fun _ h => absurd h List.not_mem_nil

theorem clean_of_append {t u : Str} (h : (0 : UInt8) ∉ t) (h' : (0 : UInt8) ∉ u) :
    (0 : UInt8) ∉ t ++ u := by
  rw [List.mem_append]
  exact not_or.mpr ⟨h, h'⟩

theorem zero_notMem_numberText (n : ℕ) : (0 : UInt8) ∉ numberText n := by
  intro h
  obtain ⟨c, hc, hzero⟩ := List.mem_map.mp h
  have hdigit := Nat.isDigit_of_mem_toDigits (by decide) (by decide) hc
  simp only [Char.isDigit, Bool.and_eq_true, decide_eq_true_eq, ge_iff_le,
    UInt32.le_iff_toNat_le] at hdigit
  change 48 ≤ c.toNat ∧ c.toNat ≤ 57 at hdigit
  have hval := congrArg UInt8.toNat hzero
  rw [UInt8.toNat_ofNat', Nat.mod_eq_of_lt (by omega), UInt8.toNat_zero] at hval
  omega

theorem optionTexts_clean (mode : OutputMode) {name : String} (o : Option ℕ)
    (hname : ∀ a b : String, (0 : UInt8) ∉ bytes a → (0 : UInt8) ∉ bytes b →
      (0 : UInt8) ∉ bytes (a ++ name ++ b)) : Clean (optionTexts mode name o) := by
  cases o with
  | none => exact clean_nil
  | some v =>
    have hv := zero_notMem_numberText v
    cases mode with
    | xml =>
      exact clean_cons (hname _ _ (by decide) (by decide)) (clean_cons hv
        (clean_cons (hname _ _ (by decide) (by decide)) clean_nil))
    | none | plain | save =>
      exact clean_cons (hname _ _ (by decide) (by decide)) (clean_cons hv clean_nil)

theorem bytes_append (a b : String) : bytes (a ++ b) = bytes a ++ bytes b := by
  simp [bytes]

/-- The name of an option between two other texts. -/
theorem zero_notMem_between {name : String} (h : (0 : UInt8) ∉ bytes name) (a b : String)
    (ha : (0 : UInt8) ∉ bytes a) (hb : (0 : UInt8) ∉ bytes b) :
    (0 : UInt8) ∉ bytes (a ++ name ++ b) := by
  rw [bytes_append, bytes_append]
  exact clean_of_append (clean_of_append ha h) hb

theorem adtTexts_clean (mode : OutputMode) (name : SetName) {domain : Str}
    (hdomain : (0 : UInt8) ∉ domain) (timeout : Option ℕ) :
    Clean (adtTexts mode name domain timeout) := by
  unfold adtTexts
  refine clean_append (clean_append (clean_append (clean_append ?_ ?_) ?_) ?_) ?_
  · cases mode
    · exact clean_nil
    · exact clean_nil
    · refine clean_cons ?_ clean_nil
      exact clean_of_append (clean_of_append (by decide) name.notMem) (by decide)
    · exact clean_cons (by decide) clean_nil
  · exact clean_cons hdomain clean_nil
  · split
    · exact clean_cons (by decide) clean_nil
    · exact clean_nil
  · exact optionTexts_clean mode _ (zero_notMem_between (by decide))
  · split <;> exact clean_cons (by decide) clean_nil

theorem headerTexts_clean (mode : OutputMode) (listHeader : Bool) (data : Data) :
    Clean (headerTexts mode listHeader data) := by
  have hnumber (o : Option ℕ) : (0 : UInt8) ∉ numberText (o.getD 0) := zero_notMem_numberText _
  unfold headerTexts
  cases mode with
  | none => exact clean_nil
  | save => exact clean_cons (by decide) clean_nil
  | plain =>
    refine clean_append (clean_append ?_ ?_) ?_
    · exact clean_cons (by decide) (clean_cons (hnumber _) (clean_cons (by decide)
        (clean_cons (hnumber _) clean_nil)))
    · split
      · exact clean_cons (by decide) (clean_cons (hnumber _) clean_nil)
      · exact clean_nil
    · split <;> exact clean_cons (by decide) clean_nil
  | xml =>
    refine clean_append (clean_append ?_ ?_) ?_
    · exact clean_cons (by decide) (clean_cons (hnumber _) (clean_cons (by decide)
        (clean_cons (hnumber _) (clean_cons (by decide) clean_nil))))
    · split
      · exact clean_cons (by decide) (clean_cons (hnumber _) (clean_cons (by decide) clean_nil))
      · exact clean_nil
    · split <;> exact clean_cons (by decide) clean_nil

theorem createTexts_clean (mode : OutputMode) (printedSet : ℕ) (listHeader : Bool)
    (name : SetName) (data : Data) :
    Clean (createTexts mode printedSet listHeader name dsetHashDomain0 data) := by
  have hoption {name : String} (h : (0 : UInt8) ∉ bytes name) (o : Option ℕ) :
      Clean (optionTexts mode name o) := optionTexts_clean mode o (zero_notMem_between h)
  have htype : (0 : UInt8) ∉ dsetHashDomain0.name.text := by decide
  have hrev : (0 : UInt8) ∉ numberText dsetHashDomain0.revision := zero_notMem_numberText _
  unfold createTexts createOptionTexts
  refine clean_append (clean_append ?_ ?_) (headerTexts_clean mode listHeader data)
  · cases mode with
    | none => exact clean_nil
    | save =>
      refine clean_cons ?_ clean_nil
      exact clean_of_append (clean_of_append (clean_of_append (by decide) name.notMem) (by decide))
        htype
    | plain =>
      refine clean_cons ?_ clean_nil
      have hfirst : (0 : UInt8) ∉ (if printedSet ≠ 0 then bytes "\n" else []) := by
        split <;> decide
      exact clean_of_append (clean_of_append (clean_of_append (clean_of_append (clean_of_append
        (clean_of_append (clean_of_append hfirst (by decide)) name.notMem) (by decide)) htype)
          (by decide)) hrev) (by decide)
    | xml =>
      refine clean_cons ?_ clean_nil
      exact clean_of_append (clean_of_append (clean_of_append (clean_of_append (clean_of_append
        (clean_of_append (by decide) name.notMem) (by decide)) htype) (by decide)) hrev) (by decide)
  · exact clean_append (clean_append (clean_append (hoption (by decide) _) (hoption (by decide) _))
      (hoption (by decide) _)) (hoption (by decide) _)

/-! ### The code reads as the reading does -/

section

variable {base : List Str} {C : Settings} {r : Reading} {name : SetName}
  {tg : Prog κ (Option DsetType)} {cmd : Cmd}

/-- The process is where the reading is. -/
structure At (base : List Str) (C : Settings) (r : Reading) (d : Process κ) : Prop where
  data : d.session.data = r.data
  printedSet : d.session.printedSet = r.printedSet
  saved : d.session.savedSetname = r.saved
  sort : d.session.sort = r.sort
  shows : Shows base [] r.sheet d.session.out
  waiting : r.sheet.waiting ≠ [] → r.sort = true ∧ C.envopts.sorted = true
  cmd : d.session.cmd = C.cmd
  protocol : d.session.protocol = C.protocol
  mode : d.session.mode = C.mode
  envopts : d.session.envopts = C.envopts
  known : d.kernelCheck ≠ .mismatch

theorem At.unsorted (h : At base C r d) (hsort : d.session.sort = false) : r.sheet.waiting = [] := by
  by_contra hne
  rw [h.sort, (h.waiting hne).1] at hsort
  cases hsort

theorem At.shown {s : Sheet} {d' : Process κ} (h : At base C r d) (h' : Shown base [] s d d')
    (hwaiting : s.waiting ≠ [] → r.sort = true ∧ C.envopts.sorted = true) :
    At base C { r with sheet := s } d' := by
  obtain ⟨out, calls, hshows, rfl⟩ := h'
  exact { h with shows := hshows, waiting := hwaiting }

theorem At.mapData (h : At base C r d) (f : Data → Data) :
    At base C { r with data := f r.data } (d.mapSession fun s => { s with data := f s.data }) :=
  { h with data := congrArg f h.data }

theorem pushOut_at (hE : E.Succeeds) (h : At base C r d) (hnil : r.sheet.waiting = []) :
    Ends (pushOut E) d (fun ret d' => ret = mnlCbOk ∧ At base C r d') fun _ _ => False := by
  unfold pushOut
  refine (callOutfn_shows hE h.shows hnil).bind (fun ok d' h' => ?_) fun _ _ h => h
  obtain ⟨rfl, hshown, -⟩ := h'
  exact ⟨rfl, h.shown hshown fun hne => absurd hnil hne⟩

theorem waiting_entry {s : Sheet} {sort sorted : Bool} (hsort : sort = sorted)
    (h : s.waiting ≠ [] → sort = true ∧ sorted = true) (t : Str) :
    (s.entry sort t).waiting ≠ [] → sort = true ∧ sorted = true := by
  cases sort with
  | true => exact fun _ => ⟨rfl, hsort.symm⟩
  | false =>
    intro hne
    have hnil : s.waiting = [] := by
      by_contra hs
      exact absurd (h hs).1 Bool.false_ne_true
    exact absurd (Sheet.waiting_put_of_nil hnil t) hne

theorem storedType_at (htype : d.session.data.test .type = true)
    (htyped : d.session.data.type = some dsetHashDomain0) :
    Ends (storedType tg) d (fun type d' => type = some dsetHashDomain0 ∧ d' = d)
      fun _ _ => False := by
  simp only [storedType, ends_bind, ends_session, ends_ite, htype, ends_pure]
  exact ⟨fun _ => ⟨htyped, trivial⟩, fun h => absurd trivial h⟩

theorem adtAttr2data_at (e : DumpElem) :
    Ends (adtAttr2data e.nla) d
      (fun ok d' => ok = true ∧
        d' = d.mapSession fun s => { s with data := e.nla.store s.data }) fun _ _ => False := by
  have hshort : ¬ (e.nla.domain.any (256 ≤ ·.length)) = true := by
    have := e.length_lt
    simp [DumpElem.nla, this]
  simp only [adtAttr2data, ends_ite, ends_bind, ends_dsetErr, ends_pure, ends_modifyData]
  exact ⟨fun h => absurd h hshort, fun _ => ⟨trivial, trivial⟩⟩

/-- An element, behind what was stored of the last one. -/
theorem listAdt_at (hE : E.Succeeds) (hin : r.InSet C name) (e : DumpElem)
    (h : At base C { r with data := r.data.flagsUnset dsetAdtFlags } d) :
    Ends (listAdt E tg e.nla) d
      (fun ret d' => ret = some mnlCbOk ∧ At base C (r.elem C name e) d') fun _ _ => False := by
  have htype : d.session.data.test .type = true := by
    rw [h.data, Data.test_flagsUnset, hin.type]
    decide
  have htyped : d.session.data.type = some dsetHashDomain0 := by
    rw [h.data]
    exact hin.typed
  unfold listAdt
  refine (storedType_at htype htyped).bind (fun type d₁ h₁ => ?_) fun _ _ h => h
  obtain ⟨rfl, rfl⟩ := h₁
  simp only [Option.isNone_some, Bool.false_eq_true, if_false]
  refine (adtAttr2data_at e).bind (fun ok d₂ h₂ => ?_) fun _ _ h => h
  obtain ⟨rfl, rfl⟩ := h₂
  simp only [Bool.not_true, Bool.false_eq_true, if_false, DumpElem.nla, Option.isNone_some,
    Bool.false_and]
  have h' : At base C { r with data := e.blob r.data } _ := h.mapData e.nla.store
  -- the texts are made of what the blob holds of the element
  have hsetname : (e.nla.store d₁.session.data).getSetname = some name := by
    rw [h.data]
    exact (e.getSetname_blob r.data).trans hin.setname
  have hdomain : (e.nla.store d₁.session.data).getDomain = some e.domain := by
    rw [h.data]
    exact e.getDomain_blob r.data
  have htimeout : (e.nla.store d₁.session.data).getTimeout = e.timeout.map UInt32.toNat := by
    rw [h.data]
    exact e.getTimeout_blob r.data
  have hprint := printAdt_shows hE h'.shows h'.unsorted hsetname hdomain
    (adtTexts_short _ _ e.length_lt getTimeout_lt) (adtTexts_clean _ _ e.notMem _)
  simp only [ends_bind, ends_ite, ends_pure]
  refine hprint.mono (fun ok d₃ h₃ => ?_) fun _ _ h => h
  obtain ⟨rfl, hshown⟩ := h₃
  refine ⟨fun _ => ⟨trivial, ?_⟩, fun h => absurd rfl h⟩
  have htext : (adtTexts d₁.session.mode name e.domain
      (e.nla.store d₁.session.data).getTimeout).flatten = e.text C name := by
    rw [htimeout, h.mode]
    rfl
  refine h'.shown ?_ (waiting_entry hin.sort h.waiting (e.text C name))
  rw [← htext, ← h.sort]
  exact hshown

theorem listElements_at (hE : E.Succeeds) (hin : r.InSet C name) (h : At base C r d)
    (es : List DumpElem) :
    Ends (listElements E tg cmd (es.map fun e => some e.nla)) d
      (fun ret d' => ret = some mnlCbOk ∧ At base C (r.elems C name es) d') fun _ _ => False := by
  induction es generalizing r d with
  | nil =>
    simp only [List.map_nil, listElements, ends_bind, ends_session, ends_ite, ends_pure]
    refine ⟨fun _ => ⟨trivial, h⟩, fun hsort => ?_⟩
    have hnil := h.unsorted (Bool.eq_false_iff.mpr hsort)
    refine (pushOut_at hE h hnil).mono (fun ret d' h' => ?_) fun _ _ h => h
    exact ⟨congrArg some h'.1, h'.2⟩
  | cons e es ih =>
    simp only [List.map_cons, listElements, ends_bind, ends_modifyData, ends_ite, ends_pure]
    refine (listAdt_at hE hin e (h.mapData (·.flagsUnset dsetAdtFlags))).mono
      (fun ret d' h' => ?_) fun _ _ h => h
    obtain ⟨rfl, h'⟩ := h'
    exact ⟨fun _ => ih (hin.elem e) h', fun h => absurd rfl h⟩

/-! ### Headers and the ends of sets -/

theorem doneTexts_flatten {t : Session} (hmode : t.mode = C.mode) (henvopts : t.envopts = C.envopts)
    (callbackDone : Bool) : (doneTexts t callbackDone).flatten =
      C.footer t.savedSetname ++ if callbackDone then C.ending else [] := by
  unfold doneTexts Settings.footer Settings.ending
  rw [hmode, henvopts, List.flatten_append]
  congr 1
  · split
    · split <;> exact List.append_nil _
    · rfl
  · cases callbackDone
    · rfl
    · by_cases hxml : C.mode = .xml
      · simp [hxml]
      · simp [hxml]

theorem printSetDone_at (hE : E.Succeeds) (h : At base C r d) (callbackDone : Bool) :
    Ends (printSetDone E callbackDone) d
      (fun ret d' => ret = some mnlCbStop ∧ d'.session.out.buf = [] ∧ At base C { r with
        sheet := r.sheet.close.put (C.footer r.saved ++ if callbackDone then C.ending else []) } d')
      fun _ _ => False := by
  refine (printSetDone_shows hE h.shows h.unsorted callbackDone).mono (fun ret d' h' => ?_)
    fun _ _ h => h
  obtain ⟨hret, hshown, hnil⟩ := h'
  rw [doneTexts_flatten h.mode h.envopts, h.saved] at hshown
  exact ⟨hret, hnil, h.shown hshown fun hne => absurd (Sheet.waiting_put_of_nil rfl _) hne⟩

/-- The set before is closed where another one starts. -/
theorem closeSaved_at (hE : E.Succeeds) (h : At base C r d)
    (hname : name ≠ r.saved ∨ r.saved = emptyName) :
    Ends (closeSaved E name) d (fun ok d' => ok = true ∧ At base C (r.closed C) d')
      fun _ _ => False := by
  simp only [closeSaved, ends_bind, ends_session, ends_ite, ends_pure]
  rw [h.saved]
  refine ⟨fun hclose => ?_, fun hclose => ⟨trivial, ?_⟩⟩
  · refine (printSetDone_at hE h false).mono (fun ret d' h' => ?_) fun _ _ h => h
    obtain ⟨rfl, -, h'⟩ := h'
    refine ⟨rfl, ?_⟩
    rw [Reading.closed, if_neg hclose.2, Reading.closing]
    simpa using h'
  · have hsaved : r.saved = emptyName := by
      by_contra hne
      exact hclose ⟨hname.resolve_right hne, hne⟩
    rw [Reading.closed, if_pos hsaved]
    exact h

theorem closeSaved_same (hname : name = d.session.savedSetname) :
    Ends (closeSaved E name) d (fun ok d' => ok = true ∧ d' = d) fun _ _ => False := by
  simp only [closeSaved, ends_bind, ends_session, ends_ite, ends_pure]
  exact ⟨fun h => absurd hname h.1, fun _ => ⟨trivial, trivial⟩⟩

theorem closed_eq : r.closed C = { r with sheet := (r.closed C).sheet } := by
  unfold Reading.closed
  split <;> rfl

theorem waiting_put {s : Sheet} {t : Str} (h : (s.put t).waiting ≠ []) : s.waiting ≠ [] :=
  fun hnil => h (Sheet.waiting_put_of_nil hnil t)

theorem dsetTypeCheck_at (h : At base C r d) (x : DumpHeader) (data : Data)
    (hdata : r.data = x.create.store ((data.setSetname x.name).startHeader x.typename
      dsetHashDomain0.revision)) :
    Ends dsetTypeCheck d
      (fun type d' => type = some dsetHashDomain0 ∧
        d' = d.mapSession fun s => { s with data := s.data.setType dsetHashDomain0 })
      fun _ _ => False := by
  obtain ⟨htest, -, htype, htypename, hrevision⟩ := store_create_keeps x.create
    ((data.setSetname x.name).startHeader x.typename dsetHashDomain0.revision)
  have hgetTypename : d.session.data.getTypename = some x.typename := by
    rw [h.data, hdata]
    simp only [Data.getTypename, htest .type (by decide), htest .typename (by decide), htypename]
    have hoff : (Data.startHeader (data.setSetname x.name) x.typename
        dsetHashDomain0.revision).test .type = false := by
      simp [Data.startHeader, dsetCreateFlags]
    rw [if_neg (Bool.eq_false_iff.mp hoff)]
    exact if_pos (by simp [Data.startHeader])
  have hgetRevision : d.session.data.getRevision = some dsetHashDomain0.revision := by
    rw [h.data, hdata]
    simp only [Data.getRevision, htest .revision (by decide), hrevision]
    exact if_pos (by simp [Data.startHeader])
  refine (dsetTypeCheck_ends hgetTypename hgetRevision).mono (fun type d' h' => ?_) fun _ _ h => h
  rcases h' with ⟨hsome, -, hd⟩ | ⟨-, hbad, -⟩
  · exact ⟨hsome, hd⟩
  · have hknown : (d.kernelCheck != .mismatch) = true := bne_iff_ne.mpr h.known
    rw [hknown, x.typed, beq_self_eq_true] at hbad
    cases hbad

/-- A header is printed, behind the end of the set before. -/
theorem listCreate_at (hE : E.Succeeds) (x : DumpHeader)
    (h : At base C { r.closed C with
      data := (r.data.setSetname x.name).startHeader x.typename dsetHashDomain0.revision } d) :
    Ends (listCreate E x.create) d
      (fun ret d' => ret = some mnlCbOk ∧ At base C { r.header C x with saved := r.saved } d')
      fun _ _ => False := by
  have hstored := h.mapData x.create.store
  simp only [listCreate, ends_bind, ends_modifyData]
  refine (dsetTypeCheck_at hstored x r.data rfl).mono (fun type d₁ h₁ => ?_) fun _ _ h => h
  obtain ⟨rfl, rfl⟩ := h₁
  have hset := hstored.mapData (·.setType dsetHashDomain0)
  -- the header is made of the blob with all that the message stored
  have hblob : (x.create.store d.session.data).setType dsetHashDomain0 = x.blob r.data := hset.data
  have hname : (x.blob r.data).getSetname = some x.name := x.getSetname_blob _
  have hprinted : d.session.printedSet = r.printedSet := by
    rw [h.printedSet, closed_eq]
  have hsaved : (r.closed C).saved = r.saved := by rw [closed_eq]
  have hprint := printAll_shows hE hset.shows (fun hsort => ⟨hset.unsorted hsort, rfl⟩)
    (createTexts_short C.mode r.printedSet C.envopts.listHeader x.name (x.blob r.data))
    (createTexts_clean _ _ _ _ _)
  simp only [ends_bind, ends_session, ends_ite, ends_pure, ends_modifySession, hblob, hname,
    hprinted, h.mode, h.envopts]
  refine hprint.mono (fun ok d₂ h₂ => ?_) fun _ _ h => h
  obtain ⟨rfl, hshown⟩ := h₂
  refine ⟨fun _ => ⟨trivial, ?_⟩, fun h => absurd rfl h⟩
  obtain ⟨out, calls, hshows, rfl⟩ := hshown
  have hhash : (bytes "hash:").isPrefixOf dsetHashDomain0.name.text = true := by decide
  refine { hset with
    data := hblob, printedSet := congrArg (· + 1) hprinted, saved := hset.saved.trans hsaved
    sort := ?_, shows := hshows, waiting := fun hne => ?_ }
  · show ((bytes "hash:").isPrefixOf dsetHashDomain0.name.text && d.session.envopts.sorted) = _
    rw [hhash, Bool.true_and, h.envopts]
    rfl
  · have hsorted := (h.waiting (waiting_put hne)).2
    exact ⟨hsorted, hsorted⟩

theorem listHeader_at (hE : E.Succeeds) {nla : Nla} (x : DumpHeader)
    (h : At base C { r.closed C with data := r.data.setSetname x.name } d)
    (htypename : nla.typename = some x.typename) (hfamily : nla.family = some x.family)
    (hrevision : nla.revision = some dsetHashDomain0.revision) :
    Ends (listHeader E cmd nla (some x.create)) d
      (fun ret d' => ret = some mnlCbOk ∧ At base C (r.header C x) d') fun _ _ => False := by
  simp only [listHeader, htypename, hfamily, hrevision, ends_bind, ends_modifyData, ends_ite,
    ends_modifySession, ends_pure]
  refine (listCreate_at hE x (h.mapData (·.startHeader x.typename dsetHashDomain0.revision))).mono
    (fun ret d' h' => ?_) fun _ _ h => h
  obtain ⟨rfl, h'⟩ := h'
  refine ⟨fun _ => ⟨trivial, ?_⟩, fun h => absurd rfl h⟩
  have hname : d'.session.data.setname = x.name := by
    rw [h'.data]
    have hget := (Reading.inSet_header (C := C) (r := r) x).setname
    rw [Data.getSetname] at hget
    split at hget
    · exact Option.some.inj hget
    · cases hget
  exact { h' with saved := hname }

/-! ### Messages -/

def DumpPart.nla (C : Settings) (p : DumpPart) : Nla where
  protocol := some C.protocol
  setname := match p with
    | .header h _ => some h.name
    | .more name _ | .name name => some name
  typename := match p with
    | .header h _ => some h.typename
    | _ => none
  revision := match p with
    | .header _ _ => some dsetHashDomain0.revision
    | _ => none
  family := match p with
    | .header h _ => some h.family
    | _ => none
  protocolMin := none
  data := match p with
    | .header h _ => some (some h.create)
    | _ => none
  adt := match p with
    | .header _ first => first.map fun es => es.map fun e => some e.nla
    | .more _ es => some (es.map fun e => some e.nla)
    | .name _ => none

theorem names_iff (h : At base C r d) :
    (d.session.envopts.listSetname = true ∧ d.session.mode ≠ .save) ↔ C.names = true := by
  rw [h.envopts, h.mode, Settings.names, Bool.and_eq_true, bne_iff_ne]

/-- The message of a header, behind the end of the set before. -/
theorem listParts_header_at (hE : E.Succeeds) (x : DumpHeader) (first : Option (List DumpElem))
    (h : At base C { r.closed C with data := r.data.setSetname x.name } d)
    (hnil : first = none → (r.closed C).sheet.waiting = []) :
    Ends (listParts E tg cmd (DumpPart.nla C (.header x first))) d
      (fun ret d' => ret = some mnlCbOk ∧ At base C (r.part C (.header x first)) d')
      fun _ _ => False := by
  unfold listParts
  refine (listHeader_at hE x h rfl rfl rfl).bind (fun ret d₁ h₁ => ?_) fun _ _ h => h
  obtain ⟨rfl, h₁⟩ := h₁
  rw [if_pos rfl]
  cases first with
  | none =>
    have hput := Sheet.waiting_put_of_nil (hnil rfl) (x.text C r.printedSet r.data)
    refine (pushOut_at hE h₁ hput).bind (fun ret d' h' => ?_) fun _ _ h => h
    exact ⟨congrArg some h'.1, h'.2⟩
  | some es => exact listElements_at hE (Reading.inSet_header x) h₁ es

theorem listName_at (hE : E.Succeeds) (h : At base C r d) (hnil : r.sheet.waiting = []) :
    Ends (listName E name) d
      (fun ret d' => ret = some mnlCbOk ∧
        At base C { r with sheet := r.sheet.put (C.nameText name) } d') fun _ _ => False := by
  have hshort : (C.nameText name).length < dsetOutbuflen := by
    have hname := name.length_lt
    have hmax : dsetMaxnamelen = 32 := rfl
    have hb : dsetOutbuflen = 8192 := rfl
    have h1 : (bytes "<dset name=\"").length = 12 := by decide
    have h2 : (bytes "\"/>\n").length = 4 := by decide
    have h3 : (bytes "\n").length = 1 := by decide
    unfold Settings.nameText
    split <;> simp only [List.length_append] <;> omega
  have hclean : (0 : UInt8) ∉ C.nameText name := by
    unfold Settings.nameText
    split
    · exact clean_of_append (clean_of_append (by decide) name.notMem) (by decide)
    · exact clean_of_append name.notMem (by decide)
  have hprint := safeSnprintf_shows hE h.shows (fun _ => ⟨hnil, rfl⟩) hshort hclean
  unfold Settings.nameText at hprint ⊢
  simp only [listName, ends_bind, ends_session, ends_ite, ends_pure, h.mode]
  refine hprint.mono (fun ok d₁ h₁ => ?_) fun _ _ h => h
  obtain ⟨rfl, hshown⟩ := h₁
  have hput := Sheet.waiting_put_of_nil hnil (C.nameText name)
  refine ⟨fun _ => ?_, fun h => absurd rfl h⟩
  refine (pushOut_at hE (h.shown hshown fun hne => absurd hput hne) hput).mono
    (fun ret d' h' => ?_) fun _ _ h => h
  exact ⟨congrArg some h'.1, h'.2⟩

theorem listSet_header_at (hE : E.Succeeds) (hnames : C.names = false) {x : DumpHeader}
    {first : Option (List DumpElem)} (hp : r.TakesPart C (.header x first))
    (h : At base C (r.setName x.name) d) :
    Ends (listSet E tg cmd x.name (DumpPart.nla C (.header x first))) d
      (fun ret d' => ret = some mnlCbOk ∧ At base C (r.part C (.header x first)) d')
      fun _ _ => False := by
  obtain ⟨hname, hwaiting⟩ := hp
  have hextra : ¬ (x.name = d.session.savedSetname ∧ d.session.data.test .type = true ∧
      (DumpPart.nla C (.header x first)).data.isSome = true) := by
    rintro ⟨heq, htype, -⟩
    rw [h.data, Reading.setName, Data.test_setSetname] at htype
    rcases hname with hne | ⟨-, hoff⟩
    · exact hne (heq.trans h.saved)
    · rw [hoff] at htype
      cases htype
  have hclosed : (r.setName x.name).closed C =
      { r.closed C with data := r.data.setSetname x.name } := by
    unfold Reading.closed Reading.setName Reading.closing
    split <;> rfl
  simp only [listSet, ends_bind, ends_session, ends_ite, names_iff h, hnames]
  refine ⟨fun h => absurd h Bool.false_ne_true, fun _ => ⟨fun h => absurd h hextra,
    fun _ => ⟨fun hmissing => absurd hmissing.2 (by simp [DumpPart.nla]), fun _ => ?_⟩⟩⟩
  refine (closeSaved_at hE h (hname.imp_right fun hempty => hempty.1)).mono (fun ok d₁ h₁ => ?_)
    fun _ _ h => h
  obtain ⟨rfl, h₁⟩ := h₁
  rw [hclosed] at h₁
  exact ⟨fun _ => listParts_header_at hE x first h₁ hwaiting, fun h => absurd rfl h⟩

theorem listSet_more_at (hE : E.Succeeds) (hnames : C.names = false) {es : List DumpElem}
    (hin : r.InSet C name) (h : At base C (r.setName name) d) :
    Ends (listSet E tg cmd name (DumpPart.nla C (.more name es))) d
      (fun ret d' => ret = some mnlCbOk ∧ At base C (r.part C (.more name es)) d')
      fun _ _ => False := by
  have hsame : name = d.session.savedSetname := (h.saved.trans hin.saved).symm
  simp only [listSet, ends_bind, ends_session, ends_ite, names_iff h, hnames]
  refine ⟨fun h => absurd h Bool.false_ne_true, fun _ =>
    ⟨fun hextra => absurd hextra.2.2 (by simp [DumpPart.nla]), fun _ =>
      ⟨fun hmissing => absurd hsame hmissing.1, fun _ => ?_⟩⟩⟩
  refine (closeSaved_same hsame).mono (fun ok d₁ h₁ => ?_) fun _ _ h => h
  obtain ⟨rfl, rfl⟩ := h₁
  exact ⟨fun _ => listElements_at hE hin.setName h es, fun h => absurd rfl h⟩

theorem listSet_at (hE : E.Succeeds) {p : DumpPart} (hp : r.Takes C p)
    (h : At base C (r.setName p.setname) d) :
    Ends (listSet E tg cmd p.setname (p.nla C)) d
      (fun ret d' => ret = some mnlCbOk ∧ At base C (r.step C p) d') fun _ _ => False := by
  unfold Reading.Takes at hp
  unfold Reading.step
  cases hnames : C.names with
  | true =>
    have hnil : r.sheet.waiting = [] := (if_pos hnames).mp hp
    simp only [listSet, ends_bind, ends_session, ends_ite, names_iff h, hnames]
    exact ⟨fun _ => listName_at hE h hnil, fun h => absurd trivial h⟩
  | false =>
    rw [if_neg (Bool.eq_false_iff.mp hnames)] at hp
    cases p with
    | header x first => exact listSet_header_at hE hnames hp h
    | more name es => exact listSet_more_at hE hnames hp h
    | name name => exact hp.elim

theorem callbackList_at (hE : E.Succeeds) (h : At base C r d) {p : DumpPart} (hp : r.Takes C p) :
    Ends (callbackList E tg cmd (p.nla C)) d
      (fun ret d' => ret = mnlCbOk ∧ At base C (r.step C p) d') fun _ _ => False := by
  have hsetname : (p.nla C).setname = some p.setname := by cases p <;> rfl
  simp only [callbackList, hsetname, ends_bind, ends_modifyData]
  refine (listSet_at hE hp (h.mapData (·.setSetname p.setname))).mono (fun ret d' h' => ?_)
    fun _ _ h => h
  obtain ⟨rfl, h'⟩ := h'
  exact ⟨rfl, h'⟩

def DumpPart.msg (C : Settings) (p : DumpPart) : KMsg :=
  .data .list true (some (p.nla C))

theorem callbacks_part_at (hE : E.Succeeds) (hcmd : C.cmd = .list ∨ C.cmd = .save)
    (h : At base C r d) {p : DumpPart} (hp : r.Takes C p) :
    Ends (callbacks E (p.msg C)) d
      (fun ret d' => ret = mnlCbOk ∧ At base C (r.step C p) d') fun _ _ => False := by
  have hlist (cmd : Cmd) : Ends (callbackList E (adtTypeGet E) cmd (p.nla C)) d
      (fun ret d' => ret = mnlCbOk ∧ At base C (r.step C p) d') fun _ _ => False :=
    callbackList_at hE h hp
  simp only [callbacks, DumpPart.msg, callback, callbackData, ends_bind, ends_session,
    h.cmd]
  rcases hcmd with hcmd | hcmd
  all_goals
    rw [hcmd]
    simpa [DumpPart.nla, h.protocol] using hlist _

theorem callbacks_done_at (hE : E.Succeeds) (hcmd : C.cmd = .list ∨ C.cmd = .save)
    (h : At base C r d) (code : ℤ) :
    Ends (callbacks E (.done code)) d
      (fun ret d' => ret = mnlCbStop ∧ d'.session.out.buf = [] ∧
        At base C { r with sheet := r.finish C } d') fun _ _ => False := by
  have hcmd' : d.session.cmd = .list ∨ d.session.cmd = .save := by
    rw [h.cmd]
    exact hcmd
  simp only [callbacks, callback, callbackDone, ends_bind, ends_session, ends_ite, ends_pure]
  refine ⟨fun _ => (printSetDone_at hE h true).mono (fun ret d' h' => ?_) fun _ _ h => h,
    fun hne => absurd hcmd' hne⟩
  obtain ⟨rfl, hbuf, h'⟩ := h'
  exact ⟨rfl, hbuf, h'⟩

/-- The whole answer is read as the reading says. -/
theorem mnlRecv_at (hE : E.Succeeds) (hcmd : C.cmd = .list ∨ C.cmd = .save) (h : At base C r d)
    {parts : List DumpPart} (hparts : r.TakesAll C parts) {code : ℤ}
    {datagrams : List (List KMsg)}
    (hanswer : datagrams.flatten = parts.map (DumpPart.msg C) ++ [.done code]) :
    Ends (mnlRecv (callbacks E) datagrams) d
      (fun ret d' => ret = 0 ∧ d'.session.out.buf = [] ∧
        At base C { r.run C parts with sheet := (r.run C parts).finish C } d')
      fun _ _ => False := by
  -- the messages still to come, and where the reading is
  let I (ms : List KMsg) (d' : Process κ) : Prop := ∃ rest r', ms = rest.map (DumpPart.msg C) ++
    [.done code] ∧ At base C r' d' ∧ r'.TakesAll C rest ∧ r'.run C rest = r.run C parts
  refine mnlRecv_ends (I := I) (fun m ms d' hI => ?_) (fun d' hI => ?_) (fun ms d' n hI => ?_)
    ⟨parts, r, hanswer, h, hparts, rfl⟩
  · obtain ⟨rest, r', hms, h', htakes, hrun⟩ := hI
    cases rest with
    | nil =>
      obtain ⟨rfl, rfl⟩ := List.cons.inj hms
      refine (callbacks_done_at hE hcmd h' code).mono (fun ret d₁ h₁ => .inr ?_) fun _ _ h => h
      obtain ⟨rfl, hbuf, h₁⟩ := h₁
      rw [← hrun]
      exact ⟨by decide, rfl, hbuf, h₁⟩
    | cons p rest =>
      obtain ⟨rfl, rfl⟩ := List.cons.inj hms
      refine (callbacks_part_at hE hcmd h' htakes.1).mono (fun ret d₁ h₁ => .inl ?_)
        fun _ _ h => h
      obtain ⟨rfl, h₁⟩ := h₁
      exact ⟨by decide, rest, r'.step C p, rfl, h₁, htakes.2, hrun⟩
  · obtain ⟨rest, r', hms, -⟩ := hI
    simp at hms
  · obtain ⟨rest, r', hms, h', hrest⟩ := hI
    exact ⟨rest, r', hms, { h' with }, hrest⟩

/-! ### The command -/

def Process.settings (d : Process κ) (cmd : Cmd) : Settings where
  cmd := cmd
  protocol := d.session.protocol
  mode := d.session.outputMode cmd
  envopts := d.session.envopts

/-- The blob with what `build_msg` stores for the request. -/
def Session.listBlob (s : Session) (cmd : Cmd) : Data :=
  if cmd = .list ∧ s.listFlags ≠ 0 ∧ s.outputMode cmd ≠ .save then s.data.setFlags s.listFlags
  else s.data

def Process.reading (d : Process κ) (cmd : Cmd) : Reading where
  data := d.session.listBlob cmd
  printedSet := d.session.printedSet
  saved := d.session.savedSetname
  sort := d.session.sort
  sheet := ⟨(d.settings cmd).opening, []⟩

/-- A process between two commands: nothing of a listing is left, and no type is stored. -/
structure Process.Waiting (d : Process κ) : Prop where
  buf : d.session.out.buf = []
  sorted : d.session.out.sorted = []
  len : dsetOutbuflen ≤ d.session.out.len
  saved : d.session.savedSetname = emptyName
  type : d.session.data.test .type = false
  known : d.kernelCheck ≠ .mismatch

theorem buildMsg_blob (s : Session) {cmd : Cmd} (hcmd : cmd = .list ∨ cmd = .save) :
    ∃ nlh, ∀ lineno out,
      { s with cmd := cmd, mode := s.outputMode cmd, lineno := lineno, out := out }.buildMsg false =
        .done { s with cmd := cmd, mode := s.outputMode cmd, lineno := lineno, out := out
                       data := s.listBlob cmd, buffer := some nlh } := by
  let s' : Session := { s with cmd := cmd, mode := s.outputMode cmd }
  let nlh := s'.putSetname s'.startMsg
  rcases hcmd with rfl | rfl
  · have hlist (lineno : ℕ) (out : Outbuf) := Session.buildMsg_of_list
      (s := { s' with lineno := lineno, out := out }) rfl false
    by_cases hflags : s.listFlags ≠ 0 ∧ s.outputMode .list ≠ .save
    · rw [Session.listBlob, if_pos ⟨rfl, hflags⟩]
      exact ⟨nlh.addattr s.bufsize 4 (.flags s.listFlags),
        fun lineno out => (hlist lineno out).trans (if_pos hflags)⟩
    · rw [Session.listBlob, if_neg fun h => hflags h.2]
      exact ⟨nlh, fun lineno out => (hlist lineno out).trans (if_neg hflags)⟩
  · rw [Session.listBlob, if_neg fun h => absurd h.1 (by decide)]
    exact ⟨nlh, fun lineno out => Session.buildMsg_of_save rfl false⟩

/-- The start of the document is put on an empty sheet. -/
theorem startOutput_at (hE : E.Succeeds) (hcmd : cmd = .list ∨ cmd = .save) (h : d.Waiting)
    (lineno : ℕ) :
    Ends (startOutput E cmd) (d.mapSession fun s => { s with cmd := cmd, lineno := lineno })
      (fun _ d' => Shown d.session.out.printed [] ⟨(d.settings cmd).opening, []⟩
        (d.mapSession fun s => { s with cmd := cmd, lineno := lineno, mode := s.outputMode cmd }) d')
      fun _ _ => False := by
  have hpos : 0 < dsetOutbuflen := by decide
  have hempty : Shows d.session.out.printed [] ⟨[], []⟩ d.session.out := by
    refine ⟨⟨?_, h.len⟩, ⟨[], [], ?_, rfl, List.not_mem_nil, h.buf, ?_⟩,
      fun e he => absurd he List.not_mem_nil⟩
    · rw [h.buf]
      exact lt_of_lt_of_le hpos h.len
    · rw [List.append_nil]
    · rw [h.sorted]
      rfl
  have hprint := safeSnprintf_shows (d := d.mapSession fun s =>
    { s with cmd := cmd, lineno := lineno, mode := s.outputMode cmd }) hE hempty
      (fun _ => ⟨rfl, rfl⟩) (show (bytes "<dsets>\n").length < dsetOutbuflen by decide) (by decide)
  simp only [startOutput, ends_bind, ends_modifySession, ends_session, ends_ite, ends_pure]
  refine ⟨fun hxml => hprint.mono (fun ok d' h' => ⟨fun _ => ?_, fun h => absurd h'.1 h⟩)
    fun _ _ h => h, fun hother => ?_⟩
  · have hopening : (d.settings cmd).opening = bytes "<dsets>\n" := if_pos hxml.2
    rw [hopening]
    exact h'.2
  · have hopening : (d.settings cmd).opening = [] := if_neg fun hxml => hother ⟨hcmd, hxml⟩
    rw [hopening]
    exact .refl hempty

/-- What is known at the end of a listing. -/
def Process.Listed (d : Process κ) (text : Str) (ret : ℤ) (d' : Process κ) : Prop :=
  ret = 0 ∧ d'.Waiting ∧
    ∃ strs, d'.session.out.printed = d.session.out.printed ++ strs ∧ strs.flatten = text

theorem dsetMnlQuery_at (hE : E.Succeeds) (hcmd : C.cmd = .list ∨ C.cmd = .save)
    (h : At base C r d) (hstale : d.session.stale = 0) (nlh : Nlmsg) {parts : List DumpPart}
    (hparts : r.TakesAll C parts) {code : ℤ}
    (hanswer : (E.answer d.kernel nlh).1.flatten = parts.map (DumpPart.msg C) ++ [.done code]) :
    Ends (dsetMnlQuery E (callbacks E) nlh) d
      (fun ret d' => ret = 0 ∧ d'.session.out.buf = [] ∧
        At base C { r.run C parts with sheet := (r.run C parts).finish C } d')
      fun _ _ => False := by
  have hsent : At base C r { d with
      kernel := (E.answer d.kernel nlh).2, calls := d.calls + 1
      sent := d.sent ++ [(nlh, (E.answer d.kernel nlh).1)] } := { h with }
  simp only [dsetMnlQuery, ends_bind, ends_ext, ends_ite, ends_get, ends_set, ends_modifySession,
    ends_pure]
  refine ⟨fun _ => ⟨fun _ => mnlRecv_at hE hcmd hsent hparts hanswer, fun h => absurd hstale h⟩,
    fun hfail => absurd (hE _) hfail⟩

/-- A listing that has come to its end leaves nothing behind. -/
theorem At.listed {s : Sheet} (h : At base C { r with sheet := s } d) (hnil : s.waiting = [])
    (hbuf : d.session.out.buf = []) {d₁ d' : Process κ} (hbase : base = d₁.session.out.printed)
    (hd' : d' = d.mapSession fun s => { s.committed with data := Data.reset }) :
    d₁.Listed s.text 0 d' := by
  obtain ⟨hfits, ⟨head, strs, hprinted, htext, -, hpack, hsorted⟩, -⟩ := h.shows
  rw [hnil] at hpack hsorted
  have hhead : head = [] := List.append_eq_nil_iff.mp (hpack.symm.trans hbuf) |>.1
  subst hd'
  refine ⟨rfl, ⟨hbuf, ?_, hfits.2, rfl, Data.test_reset _, h.known⟩, strs, ?_, ?_⟩
  · exact List.append_eq_nil_iff.mp hsorted |>.1
  · rw [← hbase]
    exact hprinted
  · rw [← htext, hhead, List.append_nil]

/-- From the request to the end of `dset_cmd`. -/
theorem executeMsg_at (hE : E.Succeeds) (hcmd : cmd = .list ∨ cmd = .save) {d₁ d₂ : Process κ}
    (hidle : d₁.Waiting) (hstale : d₁.session.stale = 0) (lineno : ℕ)
    (h : Shown d₁.session.out.printed [] ⟨(d₁.settings cmd).opening, []⟩
      (d₁.mapSession fun s => { s with cmd := cmd, lineno := lineno, mode := s.outputMode cmd }) d₂)
    {nlh : Nlmsg} (hrequest : d₁.session.request cmd = some nlh) {parts : List DumpPart}
    (hparts : (d₁.reading cmd).TakesAll (d₁.settings cmd) parts) {code : ℤ}
    (hanswer : (E.answer d₁.kernel nlh).1.flatten =
      parts.map (DumpPart.msg (d₁.settings cmd)) ++ [.done code]) :
    Ends (executeMsg E cmd false) d₂
      (d₁.Listed (((d₁.reading cmd).run (d₁.settings cmd) parts).finish (d₁.settings cmd)).text)
      fun _ _ => False := by
  obtain ⟨out, calls, hshows, hd₂⟩ := h
  obtain ⟨nlh', hbuild⟩ := buildMsg_blob d₁.session hcmd
  have hrequest' : nlh = Session.closeAll nlh' d₁.session.nested := by
    have hself := hbuild d₁.session.lineno d₁.session.out
    unfold Session.request at hrequest
    rw [show ({ d₁.session with cmd := cmd, mode := d₁.session.outputMode cmd } : Session) =
      { d₁.session with cmd := cmd, mode := d₁.session.outputMode cmd, lineno := d₁.session.lineno
                        out := d₁.session.out } from rfl, hself] at hrequest
    exact (Option.some.inj hrequest).symm
  let s' : Session := { d₁.session with
    cmd := cmd, mode := d₁.session.outputMode cmd, lineno := lineno, out := out
    data := d₁.session.listBlob cmd, buffer := some nlh' }
  have hmsg : d₂.session.buildMsg false = .done s' := by
    rw [hd₂]
    exact hbuild lineno out
  have hkernel : d₂.kernel = d₁.kernel := by rw [hd₂]
  have hknown : d₂.kernelCheck ≠ .mismatch := by
    rw [hd₂]
    exact hidle.known
  have hadd : ¬ (cmd = .add ∨ cmd = .del) := by rcases hcmd with rfl | rfl <;> decide
  have hzero : ¬ (0 : ℤ) < 0 := lt_irrefl _
  simp only [executeMsg, buildOrCommit, buildMsg, ends_bind, ends_session, hmsg,
    ends_modifySession, ends_pure, le_refl, if_true, hzero, if_false, hadd, and_false,
    ends_modifyData, dsetCommit]
  have hat : At d₁.session.out.printed (d₁.settings cmd) (d₁.reading cmd)
      ((d₂.mapSession fun _ => s').mapSession fun s => { s with savedType := s.data.getType }) :=
    ⟨rfl, rfl, rfl, rfl, hshows, fun hne => absurd rfl hne, rfl, rfl, rfl, rfl, hknown⟩
  have hflat : (E.answer d₂.kernel nlh).1.flatten =
      parts.map (DumpPart.msg (d₁.settings cmd)) ++ [.done code] := by
    rw [hkernel]
    exact hanswer
  have hquery := dsetMnlQuery_at hE hcmd hat hstale nlh hparts hflat
  subst hrequest'
  simp only [show s'.buffer = some nlh' from rfl, ends_bind, ends_modifySession, ends_ite,
    ends_pure, ends_session, ends_dsetErr]
  refine hquery.mono (fun ret d₃ h₃ => ?_) fun _ _ h => h
  obtain ⟨rfl, hbuf, hlisted⟩ := h₃
  refine ⟨fun hneg => absurd hneg hzero, fun _ => ?_⟩
  exact hlisted.listed (Sheet.waiting_put_of_nil rfl _) hbuf rfl rfl

/-- A command that starts an idle process on a listing prints what the reading says. -/
theorem dsetCmd_at (hE : E.Succeeds) (hcmd : cmd = .list ∨ cmd = .save) (lineno : ℕ)
    {d₁ : Process κ} {aggregate : Bool} (hstart : startCmd E cmd d = .ok (.ok aggregate) d₁)
    (hidle : d₁.Waiting) (hstale : d₁.session.stale = 0) {nlh : Nlmsg}
    (hrequest : d₁.session.request cmd = some nlh) {parts : List DumpPart}
    (hparts : (d₁.reading cmd).TakesAll (d₁.settings cmd) parts) {code : ℤ}
    (hanswer : (E.answer d₁.kernel nlh).1.flatten =
      parts.map (DumpPart.msg (d₁.settings cmd)) ++ [.done code]) :
    Ends (dsetCmd E cmd lineno) d
      (d₁.Listed (((d₁.reading cmd).run (d₁.settings cmd) parts).finish (d₁.settings cmd)).text)
      fun _ _ => False := by
  have hmsg : cmd.isMsg = true := by rcases hcmd with rfl | rfl <;> rfl
  have hprivate : ¬ (cmd = .type ∨ cmd = .header) := by rcases hcmd with rfl | rfl <;> decide
  have hempty := (ends_of_ok hstart).mp (startCmd_buffer (E := E) (d := d) hcmd)
  obtain ⟨rfl, -⟩ := hempty aggregate rfl
  simp only [dsetCmd, hmsg, Bool.not_true, Bool.false_eq_true, if_false, hprivate, ends_bind]
  rw [ends_of_ok hstart]
  simp only [ends_bind, ends_modifySession]
  refine (startOutput_at hE hcmd hidle lineno).mono (fun _ d₂ h₂ => ?_) fun _ _ h => h
  exact executeMsg_at hE hcmd hidle hstale lineno h₂ hrequest hparts hanswer

theorem Process.Waiting.starts (h : d.Waiting) (cmd : Cmd) :
    (d.reading cmd).Starts (d.settings cmd) where
  saved := h.saved
  type := by
    show (d.session.listBlob cmd).test .type = false
    unfold Session.listBlob
    split
    · exact (Data.test_setFlags _ _ _).trans h.type
    · exact h.type
  sheet := rfl

/-- The listing of a dump: the command succeeds, and what was printed is what the dump is to
print. The process is idle again, ready for another listing. -/
structure Process.Lists (E : Env κ) (cmd : Cmd) (lineno : ℕ) (d d₁ : Process κ) (x : Dump) :
    Prop where
  ends : Ends (dsetCmd E cmd lineno) d
    (fun ret d' => ret = 0 ∧ d'.Waiting ∧
      ∃ strs, d'.session.out.printed = d₁.session.out.printed ++ strs ∧
        x.Prints (d₁.settings cmd) d₁.session.printedSet (d₁.session.listBlob cmd) strs.flatten)
    fun _ _ => False

end

/-! ### Two sets -/

def sortedProcess : Process Unit :=
  openedProcess.mapSession fun s => { s with envopts := { s.envopts with sorted := true } }

/-- The header of an empty or a small set. -/
def smallHeader (name : SetName) (elements : ℕ) : DumpHeader where
  name := name
  typename := dsetHashDomain0.name
  family := 0
  create := ⟨none, none, some 1024, some 65536, some elements, some 0, some 4096⟩
  typed := by decide

theorem zero_notMem_s : (0 : UInt8) ∉ bytes "s" := by decide

theorem length_s : (bytes "s").length < dsetMaxnamelen := by decide

/-- A set with the elements `b` and `a`, and the empty set `s` behind it. -/
def smallDump (name : SetName) : Dump := .sets [
  { toDumpHeader := smallHeader name 2
    first := some [⟨bytes "b", none, false, by decide, by decide⟩,
      ⟨bytes "a", none, false, by decide, by decide⟩]
    more := [] },
  { toDumpHeader := smallHeader ⟨bytes "s", zero_notMem_s, length_s⟩ 0, first := some [], more := [] }]

def smallEnv (name : SetName) : Env Unit where
  answer _ _ :=
    ([(smallDump name).parts.map (DumpPart.msg (sortedProcess.settings .save)) ++ [.done 0]], ())
  ext _ := true

theorem sortedProcess_waiting : sortedProcess.Waiting where
  buf := rfl
  sorted := rfl
  len := le_refl _
  saved := rfl
  type := Data.test_reset _
  known := by decide

theorem smallEnv_succeeds (name : SetName) : (smallEnv name).Succeeds := fun _ => rfl

theorem sortedProcess_start (name : SetName) :
    startCmd (smallEnv name) .save sortedProcess = .ok (.ok false) sortedProcess := rfl

theorem sortedProcess_request : ∃ nlh, sortedProcess.session.request .save = some nlh := ⟨_, rfl⟩

theorem smallEnv_answer (name : SetName) (nlh : Nlmsg) :
    ((smallEnv name).answer sortedProcess.kernel nlh).1.flatten =
      (smallDump name).parts.map (DumpPart.msg (sortedProcess.settings .save)) ++ [.done 0] :=
  List.append_nil _

end Dset.User
