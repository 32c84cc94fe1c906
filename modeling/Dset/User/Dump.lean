import Dset.User.Sheet
import Mathlib.Data.List.Chain

/-! What a dump prints, with the output buffer left out. The kernel dumps its sets one after the
other: a message with the header of a set, with or without elements, and messages with more of
its elements; where only names are listed, a message with the name. A reader of the messages
puts headers and entries on a sheet, and the sheet at the end says what each set printed. -/

namespace Dset.User

open Dset.Lib Dset.Core

/-! ### The messages -/

/-- An element of a dump; `other` stands for attributes nothing prints. -/
structure DumpElem where
  domain : Str
  timeout : Option UInt32
  other : Bool
  notMem : 0 ∉ domain
  length_lt : domain.length < 256

def DumpElem.nla (e : DumpElem) : AdtNla := ⟨some e.domain, e.timeout.map UInt32.toNat, e.other⟩

/-- The header of a set of the registered type. -/
structure DumpHeader where
  name : SetName
  typename : SetName
  family : ℕ
  create : CreateNla
  typed : dsetMatchTypename typename.text = true

/-- A set of a dump: the message with its header, and those with more elements. -/
structure SetDump extends DumpHeader where
  first : Option (List DumpElem)
  more : List (List DumpElem)

inductive DumpPart where
  | header (h : DumpHeader) (first : Option (List DumpElem))
  | more (name : SetName) (elems : List DumpElem)
  | name (name : SetName)

/-- A dump of sets, or of their names only. -/
inductive Dump where
  | sets (sets : List SetDump)
  | names (names : List SetName)

def DumpPart.setname : DumpPart → SetName
  | .header h _ => h.name
  | .more n _ => n
  | .name n => n

def SetDump.parts (x : SetDump) : List DumpPart :=
  .header x.toDumpHeader x.first :: x.more.map (.more x.name)

def SetDump.elems (x : SetDump) : List DumpElem := x.first.getD [] ++ x.more.flatten

def Dump.parts : Dump → List DumpPart
  | .sets xs => xs.flatMap SetDump.parts
  | .names l => l.map .name

/-! ### The data blob -/

def DumpElem.blob (e : DumpElem) (data : Data) : Data := e.nla.store (data.flagsUnset dsetAdtFlags)

def elemsBlob (elems : List DumpElem) (data : Data) : Data :=
  elems.foldl (fun data e => e.blob data) data

def DumpHeader.blob (h : DumpHeader) (data : Data) : Data :=
  (h.create.store ((data.setSetname h.name).startHeader h.typename dsetHashDomain0.revision)).setType
    dsetHashDomain0

def SetDump.blob (x : SetDump) (data : Data) : Data :=
  x.more.foldl (fun data elems => elemsBlob elems (data.setSetname x.name))
    (elemsBlob (x.first.getD []) (x.toDumpHeader.blob data))

/-! ### The texts -/

/-- What does not change during a listing. -/
structure Settings where
  cmd : Cmd
  protocol : ℕ
  mode : OutputMode
  envopts : EnvOpts

def Settings.names (C : Settings) : Bool := C.envopts.listSetname && C.mode != .save

def DumpElem.text (C : Settings) (name : SetName) (e : DumpElem) : Str :=
  (adtTexts C.mode name e.domain (e.timeout.map UInt32.toNat)).flatten

def DumpHeader.text (C : Settings) (printedSet : ℕ) (h : DumpHeader) (data : Data) : Str :=
  (createTexts C.mode printedSet C.envopts.listHeader h.name dsetHashDomain0 (h.blob data)).flatten

def Settings.nameText (C : Settings) (name : SetName) : Str :=
  if C.mode = .xml then bytes "<dset name=\"" ++ name.text ++ bytes "\"/>\n"
  else name.text ++ bytes "\n"

def Settings.opening (C : Settings) : Str := if C.mode = .xml then bytes "<dsets>\n" else []

def Settings.footer (C : Settings) (saved : SetName) : Str :=
  if C.mode = .xml ∧ ¬ C.envopts.listSetname ∧ saved ≠ emptyName then
    if C.envopts.listHeader then bytes "</dset>\n" else bytes "</members>\n</dset>\n"
  else []

def Settings.ending (C : Settings) : Str := if C.mode = .xml then bytes "</dsets>\n" else []

structure SetText where
  header : Str
  entries : List Str
  footer : Str
  deriving DecidableEq

/-- The texts of the sets of a dump, in order of arrival. -/
def setTexts (C : Settings) : ℕ → Data → List SetDump → List SetText
  | _, _, [] => []
  | n, data, x :: xs =>
    ⟨x.toDumpHeader.text C n data, x.elems.map (·.text C x.name), C.footer x.name⟩ ::
      setTexts C (n + 1) (x.blob data) xs

/-- `out` is the header of the set, then each of its entries once, in order of arrival or sorted,
and the footer. -/
def SetText.Prints (sorted : Bool) (t : SetText) (out : Str) : Prop :=
  ∃ es, es.Perm t.entries ∧
    (if sorted then es.Pairwise (fun a b => strcmpLe a b = true) else es = t.entries) ∧
    out = t.header ++ es.flatten ++ t.footer

/-- The sets of a dump, none when it brings only their names. -/
def Dump.setDumps : Dump → List SetDump
  | .sets xs => xs
  | .names _ => []

/-- What a listing of the dump is to print, when it finds the blob `data` and has printed `n`
sets before: every set, or a line for every message where only names are listed. -/
def Dump.Prints (C : Settings) (n : ℕ) (data : Data) (x : Dump) (out : Str) : Prop :=
  ∃ outs, out = C.opening ++ outs.flatten ++ C.ending ∧
    if C.names then outs = x.parts.map fun p => C.nameText p.setname
    else List.Forall₂ (SetText.Prints C.envopts.sorted) (setTexts C n data x.setDumps) outs

/-! ### Reading the messages -/

/-- Where a listing is: the blob, the number of sets so far, the set it is at (none has the empty
name), whether entries are sorted, and the sheet. -/
structure Reading where
  data : Data
  printedSet : ℕ
  saved : SetName
  sort : Bool
  sheet : Sheet

namespace Reading

variable (C : Settings) (r : Reading)

def closing : Sheet := r.sheet.close.put (C.footer r.saved)

/-- The set is closed before the next one; a set without a name is taken for none. -/
def closed : Reading := if r.saved = emptyName then r else { r with sheet := r.closing C }

def header (h : DumpHeader) : Reading where
  data := h.blob r.data
  printedSet := r.printedSet + 1
  saved := h.name
  sort := C.envopts.sorted
  sheet := (r.closed C).sheet.put (h.text C r.printedSet r.data)

def elem (name : SetName) (e : DumpElem) : Reading :=
  { r with data := e.blob r.data, sheet := r.sheet.entry r.sort (e.text C name) }

def elems (name : SetName) (es : List DumpElem) : Reading := es.foldl (fun r e => r.elem C name e) r

def setName (name : SetName) : Reading := { r with data := r.data.setSetname name }

/-- A message about a set; one with nothing but a name is refused. -/
def part : DumpPart → Reading
  | .header h first => (r.header C h).elems C h.name (first.getD [])
  | .more name es => (r.setName name).elems C name es
  | .name _ => r

def step (p : DumpPart) : Reading :=
  if C.names then { r.setName p.setname with sheet := r.sheet.put (C.nameText p.setname) }
  else r.part C p

def run (parts : List DumpPart) : Reading := parts.foldl (fun r p => r.step C p) r

def finish : Sheet := r.sheet.close.put (C.footer r.saved ++ C.ending)

end Reading

/-! ### What the sheet says -/

def Sheet.entries (s : Sheet) (sort : Bool) (ts : List Str) : Sheet :=
  ts.foldl (fun s t => s.entry sort t) s

theorem Sheet.entries_append (s : Sheet) (sort : Bool) (ts ts' : List Str) :
    s.entries sort (ts ++ ts') = (s.entries sort ts).entries sort ts' := List.foldl_append

theorem Sheet.entries_sorted (s : Sheet) (ts : List Str) :
    s.entries true ts = { s with waiting := s.waiting ++ ts } := by
  induction ts generalizing s with
  | nil => rw [List.append_nil]; rfl
  | cons t ts ih =>
    rw [entries, List.foldl_cons]
    refine (ih _).trans ?_
    show Sheet.mk s.text ((s.waiting ++ [t]) ++ ts) = _
    rw [List.append_assoc, List.singleton_append]

theorem Sheet.entries_unsorted (s : Sheet) (ts : List Str) :
    s.entries false ts = s.put ts.flatten := by
  induction ts generalizing s with
  | nil => exact s.put_nil.symm
  | cons t ts ih =>
    rw [entries, List.foldl_cons]
    refine (ih _).trans ?_
    rw [List.flatten_cons, ← Sheet.put_put]
    rfl

namespace Reading

variable {C : Settings} {r : Reading}

theorem elems_eq (name : SetName) (es : List DumpElem) :
    r.elems C name es = { r with
      data := elemsBlob es r.data, sheet := r.sheet.entries r.sort (es.map (·.text C name)) } := by
  induction es generalizing r with
  | nil => rfl
  | cons e es ih =>
    rw [elems, List.foldl_cons]
    exact ih

theorem run_append (parts parts' : List DumpPart) :
    r.run C (parts ++ parts') = (r.run C parts).run C parts' := List.foldl_append

theorem step_of_sets (hnames : C.names = false) (p : DumpPart) : r.step C p = r.part C p :=
  if_neg (Bool.eq_false_iff.mp hnames)

theorem run_more (hnames : C.names = false) (name : SetName) (more : List (List DumpElem)) :
    r.run C (more.map (.more name)) = { r with
      data := more.foldl (fun data es => elemsBlob es (data.setSetname name)) r.data
      sheet := r.sheet.entries r.sort (more.flatten.map (·.text C name)) } := by
  induction more generalizing r with
  | nil => rfl
  | cons es more ih =>
    rw [List.map_cons, run, List.foldl_cons]
    refine ih.trans ?_
    rw [step_of_sets hnames, part, elems_eq, List.flatten_cons, List.map_append,
      Sheet.entries_append]
    rfl

theorem run_parts (hnames : C.names = false) (x : SetDump) :
    r.run C x.parts = { r.header C x.toDumpHeader with
      data := x.blob r.data
      sheet := (r.header C x.toDumpHeader).sheet.entries C.envopts.sorted
        (x.elems.map (·.text C x.name)) } := by
  rw [SetDump.parts, run, List.foldl_cons]
  refine (run_more hnames x.name x.more).trans ?_
  rw [step_of_sets hnames, part, elems_eq, SetDump.elems, List.map_append, Sheet.entries_append]
  rfl

theorem footer_empty : C.footer emptyName = [] := if_neg fun h => h.2.2 rfl

/-- With nothing waiting of a set without a name, all is as if the set before had been closed. -/
theorem closed_sheet (h : r.saved = emptyName → r.sheet.waiting = []) :
    (r.closed C).sheet = r.closing C := by
  by_cases hsaved : r.saved = emptyName
  · rw [closed, if_pos hsaved, closing, hsaved, footer_empty, Sheet.put_nil,
      Sheet.close_of_nil (h hsaved)]
  · rw [closed, if_neg hsaved]

theorem closing_waiting : (r.closing C).waiting = [] := Sheet.waiting_put_of_nil rfl _

end Reading

/-! ### The order of the entries -/

/-- Strings with the same first character compare by what is behind it. -/
theorem strcmpLe_cons (x y : UInt8) (a b : Str) :
    strcmpLe (x :: a) (y :: b) = true ↔
      x.toNat < y.toNat ∨ (x.toNat = y.toNat ∧ strcmpLe a b = true) := by
  rw [strcmpLe, ← UInt8.lt_iff_toNat_lt, UInt8.toNat_inj]
  by_cases hxy : x = y
  · subst hxy
    simp
  · simp [hxy]

theorem strcmpLe_trans (a b c : Str) (h : strcmpLe a b = true) (h' : strcmpLe b c = true) :
    strcmpLe a c = true := by
  induction a generalizing b c with
  | nil => rfl
  | cons x a ih =>
    cases b with
    | nil => cases h
    | cons y b =>
      cases c with
      | nil => cases h'
      | cons z c =>
        rw [strcmpLe_cons] at h h' ⊢
        rcases h with h | ⟨hxy, h⟩ <;> rcases h' with h' | ⟨hyz, h'⟩
        · exact .inl (h.trans h')
        · exact .inl (hyz ▸ h)
        · exact .inl (hxy ▸ h')
        · exact .inr ⟨hxy.trans hyz, ih b c h h'⟩

theorem strcmpLe_total (a b : Str) : (strcmpLe a b || strcmpLe b a) = true := by
  rw [Bool.or_eq_true]
  induction a generalizing b with
  | nil => exact .inl rfl
  | cons x a ih =>
    cases b with
    | nil => exact .inr rfl
    | cons y b =>
      rw [strcmpLe_cons, strcmpLe_cons]
      rcases lt_trichotomy x.toNat y.toNat with h | h | h
      · exact .inl (.inl h)
      · exact (ih b).imp (fun hle => .inr ⟨h, hle⟩) fun hle => .inr ⟨h.symm, hle⟩
      · exact .inr (.inl h)

/-- A set that is closed has printed its header, its entries and its footer. -/
theorem SetText.prints_closing (C : Settings) {s : Sheet} (hnil : s.waiting = []) (t : SetText) :
    ∃ out, t.Prints C.envopts.sorted out ∧
      (((s.put t.header).entries C.envopts.sorted t.entries).close.put t.footer).text =
        s.text ++ out := by
  rw [Sheet.put_of_nil hnil]
  cases hsorted : C.envopts.sorted with
  | true =>
    refine ⟨_, ⟨t.entries.mergeSort strcmpLe, List.mergeSort_perm _ _, ?_, rfl⟩, ?_⟩
    · exact List.pairwise_mergeSort strcmpLe_trans strcmpLe_total _
    · rw [Sheet.entries_sorted, hnil, List.nil_append, Sheet.put_of_nil rfl]
      simp only [Sheet.close, List.append_assoc]
  | false =>
    refine ⟨_, ⟨t.entries, .refl _, rfl, rfl⟩, ?_⟩
    have hnil' : (Sheet.mk (s.text ++ t.header) s.waiting).waiting = [] := hnil
    have hput := Sheet.waiting_put_of_nil hnil' t.entries.flatten
    rw [Sheet.entries_unsorted, Sheet.close_of_nil hput, Sheet.put_of_nil hput,
      Sheet.put_of_nil hnil']
    simp only [List.append_assoc]

/-! ### Runs over whole sets -/

/-- What the kernel answers: only names where they are asked for, otherwise sets, of which none
follows one of its own name. -/
def Dump.Answers (C : Settings) : Dump → Prop
  | .sets xs => xs.IsChain fun x y => y.name ≠ x.name
  | .names _ => C.names = true

/-- No set without a name leaves sorted entries to the set behind it. -/
def Dump.Separated (C : Settings) (x : Dump) : Prop :=
  C.envopts.sorted = true → x.setDumps.IsChain fun x _ => x.name = emptyName → x.elems = []

namespace Reading

variable {C : Settings} {r : Reading}

theorem finish_eq : r.finish C = (r.closing C).put C.ending := (Sheet.put_put _ _ _).symm

/-- Nothing waits behind a set without a name that has no sorted entries. -/
theorem waiting_parts (hnames : C.names = false) (x : SetDump) (hr : r.saved = emptyName → r.sheet.waiting = [])
    (hx : C.envopts.sorted = true → x.name = emptyName → x.elems = []) :
    (r.run C x.parts).saved = emptyName → (r.run C x.parts).sheet.waiting = [] := by
  rw [run_parts hnames]
  intro hname
  have hnil : (r.header C x.toDumpHeader).sheet.waiting = [] := by
    refine Sheet.waiting_put_of_nil ?_ _
    rw [closed_sheet hr]
    exact closing_waiting
  show ((r.header C x.toDumpHeader).sheet.entries _ _).waiting = []
  cases hsorted : C.envopts.sorted with
  | true =>
    rw [hx hsorted hname]
    exact hnil
  | false =>
    rw [Sheet.entries_unsorted]
    exact Sheet.waiting_put_of_nil hnil _

/-- The condition on two sets in a row. -/
def Apart (C : Settings) (x _y : SetDump) : Prop :=
  C.envopts.sorted = true → x.name = emptyName → x.elems = []

theorem apart_of_separated {x : Dump} (hsep : x.Separated C) : x.setDumps.IsChain (Apart C) := by
  by_cases hsorted : C.envopts.sorted = true
  · exact (hsep hsorted).imp fun _ _ h _ => h
  · exact (List.pairwise_of_forall fun _ _ h => absurd h hsorted).isChain

/-- Behind the messages of the sets, each has printed its header and its entries. -/
theorem run_sets (hnames : C.names = false) (xs : List SetDump) (hsep : xs.IsChain (Apart C))
    (hr : xs ≠ [] → r.saved = emptyName → r.sheet.waiting = []) :
    ∃ outs, List.Forall₂ (SetText.Prints C.envopts.sorted) (setTexts C r.printedSet r.data xs) outs ∧
      ((r.run C (xs.flatMap SetDump.parts)).finish C).text =
        (r.closing C).text ++ outs.flatten ++ C.ending := by
  induction xs generalizing r with
  | nil =>
    refine ⟨[], .nil, ?_⟩
    rw [List.flatMap_nil, List.flatten_nil, List.append_nil, finish_eq,
      Sheet.put_of_nil closing_waiting]
    rfl
  | cons x xs ih =>
    replace hr := hr (List.cons_ne_nil x xs)
    obtain ⟨outs, houts, htext⟩ := ih (r := r.run C x.parts) hsep.tail (by
      intro hne
      obtain ⟨y, ys, rfl⟩ := List.exists_cons_of_ne_nil hne
      exact waiting_parts hnames x hr (hsep.rel_head? rfl))
    -- what the set prints is put on the sheet that the set before was closed on
    obtain ⟨out, hout, hclosing⟩ := SetText.prints_closing C (closing_waiting (C := C) (r := r))
      ⟨x.toDumpHeader.text C r.printedSet r.data, x.elems.map (·.text C x.name), C.footer x.name⟩
    have hset : ((r.run C x.parts).closing C).text = (r.closing C).text ++ out := by
      rw [run_parts hnames, ← hclosing, ← closed_sheet hr]
      rfl
    refine ⟨out :: outs, .cons hout ?_, ?_⟩
    · rw [run_parts hnames] at houts
      exact houts
    · rw [List.flatMap_cons, run_append, htext, hset, List.flatten_cons, List.append_assoc,
        List.append_assoc, List.append_assoc, List.append_assoc]

/-- Behind a message with nothing but its name, a line of the listing is there. -/
theorem run_names (hnames : C.names = true) (parts : List DumpPart) :
    (r.run C parts).saved = r.saved ∧
      (r.run C parts).sheet = r.sheet.put (parts.map fun p => C.nameText p.setname).flatten := by
  induction parts generalizing r with
  | nil => exact ⟨rfl, r.sheet.put_nil.symm⟩
  | cons p parts ih =>
    have hstep : r.step C p = _ := if_pos hnames
    have hrest := ih (r := r.step C p)
    rw [run, List.foldl_cons, List.map_cons, List.flatten_cons, ← Sheet.put_put]
    rw [hstep] at hrest ⊢
    exact hrest

/-- A listing starts between sets, with the start of the document on the sheet. -/
structure Starts (C : Settings) (r : Reading) : Prop where
  saved : r.saved = emptyName
  type : r.data.test .type = false
  sheet : r.sheet = ⟨C.opening, []⟩

/-- At the end the sheet says what the dump is to print. -/
theorem run_prints (h : r.Starts C) (x : Dump) (hx : x.Answers C) (hsep : x.Separated C) :
    x.Prints C r.printedSet r.data ((r.run C x.parts).finish C).text := by
  have hnil : r.sheet.waiting = [] := by rw [h.sheet]
  cases hnames : C.names with
  | true =>
    obtain ⟨hsaved, hsheet⟩ := run_names (r := r) hnames x.parts
    have hput := Sheet.waiting_put_of_nil hnil (x.parts.map fun p => C.nameText p.setname).flatten
    refine ⟨_, ?_, (if_pos hnames).mpr rfl⟩
    rw [finish, hsaved, hsheet, h.saved, footer_empty, List.nil_append, Sheet.close_of_nil hput,
      Sheet.put_of_nil hput, Sheet.put_of_nil hnil, h.sheet]
  | false =>
    cases x with
    | sets xs =>
      obtain ⟨outs, houts, htext⟩ := run_sets hnames xs (apart_of_separated hsep) fun _ _ => hnil
      have hclosing : r.closing C = ⟨C.opening, []⟩ := by
        rw [closing, h.saved, footer_empty, Sheet.put_nil, Sheet.close_of_nil hnil, h.sheet]
      rw [hclosing] at htext
      exact ⟨outs, htext, (if_neg (Bool.eq_false_iff.mp hnames)).mpr houts⟩
    | names l => exact absurd (hnames.symm.trans hx) Bool.false_ne_true

end Reading

/-! ### What the blob says -/

theorem setname_store_adt (adt : AdtNla) (data : Data) : (adt.store data).setname = data.setname := by
  unfold AdtNla.store
  cases adt.domain <;> cases adt.timeout <;> rfl

namespace DumpElem

variable (e : DumpElem) (data : Data)

theorem test_blob {o : Opt} (ho : o ∉ dsetAdtFlags) (hdomain : o ≠ .domain) :
    (e.blob data).test o = data.test o := by
  have htimeout : o ≠ .timeout := fun h => ho (by rw [h]; decide)
  simp [blob, test_store_adt, ho, hdomain, htimeout]

theorem getSetname_blob : (e.blob data).getSetname = data.getSetname := by
  have hset : (e.blob data).setname = data.setname := setname_store_adt _ _
  simp only [Data.getSetname, e.test_blob data (show Opt.setname ∉ dsetAdtFlags by decide)
    (by decide), hset]

theorem type_blob : (e.blob data).type = data.type := type_store_adt _ _

/-- The domain and the timeout of an element are its own. -/
theorem getDomain_blob : (e.blob data).getDomain = some e.domain := by
  have hdomain : (e.blob data).domaindata = e.domain := by
    unfold blob AdtNla.store nla
    cases e.timeout <;> rfl
  have htest : (e.blob data).test .domain = true := by
    simp [blob, test_store_adt, nla]
  rw [Data.getDomain, if_pos htest, hdomain, List.take_of_length_le]
  have := e.length_lt
  omega

theorem getTimeout_blob : (e.blob data).getTimeout = e.timeout.map UInt32.toNat := by
  have htest : (e.blob data).test .timeout = e.timeout.isSome := by
    have hflag : Opt.timeout ∈ dsetAdtFlags := by decide
    simp [blob, test_store_adt, nla, hflag]
  rw [Data.getTimeout, htest]
  cases htimeout : e.timeout with
  | none => rfl
  | some t =>
    have hstored : (e.blob data).timeout = t.toNat := by
      unfold blob AdtNla.store nla
      rw [htimeout]
      rfl
    rw [hstored, Nat.mod_eq_of_lt t.toNat_lt]
    rfl

end DumpElem

namespace DumpHeader

variable (h : DumpHeader) (data : Data)

theorem type_blob : (h.blob data).type = some dsetHashDomain0 := rfl

theorem test_type_blob : (h.blob data).test .type = true := Data.test_setType _ _ _

theorem getSetname_blob : (h.blob data).getSetname = some h.name := by
  obtain ⟨htest, hset, -⟩ := store_create_keeps h.create
    ((data.setSetname h.name).startHeader h.typename dsetHashDomain0.revision)
  have hstored : (h.blob data).setname = h.name := hset
  have hmark : (h.blob data).test .setname = true := by
    refine (Data.test_setType _ _ _).trans ?_
    rw [htest .setname (by decide)]
    simp [Data.startHeader, dsetCreateFlags]
  rw [Data.getSetname, if_pos hmark, hstored]

end DumpHeader

namespace Reading

variable {C : Settings} {r : Reading}

/-- The listing is at the elements of a set. -/
structure InSet (C : Settings) (r : Reading) (name : SetName) : Prop where
  saved : r.saved = name
  setname : r.data.getSetname = some name
  type : r.data.test .type = true
  typed : r.data.type = some dsetHashDomain0
  sort : r.sort = C.envopts.sorted

theorem inSet_header (h : DumpHeader) : (r.header C h).InSet C h.name where
  saved := rfl
  setname := h.getSetname_blob _
  type := h.test_type_blob _
  typed := h.type_blob _
  sort := rfl

theorem InSet.setName {name : SetName} (h : r.InSet C name) : (r.setName name).InSet C name where
  saved := h.saved
  setname := if_pos (Data.test_setSetname _ _ _)
  type := (Data.test_setSetname _ _ _).trans h.type
  typed := h.typed
  sort := h.sort

theorem InSet.elem {name : SetName} (h : r.InSet C name) (e : DumpElem) :
    (r.elem C name e).InSet C name where
  saved := h.saved
  setname := (e.getSetname_blob _).trans h.setname
  type := (e.test_blob _ (by decide) (by decide)).trans h.type
  typed := (e.type_blob _).trans h.typed
  sort := h.sort

theorem InSet.elems {name : SetName} (h : r.InSet C name) (es : List DumpElem) :
    (r.elems C name es).InSet C name := by
  induction es generalizing r with
  | nil => exact h
  | cons e es ih => exact ih (h.elem e)

/-! ### Which messages may follow -/

/-- The listing takes a message about a set: another one starts, or the set goes on. Where text
is pushed out behind a header, no entry may wait. -/
def TakesPart (C : Settings) (r : Reading) : DumpPart → Prop
  | .header h first => (h.name ≠ r.saved ∨ (r.saved = emptyName ∧ r.data.test .type = false)) ∧
      (first = none → (r.closed C).sheet.waiting = [])
  | .more name _ => r.InSet C name
  | .name _ => False

/-- The listing takes a message; where only names are listed, it takes every one. -/
def Takes (C : Settings) (r : Reading) (p : DumpPart) : Prop :=
  if C.names then r.sheet.waiting = [] else r.TakesPart C p

/-- The listing takes the messages one after the other. -/
def TakesAll (C : Settings) : Reading → List DumpPart → Prop
  | _, [] => True
  | r, p :: ps => r.Takes C p ∧ TakesAll C (r.step C p) ps

theorem takes_of_sets (hnames : C.names = false) {p : DumpPart} (h : r.TakesPart C p) :
    r.Takes C p := (if_neg (Bool.eq_false_iff.mp hnames)).mpr h

theorem takesAll_append {ps qs : List DumpPart} (h : r.TakesAll C ps)
    (h' : (r.run C ps).TakesAll C qs) : r.TakesAll C (ps ++ qs) := by
  induction ps generalizing r with
  | nil => exact h'
  | cons p ps ih => exact ⟨h.1, ih h.2 h'⟩

theorem takesAll_more (hnames : C.names = false) {name : SetName} (h : r.InSet C name)
    (more : List (List DumpElem)) : r.TakesAll C (more.map (.more name)) := by
  induction more generalizing r with
  | nil => trivial
  | cons es more ih =>
    refine ⟨takes_of_sets hnames h, ih ?_⟩
    rw [step_of_sets hnames]
    exact h.setName.elems es

theorem takesAll_sets (hnames : C.names = false) (xs : List SetDump)
    (hdistinct : xs.IsChain fun x y => y.name ≠ x.name) (hsep : xs.IsChain (Apart C))
    (hfirst : ∀ x ∈ xs.head?, x.name ≠ r.saved ∨ (r.saved = emptyName ∧ r.data.test .type = false))
    (hr : xs ≠ [] → r.saved = emptyName → r.sheet.waiting = []) :
    r.TakesAll C (xs.flatMap SetDump.parts) := by
  induction xs generalizing r with
  | nil => trivial
  | cons x xs ih =>
    replace hr := hr (List.cons_ne_nil x xs)
    rw [List.flatMap_cons]
    refine takesAll_append ⟨takes_of_sets hnames ⟨hfirst x rfl, fun _ => ?_⟩, ?_⟩ ?_
    · rw [closed_sheet hr]
      exact closing_waiting
    · rw [step_of_sets hnames]
      exact takesAll_more hnames ((inSet_header _).elems _) x.more
    · refine ih hdistinct.tail hsep.tail (fun y hy => .inl ?_) fun hne => ?_
      · rw [run_parts hnames]
        exact hdistinct.rel_head? hy
      · obtain ⟨y, ys, rfl⟩ := List.exists_cons_of_ne_nil hne
        exact waiting_parts hnames x hr (hsep.rel_head? rfl)

theorem takesAll_names (hnames : C.names = true) (hnil : r.sheet.waiting = [])
    (parts : List DumpPart) : r.TakesAll C parts := by
  induction parts generalizing r with
  | nil => trivial
  | cons p parts ih =>
    refine ⟨(if_pos hnames).mpr hnil, ih ?_⟩
    rw [step, if_pos hnames]
    exact Sheet.waiting_put_of_nil hnil _

theorem Starts.takesAll (h : r.Starts C) (x : Dump) (hx : x.Answers C) (hsep : x.Separated C) :
    r.TakesAll C x.parts := by
  have hnil : r.sheet.waiting = [] := by rw [h.sheet]
  cases hnames : C.names with
  | true => exact takesAll_names hnames hnil _
  | false =>
    cases x with
    | sets xs =>
      exact takesAll_sets hnames xs hx (apart_of_separated hsep)
        (fun x _ => .inr ⟨h.saved, h.type⟩) fun _ _ => hnil
    | names l => exact absurd (hnames.symm.trans hx) Bool.false_ne_true

end Reading

end Dset.User
