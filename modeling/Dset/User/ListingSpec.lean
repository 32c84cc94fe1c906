import Dset.User.Command

/-! What listing a set comes to. Every message of a dump is accepted or refused for what it
says; an accepted message is printed, unless a call of an outside function fails, and the
listing goes on with the next one. -/

namespace Dset.User

open Dset.Lib Dset.Core

variable {κ : Type} {E : Env κ} {d : Process κ}

/-! ### Printing -/

/-- The next character has a place, and the buffer has its initial size at least. -/
def Outbuf.Fits (o : Outbuf) : Prop := o.buf.length < o.len ∧ dsetOutbuflen ≤ o.len

abbrev Process.setOut (d : Process κ) (out : Outbuf) (calls : ℕ) : Process κ :=
  { d with session := { d.session with out := out }, calls := calls }

/-- Only the output changed. -/
def Printed (d d' : Process κ) : Prop := ∃ out calls, out.Fits ∧ d' = d.setOut out calls

theorem Printed.refl (h : d.session.out.Fits) : Printed d d := ⟨_, _, h, rfl⟩

theorem Printed.trans {d₁ d₂ d₃ : Process κ} (h : Printed d₁ d₂) (h' : Printed d₂ d₃) :
    Printed d₁ d₃ := by
  obtain ⟨out, calls, -, rfl⟩ := h
  obtain ⟨out', calls', hfit, rfl⟩ := h'
  exact ⟨out', calls', hfit, rfl⟩

/-- Printing succeeds with a change of the output, or ends with a failure of an outside
function. -/
def PrintEnds (E : Env κ) (d : Process κ) (ok : Bool) (d' : Process κ) : Prop :=
  (ok = true ∧ Printed d d') ∨ (ok = false ∧ d'.session.Reported ∧ ¬ E.Succeeds)

theorem not_succeeds {n : ℕ} (h : E.ext n = false) : ¬ E.Succeeds := fun hE => by
  rw [hE n] at h
  cases h

/-- The buffer is empty behind `call_outfn`, whether it could be printed or not. -/
theorem callOutfn_ends (hfit : d.session.out.Fits) :
    Ends (callOutfn E) d
      (fun ok d' => Printed d d' ∧ d'.session.out.buf = [] ∧ (ok = false → ¬ E.Succeeds))
      fun _ _ => False := by
  have hlen : dsetOutbuflen ≤ d.session.out.len := hfit.2
  have hpos : 0 < dsetOutbuflen := by decide
  simp only [callOutfn, printOutfn, Prog.modifyOut, ends_bind, ends_session, ends_modifySession,
    ends_ext, ends_pure]
  refine ⟨⟨_, _, ?_, rfl⟩, trivial, not_succeeds⟩
  exact ⟨show 0 < d.session.out.len by omega, hlen⟩

theorem tryPrint_ends (text : Str) (hfit : d.session.out.Fits) :
    Ends (tryPrint text) d
      (fun ok d' => (ok = true ∧ Printed d d') ∨
        (ok = false ∧ d' = d ∧ d.session.out.len ≤ text.length + d.session.out.buf.length))
      fun _ _ => False := by
  simp only [tryPrint, Prog.modifyOut, ends_bind, ends_session, ends_ite, ends_pure,
    ends_modifySession]
  refine ⟨fun h => .inr ⟨trivial, trivial, h⟩, fun h => .inl ⟨trivial, _, _, ?_, rfl⟩⟩
  refine ⟨?_, hfit.2⟩
  simp only [List.length_append]
  omega

theorem reallocOutbuf_ends :
    Ends (reallocOutbuf E) d
      (fun ok d' => (ok = true ∧ ∃ calls, d' = d.setOut
          { d.session.out with len := d.session.out.len + dsetOutbuflen } calls) ∨
        (ok = false ∧ d'.session.Reported ∧ ¬ E.Succeeds))
      fun _ _ => False := by
  simp only [reallocOutbuf, Prog.modifyOut, ends_bind, ends_ext, ends_ite, ends_pure,
    ends_modifySession, ends_dsetErr]
  refine ⟨fun h => .inl ⟨trivial, _, rfl⟩, fun h => .inr ⟨trivial, ?_, ?_⟩⟩
  · exact Session.reported_addReport _ _
  · exact not_succeeds (Bool.eq_false_iff.mpr h)

/-- Room for the text behind a first failure: the sorted buffer grows, the other one is
printed. -/
theorem handleSnprintfError_ends {text : Str} (htext : text.length < dsetOutbuflen)
    (hfit : d.session.out.Fits) :
    Ends (handleSnprintfError E) d
      (fun ok d' => (ok = true ∧ Printed d d' ∧
          text.length + d'.session.out.buf.length < d'.session.out.len) ∨
        (ok = false ∧ d'.session.Reported ∧ ¬ E.Succeeds))
      fun _ _ => False := by
  obtain ⟨hbuf, hlen⟩ := hfit
  simp only [handleSnprintfError, ends_bind, ends_session, ends_ite, ends_pure, ends_dsetErr]
  refine ⟨fun _ => ?_, fun _ => ?_⟩
  · refine reallocOutbuf_ends.mono (fun ok d' h => ?_) fun _ _ h => h
    rcases h with ⟨rfl, calls, rfl⟩ | h
    · have hroom : text.length + d.session.out.buf.length <
          d.session.out.len + dsetOutbuflen := by omega
      refine .inl ⟨rfl, ⟨_, _, ?_, rfl⟩, hroom⟩
      exact ⟨show d.session.out.buf.length < _ + _ by omega, show _ ≤ _ + _ by omega⟩
    · exact .inr h
  · refine (callOutfn_ends ⟨hbuf, hlen⟩).mono (fun ok d' h => ?_) fun _ _ h => h
    obtain ⟨hp, hnil, hE⟩ := h
    refine ⟨fun _ => .inl ⟨trivial, hp, ?_⟩, fun hok => .inr ⟨trivial, ?_, ?_⟩⟩
    · obtain ⟨out, calls, hfit', rfl⟩ := hp
      rw [hnil]
      exact lt_of_lt_of_le htext hfit'.2
    · exact Session.reported_addReport _ _
    · exact hE (Bool.eq_false_iff.mpr hok)

/-- A text that is shorter than the initial buffer is printed. -/
theorem safeSnprintf_ends {text : Str} (htext : text.length < dsetOutbuflen)
    (hfit : d.session.out.Fits) :
    Ends (safeSnprintf E text) d (PrintEnds E d) fun _ _ => False := by
  unfold safeSnprintf
  refine (tryPrint_ends text hfit).bind (fun ok d₁ h => ?_) fun _ _ h => h
  rcases h with ⟨rfl, hp⟩ | ⟨rfl, rfl, -⟩
  · exact .inl ⟨rfl, hp⟩
  refine (handleSnprintfError_ends htext hfit).bind (fun ok d₂ h => ?_) fun _ _ h => h
  rcases h with ⟨rfl, hp, hroom⟩ | ⟨rfl, hr', hE⟩
  · obtain ⟨out, calls, hfit₂, rfl⟩ := hp
    refine (tryPrint_ends text hfit₂).bind (fun ok d₃ h => ?_) fun _ _ h => h
    rcases h with ⟨rfl, hp'⟩ | ⟨-, -, hfull⟩
    · exact .inl ⟨rfl, .trans ⟨_, _, hfit₂, rfl⟩ hp'⟩
    · exact absurd hfull (not_le.mpr hroom)
  · exact .inr ⟨rfl, hr', hE⟩

theorem Printed.reported {d' : Process κ} (h : Printed d d') (hr : d.session.Reported) :
    d'.session.Reported := by
  obtain ⟨out, calls, -, rfl⟩ := h
  exact hr

theorem Printed.fits {d' : Process κ} (h : Printed d d') : d'.session.out.Fits := by
  obtain ⟨out, calls, hfit, rfl⟩ := h
  exact hfit

theorem PrintEnds.trans {d₁ d₂ d₃ : Process κ} {ok : Bool} (h : Printed d₁ d₂)
    (h' : PrintEnds E d₂ ok d₃) : PrintEnds E d₁ ok d₃ := by
  rcases h' with ⟨hok, hp⟩ | h'
  · exact .inl ⟨hok, h.trans hp⟩
  · exact .inr h'

theorem printAll_ends {texts : List Str} (htexts : ∀ text ∈ texts, text.length < dsetOutbuflen)
    (hfit : d.session.out.Fits) :
    Ends (printAll E texts) d (PrintEnds E d) fun _ _ => False := by
  induction texts generalizing d with
  | nil => exact .inl ⟨rfl, .refl hfit⟩
  | cons text texts ih =>
    unfold printAll
    refine (safeSnprintf_ends (htexts _ List.mem_cons_self) hfit).bind (fun ok d₁ h => ?_)
      fun _ _ h => h
    rcases h with ⟨rfl, hp⟩ | ⟨rfl, hr', hE⟩
    · refine (ih (fun t ht => htexts t (List.mem_cons_of_mem _ ht)) hp.fits).mono
        (fun ok d₂ h => ?_) fun _ _ h => h
      exact .trans hp h
    · exact .inr ⟨rfl, hr', hE⟩

/-! ### The texts are short -/

theorem length_numberText {n : ℕ} (h : n < 2 ^ 32) : (numberText n).length ≤ 10 := by
  rw [numberText, List.length_map]
  exact (Nat.length_toDigits_le_iff (by decide) (by decide)).mpr (by omega)

theorem Overlay.u32_lt (m : Overlay) (off : ℕ) : m.u32 off < 2 ^ 32 := by
  have h (i : ℕ) : (m.getD i 0).toNat < 2 ^ 8 := UInt8.toNat_lt _
  have h0 := h off
  have h1 := h (off + 1)
  have h2 := h (off + 2)
  have h3 := h (off + 3)
  unfold Overlay.u32
  omega

def Short (texts : List Str) : Prop := ∀ text ∈ texts, text.length < dsetOutbuflen

theorem short_nil : Short [] := fun _ h => absurd h List.not_mem_nil

theorem short_append {l l' : List Str} (h : Short l) (h' : Short l') : Short (l ++ l') := by
  intro t ht
  rcases List.mem_append.mp ht with ht | ht
  · exact h t ht
  · exact h' t ht

theorem short_cons {t : Str} {l : List Str} (h : t.length < dsetOutbuflen) (h' : Short l) :
    Short (t :: l) := by
  intro u hu
  rcases List.mem_cons.mp hu with rfl | hu
  · exact h
  · exact h' u hu

@[simp] theorem length_bytes (s : String) : (bytes s).length = s.length := by
  rw [bytes, List.length_map, String.length_toList]

theorem optionTexts_short (mode : OutputMode) {name : String} {o : Option ℕ}
    (hname : name.length < 100) (ho : ∀ v, o = some v → v < 2 ^ 32) :
    Short (optionTexts mode name o) := by
  cases o with
  | none => exact short_nil
  | some v =>
    have hb : dsetOutbuflen = 8192 := rfl
    have hv : (numberText v).length < dsetOutbuflen :=
      lt_of_le_of_lt (length_numberText (ho v rfl)) (by decide)
    have hin (a b : String) (hab : a.length + b.length < 100) :
        (bytes (a ++ name ++ b)).length < dsetOutbuflen := by
      simp only [length_bytes, String.length_append]
      omega
    cases mode with
    | xml =>
      exact short_cons (hin _ _ (by decide)) (short_cons hv (short_cons (hin _ _ (by decide))
        short_nil))
    | none | plain | save =>
      exact short_cons (hin _ _ (by decide)) (short_cons hv short_nil)

theorem adtTexts_short (mode : OutputMode) (name : SetName) {domain : Str}
    (hdomain : domain.length < 256) {timeout : Option ℕ} (ht : ∀ v, timeout = some v → v < 2 ^ 32) :
    Short (adtTexts mode name domain timeout) := by
  have hname := name.length_lt
  have hb : dsetOutbuflen = 8192 := rfl
  have hmax : dsetMaxnamelen = 32 := rfl
  unfold adtTexts
  refine short_append (short_append (short_append (short_append ?_ ?_) ?_) ?_) ?_
  · cases mode
    · exact short_nil
    · exact short_nil
    · refine short_cons ?_ short_nil
      simp only [List.length_append, length_bytes]
      have h4 : "add ".length = 4 := rfl
      have h1 : " ".length = 1 := rfl
      omega
    · exact short_cons (by decide) short_nil
  · exact short_cons (by omega) short_nil
  · split
    · exact short_cons (by decide) short_nil
    · exact short_nil
  · exact optionTexts_short mode (by decide) ht
  · split <;> exact short_cons (by decide) short_nil

theorem doneTexts_short (s : Session) (callbackDone : Bool) : Short (doneTexts s callbackDone) := by
  unfold doneTexts
  refine short_append ?_ ?_
  · split
    · split <;> exact short_cons (by decide) short_nil
    · exact short_nil
  · split
    · exact short_cons (by decide) short_nil
    · exact short_nil

theorem getCreate_lt {d : Data} {o : Opt} (v : ℕ) (h : d.getCreate o = some v) : v < 2 ^ 32 := by
  unfold Data.getCreate at h
  split at h
  · obtain rfl := Option.some.inj h
    exact Overlay.u32_lt _ _
  · cases h

theorem getTimeout_lt {d : Data} (v : ℕ) (h : d.getTimeout = some v) : v < 2 ^ 32 := by
  unfold Data.getTimeout at h
  split at h
  · obtain rfl := Option.some.inj h
    exact Nat.mod_lt _ (by decide)
  · cases h

theorem getMemsize_lt {d : Data} (v : ℕ) (h : d.getMemsize = some v) : v < 2 ^ 32 := by
  unfold Data.getMemsize at h
  split at h
  · obtain rfl := Option.some.inj h
    exact Nat.mod_lt _ (by decide)
  · cases h

theorem headerTexts_short (mode : OutputMode) (listHeader : Bool) (d : Data) :
    Short (headerTexts mode listHeader d) := by
  have hb : dsetOutbuflen = 8192 := rfl
  have hnumber {o : Option ℕ} (ho : ∀ v, o = some v → v < 2 ^ 32) :
      (numberText (o.getD 0)).length < dsetOutbuflen := by
    refine lt_of_le_of_lt (length_numberText ?_) (by decide : 10 < dsetOutbuflen)
    cases o with
    | none => decide
    | some v => exact ho v rfl
  have hmem := hnumber (getMemsize_lt (d := d))
  have href := hnumber (getCreate_lt (d := d) (o := .references))
  have helem := hnumber (getCreate_lt (d := d) (o := .elements))
  unfold headerTexts
  cases mode with
  | none => exact short_nil
  | save => exact short_cons (by decide) short_nil
  | plain =>
    refine short_append (short_append ?_ ?_) ?_
    · exact short_cons (by decide) (short_cons hmem (short_cons (by decide) (short_cons href
        short_nil)))
    · split
      · exact short_cons (by decide) (short_cons helem short_nil)
      · exact short_nil
    · split <;> exact short_cons (by decide) short_nil
  | xml =>
    refine short_append (short_append ?_ ?_) ?_
    · exact short_cons (by decide) (short_cons hmem (short_cons (by decide) (short_cons href
        (short_cons (by decide) short_nil))))
    · split
      · exact short_cons (by decide) (short_cons helem (short_cons (by decide) short_nil))
      · exact short_nil
    · split <;> exact short_cons (by decide) short_nil

theorem createOptionTexts_short (mode : OutputMode) (d : Data) :
    Short (createOptionTexts mode d) := by
  unfold createOptionTexts
  refine short_append (short_append (short_append ?_ ?_) ?_) ?_
  · exact optionTexts_short mode (by decide) getCreate_lt
  · exact optionTexts_short mode (by decide) getCreate_lt
  · exact optionTexts_short mode (by decide) getTimeout_lt
  · exact optionTexts_short mode (by decide) getCreate_lt

theorem createTexts_short (mode : OutputMode) (printedSet : ℕ) (listHeader : Bool)
    (name : SetName) (d : Data) :
    Short (createTexts mode printedSet listHeader name dsetHashDomain0 d) := by
  have hname := name.length_lt
  have hb : dsetOutbuflen = 8192 := rfl
  have hmax : dsetMaxnamelen = 32 := rfl
  unfold createTexts
  refine short_append (short_append ?_ (createOptionTexts_short mode d))
    (headerTexts_short mode listHeader d)
  have htype : dsetHashDomain0.name.text.length = 11 := rfl
  have hrev : (numberText dsetHashDomain0.revision).length = 1 := by decide
  cases mode with
  | none => exact short_nil
  | save =>
    refine short_cons ?_ short_nil
    have h1 : (bytes "create ").length = 7 := by decide
    have h2 : (bytes " ").length = 1 := by decide
    simp only [List.length_append]
    omega
  | plain =>
    refine short_cons ?_ short_nil
    have h1 : (if printedSet ≠ 0 then bytes "\n" else []).length ≤ 1 := by split <;> decide
    have h2 : (bytes "Name: ").length = 6 := by decide
    have h3 : (bytes "\nType: ").length = 7 := by decide
    have h4 : (bytes "\nRevision: ").length = 11 := by decide
    have h5 : (bytes "\nHeader:").length = 8 := by decide
    simp only [List.length_append]
    omega
  | xml =>
    refine short_cons ?_ short_nil
    have h1 : (bytes "<dset name=\"").length = 12 := by decide
    have h2 : (bytes "\">\n<type>").length = 9 := by decide
    have h3 : (bytes "</type>\n<revision>").length = 18 := by decide
    have h4 : (bytes "</revision>\n<header>").length = 20 := by decide
    simp only [List.length_append]
    omega

/-! ### What a message says -/

/-- What a listing keeps from message to message: the set it is at, and whether a type and a
domain are stored. -/
structure ListState where
  saved : SetName
  type : Bool
  domain : Bool

/-- Whether a domain is stored behind an element, if the element can be printed. -/
def AdtNla.next (nla : AdtNla) (domain : Bool) : Option Bool :=
  if nla.domain.any (256 ≤ ·.length) then none
  else if nla.domain.isNone && nla.timeout.isNone && !nla.other then some domain
  else if domain || nla.domain.isSome then some true
  else none

def nextElements : List (Option AdtNla) → Bool → Option Bool
  | [], domain => some domain
  | none :: _, _ => none
  | some adt :: adts, domain => (adt.next domain).bind (nextElements adts)

/-- What a listing is about: the command and the protocol of its messages, names only or whole
sets, and whether the kernel knows the type of the library. -/
structure Listing where
  cmd : Cmd
  protocol : ℕ
  names : Bool
  known : Bool

/-- Whether a header is one of the registered type. -/
def Listing.header (L : Listing) (nla : Nla) : Bool :=
  match nla.typename, nla.family, nla.revision, nla.data with
  | some typename, some _, some revision, some (some _) =>
    L.known && dsetMatchTypename typename.text && dsetHashDomain0.revision == revision
  | _, _, _, _ => false

/-- The state behind the header and the elements of a message, if they are accepted. -/
def Listing.parts (L : Listing) (st : ListState) (name : SetName) (nla : Nla) : Option ListState :=
  if nla.data.isSome && !L.header nla then none
  else
    let st := if nla.data.isSome then ⟨name, true, false⟩ else st
    (nextElements (nla.adt.getD []) st.domain).map fun domain => { st with domain := domain }

/-- The state behind a message about the set `name`. -/
def Listing.nextIn (L : Listing) (st : ListState) (name : SetName) (nla : Nla) :
    Option ListState :=
  if L.names then some st
  else if name = st.saved ∧ st.type = true ∧ nla.data.isSome then none
  else if name ≠ st.saved ∧ nla.data.isNone then none
  else L.parts st name nla

def Listing.next (L : Listing) (st : ListState) (nla : Nla) : Option ListState :=
  nla.setname.bind fun name => L.nextIn st name nla

/-- The session is at `st` in a listing. -/
structure Tracks (L : Listing) (st : ListState) (d : Process κ) : Prop where
  saved : d.session.savedSetname = st.saved
  type : d.session.data.test .type = st.type
  typed : st.type = true → d.session.data.type.isSome = true
  domain : d.session.data.test .domain = st.domain
  names : (d.session.envopts.listSetname && d.session.mode != .save) = L.names
  known : (d.kernelCheck != .mismatch) = L.known
  cmd : d.session.cmd = L.cmd
  protocol : d.session.protocol = L.protocol
  reported : d.session.Reported
  fits : d.session.out.Fits

theorem Tracks.printed {L : Listing} {st : ListState} {d' : Process κ} (h : Tracks L st d)
    (hp : Printed d d') : Tracks L st d' := by
  obtain ⟨out, calls, hfit, rfl⟩ := hp
  exact { h with fits := hfit }

/-! ### The callback -/

section

variable {L : Listing} {st : ListState} {tg : Prog κ (Option DsetType)} {cmd : Cmd}

def InSet (L : Listing) (st : ListState) (d : Process κ) : Prop :=
  Tracks L st d ∧ d.session.data.test .setname = true ∧ st.type = true

theorem InSet.printed {d' : Process κ} (h : InSet L st d) (hp : Printed d d') : InSet L st d' := by
  obtain ⟨out, calls, hfit, rfl⟩ := hp
  exact ⟨h.1.printed ⟨_, _, hfit, rfl⟩, h.2⟩

/-- A part that refuses a message has reported an error; if all outside functions work, the
message is one to refuse. -/
def Refuses (E : Env κ) (bad : Prop) (ret : Option ℤ) (d' : Process κ) : Prop :=
  (ret = none ∨ ret = some mnlCbError) ∧ d'.session.Reported ∧ (E.Succeeds → bad)

theorem Refuses.ne_ok {bad : Prop} {ret : Option ℤ} {d' : Process κ}
    (h : Refuses E bad ret d') : ret ≠ some mnlCbOk := by
  rcases h.1 with rfl | rfl
  · exact Option.some_ne_none _ |>.symm
  · decide

theorem Refuses.mono {bad bad' : Prop} {ret : Option ℤ} {d' : Process κ}
    (h : Refuses E bad ret d') (hbad : bad → bad') : Refuses E bad' ret d' :=
  ⟨h.1, h.2.1, fun hE => hbad (h.2.2 hE)⟩

/-- How an element, or the elements of a message, end: the listing is in the set with what is
stored then, or they are refused. -/
def GoesOn (E : Env κ) (L : Listing) (st : ListState) (next : Option Bool) (ret : Option ℤ)
    (d' : Process κ) : Prop :=
  (ret = some mnlCbOk ∧ ∃ domain, next = some domain ∧ InSet L { st with domain := domain } d') ∨
    Refuses E (next = none) ret d'

def Aborts (E : Env κ) (bad : Prop) (status : ℕ) : Prop := status ≠ 0 ∧ (E.Succeeds → bad)

theorem sortEntry_ends (offset : ℕ) (hfit : d.session.out.Fits) :
    Ends (sortEntry E offset) d (PrintEnds E d) fun _ _ => False := by
  have hentry (calls : ℕ) : Printed d (d.setOut { d.session.out with
      pool := d.session.out.pool - 1, sorted := d.session.out.sorted ++ [offset] } calls) := by
    refine ⟨_, _, ?_, rfl⟩
    exact hfit
  simp only [sortEntry, Prog.modifyOut, ends_bind, ends_session, ends_ite, ends_pure, ends_ext,
    ends_modifySession, ends_dsetErr]
  refine ⟨fun _ => ⟨fun _ => .inl ⟨rfl, hentry _⟩, fun h => absurd trivial h⟩, fun _ => ⟨fun _ => ?_,
    fun h => .inr ⟨rfl, ?_, ?_⟩⟩⟩
  · exact .inl ⟨rfl, hentry _⟩
  · exact Session.reported_addReport _ _
  · exact not_succeeds (Bool.eq_false_iff.mpr h)

/-- Room for the zero byte in front of a sorted entry. -/
theorem sortRoom_ends (hfit : d.session.out.Fits) :
    Ends (sortRoom E) d
      (fun ok d' => (ok = true ∧ Printed d d' ∧
          (d'.session.sort = true → d'.session.out.buf.length + 1 < d'.session.out.len)) ∨
        (ok = false ∧ d'.session.Reported ∧ ¬ E.Succeeds))
      fun _ _ => False := by
  obtain ⟨hbuf, hlen⟩ := hfit
  have hb : dsetOutbuflen = 8192 := rfl
  simp only [sortRoom, ends_bind, ends_session, ends_ite, ends_pure, Bool.and_eq_true,
    decide_eq_true_eq]
  refine ⟨fun _ => reallocOutbuf_ends.mono (fun ok d' h => ?_) fun _ _ h => h, fun h => ?_⟩
  · rcases h with ⟨rfl, calls, rfl⟩ | h
    · refine .inl ⟨rfl, ⟨_, _, ?_, rfl⟩, fun _ => ?_⟩
      · exact ⟨show d.session.out.buf.length < _ + _ by omega, show _ ≤ _ + _ by omega⟩
      · show d.session.out.buf.length + 1 < d.session.out.len + dsetOutbuflen
        omega
    · exact .inr h
  · refine .inl ⟨trivial, .refl ⟨hbuf, hlen⟩, fun hsort => ?_⟩
    have := not_and.mp h hsort
    omega

theorem startEntry_ends (hfit : d.session.out.Fits)
    (hroom : d.session.sort = true → d.session.out.buf.length + 1 < d.session.out.len) :
    Ends startEntry d (fun _ d' => Printed d d') fun _ _ => False := by
  simp only [startEntry, Prog.modifyOut, ends_bind, ends_session, ends_ite, ends_pure,
    ends_modifySession]
  refine ⟨fun hsort => ⟨_, d.calls, ?_, rfl⟩, fun _ => .refl hfit⟩
  refine ⟨?_, hfit.2⟩
  rw [List.length_append]
  exact hroom hsort

/-- Behind the attributes, an element with a domain is printed. -/
theorem printAdt_ends (hfit : d.session.out.Fits)
    (hname : d.session.data.test .setname = true) :
    Ends (printAdt E) d
      (fun ok d' => PrintEnds E d ok d' ∧ (ok = true → d.session.data.test .domain = true))
      fun status _ => status ≠ 0 ∧ d.session.data.test .domain = false := by
  unfold printAdt
  refine (sortRoom_ends hfit).bind (fun ok d₁ h => ?_) fun _ _ h => h.elim
  rcases h with ⟨rfl, hp, hroom⟩ | ⟨rfl, h⟩
  · refine (startEntry_ends hp.fits hroom).bind (fun offset d₂ hp₂ => ?_) fun _ _ h => h.elim
    have hp₂ := hp.trans hp₂
    obtain ⟨out, calls, hfit₂, rfl⟩ := hp₂
    simp only [ends_bind, ends_session]
    have hsetname : d.session.data.getSetname = some d.session.data.setname := if_pos hname
    simp only [hsetname]
    cases hdomain : d.session.data.test .domain with
    | false =>
      have hget : d.session.data.getDomain = none := by simp [Data.getDomain, hdomain]
      simp only [hget]
      exact ⟨by decide, trivial⟩
    | true =>
      have hget : d.session.data.getDomain = some (d.session.data.domaindata.take 255) :=
        if_pos hdomain
      simp only [hget]
      have hshort : Short (adtTexts d.session.mode d.session.data.setname
          (d.session.data.domaindata.take 255) d.session.data.getTimeout) :=
        adtTexts_short _ _ (by rw [List.length_take]; omega) getTimeout_lt
      simp only [ends_bind, ends_ite, ends_pure]
      refine (printAll_ends hshort hfit₂).mono (fun ok d₃ h => ?_) fun _ _ h => h.elim
      have h := PrintEnds.trans ⟨out, calls, hfit₂, rfl⟩ h
      rcases h with ⟨rfl, hp⟩ | ⟨rfl, hr⟩
      · refine ⟨fun _ => ⟨fun _ => ?_, fun _ => ⟨.inl ⟨rfl, hp⟩, fun _ => trivial⟩⟩,
          fun h => absurd rfl h⟩
        refine (sortEntry_ends offset hp.fits).mono (fun ok d₄ h => ?_) fun _ _ h => h.elim
        exact ⟨.trans hp h, fun _ => trivial⟩
      · exact ⟨fun h => (by cases h), fun _ => ⟨.inr ⟨rfl, hr⟩, fun _ => trivial⟩⟩
  · exact ⟨.inr ⟨rfl, h⟩, fun h => by cases h⟩

/-- Storing something besides the name and the type of the set. -/
theorem InSet.store {f : Data → Data} (h : InSet L st d)
    (hname : ∀ data : Data, data.test .setname = true → (f data).test .setname = true)
    (htest : ∀ data : Data, data.test .type = true → (f data).test .type = true)
    (htype : ∀ data : Data, (f data).type = data.type) :
    InSet L { st with domain := (f d.session.data).test .domain }
      (d.mapSession fun s => { s with data := f s.data }) := by
  obtain ⟨h, hset, ht⟩ := h
  refine ⟨{ h with type := ?_, typed := fun h' => ?_, domain := rfl }, hname _ hset, ht⟩
  · exact (htest _ (h.type.trans ht)).trans ht.symm
  · exact (congrArg Option.isSome (htype _)).trans (h.typed ht)

theorem test_store_adt (adt : AdtNla) (data : Data) (o : Opt) :
    (adt.store data).test o = (data.test o || (decide (o = .domain) && adt.domain.isSome) ||
      (decide (o = .timeout) && adt.timeout.isSome)) := by
  unfold AdtNla.store
  cases adt.domain <;> cases adt.timeout <;>
    simp [Bool.or_comm, Bool.or_left_comm]

theorem type_store_adt (adt : AdtNla) (data : Data) : (adt.store data).type = data.type := by
  unfold AdtNla.store
  cases adt.domain <;> cases adt.timeout <;> rfl

theorem adtAttr2data_ends (h : InSet L st d) (adt : AdtNla) :
    Ends (adtAttr2data adt) d
      (fun ok d' => (ok = true ∧ adt.domain.any (256 ≤ ·.length) = false ∧
          InSet L { st with domain := st.domain || adt.domain.isSome } d') ∨
        (ok = false ∧ adt.domain.any (256 ≤ ·.length) = true ∧ d'.session.Reported))
      fun _ _ => False := by
  simp only [adtAttr2data, ends_ite, ends_bind, ends_dsetErr, ends_pure, ends_modifyData]
  refine ⟨fun hlong => .inr ⟨trivial, hlong, Session.reported_addReport _ _⟩,
    fun hlong => .inl ⟨trivial, Bool.eq_false_iff.mpr hlong, ?_⟩⟩
  have hstore := h.store (f := adt.store) (fun data hd => by simp [test_store_adt, hd])
    (fun data hd => by simp [test_store_adt, hd]) (type_store_adt adt)
  rw [test_store_adt, h.1.domain] at hstore
  simpa using hstore

theorem storedType_ends (h : InSet L st d) :
    Ends (storedType tg) d (fun type d' => type.isNone = false ∧ d' = d) fun _ _ => False := by
  have htest : d.session.data.test .type = true := h.1.type.trans h.2.2
  simp only [storedType, ends_bind, ends_session, ends_ite, htest, ends_pure]
  refine ⟨fun _ => ⟨?_, trivial⟩, fun h => absurd trivial h⟩
  exact Option.isNone_eq_false_iff.mpr (h.1.typed h.2.2)

/-- An element with attributes that can be printed is printed, if a domain is stored. -/
theorem listAdt_ends (h : InSet L st d) (adt : AdtNla) :
    Ends (listAdt E tg adt) d (GoesOn E L st (adt.next st.domain))
      fun status _ => Aborts E (adt.next st.domain = none) status := by
  unfold listAdt
  refine (storedType_ends h).bind (fun type d₁ h₁ => ?_) fun _ _ h => h.elim
  obtain ⟨hsome, rfl⟩ := h₁
  simp only [hsome, Bool.false_eq_true, if_false]
  refine (adtAttr2data_ends h adt).bind (fun ok d₁ h₁ => ?_) fun _ _ h => h.elim
  rcases h₁ with ⟨rfl, hshort, h₁⟩ | ⟨rfl, hlong, hr⟩
  · have hnext : adt.next st.domain =
        if adt.domain.isNone && adt.timeout.isNone && !adt.other then some st.domain
        else if st.domain || adt.domain.isSome then some true else none := by
      rw [AdtNla.next, if_neg (Bool.eq_false_iff.mp hshort)]
    simp only [Bool.not_true, Bool.false_eq_true, if_false, ends_ite, ends_pure, ends_bind]
    refine ⟨fun hempty => .inl ⟨rfl, st.domain, ?_, ?_⟩, fun hempty => ?_⟩
    · rw [hnext, if_pos hempty]
    · have hnone : adt.domain.isSome = false := by
        simp only [Bool.and_eq_true, Option.isNone_iff_eq_none] at hempty
        rw [hempty.1.1, Option.isSome_none]
      rwa [hnone, Bool.or_false] at h₁
    rw [if_neg hempty] at hnext
    have hdomain : d₁.session.data.test .domain = (st.domain || adt.domain.isSome) := h₁.1.domain
    refine (printAdt_ends h₁.1.fits h₁.2.1).mono (fun ok d₂ h₂ => ?_) fun status _ hstatus => ?_
    · obtain ⟨h₂, hok⟩ := h₂
      rcases h₂ with ⟨rfl, hp⟩ | ⟨rfl, hr, hE⟩
      · have hstored := hdomain.symm.trans (hok rfl)
        rw [hstored] at h₁ hnext
        exact ⟨fun _ => .inl ⟨rfl, true, hnext, h₁.printed hp⟩, fun h => absurd rfl h⟩
      · exact ⟨fun h => absurd h Bool.false_ne_true,
          fun _ => .inr ⟨.inl rfl, hr, fun h => absurd h hE⟩⟩
    · have hstored := hdomain.symm.trans hstatus.2
      rw [hstored] at hnext
      exact ⟨hstatus.1, fun _ => hnext⟩
  · exact .inr ⟨.inr rfl, hr, fun _ => if_pos hlong⟩

theorem pushOut_ends (hfit : d.session.out.Fits) :
    Ends (pushOut E) d
      (fun ret d' => Printed d d' ∧
        (ret = mnlCbOk ∨ (ret = mnlCbError ∧ ¬ E.Succeeds)))
      fun _ _ => False := by
  unfold pushOut
  refine (callOutfn_ends hfit).bind (fun ok d' h => ?_) fun _ _ h => h
  obtain ⟨hp, -, hE⟩ := h
  cases ok
  · exact ⟨hp, .inr ⟨rfl, hE rfl⟩⟩
  · exact ⟨hp, .inl rfl⟩

/-- What is stored of the last element is forgotten. -/
theorem InSet.adtUnset (h : InSet L st d) :
    InSet L st (d.mapSession fun s => { s with data := s.data.flagsUnset dsetAdtFlags }) := by
  have hstore := h.store (f := (·.flagsUnset dsetAdtFlags)) (fun data hd => by
    rw [Data.test_flagsUnset, hd]; decide) (fun data hd => by
    rw [Data.test_flagsUnset, hd]; decide) (fun _ => rfl)
  rwa [Data.test_flagsUnset, h.1.domain, show decide (Opt.domain ∉ dsetAdtFlags) = true by decide,
    Bool.and_true] at hstore

theorem pushOut_goesOn (h : InSet L st d) :
    Ends (do return some (← pushOut E)) d (GoesOn E L st (some st.domain)) fun _ _ => False := by
  refine (pushOut_ends h.1.fits).bind (fun ret d' h' => ?_) fun _ _ h => h
  obtain ⟨hp, rfl | ⟨rfl, hE⟩⟩ := h'
  · exact .inl ⟨rfl, st.domain, rfl, h.printed hp⟩
  · exact .inr ⟨.inr rfl, hp.reported h.1.reported, fun h => absurd h hE⟩

theorem listElements_ends (cmd : Cmd) (h : InSet L st d) (adts : List (Option AdtNla)) :
    Ends (listElements E tg cmd adts) d (GoesOn E L st (nextElements adts st.domain))
      fun status _ => Aborts E (nextElements adts st.domain = none) status := by
  induction adts generalizing st d with
  | nil =>
    simp only [listElements, ends_bind, ends_session, ends_ite, ends_pure]
    refine ⟨fun _ => .inl ⟨rfl, st.domain, rfl, h⟩, fun _ => ?_⟩
    have hpush := pushOut_goesOn (E := E) h
    rw [ends_bind] at hpush
    exact hpush.mono (fun _ _ h => h) fun _ _ h => h.elim
  | cons adt adts ih =>
    simp only [listElements, ends_bind, ends_modifyData]
    have h := h.adtUnset
    cases adt with
    | none =>
      refine .inr ⟨.inr rfl, Session.reported_addReport _ _, fun _ => rfl⟩
    | some adt =>
      simp only [ends_bind, ends_ite, ends_pure]
      refine (listAdt_ends h adt).mono (fun ret d₁ h₁ => ?_) fun status _ hstatus => ?_
      · rcases h₁ with ⟨rfl, domain, hnext, h₁⟩ | hrefuses
        · refine ⟨fun _ => ?_, fun h => absurd rfl h⟩
          rw [show nextElements (some adt :: adts) st.domain = nextElements adts domain by
            rw [nextElements, hnext, Option.bind_some]]
          exact ih h₁
        · refine ⟨fun h => absurd h hrefuses.ne_ok, fun _ => .inr (hrefuses.mono fun hnext => ?_)⟩
          rw [nextElements, hnext, Option.bind_none]
      · refine ⟨hstatus.1, fun hE => ?_⟩
        rw [nextElements, hstatus.2 hE, Option.bind_none]

/-- Storing the attributes of a header keeps what storing each of them keeps. -/
theorem store_create {P : Data → Prop} (nla : CreateNla) {data : Data} (h : P data)
    (htimeout : ∀ data v, P data → P (data.setTimeout v))
    (hmemsize : ∀ data v, P data → P (data.setMemsize v))
    (hcreate : ∀ data o v, o ∈ [Opt.references, .elements, .maxelem, .hashsize, .gc] → P data →
      P (data.setCreate o v)) : P (nla.store data) := by
  have hopt {f : Data → ℕ → Data} (hf : ∀ data v, P data → P (f data v)) (o : Option ℕ)
      {data : Data} (h : P data) : P (o.elim data (f data)) := by
    cases o with
    | none => exact h
    | some v => exact hf data v h
  have hstored (o : Opt) (ho : o ∈ [Opt.references, .elements, .maxelem, .hashsize, .gc]) :
      ∀ data v, P data → P (data.setCreate o v) := fun data v => hcreate data o v ho
  refine hopt hmemsize _ (hopt (hstored .references (by decide)) _ (hopt (hstored .elements
    (by decide)) _ (hopt (hstored .maxelem (by decide)) _ (hopt (hstored .hashsize (by decide)) _
      (hopt (hstored .gc (by decide)) _ (hopt htimeout _ h))))))

def headerKept : List Opt := [.setname, .type, .domain, .typename, .revision]

theorem store_create_keeps (nla : CreateNla) (data : Data) :
    (∀ o ∈ headerKept, (nla.store data).test o = data.test o) ∧
    (nla.store data).setname = data.setname ∧ (nla.store data).type = data.type ∧
    (nla.store data).typename = data.typename ∧ (nla.store data).revision = data.revision := by
  have hother {c o : Opt} (hc : c ∉ headerKept) (ho : o ∈ headerKept) (b : Bool) :
      (decide (o = c) || b) = b := by
    have hne : o ≠ c := fun h => hc (h ▸ ho)
    rw [decide_eq_false hne, Bool.false_or]
  refine store_create (P := fun d => (∀ o ∈ headerKept, d.test o = data.test o) ∧
    d.setname = data.setname ∧ d.type = data.type ∧ d.typename = data.typename ∧
    d.revision = data.revision) nla ⟨fun _ _ => rfl, rfl, rfl, rfl, rfl⟩ ?_ ?_ ?_
  · rintro d v ⟨htest, hrest⟩
    refine ⟨fun o ho => ?_, hrest⟩
    rw [Data.test_setTimeout, hother (by decide) ho, htest o ho]
  · rintro d v ⟨htest, hrest⟩
    refine ⟨fun o ho => ?_, hrest⟩
    rw [Data.test_setMemsize, hother (by decide) ho, htest o ho]
  · rintro d c v hc ⟨htest, hrest⟩
    refine ⟨fun o ho => ?_, hrest⟩
    have hkept : c ∉ headerKept := by
      revert c
      decide
    rw [Data.test_setCreate, hother hkept ho, htest o ho]

/-- The type a header names is the registered one, or an error is reported. -/
theorem dsetTypeCheck_ends {typename : SetName} {revision : ℕ}
    (htypename : d.session.data.getTypename = some typename)
    (hrevision : d.session.data.getRevision = some revision) :
    Ends dsetTypeCheck d
      (fun type d' =>
        (type = some dsetHashDomain0 ∧ ((d.kernelCheck != .mismatch) &&
            dsetMatchTypename typename.text && dsetHashDomain0.revision == revision) = true ∧
          d' = d.mapSession fun s => { s with data := s.data.setType dsetHashDomain0 }) ∨
        (type = none ∧ ((d.kernelCheck != .mismatch) && dsetMatchTypename typename.text &&
          dsetHashDomain0.revision == revision) = false ∧ d'.session.Reported))
      fun _ _ => False := by
  simp only [dsetTypeCheck, ends_bind, ends_session, htypename, hrevision, ends_get, ends_ite,
    ends_modifyData, ends_pure, ends_dsetErr]
  refine ⟨fun h => .inl ⟨trivial, ?_, trivial⟩, fun h => .inr ⟨trivial, ?_, ?_⟩⟩
  · simpa [and_assoc] using h
  · refine Bool.eq_false_iff.mpr fun h' => h ?_
    simpa [and_assoc] using h'
  · exact Session.reported_addReport _ _

/-- How a header ends: the listing is in its set, or it is refused. -/
def Starts (E : Env κ) (L : Listing) (name : SetName) (good : Bool) (ret : Option ℤ)
    (d' : Process κ) : Prop :=
  (ret = some mnlCbOk ∧ good = true ∧ InSet L ⟨name, true, false⟩ d') ∨
    Refuses E (good = false) ret d'

/-- A header is printed, and the listing is in its set. -/
theorem listCreate_ends {typename : SetName} {revision : ℕ} (h : Tracks L st d)
    (hname : d.session.data.test .setname = true)
    (hdomain : d.session.data.test .domain = false)
    (htypename : d.session.data.getTypename = some typename)
    (hrevision : d.session.data.getRevision = some revision) (nla : CreateNla) :
    Ends (listCreate E nla) d
      (fun ret d' => Starts E L st.saved (L.known && dsetMatchTypename typename.text &&
          dsetHashDomain0.revision == revision) ret d' ∧
        (ret = some mnlCbOk → d'.session.data.setname = d.session.data.setname))
      fun _ _ => False := by
  obtain ⟨htest, hset, htype', htypename', hrevision'⟩ := store_create_keeps nla d.session.data
  have hkept (o : Opt) (ho : o ∈ headerKept) := htest o ho
  have hgetTypename : (nla.store d.session.data).getTypename = some typename := by
    rw [← htypename]
    simp only [Data.getTypename, hkept .type (by decide), hkept .typename (by decide), htype',
      htypename']
  have hgetRevision : (nla.store d.session.data).getRevision = some revision := by
    rw [← hrevision]
    simp only [Data.getRevision, hkept .revision (by decide), hrevision']
  simp only [listCreate, ends_bind, ends_modifyData]
  refine (dsetTypeCheck_ends (d := d.mapSession fun s => { s with data := nla.store s.data })
    hgetTypename hgetRevision).mono (fun type d₁ h₁ => ?_) fun _ _ h => h.elim
  rw [show (d.mapSession fun s => { s with data := nla.store s.data }).kernelCheck =
    d.kernelCheck from rfl, h.known] at h₁
  rcases h₁ with ⟨rfl, hheader, rfl⟩ | ⟨rfl, hheader, hr⟩
  · have hin : InSet L ⟨st.saved, true, false⟩ (d.mapSession fun s =>
        { s with data := (nla.store s.data).setType dsetHashDomain0 }) := by
      refine ⟨{ h with type := ?_, typed := fun _ => rfl, domain := ?_ }, ?_, rfl⟩
      · exact Data.test_setType _ _ _
      · exact (Data.test_setType _ _ _).trans ((hkept .domain (by decide)).trans hdomain)
      · exact (Data.test_setType _ _ _).trans ((hkept .setname (by decide)).trans hname)
    have hgetSetname : ((nla.store d.session.data).setType dsetHashDomain0).getSetname =
        some d.session.data.setname := by
      rw [← hset]
      exact if_pos hin.2.1
    simp only [ends_bind, ends_session, hgetSetname, ends_ite, ends_modifySession, ends_pure]
    refine (printAll_ends (createTexts_short _ _ _ _ _) hin.1.fits).mono (fun ok d₂ h₂ => ?_)
      fun _ _ h => h.elim
    rcases h₂ with ⟨rfl, hp⟩ | ⟨rfl, hr, hE⟩
    · refine ⟨fun _ => ⟨.inl ⟨rfl, hheader, ?_⟩, fun _ => ?_⟩, fun h => absurd rfl h⟩
      · have hprinted := hin.printed hp
        exact ⟨{ hprinted.1 with }, hprinted.2⟩
      · obtain ⟨out, calls, -, rfl⟩ := hp
        exact hset
    · refine ⟨fun h => absurd h Bool.false_ne_true, fun _ => ⟨.inr ⟨.inl rfl, hr, ?_⟩, ?_⟩⟩
      · exact fun h => absurd h hE
      · exact fun h => absurd h (by decide)
  · exact ⟨.inr ⟨.inr rfl, hr, fun _ => hheader⟩, fun h => absurd h (by decide)⟩

/-- Behind the start of a header, only the name of the set is stored of the listing. -/
theorem Tracks.startHeader (h : Tracks L st d) (typename : SetName) (revision : ℕ) :
    Tracks L ⟨st.saved, false, false⟩
      (d.mapSession fun s => { s with data := s.data.startHeader typename revision }) := by
  have hoff (o : Opt) (ho : o ∈ [Opt.type, .domain]) :
      (d.session.data.startHeader typename revision).test o = false := by
    have hmem : o ∈ dsetCreateFlags ∧ o ≠ .family ∧ o ≠ .typename ∧ o ≠ .revision := by
      revert o
      decide
    simp [Data.startHeader, hmem]
  exact { h with
    type := hoff .type (by decide), domain := hoff .domain (by decide)
    typed := fun h => absurd h Bool.false_ne_true }

/-- The header in a message, which starts a set. -/
theorem listHeader_ends (cmd : Cmd) {nla : Nla} {data : Option CreateNla} (h : Tracks L st d)
    (hname : d.session.data.test .setname = true) (hdata : nla.data = some data) :
    Ends (listHeader E cmd nla data) d (Starts E L d.session.data.setname (L.header nla))
      fun _ _ => False := by
  have hbroken {d' : Process κ} (hheader : L.header nla = false) :
      Ends (do return some (← failure (.brokenMessage cmd))) d'
        (Starts E L d.session.data.setname (L.header nla)) fun _ _ => False := by
    refine .inr ⟨.inr rfl, ?_, fun _ => hheader⟩
    exact Session.reported_addReport _ _
  unfold listHeader
  cases htypename : nla.typename with
  | none => exact hbroken (by rw [Listing.header, htypename])
  | some typename =>
    cases hfamily : nla.family with
    | none => exact hbroken (by rw [Listing.header, htypename, hfamily])
    | some family =>
      cases hrevision : nla.revision with
      | none => exact hbroken (by rw [Listing.header, htypename, hfamily, hrevision])
      | some revision =>
        simp only [ends_bind, ends_modifyData]
        cases data with
        | none => exact hbroken (by rw [Listing.header, htypename, hfamily, hrevision, hdata])
        | some data =>
          have hheader : L.header nla = (L.known && dsetMatchTypename typename.text &&
              dsetHashDomain0.revision == revision) := by
            rw [Listing.header, htypename, hfamily, hrevision, hdata]
          have hstart := h.startHeader typename revision
          have hkeep : (d.session.data.startHeader typename revision).test .setname = true := by
            simp [Data.startHeader, hname, dsetCreateFlags]
          have hget : (d.session.data.startHeader typename revision).getTypename = some typename := by
            rw [Data.getTypename, if_neg (Bool.eq_false_iff.mp hstart.type)]
            exact if_pos (by simp [Data.startHeader])
          have hgetRevision :
              (d.session.data.startHeader typename revision).getRevision = some revision :=
            if_pos (by simp [Data.startHeader])
          rw [hheader]
          simp only [ends_bind, ends_ite, ends_modifySession, ends_pure]
          refine (listCreate_ends hstart hkeep hstart.domain hget hgetRevision data).mono
            (fun ret d₁ h₁ => ?_) fun _ _ h => h.elim
          obtain ⟨⟨rfl, hmatch, hin⟩ | hrefuses, hset⟩ := h₁
          · refine ⟨fun _ => .inl ⟨rfl, hmatch, ?_⟩, fun h => absurd rfl h⟩
            exact ⟨{ hin.1 with saved := hset rfl }, hin.2⟩
          · exact ⟨fun h => absurd h hrefuses.ne_ok, fun _ => .inr hrefuses⟩

/-- Sorted entries are printed; what cannot be printed stops them. -/
theorem printEntries_ends (entries : List Str) (hfit : d.session.out.Fits) :
    Ends (printEntries E entries) d (fun ok d' => Printed d d' ∧ (ok = false → ¬ E.Succeeds))
      fun _ _ => False := by
  induction entries generalizing d with
  | nil => exact ⟨.refl hfit, fun h => by cases h⟩
  | cons entry entries ih =>
    have hp (calls : ℕ) : Printed d
        (d.setOut { d.session.out with printed := d.session.out.printed ++ [entry] } calls) := by
      refine ⟨_, _, ?_, rfl⟩
      exact hfit
    simp only [printEntries, printOutfn, Prog.modifyOut, ends_bind, ends_modifySession, ends_ext,
      ends_ite, ends_pure]
    refine ⟨fun _ => ?_, fun h => ⟨hp _, fun _ => not_succeeds (Bool.eq_false_iff.mpr h)⟩⟩
    refine (ih (hp (d.calls + 1)).fits).mono (fun ok d' h => ?_) fun _ _ h => h
    exact ⟨(hp _).trans h.1, h.2⟩

theorem printSorted_ends (hfit : d.session.out.Fits) :
    Ends (printSorted E) d (fun ok d' => Printed d d' ∧ (ok = false → ¬ E.Succeeds))
      fun _ _ => False := by
  simp only [printSorted, Prog.modifyOut, ends_bind, ends_session, ends_ite, ends_modifySession,
    ends_pure]
  refine ⟨fun _ => ⟨.refl hfit, fun h => by cases h⟩, fun _ => ?_⟩
  refine (callOutfn_ends hfit).mono (fun ok d₁ h => ?_) fun _ _ h => h
  obtain ⟨hp, -, hE⟩ := h
  refine ⟨fun _ => ?_, fun hok => ⟨hp, fun _ => hE (Bool.eq_false_iff.mpr hok)⟩⟩
  refine (printEntries_ends _ hp.fits).mono (fun ok d₂ h => ?_) fun _ _ h => h
  refine ⟨fun _ => ⟨?_, fun h => by cases h⟩, fun hok => ⟨hp.trans h.1, fun _ => ?_⟩⟩
  · refine (hp.trans h.1).trans ⟨_, d₂.calls, ?_, rfl⟩
    exact (hp.trans h.1).fits
  · exact h.2 (Bool.eq_false_iff.mpr hok)

/-- The end of a set is printed, or there is an error report, or the strings did not get out. -/
theorem printSetDone_ends (callbackDone : Bool) (hfit : d.session.out.Fits) :
    Ends (printSetDone E callbackDone) d
      (fun ret d' =>
        (∃ r, ret = some r ∧ Printed d d' ∧
          (r = mnlCbStop ∨ (r = mnlCbError ∧ ¬ E.Succeeds))) ∨
        (ret = none ∧ d'.session.Reported ∧ ¬ E.Succeeds))
      fun _ _ => False := by
  unfold printSetDone
  refine (printSorted_ends hfit).bind (fun ok d₁ h => ?_) fun _ _ h => h
  obtain ⟨hp, hE⟩ := h
  cases ok with
  | false => exact .inl ⟨_, rfl, hp, .inr ⟨rfl, hE rfl⟩⟩
  | true =>
    simp only [Bool.not_true, Bool.false_eq_true, if_false, ends_bind, ends_session]
    refine (printAll_ends (doneTexts_short _ _) hp.fits).mono (fun ok d₂ h => ?_) fun _ _ h => h
    rcases h with ⟨rfl, hp₂⟩ | ⟨rfl, hr, hE₂⟩
    · simp only [Bool.not_true, Bool.false_eq_true, if_false, ends_bind, ends_ite, ends_pure]
      refine (callOutfn_ends hp₂.fits).mono (fun ok d₃ h => ?_) fun _ _ h => h
      have hp₃ := (hp.trans hp₂).trans h.1
      refine ⟨fun _ => .inl ⟨_, rfl, hp₃, .inl rfl⟩, fun hok => .inl ⟨_, rfl, hp₃, .inr ⟨rfl, ?_⟩⟩⟩
      exact h.2.2 (Bool.eq_false_iff.mpr hok)
    · exact .inr ⟨rfl, hr, hE₂⟩

theorem closeSaved_ends (h : Tracks L st d) (name : SetName) :
    Ends (closeSaved E name) d
      (fun ok d' => (ok = true ∧ Printed d d') ∨
        (ok = false ∧ d'.session.Reported ∧ ¬ E.Succeeds))
      fun _ _ => False := by
  simp only [closeSaved, ends_bind, ends_session, ends_ite, ends_pure]
  refine ⟨fun _ => ?_, fun _ => .inl ⟨trivial, .refl h.fits⟩⟩
  refine (printSetDone_ends false h.fits).mono (fun ret d' h' => ?_) fun _ _ h => h
  rcases h' with ⟨r, rfl, hp, -⟩ | ⟨rfl, hr, hE⟩
  · exact .inl ⟨rfl, hp⟩
  · exact .inr ⟨rfl, hr, hE⟩

/-- How a message ends: the listing goes on, or the message is refused. -/
def Lists (E : Env κ) (L : Listing) (next : Option ListState) (ret : Option ℤ)
    (d' : Process κ) : Prop :=
  (ret = some mnlCbOk ∧ ∃ st', next = some st' ∧ (L.names = false → st'.type = true) ∧
    Tracks L st' d') ∨ Refuses E (next = none) ret d'

theorem elements_lists (cmd : Cmd) (h : InSet L st d) (adts : Option (List (Option AdtNla))) :
    Ends (match adts with
      | none => do return some (← pushOut E)
      | some adts => listElements E tg cmd adts) d
      (Lists E L ((nextElements (adts.getD []) st.domain).map fun domain =>
        { st with domain := domain }))
      fun status _ => Aborts E (((nextElements (adts.getD []) st.domain).map fun domain =>
        { st with domain := domain }) = none) status := by
  have hlists {next : Option Bool} {ret : Option ℤ} {d' : Process κ}
      (h' : GoesOn E L st next ret d') :
      Lists E L (next.map fun domain => { st with domain := domain }) ret d' := by
    rcases h' with ⟨rfl, domain, rfl, hin⟩ | hrefuses
    · exact .inl ⟨rfl, _, rfl, fun _ => h.2.2, hin.1⟩
    · exact .inr (hrefuses.mono fun hnext => by rw [hnext, Option.map_none])
  cases adts with
  | none => exact (pushOut_goesOn h).mono (fun _ _ h' => hlists h') fun _ _ h => h.elim
  | some adts =>
    refine (listElements_ends cmd h adts).mono (fun _ _ h' => hlists h') fun status _ h' => ?_
    exact ⟨h'.1, fun hE => by rw [Option.getD_some, h'.2 hE, Option.map_none]⟩

theorem listParts_ends (cmd : Cmd) {name : SetName} {nla : Nla} (h : Tracks L st d)
    (hname : d.session.data.test .setname = true) (hset : d.session.data.setname = name)
    (htype : nla.data.isSome = true ∨ st.type = true) :
    Ends (listParts E tg cmd nla) d (Lists E L (L.parts st name nla))
      fun status _ => Aborts E (L.parts st name nla = none) status := by
  unfold listParts Listing.parts
  cases hdata : nla.data with
  | none =>
    have htype := htype.resolve_left (by rw [hdata]; exact Bool.false_ne_true)
    exact elements_lists cmd ⟨h, hname, htype⟩ nla.adt
  | some data =>
    refine (listHeader_ends cmd h hname hdata).bind (fun ret d₁ h₁ => ?_) fun _ _ h => h.elim
    rcases h₁ with ⟨rfl, hheader, hin⟩ | hrefuses
    · rw [hheader, hset] at *
      exact elements_lists cmd hin nla.adt
    · rw [if_neg hrefuses.ne_ok]
      refine .inr (hrefuses.mono fun hheader => ?_)
      rw [hheader]
      rfl

theorem listName_ends (h : Tracks L st d) (name : SetName) (hnames : L.names = true) :
    Ends (listName E name) d (Lists E L (some st)) fun _ _ => False := by
  have hshort : (if d.session.mode = .xml then bytes "<dset name=\"" ++ name.text ++ bytes "\"/>\n"
      else name.text ++ bytes "\n").length < dsetOutbuflen := by
    have hname := name.length_lt
    have hmax : dsetMaxnamelen = 32 := rfl
    have hb : dsetOutbuflen = 8192 := rfl
    have h1 : (bytes "<dset name=\"").length = 12 := by decide
    have h2 : (bytes "\"/>\n").length = 4 := by decide
    have h3 : (bytes "\n").length = 1 := by decide
    split <;> simp only [List.length_append] <;> omega
  simp only [listName, ends_bind, ends_session, ends_ite, ends_pure]
  refine (safeSnprintf_ends hshort h.fits).mono (fun ok d₁ h₁ => ?_) fun _ _ h => h
  rcases h₁ with ⟨rfl, hp⟩ | ⟨rfl, hr, hE⟩
  · refine ⟨fun _ => (pushOut_ends hp.fits).mono (fun ret d₂ h₂ => ?_) fun _ _ h => h,
      fun h => absurd rfl h⟩
    obtain ⟨hp₂, hret⟩ := h₂
    have h₂ := (h.printed hp).printed hp₂
    rcases hret with rfl | ⟨rfl, hE⟩
    · exact .inl ⟨rfl, st, rfl, fun hn => absurd hn (by rw [hnames]; decide), h₂⟩
    · exact .inr ⟨.inr rfl, h₂.reported, fun h => absurd h hE⟩
  · exact ⟨fun h => absurd h Bool.false_ne_true,
      fun _ => .inr ⟨.inl rfl, hr, fun h => absurd h hE⟩⟩

theorem Tracks.setSetname (h : Tracks L st d) (name : SetName) :
    Tracks L st (d.mapSession fun s => { s with data := s.data.setSetname name }) :=
  { h with
    type := (Data.test_setSetname _ _ _).trans h.type
    domain := (Data.test_setSetname _ _ _).trans h.domain }

theorem listSet_ends (cmd : Cmd) {name : SetName} {nla : Nla} (h : Tracks L st d)
    (hname : d.session.data.test .setname = true) (hset : d.session.data.setname = name)
    (htype : nla.data.isSome = true ∨ st.type = true ∨ L.names = true) :
    Ends (listSet E tg cmd name nla) d (Lists E L (L.nextIn st name nla))
      fun status _ => Aborts E (L.nextIn st name nla = none) status := by
  have hbroken {next : Option ListState} (hnext : next = none) :
      Ends (do return some (← failure (.brokenMessage cmd))) d (Lists E L next)
        fun status _ => Aborts E (next = none) status := by
    refine .inr ⟨.inr rfl, ?_, fun _ => hnext⟩
    exact Session.reported_addReport _ _
  have hnames : (d.session.envopts.listSetname = true ∧ d.session.mode ≠ .save) ↔
      L.names = true := by
    rw [← h.names, Bool.and_eq_true, bne_iff_ne]
  simp only [listSet, ends_bind, ends_session]
  unfold Listing.nextIn
  rw [← h.saved, ← h.type, ends_ite, hnames]
  refine ⟨fun hn => ?_, fun hn => ?_⟩
  · rw [if_pos hn]
    exact (listName_ends h name hn).mono (fun _ _ h => h) fun _ _ h => h.elim
  rw [if_neg hn, ends_ite]
  refine ⟨fun hextra => hbroken (if_pos hextra), fun hextra => ?_⟩
  rw [if_neg hextra, ends_ite]
  refine ⟨fun hmissing => hbroken (if_pos hmissing), fun hmissing => ?_⟩
  rw [if_neg hmissing]
  refine (closeSaved_ends h name).bind (fun ok d₁ h₁ => ?_) fun _ _ h => h.elim
  rcases h₁ with ⟨rfl, hp⟩ | ⟨rfl, hr, hE⟩
  · have h₁ := h.printed hp
    obtain ⟨out, calls, hfit, rfl⟩ := hp
    exact listParts_ends cmd h₁ hname hset (htype.imp_right fun h => h.resolve_right hn)
  · exact .inr ⟨.inl rfl, hr, fun h => absurd h hE⟩

def Called (E : Env κ) (L : Listing) (next : Option ListState) (ret : ℤ) (d' : Process κ) : Prop :=
  (ret = mnlCbOk ∧ ∃ st', next = some st' ∧ (L.names = false → st'.type = true) ∧
    Tracks L st' d') ∨
  (ret = mnlCbError ∧ d'.session.Reported ∧ (E.Succeeds → next = none))

/-- `callback_list` accepts a message for what it says, if all outside functions work. The
first message of a listing brings a header, unless names are listed. -/
theorem callbackList_ends (cmd : Cmd) {nla : Nla} (h : Tracks L st d)
    (htype : nla.data.isSome = true ∨ st.type = true ∨ L.names = true) :
    Ends (callbackList E tg cmd nla) d (Called E L (L.next st nla))
      fun status _ => Aborts E (L.next st nla = none) status := by
  unfold callbackList Listing.next
  cases nla.setname with
  | none =>
    refine .inr ⟨rfl, ?_, fun _ => rfl⟩
    exact Session.reported_addReport _ _
  | some name =>
    simp only [ends_bind, ends_modifyData, Option.bind_some]
    have hname : (d.session.data.setSetname name).test .setname = true :=
      Data.test_setSetname _ _ _
    refine (listSet_ends cmd (h.setSetname name) hname rfl htype).mono (fun ret d' h' => ?_)
      fun _ _ h => h
    rcases h' with ⟨rfl, h'⟩ | ⟨rfl | rfl, hr, hE⟩
    · exact .inl ⟨rfl, h'⟩
    · exact .inr ⟨rfl, hr, hE⟩
    · exact .inr ⟨rfl, hr, hE⟩

end

end Dset.User
