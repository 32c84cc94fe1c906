import Dset.Lib.StringTable
import Dset.User.ListingSpec

/-! What the output buffer of a listing stands for: text that is out for good, and the entries of
a sorted set, which wait until the set is complete. The buffer holds the end of the text, and
behind it the waiting entries, as strings with offsets; pieces that do not fit push the text
out or make the buffer grow, and none is lost by it. -/

namespace Dset.User

open Dset.Lib Dset.Core

variable {κ : Type} {E : Env κ} {d : Process κ}

/-- The text of a listing so far, and the entries that wait. -/
structure Sheet where
  text : Str
  waiting : List Str
  deriving DecidableEq

namespace Sheet

variable (s : Sheet)

/-- More text; behind entries that wait it is a part of the last one. -/
def put (t : Str) : Sheet :=
  if s.waiting = [] then { s with text := s.text ++ t }
  else { s with waiting := s.waiting.dropLast ++ [s.waiting.getLastD [] ++ t] }

/-- An entry of a set; it waits when the set is sorted. -/
def entry (sort : Bool) (t : Str) : Sheet :=
  if sort then { s with waiting := s.waiting ++ [t] } else s.put t

def close : Sheet := ⟨s.text ++ (s.waiting.mergeSort strcmpLe).flatten, []⟩

theorem put_of_nil {s : Sheet} (h : s.waiting = []) (t : Str) :
    s.put t = { s with text := s.text ++ t } := if_pos h

theorem put_concat (text : Str) (es : List Str) (e t : Str) :
    put ⟨text, es ++ [e]⟩ t = ⟨text, es ++ [e ++ t]⟩ := by
  have hne : es ++ [e] ≠ [] := List.append_ne_nil_of_right_ne_nil _ (List.cons_ne_nil _ _)
  rw [put, if_neg hne, List.dropLast_concat, List.getLastD_concat]

theorem put_nil : s.put [] = s := by
  obtain ⟨text, waiting⟩ := s
  rcases List.eq_nil_or_concat' waiting with rfl | ⟨es, e, rfl⟩
  · rw [put_of_nil rfl, List.append_nil]
  · rw [put_concat, List.append_nil]

theorem put_put (t t' : Str) : (s.put t).put t' = s.put (t ++ t') := by
  obtain ⟨text, waiting⟩ := s
  rcases List.eq_nil_or_concat' waiting with rfl | ⟨es, e, rfl⟩
  · rw [put_of_nil rfl, put_of_nil rfl, put_of_nil rfl, List.append_assoc]
  · rw [put_concat, put_concat, put_concat, List.append_assoc]

theorem waiting_put_of_nil {s : Sheet} (h : s.waiting = []) (t : Str) : (s.put t).waiting = [] := by
  rw [put_of_nil h]
  exact h

theorem close_of_nil {s : Sheet} (h : s.waiting = []) : s.close = s := by
  obtain ⟨text, waiting⟩ := s
  obtain rfl : waiting = [] := h
  rw [close, List.mergeSort_nil, List.flatten_nil, List.append_nil]

/-- An entry of a sorted set is a new string that grows. -/
theorem entry_sorted (t : Str) : s.entry true t = put { s with waiting := s.waiting ++ [[]] } t := by
  rw [put_concat, List.nil_append]
  rfl

end Sheet

/-- The output stands for the sheet: `base` was printed before it began, `off` are the offsets
that have not been entered yet. -/
structure Shows (base : List Str) (off : List ℕ) (s : Sheet) (o : Outbuf) : Prop where
  fits : o.Fits
  shown : ∃ h strs, o.printed = base ++ strs ∧ strs.flatten ++ h = s.text ∧ 0 ∉ h ∧
    o.buf = h ++ pack s.waiting ∧ o.sorted ++ off = offsets h.length s.waiting
  clean : ∀ e ∈ s.waiting, (0 : UInt8) ∉ e

/-- Only the output changed, and it stands for the sheet. -/
def Shown (base : List Str) (off : List ℕ) (s : Sheet) (d d' : Process κ) : Prop :=
  ∃ out calls, Shows base off s out ∧ d' = d.setOut out calls

variable {base : List Str} {off : List ℕ} {s : Sheet}

theorem Shown.refl (h : Shows base off s d.session.out) : Shown base off s d d :=
  ⟨_, _, h, rfl⟩

theorem Shown.trans {off' : List ℕ} {s' : Sheet} {d₁ d₂ d₃ : Process κ} (h : Shown base off s d₁ d₂)
    (h' : Shown base off' s' d₂ d₃) : Shown base off' s' d₁ d₃ := by
  obtain ⟨out, calls, -, rfl⟩ := h
  obtain ⟨out', calls', hshows, rfl⟩ := h'
  exact ⟨out', calls', hshows, rfl⟩

theorem Shown.shows {d' : Process κ} (h : Shown base off s d d') :
    Shows base off s d'.session.out := by
  obtain ⟨out, calls, hshows, rfl⟩ := h
  exact hshows

/-! ### Printing -/

/-- A text behind what is there, where it fits. -/
theorem Shows.append {o : Outbuf} (h : Shows base off s o) {text : Str} (h0 : (0 : UInt8) ∉ text)
    (hroom : text.length + o.buf.length < o.len) :
    Shows base off (s.put text) { o with buf := o.buf ++ text } := by
  obtain ⟨hfits, ⟨h, strs, hprinted, htext, hh0, hbuf, hsorted⟩, hclean⟩ := h
  have hfits' : Outbuf.Fits { o with buf := o.buf ++ text } := by
    refine ⟨?_, hfits.2⟩
    show (o.buf ++ text).length < o.len
    rw [List.length_append]
    omega
  obtain ⟨stext, waiting⟩ := s
  rcases List.eq_nil_or_concat' waiting with rfl | ⟨es, e, rfl⟩
  · rw [Sheet.put_of_nil rfl]
    refine ⟨hfits', ⟨h ++ text, strs, hprinted, ?_, ?_, ?_, hsorted⟩, hclean⟩
    · rw [← List.append_assoc, htext]
    · rw [List.mem_append]
      exact not_or.mpr ⟨hh0, h0⟩
    · show o.buf ++ text = _
      rw [hbuf]
      simp [pack]
  · rw [Sheet.put_concat]
    refine ⟨hfits', ⟨h, strs, hprinted, htext, hh0, ?_, ?_⟩, fun e' he' => ?_⟩
    · show o.buf ++ text = _
      rw [hbuf, pack_grow, List.append_assoc]
    · rw [offsets_grow]
      exact hsorted
    · rcases List.mem_append.mp he' with he' | he'
      · exact hclean e' (List.mem_append_left _ he')
      · rw [List.mem_singleton.mp he', List.mem_append]
        exact not_or.mpr ⟨hclean e (List.mem_append_right _ (List.mem_singleton_self e)), h0⟩

theorem callOutfn_shows (hE : E.Succeeds) (h : Shows base [] s d.session.out)
    (hnil : s.waiting = []) :
    Ends (callOutfn E) d
      (fun ok d' => ok = true ∧ Shown base [] s d d' ∧ d'.session.out.buf = [])
      fun _ _ => False := by
  obtain ⟨hfits, ⟨head, strs, hprinted, htext, hh0, hbuf, hsorted⟩, hclean⟩ := h
  have hlen : dsetOutbuflen ≤ d.session.out.len := hfits.2
  have hpos : 0 < dsetOutbuflen := by decide
  have hcstr : cstr d.session.out.buf = head := by
    rw [hbuf, hnil]
    exact cstr_append_pack hh0 []
  simp only [callOutfn, printOutfn, Prog.modifyOut, ends_bind, ends_session, ends_modifySession,
    ends_ext, ends_pure]
  refine ⟨hE _, ⟨_, _, ?_, rfl⟩, trivial⟩
  refine ⟨⟨lt_of_lt_of_le hpos hlen, hlen⟩, ⟨[], strs ++ [head], ?_, ?_, List.not_mem_nil, ?_, ?_⟩,
    hclean⟩
  · show d.session.out.printed ++ [cstr d.session.out.buf] = _
    rw [hcstr, hprinted, List.append_assoc]
  · rw [List.flatten_concat, List.append_nil, htext]
  · rw [hnil]
    rfl
  · rw [hnil] at hsorted ⊢
    exact hsorted

theorem tryPrint_shows (h : Shows base off s d.session.out) {text : Str}
    (h0 : (0 : UInt8) ∉ text) :
    Ends (tryPrint text) d
      (fun ok d' => (ok = true ∧ Shown base off (s.put text) d d') ∨
        (ok = false ∧ d' = d ∧ d.session.out.len ≤ text.length + d.session.out.buf.length))
      fun _ _ => False := by
  simp only [tryPrint, Prog.modifyOut, ends_bind, ends_session, ends_ite, ends_pure,
    ends_modifySession]
  refine ⟨fun hfull => .inr ⟨trivial, trivial, hfull⟩, fun hroom => .inl ⟨trivial, _, _, ?_, rfl⟩⟩
  exact h.append h0 (not_le.mp hroom)

theorem reallocOutbuf_shows (hE : E.Succeeds) (h : Shows base off s d.session.out) :
    Ends (reallocOutbuf E) d
      (fun ok d' => ok = true ∧ Shown base off s d d' ∧
        d'.session.out.buf = d.session.out.buf ∧
        d'.session.out.len = d.session.out.len + dsetOutbuflen)
      fun _ _ => False := by
  obtain ⟨⟨hbuf, hlen⟩, hshown, hclean⟩ := h
  simp only [reallocOutbuf, Prog.modifyOut, ends_bind, ends_ext, ends_ite, ends_pure,
    ends_modifySession, ends_dsetErr]
  refine ⟨fun _ => ⟨trivial, ⟨_, _, ?_, rfl⟩, trivial, trivial⟩, fun hfail => ?_⟩
  · exact ⟨⟨hbuf.trans_le (Nat.le_add_right _ _), hlen.trans (Nat.le_add_right _ _)⟩, hshown, hclean⟩
  · exact absurd (hE _) hfail

/-- Room for a text: nothing is lost by it. -/
theorem handleSnprintfError_shows (hE : E.Succeeds) (h : Shows base off s d.session.out)
    (hsort : d.session.sort = false → s.waiting = [] ∧ off = []) {text : Str}
    (htext : text.length < dsetOutbuflen) :
    Ends (handleSnprintfError E) d
      (fun ok d' => ok = true ∧ Shown base off s d d' ∧
        text.length + d'.session.out.buf.length < d'.session.out.len)
      fun _ _ => False := by
  simp only [handleSnprintfError, ends_bind, ends_session, ends_ite, ends_pure, ends_dsetErr]
  refine ⟨fun _ => ?_, fun hunsorted => ?_⟩
  · refine (reallocOutbuf_shows hE h).mono (fun ok d' h' => ?_) fun _ _ h => h
    obtain ⟨hok, hshown, hbuf, hlen⟩ := h'
    have hfit := h.fits.1
    rw [hbuf, hlen]
    exact ⟨hok, hshown, by omega⟩
  · obtain ⟨hnil, rfl⟩ := hsort (Bool.eq_false_iff.mpr hunsorted)
    refine (callOutfn_shows hE h hnil).mono (fun ok d' h' => ?_) fun _ _ h => h
    obtain ⟨rfl, hshown, hbuf⟩ := h'
    refine ⟨fun _ => ⟨trivial, hshown, ?_⟩, fun h => absurd rfl h⟩
    rw [hbuf]
    exact lt_of_lt_of_le htext hshown.shows.fits.2

/-- A text is put on the sheet, whether it fits at once or not. -/
theorem safeSnprintf_shows (hE : E.Succeeds) (h : Shows base off s d.session.out)
    (hsort : d.session.sort = false → s.waiting = [] ∧ off = []) {text : Str}
    (htext : text.length < dsetOutbuflen) (h0 : (0 : UInt8) ∉ text) :
    Ends (safeSnprintf E text) d (fun ok d' => ok = true ∧ Shown base off (s.put text) d d')
      fun _ _ => False := by
  unfold safeSnprintf
  refine (tryPrint_shows h h0).bind (fun ok d₁ h₁ => ?_) fun _ _ h => h
  rcases h₁ with ⟨rfl, hshown⟩ | ⟨rfl, rfl, -⟩
  · exact ⟨rfl, hshown⟩
  refine (handleSnprintfError_shows hE h hsort htext).bind (fun ok d₂ h₂ => ?_) fun _ _ h => h
  obtain ⟨rfl, hshown, hroom⟩ := h₂
  refine (tryPrint_shows hshown.shows h0).bind (fun ok d₃ h₃ => ?_) fun _ _ h => h
  rcases h₃ with ⟨rfl, hshown'⟩ | ⟨-, -, hfull⟩
  · exact ⟨rfl, hshown.trans hshown'⟩
  · exact absurd hfull (not_le.mpr hroom)

/-- Texts without zero bytes. -/
def Clean (texts : List Str) : Prop := ∀ text ∈ texts, (0 : UInt8) ∉ text

theorem printAll_shows (hE : E.Succeeds) (h : Shows base off s d.session.out)
    (hsort : d.session.sort = false → s.waiting = [] ∧ off = []) {texts : List Str}
    (hshort : Short texts) (hclean : Clean texts) :
    Ends (printAll E texts) d
      (fun ok d' => ok = true ∧ Shown base off (s.put texts.flatten) d d')
      fun _ _ => False := by
  induction texts generalizing s d with
  | nil =>
    rw [List.flatten_nil, Sheet.put_nil]
    exact ⟨rfl, .refl h⟩
  | cons text texts ih =>
    unfold printAll
    refine (safeSnprintf_shows hE h hsort (hshort _ List.mem_cons_self)
      (hclean _ List.mem_cons_self)).bind (fun ok d₁ h₁ => ?_) fun _ _ h => h
    obtain ⟨rfl, hshown⟩ := h₁
    have hsort₁ : d₁.session.sort = false → (s.put text).waiting = [] ∧ off = [] := by
      intro hunsorted
      obtain ⟨out, calls, -, rfl⟩ := hshown
      obtain ⟨hnil, hoff⟩ := hsort hunsorted
      exact ⟨Sheet.waiting_put_of_nil hnil text, hoff⟩
    refine (ih hshown.shows hsort₁ (fun t ht => hshort t (List.mem_cons_of_mem _ ht))
      fun t ht => hclean t (List.mem_cons_of_mem _ ht)).mono (fun ok d₂ h₂ => ?_) fun _ _ h => h
    obtain ⟨hok, hshown₂⟩ := h₂
    rw [Sheet.put_put] at hshown₂
    exact ⟨hok, hshown.trans hshown₂⟩

/-! ### Entries -/

/-- Room for the zero byte in front of an entry. -/
theorem sortRoom_shows (hE : E.Succeeds) (h : Shows base off s d.session.out) :
    Ends (sortRoom E) d
      (fun ok d' => ok = true ∧ Shown base off s d d' ∧
        (d.session.sort = true → d'.session.out.buf.length + 1 < d'.session.out.len))
      fun _ _ => False := by
  have hfit := h.fits.1
  have hb : dsetOutbuflen = 8192 := rfl
  simp only [sortRoom, ends_bind, ends_session, ends_ite, ends_pure, Bool.and_eq_true,
    decide_eq_true_eq]
  refine ⟨fun _ => ?_, fun hroom => ⟨trivial, .refl h, fun hsort => ?_⟩⟩
  · refine (reallocOutbuf_shows hE h).mono (fun ok d' h' => ?_) fun _ _ h => h
    obtain ⟨hok, hshown, hbuf, hlen⟩ := h'
    refine ⟨hok, hshown, fun _ => ?_⟩
    rw [hbuf, hlen]
    omega
  · exact not_le.mp (not_and.mp hroom hsort)

/-- A sorted entry starts as an empty string behind the others. -/
theorem startEntry_shows (h : Shows base [] s d.session.out)
    (hroom : d.session.sort = true → d.session.out.buf.length + 1 < d.session.out.len) :
    Ends startEntry d
      (fun offset d' =>
        (d.session.sort = true ∧ Shown base [offset] { s with waiting := s.waiting ++ [[]] } d d') ∨
        (d.session.sort = false ∧ d' = d))
      fun _ _ => False := by
  obtain ⟨hfits, ⟨head, strs, hprinted, htext, hh0, hbuf, hsorted⟩, hclean⟩ := h
  simp only [startEntry, Prog.modifyOut, ends_bind, ends_session, ends_ite, ends_pure,
    ends_modifySession]
  refine ⟨fun hsort => .inl ⟨hsort, _, d.calls, ?_, rfl⟩,
    fun hsort => .inr ⟨Bool.eq_false_iff.mpr hsort, trivial⟩⟩
  have hnew : d.session.out.buf ++ [0] = head ++ pack (s.waiting ++ [[]]) := by
    rw [hbuf, pack_concat, List.append_assoc]
  refine ⟨⟨?_, hfits.2⟩, ⟨head, strs, hprinted, htext, hh0, hnew, ?_⟩, fun e he => ?_⟩
  · show (d.session.out.buf ++ [0]).length < _
    rw [List.length_append]
    exact hroom hsort
  · have hlen : (d.session.out.buf ++ [0]).length = head.length + (pack s.waiting).length + 1 := by
      rw [hbuf, List.length_append, List.length_append]
      rfl
    show d.session.out.sorted ++ [(d.session.out.buf ++ [0]).length] = _
    rw [offsets_concat, ← hsorted, List.append_nil, hlen]
  · rcases List.mem_append.mp he with he | he
    · exact hclean e he
    · rw [List.mem_singleton.mp he]
      exact List.not_mem_nil

theorem sortEntry_shows (hE : E.Succeeds) {offset : ℕ} (h : Shows base [offset] s d.session.out) :
    Ends (sortEntry E offset) d (fun ok d' => ok = true ∧ Shown base [] s d d')
      fun _ _ => False := by
  obtain ⟨hfits, ⟨head, strs, hprinted, htext, hh0, hbuf, hsorted⟩, hclean⟩ := h
  have hentered (calls : ℕ) : Shown base [] s d (d.setOut { d.session.out with
      pool := d.session.out.pool - 1, sorted := d.session.out.sorted ++ [offset] } calls) := by
    refine ⟨_, _, ?_, rfl⟩
    refine ⟨hfits, ⟨head, strs, hprinted, htext, hh0, hbuf, ?_⟩, hclean⟩
    rw [List.append_nil]
    exact hsorted
  simp only [sortEntry, Prog.modifyOut, ends_bind, ends_session, ends_ite, ends_pure, ends_ext,
    ends_modifySession, ends_dsetErr]
  refine ⟨fun _ => ⟨fun _ => ⟨trivial, hentered _⟩, fun h => absurd trivial h⟩,
    fun _ => ⟨fun _ => ⟨trivial, hentered _⟩, fun hfail => absurd (hE _) hfail⟩⟩

/-- An element is printed, or entered where the set is sorted. -/
theorem printAdt_shows (hE : E.Succeeds) (h : Shows base [] s d.session.out)
    (hsort : d.session.sort = false → s.waiting = []) {name : SetName} {domain : Str}
    (hname : d.session.data.getSetname = some name) (hdomain : d.session.data.getDomain = some domain)
    (hshort : Short (adtTexts d.session.mode name domain d.session.data.getTimeout))
    (hclean : Clean (adtTexts d.session.mode name domain d.session.data.getTimeout)) :
    Ends (printAdt E) d
      (fun ok d' => ok = true ∧ Shown base [] (s.entry d.session.sort
        (adtTexts d.session.mode name domain d.session.data.getTimeout).flatten) d d')
      fun _ _ => False := by
  unfold printAdt
  refine (sortRoom_shows hE h).bind (fun ok d₁ h₁ => ?_) fun _ _ h => h
  obtain ⟨rfl, hshown₁, hroom⟩ := h₁
  obtain ⟨out₁, calls₁, hshows₁, rfl⟩ := hshown₁
  refine (startEntry_shows hshows₁ hroom).bind (fun offset d₂ h₂ => ?_) fun _ _ h => h
  rcases h₂ with ⟨hsorted, out₂, calls₂, hshows₂, rfl⟩ | ⟨hunsorted, rfl⟩
  · replace hsorted : d.session.sort = true := hsorted
    simp only [ends_bind, ends_session, hname, hdomain, hsorted, ends_ite, ends_pure]
    refine (printAll_shows (d := d.setOut out₂ calls₂) hE hshows₂
      (fun h => absurd (hsorted.symm.trans h) (by decide)) hshort hclean).mono (fun ok d₃ h₃ => ?_) fun _ _ h => h
    obtain ⟨rfl, hshown₃⟩ := h₃
    refine ⟨fun _ => ⟨fun _ => ?_, fun h => absurd trivial h⟩, fun h => absurd rfl h⟩
    refine (sortEntry_shows hE hshown₃.shows).mono (fun ok d₄ h₄ => ?_) fun _ _ h => h
    obtain ⟨hok, hshown₄⟩ := h₄
    rw [Sheet.entry_sorted]
    exact ⟨hok, Shown.trans ⟨out₂, calls₂, hshows₂, rfl⟩ (hshown₃.trans hshown₄)⟩
  · replace hunsorted : d.session.sort = false := hunsorted
    simp only [ends_bind, ends_session, hname, hdomain, hunsorted, ends_ite, ends_pure]
    refine (printAll_shows hE hshows₁ (fun _ => ⟨hsort hunsorted, rfl⟩) hshort hclean).mono
      (fun ok d₃ h₃ => ?_) fun _ _ h => h
    obtain ⟨rfl, hshown₃⟩ := h₃
    refine ⟨fun _ => ⟨fun h => absurd h Bool.false_ne_true, fun _ => ⟨trivial, ?_⟩⟩,
      fun h => absurd rfl h⟩
    exact Shown.trans ⟨out₁, calls₁, hshows₁, rfl⟩ hshown₃

/-! ### The end of a set -/

theorem printEntries_all (hE : E.Succeeds) (entries : List Str) :
    Ends (printEntries E entries) d
      (fun ok d' => ok = true ∧ ∃ calls, d' = d.setOut
        { d.session.out with printed := d.session.out.printed ++ entries } calls)
      fun _ _ => False := by
  induction entries generalizing d with
  | nil =>
    refine ⟨rfl, d.calls, ?_⟩
    rw [List.append_nil]
  | cons entry entries ih =>
    simp only [printEntries, printOutfn, Prog.modifyOut, ends_bind, ends_modifySession, ends_ext,
      ends_ite, ends_pure]
    refine ⟨fun _ => ih.mono (fun ok d' h => ?_) fun _ _ h => h, fun hfail => absurd (hE _) hfail⟩
    obtain ⟨hok, calls, rfl⟩ := h
    refine ⟨hok, calls, ?_⟩
    rw [show d.session.out.printed ++ entry :: entries =
      (d.session.out.printed ++ [entry]) ++ entries by simp]

/-- The text in front of the entries is printed, and then the entries in order. -/
theorem printSorted_shows (hE : E.Succeeds) (h : Shows base [] s d.session.out)
    (hsort : d.session.sort = false → s.waiting = []) :
    Ends (printSorted E) d (fun ok d' => ok = true ∧ Shown base [] s.close d d')
      fun _ _ => False := by
  obtain ⟨hfits, ⟨head, strs, hprinted, htext, hh0, hbuf, hsorted⟩, hclean⟩ := h
  have hpos : 0 < dsetOutbuflen := by decide
  have hcstr : cstr d.session.out.buf = head := by
    rw [hbuf]
    exact cstr_append_pack hh0 _
  have hentries : (d.session.out.sorted.map fun offset => cstr (d.session.out.buf.drop offset)) =
      s.waiting := by
    rw [hbuf, ← List.append_nil d.session.out.sorted, hsorted]
    exact cstr_at_offsets head hclean
  simp only [printSorted, callOutfn, printOutfn, Prog.modifyOut, ends_bind, ends_session, ends_ite,
    ends_modifySession, ends_ext, ends_pure]
  refine ⟨fun hunsorted => ⟨trivial, ?_⟩, fun _ => ⟨fun _ => ?_, fun hfail => absurd (hE _) hfail⟩⟩
  · have hnil : s.waiting = [] := hsort (by simpa using hunsorted)
    rw [Sheet.close_of_nil hnil]
    exact .refl ⟨hfits, ⟨head, strs, hprinted, htext, hh0, hbuf, hsorted⟩, hclean⟩
  · refine (printEntries_all hE _).mono (fun ok d' h => ?_) fun _ _ h => h
    obtain ⟨rfl, calls, rfl⟩ := h
    refine ⟨fun _ => ⟨trivial, _, _, ?_, rfl⟩, fun h => absurd rfl h⟩
    refine ⟨⟨lt_of_lt_of_le hpos hfits.2, hfits.2⟩,
      ⟨[], strs ++ [head] ++ s.waiting.mergeSort strcmpLe, ?_, ?_, List.not_mem_nil, rfl, rfl⟩,
      fun e he => absurd he List.not_mem_nil⟩
    · show d.session.out.printed ++ [cstr d.session.out.buf] ++
        (d.session.out.sorted.map fun offset => cstr (d.session.out.buf.drop offset)).mergeSort
          strcmpLe = _
      rw [hcstr, hentries, hprinted, List.append_assoc, List.append_assoc, List.append_assoc]
    · rw [List.append_nil, List.flatten_append, List.flatten_concat, htext]
      rfl

theorem doneTexts_clean (t : Session) (callbackDone : Bool) : Clean (doneTexts t callbackDone) := by
  unfold Clean doneTexts
  split <;> split <;> try split
  all_goals decide

/-- A set is closed: its entries are put in order, and the buffer is empty. -/
theorem printSetDone_shows (hE : E.Succeeds) (h : Shows base [] s d.session.out)
    (hsort : d.session.sort = false → s.waiting = []) (callbackDone : Bool) :
    Ends (printSetDone E callbackDone) d
      (fun ret d' => ret = some mnlCbStop ∧
        Shown base [] (s.close.put (doneTexts d.session callbackDone).flatten) d d' ∧
        d'.session.out.buf = [])
      fun _ _ => False := by
  unfold printSetDone
  refine (printSorted_shows hE h hsort).bind (fun ok d₁ h₁ => ?_) fun _ _ h => h
  obtain ⟨rfl, out₁, calls₁, hshows₁, rfl⟩ := h₁
  simp only [Bool.not_true, Bool.false_eq_true, if_false, ends_bind, ends_session]
  refine (printAll_shows hE hshows₁ (fun _ => ⟨rfl, rfl⟩) (doneTexts_short _ _)
    (doneTexts_clean _ _)).mono (fun ok d₂ h₂ => ?_) fun _ _ h => h
  obtain ⟨rfl, hshown₂⟩ := h₂
  simp only [Bool.not_true, Bool.false_eq_true, if_false, ends_bind, ends_ite, ends_pure]
  refine (callOutfn_shows hE hshown₂.shows (Sheet.waiting_put_of_nil rfl _)).mono
    (fun ok d₃ h₃ => ?_) fun _ _ h => h
  obtain ⟨rfl, hshown₃, hnil⟩ := h₃
  refine ⟨fun _ => ⟨trivial, ?_, hnil⟩, fun h => absurd rfl h⟩
  exact Shown.trans ⟨out₁, calls₁, hshows₁, rfl⟩ (hshown₂.trans hshown₃)

end Dset.User
