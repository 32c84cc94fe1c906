import Dset.User.Reader

/-! The arguments of a line. The grammar marks every character with the quote it stands in and
splits at the blanks outside quotes; `build_argv` keeps the open argument and the quote state
in a loop that looks at the end of the line once in every kind of character. The two agree on
every line whose quotes are balanced and on every other line that ends in something other than
a blank. Behind a quoted blank the loop goes on without its test of the end, so that a line cut
there is accepted without its open argument. -/

namespace Dset.User

open Dset.Lib Dset.Core

variable {κ : Type}

/-! ### The grammar -/

/-- A character that separates arguments. -/
def isSep (c : UInt8) : Bool := c = 32 || c = 13 || c = 10 || c = 9

theorem isSep_iff {c : UInt8} : isSep c = true ↔ c = 32 ∨ c = 13 ∨ c = 10 ∨ c = 9 := by
  simp [isSep, or_assoc]

theorem ne_quote_of_isSep {c : UInt8} (hc : isSep c = true) : c ≠ 34 := by
  rintro rfl
  exact absurd hc (by decide)

/-- A character that does not belong to an argument. -/
theorem blank_of_not {quoted : Bool} {c : UInt8} (hc : ¬ (quoted = true ∨ isSep c = false)) :
    quoted = false ∧ isSep c = true :=
  ⟨Bool.eq_false_iff.mpr (not_or.mp hc).1, Bool.not_eq_false _ ▸ (not_or.mp hc).2⟩

/-- The characters of a line, each with whether it stands in quotes. -/
def marked (quoted : Bool) : Str → List (UInt8 × Bool)
  | [] => []
  | c :: l => (c, quoted) :: marked (quoted ^^ c = 34) l

/-- A part of a line without its quotes. -/
def unquote (t : List (UInt8 × Bool)) : Str := (t.map (·.1)).filter (· ≠ 34)

/-- The parts of a line between the blanks outside quotes. -/
def partsFrom (quoted : Bool) (line : Str) : List Str :=
  ((marked quoted line).splitOnP fun p => !p.2 && isSep p.1).map unquote

def tokens (line : Str) : List Str := (partsFrom false line).filter (· ≠ [])

def Balanced (line : Str) : Prop := line.count 34 % 2 = 0

instance (line : Str) : Decidable (Balanced line) := inferInstanceAs (Decidable (_ = _))

def endsInSep (line : Str) : Bool := line.getLast?.any isSep

/-- The arguments still to come behind an open one. -/
def tokensFrom (quoted : Bool) (arg line : Str) : List Str :=
  ((partsFrom quoted line).modifyHead (arg ++ ·)).filter (· ≠ [])

theorem modifyHead_nil_append (ts : List Str) : ts.modifyHead ([] ++ ·) = ts := by
  cases ts <;> rfl

theorem tokens_eq (line : Str) : tokens line = tokensFrom false [] line := by
  rw [tokens, tokensFrom, modifyHead_nil_append]

theorem tokensFrom_nil (quoted : Bool) (arg : Str) :
    tokensFrom quoted arg [] = [arg].filter (· ≠ []) := by
  simp [tokensFrom, partsFrom, marked, unquote]

theorem modifyHead_map_unquote (p : UInt8 × Bool) (ps : List (List (UInt8 × Bool))) :
    (ps.modifyHead (p :: ·)).map unquote = (ps.map unquote).modifyHead (unquote [p] ++ ·) := by
  cases ps with
  | nil => rfl
  | cons t ps =>
    have h : unquote (p :: t) = unquote [p] ++ unquote t := by
      unfold unquote
      rw [← List.filter_append]
      rfl
    rw [List.modifyHead_cons, List.map_cons, List.map_cons, List.modifyHead_cons, h]

theorem tokensFrom_sep {c : UInt8} (hc : isSep c = true) (arg l : Str) :
    tokensFrom false arg (c :: l) = [arg].filter (· ≠ []) ++ tokensFrom false [] l := by
  have h34 : c ≠ 34 := ne_quote_of_isSep hc
  have hparts : partsFrom false (c :: l) = [] :: partsFrom false l := by
    unfold partsFrom
    rw [marked, List.splitOnP_cons_eq_if_modifyHead]
    simp [hc, h34, unquote]
  unfold tokensFrom
  rw [hparts, List.modifyHead_cons, List.append_nil, ← List.singleton_append, List.filter_append]
  rw [modifyHead_nil_append]

/-- Any other character belongs to the open argument, apart from the quotes. -/
theorem tokensFrom_cons {quoted : Bool} {c : UInt8} (hc : quoted = true ∨ isSep c = false)
    (arg l : Str) :
    tokensFrom quoted arg (c :: l)
      = tokensFrom (quoted ^^ c = 34) (arg ++ [c].filter (· ≠ 34)) l := by
  have hparts : partsFrom quoted (c :: l)
      = (partsFrom (quoted ^^ c = 34) l).modifyHead ([c].filter (· ≠ 34) ++ ·) := by
    unfold partsFrom
    rw [marked, List.splitOnP_cons_eq_if_modifyHead]
    have hsep : (!quoted && isSep c) = false := by
      rcases hc with rfl | hc
      · rfl
      · rw [hc, Bool.and_false]
    rw [if_neg (by simp [hsep]), modifyHead_map_unquote]
    rfl
  unfold tokensFrom
  rw [hparts, List.modifyHead_modifyHead]
  congr 2
  funext t
  exact (List.append_assoc _ _ _).symm

/-- A string without a quote is the rest of a quoted argument. -/
theorem tokensFrom_quoted {c : Str} (hc : 34 ∉ c) (arg l : Str) :
    tokensFrom true arg (c ++ l) = tokensFrom true (arg ++ c) l := by
  induction c generalizing arg with
  | nil => rw [List.nil_append, List.append_nil]
  | cons x c ih =>
    obtain ⟨hx, hc⟩ := not_or.mp (mt List.mem_cons.mpr hc)
    have hx : x ≠ 34 := Ne.symm hx
    rw [List.cons_append, tokensFrom_cons (.inl rfl), decide_eq_false hx]
    have hfilter : [x].filter (· ≠ 34) = [x] := by simp [hx]
    rw [hfilter, Bool.xor_false, ih hc, List.append_assoc, List.singleton_append]

def quotedAfter (quoted : Bool) (line : Str) : Bool := line.foldl (fun q c => q ^^ c = 34) quoted

theorem quotedAfter_cons (quoted : Bool) (c : UInt8) (l : Str) :
    quotedAfter quoted (c :: l) = quotedAfter (quoted ^^ c = 34) l := rfl

theorem quotedAfter_append (quoted : Bool) (l l' : Str) :
    quotedAfter quoted (l ++ l') = quotedAfter (quotedAfter quoted l) l' := List.foldl_append

/-- The arguments of a line behind a blank outside quotes are read for themselves. -/
theorem tokensFrom_append {quoted : Bool} {arg pre : Str} (l : Str)
    (hq : quotedAfter quoted pre = false) (hend : endsInSep pre = true) :
    tokensFrom quoted arg (pre ++ l) = tokensFrom quoted arg pre ++ tokensFrom false [] l := by
  induction pre generalizing arg quoted with
  | nil => cases hend
  | cons c pre ih =>
    rw [quotedAfter_cons] at hq
    have hend' (hpre : pre ≠ []) : endsInSep pre = true := by
      rwa [endsInSep, List.getLast?_cons_of_ne_nil hpre] at hend
    rw [List.cons_append]
    by_cases hc : quoted = true ∨ isSep c = false
    · have hpre : pre ≠ [] := by
        rintro rfl
        have hsep : isSep c = true := hend
        rw [hc.resolve_right (by simp [hsep]), decide_eq_false (ne_quote_of_isSep hsep)] at hq
        cases hq
      rw [tokensFrom_cons hc, tokensFrom_cons hc, ih hq (hend' hpre)]
    · obtain ⟨rfl, hsep⟩ := blank_of_not hc
      rw [decide_eq_false (ne_quote_of_isSep hsep), Bool.xor_false] at hq
      rw [tokensFrom_sep hsep, tokensFrom_sep hsep, List.append_assoc]
      by_cases hpre : pre = []
      · subst hpre
        rfl
      · rw [ih hq (hend' hpre)]

/-- A newline behind a line whose quotes are closed adds no argument. -/
theorem tokensFrom_concat {quoted : Bool} {arg l : Str} (hq : quotedAfter quoted l = false) :
    tokensFrom quoted arg (l ++ [10]) = tokensFrom quoted arg l := by
  induction l generalizing arg quoted with
  | nil =>
    obtain rfl : quoted = false := hq
    rw [List.nil_append, tokensFrom_sep rfl, tokensFrom_nil, tokensFrom_nil]
    exact List.append_nil _
  | cons c l ih =>
    rw [quotedAfter_cons] at hq
    rw [List.cons_append]
    by_cases hc : quoted = true ∨ isSep c = false
    · rw [tokensFrom_cons hc, tokensFrom_cons hc, ih hq]
    · obtain ⟨rfl, hsep⟩ := blank_of_not hc
      rw [decide_eq_false (ne_quote_of_isSep hsep), Bool.xor_false] at hq
      rw [tokensFrom_sep hsep, tokensFrom_sep hsep, ih hq]

theorem quotedAfter_eq (quoted : Bool) (line : Str) :
    quotedAfter quoted line = (quoted ^^ line.count 34 % 2 = 1) := by
  induction line generalizing quoted with
  | nil => simp [quotedAfter]
  | cons c l ih =>
    rw [quotedAfter_cons, ih, List.count_cons, Bool.xor_assoc]
    congr 1
    by_cases hc : c = 34
    · have hmod : (l.count 34 + 1) % 2 = 1 ↔ ¬ l.count 34 % 2 = 1 := by omega
      rw [if_pos (beq_iff_eq.mpr hc), decide_eq_true hc, decide_eq_decide.mpr hmod, decide_not,
        Bool.true_xor]
    · rw [if_neg (by simpa using hc), decide_eq_false hc, Bool.false_xor, Nat.add_zero]

theorem balanced_iff (line : Str) : Balanced line ↔ quotedAfter false line = false := by
  rw [quotedAfter_eq, Bool.false_xor, decide_eq_false_iff_not, Balanced]
  omega

/-! ### The loop -/

/-- The arguments the loop of `build_argv` leaves, when nothing else fails; none with an
error. -/
def readArgv : Argv → Str → Option (List Str)
  | a, [] => some a.args
  | a, c :: l =>
    if a.args.length + 1 + 1 = maxArgs then none
    else
      match a.step c l.isEmpty with
      | .read a => readArgv a l
      | .missingQuote => none
      | .endArg a => readArgv ⟨a.args ++ [a.arg], [], a.quoted⟩ l

/-- The error functions of a library user return a negative value. -/
def Process.ErrorsNegative (d : Process κ) : Prop :=
  ∀ f, d.errorFns.custom = some f → ∀ n, f.ret n < 0

theorem customError_negative {d : Process κ} (h : d.ErrorsNegative) {status : Problem}
    (hstatus : status ≠ .none) :
    Ends (Prog.customError status) d (fun ret _ => ret < 0) fun n _ => n ≠ 0 := by
  simp only [Prog.customError, ends_bind, ends_get]
  cases hf : d.errorFns.custom with
  | some f =>
    simp only [Prog.callErrorFn, ends_bind, ends_get, ends_modify, ends_ite, ends_pure,
      ends_modifySession]
    exact ⟨fun _ => h f hf _, fun _ => h f hf _⟩
  | none =>
    simp only [Prog.defaultCustomError, ends_bind, ends_get, ends_ite, ends_modifySession,
      ends_pure, ends_exit]
    refine ⟨fun _ => by decide, fun _ => ?_⟩
    cases status with
    | none => exact absurd rfl hstatus
    | other | parameter | version | session => decide

/-- A line is read, or an error is reported. -/
def ReadOr (read : Option (List Str)) (r : ℤ × List Str) : Prop :=
  r.1 < 0 ∨ (r.1 = 0 ∧ read = some r.2)

theorem failed_ends {d : Process κ} (h : d.ErrorsNegative) {status : Problem}
    (hstatus : status ≠ .none) (args : List Str) (read : Option (List Str)) :
    Ends (Prog.customError status) d (fun ret _ => ReadOr read (ret, args)) fun n _ => n ≠ 0 :=
  (customError_negative h hstatus).mono (fun _ _ hneg => .inl hneg) fun _ _ h => h

theorem buildArgvLoop_ends (E : Env κ) (a : Argv) (line : Str) {d : Process κ}
    (h : d.ErrorsNegative) :
    Ends (buildArgvLoop E a line) d (fun r _ => ReadOr (readArgv a line) r) fun n _ => n ≠ 0 := by
  induction line generalizing a d with
  | nil => exact .inr ⟨rfl, rfl⟩
  | cons c l ih =>
    unfold buildArgvLoop readArgv
    rw [ends_ite]
    simp only [ends_bind, ends_pure]
    refine ⟨fun hmax => failed_ends h Problem.noConfusion _ _, fun hmax => ?_⟩
    rw [if_neg hmax]
    cases a.step c l.isEmpty with
    | read a => exact ih a h
    | missingQuote =>
      simp only [ends_bind, ends_pure]
      exact failed_ends h Problem.noConfusion _ _
    | endArg a =>
      simp only [ends_bind, ends_ext, ends_ite, ends_pure]
      exact ⟨fun _ => ih _ h, fun _ => failed_ends (by exact h) Problem.noConfusion _ _⟩

theorem buildArgv_ends (E : Env κ) (line : Str) {d : Process κ} (h : d.ErrorsNegative) :
    Ends (buildArgv E line) d (fun r _ => ReadOr (readArgv ⟨[], [], false⟩ line) r)
      fun n _ => n ≠ 0 := by
  simp only [buildArgv, ends_bind, ends_ext, ends_ite, ends_pure]
  exact ⟨fun _ => buildArgvLoop_ends E _ line h,
    fun _ => failed_ends (by exact h) Problem.noConfusion _ _⟩

/-- A line that is read: only functions outside the library were called. -/
theorem buildArgvLoop_returns {E : Env κ} (hE : E.Succeeds) {a : Argv} {line : Str}
    {args : List Str} {d : Process κ} (h : readArgv a line = some args) :
    Ends (buildArgvLoop E a line) d (fun r d' => r = (0, args) ∧ ∃ n, d' = { d with calls := n })
      fun _ _ => False := by
  induction line generalizing a d with
  | nil => exact ⟨congrArg (Prod.mk 0) (Option.some.inj h), d.calls, rfl⟩
  | cons c l ih =>
    unfold readArgv at h
    unfold buildArgvLoop
    split at h
    · cases h
    next hmax =>
      rw [if_neg hmax]
      cases hstep : a.step c l.isEmpty with
      | read a =>
        rw [hstep] at h
        exact ih h
      | missingQuote =>
        rw [hstep] at h
        cases h
      | endArg a =>
        rw [hstep] at h
        simp only [ends_bind, ends_ext, ends_ite]
        exact ⟨fun _ => ih h, fun hf => absurd (hE _) hf⟩

theorem buildArgv_returns {E : Env κ} (hE : E.Succeeds) {line : Str} {args : List Str}
    {d : Process κ} (h : readArgv ⟨[], [], false⟩ line = some args) :
    Ends (buildArgv E line) d (fun r d' => r = (0, args) ∧ ∃ n, d' = { d with calls := n })
      fun _ _ => False := by
  simp only [buildArgv, ends_bind, ends_ext, ends_ite]
  exact ⟨fun _ => buildArgvLoop_returns hE h, fun hf => absurd (hE _) hf⟩

/-! ### The loop against the grammar -/

section Loop

variable {args : List Str} {arg : Str} {c : UInt8} {l : Str}

/-- Not yet as many arguments as the loop takes. -/
def Fits (args : List Str) : Prop := ¬ args.length + 1 + 1 = maxArgs

theorem readArgv_full {a : Argv} (h : ¬ Fits a.args) : readArgv a (c :: l) = none :=
  if_pos (not_not.mp h)

theorem readArgv_sep (hfits : Fits args) (hc : isSep c = true) :
    readArgv ⟨args, arg, false⟩ (c :: l)
      = readArgv ⟨args ++ [arg].filter (· ≠ []), [], false⟩ l := by
  rw [readArgv, if_neg hfits]
  simp only [Argv.step, if_neg (ne_quote_of_isSep hc), if_pos (isSep_iff.mp hc)]
  by_cases harg : arg = [] <;> simp [harg]

theorem readArgv_go {quoted : Bool} (hfits : Fits args) (hc : quoted = true ∨ isSep c = false)
    (hl : l ≠ []) :
    readArgv ⟨args, arg, quoted⟩ (c :: l)
      = readArgv ⟨args, arg ++ [c].filter (· ≠ 34), quoted ^^ c = 34⟩ l := by
  rw [readArgv, if_neg hfits]
  have hlast : l.isEmpty = false := List.isEmpty_eq_false_iff.mpr hl
  unfold Argv.step
  by_cases h34 : c = 34
  · simp [h34, hlast]
  · by_cases hsep : isSep c = true
    · have hq : quoted = true := hc.resolve_right (Bool.not_eq_false _ ▸ hsep)
      simp [h34, isSep_iff.mp hsep, hq]
    · simp [h34, mt isSep_iff.mpr hsep, hlast]

theorem readArgv_last {quoted : Bool} (hfits : Fits args) (hc : isSep c = false) :
    readArgv ⟨args, arg, quoted⟩ [c]
      = if quoted ^^ c = 34 then none
        else some (args ++ [arg ++ [c].filter (· ≠ 34)].filter (· ≠ [])) := by
  rw [readArgv, if_neg hfits]
  unfold Argv.step
  have hsep : ¬ (c = 32 ∨ c = 13 ∨ c = 10 ∨ c = 9) := mt isSep_iff.mpr (by simp [hc])
  by_cases h34 : c = 34
  · cases quoted <;> by_cases harg : arg = [] <;> simp [h34, harg, readArgv]
  · cases quoted <;> simp [h34, hsep, readArgv]

/-- The last character, a blank in quotes: the open argument is gone. -/
theorem readArgv_lastSep (hfits : Fits args) (hc : isSep c = true) :
    readArgv ⟨args, arg, true⟩ [c] = some args := by
  rw [readArgv, if_neg hfits]
  simp only [Argv.step, if_neg (ne_quote_of_isSep hc), if_pos (isSep_iff.mp hc)]
  rfl

theorem endsInSep_cons (hl : l ≠ []) : endsInSep (c :: l) = endsInSep l := by
  unfold endsInSep
  rw [List.getLast?_cons_of_ne_nil hl]

/-- What the loop makes of a line that it accepts. -/
theorem readArgv_some {quoted : Bool} {line : Str} {out : List Str} (hline : line ≠ [])
    (h : readArgv ⟨args, arg, quoted⟩ line = some out) :
    (quotedAfter quoted line = true ∧ endsInSep line = true) ∨
      (quotedAfter quoted line = false ∧ out = args ++ tokensFrom quoted arg line) := by
  induction line generalizing args arg quoted with
  | nil => exact absurd rfl hline
  | cons c l ih =>
    by_cases hfits : Fits args
    case neg => rw [readArgv_full hfits] at h; cases h
    by_cases hsep : isSep c = true
    · have h34 : c ≠ 34 := ne_quote_of_isSep hsep
      have hq : quotedAfter quoted (c :: l) = quotedAfter quoted l := by
        rw [quotedAfter_cons, decide_eq_false h34, Bool.xor_false]
      cases quoted with
      | false =>
        rw [readArgv_sep hfits hsep] at h
        rw [hq, tokensFrom_sep hsep, ← List.append_assoc]
        by_cases hl : l = []
        · subst hl
          rw [tokensFrom_nil]
          exact .inr ⟨rfl, by simpa [tokensFrom_nil, readArgv] using h.symm⟩
        · rw [endsInSep_cons hl]
          exact ih hl h
      | true =>
        by_cases hl : l = []
        · subst hl
          exact .inl ⟨hq, hsep⟩
        · rw [readArgv_go hfits (.inl rfl) hl] at h
          rw [quotedAfter_cons, tokensFrom_cons (.inl rfl), endsInSep_cons hl]
          exact ih hl h
    · have hsep : isSep c = false := Bool.eq_false_iff.mpr hsep
      rw [quotedAfter_cons, tokensFrom_cons (.inr hsep)]
      by_cases hl : l = []
      · subst hl
        rw [readArgv_last hfits hsep] at h
        split at h
        · cases h
        next hq =>
          rw [tokensFrom_nil]
          exact .inr ⟨Bool.eq_false_iff.mpr hq, (Option.some.inj h).symm⟩
      · rw [readArgv_go hfits (.inr hsep) hl] at h
        rw [endsInSep_cons hl]
        exact ih hl h

/-- A line cut at a blank in quotes has an open argument. -/
theorem tokensFrom_ne_nil {quoted : Bool} {line : Str} (hq : quotedAfter quoted line = true)
    (hend : endsInSep line = true) : tokensFrom quoted arg line ≠ [] := by
  induction line generalizing arg quoted with
  | nil => cases hend
  | cons c l ih =>
    by_cases hc : quoted = true ∨ isSep c = false
    · rw [tokensFrom_cons hc]
      by_cases hl : l = []
      · subst hl
        have hsep : isSep c = true := hend
        simp [tokensFrom_nil, ne_quote_of_isSep hsep]
      · exact ih hq (endsInSep_cons hl ▸ hend)
    · obtain ⟨rfl, hsep⟩ := blank_of_not hc
      rw [quotedAfter_cons, decide_eq_false (ne_quote_of_isSep hsep)] at hq
      by_cases hl : l = []
      · subst hl
        cases hq
      · rw [tokensFrom_sep hsep]
        exact List.append_ne_nil_of_right_ne_nil _ (ih hq (endsInSep_cons hl ▸ hend))

/-- A line cut at a blank in quotes is accepted, without its open argument. -/
theorem readArgv_cut_eq {quoted : Bool} {line : Str} (hq : quotedAfter quoted line = true)
    (hend : endsInSep line = true)
    (hlen : args.length + (tokensFrom quoted arg line).length + 2 ≤ maxArgs) :
    ∃ out t, readArgv ⟨args, arg, quoted⟩ line = some out ∧
      args ++ tokensFrom quoted arg line = out ++ [t] := by
  induction line generalizing args arg quoted with
  | nil => cases hend
  | cons c l ih =>
    have hne : 0 < (tokensFrom quoted arg (c :: l)).length :=
      List.length_pos_iff.mpr (tokensFrom_ne_nil hq hend)
    have hfits : Fits args := by
      unfold Fits
      omega
    by_cases hc : quoted = true ∨ isSep c = false
    · rw [tokensFrom_cons hc] at hlen ⊢
      by_cases hl : l = []
      · subst hl
        have hsep : isSep c = true := hend
        have hquoted : quoted = true := hc.resolve_right (by simp [hsep])
        subst hquoted
        refine ⟨args, arg ++ [c], readArgv_lastSep hfits hsep, ?_⟩
        rw [tokensFrom_nil]
        simp [ne_quote_of_isSep hsep]
      · rw [readArgv_go hfits hc hl]
        exact ih hq (endsInSep_cons hl ▸ hend) hlen
    · obtain ⟨rfl, hsep⟩ := blank_of_not hc
      rw [quotedAfter_cons, decide_eq_false (ne_quote_of_isSep hsep)] at hq
      by_cases hl : l = []
      · subst hl
        cases hq
      · rw [readArgv_sep hfits hsep, tokensFrom_sep hsep, ← List.append_assoc]
        rw [tokensFrom_sep hsep] at hlen
        refine ih hq (endsInSep_cons hl ▸ hend) ?_
        simp only [List.length_append] at hlen ⊢
        omega

theorem readArgv_cut {quoted : Bool} {line : Str} (hq : quotedAfter quoted line = true)
    (hend : endsInSep line = true)
    (hlen : args.length + (tokensFrom quoted arg line).length + 2 ≤ maxArgs) :
    ∃ out, readArgv ⟨args, arg, quoted⟩ line = some out :=
  let ⟨out, _, h, _⟩ := readArgv_cut_eq hq hend hlen
  ⟨out, h⟩

/-- A line whose quotes are closed is accepted, with all its arguments. -/
theorem readArgv_closed {quoted : Bool} {line : Str} (hline : line ≠ [])
    (hq : quotedAfter quoted line = false)
    (hlen : args.length + (tokensFrom quoted arg line).length + 2 < maxArgs) :
    readArgv ⟨args, arg, quoted⟩ line = some (args ++ tokensFrom quoted arg line) := by
  induction line generalizing args arg quoted with
  | nil => exact absurd rfl hline
  | cons c l ih =>
    have hfits : Fits args := by
      unfold Fits
      omega
    rw [quotedAfter_cons] at hq
    by_cases hc : quoted = true ∨ isSep c = false
    · rw [tokensFrom_cons hc] at hlen ⊢
      by_cases hl : l = []
      · subst hl
        have hsep : isSep c = false := by
          by_contra h
          have h : isSep c = true := Bool.not_eq_false _ ▸ h
          rw [hc.resolve_right (by simp [h]), decide_eq_false (ne_quote_of_isSep h)] at hq
          cases hq
        have hq : (quoted ^^ c = 34) = false := hq
        rw [readArgv_last hfits hsep, if_neg (Bool.eq_false_iff.mp hq), tokensFrom_nil]
      · rw [readArgv_go hfits hc hl]
        exact ih hl hq hlen
    · obtain ⟨rfl, hsep⟩ := blank_of_not hc
      rw [decide_eq_false (ne_quote_of_isSep hsep), Bool.xor_false] at hq
      rw [readArgv_sep hfits hsep, tokensFrom_sep hsep, ← List.append_assoc]
      rw [tokensFrom_sep hsep] at hlen
      by_cases hl : l = []
      · subst hl
        simp [readArgv, tokensFrom_nil]
      · refine ih hl hq ?_
        simp only [List.length_append] at hlen ⊢
        omega

end Loop

/-! ### Lines -/

/-- `build_argv` accepts a line only with balanced quotes, and leaves its arguments. -/
def TokenizesRight (line : Str) : Prop :=
  ∀ (κ : Type) (E : Env κ) (d : Process κ), d.ErrorsNegative →
    Ends (buildArgv E line) d
      (fun r _ => r.1 < 0 ∨ (r.1 = 0 ∧ Balanced line ∧ r.2 = tokens line)) fun n _ => n ≠ 0

theorem tokenizesRight_of_not_cut {line : Str} (h : Balanced line ∨ endsInSep line = false) :
    TokenizesRight line := by
  intro κ E d hneg
  refine (buildArgv_ends E line hneg).mono (fun r _ hr => hr.imp id ?_) fun _ _ h => h
  rintro ⟨hret, hread⟩
  refine ⟨hret, ?_⟩
  by_cases hline : line = []
  · subst hline
    exact ⟨rfl, (Option.some.inj hread).symm⟩
  · rw [balanced_iff] at h ⊢
    rw [tokens_eq]
    obtain ⟨hq, hend⟩ | ⟨hq, hout⟩ := readArgv_some hline hread
    · rw [hq, hend] at h
      exact absurd h (by decide)
    · exact ⟨hq, hout⟩

/-- A kernel that is never asked, for a process that only reads. -/
def idleEnv : Env Unit where
  answer _ _ := ([], ())
  ext _ := true

/-- `build_argv` reports unbalanced quotes, and leaves the arguments of every line it accepts,
if and only if the quotes are balanced or the last character is no blank. -/
theorem tokenizesRight_iff (line : Str) (hargs : (tokens line).length ≤ 30) :
    TokenizesRight line ↔ Balanced line ∨ endsInSep line = false := by
  refine ⟨fun h => ?_, tokenizesRight_of_not_cut⟩
  by_contra hnot
  obtain ⟨hunbalanced, hend⟩ := not_or.mp hnot
  have hend : endsInSep line = true := Bool.not_eq_false _ ▸ hend
  have hq : quotedAfter false line = true :=
    Bool.not_eq_false _ ▸ mt (balanced_iff line).mpr hunbalanced
  rw [tokens_eq] at hargs
  have hlen : ([] : List Str).length + (tokensFrom false [] line).length + 2 ≤ maxArgs := by
    rw [List.length_nil, maxArgs]
    omega
  obtain ⟨out, hread⟩ := readArgv_cut hq hend hlen
  have hreturns := buildArgv_returns (E := idleEnv) (d := dsetInit 4096 () []) (fun _ => rfl) hread
  refine Ends.elim <| ((h Unit idleEnv (dsetInit 4096 () []) fun f hf => by cases hf).and
    hreturns).mono (fun r _ hr => ?_) fun _ _ hx => hx.2.elim
  obtain ⟨hr, rfl, -⟩ := hr
  exact hr.elim (absurd · (lt_irrefl 0)) fun hr => hunbalanced hr.2.1

theorem tokenizesRight_iff_destroy :
    (tokens (bytes "destroy foo\n")).length ≤ 30 ∧
      (TokenizesRight (bytes "destroy foo\n") ↔
        Balanced (bytes "destroy foo\n") ∨ endsInSep (bytes "destroy foo\n") = false) :=
  ⟨by decide, tokenizesRight_iff _ (by decide)⟩

/-- `destroy "foo` is accepted as `destroy`. -/
theorem tokenizesRight_unclosed :
    ¬ ∀ line : Str, (tokens line).length ≤ 30 → TokenizesRight line := by
  intro h
  have hline := h (bytes "destroy \"foo\n") (by decide) Unit idleEnv (dsetInit 4096 () [])
    fun f hf => by cases hf
  rcases hline with hret | ⟨-, hbalanced, -⟩
  · exact absurd hret (by decide)
  · exact absurd hbalanced (by decide)

end Dset.User
