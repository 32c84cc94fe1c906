import Dset.User.Script
import Dset.User.Values

/-! Lines that are words with a blank between two of them. The reader of a stream takes them apart
at their newlines and `build_argv` at their blanks, so that the words come back. A word that is no
option of the program stays an argument of its command. -/

namespace Dset.User

open Dset.Lib Dset.Core Options

/-! ### Words -/

/-- An argument that needs no quotes. -/
structure IsWord (t : Str) : Prop where
  ne_nil : t ≠ []
  plain : ∀ c ∈ t, isSep c = false ∧ c ≠ 34 ∧ c ≠ 0

theorem IsWord.of_all {t : Str} (hne : t ≠ [])
    (h : (t.all fun c => !isSep c && c != 34 && c != 0) = true) : IsWord t := by
  refine ⟨hne, fun c hc => ?_⟩
  have hplain := List.all_eq_true.mp h c hc
  simp only [Bool.and_eq_true, Bool.not_eq_true', bne_iff_ne] at hplain
  exact ⟨hplain.1.1, hplain.1.2, hplain.2⟩

def argvText : List Str → Str
  | [] => [10]
  | t :: argv => t ++ argv.flatMap (32 :: ·) ++ [10]

/-- The arguments of a line that can be read back. -/
structure IsLine (argv : List Str) : Prop where
  ne_nil : argv ≠ []
  words : ∀ t ∈ argv, IsWord t
  start : ∀ c ∈ (argvText argv).head?, isspace c = false ∧ c ≠ 35
  commit : argv ≠ [bytes "COMMIT"]
  args : argv.length + 2 < maxArgs
  chars : (argvText argv).length < maxCmdlineChars

theorem tokensFrom_plain {t : Str} (ht : ∀ c ∈ t, isSep c = false ∧ c ≠ 34 ∧ c ≠ 0) (arg l : Str) :
    tokensFrom false arg (t ++ l) = tokensFrom false (arg ++ t) l := by
  induction t generalizing arg with
  | nil => rw [List.nil_append, List.append_nil]
  | cons c t ih =>
    obtain ⟨hsep, h34, -⟩ := ht c List.mem_cons_self
    have hfilter : [c].filter (· ≠ 34) = [c] := by simp [h34]
    rw [List.cons_append, tokensFrom_cons (.inr hsep), hfilter, decide_eq_false h34, Bool.xor_false,
      ih fun c hc => ht c (List.mem_cons_of_mem _ hc), List.append_assoc, List.singleton_append]

theorem tokensFrom_words {argv : List Str} (hargv : ∀ t ∈ argv, IsWord t) {arg : Str}
    (harg : arg ≠ []) : tokensFrom false arg (argv.flatMap (32 :: ·)) = arg :: argv := by
  induction argv generalizing arg with
  | nil => simp [tokensFrom_nil, harg]
  | cons t argv ih =>
    have ht := hargv t List.mem_cons_self
    rw [List.flatMap_cons, List.cons_append, tokensFrom_sep rfl, tokensFrom_plain ht.plain,
      List.nil_append, ih (fun u hu => hargv u (List.mem_cons_of_mem _ hu)) ht.ne_nil]
    simp [harg]

namespace IsLine

variable {argv : List Str}

theorem text_eq (h : IsLine argv) : ∃ body, argvText argv = body ++ [10] ∧ body ≠ [] ∧
    tokensFrom false [] body = argv ∧ ∀ c ∈ body, c ≠ 34 ∧ c ≠ 0 ∧ c ≠ 10 := by
  cases argv with
  | nil => exact absurd rfl h.ne_nil
  | cons t argv =>
    have ht := h.words t List.mem_cons_self
    have hargv : ∀ u ∈ argv, IsWord u := fun u hu => h.words u (List.mem_cons_of_mem _ hu)
    have hword {u : Str} (hu : IsWord u) (c : UInt8) (hc : c ∈ u) : c ≠ 34 ∧ c ≠ 0 ∧ c ≠ 10 := by
      obtain ⟨hsep, h34, h0⟩ := hu.plain c hc
      refine ⟨h34, h0, ?_⟩
      rintro rfl
      exact absurd hsep (by decide)
    refine ⟨t ++ argv.flatMap (32 :: ·), rfl, List.append_ne_nil_of_left_ne_nil ht.ne_nil _, ?_,
      fun c hc => ?_⟩
    · rw [tokensFrom_plain ht.plain, List.nil_append, tokensFrom_words hargv ht.ne_nil]
    · rcases List.mem_append.mp hc with hc | hc
      · exact hword ht c hc
      · obtain ⟨u, hu, hc⟩ := List.mem_flatMap.mp hc
        rcases List.mem_cons.mp hc with rfl | hc
        · decide
        · exact hword (hargv u hu) c hc

theorem skipSpace_text (h : IsLine argv) : skipSpace (argvText argv) = argvText argv := by
  obtain ⟨body, htext, -, -, hbody⟩ := h.text_eq
  refine skipSpace_eq ?_ fun c hc => (h.start c hc).1
  rw [htext, List.mem_append, List.mem_singleton]
  rintro (hc | hc)
  · exact (hbody 0 hc).2.1 rfl
  · exact absurd hc (by decide)

theorem readArgv_text (h : IsLine argv) : readArgv ⟨[], [], false⟩ (argvText argv) = some argv := by
  obtain ⟨body, htext, -, htokens, hbody⟩ := h.text_eq
  have hclosed : quotedAfter false body = false :=
    quotedAfter_of_notMem (fun hc => (hbody 34 hc).1 rfl) false
  have hconcat : tokensFrom false [] (body ++ [10]) = argv :=
    (tokensFrom_concat hclosed).trans htokens
  have hargs : ([] : List Str).length + (tokensFrom false [] (body ++ [10])).length + 2 < maxArgs := by
    rw [hconcat, List.length_nil, Nat.zero_add]
    exact h.args
  have hquotes : quotedAfter false (body ++ [10]) = false := by
    rw [quotedAfter_append, hclosed]
    rfl
  rw [htext, readArgv_closed (List.append_ne_nil_of_right_ne_nil _ (List.cons_ne_nil _ _)) hquotes
    hargs, hconcat, List.nil_append]

theorem isCommand (h : IsLine argv) :
    isBlank (argvText argv) = false ∧ isCommit (argvText argv) = false := by
  obtain ⟨body, htext, -, -, -⟩ := h.text_eq
  have hne : argvText argv ≠ [] := by
    rw [htext]
    exact List.append_ne_nil_of_right_ne_nil _ (List.cons_ne_nil _ _)
  have hother {line : Str} (hline : readArgv ⟨[], [], false⟩ line = some [bytes "COMMIT"]) :
      argvText argv ≠ line := by
    rintro rfl
    exact h.commit (Option.some.inj (h.readArgv_text.symm.trans hline))
  constructor
  · unfold isBlank
    rw [decide_eq_false hne, Bool.false_or, decide_eq_false_iff_not]
    intro hhash
    exact (h.start 35 hhash).2 rfl
  · unfold isCommit
    rw [decide_eq_false (hother (by decide)), decide_eq_false (hother (by decide))]
    rfl

end IsLine

/-- The reader of a stream gives the lines back. -/
theorem fgetsLines_text {argvs : List (List Str)} (h : ∀ argv ∈ argvs, IsLine argv) :
    fgetsLines (argvs.flatMap argvText) = argvs.map argvText := by
  induction argvs with
  | nil => rfl
  | cons argv argvs ih =>
    have hline := h argv List.mem_cons_self
    obtain ⟨body, htext, -, -, hbody⟩ := hline.text_eq
    have hlen : ([] : Str).length + body.length + 1 < maxCmdlineChars := by
      have hchars := hline.chars
      rw [htext, List.length_append, List.length_singleton] at hchars
      rwa [List.length_nil, Nat.zero_add]
    have hrest := ih fun argv hargv => h argv (List.mem_cons_of_mem _ hargv)
    rw [List.flatMap_cons, List.map_cons, htext, List.append_assoc, List.singleton_append, fgetsLines,
      fgetsFrom_line (fun hc => (hbody 10 hc).2.2 rfl) hlen, List.nil_append]
    exact congrArg (_ :: ·) hrest

/-! ### Options of the program -/

/-- None of the arguments is an option of the program. -/
def NoEnvopt (argv : List Str) : Prop := ∀ t ∈ argv, ∀ o, dsetMatchEnvopt t o = false

/-- Every option of the program begins with a dash. -/
theorem dsetMatchEnvopt_of_head {t : Str} (ht : t.head? ≠ some 45) (o : EnvOpt) :
    dsetMatchEnvopt t o = false := by
  have htwo : twoDashes t = false := by
    refine decide_eq_false fun h => ht ?_
    cases t with
    | nil => cases h
    | cons c t =>
      obtain ⟨rfl, -⟩ := List.cons.inj h
      rfl
  have hnames : ∀ n ∈ o.names, n.head? = some 45 := by cases o <;> decide
  unfold dsetMatchEnvopt
  rw [htwo, if_neg Bool.false_ne_true, ← Bool.not_eq_true, List.contains_iff_mem]
  exact fun hmem => ht (hnames t hmem)

section

variable {argv : List Str}

theorem NoEnvopt.dropEnvopt_eq (h : NoEnvopt argv) (o : EnvOpt) : dropEnvopt o argv = argv := by
  induction argv using dropEnvopt.induct (o := o) with
  | case1 => rfl
  | case2 arg harg => exact absurd harg (by simp [h arg List.mem_cons_self o])
  | case3 arg harg => rw [dropEnvopt, if_neg harg]
  | case4 arg value l harg => exact absurd harg (by simp [h arg List.mem_cons_self o])
  | case5 arg value l harg => exact absurd harg (by simp [h arg List.mem_cons_self o])
  | case6 arg value l harg ih =>
    rw [dropEnvopt, if_neg harg, ih fun t ht => h t (List.mem_cons_of_mem _ ht)]

theorem NoEnvopt.dropEnvopts_eq (h : NoEnvopt argv) (os : List EnvOpt) :
    dropEnvopts os argv = argv := by
  induction os with
  | nil => rfl
  | cons o os ih =>
    rw [dropEnvopts, List.foldl_cons, h.dropEnvopt_eq o]
    exact ih

theorem NoEnvopt.givesExist_eq (h : NoEnvopt argv) : givesExist argv = false := by
  unfold givesExist
  rw [h.dropEnvopts_eq, List.any_eq_false]
  exact fun t ht => Bool.eq_false_iff.mp (h t ht .exist)

theorem NoEnvopt.lineArgs_eq (h : NoEnvopt argv) : lineArgs argv = cmdArgs argv := by
  unfold lineArgs
  rw [h.dropEnvopts_eq]

end

end Dset.User
