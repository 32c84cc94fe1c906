import Dset.User.ParseSpec

/-! The array `argv[MAX_ARGS]` of `dset_parse_argv`. The arguments are copied into it without a
look at their number, and options, commands and their arguments are shifted off by a loop that
reads one element behind the last. On fewer than `MAX_ARGS` arguments all accesses stay within the
array and what is done is what the parser on lists does. -/

namespace Dset.User

open Dset.Lib

variable {κ α β : Type}

/-- How `dset_parse_argv` is left early: by an access outside of its array, or a `return`. -/
inductive Leave where
  | fault (f : Fault)
  | ret (r : ℤ)

/-- The body of `dset_parse_argv`. -/
abbrev ArgvProg (κ : Type) := ExceptT Leave (Prog κ)

namespace ArgvProg

def call (x : Prog κ α) : ArgvProg κ α := ExceptT.lift x

def access (x : Except Fault α) : ArgvProg κ α :=
  match x with
  | .ok a => pure a
  | .error f => throw (.fault f)

/-- A part of `dset_parse_argv` that may return from it. -/
def returning (x : Prog κ (Except ℤ α)) : ArgvProg κ α := do
  match ← call x with
  | .ok a => return a
  | .error r => throw (.ret r)

/-- A `return` of what a function returns. -/
def returns (x : Prog κ ℤ) : ArgvProg κ α := do throw (.ret (← call x))

/-- A parser function, below zero through the error function. -/
def parsed (x : Prog κ ℤ) : ArgvProg κ Unit := returning (x >>= orStandardError)

end ArgvProg

open ArgvProg

structure LocalArgv where
  argc : ℕ
  argv : ℕ → Option Str

namespace LocalArgv

def read (a : LocalArgv) (i : ℕ) : Except Fault (Option Str) :=
  if i < maxArgs then .ok (a.argv i) else .error .outOfBounds

def write (a : LocalArgv) (i : ℕ) (v : Option Str) : Except Fault LocalArgv :=
  if i < maxArgs then .ok { a with argv := Function.update a.argv i v } else .error .outOfBounds

/-- The loop of `dset_shift_argv`, from `i` on and `n` times. -/
def shiftLoop : ℕ → ℕ → LocalArgv → Except Fault LocalArgv
  | 0, _, a => .ok a
  | n + 1, i, a => do
    let v ← a.read i
    let a ← a.write (i - 1) v
    shiftLoop n (i + 1) a

def dsetShiftArgv (a : LocalArgv) (first : ℕ) : Except Fault LocalArgv :=
  if a.argc < first + 1 then .error .bug
  else do
    let a ← shiftLoop (a.argc - first) (first + 1) a
    return { a with argc := a.argc - 1 }

def ofArgs (oargv : List Str) : LocalArgv := ⟨oargv.length, fun i => oargv[i]?⟩

def memcpy (oargv : List Str) : Except Fault LocalArgv :=
  if maxArgs < oargv.length then .error .outOfBounds else .ok (ofArgs oargv)

def str (a : LocalArgv) (i : ℕ) : ArgvProg κ Str := do
  match ← access (a.read i) with
  | some s => return s
  | none => throw (.fault .nullPointer)

/-- The arguments that are left, as far as they are looked at. -/
def firstLeft (a : LocalArgv) : ArgvProg κ (List Str) :=
  if 1 < a.argc then do return [← a.str 1] else return []

end LocalArgv

/-- The loop over `argv` for one option. -/
def argvEnvopt (o : EnvOpt) : ℕ → ℕ → LocalArgv → ArgvProg κ LocalArgv
  | 0, _, a => return a
  | n + 1, i, a =>
    if i < a.argc then do
      let arg ← a.str i
      if !dsetMatchEnvopt arg o then argvEnvopt o n (i + 1) a
      else
        let a ← access (a.dsetShiftArgv i)
        if o.hasArg then
          if a.argc < i + 1 then returns (Prog.customError .parameter)
          else
            let value ← a.str i
            parsed (o.parse value)
            argvEnvopt o n i (← access (a.dsetShiftArgv i))
        else
          parsed (o.parse [])
          argvEnvopt o n i a
    else return a

/-- The loop over the options; the one over `argv` ends before it has been run `argc` times. -/
def argvEnvopts : List EnvOpt → LocalArgv → ArgvProg κ LocalArgv
  | [], a => return a
  | o :: l, a => do argvEnvopts l (← argvEnvopt o a.argc 1 a)

/-- The command, `arg0`, `arg1` and the array behind them. -/
structure ArgvCmd where
  cmd : Cmd
  arg0 : Option Str
  arg1 : Option Str
  rest : LocalArgv

/-- `argv[1]`, which is shifted off if it is there. -/
def argvFirst (a : LocalArgv) : ArgvProg κ (Option Str × LocalArgv) := do
  let arg ← access (a.read 1)
  if 2 ≤ a.argc then return (arg, ← access (a.dsetShiftArgv 1)) else return (arg, a)

def argvCmdArgs (command : DsetCommand) (a : LocalArgv) : ArgvProg κ ArgvCmd :=
  match command.hasArg with
  | .noArg => return ⟨command.cmd, none, none, a⟩
  | .optionalArg => do
    let (arg0, a) ← argvFirst a
    return ⟨command.cmd, arg0, none, a⟩
  | .mandatoryArg2 =>
    if a.argc < 2 then returns (Prog.customError .parameter)
    else do
      let (arg0, a) ← argvFirst a
      if a.argc < 2 then returns (Prog.customError .parameter)
      else
        let arg1 ← access (a.read 1)
        return ⟨command.cmd, arg0, arg1, ← access (a.dsetShiftArgv 1)⟩

/-- The loop over the commands. -/
def argvCmd : List DsetCommand → LocalArgv → ArgvProg κ ArgvCmd
  | [], a => return ⟨.none, none, none, a⟩
  | command :: l, a =>
    if 1 < a.argc then do
      let arg ← a.str 1
      if !dsetMatchCmd arg command.name then argvCmd l a
      else
        let d ← call get
        if d.restoreLine ≠ 0 ∧
            (command.cmd = .restore ∨ command.cmd = .version ∨ command.cmd = .help) then
          returns (Prog.customError .parameter)
        else if d.interactive && command.cmd = .restore then returns (pure 0)
        else argvCmdArgs command (← access (a.dsetShiftArgv 1))
    else return ⟨.none, none, none, a⟩

/-- The loop over the keywords, each of which is compared with `argv[i]`. -/
def argvKeyword (a : LocalArgv) (i : ℕ) : List Keyword → ArgvProg κ (Option Keyword)
  | [] => return none
  | k :: l => do
    if dsetMatchOption (← a.str i) k then return some k else argvKeyword a i l

/-- The loop of `call_parser`: its value, and whether it sets `argc` to zero. -/
def argvParserLoop (kws : List Keyword) (family : Bool) (a : LocalArgv) :
    ℕ → ℕ → ArgvProg κ (ℤ × Bool)
  | 0, _ => return (0, !family)
  | n + 1, i =>
    if i < a.argc then do
      match ← argvKeyword a i kws with
      | none =>
        let _ ← a.str i
        return (← call (Prog.customError .parameter), false)
      | some k =>
        if a.argc - (i + 1) < 1 then return (← call (Prog.customError .parameter), false)
        else if family then argvParserLoop kws family a n (i + 2)
        else
          let value ← a.str (i + 1)
          let ret ← call (dsetCallParser k value)
          if ret < 0 then return (ret, false) else argvParserLoop kws family a n (i + 2)
    else return (0, !family)

/-- `call_parser`. -/
def argvParser (cmd : Cmd) (family : Bool) (a : LocalArgv) : ArgvProg κ (ℤ × LocalArgv) :=
  if typeArgs cmd = [] ∧ 1 < a.argc then do
    let _ ← a.str 1
    return (← call (Prog.customError .parameter), a)
  else do
    let (ret, cleared) ← argvParserLoop (typeArgs cmd) family a a.argc 1
    return (ret, if cleared then { a with argc := 0 } else a)

def argvParsed (r : ℤ × LocalArgv) : ArgvProg κ LocalArgv :=
  if r.1 < 0 then returns Prog.standardError
  else if r.1 ≠ 0 then returns (pure r.1)
  else return r.2

def argvCreate (E : Env κ) (arg0 arg1 : Str) (a : LocalArgv) : ArgvProg κ LocalArgv := do
  parsed (parseSetname arg0)
  parsed (dsetParseTypename E arg1)
  returning (dsetTypeGetCreate E >>= typeOrError)
  let a ← argvParsed (← argvParser .create true a)
  let a ← argvParsed (← argvParser .create false a)
  call (checkMandatory .create)
  call (checkAllowed .create)
  return a

/-- `add`, `del` and `test`. -/
def argvAdt (E : Env κ) (cmd : Cmd) (arg0 arg1 : Str) (a : LocalArgv) : ArgvProg κ LocalArgv := do
  parsed (parseSetname arg0)
  returning (adtTypeGet E >>= typeOrError)
  parsed (dsetParseElem E arg1)
  let a ← argvParsed (← argvParser cmd false a)
  call (checkMandatory cmd)
  call (checkAllowed cmd)
  return a

/-- A command that leaves the array as it is. -/
def argvKept (x : Prog κ (Except ℤ (List Str))) (a : LocalArgv) : ArgvProg κ LocalArgv := do
  let _ ← returning x
  return a

/-- A line without a command: `argv[1]` is read unless the mode is interactive. -/
def argvNoCommand (loops : Loops κ) (a : LocalArgv) : ArgvProg κ α := do
  if (← call get).interactive then returns (pure 0)
  else returns (noCommand loops (← a.firstLeft))

/-- The third and fourth stage of `dset_parse_argv`. -/
def argvStages (E : Env κ) (loops : Loops κ) (c : ArgvCmd) : ArgvProg κ LocalArgv :=
  match c.cmd, c.arg0, c.arg1 with
  | .none, _, _ => argvNoCommand loops c.rest
  | .version, _, _ => returns (versionCmd E)
  | .help, _, _ => returns (helpCmd c.arg0)
  | .quit, _, _ => returns (Prog.customError .none)
  | .restore, _, _ => do returns (restoreCmd loops (← c.rest.firstLeft))
  | .create, some arg0, some arg1 => argvCreate E arg0 arg1 c.rest
  | .list, _, _ | .save, _, _ => argvKept (parseList E c.arg0 []) c.rest
  | .destroy, _, _ | .flush, _, _ => argvKept (parseOptional c.arg0 []) c.rest
  | .rename, some arg0, some arg1 | .swap, some arg0, some arg1 =>
    argvKept (parseNames arg0 arg1 []) c.rest
  | .add, some arg0, some arg1 | .del, some arg0, some arg1 | .test, some arg0, some arg1 =>
    argvAdt E c.cmd arg0 arg1 c.rest
  | _, _, _ => return c.rest

/-- `dset_parse_argv` up to the call of `dset_cmd`. -/
def argvLine (E : Env κ) (loops : Loops κ) (oargv : List Str) : ArgvProg κ Cmd := do
  let a ← access (LocalArgv.memcpy oargv)
  let line := (← call get).restoreLine
  call (Prog.modifySession fun s => { s with lineno := line })
  let a ← argvEnvopts EnvOpt.all a
  let c ← argvCmd dsetCommands a
  let a ← argvStages E loops c
  returning (noneLeft (← a.firstLeft))
  return c.cmd

/-- `dset_parse_argv` on its array; the first of the arguments is the name of the program. -/
def parseArgv (E : Env κ) (loops : Loops κ) (oargv : List Str) : Prog κ (Except Fault ℤ) := do
  match ← (argvLine E loops oargv).run with
  | .error (.fault f) => return .error f
  | .error (.ret ret) => return .ok ret
  | .ok cmd => return .ok (← executeCmd E cmd)

/-! ### Calls and returns -/

namespace ArgvProg

theorem call_bind (x : Prog κ α) (f : α → Prog κ β) :
    call (x >>= f) = call x >>= fun a => call (f a) := by
  apply ExceptT.ext
  simp [call]

@[simp] theorem call_pure (a : α) : call (pure a : Prog κ α) = pure a := by
  apply ExceptT.ext
  simp [call]

@[simp] theorem returning_ok (a : α) : returning (pure (.ok a) : Prog κ (Except ℤ α)) = pure a := by
  simp [returning]

theorem returning_bind (x : Prog κ β) (f : β → Prog κ (Except ℤ α)) :
    returning (x >>= f) = call x >>= fun b => returning (f b) := by
  simp [returning, call_bind]

theorem returning_andThen (x : Prog κ (Except ℤ α)) (f : α → Prog κ (Except ℤ β)) :
    returning (andThen x f) = returning x >>= fun a => returning (f a) := by
  unfold andThen
  rw [returning_bind]
  simp only [returning, bind_assoc]
  refine bind_congr fun r => ?_
  cases r with
  | ok a => simp
  | error ret => simp

theorem returning_ite (c : Prop) [Decidable c] (x y : Prog κ (Except ℤ α)) :
    returning (if c then x else y) = if c then returning x else returning y := by
  split <;> rfl

theorem returns_bind (x : Prog κ ℤ) (f : α → ArgvProg κ β) : returns x >>= f = returns x := by
  unfold returns
  rw [bind_assoc]
  rfl

@[simp] theorem returning_return (x : Prog κ ℤ) :
    returning (do return .error (← x) : Prog κ (Except ℤ α)) = returns x := by
  rw [returning_bind]
  exact bind_congr fun ret => by simp [returning]

@[simp] theorem access_ok (a : α) : access (.ok a) = (pure a : ArgvProg κ α) := rfl

end ArgvProg

/-! ### The array -/

namespace LocalArgv

theorem shiftLoop_succ (n : ℕ) {i : ℕ} (a : LocalArgv) (hi : i < maxArgs) :
    shiftLoop (n + 1) i a =
      shiftLoop n (i + 1) ⟨a.argc, Function.update a.argv (i - 1) (a.argv i)⟩ := by
  have hread : a.read i = .ok (a.argv i) := if_pos hi
  have hwrite : a.write (i - 1) (a.argv i) =
      .ok ⟨a.argc, Function.update a.argv (i - 1) (a.argv i)⟩ := if_pos (by omega)
  show (a.read i >>= fun v => a.write (i - 1) v >>= fun a => shiftLoop n (i + 1) a) = _
  rw [hread]
  show (a.write (i - 1) (a.argv i) >>= fun a => shiftLoop n (i + 1) a) = _
  rw [hwrite]
  rfl

theorem shiftLoop_ok (n : ℕ) {i : ℕ} (a : LocalArgv) (hi : 0 < i) (h : i + n ≤ maxArgs) :
    shiftLoop n i a = .ok ⟨a.argc, fun j =>
      if i - 1 ≤ j ∧ j < i - 1 + n then a.argv (j + 1) else a.argv j⟩ := by
  induction n generalizing i a with
  | zero =>
    have hsame : (fun j => if i - 1 ≤ j ∧ j < i - 1 + 0 then a.argv (j + 1) else a.argv j) =
        a.argv := funext fun j => if_neg (by omega)
    rw [hsame]
    rfl
  | succ n ih =>
    rw [shiftLoop_succ n a (by omega), ih _ (by omega) (by omega)]
    congr 2
    funext j
    have hnext : ∀ k, k ≠ i - 1 → Function.update a.argv (i - 1) (a.argv i) k = a.argv k :=
      fun k hk => Function.update_of_ne hk ..
    dsimp only
    by_cases hj : j = i - 1
    · rw [if_neg (by omega), if_pos (by omega), hj, Function.update_self]
      congr 1
      omega
    · by_cases hin : i - 1 ≤ j ∧ j < i - 1 + (n + 1)
      · rw [if_pos (by omega), if_pos hin, hnext _ (by omega)]
      · rw [if_neg (by omega), if_neg hin, hnext _ hj]

/-- Where it comes to the end of the array, the loop reads behind it. -/
theorem shiftLoop_fault (n : ℕ) {i : ℕ} (a : LocalArgv) (hle : i ≤ maxArgs)
    (h : maxArgs < i + n) : shiftLoop n i a = .error .outOfBounds := by
  induction n generalizing i a with
  | zero => omega
  | succ n ih =>
    by_cases hend : i = maxArgs
    · have hread : a.read i = .error .outOfBounds := if_neg (by omega)
      show (a.read i >>= fun v => a.write (i - 1) v >>= fun a => shiftLoop n (i + 1) a) = _
      rw [hread]
      rfl
    · rw [shiftLoop_succ n a (by omega)]
      exact ih _ (by omega) (by omega)

theorem shift_ofArgs {oargv : List Str} {first : ℕ} (h : first < oargv.length)
    (hlen : oargv.length < maxArgs) :
    (ofArgs oargv).dsetShiftArgv first = .ok (ofArgs (oargv.eraseIdx first)) := by
  unfold dsetShiftArgv
  rw [if_neg (by simp only [ofArgs]; omega)]
  show (shiftLoop (oargv.length - first) (first + 1) (ofArgs oargv) >>= _) = _
  rw [shiftLoop_ok _ _ (by omega) (by omega)]
  have hcells : (fun j => if first + 1 - 1 ≤ j ∧ j < first + 1 - 1 + (oargv.length - first)
      then oargv[j + 1]? else oargv[j]?) = fun j => (oargv.eraseIdx first)[j]? := by
    funext j
    rw [List.getElem?_eraseIdx]
    by_cases hj : j < first
    · rw [if_pos hj, if_neg (by omega)]
    · rw [if_neg hj]
      split
      next => rfl
      next hout => rw [List.getElem?_eq_none (by omega), List.getElem?_eq_none (by omega)]
  show Except.ok (LocalArgv.mk (oargv.length - 1) fun j =>
    if first + 1 - 1 ≤ j ∧ j < first + 1 - 1 + (oargv.length - first)
      then oargv[j + 1]? else oargv[j]?) = _
  rw [hcells, ofArgs, List.length_eraseIdx_of_lt h]

/-- With `MAX_ARGS` arguments the element behind the last is read. -/
theorem shift_full {oargv : List Str} {first : ℕ} (h : first < oargv.length)
    (hlen : oargv.length = maxArgs) :
    (ofArgs oargv).dsetShiftArgv first = .error .outOfBounds := by
  unfold dsetShiftArgv
  rw [if_neg (by simp only [ofArgs]; omega)]
  show (shiftLoop (oargv.length - first) (first + 1) (ofArgs oargv) >>= _) = _
  rw [shiftLoop_fault _ _ (by omega) (by omega)]
  rfl

theorem read_ofArgs {oargv : List Str} {i : ℕ} (hi : i < maxArgs) :
    (ofArgs oargv).read i = .ok oargv[i]? := if_pos hi

theorem str_ofArgs {oargv : List Str} {i : ℕ} {s : Str} (hi : i < maxArgs)
    (h : oargv[i]? = some s) : (ofArgs oargv).str i = (pure s : ArgvProg κ Str) := by
  simp [str, read_ofArgs hi, h]

theorem firstLeft_ofArgs (name : Str) (argv : List Str) :
    (ofArgs (name :: argv)).firstLeft = (pure (argv.take 1) : ArgvProg κ (List Str)) := by
  unfold firstLeft
  cases argv with
  | nil => rfl
  | cons arg l =>
    have hstr : (ofArgs (name :: arg :: l)).str 1 = (pure arg : ArgvProg κ Str) :=
      str_ofArgs (by decide) rfl
    rw [if_pos (by simp [ofArgs]), hstr]
    simp

end LocalArgv

/-! ### Options -/

open LocalArgv

theorem parseEnvopt_skip {o : EnvOpt} {arg : Str} (h : dsetMatchEnvopt arg o = false)
    (kept l : List Str) :
    (parseEnvopt o kept (arg :: l) : Prog κ _) = parseEnvopt o (kept ++ [arg]) l := by
  cases l <;> simp [parseEnvopt, h]

theorem parseEnvopt_flag {o : EnvOpt} {arg : Str} (h : dsetMatchEnvopt arg o = true)
    (hno : o.hasArg = false) (kept l : List Str) :
    (parseEnvopt o kept (arg :: l) : Prog κ _) =
      andThen (o.parse [] >>= orStandardError) fun _ => parseEnvopt o kept l := by
  unfold andThen orStandardError
  rw [bind_assoc]
  cases l <;>
  · simp only [parseEnvopt, h, hno, Bool.not_true, Bool.false_eq_true, if_false]
    refine bind_congr fun ret => ?_
    split <;> simp

theorem parseEnvopt_value {o : EnvOpt} {arg : Str} (h : dsetMatchEnvopt arg o = true)
    (harg : o.hasArg = true) (kept : List Str) (value : Str) (l : List Str) :
    (parseEnvopt o kept (arg :: value :: l) : Prog κ _) =
      andThen (o.parse value >>= orStandardError) fun _ => parseEnvopt o kept l := by
  unfold andThen orStandardError
  rw [bind_assoc]
  simp only [parseEnvopt, h, harg, Bool.not_true, Bool.false_eq_true, if_false, if_true]
  refine bind_congr fun ret => ?_
  split <;> simp

theorem argvEnvopt_eq (o : EnvOpt) (name : Str) (kept rest : List Str) {n : ℕ}
    (hn : rest.length ≤ n) (hlen : kept.length + rest.length < maxArgs)
    (hshift : (∃ arg ∈ rest, dsetMatchEnvopt arg o = true) →
      kept.length + rest.length + 1 < maxArgs) :
    (argvEnvopt o n (kept.length + 1) (ofArgs (name :: (kept ++ rest))) : ArgvProg κ LocalArgv) =
      returning (parseEnvopt o kept rest) >>= fun argv => pure (ofArgs (name :: argv)) := by
  induction n generalizing kept rest with
  | zero =>
    obtain rfl : rest = [] := List.length_eq_zero_iff.mp (by omega)
    simp [argvEnvopt, parseEnvopt]
  | succ n ih =>
    cases rest with
    | nil =>
      rw [argvEnvopt, if_neg (by simp [ofArgs])]
      simp [parseEnvopt]
    | cons arg l =>
      simp only [List.length_cons] at hn hlen hshift
      have hget : (name :: (kept ++ arg :: l))[kept.length + 1]? = some arg := by simp
      rw [argvEnvopt, if_pos (by simp [ofArgs]), str_ofArgs (by omega) hget, pure_bind]
      cases hmatch : dsetMatchEnvopt arg o with
      | false =>
        rw [parseEnvopt_skip hmatch]
        have hnext := ih (kept ++ [arg]) l (by omega) (by simp; omega) fun ⟨b, hb, hb2⟩ => by
          have := hshift ⟨b, List.mem_cons_of_mem arg hb, hb2⟩
          simp
          omega
        simpa using hnext
      | true =>
        have hroom := hshift ⟨arg, List.mem_cons_self, hmatch⟩
        have herase : (name :: (kept ++ arg :: l)).eraseIdx (kept.length + 1) =
            name :: (kept ++ l) := by
          simp [List.eraseIdx_append_of_length_le]
        have hfirst : (ofArgs (name :: (kept ++ arg :: l))).dsetShiftArgv (kept.length + 1) =
            .ok (ofArgs (name :: (kept ++ l))) := by
          rw [shift_ofArgs (by simp) (by simp; omega), herase]
        simp only [Bool.not_true, Bool.false_eq_true, if_false, hfirst, access_ok, pure_bind]
        cases harg : o.hasArg with
        | false =>
          rw [parseEnvopt_flag hmatch harg, returning_andThen, bind_assoc]
          simp only [Bool.false_eq_true, if_false, parsed]
          refine bind_congr fun _ => ?_
          exact ih kept l (by omega) (by omega) fun _ => by omega
        | true =>
          simp only [if_true]
          cases l with
          | nil =>
            rw [if_pos (by simp [ofArgs])]
            simp only [parseEnvopt, hmatch, harg, Bool.not_true, Bool.false_eq_true, if_false,
              if_true, returning_return, returns_bind]
          | cons value l =>
            simp only [List.length_cons] at hn hlen hroom
            have hvalue : (name :: (kept ++ value :: l))[kept.length + 1]? = some value := by simp
            have herase : (name :: (kept ++ value :: l)).eraseIdx (kept.length + 1) =
                name :: (kept ++ l) := by
              simp [List.eraseIdx_append_of_length_le]
            have hsecond : (ofArgs (name :: (kept ++ value :: l))).dsetShiftArgv (kept.length + 1) =
                .ok (ofArgs (name :: (kept ++ l))) := by
              rw [shift_ofArgs (by simp) (by simp; omega), herase]
            rw [if_neg (by simp [ofArgs]), str_ofArgs (by omega) hvalue, pure_bind,
              parseEnvopt_value hmatch harg, returning_andThen, bind_assoc]
            simp only [hsecond, access_ok, pure_bind, parsed]
            refine bind_congr fun _ => ?_
            exact ih kept l (by omega) (by omega) fun _ => by omega

/-- Where no argument is the option, nothing is done. -/
theorem parseEnvopt_none {o : EnvOpt} (kept rest : List Str)
    (h : ∀ arg ∈ rest, dsetMatchEnvopt arg o = false) :
    (parseEnvopt o kept rest : Prog κ _) = pure (.ok (kept ++ rest)) := by
  induction rest generalizing kept with
  | nil => simp [parseEnvopt]
  | cons arg l ih =>
    rw [parseEnvopt_skip (h arg List.mem_cons_self), ih _ fun b hb => h b (List.mem_cons_of_mem arg hb)]
    simp

theorem dropEnvopt_sublist (o : EnvOpt) (argv : List Str) : (dropEnvopt o argv).Sublist argv := by
  induction argv using dropEnvopt.induct (o := o) with
  | case1 => exact List.Sublist.refl _
  | case2 arg harg => simp [dropEnvopt, harg]
  | case3 arg harg => simp [dropEnvopt, harg]
  | case4 arg value l harg hhas ih =>
    rw [dropEnvopt, if_pos harg, if_pos hhas]
    exact (ih.cons value).cons arg
  | case5 arg value l harg hhas ih =>
    rw [dropEnvopt, if_pos harg, if_neg hhas]
    exact ih.cons arg
  | case6 arg value l harg ih =>
    rw [dropEnvopt, if_neg harg]
    exact ih.cons_cons arg

/-- Two programs that agree on what a call can return. -/
theorem call_congr {x : Prog κ α} {f g : α → ArgvProg κ β} {P : α → Prop}
    (hx : ∀ d, Ends x d (fun a _ => P a) fun _ _ => True) (hfg : ∀ a, P a → f a = g a) :
    call x >>= f = call x >>= g := by
  apply ExceptT.ext
  simp only [call, ExceptT.run_bind_lift]
  funext d
  have hd := hx d
  unfold Ends at hd
  show EStateM.bind x _ d = EStateM.bind x _ d
  unfold EStateM.bind
  cases h : x d with
  | error e d' => rfl
  | ok a d' =>
    rw [h] at hd
    simp only [hfg a hd]

theorem returning_congr {x : Prog κ (Except ℤ α)} {f g : α → ArgvProg κ β} {P : α → Prop}
    (hx : ∀ d, Ends x d (fun res _ => ∀ a, res = .ok a → P a) fun _ _ => True)
    (hfg : ∀ a, P a → f a = g a) : returning x >>= f = returning x >>= g := by
  simp only [returning, bind_assoc]
  refine call_congr hx fun res hres => ?_
  cases res with
  | error ret => rfl
  | ok a => simp only [pure_bind, hfg a (hres a rfl)]

/-- An option of the program is among the arguments. -/
def HasOption (os : List EnvOpt) (argv : List Str) : Prop :=
  ∃ o ∈ os, ∃ arg ∈ argv, dsetMatchEnvopt arg o = true

theorem argvEnvopts_eq (os : List EnvOpt) (name : Str) (argv : List Str)
    (hlen : argv.length < maxArgs) (hshift : HasOption os argv → argv.length + 1 < maxArgs) :
    (argvEnvopts os (ofArgs (name :: argv)) : ArgvProg κ LocalArgv) =
      returning (parseEnvopts os argv) >>= fun argv => pure (ofArgs (name :: argv)) := by
  induction os generalizing argv with
  | nil => simp [argvEnvopts, parseEnvopts]
  | cons o os ih =>
    have hone := argvEnvopt_eq (κ := κ) o name [] argv (n := argv.length + 1) (by omega)
      (by simpa using hlen) fun hone => by
        simpa using hshift ⟨o, List.mem_cons_self, hone⟩
    have hthen : (parseEnvopts (o :: os) argv : Prog κ _) =
        andThen (parseEnvopt o [] argv) (parseEnvopts os) := by
      rw [parseEnvopts, andThen]
      exact bind_congr fun res => by cases res <;> rfl
    simp only [List.length_nil, Nat.zero_add, List.nil_append] at hone
    rw [hthen, returning_andThen, bind_assoc]
    show (argvEnvopt o (argv.length + 1) 1 (ofArgs (name :: argv)) >>= argvEnvopts os) = _
    rw [hone, bind_assoc]
    simp only [pure_bind]
    refine returning_congr (P := fun l => l = dropEnvopt o argv) (fun d => ?_) fun l hl => ?_
    · refine (parseEnvopt_opted o [] argv).mono (fun res d' h l hl => ?_) fun _ _ h => h
      simpa using (h l hl).1
    · have hsub := dropEnvopt_sublist o argv
      have hle := hsub.length_le
      rw [hl]
      refine ih _ (by omega) ?_
      rintro ⟨o', ho', arg, harg, hmatch⟩
      have hroom := hshift ⟨o', List.mem_cons_of_mem o ho', arg, hsub.subset harg, hmatch⟩
      omega

/-! ### The command -/

def CmdArgs.onArray (name : Str) (c : CmdArgs) : ArgvCmd :=
  ⟨c.cmd, c.arg0, c.arg1, ofArgs (name :: c.argv)⟩

theorem argvFirst_eq (name : Str) {argv : List Str} (hlen : argv.length + 1 < maxArgs) :
    (argvFirst (ofArgs (name :: argv)) : ArgvProg κ _) =
      pure (argv.head?, ofArgs (name :: argv.tail)) := by
  have hread : (ofArgs (name :: argv)).read 1 = .ok argv.head? := by
    rw [read_ofArgs (by decide)]
    cases argv <;> rfl
  unfold argvFirst
  rw [hread]
  cases argv with
  | nil =>
    rw [access_ok, pure_bind, if_neg (by simp [ofArgs])]
    rfl
  | cons arg l =>
    have hfirst : (ofArgs (name :: arg :: l)).dsetShiftArgv 1 = .ok (ofArgs (name :: l)) := by
      rw [shift_ofArgs (by simp) (by simpa using hlen)]
      rfl
    rw [access_ok, pure_bind, if_pos (by simp [ofArgs]), hfirst]
    rfl

theorem argvCmdArgs_eq (command : DsetCommand) (name : Str) {argv : List Str}
    (hlen : argv.length + 1 < maxArgs) :
    (argvCmdArgs command (ofArgs (name :: argv)) : ArgvProg κ ArgvCmd) =
      returning (parseCmdArgs command argv) >>= fun c => pure (c.onArray name) := by
  obtain ⟨cmd, names, hasArg⟩ := command
  cases hasArg with
  | noArg => simp [argvCmdArgs, parseCmdArgs, CmdArgs.onArray]
  | optionalArg => simp [argvCmdArgs, parseCmdArgs, CmdArgs.onArray, argvFirst_eq name hlen]
  | mandatoryArg2 =>
    match argv, hlen with
    | [], _ =>
      have hcmd : (parseCmdArgs ⟨cmd, names, .mandatoryArg2⟩ [] : Prog κ _) =
          do return .error (← Prog.customError .parameter) := rfl
      rw [hcmd, returning_return, returns_bind]
      rfl
    | [arg0], hlen =>
      have hcmd : (parseCmdArgs ⟨cmd, names, .mandatoryArg2⟩ [arg0] : Prog κ _) =
          do return .error (← Prog.customError .parameter) := rfl
      rw [hcmd, returning_return, returns_bind, argvCmdArgs]
      dsimp only
      rw [if_neg (by simp [ofArgs]), argvFirst_eq name hlen, pure_bind]
      rfl
    | arg0 :: arg1 :: l, hlen =>
      simp only [List.length_cons] at hlen
      have hread : (ofArgs (name :: arg1 :: l)).read 1 = .ok (some arg1) :=
        read_ofArgs (by decide)
      have hsecond : (ofArgs (name :: arg1 :: l)).dsetShiftArgv 1 = .ok (ofArgs (name :: l)) := by
        rw [shift_ofArgs (by simp) (by simp; omega)]
        rfl
      rw [argvCmdArgs]
      dsimp only
      rw [if_neg (by simp [ofArgs]), argvFirst_eq name (by simp; omega), pure_bind]
      show (if (ofArgs (name :: arg1 :: l)).argc < 2 then _ else _) = _
      rw [if_neg (by simp [ofArgs])]
      dsimp only [List.head?_cons, List.tail_cons]
      rw [hread, hsecond]
      simp [parseCmdArgs, CmdArgs.onArray]

/-- What is done with a command that is found. -/
def foundCmd (command : DsetCommand) (l : List Str) : Prog κ (Except ℤ CmdArgs) := do
  let d ← get
  if d.restoreLine ≠ 0 ∧
      (command.cmd = .restore ∨ command.cmd = .version ∨ command.cmd = .help) then
    return .error (← Prog.customError .parameter)
  else if d.interactive && command.cmd = .restore then return .error 0
  else parseCmdArgs command l

theorem argvCmd_find (cs : List DsetCommand) (name arg : Str) {l : List Str}
    (hlen : l.length + 1 < maxArgs)
    (hshift : (cs.any fun c => dsetMatchCmd arg c.name) = true → l.length + 2 < maxArgs) :
    (argvCmd cs (ofArgs (name :: arg :: l)) : ArgvProg κ ArgvCmd) =
      returning (match cs.find? fun c => dsetMatchCmd arg c.name with
        | none => pure (.ok ⟨.none, none, none, arg :: l⟩)
        | some command => foundCmd command l) >>= fun c => pure (c.onArray name) := by
  induction cs with
  | nil => simp [argvCmd, CmdArgs.onArray]
  | cons command cs ih =>
    rw [argvCmd, if_pos (by simp [ofArgs]), str_ofArgs (s := arg) (by decide) rfl, pure_bind,
      List.find?_cons]
    cases hmatch : dsetMatchCmd arg command.name with
    | false =>
      simp only [Bool.not_false, if_true]
      exact ih fun h => hshift (by rw [List.any_cons, h, Bool.or_true])
    | true =>
      have hroom := hshift (by rw [List.any_cons, hmatch, Bool.true_or])
      have hfirst : (ofArgs (name :: arg :: l)).dsetShiftArgv 1 = .ok (ofArgs (name :: l)) := by
        rw [shift_ofArgs (by simp) (by simp; omega)]
        rfl
      simp only [Bool.not_true, Bool.false_eq_true, if_false, foundCmd, returning_bind, bind_assoc]
      refine bind_congr fun d => ?_
      simp only [returning_ite]
      split
      next => rw [returning_return, returns_bind]
      next =>
        split
        next => rfl
        next => rw [hfirst, access_ok, pure_bind, argvCmdArgs_eq command name (by omega)]

def HasCommand (argv : List Str) : Prop :=
  ∃ arg ∈ argv.head?, (dsetCommands.any fun c => dsetMatchCmd arg c.name) = true

theorem argvCmd_eq (name : Str) {argv : List Str} (hlen : argv.length < maxArgs)
    (hshift : HasCommand argv → argv.length + 1 < maxArgs) :
    (argvCmd dsetCommands (ofArgs (name :: argv)) : ArgvProg κ ArgvCmd) =
      returning (parseCmd argv) >>= fun c => pure (c.onArray name) := by
  cases argv with
  | nil =>
    have hnil : (argvCmd dsetCommands (ofArgs [name]) : ArgvProg κ ArgvCmd) =
        pure ⟨.none, none, none, ofArgs [name]⟩ := rfl
    rw [hnil]
    simp [parseCmd, CmdArgs.onArray]
  | cons arg l =>
    rw [argvCmd_find dsetCommands name arg hlen fun h => hshift ⟨arg, rfl, h⟩]
    unfold parseCmd
    dsimp only
    cases dsetCommands.find? fun c => dsetMatchCmd arg c.name <;> rfl

/-! ### Arguments of the set type -/

/-- What the loop of `call_parser` returns, and whether it is done with the arguments. -/
def parserLoop (kws : List Keyword) (family : Bool) : List Str → Prog κ (ℤ × Bool)
  | [] => return (0, !family)
  | arg :: l =>
    match kws.find? (dsetMatchOption arg ·), l with
    | none, _ => return (← Prog.customError .parameter, false)
    | some _, [] => return (← Prog.customError .parameter, false)
    | some k, value :: l => do
      if family then parserLoop kws family l
      else
        let ret ← dsetCallParser k value
        if ret < 0 then return (ret, false) else parserLoop kws family l

def parser (cmd : Cmd) (family : Bool) (argv : List Str) : Prog κ (ℤ × Bool) :=
  if typeArgs cmd = [] ∧ argv ≠ [] then return (← Prog.customError .parameter, false)
  else parserLoop (typeArgs cmd) family argv

theorem callParserLoop_eq (kws : List Keyword) (family : Bool) (all : List Str) :
    ∀ argv : List Str, (callParserLoop kws family all argv : Prog κ _) =
      parserLoop kws family argv >>= fun r => pure (r.1, if r.2 then [] else all)
  | [] => by cases family <;> simp [callParserLoop, parserLoop]
  | [arg] => by
    unfold callParserLoop parserLoop
    cases kws.find? (dsetMatchOption arg ·) <;> simp
  | arg :: value :: l => by
    have ih := callParserLoop_eq kws family all l
    unfold callParserLoop parserLoop
    cases kws.find? (dsetMatchOption arg ·) with
    | none => simp
    | some k =>
      cases family with
      | true => exact ih
      | false =>
        simp only [Bool.false_eq_true, if_false, bind_assoc]
        refine bind_congr fun ret => ?_
        split
        next => simp
        next => exact ih

theorem callParser_eq (cmd : Cmd) (family : Bool) (argv : List Str) :
    (callParser cmd family argv : Prog κ _) =
      parser cmd family argv >>= fun r => pure (r.1, if r.2 then [] else argv) := by
  unfold callParser parser
  split
  next => simp
  next => exact callParserLoop_eq ..

theorem argvKeyword_eq (kws : List Keyword) {oargv : List Str} {i : ℕ} {arg : Str}
    (hi : i < maxArgs) (harg : oargv[i]? = some arg) :
    (argvKeyword (ofArgs oargv) i kws : ArgvProg κ _) =
      pure (kws.find? (dsetMatchOption arg ·)) := by
  induction kws with
  | nil => rfl
  | cons k kws ih =>
    rw [argvKeyword, str_ofArgs hi harg, pure_bind, List.find?_cons]
    cases dsetMatchOption arg k with
    | true => rfl
    | false => exact ih

theorem argvParserLoop_eq (kws : List Keyword) (family : Bool) (name : Str) (kept rest : List Str)
    {n : ℕ} (hn : rest.length ≤ n) (hlen : kept.length + rest.length < maxArgs) :
    (argvParserLoop kws family (ofArgs (name :: (kept ++ rest))) n (kept.length + 1) :
      ArgvProg κ _) = call (parserLoop kws family rest) := by
  induction n generalizing kept rest with
  | zero =>
    obtain rfl : rest = [] := List.length_eq_zero_iff.mp (by omega)
    simp [argvParserLoop, parserLoop]
  | succ n ih =>
    cases rest with
    | nil =>
      rw [argvParserLoop, if_neg (by simp [ofArgs])]
      simp [parserLoop]
    | cons arg l =>
      simp only [List.length_cons] at hn hlen
      have hget : (name :: (kept ++ arg :: l))[kept.length + 1]? = some arg := by simp
      rw [argvParserLoop, if_pos (by simp [ofArgs]), argvKeyword_eq kws (by omega) hget, pure_bind]
      unfold parserLoop
      cases hfind : kws.find? (dsetMatchOption arg ·) with
      | none =>
        dsimp only
        rw [str_ofArgs (by omega) hget, pure_bind, call_bind]
        simp
      | some k =>
        cases l with
        | nil =>
          dsimp only
          rw [if_pos (by simp [ofArgs]), call_bind]
          simp
        | cons value l =>
          simp only [List.length_cons] at hn hlen
          have hnext := ih (kept ++ [arg, value]) l (by omega) (by simp; omega)
          simp only [List.append_assoc, List.cons_append, List.nil_append, List.length_append,
            List.length_cons, List.length_nil] at hnext
          have hvalue : (name :: (kept ++ arg :: value :: l))[kept.length + 1 + 1]? = some value := by
            simp
          dsimp only
          rw [if_neg (by simp [ofArgs]; omega)]
          cases family with
          | true => exact hnext
          | false =>
            simp only [Bool.false_eq_true, if_false]
            rw [str_ofArgs (by omega) hvalue, pure_bind, call_bind]
            refine bind_congr fun ret => ?_
            split
            next => simp
            next => exact hnext

def clearedArgs (cleared : Bool) (a : LocalArgv) : LocalArgv :=
  if cleared then { a with argc := 0 } else a

theorem argvParser_eq (cmd : Cmd) (family : Bool) (name : Str) {argv : List Str}
    (hlen : argv.length < maxArgs) :
    (argvParser cmd family (ofArgs (name :: argv)) : ArgvProg κ _) =
      call (parser cmd family argv) >>= fun r =>
        pure (r.1, clearedArgs r.2 (ofArgs (name :: argv))) := by
  unfold argvParser parser
  cases argv with
  | nil =>
    have hloop := argvParserLoop_eq (κ := κ) (typeArgs cmd) family name [] [] (n := 1) (by simp) hlen
    rw [if_neg (by simp [ofArgs]), if_neg (by simp)]
    exact congrArg (· >>= _) hloop
  | cons arg l =>
    have hloop := argvParserLoop_eq (κ := κ) (typeArgs cmd) family name [] (arg :: l)
      (n := l.length + 2) (by simp) (by simpa using hlen)
    by_cases hargs : typeArgs cmd = []
    · rw [if_pos ⟨hargs, by simp [ofArgs]⟩, if_pos ⟨hargs, by simp⟩,
        str_ofArgs (s := arg) (by decide) rfl, pure_bind, call_bind]
      simp [clearedArgs]
    · rw [if_neg fun h => hargs h.1, if_neg fun h => hargs h.1]
      exact congrArg (· >>= _) hloop

theorem parserLoop_family (kws : List Keyword) : ∀ (argv : List Str) (d : Process κ),
    Ends (parserLoop kws true argv) d (fun r _ => r.2 = false) fun _ _ => True
  | [], _ => rfl
  | [arg], d => by
    unfold parserLoop
    cases kws.find? (dsetMatchOption arg ·) <;>
    · simp only [ends_bind, ends_pure]
      exact (ends_true _).mono (fun _ _ _ => trivial) fun _ _ _ => trivial
  | arg :: value :: l, d => by
    unfold parserLoop
    cases kws.find? (dsetMatchOption arg ·) with
    | none =>
      simp only [ends_bind, ends_pure]
      exact (ends_true _).mono (fun _ _ _ => trivial) fun _ _ _ => trivial
    | some k => exact parserLoop_family kws l d

theorem parser_family (cmd : Cmd) (argv : List Str) (d : Process κ) :
    Ends (parser cmd true argv) d (fun r _ => r.2 = false) fun _ _ => True := by
  unfold parser
  split
  next =>
    simp only [ends_bind, ends_pure]
    exact (ends_true _).mono (fun _ _ _ => trivial) fun _ _ _ => trivial
  next => exact parserLoop_family _ argv d

/-- What is left behind `call_parser` is looked at alike. -/
theorem firstLeft_cleared (cleared : Bool) (name : Str) (argv : List Str) :
    ((clearedArgs cleared (ofArgs (name :: argv))).firstLeft : ArgvProg κ _) =
      pure ((if cleared then [] else argv).take 1) := by
  cases cleared with
  | true => rfl
  | false => exact firstLeft_ofArgs name argv

theorem noneLeft_take (argv : List Str) : (noneLeft (argv.take 1) : Prog κ _) = noneLeft argv := by
  cases argv <;> rfl

/-- The options of the set type, the checks behind them, and the end of the arguments. -/
theorem argvParser_rest (cmd : Cmd) (name : Str) {argv : List Str} (hlen : argv.length < maxArgs) :
    (do let a ← argvParsed (← argvParser cmd false (ofArgs (name :: argv)))
        call (checkMandatory cmd)
        call (checkAllowed cmd)
        returning (noneLeft (← a.firstLeft)) : ArgvProg κ Unit) =
      returning (andThen (callParser cmd false argv >>= parsedArgs) fun argv =>
        andThen (checkArgs cmd argv) noneLeft) := by
  rw [argvParser_eq cmd false name hlen, callParser_eq, returning_andThen]
  simp only [bind_assoc, pure_bind, returning_bind]
  refine bind_congr fun r => ?_
  unfold argvParsed parsedArgs
  dsimp only
  simp only [returning_ite]
  split
  next => rw [returns_bind, returning_return, returns_bind]
  next =>
    split
    next => simp [returns, returning]
    next =>
      simp only [pure_bind, returning_ok, checkArgs, returning_andThen, returning_bind, bind_assoc,
        firstLeft_cleared, noneLeft_take]

/-! ### The line -/

theorem andThen_assoc {γ : Type} (x : Prog κ (Except ℤ α)) (f : α → Prog κ (Except ℤ β))
    (g : β → Prog κ (Except ℤ γ)) :
    andThen (andThen x f) g = andThen x fun a => andThen (f a) g := by
  unfold andThen
  rw [bind_assoc]
  refine bind_congr fun res => ?_
  cases res with
  | error ret => exact pure_bind ..
  | ok a => rfl

/-- The first call of `call_parser` for `create` leaves the arguments as they are. -/
theorem argvParser_family (cmd : Cmd) (name : Str) {argv : List Str} (hlen : argv.length < maxArgs)
    {f : LocalArgv → ArgvProg κ β} {g : List Str → ArgvProg κ β}
    (hfg : f (ofArgs (name :: argv)) = g argv) :
    (do let a ← argvParsed (← argvParser cmd true (ofArgs (name :: argv)))
        f a) = returning (callParser cmd true argv >>= parsedArgs) >>= g := by
  rw [argvParser_eq cmd true name hlen, callParser_eq]
  simp only [bind_assoc, pure_bind, returning_bind]
  refine call_congr (P := fun r => r.2 = false) (parser_family cmd argv) fun r hr => ?_
  unfold argvParsed parsedArgs
  rw [hr]
  simp only [clearedArgs, Bool.false_eq_true, if_false, returning_ite]
  split
  next => rw [returns_bind, returning_return, returns_bind]
  next =>
    split
    next => simp [returns, returning]
    next => simpa only [pure_bind, returning_ok] using hfg

theorem argvCreate_rest (E : Env κ) (arg0 arg1 name : Str) {argv : List Str}
    (hlen : argv.length < maxArgs) :
    (do let a ← argvCreate E arg0 arg1 (ofArgs (name :: argv))
        returning (noneLeft (← a.firstLeft)) : ArgvProg κ Unit) =
      returning (andThen (parseCreate E arg0 arg1 argv) noneLeft) := by
  have hrest := argvParser_rest (κ := κ) .create name hlen
  unfold argvCreate parseCreate parsed
  simp only [andThen_assoc, returning_andThen, bind_assoc, pure_bind] at hrest ⊢
  refine bind_congr fun _ => bind_congr fun _ => bind_congr fun _ => ?_
  exact argvParser_family .create name hlen hrest

theorem argvAdt_rest (E : Env κ) (cmd : Cmd) (arg0 arg1 name : Str) {argv : List Str}
    (hlen : argv.length < maxArgs) :
    (do let a ← argvAdt E cmd arg0 arg1 (ofArgs (name :: argv))
        returning (noneLeft (← a.firstLeft)) : ArgvProg κ Unit) =
      returning (andThen (parseAdt E cmd arg0 arg1 argv) noneLeft) := by
  have hrest := argvParser_rest (κ := κ) cmd name hlen
  unfold argvAdt parseAdt parsed
  simp only [andThen_assoc, returning_andThen, bind_assoc, pure_bind] at hrest ⊢
  refine bind_congr fun _ => bind_congr fun _ => bind_congr fun _ => ?_
  exact hrest

/-- A command that does not look at the arguments behind its own. -/
theorem argvKept_rest {x : List Str → Prog κ (Except ℤ (List Str))} (name : Str) (argv : List Str)
    (hx : andThen (x argv) noneLeft = andThen (x []) fun _ => noneLeft argv) :
    (do let a ← argvKept (x []) (ofArgs (name :: argv))
        returning (noneLeft (← a.firstLeft)) : ArgvProg κ Unit) =
      returning (andThen (x argv) noneLeft) := by
  rw [hx, returning_andThen]
  simp only [argvKept, bind_assoc, pure_bind, firstLeft_ofArgs, noneLeft_take]

theorem parseOptional_rest (arg0 : Option Str) (argv : List Str) :
    (andThen (parseOptional arg0 argv) noneLeft : Prog κ _) =
      andThen (parseOptional arg0 []) fun _ => noneLeft argv := by
  cases arg0 with
  | none => simp [parseOptional, andThen]
  | some arg0 =>
    simp only [parseOptional, andThen_assoc]
    congr 1

theorem parseNames_rest (arg0 arg1 : Str) (argv : List Str) :
    (andThen (parseNames arg0 arg1 argv) noneLeft : Prog κ _) =
      andThen (parseNames arg0 arg1 []) fun _ => noneLeft argv := by
  simp only [parseNames, andThen_assoc]
  congr 1

theorem parseList_rest (E : Env κ) (arg0 : Option Str) (argv : List Str) :
    andThen (parseList E arg0 argv) noneLeft =
      andThen (parseList E arg0 []) fun _ => noneLeft argv := by
  have hopt := parseOptional_rest (κ := κ) arg0 argv
  unfold andThen at hopt ⊢
  simp only [parseList, bind_assoc]
  refine bind_congr fun d => ?_
  cases d.filename with
  | none => exact hopt
  | some filename =>
    simp only [bind_assoc]
    refine bind_congr fun ret => ?_
    split
    next => rfl
    next => exact hopt

theorem returns_of_bind (x : Prog κ β) (f : β → Prog κ ℤ) :
    (returns (x >>= f) : ArgvProg κ α) = call x >>= fun b => returns (f b) := by
  simp only [returns, call_bind, bind_assoc]

theorem argvNoCommand_eq (loops : Loops κ) (name : Str) (argv : List Str) :
    (argvNoCommand loops (ofArgs (name :: argv)) : ArgvProg κ α) = returns (noCommand loops argv) := by
  have htake : noCommand loops (argv.take 1) = noCommand loops argv := by cases argv <;> rfl
  -- in the interactive mode nothing is read
  have hmode : (do if (← get).interactive then return 0 else noCommand loops argv : Prog κ ℤ) =
      noCommand loops argv := by
    funext d
    show (if d.interactive then (pure 0 : Prog κ ℤ) else noCommand loops argv) d = _
    cases hd : d.interactive with
    | false => rfl
    | true =>
      show _ = (if d.interactive then (pure 0 : Prog κ ℤ) else _) d
      rw [hd]
      rfl
  unfold argvNoCommand
  rw [← hmode, returns_of_bind, firstLeft_ofArgs]
  refine bind_congr fun d => ?_
  split
  next => rfl
  next => rw [pure_bind, htake]

/-- A stage that leaves the arguments as they are. -/
theorem kept_rest (name : Str) (argv : List Str) :
    (do returning (noneLeft (← (ofArgs (name :: argv)).firstLeft)) : ArgvProg κ Unit) =
      returning (andThen (pure (.ok argv)) noneLeft) := by
  rw [firstLeft_ofArgs, pure_bind, noneLeft_take]
  rfl

theorem returns_rest (x : Prog κ ℤ) :
    (do let a : LocalArgv ← returns x
        returning (noneLeft (← a.firstLeft)) : ArgvProg κ Unit) =
      returning (andThen (do return .error (← x)) noneLeft) := by
  rw [returns_bind, returning_andThen, returning_return, returns_bind]

/-- The stages and the end of the arguments. -/
theorem argvStages_rest (E : Env κ) (loops : Loops κ) (name : Str) {c : CmdArgs}
    (hlen : c.argv.length < maxArgs) :
    (do let a ← argvStages E loops (c.onArray name)
        returning (noneLeft (← a.firstLeft)) : ArgvProg κ Unit) =
      returning (andThen (parseStages E loops c) noneLeft) := by
  obtain ⟨cmd, arg0, arg1, argv⟩ := c
  have hrestore : restoreCmd loops (argv.take 1) = restoreCmd loops argv := by cases argv <;> rfl
  have hkept := kept_rest (κ := κ) name argv
  cases cmd with
  | none =>
    show (argvNoCommand loops (ofArgs (name :: argv)) >>= _) = _
    rw [argvNoCommand_eq]
    exact returns_rest _
  | version => exact returns_rest _
  | help => exact returns_rest _
  | quit => exact returns_rest _
  | restore =>
    show ((ofArgs (name :: argv)).firstLeft >>= _ >>= _) = _
    rw [firstLeft_ofArgs, pure_bind, hrestore]
    exact returns_rest _
  | list => exact argvKept_rest name argv (parseList_rest E arg0 argv)
  | save => exact argvKept_rest name argv (parseList_rest E arg0 argv)
  | destroy => exact argvKept_rest name argv (parseOptional_rest arg0 argv)
  | flush => exact argvKept_rest name argv (parseOptional_rest arg0 argv)
  | create =>
    cases arg0 <;> cases arg1
    case some.some arg0 arg1 => exact argvCreate_rest E arg0 arg1 name hlen
    all_goals exact hkept
  | rename =>
    cases arg0 <;> cases arg1
    case some.some arg0 arg1 => exact argvKept_rest name argv (parseNames_rest arg0 arg1 argv)
    all_goals exact hkept
  | swap =>
    cases arg0 <;> cases arg1
    case some.some arg0 arg1 => exact argvKept_rest name argv (parseNames_rest arg0 arg1 argv)
    all_goals exact hkept
  | add =>
    cases arg0 <;> cases arg1
    case some.some arg0 arg1 => exact argvAdt_rest E .add arg0 arg1 name hlen
    all_goals exact hkept
  | del =>
    cases arg0 <;> cases arg1
    case some.some arg0 arg1 => exact argvAdt_rest E .del arg0 arg1 name hlen
    all_goals exact hkept
  | test =>
    cases arg0 <;> cases arg1
    case some.some arg0 arg1 => exact argvAdt_rest E .test arg0 arg1 name hlen
    all_goals exact hkept
  | _ => exact hkept

theorem dropEnvopts_sublist (os : List EnvOpt) (argv : List Str) :
    (dropEnvopts os argv).Sublist argv := by
  induction os generalizing argv with
  | nil => exact List.Sublist.refl argv
  | cons o os ih => exact (ih (dropEnvopt o argv)).trans (dropEnvopt_sublist o argv)

theorem dropEnvopt_none {o : EnvOpt} : ∀ {argv : List Str},
    (∀ arg ∈ argv, dsetMatchEnvopt arg o = false) → dropEnvopt o argv = argv
  | [], _ => rfl
  | [arg], h => by simp [dropEnvopt, h arg List.mem_cons_self]
  | arg :: value :: l, h => by
    have ih := dropEnvopt_none fun b hb => h b (List.mem_cons_of_mem arg hb)
    rw [dropEnvopt, h arg List.mem_cons_self, if_neg Bool.false_ne_true, ih]

theorem not_hasOption {os : List EnvOpt} {argv : List Str} (h : ¬ HasOption os argv) :
    ∀ o ∈ os, ∀ arg ∈ argv, dsetMatchEnvopt arg o = false := by
  intro o ho arg harg
  by_contra hmatch
  exact h ⟨o, ho, arg, harg, by simpa using hmatch⟩

theorem not_hasOption_tail {o : EnvOpt} {os : List EnvOpt} {argv : List Str}
    (h : ¬ HasOption (o :: os) argv) : ¬ HasOption os argv := by
  rintro ⟨o', ho', hrest⟩
  exact h ⟨o', List.mem_cons_of_mem o ho', hrest⟩

theorem dropEnvopts_none {os : List EnvOpt} {argv : List Str} (h : ¬ HasOption os argv) :
    dropEnvopts os argv = argv := by
  induction os with
  | nil => rfl
  | cons o os ih =>
    show dropEnvopts os (dropEnvopt o argv) = argv
    rw [dropEnvopt_none (not_hasOption h o List.mem_cons_self)]
    exact ih (not_hasOption_tail h)

theorem parseCmdArgs_short (command : DsetCommand) (argv : List Str) (d : Process κ) :
    Ends (parseCmdArgs command argv) d
      (fun res _ => ∀ c, res = .ok c → c.argv.length ≤ argv.length) fun _ _ => True := by
  refine (parseCmdArgs_args command argv).mono (fun res d' h c hc => ?_) fun _ _ h => h
  have hargs := (h c hc).2
  obtain ⟨cmd, names, hasArg⟩ := command
  match argv with
  | [] => cases hasArg <;> cases hargs <;> simp
  | [arg0] => cases hasArg <;> cases hargs <;> simp
  | arg0 :: arg1 :: l =>
    cases hasArg <;> cases hargs
    case mandatoryArg2 => exact (Nat.le_succ _).trans (Nat.le_succ _)
    all_goals simp

theorem parseCmd_short (argv : List Str) (d : Process κ) :
    Ends (parseCmd argv) d
      (fun res _ => ∀ c, res = .ok c → c.argv.length ≤ argv.length) fun _ _ => True := by
  cases argv with
  | nil =>
    rintro c ⟨⟩
    exact le_rfl
  | cons arg l =>
    unfold parseCmd
    dsimp only
    cases dsetCommands.find? fun c => dsetMatchCmd arg c.name with
    | none =>
      rintro c ⟨⟩
      exact le_rfl
    | some command =>
      simp only [ends_bind, ends_get]
      refine ends_ite.mpr ⟨fun _ => ends_error, fun _ => ends_ite.mpr ⟨fun _ => ?_, fun _ => ?_⟩⟩
      · intro c hc
        cases hc
      refine (parseCmdArgs_short command l d).mono (fun res d' h c hc => ?_) fun _ _ h => h
      exact (h c hc).trans (Nat.le_succ _)

/-- Where it is not shifted in a full array, the parser on the array is the one on lists. -/
theorem argvLine_eq (E : Env κ) (loops : Loops κ) (name : Str) {argv : List Str}
    (hlen : argv.length < maxArgs)
    (hshift : HasOption EnvOpt.all argv ∨ HasCommand argv → argv.length + 1 < maxArgs) :
    argvLine E loops (name :: argv) = returning (parseLine E loops argv) := by
  have hcopy : memcpy (name :: argv) = .ok (ofArgs (name :: argv)) :=
    if_neg (by simp only [List.length_cons]; omega)
  unfold argvLine parseLine
  rw [hcopy, access_ok, pure_bind]
  simp only [returning_bind, returning_andThen, bind_assoc,
    argvEnvopts_eq EnvOpt.all name argv hlen fun h => hshift (.inl h), pure_bind]
  refine bind_congr fun d => bind_congr fun _ => ?_
  refine returning_congr (P := fun l => l = dropEnvopts EnvOpt.all argv) (fun d => ?_) fun l hl => ?_
  · exact (parseEnvopts_opted EnvOpt.all argv).mono (fun res d' h l hl => (h l hl).1) fun _ _ h => h
  have hle : l.length ≤ argv.length := hl ▸ (dropEnvopts_sublist EnvOpt.all argv).length_le
  have hcmd : HasCommand l → l.length + 1 < maxArgs := by
    intro h
    by_cases hopt : HasOption EnvOpt.all argv
    · have := hshift (.inl hopt)
      omega
    · rw [dropEnvopts_none hopt] at hl
      rw [hl] at h ⊢
      exact hshift (.inr h)
  rw [argvCmd_eq name (hle.trans_lt hlen) hcmd, bind_assoc]
  simp only [pure_bind]
  refine returning_congr (P := fun c => c.argv.length ≤ l.length) (parseCmd_short l) fun c hc => ?_
  have hstages := argvStages_rest E loops name (c := c) (by omega)
  rw [returning_andThen] at hstages
  simpa [bind_assoc, CmdArgs.onArray] using congrArg (fun x => x >>= fun _ => pure c.cmd) hstages

/-! ### A full array -/

theorem argvEnvopt_full (o : EnvOpt) (name : Str) (kept rest : List Str) {n : ℕ}
    (hn : rest.length ≤ n) (hlen : kept.length + rest.length + 1 = maxArgs)
    (hmatch : ∃ arg ∈ rest, dsetMatchEnvopt arg o = true) :
    (argvEnvopt o n (kept.length + 1) (ofArgs (name :: (kept ++ rest))) : ArgvProg κ LocalArgv) =
      throw (.fault .outOfBounds) := by
  induction rest generalizing kept n with
  | nil => simp at hmatch
  | cons arg l ih =>
    cases n with
    | zero => simp at hn
    | succ n =>
      simp only [List.length_cons] at hn hlen
      have hget : (name :: (kept ++ arg :: l))[kept.length + 1]? = some arg := by simp
      rw [argvEnvopt, if_pos (by simp [ofArgs]), str_ofArgs (by omega) hget, pure_bind]
      cases harg : dsetMatchEnvopt arg o with
      | true =>
        have hfull : (ofArgs (name :: (kept ++ arg :: l))).dsetShiftArgv (kept.length + 1) =
            .error .outOfBounds := shift_full (by simp) (by simp; omega)
        rw [hfull]
        rfl
      | false =>
        obtain ⟨b, hb, hbmatch⟩ := hmatch
        have hbl : b ∈ l := by
          rcases List.mem_cons.mp hb with rfl | hb
          · exact absurd hbmatch (by simp [harg])
          · exact hb
        have hnext := ih (kept ++ [arg]) (n := n) (by omega) (by simp; omega) ⟨b, hbl, hbmatch⟩
        simpa using hnext

theorem parseEnvopts_none {os : List EnvOpt} {argv : List Str} (h : ¬ HasOption os argv) :
    (parseEnvopts os argv : Prog κ _) = pure (.ok argv) := by
  induction os with
  | nil => rfl
  | cons o os ih =>
    rw [parseEnvopts, parseEnvopt_none [] argv (not_hasOption h o List.mem_cons_self), pure_bind]
    exact ih (not_hasOption_tail h)

theorem argvEnvopts_full {os : List EnvOpt} {argv : List Str} (name : Str)
    (hlen : argv.length + 1 = maxArgs) (h : HasOption os argv) :
    (argvEnvopts os (ofArgs (name :: argv)) : ArgvProg κ LocalArgv) =
      throw (.fault .outOfBounds) := by
  induction os with
  | nil =>
    obtain ⟨o, ho, -⟩ := h
    cases ho
  | cons o os ih =>
    show (argvEnvopt o (argv.length + 1) 1 (ofArgs (name :: argv)) >>= argvEnvopts os) = _
    by_cases hfirst : ∃ arg ∈ argv, dsetMatchEnvopt arg o = true
    · have hfull := argvEnvopt_full (κ := κ) o name [] argv (n := argv.length + 1) (by omega)
        (by simpa using hlen) hfirst
      simp only [List.length_nil, Nat.zero_add, List.nil_append] at hfull
      rw [hfull]
      rfl
    · have hsame := argvEnvopt_eq (κ := κ) o name [] argv (n := argv.length + 1) (by omega)
        (by simp; omega) fun hm => absurd hm hfirst
      rw [parseEnvopt_none [] argv fun arg harg => by simpa using fun hm => hfirst ⟨arg, harg, hm⟩]
        at hsame
      simp only [List.length_nil, Nat.zero_add, List.nil_append, returning_ok, pure_bind] at hsame
      rw [hsame, pure_bind]
      obtain ⟨o', ho', hrest⟩ := h
      rcases List.mem_cons.mp ho' with rfl | ho'
      · exact absurd hrest hfirst
      · exact ih ⟨o', ho', hrest⟩

theorem argvCmd_full (cs : List DsetCommand) (name arg : Str) {l : List Str}
    (hlen : l.length + 2 = maxArgs) (hmatch : (cs.any fun c => dsetMatchCmd arg c.name) = true)
    {d : Process κ} (hline : d.restoreLine = 0) (hmode : d.interactive = false) :
    (argvCmd cs (ofArgs (name :: arg :: l)) : ArgvProg κ ArgvCmd).run d =
      .ok (.error (.fault .outOfBounds)) d := by
  induction cs with
  | nil => cases hmatch
  | cons command cs ih =>
    rw [argvCmd, if_pos (by simp [ofArgs]), str_ofArgs (s := arg) (by decide) rfl, pure_bind]
    cases harg : dsetMatchCmd arg command.name with
    | false =>
      rw [List.any_cons, harg, Bool.false_or] at hmatch
      exact ih hmatch
    | true =>
      have hfull : (ofArgs (name :: arg :: l)).dsetShiftArgv 1 = .error .outOfBounds :=
        shift_full (by simp) (by simp; omega)
      rw [hfull]
      simp only [Bool.not_true, Bool.false_eq_true, if_false, call, ExceptT.run_bind_lift]
      show ExceptT.run (m := Prog κ) (if d.restoreLine ≠ 0 ∧ _ then _
        else if (d.interactive && _) = true then _ else _) d = _
      rw [if_neg fun h => h.1 hline, hmode]
      rfl

/-! ### The bounds -/

/-- No access of the run to the array is outside of it. -/
def InBounds (x : Prog κ (Except Fault ℤ)) (d : Process κ) : Prop :=
  Ends x d (fun r _ => ∃ ret, r = .ok ret) fun _ _ => True

theorem inBounds_of_eq {x : Prog κ (Except Fault ℤ)} {y : Prog κ ℤ} (h : x = .ok <$> y)
    (d : Process κ) : InBounds x d := by
  unfold InBounds
  rw [h, ends_map]
  exact (ends_true y).mono (fun ret _ _ => ⟨ret, rfl⟩) fun _ _ _ => trivial

/-- Fewer than `MAX_ARGS` arguments, or as many and nothing to shift off. -/
def ArgvFits (oargv : List Str) : Prop :=
  oargv.length < maxArgs ∨
    oargv.length = maxArgs ∧ ¬ HasOption EnvOpt.all oargv.tail ∧ ¬ HasCommand oargv.tail

theorem argvEnvopts_nil (os : List EnvOpt) :
    (argvEnvopts os (ofArgs []) : ArgvProg κ LocalArgv) = pure (ofArgs []) := by
  induction os with
  | nil => rfl
  | cons o os ih =>
    show (argvEnvopt o 0 1 (ofArgs []) >>= argvEnvopts os) = _
    rw [argvEnvopt, pure_bind]
    exact ih

/-- Without any argument, not even the name of the program, nothing is read. -/
theorem argvLine_nil (E : Env κ) (loops : Loops κ) :
    argvLine E loops [] = returning (parseLine E loops []) := by
  have hnone := argvNoCommand_eq (κ := κ) (α := LocalArgv) loops [] []
  have hcopy : memcpy [] = .ok (ofArgs []) := rfl
  unfold argvLine parseLine
  rw [hcopy, access_ok, pure_bind, parseEnvopts_none (by rintro ⟨o, -, arg, harg, -⟩; cases harg)]
  simp only [returning_bind, returning_andThen, argvEnvopts_nil, pure_bind, returning_ok]
  refine bind_congr fun d => bind_congr fun _ => ?_
  show (argvNoCommand loops (ofArgs []) >>= _) =
    returning (do return .error (← noCommand loops [])) >>= _
  rw [returning_return, returns_bind]
  exact (congrArg (· >>= _) hnone).trans (returns_bind ..)

theorem parseArgv_of_line {E : Env κ} {loops : Loops κ} {oargv argv : List Str}
    (h : argvLine E loops oargv = returning (parseLine E loops argv)) :
    parseArgv E loops oargv = .ok <$> dsetParseArgv E loops argv := by
  unfold parseArgv dsetParseArgv
  rw [h, map_bind]
  simp only [returning, call, ExceptT.run_bind_lift]
  rw [bind_assoc]
  refine bind_congr fun res => ?_
  cases res with
  | error ret => simp
  | ok cmd => simp

/-- Where it does not shift a full array, the parser on the array is the one on lists, and stays
within the array. -/
theorem parseArgv_eq (E : Env κ) (loops : Loops κ) {oargv : List Str} (h : ArgvFits oargv) :
    parseArgv E loops oargv = .ok <$> dsetParseArgv E loops oargv.tail := by
  cases oargv with
  | nil => exact parseArgv_of_line (argvLine_nil E loops)
  | cons name argv =>
    refine parseArgv_of_line (argvLine_eq E loops name ?_ fun hshift => ?_)
    · rcases h with h | h
      · exact (Nat.lt_succ_self _).trans h
      · exact h.1 ▸ Nat.lt_succ_self _
    · rcases h with h | ⟨-, hopt, hcmd⟩
      · exact h
      · rcases hshift with hshift | hshift
        · exact absurd hshift hopt
        · exact absurd hshift hcmd

theorem run_bind_fault {x : ArgvProg κ α} {e : Leave} {d d' : Process κ}
    (h : x.run d = .ok (.error e) d') (f : α → ArgvProg κ β) :
    (x >>= f).run d = .ok (.error e) d' := by
  show EStateM.bind x.run _ d = _
  unfold EStateM.bind
  rw [h]
  rfl

/-- In a program that has just started, arguments that do not fit lead outside of the array. -/
theorem parseArgv_full (E : Env κ) (loops : Loops κ) {oargv : List Str} {d : Process κ}
    (hline : d.restoreLine = 0) (hmode : d.interactive = false) (h : ¬ ArgvFits oargv) :
    Ends (parseArgv E loops oargv) d (fun r _ => r = .error .outOfBounds) fun _ _ => False := by
  have hrun : ∃ d', (argvLine E loops oargv).run d = .ok (.error (.fault .outOfBounds)) d' := by
    obtain ⟨hlt, hshift⟩ := not_or.mp h
    by_cases hmany : maxArgs < oargv.length
    · have hcopy : memcpy oargv = .error .outOfBounds := if_pos hmany
      unfold argvLine
      rw [hcopy]
      exact ⟨d, rfl⟩
    have hlen : oargv.length = maxArgs := by omega
    cases oargv with
    | nil => cases hlen
    | cons name argv =>
      have hcopy : memcpy (name :: argv) = .ok (ofArgs (name :: argv)) := if_neg hmany
      unfold argvLine
      rw [hcopy, access_ok, pure_bind]
      by_cases hopt : HasOption EnvOpt.all argv
      · rw [argvEnvopts_full name hlen hopt]
        exact ⟨_, rfl⟩
      · have hcmd : HasCommand argv := by
          by_contra hcmd
          exact hshift ⟨hlen, hopt, hcmd⟩
        have hlt : argv.length < maxArgs := hlen ▸ Nat.lt_succ_self _
        rw [argvEnvopts_eq EnvOpt.all name argv hlt fun h => absurd h hopt, parseEnvopts_none hopt]
        obtain ⟨arg, harg, hmatch⟩ := hcmd
        cases argv with
        | nil => cases harg
        | cons arg' l =>
          obtain rfl := Option.some.inj harg
          have hfull := argvCmd_full dsetCommands name arg' hlen hmatch
            (d := d.mapSession fun s => { s with lineno := d.restoreLine }) hline hmode
          rw [returning_ok, pure_bind]
          exact ⟨_, run_bind_fault hfull _⟩
  obtain ⟨d', hd'⟩ := hrun
  unfold parseArgv
  rw [ends_bind, ends_of_ok hd']
  rfl

theorem step_args {a a' : Argv} {c : UInt8} {last : Bool}
    (h : a.step c last = .read a' ∨ a.step c last = .endArg a') : a'.args = a.args := by
  unfold Argv.step at h
  extract_lets ended at h
  have hread {b : Argv} (hb : ArgvStep.read b = .read a' ∨ ArgvStep.read b = .endArg a') :
      a' = b := by
    rcases hb with hb | hb <;> cases hb
    rfl
  have hended {b : Argv} (hb : ended b = .read a' ∨ ended b = .endArg a') : a' = b := by
    simp only [ended] at hb
    split at hb
    · simp at hb
    · split at hb
      · exact hread hb
      · simpa [eq_comm] using hb
  split at h
  · split at h
    · rw [hended h]
    · rw [hread h]
  · split at h
    · split at h
      · rw [hread h]
      · rw [hended h]
    · split at h
      · rw [hended h]
      · rw [hread h]
/-- A line is split into fewer arguments than the array has room for. -/
theorem buildArgvLoop_short (E : Env κ) (a : Argv) (line : Str) (d : Process κ)
    (h : a.args.length + 2 ≤ maxArgs) :
    Ends (buildArgvLoop E a line) d (fun r _ => r.2.length + 2 ≤ maxArgs) fun _ _ => True := by
  induction line generalizing a d with
  | nil => exact h
  | cons c l ih =>
    have hfail (status : Problem) (d : Process κ) : Ends (Prog.customError status) d
        (fun _ _ => a.args.length + 2 ≤ maxArgs) fun _ _ => True :=
      (ends_true _).mono (fun _ _ _ => h) fun _ _ _ => trivial
    unfold buildArgvLoop
    rw [ends_ite]
    simp only [ends_bind, ends_pure]
    refine ⟨fun _ => hfail .parameter d, fun hmax => ?_⟩
    cases hstep : a.step c l.isEmpty with
    | read a' => exact ih a' d (by rw [step_args (.inl hstep)]; exact h)
    | missingQuote =>
      simp only [ends_bind, ends_pure]
      exact hfail .parameter d
    | endArg a' =>
      have hargs := step_args (.inr hstep)
      simp only [ends_bind, ends_ext, ends_ite, ends_pure, hargs]
      refine ⟨fun _ => ih _ _ ?_, fun _ => hfail .other _⟩
      simp only [List.length_append, List.length_cons, List.length_nil]
      omega

theorem buildArgv_short (E : Env κ) (line : Str) (d : Process κ) :
    Ends (buildArgv E line) d (fun r _ => r.2.length + 2 ≤ maxArgs) fun _ _ => True := by
  have hempty : ([] : List Str).length + 2 ≤ maxArgs := by decide
  simp only [buildArgv, ends_bind, ends_ext, ends_ite, ends_pure]
  refine ⟨fun _ => buildArgvLoop_short E _ line _ hempty, fun _ => ?_⟩
  exact (ends_true _).mono (fun _ _ _ => hempty) fun _ _ _ => trivial

theorem not_inBounds {x : Prog κ (Except Fault ℤ)} {d : Process κ} {f : Fault}
    (h : Ends x d (fun r _ => r = .error f) fun _ _ => False) : ¬ InBounds x d := by
  intro hin
  refine ((h.and hin).mono (fun r _ hr => ?_) fun _ _ hx => hx.1).elim
  obtain ⟨rfl, ret, hret⟩ := hr
  cases hret

/-- The array of the command line is accessed within its bounds if and only if it is given fewer
than `MAX_ARGS` arguments, or `MAX_ARGS` with no option of the program and no command first. That
of a line always is. -/
theorem argv_in_bounds (E : Env κ) (loops : Loops κ) :
    (∀ (bufsize : ℕ) (kernel : κ) (stdin : List UInt8) (oargv : List Str),
      InBounds (parseArgv E loops oargv) (dsetInit bufsize kernel stdin) ↔ ArgvFits oargv) ∧
    ∀ (line name : Str) (d : Process κ),
      InBounds (do parseArgv E loops (name :: (← buildArgv E line).2)) d := by
  refine ⟨fun bufsize kernel stdin oargv => ⟨fun hin => ?_, fun h => ?_⟩, fun line name d => ?_⟩
  · by_contra h
    exact not_inBounds (parseArgv_full E loops rfl rfl h) hin
  · exact inBounds_of_eq (parseArgv_eq E loops h) _
  · unfold InBounds
    rw [ends_bind]
    refine (buildArgv_short E line d).mono (fun r d' hr => ?_) fun _ _ h => h
    have hfits : ArgvFits (name :: r.2) := .inl (by simp only [List.length_cons]; omega)
    exact inBounds_of_eq (parseArgv_eq E loops hfits) d'

/-- A command line of 33 arguments is copied over the end of the array. -/
theorem argv_out_of_bounds :
    ¬ ∀ (E : Env Unit) (loops : Loops Unit) (oargv : List Str),
      InBounds (parseArgv E loops oargv) (dsetInit 0 () []) := by
  intro h
  have hfits : ¬ ArgvFits (List.replicate 33 (bytes "dset")) := by
    simp [ArgvFits, maxArgs]
  exact not_inBounds (parseArgv_full ⟨fun _ _ => ([], ()), fun _ => true, fun _ => true, fun _ => []⟩
    ⟨assertFail, assertFail⟩ rfl rfl hfits) (h _ _ _)

end Dset.User
