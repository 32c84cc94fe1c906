import Dset.User.Command

/-! Reading of command lines (`dset.c`, `parse.c`): the lines of a stream, the arguments of a
line with their quotes, numbers, and the functions an error is given to. -/

namespace Dset.User

open Dset.Lib Dset.Core

variable {κ : Type}

/-! ### Error functions -/

/-- `enum dset_exittype`. -/
inductive Problem where
  | none | other | parameter | version | session
  deriving DecidableEq

def Problem.status : Problem → ℕ
  | .none => 0
  | .other | .session => 1
  | .parameter => 2
  | .version => 3

namespace Prog

/-- The call of a function of the library user. -/
def callErrorFn (f : ErrorFn) : Prog κ ℤ := do
  let n := (← get).calls
  modify fun d => { d with calls := n + 1 }
  if f.resets n then modifySession (·.reportReset)
  return f.ret n

def defaultCustomError (status : Problem) : Prog κ ℤ := do
  if status ≠ .none && (← get).interactive then
    modifySession (·.reportReset)
    return -1
  else exit status.status

def customError (status : Problem) : Prog κ ℤ := do
  match (← get).errorFns.custom with
  | some f => callErrorFn f
  | none => defaultCustomError status

def defaultStandardError : Prog κ ℤ := do
  let d ← get
  if d.session.errType = .error then customError .session
  else if !d.interactive then
    -- warnings are not errors
    exit (if d.session.errType.rank ≤ ErrType.warning.rank then 0 else Problem.other.status)
  else
    modifySession (·.reportReset)
    return -1

def standardError : Prog κ ℤ := do
  match (← get).errorFns.standard with
  | some f => callErrorFn f
  | none => defaultStandardError

end Prog

/-! ### Lines -/

def isspace (c : UInt8) : Bool := c = 32 || (9 ≤ c && c ≤ 13)

def maxCmdlineChars : ℕ := 1024

/-- What the calls of `fgets` read from a stream, behind the bytes already read. -/
def fgetsFrom (read : List UInt8) : List UInt8 → List (List UInt8)
  | [] => if read = [] then [] else [read]
  | c :: l =>
    if c = 10 ∨ read.length + 2 = maxCmdlineChars then (read ++ [c]) :: fgetsFrom [] l
    else fgetsFrom (read ++ [c]) l

def fgetsLines (stream : List UInt8) : List (List UInt8) := fgetsFrom [] stream

/-- The string that was read, without the white space before it. -/
def skipSpace (buf : List UInt8) : Str := (cstr buf).dropWhile isspace

def isBlank (c : Str) : Bool := c = [] || c.head? = some 35

/-- `COMMIT` alone on a line. -/
def isCommit (c : Str) : Bool := c = bytes "COMMIT\n" || c = bytes "COMMIT\r\n"

def maxArgs : ℕ := 32

/-- `newargv` without the program name, the argument being read, and whether it is quoted. -/
structure Argv where
  args : List Str
  arg : Str
  quoted : Bool
  deriving DecidableEq

inductive ArgvStep where
  | read (a : Argv)
  | missingQuote
  /-- The end of an argument. -/
  | endArg (a : Argv)
  deriving DecidableEq

/-- The body of the loop of `build_argv`. -/
def Argv.step (a : Argv) (c : UInt8) (last : Bool) : ArgvStep :=
  let ended (a : Argv) : ArgvStep :=
    if last && a.quoted then .missingQuote else if a.arg = [] then .read a else .endArg a
  if c = 34 then
    let a := { a with quoted := !a.quoted }
    if last then ended a else .read a
  else if c = 32 ∨ c = 13 ∨ c = 10 ∨ c = 9 then
    -- the loop goes on behind a quoted blank, also behind the last one
    if a.quoted then .read { a with arg := a.arg ++ [c] } else ended a
  else
    let a := { a with arg := a.arg ++ [c] }
    if last then ended a else .read a

/-- The loop of `build_argv`: its value, and the arguments it leaves. -/
def buildArgvLoop (E : Env κ) : Argv → Str → Prog κ (ℤ × List Str)
  | a, [] => return (0, a.args)
  | a, c :: l => do
    if a.args.length + 1 + 1 = maxArgs then return (← Prog.customError .parameter, a.args)
    else
      match a.step c l.isEmpty with
      | .read a => buildArgvLoop E a l
      | .missingQuote => return (← Prog.customError .parameter, a.args)
      | .endArg a =>
        if ← Prog.ext E then buildArgvLoop E ⟨a.args ++ [a.arg], [], a.quoted⟩ l
        else return (← Prog.customError .other, a.args)

def buildArgv (E : Env κ) (line : Str) : Prog κ (ℤ × List Str) := do
  if ← Prog.ext E then buildArgvLoop E ⟨[], [], false⟩ line
  else return (← Prog.customError .other, [])

/-! ### Numbers -/

def digitVal (c : UInt8) : ℕ :=
  if 48 ≤ c ∧ c ≤ 57 then c.toNat - 48
  else if 97 ≤ c ∧ c ≤ 122 then c.toNat - 87
  else if 65 ≤ c ∧ c ≤ 90 then c.toNat - 55
  else 36

/-- The number that digits make, and what is behind them. -/
def readDigits (base n : ℕ) : Str → ℕ × Str
  | [] => (n, [])
  | c :: l => if digitVal c < base then readDigits base (n * base + digitVal c) l else (n, c :: l)

/-- What `strtoull` with base 0 makes of a string: nothing without a digit, otherwise its
value, whether it was out of range, and what is behind it. -/
def strtoull (str : Str) : Option (ℕ × Bool × Str) :=
  let s := str.dropWhile isspace
  let negative : Bool := s.head? = some 45
  let s := if negative ∨ s.head? = some 43 then s.tail else s
  let hex : Bool := s.head? = some 48 && (s.tail.head? = some 120 || s.tail.head? = some 88) &&
    s.tail.tail.head?.any fun c => digitVal c < 16
  let base := if hex then 16 else if s.head? = some 48 then 8 else 10
  let s := if hex then s.tail.tail else s
  let (n, rest) := readDigits base 0 s
  if rest.length = s.length then none
  else if 2 ^ 64 ≤ n then some (2 ^ 64 - 1, true, rest)
  else some (if negative then (2 ^ 64 - n) % 2 ^ 64 else n, false, rest)

def stringToNumberLl (str : Str) (min max : ℕ) : Except Report ℕ :=
  match strtoull str with
  | none => .error (.invalidNumber str)
  | some (number, range, rest) =>
    if range ∨ (rest = [] ∧ (number < min ∨ max < number)) then .error (.outOfRange str min max)
    else if rest = [] then .ok number
    else .error (.invalidNumber str)

def uintMax : ℕ := 2 ^ 32 - 1

end Dset.User
