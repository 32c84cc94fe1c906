import Dset.User.Received

/-! The commands of a restore that the kernel carries out with `DSET_FLAG_EXIST`. `-exist` is an
option of the session: it stays from the line that gives it, and a message has the flag as the
option stood at its first line. -/

namespace Dset.User

open Dset.Lib Dset.Core

variable {κ : Type}

/-! ### What the lines ask for -/

section

variable {E : Env κ} {loops : Loops κ} {source : Source} {d : Process κ}
  {past : List (Nlmsg × List (List KMsg))} {page : ℕ} {exist : Bool} {stream : List UInt8}
  {g : List ScriptItem} {gs : List (List ScriptItem)}

end

/-! ### Two streams -/

section

variable {stream : List UInt8}

end

end Dset.User
