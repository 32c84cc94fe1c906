import Dset.User.Delivery

/-! What the kernel reads of a restore: the commands of the script, each once and in order, if no
domain is cut to its buffer and no list of elements outgrows the 16 bits of `nla_len`. In a page of
more than 64 KiB a list does as soon as there are too many additions to one set in a row. -/

namespace Dset.User

open Dset.Lib Dset.Core

variable {κ : Type}

/-! ### The commands of a script -/

/-- What the kernel reads of the messages sent behind `past`. -/
def Process.received (past : List (Nlmsg × List (List KMsg))) (d : Process κ) : List Item :=
  ((changesOf (d.sent.drop past.length)).filterMap Nlmsg.items).flatten

/-- The kernel reads what it should, and every message left room for the reply that quotes it. -/
structure Process.Received (past : List (Nlmsg × List (List KMsg))) (page : ℕ) (wanted : List Item)
    (d : Process κ) : Prop where
  items : d.received past = wanted
  room : ∀ m ∈ changesOf (d.sent.drop past.length), m.len + nlmsgerrLen ≤ page

/-- What is read of messages with these items. -/
def readOf (gs : List (List ScriptItem)) : List Item := ((gs.map batchMail).filterMap (·.2)).flatten

theorem Process.Logged.received {past : List (Nlmsg × List (List KMsg))} {d : Process κ}
    {gs : List (List ScriptItem)} (h : d.Logged past (gs.map batchMail)) :
    d.received past = readOf gs ∧
      ∀ m ∈ changesOf (d.sent.drop past.length), m.len + nlmsgerrLen ≤ d.session.bufsize := by
  obtain ⟨since, hsince, hlog, hroom⟩ := h
  unfold Process.received readOf
  rw [hsince, List.drop_left, ← hlog, List.filterMap_map]
  exact ⟨rfl, hroom⟩

section

variable {page : ℕ} {l : List (Option ScriptItem)} {gs : List (List ScriptItem)}

end

/-! ### A stream -/

section

variable {E : Env κ} {loops : Loops κ} {source : Source} {d : Process κ}
  {past : List (Nlmsg × List (List KMsg))} {page : ℕ} {exist : Bool} {stream : List UInt8}

end

/-! ### Some streams -/

section

variable {stream : List UInt8}

/-- The process once the kernel has been asked for its revisions of the type. -/
def asked : Process Unit := { restoring with kernelCheck := .ok }

end

end Dset.User
