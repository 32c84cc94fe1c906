/-! What the functions of the kernel module return, and what they must never do. -/

namespace Dset

/-- The negative return values of the set functions. -/
inductive Errno where
  | enoent | eagain | enomem | efault | ebusy | eexist | einval | erange | emsgsize
  | dsetErrProtocol | dsetErrFindType | dsetErrMaxSets | dsetErrBusy | dsetErrExistSetname2
  | dsetErrTypeMismatch | dsetErrExist | dsetErrInvalidFamily | dsetErrTimeout
  | dsetErrReferenced | dsetErrCounter | dsetErrComment | dsetErrSkbinfo | dsetErrHashFull
  deriving DecidableEq, Repr

/-- What `mtype_add`, `mtype_del` and `mtype_resize` return: zero or an error. -/
inductive Ret where
  | ok
  | err (e : Errno)
  deriving DecidableEq, Repr

/-- An access the C program must not make, or a `BUG_ON` that fires. -/
inductive Fault where
  | outOfBounds
  | zeroSizePtr
  | nullPointer
  | bug
  deriving DecidableEq, Repr

theorem bind_ok {ε α β : Type} {x : Except ε α} {f : α → Except ε β} {b : β}
    (h : x >>= f = .ok b) : ∃ a, x = .ok a ∧ f a = .ok b := by
  cases x with
  | error e => cases h
  | ok a => exact ⟨a, rfl, h⟩

theorem bind_error {ε α β : Type} {x : Except ε α} {f : α → Except ε β} {e : ε}
    (h : x >>= f = .error e) : x = .error e ∨ ∃ a, x = .ok a ∧ f a = .error e := by
  cases x with
  | error e' => exact .inl (congrArg Except.error (Except.error.inj h))
  | ok a => exact .inr ⟨a, rfl, h⟩

end Dset
