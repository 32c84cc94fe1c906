import Dset.User.Blob
import Dset.User.Listing

/-! The functions that print an option of the blob (`print.c`) and the table of the arguments that
they belong to (`args.c`). -/

namespace Dset.User.Options

open Dset.Lib Dset.Core

def hexText (n : ℕ) : Str := (Nat.toDigits 16 n).map fun c => UInt8.ofNat c.toNat

section Print

variable (b : Blob) (opt : DsetOpt)

/-- `dset_print_number`; none where it aborts. -/
def dsetPrintNumber : Option Str :=
  (b.get opt).bind fun number =>
    match dsetDataSizeof opt with
    | 1 | 2 | 4 | 8 => some (numberText (leNat (number.take (dsetDataSizeof opt))))
    | _ => none

def dsetPrintDomain : Option Str := (b.get opt).map cstr

def dsetPrintComment : Option Str :=
  (b.get opt).map fun comment => bytes "\"" ++ cstr comment ++ bytes "\""

def dsetPrintSkbmark : Option Str :=
  (b.get opt).map fun skbmark =>
    let mark := leNat skbmark >>> 32
    let mask := leNat skbmark &&& 0xffffffff
    if mask = 0xffffffff then bytes "0x" ++ hexText mark
    else bytes "0x" ++ hexText mark ++ bytes "/0x" ++ hexText mask

def dsetPrintSkbprio : Option Str :=
  (b.get opt).map fun skbprio =>
    hexText (leNat skbprio >>> 16) ++ bytes ":" ++ hexText (leNat skbprio &&& 0xffff)

def dsetPrintFlag (_ : Blob) (_ : DsetOpt) : Option Str := some []

/-- `dset_print_elem` of a type with one dimension, its domain. -/
def dsetPrintElem : Option Str := b.getType.bind fun _ => dsetPrintDomain b .domain

end Print

structure DsetArg where
  name : Str
  /-- Its `has_arg` is not `DSET_NO_ARG`. -/
  hasArg : Bool
  opt : DsetOpt
  print : Option (Blob → DsetOpt → Option Str)

def dsetKeyword : Keyword → DsetArg
  | .hashsize => ⟨bytes "hashsize", true, .hashsize, some dsetPrintNumber⟩
  | .maxelem => ⟨bytes "maxelem", true, .maxelem, some dsetPrintNumber⟩
  | .probes => ⟨bytes "probes", true, .probes, some dsetPrintNumber⟩
  | .resize => ⟨bytes "resize", true, .resize, some dsetPrintNumber⟩
  | .gc => ⟨bytes "gc", true, .gc, some dsetPrintNumber⟩
  | .size => ⟨bytes "size", true, .size, some dsetPrintNumber⟩
  | .before => ⟨bytes "before", true, .nameref, none⟩
  | .after => ⟨bytes "after", true, .nameref, none⟩
  | .forceadd => ⟨bytes "forceadd", false, .forceadd, some dsetPrintFlag⟩
  | .nomatch => ⟨bytes "nomatch", false, .nomatch, some dsetPrintFlag⟩
  | .timeout => ⟨bytes "timeout", true, .timeout, some dsetPrintNumber⟩
  | .counters => ⟨bytes "counters", false, .counters, some dsetPrintFlag⟩
  | .packets => ⟨bytes "packets", true, .packets, some dsetPrintNumber⟩
  | .bytes => ⟨bytes "bytes", true, .bytes, some dsetPrintNumber⟩
  | .comment => ⟨bytes "comment", false, .createComment, some dsetPrintFlag⟩
  | .adtComment => ⟨bytes "comment", true, .adtComment, some dsetPrintComment⟩
  | .skbinfo => ⟨bytes "skbinfo", false, .skbinfo, some dsetPrintFlag⟩
  | .skbmark => ⟨bytes "skbmark", true, .skbmark, some dsetPrintSkbmark⟩
  | .skbprio => ⟨bytes "skbprio", true, .skbprio, some dsetPrintSkbprio⟩
  | .skbqueue => ⟨bytes "skbqueue", true, .skbqueue, some dsetPrintNumber⟩

end Dset.User.Options
