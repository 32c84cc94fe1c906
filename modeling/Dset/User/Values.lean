import Dset.User.Print
import Dset.User.Tokens

/-! Printed values of options and the functions that parse them (`print.c`, `parse.c`). Numbers
are printed in decimal or, for marks and priorities, in hexadecimal digits; reading the digits gives
the number back, whatever is behind them. A comment is printed in quotes and comes back from the
arguments of its line. The parser of comments admits a newline, at which the line reader cuts the
line: `build_argv` then drops the comment and returns 0. -/

namespace Dset.User.Options

open Dset.Lib Dset.Core

variable {κ : Type}

/-! ### The parsers -/

inductive ParseError where
  | number (r : Report)
  | quoteInComment
  | commentTooLong
  | skbmarkFormat
  | skbprioFormat
  /-- `dset_data_set` does not know the option. -/
  | dataSet
  deriving DecidableEq

def dataSet (b : Blob) (opt : DsetOpt) (value : List UInt8) : Except ParseError Blob :=
  match b.set opt value with
  | some b => .ok b
  | none => .error .dataSet

/-- A parser of numbers of `w` bytes up to `max`. -/
def dsetParseUint (w max : ℕ) (b : Blob) (opt : DsetOpt) (str : Str) : Except ParseError Blob :=
  match stringToNumberLl str 0 max with
  | .ok value => dataSet b opt (leBytes w value)
  | .error r => .error (.number r)

def dsetParseUint8 : Blob → DsetOpt → Str → Except ParseError Blob := dsetParseUint 1 255

def dsetParseUint16 : Blob → DsetOpt → Str → Except ParseError Blob := dsetParseUint 2 (2 ^ 16 - 1)

def dsetParseUint32 : Blob → DsetOpt → Str → Except ParseError Blob := dsetParseUint 4 uintMax

def dsetParseUint64 : Blob → DsetOpt → Str → Except ParseError Blob :=
  dsetParseUint 8 (2 ^ 64 - 1 - 1)

def dsetParseComment (b : Blob) (opt : DsetOpt) (str : Str) : Except ParseError Blob :=
  if 34 ∈ str then .error .quoteInComment
  else if dsetMaxCommentSize < str.length then .error .commentTooLong
  else dataSet b opt str

/-- How `sscanf` takes `0x` without a digit behind it: as no number, or as zero. -/
inductive ScanRule where
  | isoC
  | glibc
  deriving DecidableEq

/-- What `%lx` makes of a string: the number, and what is behind it. -/
def scanHex (rule : ScanRule) (str : Str) : Option (ℕ × Str) :=
  let s := str.dropWhile isspace
  let negative : Bool := s.head? = some 45
  let s := if negative ∨ s.head? = some 43 then s.tail else s
  let hex : Bool := s.head? = some 48 && (s.tail.head? = some 120 || s.tail.head? = some 88)
  let s := if hex then s.tail.tail else s
  let (n, rest) := readDigits 16 0 s
  if rest.length = s.length then
    if hex && rule = .glibc then some (0, rest) else none
  else if 2 ^ 64 ≤ n then some (2 ^ 64 - 1, rest)
  else some (if negative then (2 ^ 64 - n) % 2 ^ 64 else n, rest)

/-- A character of the format of `sscanf`, or a conversion. -/
inductive Directive where
  | char (c : UInt8)
  /-- `%x` and `%lx`, into an integer of so many bits. -/
  | hex (width : ℕ)

def sscanf (rule : ScanRule) : List Directive → Str → List ℕ
  | [], _ => []
  | .char c :: format, str =>
    match str with
    | x :: str => if x = c then sscanf rule format str else []
    | [] => []
  | .hex width :: format, str =>
    match scanHex rule str with
    | some (n, rest) => n % 2 ^ width :: sscanf rule format rest
    | none => []

def markFormat : List Directive := [.char 48, .char 120, .hex 64]

def markMaskFormat : List Directive := markFormat ++ [.char 47] ++ markFormat

def dsetParseSkbmark (rule : ScanRule) (b : Blob) (opt : DsetOpt) (str : Str) :
    Except ParseError Blob :=
  let result (mark mask : ℕ) := mark <<< 32 % 2 ^ 64 ||| (mask &&& 0xffffffff)
  match sscanf rule markMaskFormat str with
  | [mark, mask] => dataSet b opt (leBytes 8 (result mark mask))
  | _ =>
    match sscanf rule markFormat str with
    | [mark] => dataSet b opt (leBytes 8 (result mark 0xffffffff))
    | _ => .error .skbmarkFormat

def dsetParseSkbprio (rule : ScanRule) (b : Blob) (opt : DsetOpt) (str : Str) :
    Except ParseError Blob :=
  match sscanf rule [.hex 32, .char 58, .hex 32] str with
  | [maj, min] => dataSet b opt (leBytes 4 (maj <<< 16 % 2 ^ 32 ||| (min &&& 0xffff)))
  | _ => .error .skbprioFormat

/-! ### Digits -/

def numeral (base n : ℕ) : Str := (Nat.toDigits base n).map fun c => UInt8.ofNat c.toNat

def digit (d : ℕ) : UInt8 := UInt8.ofNat d.digitChar.toNat

section Digits

variable {base n d : ℕ} {rest : Str}

theorem digitVal_digit (hd : d < 16) : digitVal (digit d) = d := by
  have h : ∀ d < 16, digitVal (digit d) = d := by decide
  exact h d hd

theorem numeral_of_lt (hn : n < base) : numeral base n = [digit n] := by
  rw [numeral, Nat.toDigits_of_lt_base hn]
  rfl

theorem numeral_of_le (hbase : 1 < base) (hn : base ≤ n) :
    numeral base n = numeral base (n / base) ++ [digit (n % base)] := by
  rw [numeral, Nat.toDigits_of_base_le hbase hn, List.map_append]
  rfl

/-- A rule for the digits of a number, from the first one on. -/
theorem numeral_induction {P : ℕ → Prop} (hbase : 1 < base) (hlt : ∀ n < base, P n)
    (hle : ∀ n, base ≤ n → P (n / base) → P n) (n : ℕ) : P n := by
  induction n using Nat.strong_induction_on with
  | _ n ih =>
    by_cases hn : n < base
    · exact hlt n hn
    · have hn : base ≤ n := not_lt.mp hn
      exact hle n hn (ih _ (Nat.div_lt_self (by omega) hbase))

theorem readDigits_numeral (hbase : 1 < base) (hbase' : base ≤ 16) (n : ℕ) (rest : Str) :
    readDigits base 0 (numeral base n ++ rest) = readDigits base n rest := by
  induction n using numeral_induction hbase generalizing rest with
  | hlt n hn =>
    have hval := digitVal_digit (hn.trans_le hbase')
    rw [numeral_of_lt hn, List.singleton_append, readDigits, hval, if_pos hn, Nat.zero_mul,
      Nat.zero_add]
  | hle n hn ih =>
    have hmod : n % base < base := Nat.mod_lt _ (by omega)
    have hval := digitVal_digit (hmod.trans_le hbase')
    rw [numeral_of_le hbase hn, List.append_assoc, ih, List.singleton_append, readDigits, hval,
      if_pos hmod, Nat.div_add_mod' n base]

theorem readDigits_end (hrest : ∀ c ∈ rest.head?, base ≤ digitVal c) :
    readDigits base n rest = (n, rest) := by
  cases rest with
  | nil => rfl
  | cons c l => rw [readDigits, if_neg (not_lt.mpr (hrest c rfl))]

/-- The first digit is zero for the number zero only. -/
theorem numeral_eq_cons (hbase : 1 < base) (n : ℕ) :
    ∃ d l, numeral base n = digit d :: l ∧ d < base ∧ (d = 0 → n = 0) := by
  induction n using numeral_induction hbase with
  | hlt n hn => exact ⟨n, [], numeral_of_lt hn, hn, id⟩
  | hle n hn ih =>
    obtain ⟨d, l, hl, hd, hzero⟩ := ih
    have hpos : 0 < n / base := Nat.div_pos hn (by omega)
    exact ⟨d, l ++ [digit (n % base)], by rw [numeral_of_le hbase hn, hl, List.cons_append], hd,
      fun h => absurd (hzero h) (by omega)⟩

theorem mem_numeral (hbase : 1 < base) {c : UInt8} (hc : c ∈ numeral base n) :
    ∃ d < base, c = digit d := by
  induction n using numeral_induction hbase with
  | hlt n hn =>
    rw [numeral_of_lt hn, List.mem_singleton] at hc
    exact ⟨n, hn, hc⟩
  | hle n hn ih =>
    rw [numeral_of_le hbase hn, List.mem_append, List.mem_singleton] at hc
    exact hc.elim ih fun h => ⟨n % base, Nat.mod_lt _ (by omega), h⟩

/-- A digit is no white space, no sign and no `x`. -/
theorem digit_ne (hd : d < 16) :
    isspace (digit d) = false ∧ digit d ≠ 45 ∧ digit d ≠ 43 ∧ digit d ≠ 120 ∧ digit d ≠ 88 := by
  have h : ∀ d < 16, isspace (digit d) = false ∧ digit d ≠ 45 ∧ digit d ≠ 43 ∧ digit d ≠ 120 ∧
    digit d ≠ 88 := by decide
  exact h d hd

theorem digit_ne_zero (hd : d < 16) (hzero : d ≠ 0) : digit d ≠ 48 := by
  have h : ∀ d < 16, d ≠ 0 → digit d ≠ 48 := by decide
  exact h d hd hzero

end Digits

/-! ### Numbers -/

theorem numberText_eq (n : ℕ) : numberText n = numeral 10 n := rfl

theorem hexText_eq (n : ℕ) : hexText n = numeral 16 n := rfl

/-- A decimal number has no prefix of another base. -/
theorem strtoull_numberText {n : ℕ} (hn : n < 2 ^ 64) :
    strtoull (numberText n) = some (n, false, []) := by
  by_cases hzero : n = 0
  · subst hzero
    decide
  · obtain ⟨d, l, hl, hd, hd0⟩ := numeral_eq_cons (show 1 < 10 by omega) n
    obtain ⟨hspace, hminus, hplus, -, -⟩ := digit_ne (show d < 16 by omega)
    have h48 : digit d ≠ 48 := digit_ne_zero (by omega) fun h => hzero (hd0 h)
    have hread : readDigits 10 0 (digit d :: l) = (n, []) := by
      rw [← hl, ← List.append_nil (numeral 10 n), readDigits_numeral (by omega) (by omega)]
      rfl
    rw [numberText_eq, hl]
    simpa [strtoull, hspace, hminus, hplus, h48, hread] using hn

theorem stringToNumberLl_numberText {n max : ℕ} (hn : n < 2 ^ 64) (hmax : n ≤ max) :
    stringToNumberLl (numberText n) 0 max = .ok n := by
  simp [stringToNumberLl, strtoull_numberText hn, not_lt.mpr hmax]

/-- Digits in base 16 are read up to a character that is none. -/
theorem scanHex_hexText (rule : ScanRule) {n : ℕ} {rest : Str} (hn : n < 2 ^ 64)
    (hrest : ∀ c ∈ rest.head?, 16 ≤ digitVal c ∧ c ≠ 120 ∧ c ≠ 88) :
    scanHex rule (hexText n ++ rest) = some (n, rest) := by
  obtain ⟨d, l, hl, hd, -⟩ := numeral_eq_cons (show 1 < 16 by omega) n
  obtain ⟨hspace, hminus, hplus, -, -⟩ := digit_ne hd
  -- What is behind the first digit is another one or begins the rest.
  have hx (c : UInt8) (hc : (l ++ rest).head? = some c) : c ≠ 120 ∧ c ≠ 88 := by
    cases l with
    | nil => exact (hrest c hc).2
    | cons x l =>
      obtain rfl : x = c := Option.some.inj hc
      obtain ⟨e, he, rfl⟩ := mem_numeral (n := n) (show 1 < 16 by omega) (c := x) (by simp [hl])
      exact ⟨(digit_ne he).2.2.2.1, (digit_ne he).2.2.2.2⟩
  have hread : readDigits 16 0 (digit d :: (l ++ rest)) = (n, rest) := by
    rw [← List.cons_append, ← hl, readDigits_numeral (by omega) (by omega)]
    exact readDigits_end fun c hc => (hrest c hc).1
  have hlen : ¬ rest.length = (digit d :: (l ++ rest)).length := by
    simp only [List.length_cons, List.length_append]
    omega
  have hprefix : ¬ ((l ++ rest).head? = some 120 ∨ (l ++ rest).head? = some 88) := by
    rintro (h | h)
    · exact (hx _ h).1 rfl
    · exact (hx _ h).2 rfl
  rw [hexText_eq, hl, List.cons_append]
  unfold scanHex
  simp only [List.dropWhile_cons, hspace, Bool.false_eq_true, if_false, List.head?_cons,
    Option.some.injEq, hminus, hplus, decide_false, or_self, List.tail_cons, Bool.and_eq_true,
    Bool.or_eq_true, decide_eq_true_eq, hprefix, and_false, hread, hlen, not_le.mpr hn]

/-- The text printed for an option is parsed, and the blob then holds the value again. -/
def ReadsBack (print : Blob → DsetOpt → Option Str)
    (parse : Blob → DsetOpt → Str → Except ParseError Blob) (opt : DsetOpt) (b : Blob) : Prop :=
  ∃ text, print b opt = some text ∧
    ∀ b₁ : Blob, ∃ b₂, parse b₁ opt text = .ok b₂ ∧ b₂.get opt = b.get opt

section Number

variable {b : Blob} {opt : DsetOpt} {w max off : ℕ}

/-- The value of an option that is a number. -/
theorem get_number (hname : opt ≠ .typename) (hm : opt.member = some ⟨off, w, false⟩)
    (htest : b.test opt = true) : ∃ n < 256 ^ w, b.get opt = some (leBytes w n) := by
  have hlen := b.mem.length_read off w
  have hlt := leNat_lt (b.mem.read off w)
  have hbytes := leBytes_leNat (b.mem.read off w)
  rw [hlen] at hlt hbytes
  refine ⟨leNat (b.mem.read off w), hlt, ?_⟩
  rw [b.get_of_test hname hm htest, hbytes]

theorem dataSet_number (hopt : opt.assigned = true) (hname : opt ≠ .typename)
    (hm : opt.member = some ⟨off, w, false⟩) (b₁ : Blob) (n : ℕ) :
    ∃ b₂, dataSet b₁ opt (leBytes w n) = .ok b₂ ∧ b₂.get opt = some (leBytes w n) := by
  have hset := b₁.set_assigned hopt hm (leBytes w n)
  have hstored : Member.stored ⟨off, w, false⟩ (leBytes w n) = leBytes w n := by
    simp [Member.stored, zeroPad, List.take_of_length_le]
  refine ⟨_, ?_, hstored ▸ Blob.get_set_assigned b₁ hopt hname hm hset⟩
  rw [dataSet, hset]

theorem member_of_sizeof (hw : w = 1 ∨ w = 2 ∨ w = 4 ∨ w = 8)
    (hsize : dsetDataSizeof opt = w) : ∃ off, opt.member = some ⟨off, w, false⟩ := by
  subst hsize
  cases opt <;> first | exact ⟨_, rfl⟩ | exact absurd hw (by decide)

theorem readsBack_number (hopt : opt.assigned = true) (hw : w = 1 ∨ w = 2 ∨ w = 4 ∨ w = 8)
    (hsize : dsetDataSizeof opt = w) (htest : b.test opt = true)
    (hmax : ∀ n < 256 ^ w, b.get opt = some (leBytes w n) → n ≤ max) :
    ReadsBack dsetPrintNumber (dsetParseUint w max) opt b := by
  obtain ⟨off, hm⟩ := member_of_sizeof hw hsize
  have hname : opt ≠ .typename := by
    rintro rfl
    cases hm
  obtain ⟨n, hn, hget⟩ := get_number hname hm htest
  have hle : 256 ^ w ≤ 256 ^ 8 := Nat.pow_le_pow_right (by omega) (by omega)
  have hprint : dsetPrintNumber b opt = some (numberText n) := by
    rw [dsetPrintNumber, hget, Option.bind_some, hsize,
      List.take_of_length_le (length_leBytes w n).le, leNat_leBytes_of_lt hn]
    rcases hw with rfl | rfl | rfl | rfl <;> rfl
  refine ⟨_, hprint, fun b₁ => ?_⟩
  rw [dsetParseUint, stringToNumberLl_numberText (hn.trans_le hle) (hmax n hn hget), hget]
  exact dataSet_number hopt hname hm b₁ n

end Number

/-! ### Marks and priorities -/

section Sscanf

variable {rule : ScanRule} {mark mask : ℕ}

/-- A mark is scanned with what is behind it left for the rest of the format. -/
theorem sscanf_markFormat (hmark : mark < 2 ^ 64) (format : List Directive) {rest : Str}
    (hrest : ∀ c ∈ rest.head?, 16 ≤ digitVal c ∧ c ≠ 120 ∧ c ≠ 88) :
    sscanf rule (markFormat ++ format) (bytes "0x" ++ hexText mark ++ rest)
      = mark :: sscanf rule format rest := by
  show sscanf rule (.hex 64 :: format) (hexText mark ++ rest) = _
  rw [sscanf, scanHex_hexText rule hmark hrest]
  exact congrArg (· :: _) (Nat.mod_eq_of_lt hmark)

theorem sscanf_mark (hmark : mark < 2 ^ 64) :
    sscanf rule markFormat (bytes "0x" ++ hexText mark) = [mark] := by
  have h : sscanf rule (markFormat ++ []) (bytes "0x" ++ hexText mark ++ []) = mark :: sscanf rule [] [] :=
    sscanf_markFormat hmark [] (by simp)
  rwa [List.append_nil, List.append_nil] at h

/-- The longer format matches a mark without a mask as far as its slash. -/
theorem sscanf_markMask_mark (hmark : mark < 2 ^ 64) :
    sscanf rule markMaskFormat (bytes "0x" ++ hexText mark) = [mark] := by
  have h : sscanf rule (markFormat ++ ([.char 47] ++ markFormat)) (bytes "0x" ++ hexText mark ++ [])
      = mark :: sscanf rule ([.char 47] ++ markFormat) [] := sscanf_markFormat hmark _ (by simp)
  rwa [List.append_nil, ← List.append_assoc] at h

theorem sscanf_markMask (hmark : mark < 2 ^ 64) (hmask : mask < 2 ^ 64) :
    sscanf rule markMaskFormat (bytes "0x" ++ hexText mark ++ bytes "/0x" ++ hexText mask)
      = [mark, mask] := by
  have hslash (c : UInt8) (hc : c ∈ (bytes "/0x" ++ hexText mask).head?) :
      16 ≤ digitVal c ∧ c ≠ 120 ∧ c ≠ 88 := (Option.some.inj hc : 47 = c) ▸ by decide
  rw [List.append_assoc _ (bytes "/0x"), markMaskFormat, List.append_assoc markFormat,
    sscanf_markFormat hmark _ hslash]
  exact congrArg (mark :: ·) (sscanf_mark hmask)

theorem sscanf_prio {maj min : ℕ} (hmaj : maj < 2 ^ 32) (hmin : min < 2 ^ 32) :
    sscanf rule [.hex 32, .char 58, .hex 32] (hexText maj ++ bytes ":" ++ hexText min) = [maj, min] := by
  have hmaj64 : maj < 2 ^ 64 := by omega
  have hmin64 : min < 2 ^ 64 := by omega
  have hlast : scanHex rule (hexText min ++ []) = some (min, []) := scanHex_hexText rule hmin64 (by simp)
  rw [List.append_nil] at hlast
  have hcolon (c : UInt8) (hc : c ∈ (bytes ":" ++ hexText min).head?) :
      16 ≤ digitVal c ∧ c ≠ 120 ∧ c ≠ 88 := (Option.some.inj hc : 58 = c) ▸ by decide
  rw [List.append_assoc, sscanf, scanHex_hexText rule hmaj64 hcolon]
  show maj % 2 ^ 32 :: sscanf rule [.hex 32] (hexText min) = _
  rw [sscanf, hlast, Nat.mod_eq_of_lt hmaj]
  exact congrArg (fun x => [maj, x]) (Nat.mod_eq_of_lt hmin)

end Sscanf

/-- Two halves of a word are put together again. -/
theorem halves_or {n k : ℕ} (hn : n < 2 ^ (2 * k)) :
    (n >>> k) <<< k % 2 ^ (2 * k) ||| (n &&& (2 ^ k - 1)) = n := by
  have hpos := Nat.two_pow_pos k
  have hlt : n % 2 ^ k < 2 ^ k := Nat.mod_lt _ hpos
  have hle : n / 2 ^ k * 2 ^ k ≤ n := Nat.div_mul_le_self _ _
  rw [Nat.and_two_pow_sub_one_eq_mod, Nat.shiftLeft_eq, Nat.shiftRight_eq_div_pow,
    Nat.mod_eq_of_lt (hle.trans_lt hn), ← Nat.shiftLeft_eq, ← Nat.shiftLeft_add_eq_or_of_lt hlt,
    Nat.shiftLeft_eq, Nat.div_add_mod']

theorem readsBack_skbmark (rule : ScanRule) {b : Blob} (htest : b.test .skbmark = true) :
    ReadsBack dsetPrintSkbmark (dsetParseSkbmark rule) .skbmark b := by
  obtain ⟨n, hn, hget⟩ := get_number DsetOpt.noConfusion rfl htest
  have hmark : n >>> 32 < 2 ^ 64 := (Nat.shiftRight_le _ _).trans_lt hn
  have hmask : n &&& 0xffffffff < 2 ^ 64 := Nat.and_le_left.trans_lt hn
  have hvalue : n >>> 32 <<< 32 % 2 ^ 64 ||| (n &&& 0xffffffff) = n := halves_or (k := 32) hn
  have hset (b₁ : Blob) : ∃ b₂, dataSet b₁ .skbmark (leBytes 8 n) = .ok b₂ ∧
      b₂.get .skbmark = some (leBytes 8 n) := dataSet_number rfl DsetOpt.noConfusion rfl b₁ n
  by_cases hfull : n &&& 0xffffffff = 0xffffffff
  · refine ⟨bytes "0x" ++ hexText (n >>> 32), ?_, fun b₁ => ?_⟩
    · rw [dsetPrintSkbmark, hget, Option.map_some, leNat_leBytes_of_lt hn, if_pos hfull]
    · rw [hfull] at hvalue
      rw [dsetParseSkbmark, sscanf_markMask_mark hmark, sscanf_mark hmark, hget]
      simpa only [Nat.and_self, hvalue] using hset b₁
  · refine ⟨bytes "0x" ++ hexText (n >>> 32) ++ bytes "/0x" ++ hexText (n &&& 0xffffffff), ?_,
      fun b₁ => ?_⟩
    · rw [dsetPrintSkbmark, hget, Option.map_some, leNat_leBytes_of_lt hn, if_neg hfull]
    · rw [dsetParseSkbmark, sscanf_markMask hmark hmask, hget]
      simpa only [Nat.and_assoc, Nat.and_self, hvalue] using hset b₁

theorem readsBack_skbprio (rule : ScanRule) {b : Blob} (htest : b.test .skbprio = true) :
    ReadsBack dsetPrintSkbprio (dsetParseSkbprio rule) .skbprio b := by
  obtain ⟨n, hn, hget⟩ := get_number DsetOpt.noConfusion rfl htest
  have hmaj : n >>> 16 < 2 ^ 32 := (Nat.shiftRight_le _ _).trans_lt hn
  have hmin : n &&& 0xffff < 2 ^ 32 := Nat.and_le_left.trans_lt hn
  have hvalue : n >>> 16 <<< 16 % 2 ^ 32 ||| (n &&& 0xffff) = n := halves_or (k := 16) hn
  refine ⟨hexText (n >>> 16) ++ bytes ":" ++ hexText (n &&& 0xffff), ?_, fun b₁ => ?_⟩
  · rw [dsetPrintSkbprio, hget, Option.map_some, leNat_leBytes_of_lt hn]
  · rw [dsetParseSkbprio, sscanf_prio hmaj hmin, hget]
    have hset := @dataSet_number .skbprio 4 _ rfl DsetOpt.noConfusion rfl b₁ n
    simpa only [Nat.and_assoc, Nat.and_self, hvalue] using hset

/-! ### Comments -/

/-- A short line is read as a whole, up to its newline or the end of the stream. -/
theorem fgetsFrom_line {read l rest : Str} (hl : 10 ∉ l)
    (hlen : read.length + l.length + 1 < maxCmdlineChars) :
    fgetsFrom read (l ++ 10 :: rest) = (read ++ l ++ [10]) :: fgetsFrom [] rest := by
  induction l generalizing read with
  | nil => rw [List.nil_append, fgetsFrom, if_pos (.inl rfl), List.append_nil]
  | cons c l ih =>
    obtain ⟨hc, hl⟩ := not_or.mp (mt List.mem_cons.mpr hl)
    have hc : c ≠ 10 := Ne.symm hc
    rw [List.length_cons] at hlen
    have hshort : ¬ (c = 10 ∨ read.length + 2 = maxCmdlineChars) := by
      rintro (h | h)
      · exact hc h
      · omega
    have hlen' : (read ++ [c]).length + l.length + 1 < maxCmdlineChars := by
      rw [List.length_append, List.length_singleton]
      omega
    rw [List.cons_append, fgetsFrom, if_neg hshort, ih hl hlen', List.append_assoc read,
      List.singleton_append]

theorem fgetsFrom_end {read l : Str} (hl : 10 ∉ l) (hne : read ++ l ≠ [])
    (hlen : read.length + l.length + 1 < maxCmdlineChars) : fgetsFrom read l = [read ++ l] := by
  induction l generalizing read with
  | nil =>
    rw [List.append_nil] at hne ⊢
    rw [fgetsFrom, if_neg hne]
  | cons c l ih =>
    obtain ⟨hc, hl⟩ := not_or.mp (mt List.mem_cons.mpr hl)
    have hc : c ≠ 10 := Ne.symm hc
    rw [List.length_cons] at hlen
    have hshort : ¬ (c = 10 ∨ read.length + 2 = maxCmdlineChars) := by
      rintro (h | h)
      · exact hc h
      · omega
    have hlen' : (read ++ [c]).length + l.length + 1 < maxCmdlineChars := by
      rw [List.length_append, List.length_singleton]
      omega
    rw [fgetsFrom, if_neg hshort, ih hl (by simp) hlen', List.append_assoc, List.singleton_append]

def commentText (comment : Str) : Str := bytes "\"" ++ comment ++ bytes "\""

/-- The rest of a line with an argument `text` between `pre` and `post`: a line of at most
`MAX_CMDLINE_CHARS` and `MAX_ARGS`, without a newline of its own, whose other quotes are closed. -/
structure Surrounds (pre text post : Str) : Prop where
  start : ∀ c ∈ pre.head?, isspace c = false
  before : pre = [] ∨ endsInSep pre = true
  behind : ∀ c ∈ post.head?, isSep c = true
  balanced : Balanced pre ∧ Balanced post
  line : ∀ c ∈ pre ++ post, c ≠ 0 ∧ c ≠ 10
  args : (tokens pre).length + (tokens post).length + 4 ≤ maxArgs
  chars : pre.length + text.length + post.length + 1 < maxCmdlineChars

/-- `build_argv` takes a line apart into these arguments. -/
def BuildsArgs (line : Str) (args : List Str) : Prop :=
  ∀ (κ : Type) (E : Env κ) (d : Process κ), E.Succeeds →
    Ends (buildArgv E line) d (fun r _ => r = (0, args)) fun _ _ => False

/-- `build_argv` takes the first line of a stream apart into these arguments. -/
def RestoresArgs (stream : Str) (args : List Str) : Prop :=
  ∃ line lines, fgetsLines stream = line :: lines ∧ BuildsArgs (skipSpace line) args

theorem buildsArgs_iff {line : Str} {args out : List Str}
    (h : readArgv ⟨[], [], false⟩ line = some out) : BuildsArgs line args ↔ out = args := by
  constructor
  · intro hb
    have hreturns := buildArgv_returns (E := idleEnv) (d := dsetInit 4096 () []) (fun _ => rfl) h
    refine Ends.elim <| ((hb Unit idleEnv _ fun _ => rfl).and hreturns).mono (fun r _ hr => ?_)
      fun _ _ hx => hx.1.elim
    exact congrArg Prod.snd (hr.2.1.symm.trans hr.1)
  · rintro rfl κ E d hE
    exact (buildArgv_returns hE h).mono (fun _ _ hr => hr.1) fun _ _ hx => hx

theorem restoresArgs_iff {stream line : Str} {lines : List Str} {args : List Str}
    (h : fgetsLines stream = line :: lines) :
    RestoresArgs stream args ↔ BuildsArgs (skipSpace line) args := by
  constructor
  · rintro ⟨line', lines', h', hb⟩
    obtain ⟨rfl, -⟩ := List.cons.inj (h.symm.trans h')
    exact hb
  · exact fun hb => ⟨line, lines, h, hb⟩

section Comment

variable {pre post comment : Str}

/-- The arguments of a line with a comment in it. -/
theorem tokens_comment (hs : Surrounds pre (commentText comment) post) (hquote : 34 ∉ comment)
    (hne : comment ≠ []) :
    tokens (pre ++ commentText comment ++ post) = tokens pre ++ comment :: tokens post := by
  have hpost : tokensFrom false comment post = comment :: tokens post := by
    cases hp : post with
    | nil => simp [tokensFrom_nil, tokens_eq, hne]
    | cons c l =>
      have hc : isSep c = true := hs.behind c (by rw [hp]; rfl)
      rw [tokens_eq, tokensFrom_sep hc, tokensFrom_sep hc]
      simp [hne]
  have htext : tokensFrom false [] (commentText comment ++ post) = comment :: tokens post := by
    show tokensFrom false [] (34 :: (comment ++ [34] ++ post)) = _
    rw [tokensFrom_cons (.inr rfl), List.append_assoc]
    show tokensFrom true [] (comment ++ ([34] ++ post)) = _
    rw [tokensFrom_quoted hquote, List.singleton_append, tokensFrom_cons (.inl rfl)]
    show tokensFrom false ([] ++ comment ++ []) post = _
    rw [List.nil_append, List.append_nil, hpost]
  rw [List.append_assoc]
  rcases hs.before with rfl | hend
  · rw [List.nil_append, tokens_eq, htext, tokens_eq]
    rfl
  · rw [tokens_eq (pre ++ _), tokensFrom_append _ ((balanced_iff pre).mp hs.balanced.1) hend, htext,
      tokens_eq pre]

theorem quotedAfter_of_notMem {l : Str} (hl : 34 ∉ l) (quoted : Bool) :
    quotedAfter quoted l = quoted := by
  simp [quotedAfter_eq, List.count_eq_zero.mpr hl]

/-- The text of a comment leaves the quotes closed. -/
theorem quotedAfter_comment (hs : Surrounds pre (commentText comment) post) (hquote : 34 ∉ comment) :
    quotedAfter false (pre ++ commentText comment ++ post) = false := by
  have hpre := (balanced_iff pre).mp hs.balanced.1
  have hpost := (balanced_iff post).mp hs.balanced.2
  have htext : quotedAfter false (commentText comment) = false := by
    show quotedAfter false (34 :: (comment ++ [34])) = false
    rw [quotedAfter_cons, quotedAfter_append, quotedAfter_of_notMem hquote]
    rfl
  rw [quotedAfter_append, quotedAfter_append, hpre, htext, hpost]

theorem length_tokens_comment (hs : Surrounds pre (commentText comment) post) :
    ([] : List Str).length + (tokens pre ++ comment :: tokens post).length + 2 < maxArgs := by
  have := hs.args
  simp only [List.length_nil, List.length_append, List.length_cons]
  omega

/-- `build_argv` reads a comment back, also with a newline in it. -/
theorem readArgv_comment (hs : Surrounds pre (commentText comment) post) (hquote : 34 ∉ comment)
    (hne : comment ≠ []) {newline : Str} (hnewline : newline = [] ∨ newline = [10]) :
    readArgv ⟨[], [], false⟩ (pre ++ commentText comment ++ post ++ newline)
      = some (tokens pre ++ comment :: tokens post) := by
  have hq := quotedAfter_comment hs hquote
  have htokens := tokens_comment hs hquote hne
  have hlen := length_tokens_comment hs
  have hnil : pre ++ commentText comment ++ post ≠ [] := by
    simp [commentText, bytes]
  rw [tokens_eq] at htokens
  rcases hnewline with rfl | rfl
  · rw [List.append_nil, readArgv_closed hnil hq (by rwa [htokens]), htokens]
    rfl
  · have hconcat := @tokensFrom_concat false [] _ hq
    rw [readArgv_closed (by simp) (by rw [quotedAfter_append, hq]; rfl)
      (by rwa [hconcat, htokens]), hconcat, htokens]
    rfl

theorem skipSpace_eq {l : Str} (hzero : 0 ∉ l) (hstart : ∀ c ∈ l.head?, isspace c = false) :
    skipSpace l = l := by
  rw [skipSpace, cstr_eq_self hzero]
  cases l with
  | nil => rfl
  | cons c l => rw [List.dropWhile_cons, hstart c rfl]; rfl

/-- The rest of the line has no terminator and no newline. -/
theorem Surrounds.notMem {text : Str} (hs : Surrounds pre text post) {c : UInt8}
    (hc : c = 0 ∨ c = 10) : c ∉ pre ∧ c ∉ post := by
  have hline : c ∉ pre ++ post := fun h => by
    have := hs.line c h
    tauto
  exact not_or.mp (mt List.mem_append.mpr hline)

/-- A line with a comment begins with no white space. -/
theorem Surrounds.head (hs : Surrounds pre (commentText comment) post) (l : Str) :
    ∀ c ∈ (pre ++ 34 :: l).head?, isspace c = false := by
  cases pre with
  | nil =>
    intro c hc
    obtain rfl : 34 = c := Option.some.inj hc
    rfl
  | cons x pre => exact hs.start

/-- Without a newline in it, the comment comes back. -/
theorem restoresArgs_comment (hs : Surrounds pre (commentText comment) post) (hquote : 34 ∉ comment)
    (hzero : 0 ∉ comment) (hnewline : 10 ∉ comment) (hne : comment ≠ []) {rest : Str}
    (hrest : rest = [] ∨ rest.head? = some 10) (args : List Str) :
    RestoresArgs (pre ++ commentText comment ++ post ++ rest) args
      ↔ tokens pre ++ comment :: tokens post = args := by
  have h10 : 10 ∉ pre ++ commentText comment ++ post := by
    simp [commentText, bytes, hnewline, hs.notMem (.inr rfl)]
  have h0 : 0 ∉ pre ++ commentText comment ++ post := by
    simp [commentText, bytes, hzero, hs.notMem (.inl rfl)]
  have hhead : ∀ l, ∀ c ∈ (pre ++ commentText comment ++ post ++ l).head?, isspace c = false := by
    intro l
    have happend : pre ++ commentText comment ++ post ++ l
        = pre ++ 34 :: (comment ++ [34] ++ post ++ l) := by
      simp [commentText, bytes]
    rw [happend]
    exact hs.head _
  have hlen : ([] : Str).length + (pre ++ commentText comment ++ post).length + 1
      < maxCmdlineChars := by
    have := hs.chars
    simp only [List.length_nil, List.length_append] at this ⊢
    omega
  cases hr : rest with
  | nil =>
    have hlines := @fgetsFrom_end [] _ h10 (by simp [commentText, bytes]) hlen
    rw [List.append_nil, restoresArgs_iff hlines, List.nil_append,
      skipSpace_eq h0 (by simpa using hhead [])]
    exact buildsArgs_iff (by simpa using readArgv_comment hs hquote hne (.inl rfl))
  | cons x rest' =>
    obtain rfl : x = 10 := by simpa [hr] using hrest
    rw [restoresArgs_iff (fgetsFrom_line h10 hlen), List.nil_append, skipSpace_eq (by simpa using h0) (hhead [10])]
    exact buildsArgs_iff (readArgv_comment hs hquote hne (.inr rfl))

/-- The line of a comment is cut at its first newline, and only what is before it is read. -/
theorem restoresArgs_cut (hs : Surrounds pre (commentText comment) post) (hquote : 34 ∉ comment)
    (hzero : 0 ∉ comment) (hnewline : 10 ∈ comment) (rest : Str) (args : List Str) :
    RestoresArgs (pre ++ commentText comment ++ post ++ rest) args ↔ tokens pre = args := by
  obtain ⟨head, tail, rfl, hhead⟩ := List.eq_append_cons_of_mem hnewline
  obtain ⟨hquote, -⟩ := not_or.mp (mt List.mem_append.mpr hquote)
  obtain ⟨hzero, -⟩ := not_or.mp (mt List.mem_append.mpr hzero)
  have hstream : pre ++ commentText (head ++ 10 :: tail) ++ post ++ rest
      = (pre ++ 34 :: head) ++ 10 :: (tail ++ [34] ++ post ++ rest) := by
    simp [commentText, bytes]
  have h10 : 10 ∉ pre ++ 34 :: head := by
    simp [hhead, hs.notMem (.inr rfl)]
  have h0 : 0 ∉ pre ++ 34 :: head ++ [10] := by
    simp [hzero, hs.notMem (.inl rfl)]
  have hlen : ([] : Str).length + (pre ++ 34 :: head).length + 1 < maxCmdlineChars := by
    have := hs.chars
    simp only [commentText, bytes, List.length_nil, List.length_append, List.length_cons] at this ⊢
    omega
  have hpre := (balanced_iff pre).mp hs.balanced.1
  -- The blank that is the newline belongs to the open argument.
  have hopen : tokensFrom false [] (34 :: (head ++ [10])) = [head ++ [10]] := by
    rw [tokensFrom_cons (.inr rfl)]
    show tokensFrom true [] (head ++ [10]) = _
    rw [tokensFrom_quoted hquote, tokensFrom_cons (.inl rfl), tokensFrom_nil]
    simp
  have htokens : tokensFrom false [] (pre ++ 34 :: (head ++ [10])) = tokens pre ++ [head ++ [10]] := by
    rcases hs.before with rfl | hend
    · rw [List.nil_append, hopen]
      rfl
    · rw [tokensFrom_append _ hpre hend, hopen, tokens_eq]
  have hq : quotedAfter false (pre ++ 34 :: (head ++ [10])) = true := by
    rw [quotedAfter_append, hpre, quotedAfter_cons, quotedAfter_append, quotedAfter_of_notMem hquote]
    rfl
  have hend : endsInSep (pre ++ 34 :: (head ++ [10])) = true := by
    rw [endsInSep, List.getLast?_append_cons, ← List.cons_append, List.getLast?_concat]
    rfl
  have hargs : ([] : List Str).length + (tokensFrom false [] (pre ++ 34 :: (head ++ [10]))).length + 2
      ≤ maxArgs := by
    have := hs.args
    rw [htokens, List.length_append, List.length_singleton, List.length_nil]
    omega
  obtain ⟨out, last, hread, hout⟩ := readArgv_cut_eq hq hend hargs
  rw [htokens, List.nil_append] at hout
  obtain ⟨rfl, -⟩ := List.append_inj' hout rfl
  have hcut : pre ++ 34 :: (head ++ [10]) = pre ++ 34 :: head ++ [10] := by simp
  rw [hcut] at hread
  rw [hstream, restoresArgs_iff (fgetsFrom_line h10 hlen), List.nil_append,
    skipSpace_eq h0 (hcut ▸ hs.head (head ++ [10]))]
  exact buildsArgs_iff hread

/-- The comment comes back from its line if and only if there is no newline in it. -/
theorem restoresArgs_comment_iff (hs : Surrounds pre (commentText comment) post)
    (hquote : 34 ∉ comment) (hzero : 0 ∉ comment) (hne : comment ≠ []) {rest : Str}
    (hrest : rest = [] ∨ rest.head? = some 10) :
    RestoresArgs (pre ++ commentText comment ++ post ++ rest) (tokens pre ++ comment :: tokens post)
      ↔ 10 ∉ comment := by
  by_cases hnewline : 10 ∈ comment
  · rw [restoresArgs_cut hs hquote hzero hnewline]
    simp [hnewline]
  · rw [restoresArgs_comment hs hquote hzero hnewline hne hrest]
    simp [hnewline]

end Comment

/-- A comment that the parser admits is printed in quotes. -/
theorem commentText_of_parse {b b' : Blob} {comment : Str} (hzero : 0 ∉ comment)
    (h : dsetParseComment b .adtComment comment = .ok b') :
    34 ∉ comment ∧ dsetPrintComment b' .adtComment = some (commentText comment) := by
  unfold dsetParseComment at h
  split at h
  · cases h
  next hquote =>
    split at h
    · cases h
    next hlen =>
      have hlen : comment.length ≤ 255 := not_lt.mp hlen
      obtain ⟨b₁, hset⟩ : ∃ b₁, b.set .adtComment comment = some b₁ := ⟨_, rfl⟩
      rw [dataSet, hset] at h
      obtain rfl : b₁ = b' := by simpa using h
      have hget := b.get_set_assigned rfl DsetOpt.noConfusion rfl hset
      have hcstr : cstr (zeroPad 256 ((cstr comment).take 255)) = comment := by
        rw [cstr_eq_self hzero, List.take_of_length_le hlen, cstr_zeroPad hzero (by omega)]
      refine ⟨hquote, ?_⟩
      rw [dsetPrintComment, hget]
      exact congrArg (fun s => some (bytes "\"" ++ s ++ bytes "\"")) hcstr

/-! ### Reading back -/

/-- Printed numbers, marks and priorities read back unchanged. A printed comment is one argument of
its line, and is read back from a restored line if and only if there is no newline in it. -/
theorem options_read_back (rule : ScanRule) (b : Blob) :
    (∀ opt : DsetOpt, opt.assigned = true → b.test opt = true →
      (dsetDataSizeof opt = 1 → ReadsBack dsetPrintNumber dsetParseUint8 opt b) ∧
      (dsetDataSizeof opt = 2 → ReadsBack dsetPrintNumber dsetParseUint16 opt b) ∧
      (dsetDataSizeof opt = 4 → ReadsBack dsetPrintNumber dsetParseUint32 opt b) ∧
      (dsetDataSizeof opt = 8 → b.get opt ≠ some (leBytes 8 (2 ^ 64 - 1)) →
        ReadsBack dsetPrintNumber dsetParseUint64 opt b)) ∧
    (b.test .skbmark = true → ReadsBack dsetPrintSkbmark (dsetParseSkbmark rule) .skbmark b) ∧
    (b.test .skbprio = true → ReadsBack dsetPrintSkbprio (dsetParseSkbprio rule) .skbprio b) ∧
    ∀ (b' : Blob) (comment : Str), 0 ∉ comment → comment ≠ [] →
      dsetParseComment b .adtComment comment = .ok b' →
      ∃ text, dsetPrintComment b' .adtComment = some text ∧
        ∀ pre post : Str, Surrounds pre text post →
          BuildsArgs (pre ++ text ++ post) (tokens pre ++ comment :: tokens post) ∧
          ∀ rest : Str, (rest = [] ∨ rest.head? = some 10) →
            (RestoresArgs (pre ++ text ++ post ++ rest) (tokens pre ++ comment :: tokens post)
              ↔ 10 ∉ comment) := by
  refine ⟨fun opt hopt htest => ⟨?_, ?_, ?_, ?_⟩, readsBack_skbmark rule, readsBack_skbprio rule,
    ?_⟩
  · intro hsize
    exact readsBack_number hopt (by omega) hsize htest fun n hn _ => Nat.le_of_lt_succ hn
  · intro hsize
    exact readsBack_number hopt (by omega) hsize htest fun n hn _ => Nat.le_of_lt_succ hn
  · intro hsize
    exact readsBack_number hopt (by omega) hsize htest fun n hn _ => Nat.le_of_lt_succ hn
  · intro hsize hlast
    refine readsBack_number hopt (by omega) hsize htest fun n hn hget => ?_
    have hne : n ≠ 2 ^ 64 - 1 := by
      rintro rfl
      exact hlast hget
    omega
  · intro b' comment hzero hne hparse
    obtain ⟨hquote, hprint⟩ := commentText_of_parse hzero hparse
    refine ⟨_, hprint, fun pre post hs => ⟨?_, fun rest hrest => ?_⟩⟩
    · exact (buildsArgs_iff (by simpa using readArgv_comment hs hquote hne (.inl rfl))).mpr rfl
    · exact restoresArgs_comment_iff hs hquote hzero hne hrest

/-- The comment `first\nsecond` is stored and printed, and lost from the line that is restored. -/
theorem newlineComment_lost :
    ¬ ∀ (b b' : Blob) (comment : Str), 0 ∉ comment → comment ≠ [] →
      dsetParseComment b .adtComment comment = .ok b' →
      ∀ text, dsetPrintComment b' .adtComment = some text → ∀ pre post rest : Str,
        Surrounds pre text post → (rest = [] ∨ rest.head? = some 10) →
        RestoresArgs (pre ++ text ++ post ++ rest) (tokens pre ++ comment :: tokens post) := by
  intro h
  have hzero : 0 ∉ bytes "first\nsecond" := by decide
  obtain ⟨b', hparse⟩ : ∃ b', dsetParseComment .reset .adtComment (bytes "first\nsecond") = .ok b' :=
    ⟨_, rfl⟩
  obtain ⟨hquote, hprint⟩ := commentText_of_parse hzero hparse
  have hhead : (bytes "add foo example.com comment ").head? = some 97 := by decide
  have hline : (bytes "add foo example.com comment ").all (fun c => c != 0 && c != 10) = true := by
    decide
  have hs : Surrounds (bytes "add foo example.com comment ")
      (commentText (bytes "first\nsecond")) [] := by
    refine ⟨?_, by decide, nofun, by decide, ?_, by decide, by decide⟩
    · rw [hhead]
      rintro c ⟨⟩
      decide
    · intro c hc
      rw [List.append_nil] at hc
      simpa using List.all_eq_true.mp hline c hc
  have hrestores := h _ _ _ hzero (by decide) hparse _ hprint _ _ [] hs (.inl rfl)
  rw [restoresArgs_comment_iff hs hquote hzero (by decide) (.inl rfl)] at hrestores
  exact hrestores (by decide)

end Dset.User.Options
