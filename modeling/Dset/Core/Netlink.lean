import Mathlib.Algebra.GroupWithZero.Nat

/-! Messages under construction: a socket buffer of some capacity and the netlink
attributes put into it so far. An attribute takes its header, its payload and the
padding behind it; 64-bit values may need a padding attribute before them. What does
not fit is not put. -/

namespace Dset.Core

/-- The attributes of a listing. A nested attribute is its start, then its content and
the place of `nla_nest_end`. -/
inductive Attr where
  | protocol (v : ℕ)
  | setname (name : List UInt8)
  | typename (name : List UInt8)
  | family (v : ℕ)
  | revision (v : ℕ)
  | index (v : ℕ)
  | adt
  | data
  | nestEnd
  | hashsize (v : ℕ)
  | maxelem (v : ℕ)
  | references (v : ℕ)
  | memsize (v : ℕ)
  | elements (v : ℕ)
  | timeout (v : ℕ)
  | cadtFlags (v : ℕ)
  | domain (d : List UInt8)
  | bytes (v : BitVec 64)
  | packets (v : BitVec 64)
  | comment (str : List UInt8)
  | skbmark (v : BitVec 64)
  | skbprio (v : BitVec 32)
  | skbqueue (v : BitVec 16)
  deriving DecidableEq

/-- `nla_total_size`: header and payload, up to a multiple of four bytes. -/
def nlaTotalSize (payload : ℕ) : ℕ := (4 + payload + 3) / 4 * 4

/-- The bytes an attribute takes behind `tail` bytes; `pad64` on machines that need
64-bit values aligned. -/
def Attr.size (pad64 : Bool) (tail : ℕ) : Attr → ℕ
  | .nestEnd => 0
  | .adt | .data => nlaTotalSize 0
  | .protocol _ | .family _ | .revision _ => nlaTotalSize 1
  | .index _ | .skbqueue _ => nlaTotalSize 2
  | .hashsize _ | .maxelem _ | .references _ | .memsize _ | .elements _ | .timeout _
  | .cadtFlags _ | .skbprio _ => nlaTotalSize 4
  | .setname s | .typename s | .comment s => nlaTotalSize (s.length + 1)
  | .domain d => nlaTotalSize d.length
  | .bytes _ | .packets _ | .skbmark _ =>
    nlaTotalSize 8 + if pad64 && tail % 8 = 0 then nlaTotalSize 0 else 0

/-- What the code uses of `struct sk_buff`. -/
structure Skb where
  cap : ℕ
  pad64 : Bool
  len : ℕ
  attrs : List Attr
  deriving DecidableEq

/-- `nla_put` and its kin, `nla_nest_start`. -/
def Skb.put (skb : Skb) (a : Attr) : Option Skb :=
  if skb.len + a.size skb.pad64 skb.len ≤ skb.cap then
    some { skb with len := skb.len + a.size skb.pad64 skb.len, attrs := skb.attrs ++ [a] }
  else none

/-- Attributes one after the other, up to the first that does not fit. -/
def Skb.putAll (skb : Skb) : List Attr → Bool × Skb
  | [] => (true, skb)
  | a :: l =>
    match skb.put a with
    | none => (false, skb)
    | some skb => skb.putAll l

def Skb.nestEnd (skb : Skb) : Skb := { skb with attrs := skb.attrs ++ [.nestEnd] }

/-- `start_msg`: the header of the message and `struct nfgenmsg`. -/
def startMsg (skb : Skb) : Option Skb :=
  if skb.len + 20 ≤ skb.cap then some { skb with len := skb.len + 20 } else none

theorem Skb.put_attrs {skb skb' : Skb} {a : Attr} (h : skb.put a = some skb') :
    skb'.attrs = skb.attrs ++ [a] := by
  unfold Skb.put at h
  split at h
  · rw [← Option.some.inj h]
  · cases h

theorem Skb.putAll_attrs (skb : Skb) (l : List Attr) :
    ∃ l', l' <+: l ∧ (skb.putAll l).2.attrs = skb.attrs ++ l' ∧
      ((skb.putAll l).1 = true → l' = l) := by
  induction l generalizing skb with
  | nil => exact ⟨[], List.prefix_refl _, by simp [Skb.putAll], fun _ => rfl⟩
  | cons a l ih =>
    rw [Skb.putAll]
    cases hp : skb.put a with
    | none => exact ⟨[], List.nil_prefix, by simp, by simp⟩
    | some skb1 =>
      obtain ⟨l', hpre, hattrs, hall⟩ := ih skb1
      refine ⟨a :: l', List.cons_prefix_cons.mpr ⟨rfl, hpre⟩, ?_, fun h => by rw [hall h]⟩
      rw [hattrs, Skb.put_attrs hp, List.append_assoc]
      rfl

theorem Skb.putAll_prefix {skb : Skb} {l l' : List Attr} (h : (skb.putAll (l ++ l')).1 = true) :
    (skb.putAll l).1 = true := by
  induction l generalizing skb with
  | nil => rfl
  | cons a l ih =>
    rw [List.cons_append, Skb.putAll] at h
    rw [Skb.putAll]
    cases hp : skb.put a with
    | none =>
      rw [hp] at h
      cases h
    | some skb1 =>
      rw [hp] at h
      exact ih h

/-- Where attributes that are put one after the other end. -/
def attrsEnd (pad64 : Bool) (tail : ℕ) (l : List Attr) : ℕ :=
  l.foldl (fun tail a => tail + a.size pad64 tail) tail

theorem attrsEnd_cons (pad64 : Bool) (tail : ℕ) (a : Attr) (l : List Attr) :
    attrsEnd pad64 tail (a :: l) = attrsEnd pad64 (tail + a.size pad64 tail) l := rfl

theorem attrsEnd_append (pad64 : Bool) (tail : ℕ) (l l' : List Attr) :
    attrsEnd pad64 tail (l ++ l') = attrsEnd pad64 (attrsEnd pad64 tail l) l' :=
  List.foldl_append

theorem le_attrsEnd (pad64 : Bool) (tail : ℕ) (l : List Attr) : tail ≤ attrsEnd pad64 tail l := by
  induction l generalizing tail with
  | nil => exact Nat.le_refl tail
  | cons a l ih => exact Nat.le_trans (Nat.le_add_right _ _) (ih _)

theorem four_dvd_nlaTotalSize (n : ℕ) : 4 ∣ nlaTotalSize n := Nat.dvd_mul_left _ _

theorem Attr.four_dvd_size (pad64 : Bool) (tail : ℕ) (a : Attr) : 4 ∣ a.size pad64 tail := by
  cases a
  case nestEnd => exact Nat.dvd_zero 4
  case adt | data => exact four_dvd_nlaTotalSize 0
  case bytes | packets | skbmark =>
    refine Nat.dvd_add (four_dvd_nlaTotalSize 8) ?_
    split
    · exact four_dvd_nlaTotalSize 0
    · exact Nat.dvd_zero 4
  all_goals exact four_dvd_nlaTotalSize _

theorem four_dvd_attrsEnd {pad64 : Bool} {tail : ℕ} (h : 4 ∣ tail) (l : List Attr) :
    4 ∣ attrsEnd pad64 tail l := by
  induction l generalizing tail with
  | nil => exact h
  | cons a l ih => exact ih (Nat.dvd_add h (a.four_dvd_size pad64 tail))

theorem Skb.putAll_eq {skb : Skb} {l : List Attr} (h : attrsEnd skb.pad64 skb.len l ≤ skb.cap) :
    skb.putAll l =
      (true, { skb with len := attrsEnd skb.pad64 skb.len l, attrs := skb.attrs ++ l }) := by
  induction l generalizing skb with
  | nil => simp [Skb.putAll, attrsEnd]
  | cons a l ih =>
    rw [attrsEnd_cons] at h ⊢
    have ha : skb.len + a.size skb.pad64 skb.len ≤ skb.cap := Nat.le_trans (le_attrsEnd _ _ l) h
    rw [Skb.putAll, Skb.put, if_pos ha]
    simp only
    rw [ih h, List.append_assoc, List.singleton_append]

theorem Skb.putAll_full {skb : Skb} {l : List Attr} (h : skb.cap < attrsEnd skb.pad64 skb.len l)
    (hlen : skb.len ≤ skb.cap) : (skb.putAll l).1 = false := by
  induction l generalizing skb with
  | nil => exact absurd h (Nat.not_lt.mpr hlen)
  | cons a l ih =>
    rw [attrsEnd_cons] at h
    rw [Skb.putAll, Skb.put]
    split
    · rfl
    · rename_i hput
      split at hput
      · rename_i ha
        obtain rfl := Option.some.inj hput
        exact ih h ha
      · cases hput

end Dset.Core
