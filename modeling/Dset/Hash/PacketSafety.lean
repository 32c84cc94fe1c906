import Dset.Hash.Packet

/-! Memory safety of `hash_domain_kadt`. The loop over the labels trusts the length
bytes of the packet: it stays inside of the packet and of its buffers exactly when
complete labels with positive lengths lead to the end of the name, behind at least
one of them, or to a length the buffer has no room for. -/

namespace Dset.Hash

open Dset.Lib List

variable {σ : Type}

/-! ### Label lengths -/

def charMax (charSigned : Bool) : ℕ := if charSigned then 127 else 255

theorem charValue_ofNat {charSigned : Bool} {n : ℕ} (h : n ≤ charMax charSigned) :
    charValue charSigned (UInt8.ofNat n) = n := by
  have hle : n ≤ 255 := by
    unfold charMax at h
    split at h <;> omega
  have hn : (UInt8.ofNat n).toNat = n := by
    rw [UInt8.toNat_ofNat']
    omega
  unfold charValue charMax at *
  rw [hn, if_neg]
  cases charSigned
  · simp
  · simp only [if_true] at h
    simp only [Bool.true_and, decide_eq_true_eq]
    omega

/-- A positive length is one a `char` can hold. -/
theorem exists_length_of_pos (charSigned : Bool) {b : UInt8} (h : 0 < charValue charSigned b) :
    ∃ n, 1 ≤ n ∧ n ≤ charMax charSigned ∧ b = UInt8.ofNat n := by
  have hlt : b.toNat < 256 := b.toNat_lt
  refine ⟨b.toNat, ?_, ?_, by simp⟩ <;> unfold charValue at h
  · split at h <;> omega
  · unfold charMax
    cases charSigned
    · simp only [Bool.false_eq_true, if_false]
      omega
    · simp only [Bool.true_and, decide_eq_true_eq] at h
      split at h <;> simp only [if_true] <;> omega

/-- A packet the loop gets through: complete labels that fit, up to the end of a name
that is not empty or up to a length that does not fit. -/
def CompleteName (charSigned : Bool) (packet : List UInt8) : Prop :=
  ∃ ls b rest, packet = wire ls ++ b :: rest ∧
    (∀ l ∈ ls, 1 ≤ l.length ∧ l.length ≤ charMax charSigned) ∧
    (dots ls).length ≤ dsetMaxDomainLen ∧
    (b = 0 ∧ ls ≠ [] ∨
      0 < charValue charSigned b ∧
        (dsetMaxDomainLen : ℤ) ≤ (dots ls).length + charValue charSigned b)

/-! ### The loop over the labels -/

theorem charValue_eq_zero {charSigned : Bool} {b : UInt8} :
    charValue charSigned b = 0 ↔ b = 0 := by
  have hlt : b.toNat < 256 := b.toNat_lt
  have hzero : b = 0 ↔ b.toNat = 0 := UInt8.toNat_inj.symm
  rw [hzero]
  unfold charValue
  split
  · rename_i hneg
    simp only [Bool.and_eq_true, decide_eq_true_eq] at hneg
    omega
  · omega

/-- One round of the loop over a label of the packet. -/
theorem labelLoop_label {charSigned : Bool} (name : HashDomainElem) (total : ℕ)
    {l : List UInt8} (rest : List UInt8) (h1 : 1 ≤ l.length) (hmax : l.length ≤ charMax charSigned)
    (hfit : total + l.length < dsetMaxDomainLen) :
    ∃ name', labelLoop charSigned name total (UInt8.ofNat l.length :: (l ++ rest)) =
      labelLoop charSigned name' (total + l.length + 1) rest := by
  have hcopy : Lib.strncpy (l ++ rest) l.length = some (zeroPad l.length (cstr l)) := by
    rw [Lib.strncpy, if_pos (.inl (by simp)), take_left' rfl]
  have hlen : (zeroPad l.length (cstr l)).length = l.length :=
    length_zeroPad (by
      have := congrArg List.length (cstr_append_tail l)
      rw [length_append] at this
      omega)
  obtain ⟨n1, hn1, -⟩ := name.write_ok total (zeroPad l.length (cstr l)) (by omega)
  obtain ⟨n2, hn2, -⟩ := n1.write_ok (total + l.length) [dot]
    (by simpa using Nat.succ_le_of_lt hfit)
  refine ⟨n2, ?_⟩
  rw [labelLoop, charValue_ofNat hmax]
  simp only [Int.toNat_natCast]
  rw [if_neg (by omega), if_neg (by omega), if_neg (by omega), HashDomainElem.strncpy, hcopy]
  simp only [hn1, bind, Except.bind, hn2, drop_left' rfl]

theorem labelLoop_complete {charSigned : Bool} (ls : List (List UInt8)) {b : UInt8}
    (rest : List UInt8) (hls : ∀ l ∈ ls, 1 ≤ l.length ∧ l.length ≤ charMax charSigned)
    (name : HashDomainElem) (total : ℕ) (hfit : total + (dots ls).length ≤ dsetMaxDomainLen)
    (hend : b = 0 ∨ 0 < charValue charSigned b ∧
      (dsetMaxDomainLen : ℤ) ≤ (total + (dots ls).length : ℕ) + charValue charSigned b) :
    ∃ r, labelLoop charSigned name total (wire ls ++ b :: rest) = .ok r ∧
      (b = 0 → ∃ name', r = some (name', total + (dots ls).length)) ∧ (b ≠ 0 → r = none) := by
  induction ls generalizing name total with
  | nil =>
    rw [wire, flatMap_nil, nil_append, labelLoop]
    rcases hend with rfl | ⟨hpos, hlong⟩
    · refine ⟨some (name, total), ?_, fun _ => ⟨name, rfl⟩, fun hne => absurd rfl hne⟩
      rw [if_pos (charValue_eq_zero.mpr rfl)]
    · refine ⟨none, ?_, fun hz => ?_, fun _ => rfl⟩
      · rw [if_neg (by omega), if_pos (by simpa [dots] using hlong)]
      · rw [hz, charValue_eq_zero.mpr rfl] at hpos
        omega
  | cons l ls ih =>
    obtain ⟨h1, hmax⟩ := hls l mem_cons_self
    have hdots : (dots (l :: ls)).length = l.length + 1 + (dots ls).length := by
      simp only [dots, flatMap_cons, length_append, length_singleton]
    have hwire : wire (l :: ls) ++ b :: rest =
        UInt8.ofNat l.length :: (l ++ (wire ls ++ b :: rest)) := by simp [wire]
    rw [hdots] at hfit hend ⊢
    obtain ⟨n1, hn1⟩ := labelLoop_label name total
      (wire ls ++ b :: rest) h1 hmax (by omega)
    rw [hwire, hn1]
    have hsum : total + (l.length + 1 + (dots ls).length) =
        total + l.length + 1 + (dots ls).length := by omega
    rw [hsum] at hend ⊢
    exact ih (fun k hk => hls k (mem_cons_of_mem _ hk)) n1 (total + l.length + 1) (by omega) hend

theorem labelLoop_sound {charSigned : Bool} {packet : List UInt8} {name : HashDomainElem}
    {total : ℕ} (htotal : total ≤ dsetMaxDomainLen) {r : Option (HashDomainElem × ℕ)}
    (h : labelLoop charSigned name total packet = .ok r) :
    ∃ ls b rest, packet = wire ls ++ b :: rest ∧
      (∀ l ∈ ls, 1 ≤ l.length ∧ l.length ≤ charMax charSigned) ∧
      total + (dots ls).length ≤ dsetMaxDomainLen ∧
      (b = 0 ∨ 0 < charValue charSigned b ∧
        (dsetMaxDomainLen : ℤ) ≤ (total + (dots ls).length : ℕ) + charValue charSigned b) := by
  induction hn : packet.length using Nat.strong_induction_on generalizing packet name total with
  | _ n ih =>
    cases packet with
    | nil =>
      rw [labelLoop] at h
      cases h
    | cons b packet =>
      rw [labelLoop] at h
      split at h
      · rename_i hzero
        exact ⟨[], b, packet, rfl, by simp, by simpa [dots] using htotal,
          .inl (charValue_eq_zero.mp hzero)⟩
      split at h
      · rename_i hzero hlong
        refine ⟨[], b, packet, rfl, by simp, by simpa [dots] using htotal, .inr ⟨?_, ?_⟩⟩
        · omega
        · simpa [dots] using hlong
      split at h
      · cases h
      rename_i hzero hlong hneg
      obtain ⟨m, h1, hmax, rfl⟩ := exists_length_of_pos charSigned (b := b)
        (by omega)
      rw [charValue_ofNat hmax] at h hlong
      simp only [Int.toNat_natCast] at h
      obtain ⟨n1, -, h⟩ := bind_ok h
      obtain ⟨n2, -, h⟩ := bind_ok h
      obtain ⟨ls, c, rest, hpacket, hls, hfit, hend⟩ := ih (packet.drop m).length
        (by simp only [length_drop, length_cons] at hn ⊢; omega) (by omega) h rfl
      have hm : (packet.take m).length = m := by
        have hne : (packet.drop m).length ≠ 0 := by
          rw [hpacket]
          simp
        rw [length_drop] at hne
        rw [length_take]
        omega
      have hdots : (dots (packet.take m :: ls)).length = m + 1 + (dots ls).length := by
        simp only [dots, flatMap_cons, length_append, hm, length_singleton]
      have hsum : total + (m + 1 + (dots ls).length) = total + m + 1 + (dots ls).length := by
        omega
      refine ⟨packet.take m :: ls, c, rest, ?_, fun l hl => ?_, ?_, ?_⟩
      · rw [wire, flatMap_cons, hm, cons_append, cons_append, append_assoc]
        refine congrArg _ ?_
        rw [show flatMap (fun l => UInt8.ofNat l.length :: l) ls = wire ls from rfl, ← hpacket,
          take_append_drop]
      · rcases mem_cons.mp hl with rfl | hl
        · rw [hm]
          exact ⟨h1, hmax⟩
        · exact hls l hl
      · rw [hdots, hsum]
        exact hfit
      · rw [hdots, hsum]
        exact hend

/-! ### The buffers -/

theorem HashDomainElem.strncpy_inside (e : HashDomainElem) (src : List UInt8) (n : ℕ)
    (hsrc : n ≤ src.length) (hn : n ≤ dsetMaxDomainLen) : ∃ e', e.strncpy 0 src n = .ok e' := by
  have hlen : (zeroPad n (cstr (src.take n))).length = n := length_zeroPad (by
    have := congrArg List.length (cstr_append_tail (src.take n))
    rw [length_append, length_take] at this
    omega)
  obtain ⟨e', he, -⟩ := e.write_ok 0 (zeroPad n (cstr (src.take n))) (by omega)
  exact ⟨e', by rw [HashDomainElem.strncpy, Lib.strncpy, if_pos (.inl hsrc)]; exact he⟩

/-- Behind the loop over the labels every access is inside of the buffers. -/
theorem suffixLoop_inside (adtfn : HashDomainElem → σ → ℤ × σ) (name : HashDomainElem) {total i : ℕ}
    (htotal : total ≤ dsetMaxDomainLen) (hi : i ≤ total) (e : HashDomainElem) (s : σ) :
    ∃ r, suffixLoop adtfn name total i e s = .ok r := by
  have hname := name.length_domain
  induction i generalizing e s with
  | zero =>
    obtain ⟨e', he⟩ := e.strncpy_inside name.domain total (by omega) htotal
    rw [suffixLoop, he]
    exact ⟨_, rfl⟩
  | succ i ih =>
    rw [suffixLoop, getElem?_eq_getElem (by omega)]
    simp only
    split
    · obtain ⟨e', he⟩ := e.strncpy_inside (name.domain.drop (i + 1)) (total - i - 1)
        (by rw [length_drop]; omega) (by omega)
      rw [he]
      simp only [bind, Except.bind]
      split
      · exact ⟨_, rfl⟩
      · exact ih (by omega) e' _
    · exact ih (by omega) e s

/-- The code stays inside of the packet and of its buffers, with no negative length,
exactly for the packets with a complete name. -/
theorem hashDomainKadt_inside (charSigned : Bool) (skb : List UInt8) (stack : HashDomainElem)
    (test : Bool) (adtfn : HashDomainElem → σ → ℤ × σ) (s : σ) :
    (∃ r, hashDomainKadt charSigned skb stack test adtfn s = .ok r) ↔
      CompleteName charSigned (skb.drop domainOffset) := by
  constructor
  · rintro ⟨r, h⟩
    obtain ⟨p, hloop, h⟩ := bind_ok h
    obtain ⟨ls, b, rest, hpacket, hls, hfit, hend⟩ := labelLoop_sound (Nat.zero_le _) hloop
    rw [Nat.zero_add] at hfit hend
    refine ⟨ls, b, rest, hpacket, hls, hfit, ?_⟩
    rcases hend with rfl | hlong
    · refine .inl ⟨rfl, ?_⟩
      -- without a label the terminator would go before the buffer
      rintro rfl
      obtain ⟨p', hloop', hzero, -⟩ := labelLoop_complete []
        (b := 0) rest (by simp) stack 0 (by simp [dots]) (.inl rfl)
      obtain ⟨name', rfl⟩ := hzero rfl
      rw [hpacket, hloop'] at hloop
      cases hloop
      cases h
    · exact .inr hlong
  · rintro ⟨ls, b, rest, hpacket, hls, hfit, hend⟩
    obtain ⟨p, hloop, hzero, hlong⟩ := labelLoop_complete ls rest hls stack 0
      (by rwa [Nat.zero_add]) (by
        rw [Nat.zero_add]
        exact hend.imp And.left id)
    unfold hashDomainKadt
    rw [hpacket, hloop]
    simp only [bind, Except.bind]
    by_cases hb : b = 0
    · obtain ⟨name, rfl⟩ := hzero hb
      have hne : ls ≠ [] := by
        rcases hend with ⟨-, hne⟩ | ⟨hpos, -⟩
        · exact hne
        · rw [hb, charValue_eq_zero.mpr rfl] at hpos
          omega
      obtain ⟨total, htotal⟩ : ∃ total, 0 + (dots ls).length = total + 1 := by
        exact ⟨(dotted ls).length, by rw [dots_eq hne, length_append, Nat.zero_add]; rfl⟩
      rw [htotal]
      obtain ⟨name', hw, -⟩ := name.write_ok total [0]
        (by simp only [length_singleton]; omega)
      simp only [hw]
      cases test with
      | true => exact suffixLoop_inside adtfn name' (by omega) le_rfl zeroElem s
      | false =>
        obtain ⟨e, he⟩ := zeroElem.strncpy_inside name'.domain dsetMaxDomainLen
          (le_of_eq name'.length_domain.symm) le_rfl
        simp only [he, Bool.false_eq_true, if_false]
        exact ⟨_, rfl⟩
    · rw [hlong hb]
      exact ⟨_, rfl⟩

/-- The question for the root: the terminator is stored before the buffer. -/
theorem hashDomainKadt_root :
    hashDomainKadt true (replicate 40 0 ++ [0]) zeroElem true (fun _ s => (0, s)) () =
      .error .outOfBounds := by
  have hloop : labelLoop true zeroElem 0 [0] = .ok (some (zeroElem, 0)) := by
    rw [labelLoop, if_pos (charValue_eq_zero.mpr rfl)]
  have hskb : (replicate 40 (0 : UInt8) ++ [0]).drop domainOffset = [0] := rfl
  unfold hashDomainKadt
  rw [hskb, hloop]
  rfl

end Dset.Hash
