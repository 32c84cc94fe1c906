import Dset.Core.CreateMemory

/-! The size of the first table (`htable_bits`, `htable_size`, `hash_domain_create`). The code
computes in a `u8`, a `u32` and a `size_t`: a shift by 32 leaves a `u32` without a value that
the code may rely on, and the guard divides so that its own test cannot overflow. The words are
shown to be the natural numbers of the model, and the number of buckets the least power of two
that is large enough. -/

namespace Dset.Hash

variable {A : Arch}

/-! ### The bits -/

theorem fls_le_iff {x n : ℕ} : fls x ≤ n ↔ x < 2 ^ n := by
  unfold fls
  split
  next h =>
    subst h
    exact iff_of_true (Nat.zero_le n) (Nat.two_pow_pos n)
  next h => exact Nat.succ_le_iff.trans (Nat.log2_lt h)

/-- `fls` of the predecessor finds the least power of two from `h` on. -/
theorem fls_pred_le_iff {h n : ℕ} (h0 : 0 < h) : fls (h - 1) ≤ n ↔ h ≤ 2 ^ n := by
  rw [fls_le_iff]
  omega

theorem htableBits_le_iff {h n : ℕ} (h0 : 0 < h) : htableBits h ≤ n ↔ h ≤ 2 ^ n := by
  unfold htableBits jhashSize
  split
  next hne =>
    rw [fls_le_iff]
    refine ⟨le_of_lt, fun hle => lt_of_le_of_ne hle ?_⟩
    rintro rfl
    apply hne
    congr 1
    apply le_antisymm ((fls_pred_le_iff h0).mpr le_rfl)
    by_contra hlt
    have hpow := (fls_pred_le_iff h0).mp (le_refl (fls (2 ^ n - 1)))
    exact absurd ((Nat.pow_le_pow_iff_right (by omega)).mp hpow) hlt
  next => exact fls_pred_le_iff h0

/-! ### The words -/

/-- `jhash_size` of a `u8`, a shift of a `u32`; `wide` is what the machine leaves of a shift by
32 or more, which C does not define. -/
def jhashSizeU32 (wide : ℕ → BitVec 32) (n : BitVec 8) : BitVec 32 :=
  if n.toNat < 32 then 1#32 <<< n.toNat else wide n.toNat

/-- `htable_bits`, with its `u8` and its `u32`. -/
def htableBitsU8 (wide : ℕ → BitVec 32) (hashsize : BitVec 32) : BitVec 8 :=
  let bits := BitVec.ofNat 8 (fls (hashsize - 1).toNat)
  if jhashSizeU32 wide bits ≠ hashsize then BitVec.ofNat 8 (fls hashsize.toNat) else bits

def sizeofHbucketPtr (A : Arch) : ℕ := A.longBits / 8

/-- `htable_size`, with its `size_t`. -/
def htableSizeWord (A : Arch) (wide : ℕ → BitVec 32) (hbits : BitVec 8) : BitVec A.longBits :=
  if 31 < hbits.toNat then 0
  else
    let hsize := (jhashSizeU32 wide hbits).setWidth A.longBits
    let ptr := BitVec.ofNat A.longBits (sizeofHbucketPtr A)
    let htable := BitVec.ofNat A.longBits (sizeofHtable A)
    if (BitVec.allOnes A.longBits - htable) / ptr < hsize then 0 else hsize * ptr + htable

theorem toNat_jhashSizeU32 {wide : ℕ → BitVec 32} {n : BitVec 8} (hn : n.toNat < 32) :
    (jhashSizeU32 wide n).toNat = jhashSize n.toNat := by
  rw [jhashSizeU32, if_pos hn, BitVec.toNat_shiftLeft, Nat.shiftLeft_eq]
  show 1 * _ % _ = _
  rw [Nat.one_mul, Nat.mod_eq_of_lt (Nat.pow_lt_pow_right (by omega) hn), jhashSize]

theorem toNat_ofNat_fls {x : ℕ} (hx : x < 2 ^ 32) : (BitVec.ofNat 8 (fls x)).toNat = fls x := by
  have hfls : fls x ≤ 32 := fls_le_iff.mpr hx
  rw [BitVec.toNat_ofNat, Nat.mod_eq_of_lt (by omega)]

/-- The bits do not depend on what a shift by 32 leaves. -/
theorem toNat_htableBitsU8 (wide : ℕ → BitVec 32) {hashsize : BitVec 32}
    (h0 : 0 < hashsize.toNat) : (htableBitsU8 wide hashsize).toNat = htableBits hashsize.toNat := by
  have hlt := hashsize.isLt
  have hpred : (hashsize - 1).toNat = hashsize.toNat - 1 :=
    BitVec.toNat_sub_of_le (BitVec.le_def.mpr h0)
  have hbits := toNat_ofNat_fls (x := hashsize.toNat - 1) (by omega)
  unfold htableBitsU8 htableBits
  simp only [hpred]
  by_cases hn : fls (hashsize.toNat - 1) < 32
  · have hsize : (jhashSizeU32 wide (BitVec.ofNat 8 (fls (hashsize.toNat - 1)))).toNat =
        jhashSize (BitVec.ofNat 8 (fls (hashsize.toNat - 1))).toNat :=
      toNat_jhashSizeU32 (hbits.trans_lt hn)
    rw [hbits] at hsize
    have hiff : jhashSizeU32 wide (BitVec.ofNat 8 (fls (hashsize.toNat - 1))) = hashsize ↔
        jhashSize (fls (hashsize.toNat - 1)) = hashsize.toNat := by
      rw [← BitVec.toNat_inj, hsize]
    by_cases heq : jhashSize (fls (hashsize.toNat - 1)) = hashsize.toNat
    · rw [if_neg (not_not.mpr (hiff.mpr heq)), if_neg (not_not.mpr heq), hbits]
    · rw [if_pos (mt hiff.mp heq), if_pos heq, toNat_ofNat_fls hlt]
  -- Above `2 ^ 31` both scans find bit 32, whatever the shift leaves.
  · have hbig : 2 ^ 31 ≤ hashsize.toNat - 1 := not_lt.mp fun h => hn (by
      have := fls_le_iff.mpr h
      omega)
    have h32 {x : ℕ} (h1 : 2 ^ 31 ≤ x) (h2 : x < 2 ^ 32) : fls x = 32 := by
      apply le_antisymm (fls_le_iff.mpr h2)
      by_contra h
      exact absurd (fls_le_iff.mp (Nat.le_of_lt_succ (not_le.mp h))) (not_lt.mpr h1)
    have hsize : jhashSize (fls (hashsize.toNat - 1)) ≠ hashsize.toNat := by
      rw [h32 hbig (by omega), jhashSize]
      omega
    rw [if_pos hsize, h32 hbig (by omega), h32 (x := hashsize.toNat) (by omega) hlt]
    split <;> rfl

theorem sizeofHtable_lt (A : Arch) : sizeofHtable A < 2 ^ 31 := by
  unfold sizeofHtable
  split <;> omega

theorem two_pow_31_lt (A : Arch) : 2 ^ 31 < 2 ^ A.longBits := by
  apply Nat.pow_lt_pow_right (by omega)
  rcases A.longBits_eq with h | h <;> omega

theorem sizeofHbucketPtr_bounds (A : Arch) : 0 < sizeofHbucketPtr A ∧ sizeofHbucketPtr A < 2 ^ 31 := by
  unfold sizeofHbucketPtr
  rcases A.longBits_eq with h | h <;> omega

/-- A size that passes the guard is the header and one pointer per bucket, within a `size_t`. -/
theorem htableSize_eq {hbits : ℕ} (h : htableSize A hbits ≠ 0) :
    htableSize A hbits = sizeofHtable A + 2 ^ hbits * sizeofHbucketPtr A ∧
      htableSize A hbits < 2 ^ A.longBits := by
  unfold htableSize at h ⊢
  split at h
  · exact absurd rfl h
  next h31 =>
    split at h
    · exact absurd rfl h
    next hguard =>
      rw [if_neg h31, if_neg hguard]
      have hle : jhashSize hbits * (A.longBits / 8) ≤ 2 ^ A.longBits - 1 - sizeofHtable A :=
        (Nat.le_div_iff_mul_le (sizeofHbucketPtr_bounds A).1).mp (not_lt.mp hguard)
      have hhtable := sizeofHtable_lt A
      have hlong := two_pow_31_lt A
      refine ⟨Nat.add_comm _ _, ?_⟩
      omega

theorem toNat_htableSizeWord (wide : ℕ → BitVec 32) (hbits : BitVec 8) :
    (htableSizeWord A wide hbits).toNat = htableSize A hbits.toNat := by
  by_cases h31 : 31 < hbits.toNat
  · rw [htableSizeWord, if_pos h31, htableSize, if_pos h31]
    exact BitVec.toNat_zero
  have hlong := two_pow_31_lt A
  have hhtable := sizeofHtable_lt A
  have hptr := sizeofHbucketPtr_bounds A
  have hsize : ((jhashSizeU32 wide hbits).setWidth A.longBits).toNat = jhashSize hbits.toNat := by
    have hpow : jhashSize hbits.toNat ≤ 2 ^ 31 := Nat.pow_le_pow_right (by omega) (by omega)
    rw [BitVec.toNat_setWidth, toNat_jhashSizeU32 (by omega), Nat.mod_eq_of_lt (by omega)]
  have hdiv : ((BitVec.allOnes A.longBits - BitVec.ofNat A.longBits (sizeofHtable A)) /
      BitVec.ofNat A.longBits (sizeofHbucketPtr A)).toNat =
      (2 ^ A.longBits - 1 - sizeofHtable A) / (A.longBits / 8) := by
    have htoNat : (BitVec.ofNat A.longBits (sizeofHtable A)).toNat = sizeofHtable A := by
      rw [BitVec.toNat_ofNat, Nat.mod_eq_of_lt (by omega)]
    have hle : BitVec.ofNat A.longBits (sizeofHtable A) ≤ BitVec.allOnes A.longBits := by
      rw [BitVec.le_def, htoNat, BitVec.toNat_allOnes]
      omega
    rw [BitVec.toNat_udiv, BitVec.toNat_sub_of_le hle, htoNat, BitVec.toNat_allOnes,
      BitVec.toNat_ofNat, Nat.mod_eq_of_lt (by omega), sizeofHbucketPtr]
  have hguard : (BitVec.allOnes A.longBits - BitVec.ofNat A.longBits (sizeofHtable A)) /
      BitVec.ofNat A.longBits (sizeofHbucketPtr A) <
      (jhashSizeU32 wide hbits).setWidth A.longBits ↔
      (2 ^ A.longBits - 1 - sizeofHtable A) / (A.longBits / 8) < jhashSize hbits.toNat := by
    rw [BitVec.lt_def, hdiv, hsize]
  have hfit := @htableSize_eq A hbits.toNat
  unfold htableSizeWord
  unfold htableSize at hfit ⊢
  simp only [if_neg h31, hguard] at hfit ⊢
  split
  · exact BitVec.toNat_zero
  next hpass =>
    rw [if_neg hpass] at hfit
    have hpos : jhashSize hbits.toNat * (A.longBits / 8) + sizeofHtable A ≠ 0 := by
      have := Nat.mul_pos (Nat.two_pow_pos hbits.toNat) hptr.1
      unfold jhashSize sizeofHbucketPtr at *
      omega
    have hlt := (hfit hpos).2
    rw [BitVec.toNat_add, BitVec.toNat_mul, hsize, BitVec.toNat_ofNat, BitVec.toNat_ofNat,
      Nat.mod_eq_of_lt (by omega : sizeofHbucketPtr A < 2 ^ A.longBits),
      Nat.mod_eq_of_lt (by omega : sizeofHtable A < 2 ^ A.longBits), sizeofHbucketPtr,
      Nat.mod_eq_of_lt (by omega : jhashSize hbits.toNat * (A.longBits / 8) < 2 ^ A.longBits),
      Nat.mod_eq_of_lt hlt]

/-- With 64 bits the guard refuses nothing that is within 31 bits. -/
theorem htableSize_ne_zero_of_le (hA : A.longBits = 64) {hbits : ℕ} (h : hbits ≤ 31) :
    htableSize A hbits ≠ 0 := by
  have hpow : jhashSize hbits ≤ 2 ^ 31 := Nat.pow_le_pow_right (by omega) h
  have hhtable : sizeofHtable A = 16 := if_pos hA
  unfold htableSize
  rw [if_neg (by omega), hhtable, hA, if_neg (by omega)]
  omega

end Dset.Hash

namespace Dset.Core.Kernel

open Dset.Lib

variable {A : Hash.Arch}

/-- The attributes of a create request that the set type accepts. -/
def WellFormed (family : ℕ) (tb : Hash.CreateAttrs) : Prop :=
  family = nfprotoUnspec ∧ Hash.domainSetOptattrNetorder tb.hashsize = true ∧
    Hash.domainSetOptattrNetorder tb.maxelem = true ∧
    Hash.domainSetOptattrNetorder tb.timeout = true ∧
    Hash.domainSetOptattrNetorder tb.cadtFlags = true

instance (family : ℕ) (tb : Hash.CreateAttrs) : Decidable (WellFormed family tb) :=
  inferInstanceAs (Decidable (_ ∧ _))

/-- The buckets that a request with a `hashsize` asks for. -/
def wantedSize (hashsize : BitVec 32) : BitVec 32 :=
  if hashsize < BitVec.ofNat 32 Hash.dsetMiminalHashsize then
    BitVec.ofNat 32 Hash.dsetMiminalHashsize else hashsize

theorem toNat_wantedSize (hashsize : BitVec 32) :
    (wantedSize hashsize).toNat = max hashsize.toNat Hash.dsetMiminalHashsize := by
  unfold wantedSize
  split
  next h =>
    have h' : hashsize.toNat < Hash.dsetMiminalHashsize := BitVec.lt_def.mp h
    exact (max_eq_right h'.le).symm
  next h =>
    have h' : ¬ hashsize.toNat < Hash.dsetMiminalHashsize := fun hlt => h (BitVec.lt_def.mpr hlt)
    exact (max_eq_left (not_lt.mp h')).symm

/-- The bytes that `hash_domain_create` asks `domain_set_alloc` for. -/
def tableBytes (A : Hash.Arch) (wide : ℕ → BitVec 32) (hashsize : BitVec 32) :
    BitVec A.longBits :=
  Hash.htableSizeWord A wide (Hash.htableBitsU8 wide (wantedSize hashsize))

theorem wantedSize_pos (hashsize : BitVec 32) : 0 < (wantedSize hashsize).toNat := by
  rw [toNat_wantedSize]
  exact lt_of_lt_of_le (by decide) (le_max_right _ _)

/-- The words are the numbers that the model computes with. -/
theorem toNat_tableBytes (wide : ℕ → BitVec 32) (hashsize : BitVec 32) :
    (tableBytes A wide hashsize).toNat =
      Hash.htableSize A (Hash.htableBits (max hashsize.toNat Hash.dsetMiminalHashsize)) := by
  rw [tableBytes, Hash.toNat_htableSizeWord, Hash.toNat_htableBitsU8 wide (wantedSize_pos _),
    toNat_wantedSize]

theorem max_hashsize_pos (n : ℕ) : 0 < max n Hash.dsetMiminalHashsize :=
  lt_of_lt_of_le (by decide) (le_max_right _ _)

/-- `hash_domain_create` of a request with a `hashsize`, case by case. -/
theorem hashDomainCreate_cases (k : Kernel A) (c : CreateCalls) (addr family : ℕ)
    {tb : Hash.CreateAttrs} {a : Hash.Nlattr} (ha : tb.hashsize = some a)
    (hwell : WellFormed family tb) :
    let hbits := Hash.htableBits (max a.value Hash.dsetMiminalHashsize)
    ((k.hashDomainCreate c addr family tb).1 = .error .enomem ∧
        Took k (k.hashDomainCreate c addr family tb).2 [] [] [] ∧
        (c.allocHtype = false ∨ Hash.htableSize A hbits = 0 ∨ c.allocTable = false)) ∨
      ∃ s, (k.hashDomainCreate c addr family tb).1 = .ok s ∧ Hash.htableSize A hbits ≠ 0 ∧
        s.set.table.htableBits = hbits ∧
        s.t.bucket = List.replicate (Hash.jhashSize hbits) none := by
  intro hbits
  obtain ⟨hfamily, h1, h2, h3, h4⟩ := hwell
  have hattrs : (!(Hash.domainSetOptattrNetorder tb.hashsize &&
      Hash.domainSetOptattrNetorder tb.maxelem && Hash.domainSetOptattrNetorder tb.timeout &&
      Hash.domainSetOptattrNetorder tb.cadtFlags)) = false := by
    rw [h1, h2, h3, h4]
    rfl
  have hsize : (tb.hashsize.map fun a => max a.value Hash.dsetMiminalHashsize).getD
      Hash.dsetDefaultHashsize = max a.value Hash.dsetMiminalHashsize := by
    rw [ha]
    rfl
  unfold hashDomainCreate
  rw [if_neg (not_not.mpr hfamily), hattrs, if_neg Bool.false_ne_true]
  simp only [hsize]
  split
  next halloc => exact .inl ⟨rfl, Took.refl k, .inl (by simpa using halloc)⟩
  split
  next hzero => exact .inl ⟨rfl, (Took.refl k).alloc.kfree, .inr (.inl hzero)⟩
  next hne =>
    split
    next htable =>
      exact .inl ⟨rfl, (Took.refl k).alloc.kfree, .inr (.inr (by simpa using htable))⟩
    next => exact .inr ⟨_, rfl, hne, rfl, rfl⟩

/-- A request that is not well formed is refused before anything is taken. -/
theorem hashDomainCreate_malformed (k : Kernel A) (c : CreateCalls) (addr family : ℕ)
    {tb : Hash.CreateAttrs} (hwell : ¬ WellFormed family tb) :
    (k.hashDomainCreate c addr family tb).2 = k ∧
      ((k.hashDomainCreate c addr family tb).1 = .error .dsetErrInvalidFamily ∨
        (k.hashDomainCreate c addr family tb).1 = .error .dsetErrProtocol) := by
  unfold hashDomainCreate
  by_cases hfamily : family = nfprotoUnspec
  · have hattrs : (!(Hash.domainSetOptattrNetorder tb.hashsize &&
        Hash.domainSetOptattrNetorder tb.maxelem && Hash.domainSetOptattrNetorder tb.timeout &&
        Hash.domainSetOptattrNetorder tb.cadtFlags)) = true := by
      rw [Bool.not_eq_true', Bool.eq_false_iff]
      intro h
      simp only [Bool.and_eq_true] at h
      exact hwell ⟨hfamily, h.1.1.1, h.1.1.2, h.1.2, h.2⟩
    rw [if_neg (not_not.mpr hfamily), hattrs, if_pos rfl]
    exact ⟨rfl, .inr rfl⟩
  · rw [if_pos hfamily]
    exact ⟨rfl, .inl rfl⟩

/-- For every `hashsize` of a request that is well formed: creation fails for want of memory and
takes nothing, or the table has the least power of two of buckets from `hashsize` and the minimum
on, in a block of just the header and one pointer per bucket. Above `2 ^ 31` it always fails; up
to there the size computation refuses nothing on a machine with 64 bits. -/
theorem create_table_size (k : Kernel A) (c : CreateCalls) (addr family : ℕ)
    (attrs : Hash.CreateAttrs) (wide : ℕ → BitVec 32) (hashsize : BitVec 32) (netorder : Bool) :
    let tb := { attrs with hashsize := some ⟨hashsize.toNat, netorder⟩ }
    let want := max hashsize.toNat Hash.dsetMiminalHashsize
    let r := k.hashDomainCreate c addr family tb
    (¬ WellFormed family tb →
      r.2 = k ∧ (r.1 = .error .dsetErrInvalidFamily ∨ r.1 = .error .dsetErrProtocol)) ∧
    (WellFormed family tb →
      ((r.1 = .error .enomem ∧ Took k r.2 [] [] []) ∨
        ∃ s, r.1 = .ok s ∧ s.t.bucket.length = 2 ^ s.set.table.htableBits ∧
          want ≤ s.t.bucket.length ∧ (∀ n, want ≤ 2 ^ n → s.t.bucket.length ≤ 2 ^ n) ∧
          (tableBytes A wide hashsize).toNat =
            Hash.sizeofHtable A + s.t.bucket.length * Hash.sizeofHbucketPtr A) ∧
      (2 ^ 31 < hashsize.toNat → r.1 = .error .enomem) ∧
      (A.longBits = 64 → hashsize.toNat ≤ 2 ^ 31 → tableBytes A wide hashsize ≠ 0 ∧
        (c.allocHtype = true → c.allocTable = true → ∃ s, r.1 = .ok s))) := by
  intro tb want r
  refine ⟨hashDomainCreate_malformed k c addr family, fun hwell => ?_⟩
  have hcases := hashDomainCreate_cases k c addr family (show tb.hashsize = some _ from rfl) hwell
  have hleast (n : ℕ) : Hash.htableBits want ≤ n ↔ want ≤ 2 ^ n :=
    Hash.htableBits_le_iff (max_hashsize_pos _)
  refine ⟨?_, fun hbig => ?_, fun h64 hle => ?_⟩
  · rcases hcases with ⟨herr, htook, -⟩ | ⟨s, hok, hne, hbits, hbucket⟩
    · exact .inl ⟨herr, htook⟩
    · have hlen : s.t.bucket.length = 2 ^ Hash.htableBits want := by
        rw [hbucket, List.length_replicate, Hash.jhashSize]
      refine .inr ⟨s, hok, by rw [hlen, hbits], ?_, fun n hn => ?_, ?_⟩
      · rw [hlen]
        exact (hleast _).mp le_rfl
      · rw [hlen]
        exact Nat.pow_le_pow_right (by omega) ((hleast n).mpr hn)
      · rw [hlen, toNat_tableBytes]
        exact (Hash.htableSize_eq hne).1
  · rcases hcases with ⟨herr, -, -⟩ | ⟨s, -, hne, -, -⟩
    · exact herr
    · have h31 : Hash.htableBits want ≤ 31 := Hash.htableSize_ne_zero hne
      have hwant : want ≤ 2 ^ 31 := (hleast 31).mp h31
      exact absurd (le_max_left _ _ |>.trans hwant) (not_le.mpr hbig)
  · have hwant : want ≤ 2 ^ 31 := max_le hle (by decide)
    have hsize := Hash.htableSize_ne_zero_of_le h64 ((hleast 31).mpr hwant)
    refine ⟨fun hzero => hsize ?_, fun halloc htable => ?_⟩
    · rw [← toNat_tableBytes wide hashsize, hzero]
      exact BitVec.toNat_zero
    · rcases hcases with ⟨-, -, hfail | hzero | hfail⟩ | ⟨s, hok, -⟩
      · rw [halloc] at hfail
        cases hfail
      · exact absurd hzero hsize
      · rw [htable] at hfail
        cases hfail
      · exact ⟨s, hok⟩

end Dset.Core.Kernel
