import Dset.Hash.Machine

/-! `jhash2`, the hash of the table, on a little-endian machine. -/

namespace Dset.Hash

open Dset.Lib

def rol32 (word : BitVec 32) (shift : ℕ) : BitVec 32 :=
  word <<< shift ||| word >>> (32 - shift)

/-- The three words `a`, `b`, `c` of the hash. -/
structure JhashState where
  a : BitVec 32
  b : BitVec 32
  c : BitVec 32

def jhashMix (s : JhashState) : JhashState :=
  let ⟨a, b, c⟩ := s
  let a := a - c; let a := a ^^^ rol32 c 4; let c := c + b
  let b := b - a; let b := b ^^^ rol32 a 6; let a := a + c
  let c := c - b; let c := c ^^^ rol32 b 8; let b := b + a
  let a := a - c; let a := a ^^^ rol32 c 16; let c := c + b
  let b := b - a; let b := b ^^^ rol32 a 19; let a := a + c
  let c := c - b; let c := c ^^^ rol32 b 4; let b := b + a
  ⟨a, b, c⟩

def jhashFinal (s : JhashState) : BitVec 32 :=
  let ⟨a, b, c⟩ := s
  let c := c ^^^ b; let c := c - rol32 b 14
  let a := a ^^^ c; let a := a - rol32 c 11
  let b := b ^^^ a; let b := b - rol32 a 25
  let c := c ^^^ b; let c := c - rol32 b 16
  let a := a ^^^ c; let a := a - rol32 c 4
  let b := b ^^^ a; let b := b - rol32 a 14
  let c := c ^^^ b; c - rol32 b 24

def jhashInitval : BitVec 32 := 0xdeadbeef

/-- The loop of `jhash2` and the cases of the last words. -/
def jhashWords : List (BitVec 32) → JhashState → BitVec 32
  | k0 :: k1 :: k2 :: k3 :: ks, s => jhashWords (k3 :: ks) (jhashMix ⟨s.a + k0, s.b + k1, s.c + k2⟩)
  | [k0, k1, k2], s => jhashFinal ⟨s.a + k0, s.b + k1, s.c + k2⟩
  | [k0, k1], s => jhashFinal ⟨s.a + k0, s.b + k1, s.c⟩
  | [k0], s => jhashFinal ⟨s.a + k0, s.b, s.c⟩
  | [], s => s.c

/-- The bytes read as `u32`, the lowest byte first. -/
def wordsLe : List UInt8 → List (BitVec 32)
  | b0 :: b1 :: b2 :: b3 :: bs =>
    .ofNat 32 (b0.toNat + b1.toNat * 2 ^ 8 + b2.toNat * 2 ^ 16 + b3.toNat * 2 ^ 24) :: wordsLe bs
  | _ => []

def jhash2 (k : List (BitVec 32)) (initval : BitVec 32) : BitVec 32 :=
  let s := jhashInitval + .ofNat 32 (k.length <<< 2) + initval
  jhashWords k ⟨s, s, s⟩

/-- The hash of an element, as `HKEY` takes it. -/
def elemHash (e : HashDomainElem) (initval : BitVec 32) : BitVec 32 :=
  jhash2 (wordsLe e.domain) initval

/-! ### Colliding keys -/

/-- Thirteen domains of 24 bytes, two rounds of the hash. The second half of each
takes back what the first half makes of the state. -/
def collidingTexts : List (List UInt8) :=
  [bytes "qw7b3pdkhx4py8g-pan0rlyk", bytes "nv44nki4rnua8Y.#$68c\\H2%",
    bytes "dz8nh12thf8aA(]d(K9T]JAf", bytes "aucuf7jhgfsnz'-!fp/*LG0t",
    bytes "f0-mjg-97h8kSn';cHsP8Q3]", bytes "2olwj34yk09j7id@5c#~SAlN",
    bytes "jq55fl7zv9xh[G06e\\=oK+7a", bytes "dmcyp5epgxlteL-e8Ig/g'C_",
    bytes "8sghiblp4opvrT#DJ!3mESLi", bytes "5bn3g0acjwig!5AE\\\x7dFdv<TZ",
    bytes "eiprh31euzc8c^?/^F$-$\\js", bytes "4ky6o-i38c3rkTW=/F#L?\x7d\x7bP",
    bytes "4bms0eci6-ahH0q5LF\x7dsum\\h"]

theorem collidingTexts_terminated :
    ∀ t ∈ collidingTexts, 0 ∉ t ∧ t.length < dsetMaxDomainLen := by decide +kernel

def collidingKeys : List DomainKey :=
  collidingTexts.attach.map fun t => .ofText t.1 (collidingTexts_terminated t.1 t.2).1
    (collidingTexts_terminated t.1 t.2).2

end Dset.Hash
