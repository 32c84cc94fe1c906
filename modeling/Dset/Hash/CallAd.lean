import Dset.Hash.Fresh
import Dset.Hash.Jhash
import Dset.Hash.ResizeMemory

/-! The loop of `call_ad` around `mtype_add` and `mtype_resize`. Each round that asks
for a larger table gets one of more buckets, so the loop ends. What stops the
resizing inside is the wrap of a `u8`, while `htable_size` is zero from 32 bits on:
where no size before that will do, `mtype_resize` asks for zero bytes and writes a
table header there. -/

namespace Dset.Hash

open Dset.Lib List

variable {A : Arch}

/-- The sizes for which `mtype_resize` asks for a table, as `resizeRetry`. -/
def resizeAttempts (jhash2 : HashDomainElem → BitVec 32 → BitVec 32) (alloc : ResizeAlloc)
    (set : DomainSet A) : ℕ → List ℕ
  | 0 => []
  | room + 1 =>
    let htableBits := 255 - room
    htableBits ::
      if htableSize A htableBits = 0 then []
      else if !alloc.table htableBits then []
      else match resizeFill (fun e => hkey jhash2 e set.initval htableBits) set.dsize
          (alloc.bucket htableBits) set.table.walk 0 (replicate (jhashSize htableBits) none) 0 with
        | .ok _ => []
        | .error e => if e = .eagain then resizeAttempts jhash2 alloc set room else []

/-- Where the loop of `call_ad` ends: what it returns, the set, the table sizes
asked for on the way, and the set before a resizing that failed. -/
structure AdResult (A : Arch) where
  ret : Ret
  set : DomainSet A
  tried : List ℕ
  failed : Option (DomainSet A)

/-- The loop of `call_ad` for an add request. Clock and allocations are given by the
`htable_bits` at which they are used; no result stands for a loop cut off. -/
def callAdLoop (jhash2 : HashDomainElem → BitVec 32 → BitVec 32) (now : ℕ → ℕ) (o : ℕ → AddAlloc)
    (alloc : ResizeAlloc) (tb : AdtAttrs) (flags : CmdFlags) :
    ℕ → DomainSet A → Except Fault (Option (AdResult A))
  | 0, _ => return none
  | fuel + 1, s => do
    let htableBits := s.table.htableBits
    let p ← uadtAdd jhash2 (jiffiesAt A (now htableBits)) (o htableBits) s tb flags
    if p.1 ≠ .err .eagain then return some ⟨p.1, p.2, [], none⟩
    else
      let tried := resizeAttempts jhash2 alloc p.2 (255 - p.2.table.htableBits)
      let q ← mtypeResize jhash2 alloc p.2
      if q.1 ≠ .ok then return some ⟨q.1, q.2.1, tried, some p.2⟩
      else
        let r ← callAdLoop jhash2 now o alloc tb flags fuel q.2.1
        return r.map fun r => { r with tried := tried ++ r.tried }

/-- The message that reports the line of a failed request. -/
inductive LineReply where
  | sent
  /-- `nlmsg_new` failed. -/
  | noMemory
  /-- The attributes of the request do not parse again. -/
  | unparsed
  deriving DecidableEq

/-- What `call_ad` hands to its caller; nothing stands for `-EINTR`. -/
def callAdReturn (eexist reportLine : Bool) (reply : LineReply) (ret : Ret) : Option Ret :=
  if ret = .ok ∨ (ret = .err .dsetErrExist ∧ eexist = true) then some .ok
  else if reportLine then
    match reply with
    | .sent => none
    | .noMemory => some (.err .enomem)
    | .unparsed => some (.err .einval)
  else some ret

/-! ### One addition -/

/-- Key and extensions of a request that passes the checks of `hash_domain_uadt`. -/
def adtRequest (set : DomainSet A) (tb : AdtAttrs) : Except Errno (HashDomainElem × DomainSetExt) :=
  hashDomainUadt set tb .error fun e ext => .ok (e, ext)

/-- The bucket of `d` among `2 ^ b` holds `AHASH_MAX_SIZE` records, all of them live
and of other keys. -/
def KeyFull (jhash2 : HashDomainElem → BitVec 32 → BitVec 32) (jiffies : BitVec A.longBits)
    (x : Extensions) (initval : BitVec 32) (rs : List (Record A)) (d : HashDomainElem) (b : ℕ) :
    Prop :=
  let own := rs.filter fun r => hkey jhash2 r.elem initval b = hkey jhash2 d initval b
  own.length = ahashMaxSize ∧
    ∀ r ∈ own, r.isExpired x jiffies = false ∧ hashDomainDataEqual r.elem d = false

section
variable {jhash2 : HashDomainElem → BitVec 32 → BitVec 32} {set set' : DomainSet A}
  {jiffies : BitVec A.longBits} {o : AddAlloc} {tb : AdtAttrs} {flags : CmdFlags}

theorem uadtAdd_eq : uadtAdd jhash2 jiffies o set tb flags =
    match adtRequest set tb with
    | .error e => .ok (.err e, set)
    | .ok q => mtypeAdd jhash2 jiffies o set q.1 q.2 flags := by
  unfold uadtAdd adtRequest hashDomainUadt
  cases tb.domain with
  | none => rfl
  | some payload =>
    simp only
    cases domainSetGetExtensions set tb (domainSetInitUext set) <;> rfl

/-- The request is the same for a set of the same configuration. -/
theorem adtRequest_congr (h : set.SameConfig set') : adtRequest set' tb = adtRequest set tb := by
  unfold adtRequest hashDomainUadt domainSetGetExtensions domainSetInitUext
  simp only [DomainSet.withTimeout, DomainSet.withCounter, DomainSet.withComment,
    DomainSet.withSkbinfo, h.extensions, h.timeout]

theorem extAttr_error {α : Type*} {present : Bool} {err e : Errno} {a : Option α}
    {f : α → DomainSetExt → DomainSetExt} {ext : DomainSetExt}
    (h : extAttr present err a f ext = .error e) : e = err := by
  unfold extAttr at h
  split at h
  · cases h
  split at h
  · exact (Except.error.inj h).symm
  · cases h

theorem adtRequest_error {e : Errno} (h : adtRequest set tb = .error e) : e ≠ .eagain := by
  rintro rfl
  unfold adtRequest hashDomainUadt at h
  split at h
  · cases h
  split at h
  · rename_i e' he
    obtain rfl := Except.error.inj h
    unfold domainSetGetExtensions at he
    split at he
    · cases he
    rcases bind_error he with he | ⟨_, -, he⟩
    rcases bind_error he with he | ⟨_, -, he⟩
    rcases bind_error he with he | ⟨_, -, he⟩
    rcases bind_error he with he | ⟨_, -, he⟩
    rcases bind_error he with he | ⟨_, -, he⟩
    all_goals exact absurd (extAttr_error he) (by decide)
  · cases h

/-- The bucket of a home holds exactly the records with this home. -/
theorem Htable.Good.filter_home {x : Extensions} {home : HashDomainElem → ℕ} {t : Htable A}
    (h : t.Good x home) {i : ℕ} (hi : i < t.bucket.length) :
    t.records.filter (fun r => home r.elem = i) ~ bucketRecords (t.hbucket i) := by
  refine ((t.records_perm hi).filter _).trans ?_
  rw [filter_append, filter_eq_self.mpr, filter_eq_nil_iff.mpr, append_nil]
  · intro r hr
    simpa using (h.recordsBut_ne hi hr).symm
  · intro r hr
    simpa using ((h.hbucket i).records.1 r hr).2

section
variable {x : Extensions} {dsize : ℕ} {full forceadd flagExist : Bool} {d : HashDomainElem}
  {ext : DomainSetExt} {a : Accounts}

/-- The bucket in which `mtype_add` finds neither the key nor a place. -/
def Hbucket.Stuffed (x : Extensions) (jiffies : BitVec A.longBits) (d : HashDomainElem)
    (n : Hbucket A) : Prop :=
  (∀ s ∈ n.value.take n.pos, s.occupied x jiffies ∧ hashDomainDataEqual s.data.elem d = false) ∧
    n.size ≤ n.pos ∧ ahashMaxSize ≤ n.size

theorem addBucket_eagain {b : Option (Hbucket A)} {p : Ret × Accounts × Option (Hbucket A)}
    (h : addBucket x dsize jiffies o full forceadd d ext flagExist a b = .ok p)
    (hp : p.1 = .err .eagain) : full = false ∧ ∃ n, b = some n ∧ n.Stuffed x jiffies d := by
  cases b with
  | none =>
    unfold addBucket at h
    simp only at h
    split at h
    · obtain rfl := Except.ok.inj h
      cases hp
    split at h
    · obtain rfl := Except.ok.inj h
      cases hp
    · obtain rfl := Except.ok.inj h
      cases hp
  | some n =>
    have hscan := addScan_holds x jiffies d flagExist (n.value.take n.pos)
    unfold addBucket at h
    simp only at h
    generalize addScan x jiffies d flagExist (n.value.take n.pos) 0 none false false = scan
      at h hscan
    cases scan with
    | overwrite j =>
      obtain rfl := Except.ok.inj h
      cases hp
    | exist =>
      obtain rfl := Except.ok.inj h
      cases hp
    | done j deleted reuse =>
      simp only at h
      split at h
      · split at h
        · cases h
        · split at h <;> obtain rfl := Except.ok.inj h <;> cases hp
      rename_i hr
      split at h
      · obtain rfl := Except.ok.inj h
        cases hp
      rename_i hfull
      split at h
      swap
      · obtain rfl := Except.ok.inj h
        cases hp
      rename_i hpos
      split at h
      · rename_i hmax
        refine ⟨Bool.of_not_eq_true hfull, n, rfl, ?_, hpos, hmax⟩
        cases j with
        | none => exact hscan.2.2
        | some j => exact absurd hscan.1 (by simp at hr; simp [hr.1])
      · split at h <;> obtain rfl := Except.ok.inj h <;> cases hp

theorem addBucket_stuffed {n : Hbucket A} (h : n.Stuffed x jiffies d) :
    addBucket x dsize jiffies o false false d ext flagExist a (some n) =
      .ok (.err .eagain, a, some n) := by
  obtain ⟨hall, hpos, hmax⟩ := h
  have hscan := addScan_holds x jiffies d flagExist (n.value.take n.pos)
  unfold addBucket
  simp only
  generalize addScan x jiffies d flagExist (n.value.take n.pos) 0 none false false = scan at hscan
  cases scan with
  | overwrite j =>
    obtain ⟨hj, -, heq, -⟩ := hscan
    exact absurd heq (by rw [(hall _ (getElem_mem hj)).2]; exact Bool.false_ne_true)
  | exist =>
    obtain ⟨-, s, hs, -, heq⟩ := hscan
    exact absurd heq (by rw [(hall s hs).2]; exact Bool.false_ne_true)
  | done j deleted reuse =>
    cases j with
    | some j =>
      obtain ⟨-, -, hj, -, hocc, -⟩ := hscan
      exact absurd (hall _ (getElem_mem hj)).1 hocc
    | none =>
      obtain ⟨-, rfl, -⟩ := hscan
      simp [hpos, hmax]

theorem Hbucket.Good.stuffed_iff {home : HashDomainElem → ℕ} {i : ℕ} {n : Hbucket A}
    (hn : n.Good x home i) : n.Stuffed x jiffies d ↔ n.records.length = ahashMaxSize ∧
      ∀ r ∈ n.records, r.isExpired x jiffies = false ∧ hashDomainDataEqual r.elem d = false := by
  have hcount : n.records.length + n.value.countP (fun s => !s.used) = n.value.length :=
    length_slotRecords n.value
  have hsize : n.value.length ≤ ahashMaxSize := hn.size_le
  have hle : n.pos ≤ n.value.length := hn.pos_le
  constructor
  · rintro ⟨hall, hpos, hmax⟩
    have hpos' : n.value.length ≤ n.pos := hpos
    have hmax' : ahashMaxSize ≤ n.value.length := hmax
    rw [take_of_length_le hpos'] at hall
    have hused : n.value.countP (fun s => !s.used) = 0 := by
      rw [countP_eq_zero]
      intro s hs
      simp [(hall s hs).1.1]
    refine ⟨by omega, ?_⟩
    intro r hr
    obtain ⟨s, hs, -, rfl⟩ := mem_slotRecords.mp hr
    exact ⟨(hall s hs).1.2, (hall s hs).2⟩
  · rintro ⟨hlen, hall⟩
    have hused : ∀ s ∈ n.value, s.used = true := by
      have hzero : n.value.countP (fun s => !s.used) = 0 := by omega
      rw [countP_eq_zero] at hzero
      intro s hs
      simpa using hzero s hs
    have hpos : n.value.length ≤ n.pos := by
      by_contra hnot
      have hlt : n.pos < n.value.length := not_le.mp hnot
      have hmem : n.value[n.pos] ∈ n.value.drop n.pos := by
        rw [drop_eq_getElem_cons hlt]
        exact mem_cons_self
      have hu := hn.unused _ hmem
      rw [hused _ (getElem_mem hlt)] at hu
      cases hu
    refine ⟨?_, hpos, by show ahashMaxSize ≤ n.value.length; omega⟩
    intro s hs
    have hmem := mem_of_mem_take hs
    have hr := hall s.data (mem_slotRecords.mpr ⟨s, hmem, hused s hmem, rfl⟩)
    exact ⟨⟨hused s hmem, hr.1⟩, hr.2⟩

/-- The bucket of the key is stuffed exactly when the records say so. -/
theorem keyFull_iff (h : set.table.Good set.extensions (set.home jhash2)) :
    KeyFull jhash2 jiffies set.extensions set.initval set.table.records d set.table.htableBits ↔
      ∃ n, set.table.hbucket (set.home jhash2 d) = some n ∧ n.Stuffed set.extensions jiffies d := by
  have hi := DomainSet.home_lt h d
  have hperm : set.table.records.filter (fun r =>
      hkey jhash2 r.elem set.initval set.table.htableBits =
        hkey jhash2 d set.initval set.table.htableBits) ~
      bucketRecords (set.table.hbucket (set.home jhash2 d)) := h.filter_home hi
  have hgood := h.hbucket (set.home jhash2 d)
  unfold KeyFull
  simp only
  rw [hperm.length_eq]
  simp only [hperm.mem_iff]
  cases hb : set.table.hbucket (set.home jhash2 d) with
  | none =>
    constructor
    · rintro ⟨hlen, -⟩
      cases hlen
    · rintro ⟨n, hn, -⟩
      cases hn
  | some n =>
    rw [hb] at hgood
    rw [show bucketRecords (some n) = n.records from rfl, ← Hbucket.Good.stuffed_iff hgood]
    simp

variable (set jiffies) in
theorem makeRoom_bits (alloc : ℕ → Bool) :
    (makeRoom jiffies alloc set).table.htableBits = set.table.htableBits := by
  unfold makeRoom
  split <;> rfl

variable (set) in
/-- The records among which `mtype_add` looks for a place. -/
def roomRecords (jiffies : BitVec A.longBits) (o : AddAlloc) : List (Record A) :=
  (makeRoom jiffies o.expire set).table.records

theorem keyFull_makeRoom (h : set.table.Good set.extensions (set.home jhash2)) :
    KeyFull jhash2 jiffies set.extensions set.initval (roomRecords set jiffies o) d
        set.table.htableBits ↔
      ∃ n, (makeRoom jiffies o.expire set).table.hbucket
          ((makeRoom jiffies o.expire set).home jhash2 d) = some n ∧
        n.Stuffed (makeRoom jiffies o.expire set).extensions jiffies d := by
  rw [← keyFull_iff (makeRoom_good jiffies h o.expire), makeRoom_bits,
    (makeRoom_config set jiffies o.expire).extensions,
    (makeRoom_config set jiffies o.expire).initval]
  rfl

/-- A set with room whose bucket for the key is full refuses it with `EAGAIN`;
only `next` is written. -/
theorem mtypeAdd_keyFull (h : set.table.Good set.extensions (set.home jhash2)) (o : AddAlloc)
    (flags : CmdFlags) (ext : DomainSetExt) (hfull : (makeRoom jiffies o.expire set).full = false)
    (hown : KeyFull jhash2 jiffies set.extensions set.initval (roomRecords set jiffies o) d
      set.table.htableBits) :
    mtypeAdd jhash2 jiffies o set d ext flags =
      .ok (.err .eagain, { makeRoom jiffies o.expire set with next := hashDomainDataNext d }) := by
  have hi := DomainSet.home_lt (makeRoom_good jiffies h o.expire) d
  rw [keyFull_makeRoom h] at hown
  unfold mtypeAdd
  simp only
  generalize makeRoom jiffies o.expire set = s at hfull hown hi
  obtain ⟨n, hn, hstuffed⟩ := hown
  rw [show hkey jhash2 d s.initval s.table.htableBits = s.home jhash2 d from rfl, hn, hfull,
    Bool.and_false, Bool.false_and, addBucket_stuffed hstuffed, ← hn]
  simp only [bind, Except.bind, pure, Except.pure, if_true]
  rw [s.table.setBucket_self hi]

theorem mtypeAdd_eagain (h : set.table.Good set.extensions (set.home jhash2))
    {p : Ret × DomainSet A} (hadd : mtypeAdd jhash2 jiffies o set d ext flags = .ok p)
    (hp : p.1 = .err .eagain) :
    (makeRoom jiffies o.expire set).full = false ∧
      KeyFull jhash2 jiffies set.extensions set.initval (roomRecords set jiffies o) d
        set.table.htableBits ∧
      p.2 = { makeRoom jiffies o.expire set with next := hashDomainDataNext d } := by
  have hboth : (makeRoom jiffies o.expire set).full = false ∧
      KeyFull jhash2 jiffies set.extensions set.initval (roomRecords set jiffies o) d
        set.table.htableBits := by
    rw [keyFull_makeRoom h]
    unfold mtypeAdd at hadd
    simp only at hadd
    obtain ⟨q, hq, hadd⟩ := bind_ok hadd
    obtain rfl := Except.ok.inj hadd
    exact addBucket_eagain hq hp
  rw [mtypeAdd_keyFull h o flags ext hboth.1 hboth.2] at hadd
  obtain rfl := Except.ok.inj hadd
  exact ⟨hboth.1, hboth.2, rfl⟩

end

end

/-! ### One resizing -/

theorem htableSize_mono {b b' : ℕ} (h : htableSize A b ≠ 0) (hle : b' ≤ b) :
    htableSize A b' ≠ 0 := by
  have hpow : jhashSize b' ≤ jhashSize b := Nat.pow_le_pow_right (by omega) hle
  have hhead : 0 < sizeofHtable A := by
    unfold sizeofHtable
    split <;> omega
  unfold htableSize at h ⊢
  split at h
  · exact absurd rfl h
  split at h
  · exact absurd rfl h
  rw [if_neg (by omega), if_neg (by omega)]
  omega

def ResizeAlloc.served : ResizeAlloc := ⟨fun _ => true, fun _ _ => true⟩

section
variable {jhash2 : HashDomainElem → BitVec 32 → BitVec 32} {set : DomainSet A} {alloc : ResizeAlloc}

theorem resizeAttempts_ref (set : DomainSet A) (ref : ℤ) (room : ℕ) :
    resizeAttempts jhash2 alloc { set with table := { set.table with ref := ref } } room =
      resizeAttempts jhash2 alloc set room := by
  induction room with
  | zero => rfl
  | succ room ih =>
    unfold resizeAttempts
    rw [ih]
    rfl

/-- The sizes asked for grow, beyond the current one and up to the published one,
and none is beyond 31 bits when the call returns. -/
theorem resizeRetry_tried {set : DomainSet A} {room : ℕ} (hroom : room ≤ 255)
    {p : Ret × DomainSet A × Option (Htable A)} (h : resizeRetry jhash2 alloc set room = .ok p) :
    (resizeAttempts jhash2 alloc set room).Pairwise (· < ·) ∧
      (∀ b ∈ resizeAttempts jhash2 alloc set room, 255 - room < b ∧ b ≤ 31 ∧
        (p.1 = .ok → b ≤ p.2.1.table.htableBits)) ∧
      (p.1 = .ok → 255 - room < p.2.1.table.htableBits) := by
  have hone : ∀ (b c : ℕ) (q : Ret × DomainSet A × Option (Htable A)), c < b → b ≤ 31 →
      (q.1 = .ok → b ≤ q.2.1.table.htableBits) →
      [b].Pairwise (· < ·) ∧ (∀ b' ∈ [b], c < b' ∧ b' ≤ 31 ∧
        (q.1 = .ok → b' ≤ q.2.1.table.htableBits)) ∧ (q.1 = .ok → c < q.2.1.table.htableBits) := by
    intro b c q hlt hb hok
    refine ⟨pairwise_singleton _ _, ?_, fun h => hlt.trans_le (hok h)⟩
    intro b' hmem
    rw [mem_singleton.mp hmem]
    exact ⟨hlt, hb, hok⟩
  induction room generalizing set with
  | zero =>
    obtain rfl := Except.ok.inj h
    exact ⟨.nil, fun b hb => absurd hb not_mem_nil, fun he => Ret.noConfusion he⟩
  | succ room ih =>
    have hlt : 255 - (room + 1) < 255 - room := by omega
    unfold resizeRetry at h
    unfold resizeAttempts
    simp only at h ⊢
    by_cases hz : htableSize A (255 - room) = 0
    · rw [if_pos hz] at h
      cases h
    have hb := htableSize_ne_zero hz
    rw [if_neg hz] at h ⊢
    cases ha : alloc.table (255 - room)
    · simp only [ha, Bool.not_false, if_true] at h ⊢
      obtain rfl := Except.ok.inj h
      exact hone _ _ _ hlt hb fun he => Ret.noConfusion he
    simp only [ha, Bool.not_true, Bool.false_eq_true, if_false] at h ⊢
    cases hfill : resizeFill (fun e => hkey jhash2 e set.initval (255 - room)) set.dsize
        (alloc.bucket (255 - room)) set.table.walk 0 (replicate (jhashSize (255 - room)) none) 0 with
    | ok q =>
      rw [hfill] at h
      obtain rfl := Except.ok.inj h
      exact hone _ _ _ hlt hb fun _ => le_rfl
    | error e =>
      rw [hfill] at h
      simp only at h ⊢
      by_cases he : e = .eagain
      · rw [if_pos he] at h ⊢
        obtain ⟨hpair, hall, hbits⟩ := ih (by omega) h
        rw [resizeAttempts_ref] at hpair hall
        refine ⟨pairwise_cons.mpr ⟨fun b hmem => (hall b hmem).1, hpair⟩, ?_,
          fun hok => hlt.trans (hbits hok)⟩
        intro b hmem
        rcases mem_cons.mp hmem with rfl | hmem
        · exact ⟨hlt, hb, fun hok => (hbits hok).le⟩
        · obtain ⟨h1, h2, h3⟩ := hall b hmem
          exact ⟨hlt.trans h1, h2, h3⟩
      · rw [if_neg he] at h ⊢
        obtain rfl := Except.ok.inj h
        exact hone _ _ _ hlt hb fun he => Ret.noConfusion he

/-- With memory for everything the copy can only overflow. -/
theorem resizeFill_served {key : HashDomainElem → ℕ} {dsize : ℕ} {rs : List (Record A)} {i : ℕ}
    {t : List (Option (Hbucket A))} {extsize : ℤ} {e : Errno}
    (h : resizeFill key dsize (fun _ => true) rs i t extsize = .error e) : e = .eagain := by
  induction rs generalizing i t extsize with
  | nil => cases h
  | cons data rs ih =>
    unfold resizeFill at h
    rcases bind_error h with h | ⟨p, -, h⟩
    · unfold resizeCopy at h
      split at h
      · cases h
      split at h
      · split at h
        · exact (Except.error.inj h).symm
        · cases h
      · cases h
    · exact ih h

/-- So the call succeeds, or it comes to a size of zero. -/
theorem resizeRetry_served {set : DomainSet A} {room : ℕ} (hroom : 223 ≤ room)
    {p : Ret × DomainSet A × Option (Htable A)}
    (h : resizeRetry jhash2 .served set room = .ok p) : p.1 = .ok := by
  induction room generalizing set with
  | zero => omega
  | succ room ih =>
    unfold resizeRetry at h
    simp only [ResizeAlloc.served, Bool.not_true, Bool.false_eq_true, if_false] at h
    split at h
    · cases h
    rename_i hz
    have hb := htableSize_ne_zero hz
    split at h
    · obtain rfl := Except.ok.inj h
      rfl
    · rename_i e he
      obtain rfl := resizeFill_served he
      exact ih (by omega) h

/-- A published size is the first in which no bucket overflows. -/
theorem resizeRetry_first {ref : ℤ} (h : set.table.Good set.extensions (set.home jhash2)) {room : ℕ}
    (hroom : room ≤ 255 - set.table.htableBits)
    (hover : ∀ b', set.table.htableBits < b' → b' < 256 - room →
      ∃ k, ahashMaxSize < set.load jhash2 b' k) {p : Ret × DomainSet A × Option (Htable A)}
    (hret : resizeRetry jhash2 alloc { set with table := { set.table with ref := ref } } room = .ok p)
    (hok : p.1 = .ok) :
    htableSize A p.2.1.table.htableBits ≠ 0 ∧
    (∀ b', set.table.htableBits < b' → b' < p.2.1.table.htableBits →
      ∃ k, ahashMaxSize < set.load jhash2 b' k) ∧
    ∀ k, set.load jhash2 p.2.1.table.htableBits k ≤ ahashMaxSize := by
  induction room generalizing ref with
  | zero =>
    obtain rfl := Except.ok.inj hret
    cases hok
  | succ room ih =>
    have hover' : ∀ b', set.table.htableBits < b' → b' < 255 - room →
        ∃ k, ahashMaxSize < set.load jhash2 b' k := fun b' h1 h2 => hover b' h1 (by omega)
    have hfill := resizeFill_spec (x := set.extensions) (i := 0)
      (fun e => hkey jhash2 e set.initval (255 - room)) set.dsize (alloc.bucket (255 - room))
      set.table.records (t := replicate (jhashSize (255 - room)) none)
      (by simpa using fun e => hkey_lt jhash2 e set.initval (255 - room))
      (fun r hr => (h.mem_records hr).1) h.nodup (Filled.empty _)
    rw [nil_append, length_replicate] at hfill
    unfold resizeRetry at hret
    simp only at hret
    split at hret
    · cases hret
    rename_i hsize
    split at hret
    · obtain rfl := Except.ok.inj hret
      cases hok
    have hwalk : ({ set.table with ref := ref } : Htable A).walk = set.table.records := h.walk_eq
    rw [hwalk] at hret
    split at hret
    · rename_i q hq
      obtain rfl := Except.ok.inj hret
      rw [hq] at hfill
      refine ⟨hsize, hover', hfill.1.countP_le fun e => ?_⟩
      rw [hfill.2]
      exact hkey_lt jhash2 e set.initval (255 - room)
    · rename_i e he
      rw [he] at hfill
      split at hret
      · rename_i hagain
        obtain ⟨-, k, hk⟩ := hfill.resolve_left (by rw [hagain]; decide)
        refine ih (by omega) ?_ hret
        intro b' h1 h2
        rcases Nat.lt_or_ge b' (255 - room) with hlt | hge
        · exact hover' b' h1 hlt
        · obtain rfl : b' = 255 - room := by omega
          exact ⟨k, hk⟩
      · obtain rfl := Except.ok.inj hret
        cases hok

end

/-! ### The loop -/

/-- A table of `2 ^ b` buckets cannot take the records and the key: a bucket
overflows, or the one of the key is full of live ones. -/
def TooSmall (jhash2 : HashDomainElem → BitVec 32 → BitVec 32) (jiffies : BitVec A.longBits)
    (x : Extensions) (initval : BitVec 32) (rs : List (Record A)) (d : HashDomainElem) (b : ℕ) :
    Prop :=
  (∃ k, ahashMaxSize < rs.countP fun r => hkey jhash2 r.elem initval b = k) ∨
    KeyFull jhash2 jiffies x initval rs d b

/-- The request is well formed, it finds room in the set but not in the bucket of its
key, and no larger table that `htable_size` knows is large enough. -/
def NoSize (jhash2 : HashDomainElem → BitVec 32 → BitVec 32) (now : ℕ → ℕ) (o : ℕ → AddAlloc)
    (tb : AdtAttrs) (set : DomainSet A) : Prop :=
  let b := set.table.htableBits
  let s := makeRoom (jiffiesAt A (now b)) (o b).expire set
  ∃ q, adtRequest set tb = .ok q ∧ s.full = false ∧
    KeyFull jhash2 (jiffiesAt A (now b)) set.extensions set.initval s.table.records q.1 b ∧
    ∀ b', b < b' → htableSize A b' ≠ 0 →
      TooSmall jhash2 (jiffiesAt A (now b')) set.extensions set.initval s.table.records q.1 b'

section
variable {jhash2 : HashDomainElem → BitVec 32 → BitVec 32} {now : ℕ → ℕ} {o : ℕ → AddAlloc}
  {alloc : ResizeAlloc} {tb : AdtAttrs} {flags : CmdFlags} {set : DomainSet A}

theorem keyFull_perm {jiffies : BitVec A.longBits} {x : Extensions} {initval : BitVec 32}
    {rs rs' : List (Record A)} {d : HashDomainElem} {b : ℕ} (h : rs ~ rs') :
    KeyFull jhash2 jiffies x initval rs d b ↔ KeyFull jhash2 jiffies x initval rs' d b := by
  unfold KeyFull
  simp only [(h.filter _).length_eq, (h.filter _).mem_iff]

theorem tooSmall_perm {jiffies : BitVec A.longBits} {x : Extensions} {initval : BitVec 32}
    {rs rs' : List (Record A)} {d : HashDomainElem} {b : ℕ} (h : rs ~ rs') :
    TooSmall jhash2 jiffies x initval rs d b ↔ TooSmall jhash2 jiffies x initval rs' d b := by
  unfold TooSmall
  simp only [keyFull_perm h, h.countP_eq]

/-- One round: the addition leaves its array, it returns, or it asks for a larger
table. -/
inductive Round (jhash2 : HashDomainElem → BitVec 32 → BitVec 32) (jiffies : BitVec A.longBits)
    (o : AddAlloc) (tb : AdtAttrs) (set : DomainSet A) :
    Except Fault (Ret × DomainSet A) → Prop
  | fault : Round jhash2 jiffies o tb set (.error .outOfBounds)
  | done (ret : Ret) (s : DomainSet A) (hret : ret ≠ .err .eagain) :
      Round jhash2 jiffies o tb set (.ok (ret, s))
  | again (q : HashDomainElem × DomainSetExt) (s : DomainSet A) (hq : adtRequest set tb = .ok q)
      (hfull : (makeRoom jiffies o.expire set).full = false)
      (hown : KeyFull jhash2 jiffies set.extensions set.initval (roomRecords set jiffies o) q.1
        set.table.htableBits)
      (hs : s = { makeRoom jiffies o.expire set with next := hashDomainDataNext q.1 }) :
      Round jhash2 jiffies o tb set (.ok (.err .eagain, s))

theorem uadtAdd_round (h : set.table.Good set.extensions (set.home jhash2))
    (jiffies : BitVec A.longBits) (o : AddAlloc) (tb : AdtAttrs) (flags : CmdFlags) :
    Round jhash2 jiffies o tb set (uadtAdd jhash2 jiffies o set tb flags) := by
  rw [uadtAdd_eq]
  cases hq : adtRequest set tb with
  | error e => exact .done _ _ (by simpa using adtRequest_error hq)
  | ok q =>
    simp only
    cases hadd : mtypeAdd jhash2 jiffies o set q.1 q.2 flags with
    | error e =>
      have ht := mtypeAdd_target (o := o) (d := q.1) jiffies h q.2 flags
      split at ht
      · obtain ⟨_, _, -, heq⟩ := ht
        rw [hadd] at heq
        cases heq
      · rcases ht with ⟨-, heq⟩ | ⟨_, -, _, _, -, -, heq⟩ <;> rw [hadd] at heq
        · obtain rfl := Except.error.inj heq
          exact .fault
        · cases heq
    | ok p =>
      obtain ⟨ret, s⟩ := p
      by_cases hret : ret = .err .eagain
      · subst hret
        obtain ⟨hfull, hown, hs⟩ := mtypeAdd_eagain h hadd rfl
        exact .again q s hq hfull hown hs
      · exact .done ret s hret

/-- A set that `mtype_add` refused with `EAGAIN`, and what a larger table keeps of it. -/
structure Refilled (jhash2 : HashDomainElem → BitVec 32 → BitVec 32) (s s' : DomainSet A) : Prop
    extends s.SameConfig s' where
  good : s'.Good jhash2
  bits_lt : s.table.htableBits < s'.table.htableBits
  sized : htableSize A s'.table.htableBits ≠ 0
  records : s'.table.records ~ s.table.records
  full : s'.full = s.full
  overfull : ∀ b, s.table.htableBits < b → b < s'.table.htableBits →
    ∃ k, ahashMaxSize < s.load jhash2 b k
  fits : ∀ k, s.load jhash2 s'.table.htableBits k ≤ ahashMaxSize

theorem mtypeResize_refilled (hg : set.Good jhash2) {p : Ret × DomainSet A × Option (Htable A)}
    (h : mtypeResize jhash2 alloc set = .ok p) (hok : p.1 = .ok) :
    Refilled jhash2 set p.2.1 := by
  have hres := mtypeResize_result hg.table alloc
  have hret : resizeRetry jhash2 alloc
      { set with table := { set.table with ref := set.table.ref } }
      (255 - set.table.htableBits) = .ok p := h
  have hfirst := resizeRetry_first hg.table le_rfl (fun b' h1 h2 => by omega) hret hok
  rw [h] at hres
  obtain ⟨ret, s, old⟩ := p
  simp only at hok hres hfirst ⊢
  subst hok
  cases hres with
  | resized _ drift hbits hmax hrec hchange hacct =>
    refine ⟨hchange.toSameConfig, hg.change hchange, hbits, hfirst.1, hrec, ?_, hfirst.2.1,
      hfirst.2.2⟩
    unfold DomainSet.full
    rw [hacct, hchange.maxelem]

theorem mtypeResize_error (hg : set.table.Good set.extensions (set.home jhash2))
    {e : Fault} (h : mtypeResize jhash2 alloc set = .error e) :
    e = .zeroSizePtr ∧ ∀ b', set.table.htableBits < b' → htableSize A b' ≠ 0 →
      ∃ k, ahashMaxSize < set.load jhash2 b' k := by
  have hres := mtypeResize_result hg alloc
  rw [h] at hres
  obtain ⟨he, b, hb, hz, hover⟩ := hres
  refine ⟨he, fun b' h1 h2 => hover b' h1 ?_⟩
  by_contra hle
  exact htableSize_mono h2 (not_lt.mp hle) hz

theorem makeRoom_next_good (hg : set.Good jhash2) (jiffies : BitVec A.longBits) (f : ℕ → Bool)
    (next : HashDomainElem) :
    DomainSet.Good jhash2 { makeRoom jiffies f set with next := next } := by
  obtain ⟨drift, hch, -⟩ := makeRoom_change hg.table jiffies f
  exact hg.change { hch with }

section
variable {q : HashDomainElem × DomainSetExt} {next : HashDomainElem} {s' : DomainSet A}

/-- `NoSize` of a set whose bucket for the key is full, over the sizes alone. -/
theorem noSize_iff (hq : adtRequest set tb = .ok q)
    (hfull : (makeRoom (jiffiesAt A (now set.table.htableBits)) (o set.table.htableBits).expire
      set).full = false)
    (hown : KeyFull jhash2 (jiffiesAt A (now set.table.htableBits)) set.extensions set.initval
      (roomRecords set (jiffiesAt A (now set.table.htableBits)) (o set.table.htableBits)) q.1
      set.table.htableBits) :
    NoSize jhash2 now o tb set ↔ ∀ b, set.table.htableBits < b → htableSize A b ≠ 0 →
      TooSmall jhash2 (jiffiesAt A (now b)) set.extensions set.initval
        (roomRecords set (jiffiesAt A (now set.table.htableBits)) (o set.table.htableBits)) q.1 b := by
  constructor
  · rintro ⟨q', hq', -, -, hall⟩
    obtain rfl := Except.ok.inj (hq.symm.trans hq')
    exact hall
  · exact fun hall => ⟨q, hq, hfull, hown, hall⟩

/-- The larger table that was published is one of the sizes, and the set over it has
no larger one if and only if the set before has none. -/
theorem noSize_refilled (hq : adtRequest set tb = .ok q)
    (hfull : (makeRoom (jiffiesAt A (now set.table.htableBits)) (o set.table.htableBits).expire
      set).full = false)
    (hown : KeyFull jhash2 (jiffiesAt A (now set.table.htableBits)) set.extensions set.initval
      (roomRecords set (jiffiesAt A (now set.table.htableBits)) (o set.table.htableBits)) q.1
      set.table.htableBits)
    (hr : Refilled jhash2 { makeRoom (jiffiesAt A (now set.table.htableBits))
      (o set.table.htableBits).expire set with next := next } s') :
    NoSize jhash2 now o tb set ↔ NoSize jhash2 now o tb s' := by
  rw [noSize_iff hq hfull hown]
  set j := jiffiesAt A (now set.table.htableBits) with hj
  have hconfig := makeRoom_config set j (o set.table.htableBits).expire
  have hext : s'.extensions = set.extensions := hr.extensions.trans hconfig.extensions
  have hinit : s'.initval = set.initval := hr.initval.trans hconfig.initval
  have hbits : (makeRoom j (o set.table.htableBits).expire set).table.htableBits =
      set.table.htableBits := makeRoom_bits _ _ _
  have hlt : set.table.htableBits < s'.table.htableBits := hbits ▸ hr.bits_lt
  have hq' : adtRequest s' tb = .ok q := by
    rw [adtRequest_congr (hconfig.trans { hr.toSameConfig with }), hq]
  have hfull' : s'.full = false := hr.full.trans hfull
  have hrec : s'.table.records ~ roomRecords set j (o set.table.htableBits) := hr.records
  have hover : ∀ b, set.table.htableBits < b → b < s'.table.htableBits → ∃ k, ahashMaxSize <
      (roomRecords set j (o set.table.htableBits)).countP fun r =>
        hkey jhash2 r.elem set.initval b = k := by
    intro b h1 h2
    obtain ⟨k, hk⟩ := hr.overfull b (by rw [hbits]; exact h1) h2
    refine ⟨k, ?_⟩
    rw [← hconfig.initval]
    exact hk
  have hfits : ∀ k, (roomRecords set j (o set.table.htableBits)).countP (fun r =>
      hkey jhash2 r.elem set.initval s'.table.htableBits = k) ≤ ahashMaxSize := by
    intro k
    rw [← hconfig.initval]
    exact hr.fits k
  constructor
  · intro hall
    refine ⟨q, hq', by rw [makeRoom_of_not_full hfull']; exact hfull', ?_, ?_⟩
    · -- no bucket overflows, so the one of the key is full
      rw [makeRoom_of_not_full hfull', hext, hinit, keyFull_perm hrec]
      rcases hall _ hlt hr.sized with ⟨k, hk⟩ | hkey
      · exact absurd (hfits k) (not_le.mpr hk)
      · exact hkey
    · intro b hb hsize
      rw [makeRoom_of_not_full hfull', hext, hinit, tooSmall_perm hrec]
      exact hall b (hlt.trans hb) hsize
  · rintro ⟨q', hq'', -, hown', hall⟩ b hb hsize
    obtain rfl := Except.ok.inj (hq'.symm.trans hq'')
    rw [makeRoom_of_not_full hfull'] at hown' hall
    rcases Nat.lt_trichotomy b s'.table.htableBits with hlt' | rfl | hgt
    · exact .inl (hover b hb hlt')
    · rw [hext, hinit, keyFull_perm hrec] at hown'
      exact .inr hown'
    · have := hall b hgt hsize
      rwa [hext, hinit, tooSmall_perm hrec] at this

end

theorem callAdReturn_ne_eagain {eexist reportLine : Bool} {reply : LineReply} {ret : Ret}
    (h : ret ≠ .err .eagain) : callAdReturn eexist reportLine reply ret ≠ some (.err .eagain) := by
  unfold callAdReturn
  split
  · simp
  split
  · cases reply <;> simp
  · simpa using h

/-- What a returned loop says about the sizes it asked for. -/
structure AdResult.Sound (b : ℕ) (r : AdResult A) : Prop where
  tried : (b :: r.tried).Pairwise (· < ·)
  bound : ∀ b' ∈ r.tried, b' ≤ 31
  ret : r.ret ≠ .err .eagain
  failed : ∀ s, r.failed = some s → (r.ret = .err .dsetErrHashFull ∨ r.ret = .err .enomem) ∧
    r.set.table.bucket = s.table.bucket ∧ r.set.table.htableBits = s.table.htableBits

theorem callAdLoop_succ (fuel : ℕ) {p : Ret × DomainSet A}
    (hp : uadtAdd jhash2 (jiffiesAt A (now set.table.htableBits)) (o set.table.htableBits) set tb
      flags = .ok p) :
    callAdLoop jhash2 now o alloc tb flags (fuel + 1) set =
      if p.1 ≠ .err .eagain then .ok (some ⟨p.1, p.2, [], none⟩)
      else match mtypeResize jhash2 alloc p.2 with
        | .error e => .error e
        | .ok q =>
          let tried := resizeAttempts jhash2 alloc p.2 (255 - p.2.table.htableBits)
          if q.1 ≠ .ok then .ok (some ⟨q.1, q.2.1, tried, some p.2⟩)
          else (callAdLoop jhash2 now o alloc tb flags fuel q.2.1).map
            (Option.map fun r => { r with tried := tried ++ r.tried }) := by
  conv_lhs => unfold callAdLoop
  simp only [hp, bind, Except.bind, pure, Except.pure]
  split
  · rfl
  cases mtypeResize jhash2 alloc p.2 with
  | error e => rfl
  | ok q =>
    simp only
    split
    · rfl
    · cases callAdLoop jhash2 now o alloc tb flags fuel q.2.1 <;> rfl

theorem callAdLoop_error (fuel : ℕ) {e : Fault}
    (hp : uadtAdd jhash2 (jiffiesAt A (now set.table.htableBits)) (o set.table.htableBits) set tb
      flags = .error e) :
    callAdLoop jhash2 now o alloc tb flags (fuel + 1) set = .error e := by
  unfold callAdLoop
  simp only [hp, bind, Except.bind]

theorem callAdLoop_sound (hg : set.Good jhash2) (hbits : set.table.htableBits ≤ 31) {fuel : ℕ}
    {r : AdResult A} (h : callAdLoop jhash2 now o alloc tb flags fuel set = .ok (some r)) :
    r.Sound set.table.htableBits := by
  induction fuel generalizing set r with
  | zero => cases h
  | succ fuel ih =>
    have hround := uadtAdd_round hg.table (jiffiesAt A (now set.table.htableBits))
      (o set.table.htableBits) tb flags
    cases hp : uadtAdd jhash2 (jiffiesAt A (now set.table.htableBits)) (o set.table.htableBits) set tb
      flags with
    | error e =>
      rw [callAdLoop_error fuel hp] at h
      cases h
    | ok p =>
      rw [callAdLoop_succ fuel hp] at h
      rw [hp] at hround
      cases hround with
      | done ret s hret =>
        simp only [ne_eq, hret, not_false_eq_true, if_true] at h
        obtain rfl := Option.some.inj (Except.ok.inj h)
        exact ⟨pairwise_singleton _ _, fun b hb => absurd hb not_mem_nil, hret,
          fun s hs => by cases hs⟩
      | again q s hq hfull hown hs =>
        simp only [ne_eq, not_true_eq_false, if_false] at h
        have hsg : s.Good jhash2 := hs ▸ makeRoom_next_good hg _ _ _
        have hsb : s.table.htableBits = set.table.htableBits := by
          rw [hs]
          exact makeRoom_bits _ _ _
        cases hres : mtypeResize jhash2 alloc s with
        | error e =>
          rw [hres] at h
          cases h
        | ok p =>
          rw [hres] at h
          obtain ⟨hpair, hall, -⟩ := resizeRetry_tried (by omega) hres
          simp only [hsb, show 255 - (255 - set.table.htableBits) = set.table.htableBits by omega]
            at hpair hall h
          have hcons : (set.table.htableBits :: resizeAttempts jhash2 alloc s
              (255 - set.table.htableBits)).Pairwise (· < ·) :=
            pairwise_cons.mpr ⟨fun b hb => (hall b hb).1, hpair⟩
          by_cases hok : p.1 = .ok
          · simp only [hok, not_true_eq_false, if_false] at h
            have hr := mtypeResize_refilled hsg hres hok
            cases hloop : callAdLoop jhash2 now o alloc tb flags fuel p.2.1 with
            | error e =>
              rw [hloop] at h
              cases h
            | ok res =>
              rw [hloop] at h
              cases res with
              | none => cases h
              | some r' =>
                obtain rfl := Option.some.inj (Except.ok.inj h)
                have hs' := ih hr.good (htableSize_ne_zero hr.sized) hloop
                refine ⟨?_, ?_, hs'.ret, hs'.failed⟩
                · rw [← cons_append]
                  refine pairwise_append.mpr ⟨hcons, (pairwise_cons.mp hs'.tried).2, ?_⟩
                  intro a ha b hb
                  have hlt := (pairwise_cons.mp hs'.tried).1 b hb
                  have hbl := hr.bits_lt
                  rcases mem_cons.mp ha with rfl | ha
                  · omega
                  · exact ((hall a ha).2.2 hok).trans_lt hlt
                · intro b hb
                  rcases mem_append.mp hb with hb | hb
                  · exact (hall b hb).2.1
                  · exact hs'.bound b hb
          · simp only [hok, not_false_eq_true, if_true] at h
            obtain rfl := Option.some.inj (Except.ok.inj h)
            have hresult := mtypeResize_result hsg.table alloc
            rw [hres] at hresult
            obtain ⟨ret, s', old⟩ := p
            simp only at hok hresult hcons hall ⊢
            cases hresult with
            | resized => exact absurd rfl hok
            | failed e ref he =>
              refine ⟨hcons, fun b hb => (hall b hb).2.1, ?_, ?_⟩
              · rintro heq
                obtain rfl := Ret.err.inj heq
                rcases he with he | he <;> cases he
              · intro s'' hs''
                obtain rfl := Option.some.inj hs''
                exact ⟨he.imp (congrArg Ret.err) (congrArg Ret.err), rfl, rfl⟩

/-- With a round for every size the loop is not cut off. -/
theorem callAdLoop_ends (hg : set.Good jhash2) (hbits : set.table.htableBits ≤ 31) {fuel : ℕ}
    (hfuel : 32 ≤ set.table.htableBits + fuel) :
    callAdLoop jhash2 now o alloc tb flags fuel set ≠ .ok none := by
  induction fuel generalizing set with
  | zero => omega
  | succ fuel ih =>
    have hround := uadtAdd_round hg.table (jiffiesAt A (now set.table.htableBits))
      (o set.table.htableBits) tb flags
    cases hp : uadtAdd jhash2 (jiffiesAt A (now set.table.htableBits)) (o set.table.htableBits) set tb
      flags with
    | error e =>
      rw [callAdLoop_error fuel hp]
      simp
    | ok p =>
      rw [callAdLoop_succ fuel hp]
      rw [hp] at hround
      cases hround with
      | done ret s hret => simp [hret]
      | again q s hq hfull hown hs =>
        have hsg : s.Good jhash2 := hs ▸ makeRoom_next_good hg _ _ _
        have hsb : s.table.htableBits = set.table.htableBits := by
          rw [hs]
          exact makeRoom_bits _ _ _
        simp only [ne_eq, not_true_eq_false, if_false]
        cases hres : mtypeResize jhash2 alloc s with
        | error e => simp
        | ok p =>
          simp only
          by_cases hok : p.1 = .ok
          · have hr := mtypeResize_refilled hsg hres hok
            have hlt := hr.bits_lt
            have hnext := ih hr.good (htableSize_ne_zero hr.sized) (by omega)
            simp only [hok, not_true_eq_false, if_false]
            cases hloop : callAdLoop jhash2 now o alloc tb flags fuel p.2.1 with
            | error e =>
              intro hnone
              cases hnone
            | ok res =>
              cases res with
              | none => exact absurd hloop hnext
              | some r => simp [Except.map]
          · simp [hok]

/-- A loop that comes to a size of zero has tried all others. -/
theorem callAdLoop_fault (hg : set.Good jhash2) {fuel : ℕ}
    (h : callAdLoop jhash2 now o alloc tb flags fuel set = .error .zeroSizePtr) :
    NoSize jhash2 now o tb set := by
  induction fuel generalizing set with
  | zero => cases h
  | succ fuel ih =>
    have hround := uadtAdd_round hg.table (jiffiesAt A (now set.table.htableBits))
      (o set.table.htableBits) tb flags
    cases hp : uadtAdd jhash2 (jiffiesAt A (now set.table.htableBits)) (o set.table.htableBits) set tb
      flags with
    | error e =>
      rw [callAdLoop_error fuel hp] at h
      rw [hp, Except.error.inj h] at hround
      cases hround
    | ok p =>
      rw [callAdLoop_succ fuel hp] at h
      rw [hp] at hround
      cases hround with
      | done ret s hret => simp [hret] at h
      | again q s hq hfull hown hs =>
        have hsg : s.Good jhash2 := hs ▸ makeRoom_next_good hg _ _ _
        simp only [ne_eq, not_true_eq_false, if_false] at h
        cases hres : mtypeResize jhash2 alloc s with
        | error e =>
          obtain ⟨-, hover⟩ := mtypeResize_error hsg.table hres
          rw [noSize_iff hq hfull hown]
          intro b hb hsize
          rw [hs] at hover
          obtain ⟨k, hk⟩ := hover b (by rw [show _ = _ from makeRoom_bits _ _ _]; exact hb) hsize
          refine .inl ⟨k, ?_⟩
          rw [← (makeRoom_config set (jiffiesAt A (now set.table.htableBits))
            (o set.table.htableBits).expire).initval]
          exact hk
        | ok p =>
          rw [hres] at h
          simp only at h
          by_cases hok : p.1 = .ok
          · have hr := mtypeResize_refilled hsg hres hok
            simp only [hok, not_true_eq_false, if_false] at h
            rw [noSize_refilled hq hfull hown (hs ▸ hr)]
            refine ih hr.good ?_
            cases hloop : callAdLoop jhash2 now o alloc tb flags fuel p.2.1 with
            | error e =>
              rw [hloop] at h
              rw [Except.error.inj h]
            | ok res =>
              rw [hloop] at h
              cases h
          · simp [hok] at h

/-- With memory for everything, a set without a larger size comes to that. -/
theorem callAdLoop_noSize (hg : set.Good jhash2) (hbits : set.table.htableBits ≤ 31) {fuel : ℕ}
    (hfuel : 32 ≤ set.table.htableBits + fuel) (h : NoSize jhash2 now o tb set) :
    callAdLoop jhash2 now o .served tb flags fuel set = .error .zeroSizePtr := by
  induction fuel generalizing set with
  | zero => omega
  | succ fuel ih =>
    obtain ⟨q, hq, hfull, hown, -⟩ := id h
    have hadd := mtypeAdd_keyFull hg.table (o set.table.htableBits) flags q.2 hfull hown
    have hp : uadtAdd jhash2 (jiffiesAt A (now set.table.htableBits)) (o set.table.htableBits) set tb
        flags = .ok (.err .eagain, { makeRoom (jiffiesAt A (now set.table.htableBits))
          (o set.table.htableBits).expire set with next := hashDomainDataNext q.1 }) := by
      rw [uadtAdd_eq, hq]
      exact hadd
    rw [callAdLoop_succ fuel hp]
    have hsg := makeRoom_next_good hg (jiffiesAt A (now set.table.htableBits))
      (o set.table.htableBits).expire (hashDomainDataNext q.1)
    have hsb : (makeRoom (jiffiesAt A (now set.table.htableBits)) (o set.table.htableBits).expire
      set).table.htableBits = set.table.htableBits := makeRoom_bits _ _ _
    simp only [ne_eq, not_true_eq_false, if_false]
    cases hres : mtypeResize jhash2 .served _ with
    | error e => rw [(mtypeResize_error hsg.table hres).1]
    | ok p =>
      have hok : p.1 = .ok := resizeRetry_served (by simp only [hsb]; omega) hres
      have hr := mtypeResize_refilled hsg hres hok
      have hlt := hr.bits_lt
      simp only [hsb] at hlt
      simp only [hok, not_true_eq_false, if_false]
      rw [ih hr.good (htableSize_ne_zero hr.sized) (by omega)
        ((noSize_refilled hq hfull hown hr).mp h)]
      rfl

/-- What an add request may rely on: the loops end, they never ask for a table of no
size, and what they return is sound. -/
structure BoundedResizing (jhash2 : HashDomainElem → BitVec 32 → BitVec 32) (now : ℕ → ℕ)
    (o : ℕ → AddAlloc) (alloc : ResizeAlloc) (tb : AdtAttrs) (flags : CmdFlags)
    (set : DomainSet A) : Prop where
  ends : ∀ fuel, 32 ≤ fuel → callAdLoop jhash2 now o alloc tb flags fuel set ≠ .ok none
  sized : ∀ fuel, callAdLoop jhash2 now o alloc tb flags fuel set ≠ .error .zeroSizePtr
  sound : ∀ fuel r, callAdLoop jhash2 now o alloc tb flags fuel set = .ok (some r) →
    r.Sound set.table.htableBits ∧ ∀ eexist reportLine reply,
      callAdReturn eexist reportLine reply r.ret ≠ some (.err .eagain)

/-- The table of a set has at most 31 bits. -/
theorem applyOp_bits {t : ℕ} {set set' : DomainSet A} {op : Op} {out : Outcome}
    (hg : set.Good jhash2) (hbits : set.table.htableBits ≤ 31)
    (h : applyOp jhash2 t set op = .ok (out, set')) : set'.table.htableBits ≤ 31 := by
  cases op with
  | add d ext flags alloc =>
    obtain ⟨p, hp, h⟩ := bind_ok h
    obtain ⟨-, rfl⟩ := Prod.mk.inj (Except.ok.inj h)
    obtain ⟨q, -, hq⟩ := bind_ok hp
    obtain rfl := Except.ok.inj hq
    exact (makeRoom_bits set _ alloc.expire).trans_le hbits
  | del d alloc =>
    obtain ⟨-, rfl⟩ := Prod.mk.inj (Except.ok.inj h)
    exact hbits
  | test d ext mext flags =>
    obtain ⟨-, rfl⟩ := Prod.mk.inj (Except.ok.inj h)
    unfold mtypeTest
    simp only
    split
    · exact hbits
    · split <;> exact hbits
  | expire alloc =>
    obtain ⟨-, rfl⟩ := Prod.mk.inj (Except.ok.inj h)
    exact hbits
  | flush =>
    obtain ⟨-, rfl⟩ := Prod.mk.inj (Except.ok.inj h)
    exact hbits
  | resize alloc =>
    obtain ⟨ret, old, rfl, hres⟩ := applyOp_resize hg h
    cases hres with
    | failed => exact hbits
    | resized _ _ _ hmax => exact hmax

theorem run_bits {l : List Call} {forceadd : Bool}
    (h : (setSystem A jhash2 forceadd).Run l set) : set.table.htableBits ≤ 31 := by
  refine (h.invariant (P := fun s => s.Good jhash2 ∧ s.table.htableBits ≤ 31) ?_ ?_).2
  · exact fun s hs => ⟨(init_created jhash2 hs).good jhash2, (init_created jhash2 hs).bits_le⟩
  · rintro s c s' ⟨hg, hbits⟩ ⟨-, hstep⟩
    obtain ⟨drift, hch⟩ := applyOp_change hg hstep
    exact ⟨hg.change hch, applyOp_bits hg hbits hstep⟩

/-- The loops of an add request are bounded, whatever memory they get, if and only if
a size that `htable_size` knows is large enough for the records and the key. -/
theorem call_ad_bounded {l : List Call} {forceadd : Bool}
    (h : (setSystem A jhash2 forceadd).Run l set) (now : ℕ → ℕ) (o : ℕ → AddAlloc) (tb : AdtAttrs)
    (flags : CmdFlags) :
    (∀ alloc, BoundedResizing jhash2 now o alloc tb flags set) ↔ ¬NoSize jhash2 now o tb set := by
  obtain ⟨hg, -⟩ := run_good h
  have hbits := run_bits h
  constructor
  · intro hall hno
    exact (hall .served).sized 32 (callAdLoop_noSize hg hbits (by omega) hno)
  · intro hno alloc
    refine ⟨fun fuel hfuel => callAdLoop_ends hg hbits (by omega),
      fun fuel hfault => hno (callAdLoop_fault hg hfault), fun fuel r hr => ?_⟩
    have hs := callAdLoop_sound hg hbits hr
    exact ⟨hs, fun _ _ _ => callAdReturn_ne_eagain hs.ret⟩

/-! ### A bucket that is split -/

/-- A hash under which two keys share a bucket of 64, and one of more if their second letters
do. -/
def secondByte (e : HashDomainElem) (_ : BitVec 32) : BitVec 32 :=
  BitVec.ofNat 32 (64 * (e.domain.getD 1 0).toNat)

/-- Twelve keys of one bucket. -/
def crowding : List (ℕ × Op) :=
  [97, 98, 99, 100, 101, 102, 103, 104, 105, 106, 107, 108].attach.map fun c =>
    (0, .add (keyTwo 97 c.1 (by revert c; decide)) plainExt plainFlags noFailure)

/-- The thirteenth key of a bucket asks for a larger table, and there is one. -/
theorem call_ad_bounded_crowded : ∃ l set, (setSystem x64 secondByte false).Run l set ∧
    (∃ s, uadtAdd secondByte (jiffiesAt x64 0) noFailure set (bareAttrs [97, 109]) plainFlags =
      .ok (.err .eagain, s)) ∧
    ∀ alloc, BoundedResizing secondByte (fun _ => 0) (fun _ => noFailure) alloc
      (bareAttrs [97, 109]) plainFlags set := by
  let own (s : DomainSet x64) (r : Record x64) : Bool :=
    hkey secondByte r.elem s.initval 7 = hkey secondByte (nlaStrlcpy [97, 109, 0]) s.initval 7
  have htest : runOpsTest secondByte (smallSet 20 0) crowding (fun s => !s.full &&
      decide (s.table.records.length = ahashMaxSize) && s.table.htableBits = 6 &&
      decide ((s.table.records.filter (own s)).length = 6) && returnsTest (.err .eagain)
        (uadtAdd secondByte (jiffiesAt x64 0) noFailure s (bareAttrs [97, 109]) plainFlags)
          fun _ => true) = true := by decide +kernel
  obtain ⟨p, hp, hs⟩ := runOpsTest_iff.mp htest
  have henabled : ∀ c ∈ crowding, ∀ set : DomainSet x64, c.2.Enabled set := by
    intro c hc set
    obtain ⟨d, -, rfl⟩ := mem_map.mp hc
    trivial
  have hrun := run_of_runOps (.start (smallSet_init _ 20 0 rfl)) henabled hp
  simp only [Bool.and_eq_true, Bool.not_eq_true', decide_eq_true_eq] at hs
  obtain ⟨⟨⟨⟨hfull, hlen⟩, hbits⟩, hown⟩, hs⟩ := hs
  obtain ⟨s', hadd, -⟩ := returnsTest_iff.mp hs
  refine ⟨_, _, hrun, ⟨s', hadd⟩, (call_ad_bounded hrun _ _ _ _).mpr ?_⟩
  rintro ⟨q, hq, -, -, hsizes⟩
  have hsize : htableSize x64 7 ≠ 0 := by decide
  have hroom : makeRoom (jiffiesAt x64 0) noFailure.expire p.2 = p.2 := makeRoom_of_not_full hfull
  have hdomain : q.1 = nlaStrlcpy [97, 109, 0] := by
    obtain ⟨ext, hext⟩ : ∃ ext, adtRequest p.2 (bareAttrs [97, 109]) =
      .ok (nlaStrlcpy [97, 109, 0], ext) := ⟨_, rfl⟩
    rw [hext] at hq
    exact (congrArg Prod.fst (Except.ok.inj hq)).symm
  rcases hsizes 7 (by omega) hsize with ⟨k, hk⟩ | hkey
  · rw [hroom] at hk
    have hle := countP_le_length (l := p.2.table.records)
      (p := fun r => hkey secondByte r.elem p.2.initval 7 = k)
    omega
  · rw [hroom, hdomain] at hkey
    exact absurd (hkey.1.symm.trans hown) (by decide)

/-! ### Colliding keys -/

/-- Twelve of the colliding keys are added, -/
def stuffing : List (ℕ × Op) :=
  (collidingKeys.take 12).map fun d => (0, .add d plainExt plainFlags noFailure)

/-- and the thirteenth is asked for. -/
def thirteenth : List UInt8 := collidingTexts.getD 12 []

/-- A set with room whose twelve records hash like the key is too small in any size. -/
theorem noSize_colliding {s : DomainSet x64} {q : HashDomainElem × DomainSetExt} {tb : AdtAttrs}
    (hq : adtRequest s tb = .ok q) (hx : s.withTimeout = false) (hfull : s.full = false)
    (hlen : s.table.records.length = ahashMaxSize)
    (hall : ∀ r ∈ s.table.records, elemHash r.elem s.initval = elemHash q.1 s.initval ∧
      hashDomainDataEqual r.elem q.1 = false) :
    NoSize elemHash (fun _ => 0) (fun _ => noFailure) tb s := by
  have hown : ∀ b, KeyFull elemHash (jiffiesAt x64 0) s.extensions s.initval s.table.records q.1 b := by
    intro b
    have hsame : s.table.records.filter (fun r =>
        hkey elemHash r.elem s.initval b = hkey elemHash q.1 s.initval b) = s.table.records := by
      rw [filter_eq_self]
      intro r hr
      simp only [hkey, (hall r hr).1, decide_true]
    unfold KeyFull
    rw [hsame]
    refine ⟨hlen, fun r hr => ⟨?_, (hall r hr).2⟩⟩
    unfold Record.isExpired
    rw [show s.extensions.timeout = false from hx, Bool.false_and]
  refine ⟨q, hq, ?_, ?_, ?_⟩
  · rw [makeRoom_of_not_full hfull]
    exact hfull
  · rw [makeRoom_of_not_full hfull]
    exact hown _
  · intro b _ _
    rw [makeRoom_of_not_full hfull]
    exact .inr (hown b)

/-- The request for the thirteenth domain comes to a table of no size. -/
theorem call_ad_unbounded :
    ¬∀ (l : List Call) (set : DomainSet x64), (setSystem x64 elemHash false).Run l set →
      ∀ (now : ℕ → ℕ) (o : ℕ → AddAlloc) (alloc : ResizeAlloc) (tb : AdtAttrs) (flags : CmdFlags),
        BoundedResizing elemHash now o alloc tb flags set := by
  intro h
  have htest : runOpsTest elemHash (smallSet 20 0) stuffing (fun s => !s.withTimeout && !s.full &&
      decide (s.table.records.length = ahashMaxSize) && s.table.records.all fun r =>
        decide (elemHash r.elem s.initval = elemHash (nlaStrlcpy (thirteenth ++ [0])) s.initval) &&
          !hashDomainDataEqual r.elem (nlaStrlcpy (thirteenth ++ [0]))) = true := by
    decide +kernel
  obtain ⟨p, hp, hs⟩ := runOpsTest_iff.mp htest
  have henabled : ∀ c ∈ stuffing, ∀ set : DomainSet x64, c.2.Enabled set := by
    intro c hc set
    obtain ⟨d, -, rfl⟩ := mem_map.mp hc
    trivial
  have hrun := run_of_runOps (.start (smallSet_init _ 20 0 rfl)) henabled hp
  simp only [Bool.and_eq_true, Bool.not_eq_true', decide_eq_true_eq, all_eq_true] at hs
  obtain ⟨⟨⟨hx, hfull⟩, hlen⟩, hall⟩ := hs
  have hq : ∃ ext, adtRequest p.2 (bareAttrs thirteenth) =
      .ok (nlaStrlcpy (thirteenth ++ [0]), ext) := ⟨_, rfl⟩
  obtain ⟨ext, hq⟩ := hq
  exact (call_ad_bounded hrun (fun _ => 0) (fun _ => noFailure) (bareAttrs thirteenth) plainFlags).mp
    (fun alloc => h _ _ hrun _ _ alloc _ _) (noSize_colliding hq hx hfull hlen hall)

end

end Dset.Hash
