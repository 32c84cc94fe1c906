import Dset.Hash.Create

/-! `hash_domain_uadt`: an add, del or test request from userspace. The key is
the attribute copied by `nla_strlcpy`, the extensions come from
`domain_set_get_extensions`, which lets only timeouts through that fit the
clock. -/

namespace Dset.Hash

open Dset.Lib

variable {A : Arch}

/-- A fixed-width attribute in host order, and `NLA_F_NET_BYTEORDER`. -/
structure NlattrBits (w : ℕ) where
  value : BitVec w
  netorder : Bool
  deriving DecidableEq

/-- The attributes `tb` of an element request; domain and comment are payloads. -/
structure AdtAttrs where
  lineno : Option ℕ
  domain : Option (List UInt8)
  timeout : Option Nlattr
  packets : Option (NlattrBits 64)
  bytes : Option (NlattrBits 64)
  comment : Option (List UInt8)
  skbmark : Option (NlattrBits 64)
  skbprio : Option (NlattrBits 32)
  skbqueue : Option (NlattrBits 16)
  deriving DecidableEq

/-- `domain_set_optattr_netorder` of a fixed-width attribute. -/
def netorderBits {w : ℕ} : Option (NlattrBits w) → Bool
  | none => true
  | some a => a.netorder

def domainSetInitUext (set : DomainSet A) : DomainSetExt :=
  ⟨⟨0, 0, 0, 0⟩, ullongMax, ullongMax, none, set.timeout, 0, 0⟩

/-- One attribute of `domain_set_get_extensions`: refused by a set without the
extension, otherwise entered by `f`. -/
def extAttr {α : Type*} (present : Bool) (err : Errno) (a : Option α)
    (f : α → DomainSetExt → DomainSetExt) (ext : DomainSetExt) : Except Errno DomainSetExt :=
  match a with
  | none => .ok ext
  | some a => if !present then .error err else .ok (f a ext)

def domainSetGetExtensions (set : DomainSet A) (tb : AdtAttrs) (ext : DomainSetExt) :
    Except Errno DomainSetExt :=
  if !(domainSetOptattrNetorder tb.timeout && netorderBits tb.packets && netorderBits tb.bytes &&
      netorderBits tb.skbmark && netorderBits tb.skbprio && netorderBits tb.skbqueue) then
    .error .dsetErrProtocol
  else
    extAttr set.withTimeout .dsetErrTimeout tb.timeout
      (fun a ext => { ext with timeout := domainSetTimeoutUget a.value }) ext >>=
    extAttr set.withCounter .dsetErrCounter
      (if tb.bytes.isSome || tb.packets.isSome then some () else none)
      (fun _ ext => { ext with
        bytes := (tb.bytes.map NlattrBits.value).getD ext.bytes
        packets := (tb.packets.map NlattrBits.value).getD ext.packets }) >>=
    extAttr set.withComment .dsetErrComment tb.comment
      (fun a ext => { ext with comment := some (cstr a) }) >>=
    extAttr set.withSkbinfo .dsetErrSkbinfo tb.skbmark
      (fun a ext => { ext with skbinfo := { ext.skbinfo with
        skbmark := (a.value >>> 32).setWidth 32, skbmarkmask := a.value.setWidth 32 } }) >>=
    extAttr set.withSkbinfo .dsetErrSkbinfo tb.skbprio
      (fun a ext => { ext with skbinfo := { ext.skbinfo with skbprio := a.value } }) >>=
    extAttr set.withSkbinfo .dsetErrSkbinfo tb.skbqueue
      (fun a ext => { ext with skbinfo := { ext.skbinfo with skbqueue := a.value } })

/-- `nla_strlcpy` into a zeroed `char [DSET_MAX_DOMAIN_LEN]`: one trailing zero
byte is not counted. -/
def nlaStrlcpy (payload : List UInt8) : HashDomainElem where
  domain :=
    let srclen := if payload.getLast? = some 0 then payload.length - 1 else payload.length
    zeroPad dsetMaxDomainLen (payload.take (min srclen (dsetMaxDomainLen - 1)))
  length_domain := length_zeroPad (by
    rw [List.length_take]
    exact (min_le_left _ _).trans ((min_le_right _ _).trans (Nat.sub_le _ _)))

/-- `hash_domain_uadt`; `fail` is what an error makes the caller see. -/
def hashDomainUadt {ρ : Type*} (set : DomainSet A) (tb : AdtAttrs) (fail : Errno → ρ)
    (adtfn : HashDomainElem → DomainSetExt → ρ) : ρ :=
  match tb.domain with
  | none => fail .dsetErrProtocol
  | some payload =>
    match domainSetGetExtensions set tb (domainSetInitUext set) with
    | .error e => fail e
    | .ok ext => adtfn (nlaStrlcpy payload) ext

theorem nlaStrlcpy_text {t : List UInt8} (hlen : t.length < dsetMaxDomainLen) :
    (nlaStrlcpy (t ++ [0])).domain = zeroPad dsetMaxDomainLen t := by
  have hle : t.length ≤ dsetMaxDomainLen - 1 := Nat.le_sub_one_of_lt hlen
  simp [nlaStrlcpy, hle]

theorem extAttr_timeout {α : Type*} {present : Bool} {err : Errno} {a : Option α}
    {f : α → DomainSetExt → DomainSetExt} (hf : ∀ a ext, (f a ext).timeout = ext.timeout)
    {ext ext' : DomainSetExt} (h : extAttr present err a f ext = .ok ext') :
    ext'.timeout = ext.timeout := by
  unfold extAttr at h
  split at h
  · rw [Except.ok.inj h]
  split at h
  · cases h
  · rw [← Except.ok.inj h, hf]

/-- The requests of userspace carry timeouts that fit the clock. -/
theorem domainSetGetExtensions_timeout {set : DomainSet A} {tb : AdtAttrs} {ext : DomainSetExt}
    (hset : set.withTimeout = true → set.timeout ≤ dsetMaxTimeout)
    (h : domainSetGetExtensions set tb (domainSetInitUext set) = .ok ext)
    (hx : set.withTimeout = true) : ext.timeout ≤ dsetMaxTimeout := by
  unfold domainSetGetExtensions at h
  split at h
  · cases h
  obtain ⟨e5, h, h6⟩ := bind_ok h
  obtain ⟨e4, h, h5⟩ := bind_ok h
  obtain ⟨e3, h, h4⟩ := bind_ok h
  obtain ⟨e2, h, h3⟩ := bind_ok h
  obtain ⟨e1, h1, h2⟩ := bind_ok h
  rw [extAttr_timeout (by intros; rfl) h6, extAttr_timeout (by intros; rfl) h5,
    extAttr_timeout (by intros; rfl) h4, extAttr_timeout (by intros; rfl) h3,
    extAttr_timeout (by intros; rfl) h2]
  unfold extAttr at h1
  split at h1
  · rw [← Except.ok.inj h1]
    exact hset hx
  · simp only [hx, Bool.not_true, Bool.false_eq_true, if_false] at h1
    rw [← Except.ok.inj h1]
    exact domainSetTimeoutUget_le _

end Dset.Hash
