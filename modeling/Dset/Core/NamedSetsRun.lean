import Dset.Core.NamedSlots

/-! The namespace refines the map of named sets: every step of its commands, rules, sessions and
sets is one of the map, and requests come back. -/

namespace Dset.Core

open Dset.Lib Dset.Hash

variable {A : Arch} {jhash2 : HashDomainElem → BitVec 32 → BitVec 32} {start : ℕ}

/-! ### The namespace -/

/-- The namespace and the named sets; while all sets are destroyed the first slots are empty. -/
structure ShowsSets (jhash2 : HashDomainElem → BitVec 32 → BitVec 32) (start : ℕ)
    (s : ℕ × Net (Hash.DomainSet A) (Htable A)) (a : NamedState A) : Prop where
  now : a.now = s.1
  clock : start ≤ s.1 ∧ s.1 ≤ start + 2 ^ (A.longBits - 1)
  destroying : a.destroying = s.2.destroying.isSome
  destroyed : ∀ n, s.2.destroying = some n → ∀ i, i < n → s.2.inst.domainSet i = none
  slots : ShowsSlots jhash2 start s.1 s.2.inst a.sets

section
variable {s s' : ℕ × Net (Hash.DomainSet A) (Htable A)} {a : NamedState A}

theorem ShowsSets.keeps (h : ShowsSets jhash2 start s a)
    (hclock : s.1 ≤ s'.1 ∧ s'.1 ≤ start + 2 ^ (A.longBits - 1))
    (hdestroying : s'.2.destroying = s.2.destroying)
    (hempty : ∀ i, s.2.inst.domainSet i = none → s'.2.inst.domainSet i = none) {m' : NamedSets A}
    (hslots : ShowsSlots jhash2 start s'.1 s'.2.inst m') :
    ShowsSets jhash2 start s' ⟨s'.1, a.destroying, m'⟩ where
  now := rfl
  clock := ⟨h.clock.1.trans hclock.1, hclock.2⟩
  destroying := h.destroying.trans (congrArg Option.isSome hdestroying.symm)
  destroyed n hn i hi := hempty i (h.destroyed n (hdestroying ▸ hn) i hi)
  slots := hslots

theorem ShowsSets.command (h : ShowsSets jhash2 start s a)
    (hclock : s.1 ≤ s'.1 ∧ s'.1 ≤ start + 2 ^ (A.longBits - 1)) (hlocked : s.2.destroying = none)
    (hdestroying : s'.2.destroying = none) {m' : NamedSets A}
    (hslots : ShowsSlots jhash2 start s'.1 s'.2.inst m') :
    a.destroying = false ∧ ShowsSets jhash2 start s' ⟨s'.1, false, m'⟩ := by
  refine ⟨by rw [h.destroying, hlocked]; rfl, rfl, ⟨h.clock.1.trans hclock.1, hclock.2⟩, ?_, ?_,
    hslots⟩
  · rw [hdestroying]
    rfl
  · intro n hn
    rw [hdestroying] at hn
    cases hn

theorem ShowsSets.same (h : ShowsSets jhash2 start s a)
    (hclock : s.1 ≤ s'.1 ∧ s'.1 ≤ start + 2 ^ (A.longBits - 1))
    (hsame : SameNamed s.2.inst s'.2.inst) (hdestroying : s'.2.destroying = s.2.destroying) :
    ∃ a', a.now ≤ a'.now ∧ (a'.destroying = a.destroying ∧ a.sets.Passes a'.sets a'.now) ∧
      ShowsSets jhash2 start s' a' :=
  ⟨⟨s'.1, a.destroying, a.sets⟩, h.now.le.trans hclock.1, ⟨rfl, .inl rfl⟩, h.keeps hclock hdestroying
    (fun _ => hsame.empty) ((h.slots.mono hclock.1).same hsame)⟩

/-- A session lists a set, which may lose what has expired. -/
theorem ShowsSlots.listing {now : ℕ} {inst inst' : DomainSetNet (Hash.DomainSet A)} {m : NamedSets A}
    (h : ShowsSlots jhash2 start now inst m) (hclock : now ≤ start + 2 ^ (A.longBits - 1))
    {c : ListCall A} (hc : c.head = jiffiesAt A now) {p p' : Session (Htable A)} {mode : DumpMode}
    {index : ℕ} {skb : Skb} (hlist : dumpListing mtypeVariant c.fns inst p mode index skb = .ok (inst', p')) :
    (∃ m', m.Passes m' now ∧ ShowsSlots jhash2 start now inst' m') ∧
      ∀ i, inst.domainSet i = none → inst'.domainSet i = none := by
  unfold dumpListing at hlist
  split at hlist
  · cases hlist
  rename_i set hset
  have hdata := dumpMessage_data c mode index set p.cb skb
  generalize dumpMessage mtypeVariant c.fns mode index set p.cb skb = r at hlist hdata
  obtain ⟨ret, cb, data, skb'⟩ := r
  cases hlist
  refine ⟨?_, fun i hi => ?_⟩
  · rcases hdata with rfl | rfl
    · exact ⟨m, .inl rfl, h.same (.setSlot hset rfl rfl)⟩
    unfold headSet
    split
    · rename_i htimeout
      have hexpire : (setSystem A jhash2 false).step set.data ⟨now, .expire c.alloc, .done⟩
          (mtypeExpire c.head c.alloc set.data) := ⟨htimeout, by rw [hc]; rfl⟩
      obtain ⟨x, keys, hx, ⟨-, hnow, htimeouts, hlive⟩, hshows⟩ :=
        h.type (c := ⟨now, .expire c.alloc, .done⟩) hclock hset rfl trivial hexpire
      obtain ⟨timeouts, n, live⟩ := keys
      obtain rfl : n = now := hnow
      obtain rfl : timeouts = x.keys.timeouts := htimeouts
      obtain rfl : live = x.keys.live.remaining n := hlive
      exact ⟨_, .inr ⟨set.name, x, hx, rfl⟩, hshows⟩
    · exact ⟨m, .inl rfl, h.same (.setSlot hset rfl rfl)⟩
  · rw [DomainSetNet.domainSet_setSlot (DomainSetNet.domainSet_lt hset)]
    split
    · rename_i heq
      rw [heq, hset] at hi
      cases hi
    · exact hi

/-- A slot more is empty, or all of them are. -/
theorem ShowsSets.destroyNext (h : ShowsSets jhash2 start s a)
    (hclock : s.1 ≤ s'.1 ∧ s'.1 ≤ start + 2 ^ (A.longBits - 1))
    (hnext : s.2.destroyNext = some s'.2) :
    ∃ a', a.now ≤ a'.now ∧ a.Moves a' .destroyNext .ok ∧ ShowsSets jhash2 start s' a' := by
  have hnow : a.now ≤ s'.1 := h.now.le.trans hclock.1
  unfold Net.destroyNext at hnext
  split at hnext
  · cases hnext
  rename_i i hi
  have hbusy : a.destroying = true := by
    rw [h.destroying, hi]
    rfl
  split at hnext
  · rename_i hlt
    obtain ⟨n, net⟩ := s'
    obtain rfl := Option.some.inj hnext
    have hslot := DomainSetNet.domainSet_setSlot hlt none
    have hnames : ∃ m', (m' = a.sets ∨ ∃ name, m' = Function.update a.sets name none) ∧
        ShowsSlots jhash2 start n (s.2.inst.setSlot i none) m' := by
      cases hset : s.2.inst.domainSet i with
      | none =>
        refine ⟨a.sets, .inl rfl, (h.slots.mono hclock.1).same fun j => ?_⟩
        rw [hslot]
        split
        · rename_i heq
          rw [heq, hset]
        · rfl
      | some set =>
        refine ⟨_, .inr ⟨set.name, rfl⟩, (h.slots.mono hclock.1).removed _ hset
          ((hslot i).trans (if_pos rfl)) fun j hj => (hslot j).trans (if_neg hj)⟩
    obtain ⟨m', hm', hslots⟩ := hnames
    refine ⟨⟨n, true, m'⟩, hnow, ⟨hbusy, .inl ⟨rfl, hm'⟩⟩, rfl,
      ⟨h.clock.1.trans hclock.1, hclock.2⟩, rfl, fun k hk j hj => ?_, hslots⟩
    obtain rfl := Option.some.inj hk
    show (s.2.inst.setSlot i none).domainSet j = none
    rw [hslot]
    split
    · rfl
    · exact h.destroyed i hi j (by omega)
  · rename_i hge
    obtain ⟨n, net⟩ := s'
    obtain rfl := Option.some.inj hnext
    have hnone : a.sets = fun _ => none := by
      funext name
      by_contra hne
      obtain ⟨j, set, hset, -⟩ := h.slots.slot name hne
      have hj := DomainSetNet.domainSet_lt hset
      rw [h.destroyed i hi j (by omega)] at hset
      cases hset
    refine ⟨⟨n, false, a.sets⟩, hnow, ⟨hbusy, .inr ⟨rfl, hnone⟩⟩, rfl,
      ⟨h.clock.1.trans hclock.1, hclock.2⟩, rfl, ?_, ?_⟩
    · intro k hk
      cases hk
    · exact (h.slots.mono hclock.1).same fun _ => rfl

theorem ShowsSets.meant (h : ShowsSets jhash2 start s a)
    (hclock : s.1 ≤ s'.1 ∧ s'.1 ≤ start + 2 ^ (A.longBits - 1))
    {r : Ret × DomainSetNet (Hash.DomainSet A)} {events : List DumpEvent}
    (hlocked : s.2.locked { s.2 with inst := r.2 } = some (.ok (s'.2, events)))
    {mv : Move (Hash.DomainSet A) (Htable A)} (hmeant : Meant jhash2 start s'.1 r.2 a.sets mv r.1) :
    ∃ a', a.now ≤ a'.now ∧ (a.destroying = false ∧ a'.destroying = false ∧
      if r.1 = .ok then a.sets.Commands a'.sets a'.now mv else a'.sets = a.sets) ∧
      ShowsSets jhash2 start s' a' := by
  obtain ⟨hnone, heq⟩ := Net.locked_ok hlocked
  obtain ⟨m', hmeans, hslots⟩ := hmeant
  have hdestroying : s'.2.destroying = none := by rw [heq, ← hnone]
  have hslots' : ShowsSlots jhash2 start s'.1 s'.2.inst m' := by
    rw [heq]
    exact hslots
  obtain ⟨hfree, hshows⟩ := h.command hclock hnone hdestroying hslots'
  exact ⟨_, h.now.le.trans hclock.1, ⟨hfree, rfl, hmeans⟩, hshows⟩

/-- A step of the namespace has its meaning. -/
theorem ShowsSets.move (h : ShowsSets jhash2 start s a)
    (hclock : s.1 ≤ s'.1 ∧ s'.1 ≤ start + 2 ^ (A.longBits - 1))
    {mv : Move (Hash.DomainSet A) (Htable A)} {events : List DumpEvent}
    (hmove : HashMove jhash2 s'.1 mv)
    (hstep : s.2.step mtypeVariant mv = some (.ok (s'.2, events))) :
    ∃ a', a.now ≤ a'.now ∧ a.Moves a' mv (s.2.ret mtypeVariant mv) ∧
      ShowsSets jhash2 start s' a' := by
  have hslots := h.slots.mono hclock.1
  have hnow : a.now ≤ s'.1 := h.now.le.trans hclock.1
  cases mv with
  | create attr exist o =>
    exact h.meant hclock hstep
      (hslots.domainSetCreate ⟨h.clock.1.trans hclock.1, hclock.2⟩ hmove)
  | destroy attr name => exact h.meant hclock hstep hslots.domainSetDestroy
  | flush attr => exact h.meant hclock hstep (hslots.domainSetFlush hclock.2)
  | rename attr => exact h.meant hclock hstep hslots.domainSetRename
  | swap attr => exact h.meant hclock hstep hslots.domainSetSwap
  | destroyAll attr =>
    have hlocked : s.2.locked { s.2 with
        inst := (s.2.inst.domainSetDestroyAll attr).2
        destroying := if (s.2.inst.domainSetDestroyAll attr).1 = .ok then some 0 else none } =
        some (.ok (s'.2, events)) := hstep
    obtain ⟨hnone, heq⟩ := Net.locked_ok hlocked
    have hfree : a.destroying = false := by
      rw [h.destroying, hnone]
      rfl
    have hsame : SameNamed s.2.inst (s.2.inst.domainSetDestroyAll attr).2 := by
      unfold DomainSetNet.domainSetDestroyAll
      split
      · exact .refl _
      split
      · exact .refl _
      · exact fun _ => rfl
    refine ⟨⟨s'.1, decide ((s.2.inst.domainSetDestroyAll attr).1 = .ok), a.sets⟩, hnow,
      ⟨hfree, rfl, rfl⟩, rfl, ⟨h.clock.1.trans hclock.1, hclock.2⟩, ?_, ?_, ?_⟩
    · rw [heq]
      dsimp only
      split
      · rename_i hok
        rw [hok]
        rfl
      · rename_i herr
        exact decide_eq_false herr
    · rw [heq]
      intro n hn i hi
      dsimp only at hn
      split at hn
      · obtain rfl := Option.some.inj hn
        cases hi
      · cases hn
    · rw [heq]
      exact hslots.same hsame
  | destroyNext =>
    obtain ⟨net, hnext, heq⟩ := Option.map_eq_some_iff.mp hstep
    obtain ⟨rfl, -⟩ := Prod.mk.inj (Except.ok.inj heq)
    exact h.destroyNext hclock hnext
  | data i f g => exact hmove.elim
  | checkentry index dim =>
    obtain ⟨-, heq⟩ := Net.locked_ok hstep
    have hsame := getByindex_sameNamed (s := s.2) index (.checking index dim)
    rw [← heq] at hsame
    exact h.same hclock hsame.1 hsame.2
  | emChange size index =>
    simp only [Net.step] at hstep
    split at hstep
    · obtain ⟨-, heq⟩ := Net.locked_ok hstep
      have hsame := getByindex_sameNamed (s := s.2) index (.copying index)
      rw [← heq] at hsame
      exact h.same hclock hsame.1 hsame.2
    · cases hstep
  | holder k kmemdup =>
    simp only [Net.step] at hstep
    split at hstep
    · cases hstep
    · obtain ⟨r, hr, heq⟩ := Option.map_eq_some_iff.mp hstep
      cases r with
      | error e => cases heq
      | ok net =>
        obtain ⟨rfl, -⟩ := Prod.mk.inj (Except.ok.inj heq)
        have hsame := holderStep_sameNamed hr
        exact h.same hclock hsame.1 hsame.2
  | dump req =>
    obtain ⟨heq, -⟩ := Prod.mk.inj (Except.ok.inj (Option.some.inj hstep))
    refine h.same hclock ?_ ?_ <;> rw [← heq]
    exact .refl _
  | session j mv =>
    obtain ⟨p, inst', p', -, hsession, heq⟩ := Net.session_ok hstep
    by_cases hlist : ∃ fns skb, mv = .list fns skb
    · obtain ⟨fns, skb, rfl⟩ := hlist
      obtain ⟨c, rfl, hc⟩ := hmove
      simp only [sessionStep] at hsession
      split at hsession
      · rename_i mode index _
        cases hl : dumpListing mtypeVariant c.fns s.2.inst p mode index skb with
        | error e =>
          rw [hl] at hsession
          cases hsession
        | ok r =>
          rw [hl] at hsession
          obtain ⟨rfl, -⟩ := Prod.mk.inj (Except.ok.inj (Option.some.inj hsession))
          obtain ⟨⟨m', hm', hslots'⟩, hempty⟩ := hslots.listing hclock.2 hc hl
          refine ⟨⟨s'.1, a.destroying, m'⟩, hnow, ⟨rfl, hm'⟩, h.keeps hclock ?_ ?_ ?_⟩ <;> rw [heq]
          · exact hempty
          · exact hslots'
      · cases hsession
    · have hsame := sessionStep_sameNamed hsession fun fns skb hmv => hlist ⟨fns, skb, hmv⟩
      refine h.same hclock ?_ ?_ <;> rw [heq]
      exact hsame

theorem ShowsSets.requested (h : ShowsSets jhash2 start s a)
    (hclock : s.1 ≤ s'.1 ∧ s'.1 ≤ start + 2 ^ (A.longBits - 1))
    {inst : DomainSetNet (Hash.DomainSet A)} (hreq : s.2.Requested s'.2 inst) {m' : NamedSets A}
    (hslots : ShowsSlots jhash2 start s'.1 inst m') :
    a.destroying = false ∧ ShowsSets jhash2 start s' ⟨s'.1, false, m'⟩ := by
  obtain ⟨hnone, id, g, heq⟩ := hreq
  refine h.command hclock hnone ?_ ?_ <;> rw [heq]
  · exact hnone
  · exact hslots

end

/-- Every step of the namespace is one of the named sets. -/
theorem namedSets_simulation (A : Arch) (jhash2 : HashDomainElem → BitVec 32 → BitVec 32) (start : ℕ)
    {fuel : ℕ} (hfuel : 32 ≤ fuel) :
    (setsSystem A jhash2 start fuel).Simulation (namedSystem A start) (ShowsSets jhash2 start) where
  init s hs := by
    obtain ⟨hnow, maxSets, config, hnet⟩ := hs
    refine ⟨_, rfl, hnow.symm, ⟨hnow.ge, by rw [hnow]; exact Nat.le_add_right _ _⟩, ?_, ?_, ?_⟩ <;>
      rw [hnet]
    · rfl
    · intro n hn
      cases hn
    · refine ⟨fun i j name hi => ?_, fun i set hset => ?_, fun name hne => absurd rfl hne⟩
      · rw [DomainSetNet.nameAt, domainSet_netInit] at hi
        cases hi
      · rw [domainSet_netInit] at hset
        cases hset
  step s c s' a h hstep := by
    obtain ⟨hle, hmax, hstep⟩ := hstep
    have hclock := And.intro hle hmax
    have hnow : a.now ≤ s'.1 := h.now.le.trans hle
    cases c with
    | move mv ret events =>
      obtain ⟨hmove, hret, hstep⟩ := hstep
      obtain ⟨a', hle', hmeans, hshows⟩ := h.move hclock hmove hstep
      exact ⟨a', ⟨hle', hret ▸ hmeans⟩, hshows⟩
    | ad adt req reply =>
      obtain ⟨hels, htext, inst, hrun, hreq⟩ := hstep
      rcases h.slots.domainSetAd adt hels htext hmax hfuel with
        ⟨reply', inst', m', heq, hads, hslots⟩ | ⟨-, hfault, -⟩
      · obtain ⟨rfl, rfl⟩ := Prod.mk.inj (Option.some.inj (Except.ok.inj (heq.symm.trans hrun)))
        obtain ⟨hfree, hshows⟩ := h.requested hclock hreq hslots
        exact ⟨_, ⟨hnow, hfree, rfl, h.now ▸ hads⟩, hshows⟩
      · rw [hfault] at hrun
        cases hrun
    | test attr tb ret =>
      obtain ⟨htext, inst, hrun, hreq⟩ := hstep
      obtain ⟨m', htests, hslots⟩ := (h.slots.mono hle).domainSetUtest hmax htext hrun
      obtain ⟨hfree, hshows⟩ := h.requested hclock hreq hslots
      exact ⟨_, ⟨hnow, hfree, rfl, htests⟩, hshows⟩
    | type name c =>
      obtain ⟨hc, i, set, data, g, hset, rfl, haccepted, htype, heq⟩ := hstep
      obtain ⟨x, keys, hx, hkeys, hslots⟩ := (h.slots.mono hle).type hmax hset hc haccepted htype
      unfold Net.changeData at heq
      rw [hset] at heq
      refine ⟨⟨s'.1, a.destroying, a.sets.setKeys set.name x keys⟩,
        ⟨hnow, rfl, hc, x, keys, hx, hkeys, rfl⟩, h.keeps hclock ?_ ?_ ?_⟩ <;> rw [heq]
      · intro j hj
        rw [DomainSetNet.domainSet_setSlot (DomainSetNet.domainSet_lt hset)]
        split
        · rename_i hji
          rw [hji, hset] at hj
          cases hj
        · exact hj
      · exact hslots

/-- The commands of a namespace of hash sets mean what they say, in every run: names lead to sets
of domains with deadlines, requests change them element by element up to the first that is
refused, tests find what is alive, and neither rules nor dumps, timers, larger tables and slots
in a larger array show. -/
theorem run_named {fuel : ℕ} (hfuel : 32 ≤ fuel) {l : List (SetsCall A)}
    {s : ℕ × Net (Hash.DomainSet A) (Htable A)} (h : (setsSystem A jhash2 start fuel).Run l s) :
    ∃ a, (namedSystem A start).Run l a ∧ ShowsSets jhash2 start s a :=
  (namedSets_simulation A jhash2 start hfuel).run h

/-! ### What comes back -/

/-- An addition for which there is no larger table: those before it are carried out. -/
def AddsNoRoom (jhash2 : HashDomainElem → BitVec 32 → BitVec 32) (fuel : ℕ) (req : AdRequest)
    (inst : DomainSetNet (Hash.DomainSet A)) : Prop :=
  ∃ name set i pre w tb post set₁, req.attr.setname = some name ∧
    inst.findSetAndId name = some (set, i) ∧ req.elements = pre ++ (w, some tb) :: post ∧
    adElements jhash2 .add req.flags req.lineno fuel pre set.data = .ok (some (.ack .ok, set₁)) ∧
    NoSize jhash2 w.now w.add tb set₁

/-- A well-formed test of a set that has a line number. -/
def TestsLine (inst : DomainSetNet (Hash.DomainSet A)) (attr : CmdAttrs) (tb : Option AdtAttrs) : Prop :=
  malformedTest attr = false ∧ ∃ name tb', attr.setname = some name ∧
    inst.findSetAndId name ≠ none ∧ tb = some tb' ∧ tb'.lineno ≠ none

variable (jhash2) in
/-- A test returns unless it has a line number. -/
theorem domainSetUtest_cases (now : ℕ) (inst : DomainSetNet (Hash.DomainSet A)) (attr : CmdAttrs)
    (tb : Option AdtAttrs) :
    (TestsLine inst attr tb ∧ inst.domainSetUtest jhash2 now attr tb = .error .nullPointer) ∨
      ¬TestsLine inst attr tb ∧ ∃ p, inst.domainSetUtest jhash2 now attr tb = .ok p := by
  unfold DomainSetNet.domainSetUtest
  cases hmal : malformedTest attr with
  | true => exact .inr ⟨fun hline => absurd (hmal.symm.trans hline.1) (by decide), _, rfl⟩
  | false =>
    cases hname : attr.setname with
    | none =>
      refine .inr ⟨?_, _, rfl⟩
      rintro ⟨-, name, tb', heq, -⟩
      exact absurd (hname.symm.trans heq) (by simp)
    | some name =>
      rw [Option.bind_some]
      cases hfind : inst.findSetAndId name with
      | none =>
        refine .inr ⟨?_, _, rfl⟩
        rintro ⟨-, name', tb', heq, hne, -⟩
        obtain rfl := Option.some.inj (hname.symm.trans heq)
        exact hne hfind
      | some r =>
        cases tb with
        | none =>
          refine .inr ⟨?_, _, rfl⟩
          rintro ⟨-, name', tb', -, -, heq, -⟩
          cases heq
        | some tb =>
          have hret : DomainSetNet.uadtTest jhash2 (jiffiesAt A now) r.1.data tb =
              if tb.lineno.isSome then .error .nullPointer else
                .ok (hashDomainUadt r.1.data tb (fun _ => (false, r.1.data)) fun value ext =>
                  let p := mtypeTest jhash2 (jiffiesAt A now) r.1.data value ext ext
                    ⟨false, false, false⟩
                  (p.1, p.2.1)) := rfl
          simp only [Bool.false_eq_true, if_false]
          rw [hret]
          cases hline : tb.lineno with
          | none =>
            refine .inr ⟨?_, _, rfl⟩
            rintro ⟨-, name', tb', -, -, heq, hne⟩
            obtain rfl := Option.some.inj heq
            exact hne hline
          | some n =>
            refine .inl ⟨⟨hmal, name, tb, hname, by rw [hfind]; simp, rfl, by rw [hline]; simp⟩, rfl⟩

/-- In every state that a run reaches requests return, whatever is in them, but for an addition
for which there is no larger table, and a test with a line number, which would be written through
a null pointer. -/
theorem requests_return {fuel : ℕ} (hfuel : 32 ≤ fuel) {l : List (SetsCall A)}
    {s : ℕ × Net (Hash.DomainSet A) (Htable A)} (h : (setsSystem A jhash2 start fuel).Run l s)
    (hfree : s.2.destroying = none) {now' : ℕ} (hle : s.1 ≤ now')
    (hclock : now' ≤ start + 2 ^ (A.longBits - 1)) :
    (∀ adt req, TimelyElements s.1 req.elements now' →
      (∀ x ∈ req.elements, ∀ tb, x.2 = some tb → tb.Padded) →
      (∃ reply s', (setsSystem A jhash2 start fuel).step s (.ad adt req reply) s' ∧ s'.1 = now') ∨
      adt = .add ∧ AddsNoRoom jhash2 fuel req s.2.inst ∧
        s.2.inst.domainSetAd jhash2 .add req fuel = .error .zeroSizePtr) ∧
    ∀ attr tb, (∀ tb', tb = some tb' → tb'.Padded) →
      ((∃ ret s', (setsSystem A jhash2 start fuel).step s (.test attr tb ret) s' ∧ s'.1 = now') ↔
        ¬TestsLine s.2.inst attr tb) := by
  obtain ⟨a, -, ha⟩ := (namedSets_simulation A jhash2 start hfuel).run h
  have hreq (inst : DomainSetNet (Hash.DomainSet A)) : s.2.Requested { s.2 with inst := inst } inst := by
    refine ⟨hfree, 0, id, ?_⟩
    have hsame : Session.changePriv 0 (id : Htable A → Htable A) = id := by
      funext p
      simp [Session.changePriv]
    rw [hsame, List.map_id]
  refine ⟨fun adt req hels htext => ?_, fun attr tb htext => ?_⟩
  · rcases ha.slots.domainSetAd adt hels htext hclock hfuel with ⟨reply, inst, -, hrun, -⟩ |
      ⟨rfl, hfault, hno⟩
    · exact .inl ⟨reply, (now', { s.2 with inst := inst }),
        ⟨hle, hclock, hels, htext, inst, hrun, hreq inst⟩, rfl⟩
    · exact .inr ⟨rfl, hno, hfault⟩
  · rcases domainSetUtest_cases jhash2 now' s.2.inst attr tb with ⟨hline, hfault⟩ |
      ⟨hline, ⟨ret, inst⟩, hrun⟩
    · refine iff_of_false ?_ (not_not.mpr hline)
      rintro ⟨ret, s', ⟨-, -, -, inst, hrun, -⟩, rfl⟩
      rw [hfault] at hrun
      cases hrun
    · exact iff_of_true ⟨ret, (now', { s.2 with inst := inst }),
        ⟨hle, hclock, htext, inst, hrun, hreq inst⟩, rfl⟩ hline

/-! ### A set with one domain -/

def smallName : SetName := ⟨[97], zero_notMem_a, Nat.le_of_ble_eq_true rfl⟩

def smallCommand (data : Option Bool) : CmdAttrs :=
  ⟨some dsetProtocolMin, some smallName, none, some smallName, some 0, some 0, data⟩

def smallOutcomes : CreateOutcomes (Hash.DomainSet x64) :=
  ⟨true, .ok ⟨smallName, 0, 0, 0, 0⟩, true, .ok (smallSet 2 0), true⟩

/-- The domain is added, at the first tick and without a failure. -/
def smallRequest : AdRequest :=
  ⟨smallCommand (some true), false, false,
    some (true, ⟨fun _ => 0, fun _ => noFailure, ⟨fun _ => true, fun _ _ => true⟩, true, .sent⟩,
      some (bareAttrs [97])), none⟩

theorem bareAttrs_padded {c : UInt8} {d : DomainKey}
    (hkey : nlaStrlcpy [c, 0] = d.toHashDomainElem) : (bareAttrs [c]).Padded := by
  intro payload hpayload
  obtain rfl := Option.some.inj hpayload
  show ZeroPadded (nlaStrlcpy [c, 0]).domain
  rw [hkey]
  exact d.padded

theorem nlaStrlcpy_a : nlaStrlcpy [97, 0] = keyA.toHashDomainElem := by decide +kernel

theorem nlaStrlcpy_b : nlaStrlcpy [98, 0] = keyB.toHashDomainElem := by decide +kernel

/-- The namespace behind the command that creates the set. -/
def smallNet : Net (Hash.DomainSet x64) (Htable x64) :=
  ⟨⟨[some ⟨0, smallName, ⟨smallName, 0, 0, 0, 0⟩, 0, 0, 0, 0, smallSet 2 0⟩, none], false, false, 1⟩,
    none, [], []⟩

theorem smallNet_run : (setsSystem x64 firstByte 0 32).Run
    [.move (.create (smallCommand none) false smallOutcomes) .ok []] (0, smallNet) := by
  have hcreate : (setsSystem x64 firstByte 0 32).step (0, ⟨netInit 2 0, none, [], []⟩)
      (.move (.create (smallCommand none) false smallOutcomes) .ok []) (0, smallNet) := by
    refine ⟨le_rfl, Nat.zero_le _, fun set hset => ?_, rfl, rfl⟩
    obtain rfl := Except.ok.inj hset
    exact smallSet_init firstByte 2 0 rfl
  have hinit : (setsSystem x64 firstByte 0 32).init (0, ⟨netInit 2 0, none, [], []⟩) :=
    ⟨rfl, 2, 0, rfl⟩
  exact (System.Run.start hinit).snoc hcreate

/-- A set is created, and the domain added to it. -/
theorem run_named_two :
    ∃ l s, (setsSystem x64 firstByte 0 32).Run l s ∧ l.length = 2 ∧
      ∃ a, (namedSystem x64 0).Run l a ∧ ShowsSets firstByte 0 s a := by
  obtain ⟨inst, hadd⟩ : ∃ inst, smallNet.inst.domainSetAd firstByte .add smallRequest 32 =
      .ok (some (.ack .ok, inst)) := ⟨_, rfl⟩
  have hels : TimelyElements 0 smallRequest.elements 0 :=
    ⟨0, ⟨fun _ _ _ => le_rfl, fun _ => ⟨le_rfl, le_rfl⟩⟩, le_rfl⟩
  have htext : ∀ x ∈ smallRequest.elements, ∀ tb, x.2 = some tb → tb.Padded := by
    intro x hx tb htb
    obtain rfl := List.mem_singleton.mp hx
    obtain rfl := Option.some.inj htb
    exact bareAttrs_padded nlaStrlcpy_a
  have had : (setsSystem x64 firstByte 0 32).step (0, smallNet) (.ad .add smallRequest (.ack .ok))
      (0, { smallNet with inst := inst }) :=
    ⟨le_rfl, Nat.zero_le _, hels, htext, inst, hadd, rfl, 0, id, rfl⟩
  have hrun := smallNet_run.snoc had
  exact ⟨_, _, hrun, rfl, run_named le_rfl hrun⟩

/-- Two domains at a tick, none of their allocations failing. -/
def pairElements (now : ℕ) : List (AdWorld × Option AdtAttrs) :=
  [97, 98].map fun c => (⟨fun _ => now, fun _ => noFailure, ⟨fun _ => true, fun _ _ => true⟩, true,
    .sent⟩, some (bareAttrs [c]))

def pairRequest (now : ℕ) : AdRequest :=
  ⟨smallCommand none, false, true, none, some (true, pairElements now)⟩

theorem pairRequest_timely {lo now : ℕ} (hle : lo ≤ now) :
    TimelyElements lo (pairRequest now).elements now :=
  ⟨now, ⟨fun _ _ _ => le_rfl, fun _ => ⟨hle, le_rfl⟩⟩,
    now, ⟨fun _ _ _ => le_rfl, fun _ => ⟨le_rfl, le_rfl⟩⟩, le_rfl⟩

theorem pairRequest_padded (now : ℕ) :
    ∀ x ∈ (pairRequest now).elements, ∀ tb, x.2 = some tb → tb.Padded := by
  intro x hx tb htb
  obtain ⟨c, hc, rfl⟩ := List.mem_map.mp hx
  obtain rfl := Option.some.inj htb
  rcases List.mem_pair.mp hc with rfl | rfl
  · exact bareAttrs_padded nlaStrlcpy_a
  · exact bareAttrs_padded nlaStrlcpy_b

/-- Two domains are added to the set; five ticks later a request that deletes both returns, and so
does a test, unless it has a line number. -/
theorem requests_return_pair : ∃ l s, (setsSystem x64 firstByte 0 32).Run l s ∧
    l.map (fun c => match c with
      | .ad _ req reply => some (req.elements.length, reply)
      | _ => none) = [none, some (2, .ack .ok)] ∧
    (∃ reply s', (setsSystem x64 firstByte 0 32).step s (.ad .del (pairRequest 5) reply) s' ∧
      s'.1 = 5) ∧
    ∀ lineno, (∃ ret s', (setsSystem x64 firstByte 0 32).step s
      (.test (smallCommand (some true)) (some { bareAttrs [98] with lineno := lineno }) ret) s' ∧
        s'.1 = 5) ↔ lineno = none := by
  obtain ⟨inst, hadd, hfind⟩ : ∃ inst, smallNet.inst.domainSetAd firstByte .add (pairRequest 0) 32 =
      .ok (some (.ack .ok, inst)) ∧ (inst.findSetAndId smallName).isSome := ⟨_, rfl, rfl⟩
  have had : (setsSystem x64 firstByte 0 32).step (0, smallNet) (.ad .add (pairRequest 0) (.ack .ok))
      (0, { smallNet with inst := inst }) :=
    ⟨le_rfl, Nat.zero_le _, pairRequest_timely le_rfl, pairRequest_padded 0, inst, hadd, rfl, 0, id,
      rfl⟩
  have hrun := smallNet_run.snoc had
  obtain ⟨hads, htests⟩ := requests_return le_rfl hrun rfl (Nat.zero_le 5)
    (Nat.le_of_ble_eq_true rfl)
  refine ⟨_, _, hrun, rfl, ?_, fun lineno => ?_⟩
  · rcases hads .del (pairRequest 5) (pairRequest_timely (Nat.zero_le _)) (pairRequest_padded 5) with
      hreply | ⟨hadt, -⟩
    · exact hreply
    · cases hadt
  · refine (htests _ _ ?_).trans ?_
    · rintro tb htb
      obtain rfl := Option.some.inj htb
      exact bareAttrs_padded nlaStrlcpy_b
    · constructor
      · intro hline
        by_contra hsome
        exact hline ⟨rfl, smallName, _, rfl, by rw [← Option.isSome_iff_ne_none]; exact hfind, rfl,
          hsome⟩
      · rintro rfl ⟨-, name, tb, -, -, htb, hline⟩
        obtain rfl := Option.some.inj htb
        exact hline rfl

end Dset.Core
