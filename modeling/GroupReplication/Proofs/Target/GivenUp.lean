/-
What becomes of a bulk of which an operation fails. The end of a bulk gives it up before its packets
are applied, and what was received stays received: the caller sees an error, but if it goes on, it goes on
behind the bulk.

So what a channel confirms is not told from what was settled alone. It is told exactly by what was given
up and then passed: a packet that was held back and not settled is confirmed when its bulk was given up
and another packet was taken in after that, and only then. That is so over any copy, wherever in the bulk
an operation fails and whatever the caller does next.
-/
import GroupReplication.Proofs.Target.Digest
import GroupReplication.Proofs.Target.Exact
import GroupReplication.Proofs.Target.Tally

namespace GroupReplication

open GroupReplication.Action Packet

section

variable {ρ : Type}

/-! ## Packets, one at a time -/

/-- What a call leaves of a channel over any copy, whether it succeeds or not. -/
def ChannelCall.leaves (A : Applier ρ) (r : Receiver ρ) : ChannelCall → Receiver ρ
  | requestHandshake => (Receiver.requestHandshake.perform r).2
  | completeHandshake response => ((Receiver.completeHandshake A response).perform r).2
  | consume p => ((Receiver.consume A p).perform r).2
  | consumeBatch ps => ((Receiver.consumeBatch A ps).perform r).2
  | flushBulk => ((Receiver.flushBulk A).perform r).2
  | disconnect => { r with channel := r.channel.disconnected }
  | requireResync => { r with channel := r.channel.requiringResync }

/-- A call that brings packets, or ends a bulk. -/
def ChannelCall.Direct : ChannelCall → Prop
  | consume _ | consumeBatch _ | flushBulk => True
  | _ => False

/-- What a channel handles in one go. -/
inductive Handling where
  | packet (p : Packet)
  | endOfBulk

/-- Whether it failed, and what it left. -/
def Handling.run (A : Applier ρ) (r : Receiver ρ) : Handling → Except Error Unit × Receiver ρ
  | packet p => (discard (Receiver.consume A p)).perform r
  | endOfBulk => (Receiver.flushBulk A).perform r

/-- The packets of a batch that are handled: those up to the first that fails. -/
def Receiver.handlingsOf (A : Applier ρ) : Receiver ρ → List Packet → List Handling
  | _, [] => []
  | r, p :: ps => .packet p :: match (consume A p).perform r with
    | (.ok _, r') => handlingsOf A r' ps
    | (.error _, _) => []

def ChannelCall.handlings (A : Applier ρ) (r : Receiver ρ) : ChannelCall → List Handling
  | consume p => [.packet p]
  | consumeBatch ps => r.handlingsOf A ps
  | flushBulk => [.endOfBulk]
  | _ => []

namespace Receiver

/-- After calls, over any copy. -/
def under (A : Applier ρ) (r : Receiver ρ) (calls : List ChannelCall) : Receiver ρ :=
  calls.foldl (ChannelCall.leaves A) r

/-- What is handled in the course of calls. -/
def handlings (A : Applier ρ) : Receiver ρ → List ChannelCall → List Handling
  | _, [] => []
  | r, call :: calls => call.handlings A r ++ handlings A (call.leaves A r) calls

def handled (A : Applier ρ) (r : Receiver ρ) (steps : List Handling) : Receiver ρ :=
  steps.foldl (fun r step => (step.run A r).2) r

variable {A : Applier ρ} {r : Receiver ρ}

theorem under_append (calls more : List ChannelCall) :
    r.under A (calls ++ more) = (r.under A calls).under A more := List.foldl_append

theorem handled_append (steps more : List Handling) :
    r.handled A (steps ++ more) = (r.handled A steps).handled A more := List.foldl_append

theorem handled_handlingsOf (ps : List Packet) :
    r.handled A (r.handlingsOf A ps) = ((consumeBatch A ps).perform r).2 := by
  induction ps generalizing r with
  | nil => rfl
  | cons p ps ih =>
    rw [perform_consumeBatch_cons, handlingsOf]
    have hfirst : (Handling.run A r (.packet p)).2 = ((consume A p).perform r).2 := by
      rw [Handling.run, perform_discard]
    rcases hdone : (consume A p).perform r with ⟨e | key, r'⟩
    · rw [hdone] at hfirst
      exact hfirst
    · rw [hdone] at hfirst
      show (Handling.run A r (.packet p)).2.handled A (r'.handlingsOf A ps) = _
      rw [hfirst]
      exact ih

/-- Calls that bring packets come down to the packets that are handled. -/
theorem handled_handlings {calls : List ChannelCall} (hdirect : ∀ call ∈ calls, call.Direct) :
    r.handled A (r.handlings A calls) = r.under A calls := by
  induction calls generalizing r with
  | nil => rfl
  | cons call calls ih =>
    have hcall : r.handled A (call.handlings A r) = call.leaves A r := by
      cases call with
      | consume p => simp only [ChannelCall.handlings, ChannelCall.leaves, handled, List.foldl_cons,
          List.foldl_nil, Handling.run, perform_discard]
      | consumeBatch ps => exact handled_handlingsOf ps
      | flushBulk => rfl
      | _ => exact (hdirect _ (List.mem_cons_self ..)).elim
    rw [handlings, handled_append, hcall]
    exact ih fun call hmem => hdirect call (List.mem_cons_of_mem _ hmem)

end Receiver

/-! ## Channels that may have given up a bulk -/

/-- What is held back, if anything, comes right behind what is confirmed and goes on to what was
received. While nothing is, more may have been received than is confirmed: `Exact` fails where a bulk was
given up. -/
structure TargetChannel.InLine (c : TargetChannel) : Prop where
  confirmed : c.lastConfirmed ≤ c.lastReceived
  opened : ∀ bulk, c.bulk = some bulk → bulk.packets ≠ []
  keyed : KeyedFrom (c.lastConfirmed + 1) c.held
  lag : c.held ≠ [] → c.lastConfirmed + c.held.length = c.lastReceived

namespace TargetChannel

variable {c c' : TargetChannel}

theorem InLine.of_none (hbulk : c.bulk = none) (h : c.lastConfirmed ≤ c.lastReceived) : c.InLine where
  confirmed := h
  opened bulk hopen := by
    rw [hbulk] at hopen
    cases hopen
  keyed := by
    rw [held_of_none hbulk]
    trivial
  lag hopen := absurd (held_of_none hbulk) hopen

theorem InLine.congr (h : c.InLine) (hbulk : c'.bulk = c.bulk)
    (hlast : c'.lastReceived = c.lastReceived) (hconfirmed : c'.lastConfirmed = c.lastConfirmed) :
    c'.InLine := by
  have hheld : c'.held = c.held := by rw [held, hbulk, held]
  exact ⟨by rw [hlast, hconfirmed]; exact h.confirmed, fun bulk hopen => h.opened bulk (hbulk ▸ hopen),
    by rw [hheld, hconfirmed]; exact h.keyed, by rw [hheld, hlast, hconfirmed]; exact h.lag⟩

/-- Nothing that is held back is confirmed, and all of it was received. -/
theorem InLine.between (h : c.InLine) {p : Packet} (hp : p ∈ c.held) :
    c.lastConfirmed < p.key ∧ p.key ≤ c.lastReceived := by
  have hbounds := h.keyed.bounds hp
  have hlag := h.lag (List.ne_nil_of_mem hp)
  omega

theorem InLine.held_ne_nil (h : c.InLine) {bulk : Bulk} (hbulk : c.bulk = some bulk) : c.held ≠ [] := by
  rw [held_of_some hbulk]
  exact h.opened bulk hbulk

/-- The packet that comes next is held back: all before what is held back is confirmed. -/
theorem InLine.holdBack (h : c.InLine) (id : UInt64) {p : Packet} (hkey : p.key = c.lastReceived + 1) :
    ((c.holdBack id p).tookIn p.key).InLine ∧
      ((c.holdBack id p).tookIn p.key).lastConfirmed + (c.held ++ [p]).length = p.key := by
  have hheld : ((c.holdBack id p).tookIn p.key).held = c.held ++ [p] := rfl
  have hconfirmed : ((c.holdBack id p).tookIn p.key).lastConfirmed + (c.held ++ [p]).length = p.key ∧
      KeyedFrom (((c.holdBack id p).tookIn p.key).lastConfirmed + 1) (c.held ++ [p]) := by
    have hmax : ∀ q qs, c.held ++ [p] = q :: qs →
        ((c.holdBack id p).tookIn p.key).lastConfirmed = max c.lastConfirmed (q.key - 1) := by
      intro q qs hcons
      have hfirst : { c.holdBack id p with lastReceived := p.key }.confirmable = q.key - 1 :=
        confirmable_of_some (congrArg (fun packets => some (Bulk.mk id packets)) hcons)
      show (c.confirmation.advance { c.holdBack id p with lastReceived := p.key }.confirmable).lastConfirmed
        = _
      rw [hfirst, Confirmation.lastConfirmed_advance]
      rfl
    have hbelow := h.confirmed
    cases hopen : c.held with
    | nil =>
      have hlast := hmax p [] (by rw [hopen]; rfl)
      refine ⟨?_, ?_, trivial⟩
      · rw [hlast, List.nil_append, List.length_singleton]
        omega
      · omega
    | cons q qs =>
      have hlag := h.lag (by rw [hopen]; exact List.cons_ne_nil _ _)
      have hkeyed := h.keyed
      rw [hopen] at hlag hkeyed
      have hfirst : q.key = c.lastConfirmed + 1 := hkeyed.1
      have hlast : ((c.holdBack id p).tookIn p.key).lastConfirmed = c.lastConfirmed := by
        rw [hmax q (qs ++ [p]) (by rw [hopen]; rfl), hfirst]
        omega
      rw [hlast]
      refine ⟨?_, keyedFrom_append.2 ⟨hkeyed, by omega, trivial⟩⟩
      rw [List.length_append, List.length_singleton]
      omega
  refine ⟨⟨?_, ?_, hheld ▸ hconfirmed.2, fun _ => hheld ▸ hconfirmed.1⟩, hconfirmed.1⟩
  · show _ ≤ p.key
    omega
  · intro bulk hopen
    cases hopen
    exact List.append_ne_nil_of_right_ne_nil _ (List.cons_ne_nil _ _)

/-- The packet that comes next is applied while nothing is held back: all is confirmed. -/
theorem InLine.applied (h : c.InLine) (hbulk : c.bulk = none) {key : Nat}
    (hkey : key = c.lastReceived + 1) : (c.tookIn key).InLine ∧ (c.tookIn key).lastConfirmed = key := by
  have hconfirmed : (c.tookIn key).lastConfirmed = key := by
    have hbelow := h.confirmed
    show (c.confirmation.advance _).lastConfirmed = _
    rw [Confirmation.lastConfirmed_advance, confirmable_of_none (by exact hbulk)]
    have : c.confirmation.lastConfirmed = c.lastConfirmed := rfl
    show max _ key = _
    omega
  exact ⟨.of_none hbulk (Nat.le_of_eq hconfirmed), hconfirmed⟩

end TargetChannel

/-! ## What one packet, or the end of a bulk, does -/

/-- The operation of the packet was carried out or set aside on purpose. -/
def Packet.SettledIn (journal : List JournalEntry) (p : Packet) : Prop :=
  ∀ op, p.payload = .entry op →
    ∃ e ∈ journal, e.key = p.key ∧ e.effect = .entry op ∧ e.outcome.isSettled = true

theorem Packet.SettledIn.mono {journal journal' : List JournalEntry} {p : Packet}
    (h : p.SettledIn journal) (hsub : journal ⊆ journal') : p.SettledIn journal' := fun op hop => by
  obtain ⟨e, he, hsettled⟩ := h op hop
  exact ⟨e, hsub he, hsettled⟩

namespace Receiver

/-- What handling one packet, or the end of a bulk, makes of what is held back: nothing; its bulk ends, and
all of it is settled; its bulk is given up; or another packet is taken in. -/
inductive Handles (r r' : Receiver ρ) (entries : List JournalEntry) (result : Except Error Unit) : Prop where
  | still (held : r'.channel.held = r.channel.held)
      (last : r'.channel.lastReceived = r.channel.lastReceived)
      (confirmed : r'.channel.lastConfirmed = r.channel.lastConfirmed)
  | ended (opened : r.channel.held ≠ []) (settled : ∀ p ∈ r.channel.held, p.SettledIn entries)
      (last : r'.channel.lastReceived = r.channel.lastReceived)
      (confirmed : r'.channel.lastConfirmed = r.channel.lastReceived)
  | gaveUp (failed : ∃ e, result = .error e) (opened : r.channel.held ≠ [])
      (held : r'.channel.held = []) (last : r'.channel.lastReceived = r.channel.lastReceived)
      (confirmed : r'.channel.lastConfirmed = r.channel.lastConfirmed)
  | tookIn {new : List Packet} (done : result = .ok ()) (few : new.length ≤ 1)
      (held : r'.channel.held = r.channel.held ++ new ∨
        (∀ p ∈ r.channel.held, p.SettledIn entries) ∧ r'.channel.held = new)
      (last : r'.channel.lastReceived = r.channel.lastReceived + 1)
      (confirmed : r'.channel.lastConfirmed + r'.channel.held.length = r'.channel.lastReceived)

/-- What the end of a bulk leaves. -/
structure Ends (r r' : Receiver ρ) (entries : List JournalEntry) (result : Except Error Unit) : Prop where
  journal : r'.journal = r.journal ++ entries
  bulk : r'.channel.bulk = none
  last : r'.channel.lastReceived = r.channel.lastReceived
  confirms : r.channel.lastConfirmed ≤ r'.channel.lastConfirmed
  inLine : r'.channel.InLine
  none : r.channel.held = [] → r'.channel.lastConfirmed = r.channel.lastConfirmed
  settled : result = .ok () → ∀ p ∈ r.channel.held, p.SettledIn entries
  all : result = .ok () → r.channel.held ≠ [] → r'.channel.lastConfirmed = r.channel.lastReceived
  failed : ∀ e, result = .error e → r'.channel.lastConfirmed = r.channel.lastConfirmed

variable {A : Applier ρ} {r r' : Receiver ρ}

theorem Applies.settledIn {settings : ConflictSettings} {p : Packet} {w w' : Work ρ}
    (h : Applies A settings p w (.ok ()) w') :
    ∃ entries, w'.journal = w.journal ++ entries ∧ p.SettledIn entries := by
  cases h with
  | @intro _ entries hcarried =>
    cases hcarried with
    | settled hkeys horder hall =>
      refine ⟨entries, rfl, fun op hop => ?_⟩
      have hmem : Effect.entry op ∈ entries.map (·.effect) := by
        rw [horder, hop]
        exact List.mem_singleton_self _
      obtain ⟨e, he, heffect⟩ := List.mem_map.1 hmem
      exact ⟨e, he, hkeys e he, heffect, hall e he⟩

theorem applyPacket_journal (A : Applier ρ) (p : Packet) (r : Receiver ρ) : ∃ result stats w entries,
    (applyPacket A p).perform r = (result, r.withWork w stats) ∧ w.journal = r.journal ++ entries ∧
      (result = .ok () → p.SettledIn entries) := by
  obtain ⟨result, stats, w, hdone, happlies⟩ := applyPacket_spec A p r
  cases result with
  | ok u =>
    obtain ⟨entries, hjournal, hsettled⟩ := Applies.settledIn happlies
    exact ⟨.ok (), stats, w, entries, hdone, hjournal, fun _ => hsettled⟩
  | error e =>
    cases happlies with
    | @intro _ entries hcarried => exact ⟨.error e, stats, _, entries, hdone, rfl, fun he => nomatch he⟩

theorem applyPackets_journal (A : Applier ρ) (ps : List Packet) (r : Receiver ρ) :
    ∃ result stats w entries, (applyPackets A ps).perform r = (result, r.withWork w stats) ∧
      w.journal = r.journal ++ entries ∧ (result = .ok () → ∀ p ∈ ps, p.SettledIn entries) := by
  induction ps generalizing r with
  | nil =>
    exact ⟨.ok (), r.channel.stats, r.work, [], rfl, (List.append_nil _).symm,
      fun _ _ hp => nomatch hp⟩
  | cons p ps ih =>
    obtain ⟨result, stats, w, entries, hfirst, hjournal, hsettled⟩ := applyPacket_journal A p r
    cases result with
    | error e =>
      exact ⟨.error e, stats, w, entries, perform_bind_error hfirst, hjournal, fun he => nomatch he⟩
    | ok u =>
      obtain ⟨result, stats', w', entries', hrest, hjournal', hsettled'⟩ := ih (r.withWork w stats)
      refine ⟨result, stats', w', entries ++ entries', ?_, ?_, fun hok q hq => ?_⟩
      · rw [applyPackets, perform_bind_ok hfirst, hrest]
        rfl
      · rw [hjournal', show (r.withWork w stats).journal = w.journal from rfl, hjournal, List.append_assoc]
      · rcases List.mem_cons.1 hq with rfl | hq
        · exact (hsettled rfl).mono (List.subset_append_left _ _)
        · exact (hsettled' hok q hq).mono (List.subset_append_right _ _)

/-- The end of a bulk: it is given up first, and confirmed once all of it is settled. -/
theorem flushBulk_ends (h : r.channel.InLine) : ∃ result r' entries,
    (flushBulk A).perform r = (result, r') ∧ r.Ends r' entries result := by
  cases hbulk : r.channel.bulk with
  | none =>
    have hheld := TargetChannel.held_of_none hbulk
    refine ⟨.ok (), r, [], ?_, (List.append_nil _).symm, hbulk, rfl, Nat.le_refl _, h, fun _ => rfl,
      fun _ p hp => ?_, fun _ hopened => absurd hheld hopened, fun e he => by cases he⟩
    · simp only [flushBulk, perform_get_bind, hbulk]
      rfl
    · rw [hheld] at hp
      exact absurd hp List.not_mem_nil
  | some bulk =>
    have hheld := TargetChannel.held_of_some hbulk
    have hne := h.opened bulk hbulk
    have hlag := h.lag (h.held_ne_nil hbulk)
    have hkeyed := h.keyed
    rw [hheld] at hlag hkeyed
    obtain ⟨last, hlast⟩ := Option.ne_none_iff_exists'.1 (mt List.getLast?_eq_none_iff.1 hne)
    have hkey := hkeyed.getLast? hne
    rw [hlast, Option.map_some, Option.some.injEq] at hkey
    let r₀ : Receiver ρ := { r with channel := { r.channel with bulk := none } }
    obtain ⟨result, stats, w, entries, happly, hjournal, hsettled⟩ :=
      applyPackets_journal A bulk.packets r₀
    have hopened : (flushBulk A).perform r = ((applyPackets A bulk.packets >>= fun _ =>
        onChannel fun c => { c with confirmation := c.confirmation.advance last.key }).perform r₀) := by
      simp only [flushBulk, perform_get_bind, hbulk, perform_onChannel_bind, hlast]
      rfl
    have hpos := List.length_pos_iff.2 hne
    cases result with
    | error e =>
      exact ⟨.error e, r₀.withWork w stats, entries, hopened.trans (perform_bind_error happly),
        hjournal, rfl, rfl, Nat.le_refl _, .of_none rfl h.confirmed,
        fun hnil => absurd (hheld ▸ hnil) hne, fun he => (by cases he), fun he => (by cases he),
        fun _ _ => rfl⟩
    | ok u =>
      have hconfirmed : (r.channel.confirmation.advance last.key).lastConfirmed
          = r.channel.lastReceived := by
        rw [Confirmation.lastConfirmed_advance]
        have : r.channel.confirmation.lastConfirmed = r.channel.lastConfirmed := rfl
        omega
      let r₁ := r₀.withWork w stats
      refine ⟨.ok (), { r₁ with channel := { r₁.channel with
        confirmation := r.channel.confirmation.advance last.key } }, entries,
        hopened.trans (perform_bind_ok happly), hjournal, rfl, rfl, ?_,
        .of_none rfl (Nat.le_of_eq hconfirmed), fun hnil => absurd (hheld ▸ hnil) hne,
        fun _ => hheld ▸ hsettled rfl, fun _ _ => hconfirmed, fun e he => by cases he⟩
      show _ ≤ (r.channel.confirmation.advance last.key).lastConfirmed
      rw [hconfirmed]
      exact h.confirmed

/-- What handling one packet, or the end of a bulk, leaves. -/
structure Goes (r r' : Receiver ρ) (entries : List JournalEntry) (result : Except Error Unit) : Prop where
  journal : r'.journal = r.journal ++ entries
  inLine : r'.channel.InLine
  confirms : r.channel.lastConfirmed ≤ r'.channel.lastConfirmed
  receives : r.channel.lastReceived ≤ r'.channel.lastReceived
  cases : r.Handles r' entries result

/-- The same bulk, the same keys. -/
theorem Goes.same {entries : List JournalEntry} (h : r.channel.InLine) (result : Except Error Unit)
    (hjournal : r'.journal = r.journal ++ entries) (hbulk : r'.channel.bulk = r.channel.bulk)
    (hlast : r'.channel.lastReceived = r.channel.lastReceived)
    (hconfirmed : r'.channel.lastConfirmed = r.channel.lastConfirmed) : r.Goes r' entries result where
  journal := hjournal
  inLine := h.congr hbulk hlast hconfirmed
  confirms := Nat.le_of_eq hconfirmed.symm
  receives := Nat.le_of_eq hlast.symm
  cases := .still (by rw [TargetChannel.held, hbulk, TargetChannel.held]) hlast hconfirmed

/-- The bulk ended, and nothing else came of it. -/
theorem Ends.goes {entries : List JournalEntry} {result : Except Error Unit} (h : r.Ends r' entries result) :
    r.Goes r' entries result := by
  refine ⟨h.journal, h.inLine, h.confirms, Nat.le_of_eq h.last.symm, ?_⟩
  by_cases hopened : r.channel.held = []
  · exact .still ((TargetChannel.held_of_none h.bulk).trans hopened.symm) h.last (h.none hopened)
  · cases result with
    | ok u => exact .ended hopened (h.settled rfl) h.last (h.all rfl hopened)
    | error e =>
      exact .gaveUp ⟨e, rfl⟩ hopened (TargetChannel.held_of_none h.bulk) h.last (h.failed e rfl)

theorem replay_goes (h : r.channel.InLine) (p : Packet) : ∃ result r' entries,
    (replay A p).perform r = (result, r') ∧ r.Goes r' entries result := by
  obtain ⟨result, stats, w, entries, happly, hjournal, -⟩ := applyPacket_journal A p r.countedAgain
  have hstart : (replay A p).perform r = (applyPacket A p).perform r.countedAgain ∨
      (replay A p).perform r = (.ok (), r.countedAgain) := by
    simp only [replay, perform_onChannel_bind, perform_get_bind, perform_ite]
    split <;> split <;> first | exact .inl rfl | exact .inr rfl
  rcases hstart with hstart | hstart
  · exact ⟨result, _, entries, hstart.trans happly, .same h result hjournal rfl rfl rfl⟩
  · exact ⟨.ok (), _, [], hstart, .same h _ (List.append_nil _).symm rfl rfl rfl⟩

/-- The packet that comes next was taken in. -/
theorem Goes.takesIn {entries : List JournalEntry} (new : List Packet) (h : r.channel.InLine)
    (hjournal : r'.journal = r.journal ++ entries) (hinLine : r'.channel.InLine)
    (hfew : new.length ≤ 1) (hheld : r'.channel.held = r.channel.held ++ new ∨
      (∀ p ∈ r.channel.held, p.SettledIn entries) ∧ r'.channel.held = new)
    (hlast : r'.channel.lastReceived = r.channel.lastReceived + 1)
    (hconfirmed : r'.channel.lastConfirmed + r'.channel.held.length = r'.channel.lastReceived) :
    r.Goes r' entries (.ok ()) := by
  refine ⟨hjournal, hinLine, ?_, by omega, .tookIn rfl hfew hheld hlast hconfirmed⟩
  have hbelow := h.confirmed
  rcases hheld with hheld | ⟨-, hheld⟩
  · rw [hheld, List.length_append] at hconfirmed
    by_cases hnone : r.channel.held = []
    · rw [hnone, List.length_nil] at hconfirmed
      omega
    · have hlag := h.lag hnone
      omega
  · rw [hheld] at hconfirmed
    omega

/-- The end of the open bulk when a packet comes that is counted. -/
theorem flushBulk_counted (h : r.channel.InLine) : ∃ ended r₁ entries,
    (flushBulk A).perform r.counted = (ended, r₁) ∧ r.Ends r₁ entries ended := by
  have hcounted : r.counted.channel.InLine := h.congr rfl rfl rfl
  obtain ⟨ended, r₁, entries, hflush, hends⟩ := flushBulk_ends (A := A) hcounted
  exact ⟨ended, r₁, entries, hflush, hends.journal, hends.bulk, hends.last, hends.confirms,
    hends.inLine, hends.none, hends.settled, hends.all, hends.failed⟩

/-- A packet of a bulk waits behind those of its bulk; another bulk ends first. -/
theorem receiveNext_goes_bulk (h : r.channel.InLine) {p : Packet} {id : UInt64}
    (hid : p.bulk = some id) (hkey : p.key = r.channel.lastReceived + 1) : ∃ result r' entries,
    (receiveNext A p).perform r = (result, r') ∧ r.Goes r' entries result := by
  rw [perform_receiveNext_bulk hid]
  by_cases hother : r.channel.bulk.any (·.id ≠ id) = true
  · rw [if_pos hother]
    obtain ⟨ended, r₁, entries, hflush, hends⟩ := flushBulk_counted (A := A) h
    cases ended with
    | error e => exact ⟨.error e, r₁, entries, perform_bind_error hflush, hends.goes⟩
    | ok u =>
      have hheld : r₁.channel.held ++ [p] = [p] := by
        rw [TargetChannel.held_of_none hends.bulk, List.nil_append]
      obtain ⟨hinLine, hconfirmed⟩ := hends.inLine.holdBack id (by rw [hends.last, hkey])
      exact ⟨.ok (), _, entries, (perform_bind_ok hflush).trans (perform_onChannel _ _),
        .takesIn [p] h hends.journal hinLine (Nat.le_refl 1)
          (.inr ⟨hends.settled rfl, hheld⟩) hkey hconfirmed⟩
  · rw [if_neg hother]
    have hcounted : r.counted.channel.InLine := h.congr rfl rfl rfl
    obtain ⟨hinLine, hconfirmed⟩ := hcounted.holdBack id hkey
    exact ⟨.ok (), _, [], (perform_bind_ok rfl).trans (perform_onChannel _ _),
      .takesIn [p] h (List.append_nil _).symm hinLine (Nat.le_refl 1) (.inl rfl) hkey
        hconfirmed⟩

/-- Any other packet ends the open bulk, and is taken in once it was applied. -/
theorem receiveNext_goes_single (h : r.channel.InLine) {p : Packet} (hid : p.bulk = none)
    (hkey : p.key = r.channel.lastReceived + 1) : ∃ result r' entries,
    (receiveNext A p).perform r = (result, r') ∧ r.Goes r' entries result := by
  obtain ⟨ended, r₁, entries, hflush, hends⟩ := flushBulk_counted (A := A) h
  rw [perform_receiveNext_single hid]
  cases ended with
  | error e => exact ⟨.error e, r₁, entries, perform_bind_error hflush, hends.goes⟩
  | ok u =>
    have hheld := TargetChannel.held_of_none hends.bulk
    obtain ⟨result, stats, w, entries', happly, hjournal, -⟩ := applyPacket_journal A p r₁
    have hsettled : ∀ q ∈ r.channel.held, q.SettledIn (entries ++ entries') := fun q hq =>
      (hends.settled rfl q hq).mono (List.subset_append_left _ _)
    have hboth : w.journal = r.journal ++ (entries ++ entries') := by
      rw [hjournal, hends.journal, List.append_assoc]
    have hstill : (r₁.withWork w stats).channel.InLine := hends.inLine.congr rfl rfl rfl
    rw [perform_bind_ok hflush]
    cases result with
    | error e =>
      refine ⟨.error e, r₁.withWork w stats, _, perform_bind_error happly, hboth, hstill,
        hends.confirms, Nat.le_of_eq hends.last.symm, ?_⟩
      by_cases hopened : r.channel.held = []
      · exact .still (hheld.trans hopened.symm) hends.last (hends.none hopened)
      · exact .ended hopened hsettled hends.last (hends.all rfl hopened)
    | ok v =>
      obtain ⟨hinLine, hconfirmed⟩ := hstill.applied hends.bulk
        (show p.key = r₁.channel.lastReceived + 1 by rw [hends.last, hkey])
      refine ⟨.ok (), _, _, (perform_bind_ok happly).trans (perform_onChannel _ _),
        .takesIn [] h hboth hinLine (Nat.zero_le 1) (.inr ⟨hsettled, hheld⟩) hkey ?_⟩
      show _ + r₁.channel.held.length = p.key
      rw [hheld]
      exact hconfirmed

theorem consume_goes (h : r.channel.InLine) (p : Packet) : ∃ result r' entries,
    (discard (consume A p)).perform r = (result, r') ∧ r.Goes r' entries result := by
  rw [perform_discard]
  by_cases htakes : r.channel.Takes p
  · obtain ⟨result, r', entries, hdone, hgoes⟩ : ∃ result r' entries,
        (if p.key < r.channel.lastReceived + 1 then replay A p else receiveNext A p).perform r
          = (result, r') ∧ r.Goes r' entries result := by
      split
      · exact replay_goes h p
      · have hkey : p.key = r.channel.lastReceived + 1 := by
          have hreached := htakes.reached
          omega
        cases hid : p.bulk with
        | some id => exact receiveNext_goes_bulk h hid hkey
        | none => exact receiveNext_goes_single h hid hkey
    rw [perform_consume_of_takes htakes, hdone]
    cases result with
    | error e => exact ⟨_, r', entries, rfl, hgoes⟩
    | ok u => exact ⟨_, r', entries, rfl, hgoes⟩
  · obtain ⟨e, he⟩ := perform_consume_refused (A := A) htakes
    rw [he]
    exact ⟨_, r, [], rfl, .same h _ (List.append_nil _).symm rfl rfl rfl⟩

theorem run_goes (h : r.channel.InLine) (step : Handling) : ∃ entries,
    r.Goes (step.run A r).2 entries (step.run A r).1 := by
  cases step with
  | packet p =>
    obtain ⟨result, r', entries, hdone, hgoes⟩ := consume_goes (A := A) h p
    rw [Handling.run, hdone]
    exact ⟨entries, hgoes⟩
  | endOfBulk =>
    obtain ⟨result, r', entries, hdone, hends⟩ := flushBulk_ends (A := A) h
    rw [Handling.run, hdone]
    exact ⟨entries, hends.goes⟩

/-! ## What a caller that goes on confirms -/

/-- What packets, one after the other, leave. -/
theorem handled_goes (h : r.channel.InLine) (steps : List Handling) : ∃ entries,
    (r.handled A steps).journal = r.journal ++ entries ∧ (r.handled A steps).channel.InLine ∧
      r.channel.lastConfirmed ≤ (r.handled A steps).channel.lastConfirmed ∧
      r.channel.lastReceived ≤ (r.handled A steps).channel.lastReceived := by
  induction steps generalizing r with
  | nil => exact ⟨[], (List.append_nil _).symm, h, Nat.le_refl _, Nat.le_refl _⟩
  | cons step steps ih =>
    obtain ⟨entries, hgoes⟩ := run_goes (A := A) h step
    obtain ⟨more, hjournal, hinLine, hconfirms, hreceives⟩ := ih hgoes.inLine
    refine ⟨entries ++ more, ?_, hinLine, Nat.le_trans hgoes.confirms hconfirms,
      Nat.le_trans hgoes.receives hreceives⟩
    rw [← List.append_assoc, ← hgoes.journal]
    exact hjournal

/-- The journal of what is handled later is part of that of all that is handled. -/
theorem journal_since (h : r.channel.InLine) (front steps : List Handling) :
    ((r.handled A front).handled A steps).journal.drop (r.handled A front).journal.length
      ⊆ (r.handled A (front ++ steps)).journal.drop r.journal.length := by
  obtain ⟨entries, hjournal, -⟩ := handled_goes (A := A) h front
  rw [hjournal, List.length_append, ← List.drop_drop, handled_append]
  exact List.drop_subset _ _

/-- While nothing is held back and nothing is taken in, nothing is confirmed. -/
theorem handled_idle (h : r.channel.InLine) {steps : List Handling} (hnone : r.channel.held = [])
    (hlast : (r.handled A steps).channel.lastReceived = r.channel.lastReceived) :
    (r.handled A steps).channel.lastConfirmed = r.channel.lastConfirmed := by
  induction steps generalizing r with
  | nil => rfl
  | cons step steps ih =>
    obtain ⟨entries, hgoes⟩ := run_goes (A := A) h step
    obtain ⟨-, -, -, -, hreceives⟩ := handled_goes (A := A) hgoes.inLine steps
    have hlast' : ((step.run A r).2.handled A steps).channel.lastReceived = r.channel.lastReceived := hlast
    rcases hgoes.cases with ⟨hheld, hsame, hconfirmed⟩ | ⟨hopened, -, -, -⟩ | ⟨-, hopened, -, -, -⟩ |
      ⟨-, -, -, hnext, -⟩
    · exact (ih hgoes.inLine (hheld.trans hnone) (hlast'.trans hsame.symm)).trans hconfirmed
    · exact absurd hnone hopened
    · exact absurd hnone hopened
    · omega

/-- The next packet that is taken in has all before it confirmed. -/
theorem handled_passes (h : r.channel.InLine) {steps : List Handling} (hnone : r.channel.held = [])
    (hlast : r.channel.lastReceived < (r.handled A steps).channel.lastReceived) :
    r.channel.lastReceived ≤ (r.handled A steps).channel.lastConfirmed := by
  induction steps generalizing r with
  | nil => exact absurd hlast (Nat.lt_irrefl _)
  | cons step steps ih =>
    obtain ⟨entries, hgoes⟩ := run_goes (A := A) h step
    obtain ⟨-, -, -, hconfirms, -⟩ := handled_goes (A := A) hgoes.inLine steps
    have hlast' : r.channel.lastReceived
      < ((step.run A r).2.handled A steps).channel.lastReceived := hlast
    rcases hgoes.cases with ⟨hheld, hsame, -⟩ | ⟨hopened, -, -, -⟩ | ⟨-, hopened, -, -, -⟩ |
      ⟨-, hfew, hheld, hnext, hconfirmed⟩
    · rw [← hsame]
      exact ih hgoes.inLine (hheld.trans hnone) (by rw [hsame]; exact hlast')
    · exact absurd hnone hopened
    · exact absurd hnone hopened
    · have hone : (step.run A r).2.channel.held.length ≤ 1 := by
        rcases hheld with hheld | ⟨-, hheld⟩
        · rw [hheld, hnone]
          exact hfew
        · rw [hheld]
          exact hfew
      show _ ≤ ((step.run A r).2.handled A steps).channel.lastConfirmed
      omega

/-- The packet was held back at some time. -/
def HeldBack (A : Applier ρ) (r : Receiver ρ) (steps : List Handling) (p : Packet) : Prop :=
  ∃ past, past <+: steps ∧ p ∈ (r.handled A past).channel.held

/-- A step failed that gave up the bulk of the packet, and another packet was taken in after that. -/
def LeftBehind (A : Applier ρ) (r : Receiver ρ) (steps : List Handling) (p : Packet) : Prop :=
  ∃ past step rest, steps = past ++ step :: rest ∧ p ∈ (r.handled A past).channel.held ∧
    (∃ e, (step.run A (r.handled A past)).1 = .error e) ∧
    p ∉ (r.handled A (past ++ [step])).channel.held ∧
    (r.handled A (past ++ [step])).channel.lastReceived < (r.handled A steps).channel.lastReceived

theorem LeftBehind.later (front : List Handling) {steps : List Handling} {p : Packet}
    (h : (r.handled A front).LeftBehind A steps p) : r.LeftBehind A (front ++ steps) p := by
  obtain ⟨past, step, rest, hsteps, hp, hfailed, hgone, hpassed⟩ := h
  refine ⟨front ++ past, step, rest, by rw [hsteps, List.append_assoc], ?_⟩
  rw [List.append_assoc, handled_append, handled_append, handled_append front]
  exact ⟨hp, hfailed, hgone, hpassed⟩

/-- Until it is confirmed, a packet that is held back is settled, or left behind. -/
theorem settled_or_leftBehind (h : r.channel.InLine) {steps : List Handling} {p : Packet}
    (hp : p ∈ r.channel.held) (hconfirmed : p.key ≤ (r.handled A steps).channel.lastConfirmed) :
    p.SettledIn ((r.handled A steps).journal.drop r.journal.length) ∨ r.LeftBehind A steps p := by
  induction steps generalizing r with
  | nil => exact absurd hconfirmed (Nat.not_le.2 (h.between hp).1)
  | cons step steps ih =>
    obtain ⟨entries, hgoes⟩ := run_goes (A := A) h step
    have hconfirmed' : p.key ≤ ((step.run A r).2.handled A steps).channel.lastConfirmed := hconfirmed
    -- settled in this step
    have hnow : p.SettledIn entries →
        p.SettledIn ((r.handled A (step :: steps)).journal.drop r.journal.length) := by
      intro hsettled
      obtain ⟨more, hjournal, -⟩ := handled_goes (A := A) hgoes.inLine steps
      have hall : (r.handled A (step :: steps)).journal = r.journal ++ (entries ++ more) := by
        rw [← List.append_assoc, ← hgoes.journal]
        exact hjournal
      rw [hall, List.drop_left]
      exact hsettled.mono (List.subset_append_left _ _)
    -- still held back after this step
    have hlater : p ∈ (step.run A r).2.channel.held →
        p.SettledIn ((r.handled A (step :: steps)).journal.drop r.journal.length) ∨
          r.LeftBehind A (step :: steps) p := by
      intro hheld
      rcases ih hgoes.inLine hheld hconfirmed' with hsettled | hleft
      · exact .inl (hsettled.mono (journal_since h [step] steps))
      · exact .inr (hleft.later [step])
    rcases hgoes.cases with ⟨hheld, -, -⟩ | ⟨-, hsettled, -, -⟩ | ⟨hfailed, -, hheld, hlast, hsame⟩ |
      ⟨-, -, hheld | ⟨hsettled, -⟩, -, -⟩
    · exact hlater (by rw [hheld]; exact hp)
    · exact .inl (hnow (hsettled p hp))
    · obtain ⟨-, -, -, -, hreceives⟩ := handled_goes (A := A) hgoes.inLine steps
      -- had nothing been taken in since, no more than before would be confirmed
      have hpassed : (step.run A r).2.channel.lastReceived
          < ((step.run A r).2.handled A steps).channel.lastReceived := by
        refine Nat.lt_of_le_of_ne hreceives fun hsame' => ?_
        have hidle := handled_idle hgoes.inLine hheld hsame'.symm
        have hbetween := h.between hp
        omega
      refine .inr ⟨[], step, steps, rfl, hp, hfailed, ?_, hpassed⟩
      show p ∉ (step.run A r).2.channel.held
      rw [hheld]
      exact List.not_mem_nil
    · exact hlater (by rw [hheld]; exact List.mem_append_left _ hp)
    · exact .inl (hnow (hsettled p hp))

/-- What was left behind is confirmed. -/
theorem LeftBehind.confirmed {steps : List Handling} {p : Packet} (h : r.LeftBehind A steps p)
    (hinLine : r.channel.InLine) : p.key ≤ (r.handled A steps).channel.lastConfirmed := by
  obtain ⟨past, step, rest, rfl, hp, ⟨e, hfailed⟩, hgone, hpassed⟩ := h
  obtain ⟨-, -, hinLine', -, -⟩ := handled_goes (A := A) hinLine past
  obtain ⟨entries, hgoes⟩ := run_goes (A := A) hinLine' step
  obtain ⟨-, -, -, hconfirms, -⟩ := handled_goes (A := A) hgoes.inLine rest
  have hafter : r.handled A (past ++ [step]) = (step.run A (r.handled A past)).2 := handled_append ..
  have hend : r.handled A (past ++ step :: rest) = (step.run A (r.handled A past)).2.handled A rest :=
    handled_append ..
  rw [hafter] at hgone
  rw [hafter, hend] at hpassed
  rw [hend]
  have hreceived := (hinLine'.between hp).2
  rcases hgoes.cases with ⟨hheld, -, -⟩ | ⟨-, -, hlast, hall⟩ | ⟨-, -, hheld, hlast, -⟩ |
    ⟨hdone, -, -, -, -⟩
  · exact absurd (by rw [hheld]; exact hp) hgone
  · exact Nat.le_trans (hall ▸ hreceived) hconfirms
  · have hpasses := handled_passes hgoes.inLine hheld hpassed
    omega
  · rw [hfailed] at hdone
    cases hdone

/-- Whatever is asked of a channel, what it holds back comes right behind what is confirmed. -/
theorem leaves_inLine (h : r.channel.InLine) (call : ChannelCall) :
    (call.leaves A r).channel.InLine := by
  have hdirect : call.Direct → (call.leaves A r).channel.InLine := by
    intro hcall
    obtain ⟨-, -, hinLine, -, -⟩ := handled_goes (A := A) h (r.handlings A [call])
    rw [handled_handlings fun other hother => by rw [List.mem_singleton.1 hother]; exact hcall] at hinLine
    exact hinLine
  cases call with
  | requestHandshake =>
    show (requestHandshake.perform r).2.channel.InLine
    rw [perform_requestHandshake]
    split
    · exact .of_none rfl (Nat.le_refl _)
    · split <;> exact h.congr rfl rfl rfl
  | completeHandshake response =>
    show ((completeHandshake A response).perform r).2.channel.InLine
    rcases completeHandshake_spec A response r with
      ⟨e, r', hdone, ⟨state, hsame, -⟩, -⟩ | ⟨r', hdone, haligned⟩
    · rw [hdone, hsame]
      exact h.congr rfl rfl rfl
    · rw [hdone]
      exact .of_none haligned.bulk (Nat.le_of_eq (haligned.confirmed.trans haligned.last.symm))
  | consume p => exact hdirect trivial
  | consumeBatch ps => exact hdirect trivial
  | flushBulk => exact hdirect trivial
  | disconnect => exact .of_none rfl (Nat.le_refl _)
  | requireResync => exact h.congr rfl rfl rfl

theorem under_inLine (h : r.channel.InLine) (calls : List ChannelCall) :
    (r.under A calls).channel.InLine := by
  induction calls generalizing r with
  | nil => exact h
  | cons call calls ih => exact ih (leaves_inLine h call)

/-- A channel over any copy, after any calls, gets packets, batches and ends of bulks, and the caller goes
on whatever fails. A packet that was held back and of which no operation was settled is confirmed if and
only if its bulk was given up by a step that failed and another packet was taken in after that. -/
theorem confirmed_iff_leftBehind (A : Applier ρ) (group source : String) (settings : ConflictSettings)
    (replica : ρ) (prior calls : List ChannelCall) (hdirect : ∀ call ∈ calls, call.Direct) (p : Packet) :
    let r := (⟨.fresh group source settings, replica, []⟩ : Receiver ρ).under A prior
    r.HeldBack A (r.handlings A calls) p →
    ¬ p.SettledIn ((r.under A calls).journal.drop r.journal.length) →
    (p.key ≤ (r.under A calls).channel.lastConfirmed ↔ r.LeftBehind A (r.handlings A calls) p) := by
  intro r hheldBack hopen
  have hinLine : r.channel.InLine := under_inLine (.of_none rfl (Nat.le_refl _)) prior
  obtain ⟨past, ⟨rest, hsteps⟩, hp⟩ := hheldBack
  obtain ⟨-, -, hinLine', -, -⟩ := handled_goes (A := A) hinLine past
  rw [← handled_handlings hdirect, ← hsteps] at hopen ⊢
  refine ⟨fun hconfirmed => ?_, fun hleft => hleft.confirmed hinLine⟩
  rw [handled_append] at hconfirmed
  rcases settled_or_leftBehind hinLine' hp hconfirmed with hsettled | hleft
  · exact absurd (hsettled.mono (journal_since hinLine past rest)) hopen
  · exact hleft.later past

end Receiver

end

namespace Receiver

/-! ## A bulk that is lost -/

/-- A copy that cannot take "a". -/
def withoutA : Applier Replica := InjectedFailures.applier ⟨["a"], [], false⟩ Replica.applier

def bulkOfA : Packet := ⟨1, 1, false, false, .entry (.write ⟨"Order", "a", 1, [], some 7⟩)⟩

def behindBulk : Packet := ⟨2, 1, false, false, .entry (.write ⟨"Order", "b", 1, [], none⟩)⟩

def beforeBulk : Receiver Replica :=
  (⟨.fresh "orders" "primary" .standard, .empty false, []⟩ : Receiver Replica).under withoutA
    [.requestHandshake, .completeHandshake ⟨1, true, none⟩]

/-- The packet behind the bulk ends it, and fails with it; then it comes again. -/
def sentAgain : List ChannelCall := [.consume bulkOfA, .consume behindBulk, .consume behindBulk]

theorem sentAgain_direct : ∀ call ∈ sentAgain, call.Direct := by
  intro call hcall
  simp only [sentAgain, List.mem_cons, List.not_mem_nil, or_false] at hcall
  rcases hcall with rfl | rfl | rfl <;> trivial

theorem bulkOfA_heldBack : beforeBulk.HeldBack withoutA (beforeBulk.handlings withoutA sentAgain) bulkOfA :=
  ⟨[.packet bulkOfA], ⟨[.packet behindBulk, .packet behindBulk], rfl⟩, by decide +kernel⟩

theorem bulkOfA_open : ¬ bulkOfA.SettledIn (beforeBulk.under withoutA sentAgain).journal := by
  intro hsettled
  obtain ⟨e, he, hkey, -, hdone⟩ := hsettled _ rfl
  have hnone : ∀ e ∈ (beforeBulk.under withoutA sentAgain).journal, e.key = bulkOfA.key →
      e.outcome.isSettled = false := by decide +kernel
  rw [hnone e he hkey] at hdone
  cases hdone

/-- Its bulk was given up and passed. -/
theorem confirmed_iff_leftBehind_sentAgain :
    beforeBulk.LeftBehind withoutA (beforeBulk.handlings withoutA sentAgain) bulkOfA :=
  (confirmed_iff_leftBehind withoutA "orders" "primary" .standard (.empty false)
    [.requestHandshake, .completeHandshake ⟨1, true, none⟩] sentAgain sentAgain_direct bulkOfA
    bulkOfA_heldBack bulkOfA_open).1 (by decide +kernel)

/-- The bulk is confirmed, and its write was never settled. -/
theorem failed_bulk_confirmed :
    beforeBulk.channel.state = .active ∧ bulkOfA.bulk = some 7 ∧
      beforeBulk.HeldBack withoutA (beforeBulk.handlings withoutA sentAgain) bulkOfA ∧
      ¬ bulkOfA.SettledIn (beforeBulk.under withoutA sentAgain).journal ∧
      (beforeBulk.under withoutA sentAgain).channel.lastConfirmed = 2 ∧ bulkOfA.key = 1 :=
  ⟨by decide +kernel, rfl, bulkOfA_heldBack, bulkOfA_open, by decide +kernel, rfl⟩

end Receiver

end GroupReplication
