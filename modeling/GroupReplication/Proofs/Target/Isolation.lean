/-
How far sources that share a copy are kept apart. Any number of them can attach to a group, each with a
channel of its own, and their packets do not get in each other's way if their operations are on different
uids. But a source whose handshake discards the copy discards what all the others have on it, and these
go on behind what they confirmed: what they confirmed before does not come back.
-/
import GroupReplication.Proofs.Target.Produced
import GroupReplication.Proofs.Target.Sources

namespace GroupReplication

open GroupReplication.Action

/-! ## What came of a source -/

namespace Receipt

/-- Where delivery of this source starts anew, if this is a handshake of it that discarded the copy. -/
def startsOver? (source : String) (x : Receipt Replica) : Option Nat :=
  if x.source? = some source then x.discardedTo? Replica.applier else none

/-- The key of this source that comes next when this signal has discarded the copy. -/
def goesOnAt? (source : String) (x : Receipt Replica) : Option Nat :=
  (x.discardedTo? Replica.applier).map fun key =>
    if x.source? = some source then key else (x.before.group.channelFor source).lastConfirmed + 1

/-- The copy, if this signal has discarded what was on it. -/
def dropped? (x : Receipt Replica) : Option Replica :=
  (x.discardedTo? Replica.applier).map fun _ => x.before.group.replica.clear

def packetsOf (source : String) (x : Receipt Replica) : List Packet :=
  if x.source? = some source then x.packets else []

/-- This source sends packets that it had confirmed, or out of order. -/
def Resends (source : String) (x : Receipt Replica) : Prop :=
  x.source? = some source ∧
    ¬ ((x.before.group.channelFor source).lastConfirmed :: x.packets.map (·.key)).Pairwise (· < ·)

/-- Another source introduces the type. -/
def Tells (source : String) (d : TypeDescriptor) (x : Receipt Replica) : Prop :=
  x.source? ≠ some source ∧ ∃ p ∈ x.packets, p.payload = .typeIntroduce d

/-- Only a handshake of another source has delivery go on where it was. -/
theorem goesOnAt?_eq_startsOver? {source : String} {x : Receipt Replica}
    (h : x.source? ≠ some source → x.discardedTo? Replica.applier = none) :
    x.goesOnAt? source = x.startsOver? source := by
  by_cases hown : x.source? = some source
  · simp [goesOnAt?, startsOver?, hown]
  · simp [goesOnAt?, startsOver?, hown, h hown]

end Receipt

/-- What one source did, as far as it matters for the entries that it has on the copy. -/
structure History where
  /-- Where its last handshake that discarded the copy let delivery start. -/
  start : Nat
  /-- The key behind what it had confirmed when the copy was last discarded, by whichever source. -/
  first : Nat
  /-- The copy as it was left then. -/
  dropped : Replica
  /-- The packets that came of it since its own last handshake that discarded the copy. -/
  sent : List Packet
  /-- Since the copy was last discarded it sent packets that it had confirmed, or out of order. -/
  resent : Prop
  /-- Since the copy was last discarded another source introduced this type. -/
  told : TypeDescriptor → Prop

/-- The history of a source. Before the copy is first discarded, delivery starts at key 1. -/
def Reception.history (source : String) (initial : Replica) (r : Reception Replica) : History where
  start := (r.receipts.findSome? (·.startsOver? source)).getD 1
  first := (r.receipts.findSome? (·.goesOnAt? source)).getD 1
  dropped := (r.receipts.findSome? (·.dropped?)).getD initial
  sent := (r.receipts.takeWhile fun x => (x.startsOver? source).isNone).flatMap (·.packetsOf source)
  resent := ∃ x ∈ r.receipts.takeWhile fun x => (x.discardedTo? Replica.applier).isNone, x.Resends source
  told d := ∃ x ∈ r.receipts.takeWhile fun x => (x.discardedTo? Replica.applier).isNone, x.Tells source d

/-- More came since. -/
structure History.Extends (past past' : History) : Prop where
  start : past'.start = past.start
  first : past'.first = past.first
  dropped : past'.dropped = past.dropped
  sent : ∀ p ∈ past.sent, p ∈ past'.sent
  resent : past.resent → past'.resent
  told : ∀ d, past.told d → past'.told d

/-- What a source with this history has on the copy, and what it has staged, when it has confirmed this key.
Its packets from the start of delivery on, one for each key, account for what is staged, and those that were
confirmed since the copy was last discarded for its entries as well. -/
def History.Accounts (settings : ConflictSettings) (own : String → Prop) (past : History) (key : Nat)
    (staged : Staged) (replica : Replica) : Prop :=
  (1 ≤ past.start ∧ past.start ≤ past.first) ∧
    ∃ before copy, EachOnce past.sent past.start (past.first - 1) before ∧
      Produced settings past.sent past.resent past.told past.first
        (Packet.stagedBy before [], past.dropped) key (staged, copy) ∧
      copy.SameOn own replica

section Histories

variable {settings : ConflictSettings} {own : String → Prop} {past past' : History} {key : Nat}
  {staged : Staged} {replica : Replica}

theorem History.Accounts.extend (h : past.Accounts settings own key staged replica)
    (hmore : past.Extends past') : past'.Accounts settings own key staged replica := by
  obtain ⟨hle, before, copy, hbefore, hproduced, hsame⟩ := h
  rw [Accounts, hmore.start, hmore.first, hmore.dropped]
  exact ⟨hle, before, copy, hbefore.mono hmore.sent,
    hproduced.mono hmore.sent hmore.resent hmore.told, hsame⟩

/-- Nothing came since the source had the copy discarded. -/
theorem History.accounts_start (key : Nat) (hstart : past.start = key + 1) (hfirst : past.first = key + 1) :
    past.Accounts settings own key [] past.dropped := by
  refine ⟨by omega, [], past.dropped, ?_, .start hfirst, .refl own _⟩
  rw [hstart, hfirst]
  exact .nil rfl

/-- The source goes on behind what it confirmed when another one had the copy discarded. -/
theorem History.Accounts.goOn (h : past.Accounts settings own key staged replica)
    (hstart : past'.start = past.start) (hfirst : past'.first = key + 1) (hsent : past'.sent = past.sent) :
    past'.Accounts settings own key staged past'.dropped := by
  obtain ⟨⟨hpos, hle⟩, before, copy, hbefore, hproduced, -⟩ := h
  obtain ⟨ps, hps, hstaged⟩ := hproduced.packets
  have hreach := hproduced.le
  have hps' : EachOnce past.sent (past.first - 1 + 1) key ps := by
    rw [show past.first - 1 + 1 = past.first by omega]
    exact hps
  have hall : EachOnce past.sent past.start key (before ++ ps) :=
    hbefore.append hps' (by omega) (by omega)
  refine ⟨by omega, before ++ ps, past'.dropped, ?_, ?_, .refl own _⟩
  · rw [hstart, hfirst, hsent]
    exact hall
  · have hstaged' : staged = Packet.stagedBy (before ++ ps) [] := by
      rw [Packet.stagedBy, List.foldl_append]
      exact hstaged
    rw [← hstaged']
    exact .start hfirst

/-- Other sources work on the copy. -/
theorem History.Accounts.told_on (h : past.Accounts settings own key staged replica)
    {replica' : Replica} {ds : List TypeDescriptor} (hds : ∀ d ∈ ds, past.told d)
    (hworked : (replica.informed ds).SameOn own replica') :
    past.Accounts settings own key staged replica' := by
  obtain ⟨hle, before, copy, hbefore, hproduced, hsame⟩ := h
  obtain ⟨copy', hproduced', hsame'⟩ := hproduced.told_on hsame hds hworked
  exact ⟨hle, before, copy', hbefore, hproduced', hsame'⟩

/-- The source works on the copy. -/
theorem History.upheld (settings : ConflictSettings) (own : String → Prop) (past : History) :
    Upheld settings (· ∈ past.sent) past.resent fun key w =>
      past.Accounts settings own key w.staged w.replica := by
  constructor
  · rintro key w w' p hp hkey ⟨hle, before, copy, hbefore, hproduced⟩ happlies
    obtain ⟨copy', hproduced'⟩ := (Produced.upheld settings past.sent past.resent past.told past.first
      (Packet.stagedBy before [], past.dropped) own).next hp hkey ⟨copy, hproduced⟩ happlies
    exact ⟨hle, before, copy', hbefore, hproduced'⟩
  · rintro hresent key w w' p hp hle' hplain ⟨hle, before, copy, hbefore, hproduced⟩ happlies
    obtain ⟨copy', hproduced'⟩ := (Produced.upheld settings past.sent past.resent past.told past.first
      (Packet.stagedBy before [], past.dropped) own).again hresent hp hle' hplain ⟨copy, hproduced⟩ happlies
    exact ⟨hle, before, copy', hbefore, hproduced'⟩

end Histories

/-! ## What a signal adds to a history -/

namespace Reception

section Signals

variable {source : String} {r : Reception Replica} {signal : Signal}

/-- The receipt of the signal that comes next. -/
def receipt (r : Reception Replica) (signal : Signal) : Receipt Replica := ⟨r.connections, signal⟩

/-- A signal that does not discard the copy. -/
theorem history_kept (source : String) (initial : Replica)
    (h : (r.receipt signal).discardedTo? Replica.applier = none) :
    ((r.step Replica.applier signal).history source initial).start = (r.history source initial).start ∧
      ((r.step Replica.applier signal).history source initial).first = (r.history source initial).first ∧
      ((r.step Replica.applier signal).history source initial).dropped
        = (r.history source initial).dropped ∧
      ((r.step Replica.applier signal).history source initial).sent
        = (r.receipt signal).packetsOf source ++ (r.history source initial).sent ∧
      (((r.step Replica.applier signal).history source initial).resent ↔
        (r.receipt signal).Resends source ∨ (r.history source initial).resent) ∧
      ∀ d, ((r.step Replica.applier signal).history source initial).told d ↔
        (r.receipt signal).Tells source d ∨ (r.history source initial).told d := by
  have hstarts : (r.receipt signal).startsOver? source = none := by rw [Receipt.startsOver?, h, ite_self]
  have hgoes : (r.receipt signal).goesOnAt? source = none := by rw [Receipt.goesOnAt?, h]; rfl
  have hdropped : (r.receipt signal).dropped? = none := by rw [Receipt.dropped?, h]; rfl
  have hreceipts : (r.step Replica.applier signal).receipts = r.receipt signal :: r.receipts := rfl
  simp only [history, hreceipts, List.findSome?_cons, List.takeWhile_cons, hstarts, hgoes, hdropped, h,
    Option.isNone_none, if_true, List.flatMap_cons, List.mem_cons, exists_eq_or_imp, true_and, implies_true]

/-- What came since is more. -/
theorem history_extends (source : String) (initial : Replica)
    (h : (r.receipt signal).discardedTo? Replica.applier = none) :
    (r.history source initial).Extends ((r.step Replica.applier signal).history source initial) := by
  obtain ⟨hstart, hfirst, hdropped, hsent, hresent, htold⟩ := history_kept source initial h
  refine ⟨hstart, hfirst, hdropped, fun p hp => ?_, fun hbefore => hresent.2 (.inr hbefore),
    fun d hbefore => (htold d).2 (.inr hbefore)⟩
  rw [hsent]
  exact List.mem_append_right _ hp

/-- A handshake of the source that discards the copy. -/
theorem history_startsOver (initial : Replica) {key : Nat}
    (h : (r.receipt signal).discardedTo? Replica.applier = some key)
    (hown : (r.receipt signal).source? = some source) :
    ((r.step Replica.applier signal).history source initial).start = key ∧
      ((r.step Replica.applier signal).history source initial).first = key ∧
      ((r.step Replica.applier signal).history source initial).dropped
        = r.connections.group.replica.clear := by
  have hreceipts : (r.step Replica.applier signal).receipts = r.receipt signal :: r.receipts := rfl
  simp only [history, hreceipts, List.findSome?_cons, Receipt.startsOver?, Receipt.goesOnAt?,
    Receipt.dropped?, h, hown, if_true, Option.map_some, Option.getD_some]
  exact ⟨trivial, trivial, rfl⟩

/-- A handshake of another source that discards the copy. -/
theorem history_goesOn (initial : Replica) {key : Nat}
    (h : (r.receipt signal).discardedTo? Replica.applier = some key)
    (hother : (r.receipt signal).source? ≠ some source) :
    ((r.step Replica.applier signal).history source initial).start = (r.history source initial).start ∧
      ((r.step Replica.applier signal).history source initial).first
        = (r.connections.group.channelFor source).lastConfirmed + 1 ∧
      ((r.step Replica.applier signal).history source initial).sent = (r.history source initial).sent ∧
      ((r.step Replica.applier signal).history source initial).dropped
        = r.connections.group.replica.clear := by
  have hreceipts : (r.step Replica.applier signal).receipts = r.receipt signal :: r.receipts := rfl
  have hstarts : (r.receipt signal).startsOver? source = none := if_neg hother
  refine ⟨?_, ?_, ?_, ?_⟩
  · simp only [history, hreceipts, List.findSome?_cons, hstarts]
  · simp only [history, hreceipts, List.findSome?_cons, Receipt.goesOnAt?, h, Option.map_some,
      Option.getD_some, if_neg hother]
    rfl
  · simp only [history, hreceipts]
    rw [List.takeWhile_cons_of_pos (by rw [hstarts]; rfl), List.flatMap_cons, Receipt.packetsOf,
      if_neg hother]
    rfl
  · simp only [history, hreceipts, List.findSome?_cons, Receipt.dropped?, h, Option.map_some,
      Option.getD_some]
    rfl

/-- Only a handshake of another source interrupts delivery. -/
theorem history_first (initial : Replica)
    (h : ∀ x ∈ r.receipts, x.source? ≠ some source → x.discardedTo? Replica.applier = none) :
    (r.history source initial).first = (r.history source initial).start := by
  have hsame : r.receipts.findSome? (·.goesOnAt? source) = r.receipts.findSome? (·.startsOver? source) := by
    generalize r.receipts = xs at h
    induction xs with
    | nil => rfl
    | cons x xs ih =>
      simp only [List.findSome?_cons, Receipt.goesOnAt?_eq_startsOver? (h x (List.mem_cons_self ..)),
        ih fun y hy => h y (List.mem_cons_of_mem _ hy)]
  exact congrArg (·.getD 1) hsame

/-- A copy that was discarded is left without entries. -/
theorem history_dropped (initial : Replica) (h : ∃ x ∈ r.receipts, x.discardedTo? Replica.applier ≠ none) :
    (r.history source initial).dropped.entries = [] := by
  obtain ⟨x, hx, hdiscarded⟩ := h
  have hsome : (r.receipts.findSome? (·.dropped?)).isSome = true := by
    refine List.findSome?_isSome_iff.2 ⟨x, hx, ?_⟩
    rw [Receipt.dropped?, Option.isSome_map]
    exact Option.isSome_iff_ne_none.2 hdiscarded
  obtain ⟨copy, hcopy⟩ := Option.isSome_iff_exists.1 hsome
  obtain ⟨y, -, hy⟩ := List.exists_of_findSome?_eq_some hcopy
  obtain ⟨key, -, rfl⟩ := Option.map_eq_some_iff.1 hy
  show ((r.receipts.findSome? (·.dropped?)).getD initial).entries = []
  rw [hcopy]
  rfl

end Signals

/-! ## What every signal preserves -/

/-- The channel with this name is exact. Unless it is that of the source, all that it holds back and has
staged is on other uids. -/
structure KeptApart (source : String) (own : String → Prop) (settings : ConflictSettings) (name : String)
    (c : TargetChannel) : Prop where
  exact : c.Exact
  configured : c.settings = settings
  held : name ≠ source → c.Holds (·.Apart own)
  staged : name ≠ source → Staged.Apart own c.staged

/-- The channels of a group over a copy in memory, and what a source has on the copy. -/
structure Isolated (source : String) (own : String → Prop) (settings : ConflictSettings)
    (initial : Replica) (r : Reception Replica) : Prop where
  bound : r.connections.Bound
  policy : r.connections.group.attachPolicy = .multiSource
  channels : ∀ name, KeptApart source own settings name (r.connections.group.channelFor name)
  held : (r.connections.group.channelFor source).Holds (· ∈ (r.history source initial).sent)
  accounts : (r.history source initial).Accounts settings own
    (r.connections.group.channelFor source).lastConfirmed
    (r.connections.group.channelFor source).staged r.connections.group.replica

section Steps

variable {source name : String} {own : String → Prop} {settings : ConflictSettings} {initial : Replica}
  {r : Reception Replica} {signal : Signal} {c c' : TargetChannel}

theorem KeptApart.pauses (h : KeptApart source own settings name c) (hpauses : c.Pauses c') :
    KeptApart source own settings name c' :=
  ⟨hpauses.exact h.exact, hpauses.settings.trans h.configured, fun hname => hpauses.holds (h.held hname),
    fun hname => hpauses.staged ▸ h.staged hname⟩

/-- A channel that has nothing held back or staged. -/
theorem KeptApart.of_settled (hsettled : c.Settled) (hsettings : c.settings = settings)
    (hstaged : c.staged = []) : KeptApart source own settings name c :=
  ⟨hsettled.exact, hsettings, fun _ => hsettled.holds _, fun _ => by
    rw [hstaged]
    exact fun _ _ hops => (nomatch hops)⟩

theorem isolated_start (members : Membership) (settings : ConflictSettings) (initial : Replica)
    (source : String) (own : String → Prop) :
    (start (.new members .multiSource settings initial)).Isolated source own settings initial where
  bound := .start members .multiSource settings initial
  policy := rfl
  channels name := .of_settled (TargetChannel.settled_fresh members.name name settings) rfl rfl
  held := (TargetChannel.settled_fresh members.name source settings).holds _
  accounts := History.accounts_start 0 rfl rfl

/-- The channels are kept apart if that of one source is and the others are as they were. -/
theorem Isolated.channels_of (h : r.Isolated source own settings initial) {g : TargetGroup Replica}
    (hname : KeptApart source own settings name (g.channelFor name))
    (hothers : ∀ other, other ≠ name → g.channelFor other = r.connections.group.channelFor other)
    (other : String) : KeptApart source own settings other (g.channelFor other) := by
  by_cases hother : other = name
  · rw [hother]
    exact hname
  · rw [hothers other hother]
    exact h.channels other

/-- The packets of the source itself. -/
theorem Isolated.consumes_own (h : r.Isolated source own settings initial) {result : Except Error Nat}
    {r' : Receiver Replica} (hkept : (r.receipt signal).discardedTo? Replica.applier = none)
    (hcomes : (r.receipt signal).source? = some source)
    (hdone : (Receiver.consumeBatch Replica.applier (r.receipt signal).packets).perform
      (r.connections.group.receiverOf (r.connections.group.channelFor source)) = (result, r')) :
    r'.Meets settings (· ∈ ((r.step Replica.applier signal).history source initial).sent) fun key w =>
      ((r.step Replica.applier signal).history source initial).Accounts settings own key w.staged
        w.replica := by
  obtain ⟨-, -, -, hsent, hresent, -⟩ := history_kept source initial hkept
  have hmore := history_extends source initial hkept
  have hcame : ∀ p ∈ (r.receipt signal).packets,
      p ∈ ((r.step Replica.applier signal).history source initial).sent := by
    intro p hp
    rw [hsent, Receipt.packetsOf, if_pos hcomes]
    exact List.mem_append_left _ hp
  have hfresh : ((r.step Replica.applier signal).history source initial).resent ∨
      ((r.connections.group.channelFor source).lastConfirmed
        :: (r.receipt signal).packets.map (·.key)).Pairwise (· < ·) := by
    rw [or_iff_not_imp_right]
    exact fun hagain => hresent.2 (.inl ⟨hcomes, hagain⟩)
  have hmeets : (r.connections.group.receiverOf (r.connections.group.channelFor source)).Meets settings
      (· ∈ ((r.step Replica.applier signal).history source initial).sent) fun key w =>
        ((r.step Replica.applier signal).history source initial).Accounts settings own key w.staged
          w.replica :=
    ⟨(h.channels source).configured, (h.channels source).exact, h.held.mono hmore.sent,
      h.accounts.extend hmore⟩
  obtain ⟨result', r'', hdone', -, hmeets'⟩ :=
    hmeets.consumeBatch (History.upheld settings own _) hcame hfresh
  cases hdone.symm.trans hdone'
  exact hmeets'

/-- The packets of another source. -/
theorem Isolated.consumes_other (h : r.Isolated source own settings initial) (hname : name ≠ source)
    {result : Except Error Nat} {r' : Receiver Replica}
    (hkept : (r.receipt signal).discardedTo? Replica.applier = none)
    (hcomes : (r.receipt signal).source? = some name)
    (hapart : ∀ p ∈ (r.receipt signal).packets, p.Apart own)
    (hdone : (Receiver.consumeBatch Replica.applier (r.receipt signal).packets).perform
      (r.connections.group.receiverOf (r.connections.group.channelFor name)) = (result, r')) :
    r'.Meets settings (·.Apart own) fun _ w => Staged.Apart own w.staged ∧
      ∃ ds, (∀ d ∈ ds, ((r.step Replica.applier signal).history source initial).told d) ∧
        (r.connections.group.replica.informed ds).SameOn own w.replica := by
  obtain ⟨-, -, -, -, -, htells⟩ := history_kept source initial hkept
  have hother : (r.receipt signal).source? ≠ some source := by
    rw [hcomes]
    exact fun heq => hname (Option.some.inj heq)
  have htold : ∀ p ∈ (r.receipt signal).packets, ∀ d, p.payload = .typeIntroduce d →
      ((r.step Replica.applier signal).history source initial).told d :=
    fun p hp d hd => (htells d).2 (.inl ⟨hother, p, hp, hd⟩)
  have hchannel := h.channels name
  have hmeets : (r.connections.group.receiverOf (r.connections.group.channelFor name)).Meets settings
      (fun p => p.Apart own ∧ ∀ d, p.payload = .typeIntroduce d →
        ((r.step Replica.applier signal).history source initial).told d)
      (fun _ w => Staged.Apart own w.staged ∧
        ∃ ds, (∀ d ∈ ds, ((r.step Replica.applier signal).history source initial).told d) ∧
          (r.connections.group.replica.informed ds).SameOn own w.replica) :=
    ⟨hchannel.configured, hchannel.exact, fun bulk hbulk p hp => ⟨hchannel.held hname bulk hbulk p hp,
      fun d hd => absurd hd (hchannel.exact.held_plain bulk hbulk p hp d)⟩, hchannel.staged hname,
      [], fun _ hd => (nomatch hd), .refl own _⟩
  obtain ⟨result', r'', hdone', -, hmeets'⟩ := hmeets.consumeBatch (upheld_apart settings own _ _)
    (fun p hp => ⟨hapart p hp, htold p hp⟩) (.inl trivial)
  cases hdone.symm.trans hdone'
  exact ⟨hmeets'.settings, hmeets'.exact, hmeets'.held.mono fun _ hp => hp.1, hmeets'.tells⟩

theorem Isolated.step (h : r.Isolated source own settings initial)
    (hapart : ∀ other, (r.receipt signal).source? = some other → other ≠ source →
      ∀ p ∈ (r.receipt signal).packets, p.Apart own) :
    (r.step Replica.applier signal).Isolated source own settings initial := by
  obtain ⟨hbound, hfollows⟩ := h.bound.receive (A := Replica.applier) signal
  have hpolicy := hfollows.policy.trans h.policy
  have hworks : (r.receipt signal).Works (r.step Replica.applier signal).connections.group :=
    (r.receipt signal).works h.bound h.policy fun name => (h.channels name).exact
  cases hworks with
  | pauses hkept hreplica hchannels =>
    have hmore := history_extends source initial hkept
    refine ⟨hbound, hpolicy, fun name => (h.channels name).pauses (hchannels name),
      ((hchannels source).holds h.held).mono hmore.sent, ?_⟩
    rw [(hchannels source).confirmed, (hchannels source).staged, hreplica]
    exact h.accounts.extend hmore
  | @consumes name result r' hkept hcomes hdone hreplica hchannel hothers =>
    by_cases hname : name = source
    · subst hname
      have hmeets := h.consumes_own hkept hcomes hdone
      have hfits : KeptApart name own settings name r'.channel :=
        ⟨hmeets.exact, hmeets.settings, fun hne => absurd rfl hne, fun hne => absurd rfl hne⟩
      refine ⟨hbound, hpolicy, h.channels_of (hfits.pauses hchannel) hothers,
        hchannel.holds hmeets.held, ?_⟩
      rw [hchannel.confirmed, hchannel.staged, hreplica]
      exact hmeets.tells
    · have hmore := history_extends source initial hkept
      have hmeets := h.consumes_other hname hkept hcomes (hapart name hcomes hname) hdone
      obtain ⟨hstaged, ds, hds, hsame⟩ := hmeets.tells
      have hfits : KeptApart source own settings name r'.channel :=
        ⟨hmeets.exact, hmeets.settings, fun _ => hmeets.held, fun _ => hstaged⟩
      refine ⟨hbound, hpolicy, h.channels_of (hfits.pauses hchannel) hothers, ?_, ?_⟩
      · rw [hothers source (Ne.symm hname)]
        exact h.held.mono hmore.sent
      · rw [hothers source (Ne.symm hname), hreplica]
        exact (h.accounts.extend hmore).told_on hds hsame
  | @discards name key hdiscarded hcomes hpos hreplica hsettings hstaged hconfirmed hsettled hothers =>
    have hfits : KeptApart source own settings name
        ((r.step Replica.applier signal).connections.group.channelFor name) :=
      .of_settled hsettled (hsettings.trans (h.channels name).configured) hstaged
    have hchannels := h.channels_of hfits hothers
    by_cases hname : name = source
    · subst hname
      obtain ⟨hstart, hfirst, hdropped⟩ := history_startsOver initial hdiscarded hcomes
      refine ⟨hbound, hpolicy, hchannels, hsettled.holds _, ?_⟩
      rw [hconfirmed, hstaged, hreplica]
      exact hdropped ▸ History.accounts_start _ (by omega) (by omega)
    · obtain ⟨hstart, hfirst, hsent, hdropped⟩ := history_goesOn initial hdiscarded
        (by rw [hcomes]; exact fun heq => hname (Option.some.inj heq))
      refine ⟨hbound, hpolicy, hchannels, ?_, ?_⟩
      · rw [hothers source (Ne.symm hname), hsent]
        exact h.held
      · rw [hothers source (Ne.symm hname), hreplica]
        exact hdropped ▸ h.accounts.goOn hstart hfirst hsent

/-- What every signal keeps holds after any of them. -/
theorem Isolated.steps (h : r.Isolated source own settings initial) (signals : List Signal)
    (hapart : ∀ x ∈ (r.steps Replica.applier signals).receipts, ∀ other, x.source? = some other →
      other ≠ source → ∀ p ∈ x.packets, p.Apart own) :
    (r.steps Replica.applier signals).Isolated source own settings initial := by
  induction signals generalizing r with
  | nil => exact h
  | cons signal signals ih =>
    have hfirst : r.receipt signal ∈ (r.steps Replica.applier (signal :: signals)).receipts :=
      (receipts_steps (r := r.step Replica.applier signal) signals).subset (List.mem_cons_self ..)
    exact ih (h.step (hapart _ hfirst)) hapart

end Steps

/-- Over any connections, by any signals, if other sources operate on other uids: under its uids a source has
what its own packets from the start of delivery on, one for each key up to the confirmed one, make of the
copy as it was left when it was last discarded. Those that were confirmed before it was count only for what
they staged. What is not accounted for by one packet for each key comes of packets that the source sent
again, or of types that others introduced if types are required. If no other source discards the copy,
delivery of the source was not interrupted. -/
theorem source_isolated (members : Membership) (settings : ConflictSettings) (initial : Replica)
    (signals : List Signal) (source : String) (own : String → Prop) :
    let r := (start (.new members .multiSource settings initial)).steps Replica.applier signals
    let c := r.connections.group.channelFor source
    let past := r.history source initial
    (∀ x ∈ r.receipts, ∀ other, x.source? = some other → other ≠ source →
      ∀ p ∈ x.packets, p.Apart own) →
    (past.start ≤ past.first ∧ past.first ≤ c.lastConfirmed + 1) ∧
    (∃ before copy, EachOnce past.sent past.start (past.first - 1) before ∧
      Produced settings past.sent past.resent past.told past.first
        (Packet.stagedBy before [], past.dropped) c.lastConfirmed (c.staged, copy) ∧
      ∀ uid, own uid → r.connections.group.replica.entry? uid = copy.entry? uid) ∧
    (¬ past.resent → (past.dropped.requireTypes = true → ∀ d, ¬ past.told d) →
      ∃ before after, EachOnce past.sent past.start (past.first - 1) before ∧
        EachOnce past.sent past.first c.lastConfirmed after ∧
        ∀ uid, own uid → r.connections.group.replica.entry? uid
          = Replica.entry? (after.foldl (fun w p => p.settle Replica.applier settings w)
              (Packet.stagedBy before [], past.dropped)).2 uid) ∧
    ((∀ x ∈ r.receipts, x.source? ≠ some source → x.discardedTo? Replica.applier = none) →
      past.first = past.start) ∧
    ((∃ x ∈ r.receipts, x.discardedTo? Replica.applier ≠ none) → past.dropped.entries = []) := by
  intro r c past hapart
  have hisolated : r.Isolated source own settings initial :=
    (isolated_start members settings initial source own).steps signals hapart
  obtain ⟨⟨-, hle⟩, before, copy, hbefore, hproduced, hsame⟩ := hisolated.accounts
  refine ⟨⟨hle, hproduced.le⟩, ⟨before, copy, hbefore, hproduced, hsame.entries⟩, fun hresent htold => ?_,
    history_first initial, history_dropped initial⟩
  obtain ⟨after, hafter, hall⟩ := hproduced.exact hresent htold
  refine ⟨before, after, hbefore, hafter, fun uid huid => ?_⟩
  rw [← hall]
  exact hsame.entries uid huid

/-- Both sources deliver, and the backup has the copy discarded when the primary has confirmed a packet. -/
def interrupted : List Signal :=
  [.frame 0 (.connect "primary" "orders"), .frame 0 (.handshakeReply ⟨1, true, none⟩),
    .frame 0 (writeAt 1 "a"), .frame 1 (.connect "backup" "orders"),
    .frame 1 (.handshakeReply ⟨1, true, none⟩), .frame 1 (writeAt 1 "b"), .frame 0 (writeAt 2 "c")]

/-- What the primary has is what its second packet makes of an empty copy. -/
theorem source_isolated_interrupted :
    let r := (start (.new (.openTo "orders") .multiSource .standard (.empty false))).steps
      Replica.applier interrupted
    let past := r.history "primary" (.empty false)
    past.start = 1 ∧ past.first = 2 ∧ ¬ past.resent ∧ past.dropped.entries = [] ∧
      ∃ before after, EachOnce past.sent 1 1 before ∧ EachOnce past.sent 2 2 after ∧
        ∀ uid, uid ≠ "b" → r.connections.group.replica.entry? uid
          = Replica.entry? (after.foldl (fun w p => p.settle Replica.applier .standard w)
              (Packet.stagedBy before [], past.dropped)).2 uid := by
  intro r past
  have hforeign : r.receipts.all (fun x => x.source? == some "primary" ||
      x.packets.all fun p => p.payload.operations.all fun op => op.uid == "b") = true := by
    decide +kernel
  have hapart : ∀ x ∈ r.receipts, ∀ other, x.source? = some other → other ≠ "primary" →
      ∀ p ∈ x.packets, p.Apart fun uid => uid ≠ "b" := by
    intro x hx other hcomes hother p hp op hop
    have hcase := List.all_eq_true.1 hforeign x hx
    rw [hcomes, Bool.or_eq_true, beq_iff_eq, Option.some.injEq] at hcase
    have huids := List.all_eq_true.1 (hcase.resolve_left hother) p hp
    exact not_not_intro (beq_iff_eq.1 (List.all_eq_true.1 huids op hop))
  obtain ⟨-, -, hexact, -⟩ := source_isolated (.openTo "orders") .standard (.empty false)
    interrupted "primary" (fun uid => uid ≠ "b") hapart
  have hstart : past.start = 1 := by decide +kernel
  have hfirst : past.first = 2 := by decide +kernel
  have hconfirmed : (r.connections.group.channelFor "primary").lastConfirmed = 2 := by decide +kernel
  have hresent : ¬ past.resent := by
    show ¬ ∃ x ∈ r.receipts.takeWhile fun x => (x.discardedTo? Replica.applier).isNone,
      x.source? = some "primary" ∧ ¬ ((x.before.group.channelFor "primary").lastConfirmed
        :: x.packets.map (·.key)).Pairwise (· < ·)
    decide +kernel
  have hfree : past.dropped.requireTypes ≠ true := by decide +kernel
  obtain ⟨before, after, hbefore, hafter, hentries⟩ :=
    hexact hresent fun hrequired => absurd hrequired hfree
  rw [hstart, hfirst] at hbefore
  rw [hfirst, hconfirmed] at hafter
  exact ⟨hstart, hfirst, hresent, by decide +kernel, before, after, hbefore, hafter, hentries⟩

/-- The entries of a source are not always what its own packets up to the confirmed key make of an empty
copy. The backup can have them discarded. The primary can write again what it took. And if types are
required, the backup can make a write of the primary possible. -/
theorem source_not_isolated :
    let write : Packet := ⟨1, 1, false, false, .entry (.write ⟨"Order", "a", 1, [], none⟩)⟩
    let take : Packet := ⟨2, 1, false, false, .entry (.take ⟨"Order", "a", 1, [], none⟩)⟩
    let introduce : Packet := ⟨1, 1, false, false, .typeIntroduce ⟨"Order", none, []⟩⟩
    let connected : List Signal :=
      [.frame 0 (.connect "primary" "orders"), .frame 0 (.handshakeReply ⟨1, true, none⟩),
        .frame 1 (.connect "backup" "orders")]
    let after (requireTypes : Bool) (signals : List Signal) : Reception Replica :=
      (start (.new (.openTo "orders") .multiSource .standard (.empty requireTypes))).steps
        Replica.applier (connected ++ signals)
    let seen (requireTypes : Bool) (signals : List Signal) : Bool × Nat × Nat :=
      (( Replica.entry? (after requireTypes signals).connections.group.replica "a").isSome,
        ((after requireTypes signals).history "primary" (.empty requireTypes)).start,
        ((after requireTypes signals).connections.group.channelFor "primary").lastConfirmed)
    let made (requireTypes : Bool) (ps : List Packet) : Bool :=
      ( Replica.entry? (consumed Replica.applier .standard ps (.empty requireTypes)).2 "a").isSome
    seen false [.frame 0 (.packet write), .frame 1 (.handshakeReply ⟨1, true, none⟩)] = (false, 1, 1) ∧
      made false [write] = true ∧
    seen false [.frame 0 (.packet write), .frame 0 (.packet take), .frame 0 (.packet write)] = (true, 1, 2) ∧
      made false [write, take] = false ∧
    seen true [.frame 1 (.handshakeReply ⟨1, false, none⟩), .frame 1 (.packet introduce),
        .frame 0 (.packet write)] = (true, 1, 1) ∧
      made true [write] = false := by
  decide +kernel

end Reception

end GroupReplication
