/-
All that each operation of a backlog can do, over a log that holds known packets.
-/
import GroupReplication.Proofs.Backlog.Run

namespace GroupReplication

namespace SourceChannel

theorem afterDiscard_nil (c : SourceChannel) : c.afterDiscard [] = c := rfl

/-- A channel that had confirmed all that was discarded does not notice. -/
theorem afterDiscard_of_confirmed {c : SourceChannel} {removed : List Packet}
    (h : ∀ p ∈ removed, p.key ≤ c.lastConfirmed) : c.afterDiscard removed = c := by
  have hlost : removed.filter (c.lastConfirmed < ·.key) = [] :=
    List.filter_eq_nil_iff.2 fun p hp => by
      have := h p hp
      simp
      omega
  rw [afterDiscard, hlost]

/-- What a channel is left with that had not confirmed all that was discarded. -/
theorem afterDiscard_of_lost {c : SourceChannel} {removed : List Packet} {p last : Packet}
    (hp : p ∈ removed) (hlost : c.lastConfirmed < p.key) (hlast : removed.getLast? = some last) :
    c.afterDiscard removed
      = { pruneDiscarded last.key { c with
            confirmation := c.confirmation.discard (removed.filter (c.lastConfirmed < ·.key)).length
              (Packet.totalWeight (removed.filter (c.lastConfirmed < ·.key))) } with
          resyncRequired := true } := by
  have hmem : p ∈ removed.filter (c.lastConfirmed < ·.key) := by simp [hp, hlost]
  rw [afterDiscard, hlast]
  cases hcase : removed.filter (c.lastConfirmed < ·.key) with
  | nil =>
    rw [hcase] at hmem
    cases hmem
  | cons q qs => rfl

/-- A channel that had not has to start over. -/
theorem resyncRequired_afterDiscard {c : SourceChannel} {removed : List Packet} {p : Packet}
    (hp : p ∈ removed) (hlost : c.lastConfirmed < p.key) :
    (c.afterDiscard removed).resyncRequired = true := by
  obtain ⟨last, hlast⟩ := Option.ne_none_iff_exists'.1
    (mt List.getLast?_eq_none_iff.1 (List.ne_nil_of_mem hp))
  rw [afterDiscard_of_lost hp hlost hlast]

theorem afterDiscard_cases (c : SourceChannel) (removed : List Packet) :
    c.afterDiscard removed = c ∨ (c.afterDiscard removed).resyncRequired = true := by
  by_cases h : ∀ p ∈ removed, p.key ≤ c.lastConfirmed
  · exact .inl (afterDiscard_of_confirmed h)
  · simp only [Classical.not_forall, Nat.not_le] at h
    obtain ⟨p, hp, hlost⟩ := h
    exact .inr (resyncRequired_afterDiscard hp hlost)

/-- What a discard leaves alone in any case. -/
theorem afterDiscard_keeps (c : SourceChannel) (removed : List Packet) :
    (c.afterDiscard removed).accumulator.maxSize = c.accumulator.maxSize ∧
      (c.afterDiscard removed).lastConfirmed = c.lastConfirmed := by
  simp only [afterDiscard]
  constructor <;> split <;> rfl

theorem state_afterDiscard (c : SourceChannel) (removed : List Packet) :
    (c.afterDiscard removed).state = c.state := by
  simp only [afterDiscard]
  split <;> rfl

theorem state_afterAdd (now : Nat) (p : Packet) (c : SourceChannel) :
    (c.afterAdd now p).state = c.state := by
  simp only [afterAdd]
  split <;> rfl

/-- A confirmation only moves a channel on. -/
theorem lastConfirmed_confirm (key : Nat) (c : SourceChannel) :
    c.lastConfirmed ≤ (c.confirm key).lastConfirmed := by
  show _ ≤ (c.confirmation.advance key).lastConfirmed
  rw [Confirmation.lastConfirmed_advance]
  exact Nat.le_max_left ..

end SourceChannel

theorem Confirmation.lastConfirmed_pin (key : Nat) (error : Error) (c : Confirmation) :
    (c.pin key error).lastConfirmed = c.lastConfirmed := by
  unfold pin
  split <;> rfl

theorem Confirmation.weight_advance (key : Nat) (c : Confirmation) :
    (c.advance key).weight = c.weight := by
  unfold advance
  split <;> rfl

theorem Confirmation.weight_pin (key : Nat) (error : Error) (c : Confirmation) :
    (c.pin key error).weight = c.weight := by
  unfold pin
  split <;> rfl

theorem Confirmation.discarded_advance (key : Nat) (c : Confirmation) :
    (c.advance key).discarded = c.discarded := by
  unfold advance
  split <;> rfl

theorem Confirmation.discarded_pin (key : Nat) (error : Error) (c : Confirmation) :
    (c.pin key error).discarded = c.discarded := by
  unfold pin
  split <;> rfl

/-- What a channel is left in by every call: delivering, or waiting for a handshake. -/
def ChannelState.AtRest (s : ChannelState) : Prop := s = .active ∨ s = .disconnected

namespace Backlog

open GroupReplication.Action

variable {b : Backlog} {ps : List Packet}

@[simp] theorem perform_onLog {α : Type} (act : Action PacketLog α) (b : Backlog) :
    (onLog act).perform b = ((act.perform b.log).1, { b with log := (act.perform b.log).2 }) := rfl

@[simp] theorem perform_setChannel (target : String) (c : SourceChannel) (b : Backlog) :
    (setChannel target c).perform b =
      (.ok (), { b with channels := b.channels.insert target c }) := rfl

/-- The backlog with another channel for a target. -/
def withChannel (target : String) (c : SourceChannel) (b : Backlog) : Backlog :=
  { b with channels := b.channels.insert target c }

@[simp] theorem settings_withChannel (target : String) (c : SourceChannel) (b : Backlog) :
    (b.withChannel target c).settings = b.settings := rfl

@[simp] theorem nextKey_withChannel (target : String) (c : SourceChannel) (b : Backlog) :
    (b.withChannel target c).nextKey = b.nextKey := rfl

@[simp] theorem channel?_withChannel_self (target : String) (c : SourceChannel) (b : Backlog) :
    (b.withChannel target c).channel? target = some c := Table.get?_insert_self _ _ _

theorem channel?_withChannel_other {target other : String} (h : other ≠ target)
    (c : SourceChannel) (b : Backlog) :
    (b.withChannel target c).channel? other = b.channel? other := Table.get?_insert_other _ _ h

theorem perform_channelOf_some {target : String} {c : SourceChannel}
    (h : b.channel? target = some c) : (channelOf target).perform b = (.ok c, b) := by
  rw [channelOf, perform_get_bind, h]
  rfl

theorem perform_channelOf_none {target : String} (h : b.channel? target = none) :
    (channelOf target).perform b = (.error (.channel (.notRegistered target b.group)), b) := by
  rw [channelOf, perform_get_bind, h]
  rfl

/-! ## Adding -/

/-- The backlog after the packets `removed` were discarded from its log. -/
def discarded (b : Backlog) (removed : List Packet) (log : PacketLog) : Backlog :=
  { b with log, channels := b.channels.mapValues (·.afterDiscard removed) }

theorem discarded_nil (b : Backlog) : b.discarded [] b.log = b := by
  have hchannels : b.channels.mapValues (·.afterDiscard []) = b.channels := by
    simp [Table.mapValues, SourceChannel.afterDiscard_nil]
  rw [discarded, hchannels]

theorem channel?_discarded (b : Backlog) (removed : List Packet) (log : PacketLog)
    (target : String) : (b.discarded removed log).channel? target
      = (b.channel? target).map (·.afterDiscard removed) := Table.get?_mapValues _ _ _

/-- The backlog after `p` came into its log. -/
def extended (b : Backlog) (p : Packet) (log : PacketLog) : Backlog :=
  { b with log, nextKey := p.key + 1, channels := b.channels.mapValues (·.afterAdd b.now p) }

theorem channel?_extended (b : Backlog) (p : Packet) (log : PacketLog) (target : String) :
    (b.extended p log).channel? target = (b.channel? target).map (·.afterAdd b.now p) :=
  Table.get?_mapValues _ _ _

theorem countToFree_pos {needed : Nat} (h : 0 < ps.length) : 0 < countToFree needed ps := by
  cases ps with
  | nil => cases h
  | cons p ps =>
    rw [countToFree]
    split <;> omega

theorem countToFree_le (needed : Nat) (ps : List Packet) : countToFree needed ps ≤ ps.length := by
  induction ps generalizing needed with
  | nil => exact Nat.le_refl 0
  | cons p ps ih =>
    rw [countToFree, List.length_cons]
    split
    · omega
    · have := ih (needed - p.weight)
      omega

/-- A packet of this weight comes in only after others were discarded for it. -/
structure MakesRoom (b : Backlog) (weight : Nat) : Prop where
  isOpen : b.log.isClosed = false
  discards : b.settings.fullPolicy = .discardOldest
  full : b.settings.maxWeight < b.log.weight + weight
  fits : weight ≤ b.settings.maxWeight

/-- There is something to discard then, as the packet alone is not too heavy. -/
theorem MakesRoom.length_pos {weight : Nat} (hroom : b.MakesRoom weight) (h : b.log.Holds ps) :
    0 < ps.length := by
  have hweight : b.log.weight = Packet.totalWeight ps :=
    congrArg LogView.weight (h.view_open hroom.isOpen)
  have hfull := hroom.full
  have hfits := hroom.fits
  cases ps with
  | nil =>
    rw [hweight, Packet.totalWeight] at hfull
    exact absurd hfull (by simpa using hfits)
  | cons p ps => exact Nat.succ_pos _

/-- The packets that go are as many as it takes. -/
theorem makeRoom_frees {weight : Nat} (hroom : b.MakesRoom weight) (h : b.log.Holds ps) :
    let n := countToFree (b.log.weight + weight - b.settings.maxWeight) ps
    ∃ log, b.log.TrimsTo (ps.drop n) log ∧
      (PacketLog.removeFirst n none).perform b.log = (.ok (ps.take n), log) ∧
      (makeRoom weight).perform b = (.ok (), b.discarded (ps.take n) log) := by
  obtain ⟨hopen, hpolicy, hfull, hfits⟩ := hroom
  generalize hneeded : b.log.weight + weight - b.settings.maxWeight = needed
  obtain ⟨log, hremove, hto⟩ := h.removeFirst hopen (countToFree needed ps)
  refine ⟨log, hto, hremove, ?_⟩
  have hdiscard : (onLog (PacketLog.removeFirst (countToFree needed ps) none) >>=
      fun removed => mapChannels (·.afterDiscard removed)).perform b
      = (.ok (), b.discarded (ps.take (countToFree needed ps)) log) := by
    rw [perform_bind_ok (by rw [perform_onLog, hremove])]
    rfl
  simp only [makeRoom, perform_get_bind, if_pos hfull, hpolicy, if_neg (Nat.not_lt.2 hfits), hneeded]
  rw [discardOldest, perform_get_bind, h.readAll hopen, perform_decided_ok_bind]
  simp only []
  by_cases hshort : Packet.totalWeight ps < needed
  · rw [if_pos hshort]
    exact hdiscard
  · rw [if_neg hshort]
    exact hdiscard

theorem makeRoom_discards {weight : Nat} (hroom : b.MakesRoom weight) (h : b.log.Holds ps) :
    ∃ n log, 0 < n ∧ n ≤ ps.length ∧ b.log.TrimsTo (ps.drop n) log ∧
      (PacketLog.removeFirst n none).perform b.log = (.ok (ps.take n), log) ∧
      (makeRoom weight).perform b = (.ok (), b.discarded (ps.take n) log) := by
  obtain ⟨log, hto, hremove, hmade⟩ := makeRoom_frees hroom h
  exact ⟨_, log, countToFree_pos (hroom.length_pos h), countToFree_le _ ps, hto, hremove, hmade⟩

/-- A packet that fits needs no room. -/
theorem makeRoom_idle {weight : Nat} (h : b.log.weight + weight ≤ b.settings.maxWeight) :
    (makeRoom weight).perform b = (.ok (), b) := by
  simp only [makeRoom, perform_get_bind, if_neg (Nat.not_lt.2 h)]
  rfl

/-- Where room is needed and cannot be made nothing changes. -/
theorem makeRoom_refuses {weight : Nat} (hfull : b.settings.maxWeight < b.log.weight + weight)
    (hnot : ¬ b.MakesRoom weight) : ∃ e, (makeRoom weight).perform b = (.error e, b) := by
  cases hpolicy : b.settings.fullPolicy with
  | reject =>
    refine ⟨.storageFull b.group (b.log.weight + weight) b.settings.maxWeight, ?_⟩
    simp only [makeRoom, perform_get_bind, if_pos hfull, hpolicy]
    exact perform_throw _ _
  | discardOldest =>
    by_cases hheavy : b.settings.maxWeight < weight
    · refine ⟨.storageFull b.group weight b.settings.maxWeight, ?_⟩
      simp only [makeRoom, perform_get_bind, if_pos hfull, hpolicy, if_pos hheavy]
      exact perform_throw_bind _ _ _
    · cases hopen : b.log.isClosed with
      | false => exact absurd ⟨hopen, hpolicy, hfull, Nat.le_of_not_lt hheavy⟩ hnot
      | true =>
        refine ⟨.storage (.closed b.log.name), ?_⟩
        simp only [makeRoom, perform_get_bind, if_pos hfull, hpolicy, if_neg hheavy]
        rw [discardOldest, perform_get_bind, PacketLog.readFrom_closed hopen none,
          perform_decided_error_bind]

theorem makeRoom_stays {weight : Nat} (hnot : ¬ b.MakesRoom weight) :
    ∃ r, (makeRoom weight).perform b = (r, b) := by
  by_cases hfull : b.settings.maxWeight < b.log.weight + weight
  · obtain ⟨e, he⟩ := makeRoom_refuses hfull hnot
    exact ⟨.error e, he⟩
  · exact ⟨.ok (), makeRoom_idle (Nat.le_of_not_lt hfull)⟩

/-- Making room discards packets from the head, or none; under the policy to reject none. -/
theorem makeRoom_spec (h : b.log.Holds ps) (weight : Nat) :
    ∃ r n log, (makeRoom weight).perform b = (r, b.discarded (ps.take n) log) ∧
      b.log.TrimsTo (ps.drop n) log ∧ (b.settings.fullPolicy = .reject → n = 0) := by
  by_cases hroom : b.MakesRoom weight
  · obtain ⟨n, log, -, -, hto, -, hok⟩ := makeRoom_discards hroom h
    refine ⟨_, n, log, hok, hto, fun hreject => ?_⟩
    rw [hroom.discards] at hreject
    cases hreject
  · obtain ⟨r, hr⟩ := makeRoom_stays hroom
    exact ⟨r, 0, b.log, by rw [hr, List.take_zero, discarded_nil], .refl h, fun _ => rfl⟩

/-- The packet that an add logs. -/
def numbered (b : Backlog) (payload : Payload) (transient fromGateway : Bool) : Packet :=
  { key := b.nextKey, weight := payload.defaultWeight, transient, fromGateway, payload }

theorem fits_numbered (payload : Payload) (transient fromGateway : Bool)
    (hkey : b.nextKey < 2 ^ 64) : (b.numbered payload transient fromGateway).Fits := by
  refine ⟨hkey, ?_⟩
  show payload.defaultWeight < 2 ^ 32
  exact Nat.lt_of_le_of_lt (Nat.min_le_right _ _) (by decide)

theorem addPayload_unregistered (hempty : b.channels = []) (payload : Payload)
    (transient fromGateway : Bool) :
    (addPayload payload transient fromGateway).perform b = (.ok none, b) := by
  simp only [addPayload, perform_get_bind, hempty, List.isEmpty_nil, if_true]
  rfl

section Adding

variable {payload : Payload} {transient fromGateway : Bool} {removed : List Packet} {log : PacketLog}
  {e : Error}

theorem addPayload_no_room {b' : Backlog} (hne : b.channels ≠ [])
    (hroom : (makeRoom payload.defaultWeight).perform b = (.error e, b')) :
    (addPayload payload transient fromGateway).perform b = (.error e, b') := by
  have hsome : b.channels.isEmpty = false := by simpa using hne
  simp only [addPayload, perform_get_bind, hsome, Bool.false_eq_true, if_false]
  exact perform_bind_error hroom

theorem addPayload_refused (hne : b.channels ≠ [])
    (hroom : (makeRoom payload.defaultWeight).perform b = (.ok (), b.discarded removed log))
    (hrefused : (PacketLog.append [b.numbered payload transient fromGateway]).perform log
      = (.error e, log)) :
    (addPayload payload transient fromGateway).perform b = (.error e, b.discarded removed log) := by
  have hsome : b.channels.isEmpty = false := by simpa using hne
  simp only [addPayload, perform_get_bind, hsome, Bool.false_eq_true, if_false]
  rw [perform_bind_ok hroom]
  refine perform_bind_error ?_
  rw [perform_onLog]
  exact congrArg (fun out => (out.1, { b.discarded removed log with log := out.2 })) hrefused

theorem addPayload_logged {log' : PacketLog} (hne : b.channels ≠ [])
    (hroom : (makeRoom payload.defaultWeight).perform b = (.ok (), b.discarded removed log))
    (hlogged : (PacketLog.append [b.numbered payload transient fromGateway]).perform log
      = (.ok (), log')) :
    (addPayload payload transient fromGateway).perform b = (.ok (some b.nextKey),
      (b.discarded removed log).extended (b.numbered payload transient fromGateway) log') := by
  have hsome : b.channels.isEmpty = false := by simpa using hne
  simp only [addPayload, perform_get_bind, hsome, Bool.false_eq_true, if_false]
  rw [perform_bind_ok hroom]
  have hadded : (onLog (PacketLog.append [b.numbered payload transient fromGateway])).perform
      (b.discarded removed log) = (.ok (), { b.discarded removed log with log := log' }) := by
    rw [perform_onLog]
    exact congrArg (fun out => (out.1, { b.discarded removed log with log := out.2 })) hlogged
  exact (perform_bind_ok hadded).trans rfl

end Adding

/-- An add may discard packets, unless the policy is to reject, and then fail, or log one packet under
the next key. While nobody is registered it does nothing. -/
theorem addPayload_spec (h : b.log.Holds ps) (hkey : b.nextKey < 2 ^ 64)
    (payload : Payload) (transient fromGateway : Bool) :
    (b.channels = [] ∧ (addPayload payload transient fromGateway).perform b = (.ok none, b)) ∨
      b.channels ≠ [] ∧ ∃ n log, b.log.TrimsTo (ps.drop n) log ∧
        (b.settings.fullPolicy = .reject → n = 0) ∧
        ((∃ e, (addPayload payload transient fromGateway).perform b
            = (.error e, b.discarded (ps.take n) log)) ∨
          ∃ log', (addPayload payload transient fromGateway).perform b
              = (.ok (some b.nextKey), (b.discarded (ps.take n) log).extended
                  (b.numbered payload transient fromGateway) log') ∧
            log'.Holds (ps.drop n ++ [b.numbered payload transient fromGateway]) ∧
            log'.lastAppended = some b.nextKey ∧ log'.isClosed = false ∧
            b.log.isClosed = false) := by
  by_cases hempty : b.channels = []
  · exact .inl ⟨hempty, addPayload_unregistered hempty payload transient fromGateway⟩
  · obtain ⟨r, n, log, hroom, hto, hspared⟩ := makeRoom_spec h payload.defaultWeight
    refine .inr ⟨hempty, n, log, hto, hspared, ?_⟩
    cases r with
    | error e => exact .inl ⟨e, addPayload_no_room hempty hroom⟩
    | ok _ =>
      have hall : ∀ p ∈ [b.numbered payload transient fromGateway], p.Fits := by
        simpa using fits_numbered payload transient fromGateway hkey
      rcases hto.holds.append hall with ⟨e, he⟩ | ⟨hopen, -, log', happend, hholds, hlast, hstill⟩
      · exact .inl ⟨e, addPayload_refused hempty hroom he⟩
      · exact .inr ⟨log', addPayload_logged hempty hroom happend, hholds,
          by simpa [numbered] using hlast, hstill, hto.isClosed ▸ hopen⟩

/-! ## Channels -/

theorem withChannel_withChannel (target : String) (c c' : SourceChannel) (b : Backlog) :
    (b.withChannel target c).withChannel target c' = b.withChannel target c' := by
  simp only [withChannel, Table.insert_insert]

theorem withChannel_of_channel? {target : String} {c : SourceChannel}
    (h : b.channel? target = some c) : b.withChannel target c = b := by
  rw [withChannel, Table.insert_of_get? h]

theorem perform_moveChannel_ok {target : String} {next : ChannelState} {c : SourceChannel}
    (h : c.state.allows next = true) : (moveChannel target next c).perform b
      = (.ok { c with state := next }, b.withChannel target { c with state := next }) := by
  rw [moveChannel, ChannelState.transition, if_pos h, perform_decided_ok_bind]
  rfl

theorem perform_moveChannel_error {target : String} {next : ChannelState} {c : SourceChannel}
    (h : c.state.allows next = false) : (moveChannel target next c).perform b
      = (.error (.channel (.transition c.state next)), b) := by
  rw [moveChannel, ChannelState.transition, h, if_neg Bool.false_ne_true,
    perform_decided_error_bind]

/-- Whatever a channel does between two calls, it can be taken through a handshake then. -/
theorem perform_reopen_ok {target : String} {request : HandshakeRequest} {start weight : Nat}
    {c : SourceChannel} (h : c.state.AtRest) : (reopen target request start weight c).perform b
      = (.ok (), b.withChannel target (welcomed request start weight c)) := by
  have hset : (setChannel target c).perform b = (.ok (), b.withChannel target c) := rfl
  have hleft : (hangUp target c).perform (b.withChannel target c)
      = (.ok { c with state := .disconnected },
          b.withChannel target { c with state := .disconnected }) := by
    rcases h with hactive | hidle
    · rw [hangUp, if_pos hactive, perform_moveChannel_ok (by rw [hactive]; rfl),
        withChannel_withChannel]
    · rw [hangUp, if_neg (by simp [hidle]), perform_pure, ← hidle]
  rw [reopen, perform_bind_ok hset, perform_bind_ok hleft,
    perform_bind_ok (perform_moveChannel_ok rfl), perform_bind_ok (perform_setChannel ..),
    perform_discard, perform_moveChannel_ok rfl]
  refine congrArg (Prod.mk (Except.ok ())) ?_
  show (((b.withChannel target _).withChannel target _).withChannel target _).withChannel target _ = _
  rw [withChannel_withChannel, withChannel_withChannel, withChannel_withChannel]
  rfl

/-- A channel that a call left in between is in the way of a handshake, and stays as it is. -/
theorem perform_reopen_error {target : String} {request : HandshakeRequest} {start weight : Nat}
    {c : SourceChannel} (h : ¬ c.state.AtRest) (hfound : b.channel? target = some c) :
    (reopen target request start weight c).perform b
      = (.error (.channel (.transition c.state .handshaking)), b) := by
  have hset : (setChannel target c).perform b = (.ok (), b) :=
    congrArg (Prod.mk _) (withChannel_of_channel? hfound)
  have hactive : c.state ≠ .active := fun hactive => h (.inl hactive)
  have hrefused : c.state.allows .handshaking = false := by
    cases hstate : c.state with
    | disconnected => exact absurd (.inr hstate) h
    | _ => rfl
  have hstays : (hangUp target c).perform b = (.ok c, b) := by
    rw [hangUp, if_neg hactive]
    rfl
  rw [reopen, perform_bind_ok hset, perform_bind_ok hstays,
    perform_bind_error (perform_moveChannel_error hrefused)]

theorem handshake_unknown {target : String} {request : HandshakeRequest}
    (h : b.membership.allowsTarget target = false) : (handshake target request).perform b
      = (.error (.unknownMember (.target target b.group)), b) := by
  rw [handshake, perform_get_bind, h]
  simp only [Bool.not_false, if_true]
  exact perform_throw_bind _ _ _

/-- A handshake that was agreed on goes on with the channel of its target, over an open log. -/
theorem perform_handshake (h : b.log.Holds ps) {target : String} {request : HandshakeRequest}
    {response : HandshakeResponse} (hallowed : b.membership.allowsTarget target = true)
    (hagreed : negotiate request b.retained = .ok response) (hopen : b.log.isClosed = false)
    {c : SourceChannel} (hc : c = (b.channel? target).getD
      (.fresh (.empty b.settings.maxBatchSize b.settings.maxBatchAge))) :
    (handshake target request).perform b
      = (reopen target request response.startKey
          (Packet.totalWeight (ps.dropWhile (·.key < response.startKey))) c >>= fun _ =>
            pure { response with state := c.producerState }).perform b := by
  rw [handshake, perform_get_bind, hallowed]
  simp only [Bool.not_true, Bool.false_eq_true, if_false]
  rw [hagreed, perform_decided_ok_bind, h.readFrom hopen, perform_decided_ok_bind, hc]
  rfl

/-- It succeeds then, if the channel is at rest. -/
theorem handshake_agreed (h : b.log.Holds ps) {target : String} {request : HandshakeRequest}
    {response : HandshakeResponse} (hallowed : b.membership.allowsTarget target = true)
    (hagreed : negotiate request b.retained = .ok response) (hopen : b.log.isClosed = false)
    (hrest : ∀ c, b.channel? target = some c → c.state.AtRest) :
    ∃ c, c = (b.channel? target).getD
        (.fresh (.empty b.settings.maxBatchSize b.settings.maxBatchAge)) ∧
      (handshake target request).perform b =
        (.ok { response with state := c.producerState },
          b.withChannel target (welcomed request response.startKey
            (Packet.totalWeight (ps.dropWhile (·.key < response.startKey))) c)) := by
  refine ⟨_, rfl, ?_⟩
  rw [perform_handshake h hallowed hagreed hopen rfl]
  refine perform_bind_ok (perform_reopen_ok ?_)
  cases hfound : b.channel? target with
  | none => exact .inr rfl
  | some c => exact hrest c hfound

/-- A channel that is not at rest is in the way of it. -/
theorem handshake_busy (h : b.log.Holds ps) {target : String} {request : HandshakeRequest}
    {response : HandshakeResponse} {c : SourceChannel}
    (hallowed : b.membership.allowsTarget target = true)
    (hagreed : negotiate request b.retained = .ok response) (hopen : b.log.isClosed = false)
    (hfound : b.channel? target = some c) (hbusy : ¬ c.state.AtRest) :
    (handshake target request).perform b
      = (.error (.channel (.transition c.state .handshaking)), b) := by
  rw [perform_handshake (c := c) h hallowed hagreed hopen (by rw [hfound]; rfl)]
  exact perform_bind_error (perform_reopen_error hbusy hfound)

/-- A handshake that fails changes nothing; one that succeeds restarts the channel at the key that
was negotiated, over a log that can be read. -/
theorem handshake_spec (h : b.log.Holds ps) (target : String) (request : HandshakeRequest) :
    (∃ e, (handshake target request).perform b = (.error e, b)) ∨
      ∃ response c, negotiate request b.retained = .ok response ∧ b.log.isClosed = false ∧
        c = (b.channel? target).getD
          (.fresh (.empty b.settings.maxBatchSize b.settings.maxBatchAge)) ∧
        (handshake target request).perform b =
          (.ok { response with state := c.producerState },
            b.withChannel target (welcomed request response.startKey
              (Packet.totalWeight (ps.dropWhile (·.key < response.startKey))) c)) := by
  cases hallowed : b.membership.allowsTarget target with
  | false => exact .inl ⟨_, handshake_unknown hallowed⟩
  | true =>
    cases hagreed : negotiate request b.retained with
    | error e =>
      refine .inl ⟨e, ?_⟩
      rw [handshake, perform_get_bind, hallowed]
      simp only [Bool.not_true, Bool.false_eq_true, if_false]
      rw [hagreed, perform_decided_error_bind]
    | ok response =>
      cases hopen : b.log.isClosed with
      | true =>
        have he := PacketLog.readFrom_closed hopen (some response.startKey)
        refine .inl ⟨.storage (.closed b.log.name), ?_⟩
        rw [handshake, perform_get_bind, hallowed]
        simp only [Bool.not_true, Bool.false_eq_true, if_false]
        rw [hagreed, perform_decided_ok_bind, he, perform_decided_error_bind]
      | false =>
        by_cases hrest : ∀ c, b.channel? target = some c → c.state.AtRest
        · obtain ⟨c, hc, hok⟩ := handshake_agreed h hallowed hagreed hopen hrest
          exact .inr ⟨response, c, rfl, rfl, hc, hok⟩
        · simp only [Classical.not_forall, exists_prop] at hrest
          obtain ⟨c, hc, hbusy⟩ := hrest
          exact .inl ⟨_, handshake_busy h hallowed hagreed hopen hc hbusy⟩

/-- Where a channel reads on after it got `batch` from a log that ends with `lastKey`. -/
def cursorAfter (lastKey : Option Nat) (batch : List Packet) : Cursor :=
  match batch.getLast?, lastKey with
  | some p, some tail => if p.key < tail then .catchingUp (p.key + 1) else .live
  | _, _ => .live

/-- It reads on behind the last packet that it got, or not at all. -/
theorem cursorAfter_cases (lastKey : Option Nat) (batch : List Packet) :
    cursorAfter lastKey batch = .live ∨
      ∃ p, batch.getLast? = some p ∧ cursorAfter lastKey batch = .catchingUp (p.key + 1) := by
  cases hlast : batch.getLast? with
  | none => exact .inl (by simp only [cursorAfter, hlast])
  | some p =>
    cases lastKey with
    | none => exact .inl (by simp only [cursorAfter, hlast])
    | some tail =>
      by_cases hmore : p.key < tail
      · exact .inr ⟨p, rfl, by simp only [cursorAfter, hlast, if_pos hmore]⟩
      · exact .inl (by simp only [cursorAfter, hlast, if_neg hmore])

/-- The packets that a channel gets which reads the log from `key` on. -/
def batchFrom (b : Backlog) (ps : List Packet) (key : Nat) : List Packet :=
  (ps.dropWhile (·.key < key)).take b.settings.maxBatchSize

/-- The channel after it read `batch` from the log. -/
def caughtUp (b : Backlog) (batch : List Packet) (c : SourceChannel) : SourceChannel :=
  { c with cursor := cursorAfter b.log.lastKey batch }.recordSent batch

/-- A channel that has to read on before the first packet of the log is told so. -/
theorem catchUp_gone {target : String} {c : SourceChannel} {key : Nat} (h : key < b.log.earliest) :
    (catchUp target c key).perform b = (.error (.resumeKeyCompacted key b.log.earliest),
      b.withChannel target { c with resyncRequired := true }) := by
  rw [catchUp, perform_get_bind, if_pos h]
  rfl

/-- Otherwise it gets the packets from there on. -/
theorem catchUp_reads (h : b.log.Holds ps) (hopen : b.log.isClosed = false) (target : String)
    (c : SourceChannel) {key : Nat} (hkey : b.log.earliest ≤ key) : (catchUp target c key).perform b
      = (.ok (if (b.batchFrom ps key).isEmpty then none else some (b.batchFrom ps key)),
          b.withChannel target (b.caughtUp (b.batchFrom ps key) c)) := by
  have hbatch : LogReading.first ⟨ps.dropWhile (·.key < key), none⟩ b.settings.maxBatchSize
      = .ok (b.batchFrom ps key) := by
    simp only [LogReading.first]
    split
    · rfl
    · rename_i hmore
      rw [batchFrom, List.take_of_length_le (by omega)]
  rw [catchUp, perform_get_bind, if_neg (Nat.not_lt.2 hkey), h.readFrom hopen, perform_decided_ok_bind]
  simp only [Option.elim, hbatch]
  rfl

theorem catchUp_spec (h : b.log.Holds ps) (target : String) (c : SourceChannel) (key : Nat) :
    (∃ e, (catchUp target c key).perform b = (.error e, b)) ∨
      key < b.log.earliest ∧ (catchUp target c key).perform b
        = (.error (.resumeKeyCompacted key b.log.earliest),
            b.withChannel target { c with resyncRequired := true }) ∨
      b.log.isClosed = false ∧ b.log.earliest ≤ key ∧ (catchUp target c key).perform b
        = (.ok (if (b.batchFrom ps key).isEmpty then none else some (b.batchFrom ps key)),
            b.withChannel target (b.caughtUp (b.batchFrom ps key) c)) := by
  by_cases hgone : key < b.log.earliest
  · exact .inr (.inl ⟨hgone, catchUp_gone hgone⟩)
  · cases hopen : b.log.isClosed with
    | true =>
      refine .inl ⟨.storage (.closed b.log.name), ?_⟩
      rw [catchUp, perform_get_bind, if_neg hgone, PacketLog.readFrom_closed hopen (some key),
        perform_decided_error_bind]
    | false =>
      have hkey := Nat.le_of_not_lt hgone
      exact .inr (.inr ⟨rfl, hkey, catchUp_reads h hopen target c hkey⟩)

section Polling

variable {target : String} {c : SourceChannel} {key : Nat}

theorem poll_inactive (hc : b.channel? target = some c) (hactive : c.state ≠ .active) (force : Bool) :
    (poll target force).perform b = (.error (.channel (.notActive target b.group c.state)), b) := by
  rw [poll, perform_bind_ok (perform_channelOf_some hc), perform_get_bind, if_pos hactive]
  exact perform_throw_bind _ _ _

/-- A channel that has lost packets has to resume behind what it has confirmed. -/
theorem poll_lost (hc : b.channel? target = some c) (hactive : c.state = .active)
    (hlost : c.resyncRequired = true) (force : Bool) : (poll target force).perform b
      = (.error (.resumeKeyCompacted (c.lastConfirmed + 1) b.log.earliest), b) := by
  rw [poll, perform_bind_ok (perform_channelOf_some hc), perform_get_bind,
    if_neg (by simp [hactive]), if_pos hlost]
  exact perform_throw_bind _ _ _

theorem poll_catchingUp (hc : b.channel? target = some c) (hactive : c.state = .active)
    (hsynced : c.resyncRequired = false) (hcursor : c.cursor = .catchingUp key) (force : Bool) :
    (poll target force).perform b = (catchUp target c key).perform b := by
  rw [poll, perform_bind_ok (perform_channelOf_some hc), perform_get_bind,
    if_neg (by simp [hactive]), if_neg (by simp [hsynced]), hcursor]

theorem poll_nothing (hc : b.channel? target = some c) (hactive : c.state = .active)
    (hsynced : c.resyncRequired = false) (hlive : c.cursor = .live) {force : Bool}
    (hpoll : c.accumulator.poll b.now force = none) :
    (poll target force).perform b = (.ok none, b) := by
  rw [poll, perform_bind_ok (perform_channelOf_some hc), perform_get_bind,
    if_neg (by simp [hactive]), if_neg (by simp [hsynced]), hlive]
  simp only [hpoll]
  rfl

theorem poll_cuts (hc : b.channel? target = some c) (hactive : c.state = .active)
    (hsynced : c.resyncRequired = false) (hlive : c.cursor = .live) {force : Bool}
    {batch : List Packet} {accumulator : Accumulator}
    (hpoll : c.accumulator.poll b.now force = some (batch, accumulator)) :
    (poll target force).perform b
      = (.ok (some batch), b.withChannel target ({ c with accumulator }.recordSent batch)) := by
  rw [poll, perform_bind_ok (perform_channelOf_some hc), perform_get_bind,
    if_neg (by simp [hactive]), if_neg (by simp [hsynced]), hlive]
  simp only [hpoll]
  rfl

end Polling

/-- A poll is refused and changes nothing, or finds that its place in the log is gone, or hands
out what is due from the log or from the accumulator. -/
theorem poll_spec (h : b.log.Holds ps) (target : String) (force : Bool) :
    (∃ e, (poll target force).perform b = (.error e, b)) ∨
      ∃ c, b.channel? target = some c ∧ c.state = .active ∧ c.resyncRequired = false ∧
        ((∃ key, c.cursor = .catchingUp key ∧ key < b.log.earliest ∧ (poll target force).perform b
            = (.error (.resumeKeyCompacted key b.log.earliest),
                b.withChannel target { c with resyncRequired := true })) ∨
          (∃ key, c.cursor = .catchingUp key ∧ b.log.isClosed = false ∧ b.log.earliest ≤ key ∧
            (poll target force).perform b
              = (.ok (if (b.batchFrom ps key).isEmpty then none else some (b.batchFrom ps key)),
                  b.withChannel target (b.caughtUp (b.batchFrom ps key) c))) ∨
          (c.cursor = .live ∧ c.accumulator.poll b.now force = none ∧
            (poll target force).perform b = (.ok none, b)) ∨
          ∃ batch accumulator, c.cursor = .live ∧
            c.accumulator.poll b.now force = some (batch, accumulator) ∧
            (poll target force).perform b
              = (.ok (some batch), b.withChannel target ({ c with accumulator }.recordSent batch))) := by
  cases hc : b.channel? target with
  | none => exact .inl ⟨_, perform_bind_error (perform_channelOf_none hc)⟩
  | some c =>
    by_cases hactive : c.state = .active
    · cases hsynced : c.resyncRequired with
      | true => exact .inl ⟨_, poll_lost hc hactive hsynced force⟩
      | false =>
        cases hcursor : c.cursor with
        | catchingUp key =>
          rw [poll_catchingUp hc hactive hsynced hcursor force]
          rcases catchUp_spec h target c key with he | ⟨hgone, he⟩ | ⟨hopen, hkey, hok⟩
          · exact .inl he
          · exact .inr ⟨c, rfl, hactive, hsynced, .inl ⟨key, hcursor, hgone, he⟩⟩
          · exact .inr ⟨c, rfl, hactive, hsynced, .inr (.inl ⟨key, hcursor, hopen, hkey, hok⟩)⟩
        | live =>
          cases hpoll : c.accumulator.poll b.now force with
          | none =>
            have hok := poll_nothing hc hactive hsynced hcursor hpoll
            exact .inr ⟨c, rfl, hactive, hsynced, .inr (.inr (.inl ⟨hcursor, hpoll, hok⟩))⟩
          | some cut =>
            obtain ⟨batch, accumulator⟩ := cut
            have hok := poll_cuts hc hactive hsynced hcursor hpoll
            exact .inr ⟨c, rfl, hactive, hsynced,
              .inr (.inr (.inr ⟨batch, accumulator, hcursor, hpoll, hok⟩))⟩
    · exact .inl ⟨_, poll_inactive hc hactive force⟩

/-- A confirmation is refused, or says nothing new, or moves its channel on. -/
theorem confirm_spec (b : Backlog) (target : String) (key : Nat) :
    (∃ e, (confirm target key).perform b = (.error e, b)) ∨
      ∃ c, b.channel? target = some c ∧ key ≤ c.lastSent ∧
        ((c.confirmation.isAhead key = false ∧ (confirm target key).perform b = (.ok false, b)) ∨
          (c.confirmation.isAhead key = true ∧
            (confirm target key).perform b = (.ok true, b.withChannel target (c.confirm key)))) := by
  rw [confirm]
  cases hchannel : b.channel? target with
  | none => exact .inl ⟨_, perform_bind_error (perform_channelOf_none hchannel)⟩
  | some c =>
    rw [perform_bind_ok (perform_channelOf_some hchannel)]
    by_cases hsent : c.lastSent < key
    · refine .inl ⟨.channel (.neverSent target key c.lastSent), ?_⟩
      rw [if_pos hsent]
      exact perform_throw_bind _ _ _
    · rw [if_neg hsent]
      refine .inr ⟨c, rfl, Nat.le_of_not_lt hsent, ?_⟩
      cases hahead : c.confirmation.isAhead key with
      | false => exact .inl ⟨rfl, rfl⟩
      | true => exact .inr ⟨rfl, rfl⟩

theorem recordError_spec (b : Backlog) (target : String) (key : Nat) (error : Error) :
    (∃ e, (recordError target key error).perform b = (.error e, b)) ∨
      ∃ c, b.channel? target = some c ∧
        (recordError target key error).perform b = (.ok (c.confirmation.isAhead key),
          b.withChannel target { c with confirmation := c.confirmation.pin key error }) := by
  rw [recordError]
  cases hchannel : b.channel? target with
  | none => exact .inl ⟨_, perform_bind_error (perform_channelOf_none hchannel)⟩
  | some c =>
    rw [perform_bind_ok (perform_channelOf_some hchannel)]
    exact .inr ⟨c, rfl, rfl⟩

theorem disconnect_spec (b : Backlog) (target : String) :
    (∃ e, b.channel? target = none ∧ (disconnect target).perform b = (.error e, b)) ∨
      ∃ c, b.channel? target = some c ∧
        (disconnect target).perform b = (.ok (), b.withChannel target c.disconnected) := by
  rw [disconnect]
  cases hchannel : b.channel? target with
  | none => exact .inl ⟨_, rfl, perform_bind_error (perform_channelOf_none hchannel)⟩
  | some c =>
    rw [perform_bind_ok (perform_channelOf_some hchannel)]
    exact .inr ⟨c, rfl, rfl⟩

theorem setProducerState_spec (b : Backlog) (target : String) (state : Bytes) :
    (∃ e, (setProducerState target state).perform b = (.error e, b)) ∨
      ∃ c, b.channel? target = some c ∧ (setProducerState target state).perform b
        = (.ok (), b.withChannel target { c with producerState := some state }) := by
  rw [setProducerState]
  cases hchannel : b.channel? target with
  | none => exact .inl ⟨_, perform_bind_error (perform_channelOf_none hchannel)⟩
  | some c =>
    rw [perform_bind_ok (perform_channelOf_some hchannel)]
    exact .inr ⟨c, rfl, rfl⟩

/-- Detaching touches the log only when the last channel goes. -/
theorem detach_spec (h : b.log.Holds ps) (target : String) :
    (∃ e, (detach target).perform b = (.error e, b)) ∨
      ∃ r n log, (detach target).perform b
          = (r, { b with log, channels := b.channels.erase target }) ∧
        b.log.TrimsTo (ps.drop n) log ∧
        (b.channels.erase target ≠ [] → n = 0) := by
  rw [detach]
  cases hchannel : b.channel? target with
  | none =>
    refine .inl ⟨.channel (.notRegistered target b.group), perform_bind_error ?_⟩
    rw [perform_discard, perform_channelOf_none hchannel]
    rfl
  | some c =>
    have hfound : (discard (channelOf target)).perform b = (.ok (), b) := by
      rw [perform_discard, perform_channelOf_some hchannel]
      rfl
    rw [perform_bind_ok hfound, perform_modify_bind, perform_get_bind]
    right
    by_cases hlast : (b.channels.erase target).isEmpty = true
    · simp only [hlast, if_true]
      cases hkey : b.log.lastKey with
      | none =>
        exact ⟨.ok (), 0, b.log, rfl, .refl h, fun _ => rfl⟩
      | some last =>
        cases hopen : b.log.isClosed with
        | true =>
          have he := PacketLog.deleteOldest_closed hopen last
          refine ⟨.error (.storage (.closed b.log.name)), 0, b.log, ?_, .refl h, fun _ => rfl⟩
          simp only [perform_discard, perform_onLog, he]
          rfl
        | false =>
          obtain ⟨log, hdelete, hto⟩ := h.deleteOldest hopen last
          refine ⟨.ok (), _, log, ?_, hto, fun hne => ?_⟩
          · simp only [perform_discard, perform_onLog, hdelete]
            rfl
          · exact absurd (List.isEmpty_iff.1 hlast) hne
    · simp only [hlast]
      exact ⟨.ok (), 0, b.log, rfl, .refl h, fun _ => rfl⟩

/-- A compaction only removes packets that every channel has confirmed. -/
theorem compact_spec (h : b.log.Holds ps) (limit : Nat) :
    ∃ r n log, (compact limit).perform b = (r, { b with log }) ∧ b.log.TrimsTo (ps.drop n) log ∧
      ∀ p ∈ ps.take n, ∀ c ∈ b.channels.values, p.key ≤ c.lastConfirmed := by
  have hnothing : ∀ r, (compact limit).perform b = (r, b) →
      ∃ r n log, (compact limit).perform b = (r, { b with log }) ∧
        b.log.TrimsTo (ps.drop n) log ∧
        ∀ p ∈ ps.take n, ∀ c ∈ b.channels.values, p.key ≤ c.lastConfirmed := fun r hr =>
    ⟨r, 0, b.log, hr, .refl h, by simp⟩
  cases hfirst : b.log.firstKey with
  | none =>
    refine hnothing (.ok ⟨none, 0, 0, b.log.weight⟩) ?_
    rw [compact, perform_get_bind]
    simp only [hfirst]
    rfl
  | some first =>
    cases hfrontier : b.frontier? with
    | none =>
      refine hnothing (.ok ⟨none, 0, 0, b.log.weight⟩) ?_
      rw [compact, perform_get_bind]
      simp only [hfirst, hfrontier]
      rfl
    | some frontier =>
      by_cases hbehind : frontier < first
      · refine hnothing (.ok ⟨none, 0, 0, b.log.weight⟩) ?_
        rw [compact, perform_get_bind]
        simp only [hfirst, hfrontier, if_pos hbehind]
        rfl
      · have hcompact : (compact limit).perform b
            = (onLog (PacketLog.compact first (compactionEnd first frontier limit))).perform b := by
          rw [compact, perform_get_bind]
          simp only [hfirst, hfrontier, if_neg hbehind]
        generalize hlast : compactionEnd first frontier limit = last at hcompact
        have hbound : ∀ c ∈ b.channels.values, last ≤ c.lastConfirmed := by
          intro c hc
          have hmin := (List.min?_eq_some_iff.1 hfrontier).2 c.lastConfirmed
            (List.mem_map_of_mem (List.mem_map_of_mem hc))
          have hend : last ≤ frontier := hlast ▸ Nat.min_le_left _ _
          omega
        cases hopen : b.log.isClosed with
        | true =>
          have he := PacketLog.compact_closed hopen first last
          refine hnothing (.error (.storage (.closed b.log.name))) ?_
          rw [hcompact, perform_onLog, he]
        | false =>
          rcases h.compact hopen first last with ⟨e, -, he⟩ | ⟨-, log, hok, hto⟩
          · refine hnothing (.error e) ?_
            rw [hcompact, perform_onLog, he]
          · refine ⟨_, _, log, by rw [hcompact, perform_onLog, hok], hto, fun p hp c hc => ?_⟩
            rw [← List.prefix_iff_eq_take.1 (List.takeWhile_prefix _)] at hp
            have hkey := List.all_eq_true.1 List.all_takeWhile p hp
            have := hbound c hc
            simp only [decide_eq_true_eq] at hkey
            omega

theorem validate_spec (h : b.log.Holds ps) : ∃ r, validate.perform b = (r, b) := by
  rw [validate, perform_onLog]
  cases hopen : b.log.isClosed with
  | true =>
    have he := PacketLog.validate_closed hopen
    exact ⟨.error (.storage (.closed b.log.name)), by rw [he]⟩
  | false => exact ⟨.ok (), by rw [h.validate hopen]⟩

theorem close_spec (h : b.log.Holds ps) :
    ∃ log, close.perform b = (.ok (), { b with log }) ∧ log.Holds ps ∧ log.isClosed = true ∧
      log.lastAppended = b.log.lastAppended := by
  obtain ⟨log, hclose, hrest⟩ := h.close
  refine ⟨log, ?_, hrest⟩
  rw [close, perform_onLog, hclose]

/-! ## Keys only grow

This holds over any log, also over a damaged one. -/

section Keys

variable {k : Nat}

theorem keeps_onLog {α : Type} (act : Action PacketLog α) : Keeps (k ≤ ·.nextKey) (onLog act) :=
  fun _ h => h

theorem keeps_mapChannels (f : SourceChannel → SourceChannel) :
    Keeps (k ≤ ·.nextKey) (mapChannels f) := fun _ h => h

theorem keeps_setChannel (target : String) (c : SourceChannel) :
    Keeps (k ≤ ·.nextKey) (setChannel target c) := fun _ h => h

theorem keeps_channelOf (target : String) : Keeps (k ≤ ·.nextKey) (channelOf target) := by
  intro b h
  rw [channelOf, perform_get_bind]
  split <;> exact h

theorem keeps_makeRoom (weight : Nat) : Keeps (k ≤ ·.nextKey) (makeRoom weight) := by
  have hdiscard : ∀ needed, Keeps (k ≤ ·.nextKey) (discardOldest needed) := by
    intro needed
    refine Keeps.bind .get fun b => Keeps.bind (.decided _) fun reading => ?_
    have hrest : Keeps (k ≤ ·.nextKey) (do
        let removed ← onLog (PacketLog.removeFirst (countToFree needed reading.packets) none)
        mapChannels (·.afterDiscard removed)) :=
      Keeps.bind (keeps_onLog _) fun _ => keeps_mapChannels _
    show Keeps _ (if _ then _ else _)
    split
    · exact Keeps.bind (.discard (.decided _)) fun _ => hrest
    · exact hrest
  refine Keeps.bind .get fun b => ?_
  show Keeps _ (if _ then _ else _)
  split
  · cases b.settings.fullPolicy with
    | reject => exact .throw _
    | discardOldest =>
      show Keeps _ (if _ then _ else _)
      split
      · exact Keeps.bind (.throw _) fun _ => hdiscard _
      · exact hdiscard _
  · exact .pure _

/-- An add numbers its packet with the key that it found. -/
theorem nextKey_le_addPayload (b : Backlog) (payload : Payload) (transient fromGateway : Bool) :
    b.nextKey ≤ ((addPayload payload transient fromGateway).perform b).2.nextKey := by
  rw [addPayload, perform_get_bind]
  split
  · exact Nat.le_refl _
  · have hlast : ∀ p : Packet, p.key = b.nextKey → Keeps (b.nextKey ≤ ·.nextKey) (do
        makeRoom p.weight
        onLog (PacketLog.append [p])
        modify fun b => { b with nextKey := p.key + 1 }
        mapChannels (·.afterAdd b.now p)
        return some p.key) := by
      intro p hp
      refine Keeps.bind (keeps_makeRoom _) fun _ => Keeps.bind (keeps_onLog _) fun _ =>
        Keeps.bind (fun _ _ => ?_) fun _ => Keeps.bind (keeps_mapChannels _) fun _ => .pure _
      show b.nextKey ≤ p.key + 1
      omega
    exact hlast (b.numbered payload transient fromGateway) rfl b (Nat.le_refl _)

theorem keeps_moveChannel (target : String) (next : ChannelState) (c : SourceChannel) :
    Keeps (k ≤ ·.nextKey) (moveChannel target next c) :=
  Keeps.bind (.decided _) fun _ => Keeps.bind (keeps_setChannel _ _) fun _ => .pure _

theorem keeps_reopen (target : String) (request : HandshakeRequest) (start weight : Nat)
    (c : SourceChannel) : Keeps (k ≤ ·.nextKey) (reopen target request start weight c) := by
  refine Keeps.bind (keeps_setChannel _ _) fun _ => Keeps.bind ?_ fun c =>
    Keeps.bind (keeps_moveChannel _ _ _) fun _ => Keeps.bind (keeps_setChannel _ _) fun _ =>
      .discard (keeps_moveChannel _ _ _)
  exact Keeps.ite (keeps_moveChannel _ _ _) (.pure _)

theorem keeps_handshake (target : String) (request : HandshakeRequest) :
    Keeps (k ≤ ·.nextKey) (handshake target request) := by
  refine Keeps.bind .get fun b => Keeps.ite (.throw_bind _ _) ?_
  exact Keeps.bind (.decided _) fun _ => Keeps.bind (.decided _) fun _ => Keeps.bind (.decided _)
    fun _ => Keeps.bind (keeps_reopen _ _ _ _ _) fun _ => .pure _

theorem keeps_catchUp (target : String) (c : SourceChannel) (key : Nat) :
    Keeps (k ≤ ·.nextKey) (catchUp target c key) := by
  refine Keeps.bind .get fun b => Keeps.ite ?_ ?_
  · exact Keeps.bind (keeps_setChannel _ _) fun _ => .throw_bind _ _
  · exact Keeps.bind (.decided _) fun _ => Keeps.bind (.decided _) fun _ =>
      Keeps.bind (keeps_setChannel _ _) fun _ => .pure _

theorem keeps_poll (target : String) (force : Bool) :
    Keeps (k ≤ ·.nextKey) (poll target force) := by
  refine Keeps.bind (keeps_channelOf target) fun c => Keeps.bind .get fun b =>
    Keeps.ite (.throw_bind _ _) (Keeps.ite (.throw_bind _ _) ?_)
  split
  · exact keeps_catchUp _ _ _
  · split
    · exact .pure _
    · exact Keeps.bind (keeps_setChannel _ _) fun _ => .pure _

theorem keeps_detach (target : String) : Keeps (k ≤ ·.nextKey) (detach target) := by
  refine Keeps.bind (.discard (keeps_channelOf target)) fun _ =>
    Keeps.bind (fun _ h => h) fun _ => Keeps.bind .get fun b => ?_
  show Keeps _ (if _ then _ else _)
  split
  · split
    · exact .discard (keeps_onLog _)
    · exact .pure _
  · exact .pure _

theorem keeps_compact (limit : Nat) : Keeps (k ≤ ·.nextKey) (compact limit) := by
  intro b hb
  rw [compact, perform_get_bind]
  cases b.log.firstKey with
  | none => exact hb
  | some first =>
    cases b.frontier? with
    | none => exact hb
    | some frontier =>
      by_cases hbehind : frontier < first
      · simp only [if_pos hbehind]
        exact hb
      · simp only [if_neg hbehind]
        exact hb

/-- What is left of a backlog numbers on from where it was. -/
theorem nextKey_le_after (b : Backlog) (op : Operation) : b.nextKey ≤ (op.after b).nextKey := by
  cases op with
  | add payload transient fromGateway => exact nextKey_le_addPayload b payload transient fromGateway
  | handshake target request => exact keeps_handshake target request b (Nat.le_refl _)
  | poll target force => exact keeps_poll target force b (Nat.le_refl _)
  | confirm target key =>
    rcases confirm_spec b target key with ⟨e, h⟩ | ⟨c, -, -, ⟨-, h⟩ | ⟨-, h⟩⟩ <;>
      exact Nat.le_of_eq (congrArg (·.2.nextKey) h).symm
  | recordError target key error =>
    rcases recordError_spec b target key error with ⟨e, h⟩ | ⟨c, -, h⟩ <;>
      exact Nat.le_of_eq (congrArg (·.2.nextKey) h).symm
  | disconnect target =>
    rcases disconnect_spec b target with ⟨e, -, h⟩ | ⟨c, -, h⟩ <;>
      exact Nat.le_of_eq (congrArg (·.2.nextKey) h).symm
  | detach target => exact keeps_detach target b (Nat.le_refl _)
  | setProducerState target state =>
    rcases setProducerState_spec b target state with ⟨e, h⟩ | ⟨c, -, h⟩ <;>
      exact Nat.le_of_eq (congrArg (·.2.nextKey) h).symm
  | compact limit => exact keeps_compact limit b (Nat.le_refl _)
  | validate => exact Nat.le_refl _
  | close => exact Nat.le_refl _
  | regroup => exact Nat.le_refl _
  | wait => exact Nat.le_refl _

end Keys

end Backlog

end GroupReplication
