/-
What one operation can make of a backlog, whatever the operation is. Invariants are proved by cases
on this and not by going through the operations again.
-/
import GroupReplication.Proofs.Backlog.Operations

namespace GroupReplication

/-- A change to a channel that hands out nothing. What a channel that can still be polled would hand
out next stays the same, a channel that has to start over still has to, what is confirmed stays
confirmed, and no handshake is left in between. -/
structure SourceChannel.Shifts (c c' : SourceChannel) : Prop where
  room : c'.accumulator.maxSize = c.accumulator.maxSize
  confirmed : c.lastConfirmed ≤ c'.lastConfirmed
  lost : c.resyncRequired = true → c'.resyncRequired = true
  due : c'.state = .active → c'.resyncRequired = false →
    c.state = .active ∧ c'.cursor = c.cursor ∧ c'.accumulator.packets = c.accumulator.packets
  rest : c.state.AtRest → c'.state.AtRest

/-- What becomes of a channel's accounts while nothing is logged, handed out or removed: they stay,
or packets that were sent are confirmed. -/
inductive SourceChannel.Settles (c : SourceChannel) : SourceChannel → Prop where
  | stays {c' : SourceChannel} (confirmed : c'.lastConfirmed = c.lastConfirmed)
      (weight : c'.confirmation.weight = c.confirmation.weight)
      (inFlight : c'.inFlight = c.inFlight) (lastSent : c'.lastSent = c.lastSent)
      (discarded : c'.confirmation.discarded = c.confirmation.discarded) : c.Settles c'
  | confirms {key : Nat} (ahead : c.lastConfirmed < key) (sent : key ≤ c.lastSent) :
      c.Settles (c.confirm key)

namespace SourceChannel

/-! A channel that is disconnected waits for a handshake, and keeps its accounts. -/

theorem shifts_disconnected (c : SourceChannel) : c.Shifts c.disconnected := by
  unfold disconnected
  split
  · exact ⟨rfl, Nat.le_refl _, id, (fun ha => by cases ha), fun _ => .inr rfl⟩
  · exact ⟨rfl, Nat.le_refl _, id, (fun ha => by cases ha), fun _ => .inr rfl⟩
  · exact ⟨rfl, Nat.le_refl _, id, fun ha _ => ⟨ha, rfl, rfl⟩, id⟩
  · exact ⟨rfl, Nat.le_refl _, id, fun ha _ => ⟨ha, rfl, rfl⟩, id⟩

theorem settles_disconnected (c : SourceChannel) : c.Settles c.disconnected := by
  unfold disconnected
  split <;> exact .stays rfl rfl rfl rfl rfl

theorem accounts_disconnected (c : SourceChannel) :
    c.disconnected.lastConfirmed = c.lastConfirmed ∧
      c.disconnected.resyncRequired = c.resyncRequired := by
  unfold disconnected
  split <;> exact ⟨rfl, rfl⟩

end SourceChannel

/-- The channel could be polled, but the log, which starts at `earliest`, begins behind the place where
it reads on. -/
def SourceChannel.Stranded (earliest : Nat) (c : SourceChannel) : Prop :=
  c.state = .active ∧ c.resyncRequired = false ∧ ∃ key, c.cursor = .catchingUp key ∧ key < earliest

/-- An operation that logs nothing, starts no epoch and hands out nothing. -/
structure Turn.Silent (t : Turn) : Prop where
  appended : t.appended? = none
  start : ∀ target, t.start? target = none
  batch : ∀ target, t.batch? target = none

namespace Backlog

/-- What a channel is handed, and what that leaves of it: the next packets of the log, which end
where its cursor then stands, or a cut from its accumulator. -/
inductive Hands (b : Backlog) (ps : List Packet) (force : Bool) (c : SourceChannel) :
    (batch : List Packet) → (c' : SourceChannel) → Prop where
  | read {key : Nat} (cursor : c.cursor = .catchingUp key) (isOpen : b.log.isClosed = false)
      (earliest : b.log.earliest ≤ key) :
      Hands b ps force c (b.batchFrom ps key) (b.caughtUp (b.batchFrom ps key) c)
  | cut {batch : List Packet} {accumulator : Accumulator} (cursor : c.cursor = .live)
      (polled : c.accumulator.poll b.now force = some (batch, accumulator)) :
      Hands b ps force c batch ({ c with accumulator }.recordSent batch)

/-- All that can become of a backlog over a log that holds `ps`. -/
inductive Becomes (b : Backlog) (ps : List Packet) (op : Operation) : Backlog → Prop where
  | idle {b' : Backlog} (log : b'.log = b.log) (nextKey : b'.nextKey = b.nextKey)
      (settings : b'.settings = b.settings) (channels : b'.channels = b.channels)
      (silent : Turn.Silent ⟨b, op⟩) : Becomes b ps op b'
  | touched {target : String} {c c' : SourceChannel} (found : b.channel? target = some c)
      (shifts : c.Shifts c') (silent : Turn.Silent ⟨b, op⟩)
      (unconfirmed : (∀ key, op ≠ .confirm target key) → c'.lastConfirmed = c.lastConfirmed)
      (settles : c.Settles c')
      (flagged : c'.resyncRequired = true → c.resyncRequired = true ∨ c.Stranded b.log.earliest) :
      Becomes b ps op (b.withChannel target c')
  | welcomed {target : String} {request : HandshakeRequest} {response : HandshakeResponse}
      {c : SourceChannel} {weight : Nat} (asked : op = .handshake target request)
      (agreed : negotiate request b.retained = .ok response) (isOpen : b.log.isClosed = false)
      (found : c = (b.channel? target).getD
        (.fresh (.empty b.settings.maxBatchSize b.settings.maxBatchAge)))
      (started : Turn.start? target ⟨b, op⟩ = some response.startKey)
      (weighs : weight = Packet.totalWeight (ps.dropWhile (·.key < response.startKey))) :
      Becomes b ps op
        (b.withChannel target (Backlog.welcomed request response.startKey weight c))
  | handed {target : String} {force : Bool} {c c' : SourceChannel} {batch : List Packet}
      (asked : op = .poll target force) (found : b.channel? target = some c)
      (active : c.state = .active) (synced : c.resyncRequired = false)
      (hands : b.Hands ps force c batch c')
      (answered : (Turn.batch? target ⟨b, op⟩).getD [] = batch) :
      Becomes b ps op (b.withChannel target c')
  | detached {target : String} {n : Nat} {log : PacketLog} (trims : b.log.TrimsTo (ps.drop n) log)
      (last : b.channels.erase target ≠ [] → n = 0) (silent : Turn.Silent ⟨b, op⟩)
      (asked : op = .detach target) :
      Becomes b ps op { b with log, channels := b.channels.erase target }
  | compacted {n : Nat} {log : PacketLog} (trims : b.log.TrimsTo (ps.drop n) log)
      (confirmed : ∀ p ∈ ps.take n, ∀ c ∈ b.channels.values, p.key ≤ c.lastConfirmed)
      (silent : Turn.Silent ⟨b, op⟩) : Becomes b ps op { b with log }
  | refused {n : Nat} {log : PacketLog} (trims : b.log.TrimsTo (ps.drop n) log)
      (silent : Turn.Silent ⟨b, op⟩)
      (asked : ∃ payload transient fromGateway, op = .add payload transient fromGateway)
      (spared : b.settings.fullPolicy = .reject → n = 0) :
      Becomes b ps op (b.discarded (ps.take n) log)
  | added {payload : Payload} {transient fromGateway : Bool} {n : Nat} {log log' : PacketLog}
      (registered : b.channels ≠ []) (trims : b.log.TrimsTo (ps.drop n) log)
      (holds : log'.Holds (ps.drop n ++ [b.numbered payload transient fromGateway]))
      (last : log'.lastAppended = some b.nextKey) (isOpen' : log'.isClosed = false)
      (isOpen : b.log.isClosed = false)
      (asked : op = .add payload transient fromGateway)
      (appended : Turn.appended? ⟨b, op⟩ = some (b.numbered payload transient fromGateway))
      (spared : b.settings.fullPolicy = .reject → n = 0) :
      Becomes b ps op
        ((b.discarded (ps.take n) log).extended (b.numbered payload transient fromGateway) log')
  | closed {log : PacketLog} (asked : op = .close) (holds : log.Holds ps)
      (isClosed : log.isClosed = true) (last : log.lastAppended = b.log.lastAppended) :
      Becomes b ps op { b with log }

open GroupReplication.Action

variable {b : Backlog} {ps : List Packet}

theorem Becomes.unchanged {op : Operation} (silent : Turn.Silent ⟨b, op⟩) : b.Becomes ps op b :=
  .idle rfl rfl rfl rfl silent

/-! ## One operation at a time -/

theorem silent_add {payload : Payload} {transient fromGateway : Bool}
    (h : ∀ key, ((addPayload payload transient fromGateway).perform b).1 ≠ .ok (some key)) :
    Turn.Silent ⟨b, .add payload transient fromGateway⟩ := by
  refine ⟨?_, fun _ => rfl, fun _ => rfl⟩
  rcases hr : (addPayload payload transient fromGateway).perform b with ⟨e | key?, b'⟩
  · simp [Turn.appended?, Turn.added?, hr, Except.toOption]
  · cases key? with
    | none => simp [Turn.appended?, Turn.added?, hr, Except.toOption]
    | some key => exact absurd (by rw [hr]) (h key)

theorem becomes_add (h : b.log.Holds ps) (hkey : b.nextKey < 2 ^ 64) (payload : Payload)
    (transient fromGateway : Bool) :
    b.Becomes ps (.add payload transient fromGateway)
      ((addPayload payload transient fromGateway).perform b).2 := by
  rcases addPayload_spec h hkey payload transient fromGateway with
    ⟨-, hok⟩ | ⟨hne, n, log, hto, hspared, ⟨e, he⟩ | ⟨log', hok, hholds, hlast, hopen', hopen⟩⟩
  · have hsilent : Turn.Silent ⟨b, .add payload transient fromGateway⟩ :=
      silent_add (by simp [hok])
    rw [hok]
    exact .unchanged hsilent
  · have hsilent : Turn.Silent ⟨b, .add payload transient fromGateway⟩ :=
      silent_add (by simp [he])
    rw [he]
    exact .refused hto hsilent ⟨_, _, _, rfl⟩ hspared
  · have happended : Turn.appended? ⟨b, .add payload transient fromGateway⟩
        = some (b.numbered payload transient fromGateway) := by
      simp [Turn.appended?, Turn.added?, hok, Except.toOption, numbered]
    rw [hok]
    exact .added hne hto hholds hlast hopen' hopen rfl happended hspared

theorem becomes_handshake (h : b.log.Holds ps) (target : String) (request : HandshakeRequest) :
    b.Becomes ps (.handshake target request) ((handshake target request).perform b).2 := by
  rcases handshake_spec h target request with ⟨e, he⟩ | ⟨response, c, hagreed, hopen, hfound, hok⟩
  · have hsilent : Turn.Silent ⟨b, .handshake target request⟩ :=
      ⟨rfl, fun _ => by simp [Turn.start?, he, Except.toOption], fun _ => rfl⟩
    rw [he]
    exact .unchanged hsilent
  · have hstarted : Turn.start? target ⟨b, .handshake target request⟩ = some response.startKey := by
      simp [Turn.start?, hok, Except.toOption]
    rw [hok]
    exact .welcomed rfl hagreed hopen hfound hstarted rfl

theorem silent_poll {target : String} {force : Bool}
    (h : ((poll target force).perform b).1.toOption.join = none) :
    Turn.Silent ⟨b, .poll target force⟩ :=
  ⟨rfl, fun _ => rfl, fun _ => by simp [Turn.batch?, h]⟩

theorem becomes_poll (h : b.log.Holds ps) (target : String) (force : Bool) :
    b.Becomes ps (.poll target force) ((poll target force).perform b).2 := by
  rcases poll_spec h target force with ⟨e, he⟩ | ⟨c, hc, hactive, hsynced,
    ⟨key, hcursor, hgone, he⟩ | ⟨key, hcursor, hopen, hearliest, hok⟩ | ⟨-, -, hok⟩ |
      ⟨batch, a, hlive, hcut, hok⟩⟩
  · have hsilent := silent_poll (b := b) (by rw [he]; rfl)
    rw [he]
    exact .unchanged hsilent
  · have hsilent := silent_poll (b := b) (by rw [he]; rfl)
    rw [he]
    exact .touched hc ⟨rfl, Nat.le_refl _, fun _ => rfl, (fun _ hresync => by cases hresync), id⟩
      hsilent (fun _ => rfl) (.stays rfl rfl rfl rfl rfl)
      fun _ => .inr ⟨hactive, hsynced, key, hcursor, hgone⟩
  · have hanswer : (Turn.batch? target ⟨b, .poll target force⟩).getD [] = b.batchFrom ps key := by
      cases hempty : (b.batchFrom ps key).isEmpty with
      | true =>
        rw [List.isEmpty_iff] at hempty
        simp [Turn.batch?, hok, hempty, Except.toOption]
      | false => simp [Turn.batch?, hok, hempty, Except.toOption]
    rw [hok]
    exact .handed rfl hc hactive hsynced (.read hcursor hopen hearliest) hanswer
  · have hsilent := silent_poll (b := b) (by rw [hok]; rfl)
    rw [hok]
    exact .unchanged hsilent
  · have hanswer : (Turn.batch? target ⟨b, .poll target force⟩).getD [] = batch := by
      simp [Turn.batch?, hok, Except.toOption]
    rw [hok]
    exact .handed rfl hc hactive hsynced (.cut hlive hcut) hanswer

theorem becomes_confirm (target : String) (key : Nat) :
    b.Becomes ps (.confirm target key) ((confirm target key).perform b).2 := by
  have hsilent : Turn.Silent ⟨b, .confirm target key⟩ := ⟨rfl, fun _ => rfl, fun _ => rfl⟩
  rcases confirm_spec b target key with ⟨e, he⟩ | ⟨c, hc, hsent, ⟨-, hok⟩ | ⟨hahead, hok⟩⟩
  · rw [he]
    exact .unchanged hsilent
  · rw [hok]
    exact .unchanged hsilent
  · rw [hok]
    exact .touched hc ⟨rfl, c.lastConfirmed_confirm key, id, fun ha _ => ⟨ha, rfl, rfl⟩, id⟩ hsilent
      (fun hother => absurd rfl (hother key)) (.confirms (of_decide_eq_true hahead) hsent) .inl

theorem becomes_recordError (target : String) (key : Nat) (error : Error) :
    b.Becomes ps (.recordError target key error) ((recordError target key error).perform b).2 := by
  have hsilent : Turn.Silent ⟨b, .recordError target key error⟩ := ⟨rfl, fun _ => rfl, fun _ => rfl⟩
  rcases recordError_spec b target key error with ⟨e, he⟩ | ⟨c, hc, hok⟩
  · rw [he]
    exact .unchanged hsilent
  · have hsame := c.confirmation.lastConfirmed_pin key error
    rw [hok]
    exact .touched hc ⟨rfl, Nat.le_of_eq hsame.symm, id, fun ha _ => ⟨ha, rfl, rfl⟩, id⟩ hsilent
      (fun _ => hsame) (.stays hsame (c.confirmation.weight_pin key error) rfl rfl
        (c.confirmation.discarded_pin key error)) .inl

theorem becomes_disconnect (target : String) :
    b.Becomes ps (.disconnect target) ((disconnect target).perform b).2 := by
  have hsilent : Turn.Silent ⟨b, .disconnect target⟩ := ⟨rfl, fun _ => rfl, fun _ => rfl⟩
  rcases disconnect_spec b target with ⟨e, -, he⟩ | ⟨c, hc, hok⟩
  · rw [he]
    exact .unchanged hsilent
  · obtain ⟨hconfirmed, hflagged⟩ := c.accounts_disconnected
    rw [hok]
    exact .touched hc c.shifts_disconnected hsilent (fun _ => hconfirmed) c.settles_disconnected
      fun hlost => .inl (hflagged ▸ hlost)

theorem becomes_detach (h : b.log.Holds ps) (target : String) :
    b.Becomes ps (.detach target) ((detach target).perform b).2 := by
  have hsilent : Turn.Silent ⟨b, .detach target⟩ := ⟨rfl, fun _ => rfl, fun _ => rfl⟩
  rcases detach_spec h target with ⟨e, he⟩ | ⟨r, n, log, hok, hto, hlast⟩
  · rw [he]
    exact .unchanged hsilent
  · rw [hok]
    exact .detached hto hlast hsilent rfl

theorem becomes_setProducerState (target : String) (state : Bytes) :
    b.Becomes ps (.setProducerState target state) ((setProducerState target state).perform b).2 := by
  have hsilent : Turn.Silent ⟨b, .setProducerState target state⟩ := ⟨rfl, fun _ => rfl, fun _ => rfl⟩
  rcases setProducerState_spec b target state with ⟨e, he⟩ | ⟨c, hc, hok⟩
  · rw [he]
    exact .unchanged hsilent
  · rw [hok]
    exact .touched hc ⟨rfl, Nat.le_refl _, id, fun ha _ => ⟨ha, rfl, rfl⟩, id⟩ hsilent
      (fun _ => rfl) (.stays rfl rfl rfl rfl rfl) .inl

/-- Every operation makes of a backlog one of these. -/
theorem becomes_after (h : b.log.Holds ps) (hkey : b.nextKey < 2 ^ 64) (op : Operation) :
    b.Becomes ps op (op.after b) := by
  cases op with
  | add payload transient fromGateway => exact becomes_add h hkey payload transient fromGateway
  | handshake target request => exact becomes_handshake h target request
  | poll target force => exact becomes_poll h target force
  | confirm target key => exact becomes_confirm target key
  | recordError target key error => exact becomes_recordError target key error
  | disconnect target => exact becomes_disconnect target
  | detach target => exact becomes_detach h target
  | setProducerState target state => exact becomes_setProducerState target state
  | compact limit =>
    show b.Becomes ps _ ((compact limit).perform b).2
    obtain ⟨r, n, log, hok, hto, hconfirmed⟩ := compact_spec h limit
    rw [hok]
    exact .compacted hto hconfirmed ⟨rfl, fun _ => rfl, fun _ => rfl⟩
  | validate =>
    show b.Becomes ps _ (validate.perform b).2
    obtain ⟨r, hok⟩ := validate_spec h
    rw [hok]
    exact .unchanged ⟨rfl, fun _ => rfl, fun _ => rfl⟩
  | close =>
    show b.Becomes ps _ (close.perform b).2
    obtain ⟨log, hok, hholds, hclosed, hlast⟩ := close_spec h
    rw [hok]
    exact .closed rfl hholds hclosed hlast
  | regroup membership => exact .idle rfl rfl rfl rfl ⟨rfl, fun _ => rfl, fun _ => rfl⟩
  | wait time => exact .idle rfl rfl rfl rfl ⟨rfl, fun _ => rfl, fun _ => rfl⟩

end Backlog

end GroupReplication
