/-
What a channel has confirmed, whatever it is asked and in whatever order, and whatever packets and
answers it gets. It is exact: all that was received is confirmed, up to the bulk that is held back.

The packets need not come from one log here, as they do for `Received`, and the same key can come with
two packets. But a packet that comes again is never held back, so at any time there is some log that
what is held back comes from, and that log can be changed where nothing was received yet.
-/
import GroupReplication.Proofs.Target.Upheld

namespace GroupReplication

open GroupReplication.Action

/-- What can be asked of a channel. -/
inductive ChannelCall where
  | requestHandshake
  | completeHandshake (response : HandshakeResponse)
  | consume (p : Packet)
  | consumeBatch (ps : List Packet)
  | flushBulk
  | disconnect
  | requireResync

/-- What the call leaves of a channel over a copy in memory, whether it succeeds or not. -/
def ChannelCall.after (r : Receiver Replica) : ChannelCall → Receiver Replica
  | requestHandshake => (Receiver.requestHandshake.perform r).2
  | completeHandshake response => ((Receiver.completeHandshake Replica.applier response).perform r).2
  | consume p => ((Receiver.consume Replica.applier p).perform r).2
  | consumeBatch ps => ((Receiver.consumeBatch Replica.applier ps).perform r).2
  | flushBulk => ((Receiver.flushBulk Replica.applier).perform r).2
  | disconnect => { r with channel := r.channel.disconnected }
  | requireResync => { r with channel := r.channel.requiringResync }

namespace Receiver

/-- A new channel over a copy. -/
def fresh (group source : String) (settings : ConflictSettings) (replica : Replica) :
    Receiver Replica := ⟨.fresh group source settings, replica, []⟩

def calls (r : Receiver Replica) (calls : List ChannelCall) : Receiver Replica :=
  calls.foldl ChannelCall.after r

end Receiver

theorem progress_true {ρ : Type} (A : Applier ρ) (settings : ConflictSettings) (log : Nat → Packet) :
    Progress A settings log fun _ _ => True :=
  ⟨fun _ _ => trivial, fun _ _ => trivial, fun _ _ _ _ _ => trivial⟩

/-! ## What every call preserves -/

namespace Receiver

variable {r : Receiver Replica}

/-- Whatever packets come, a channel stays exact. -/
theorem meets_of_exact (h : r.channel.Exact) :
    r.Meets r.channel.settings (fun _ => True) fun _ _ => True :=
  ⟨rfl, h, fun _ _ _ _ => trivial, trivial⟩

theorem upheld_true (settings : ConflictSettings) :
    Upheld settings (fun _ => True) True fun _ _ => True :=
  ⟨fun _ _ _ _ => trivial, fun _ _ _ _ _ _ _ _ _ _ => trivial⟩

theorem consume_exact (h : r.channel.Exact) (p : Packet) :
    r.channel.Advances ((consume Replica.applier p).perform r).2.channel ∧
      ((consume Replica.applier p).perform r).2.channel.Exact := by
  obtain ⟨result, r', hdone, hadvances, hmeets, -⟩ :=
    (meets_of_exact h).consume (upheld_true _) (p := p) trivial (.inl trivial)
  rw [hdone]
  exact ⟨hadvances, hmeets.exact⟩

theorem consumeBatch_exact (h : r.channel.Exact) (ps : List Packet) :
    r.channel.Advances ((consumeBatch Replica.applier ps).perform r).2.channel ∧
      ((consumeBatch Replica.applier ps).perform r).2.channel.Exact := by
  obtain ⟨result, r', hdone, hadvances, hmeets⟩ :=
    (meets_of_exact h).consumeBatch (upheld_true _) (fun p (_ : p ∈ ps) => trivial) (.inl trivial)
  rw [hdone]
  exact ⟨hadvances, hmeets.exact⟩

/-- A batch goes on where its front part ended. -/
theorem perform_consumeBatch_append {front : List Packet} {key : Nat} {r' : Receiver Replica}
    (h : (consumeBatch Replica.applier front).perform r = (.ok key, r')) (ps : List Packet) :
    (consumeBatch Replica.applier (front ++ ps)).perform r
      = (consumeBatch Replica.applier ps).perform r' := by
  induction front generalizing r with
  | nil =>
    cases h
    rfl
  | cons p front ih =>
    rw [perform_consumeBatch_cons] at h
    rw [List.cons_append, perform_consumeBatch_cons]
    rcases hfirst : (consume Replica.applier p).perform r with ⟨e | answer, r₁⟩
    · rw [hfirst] at h
      cases h
    · rw [hfirst] at h
      exact ih h

/-- A packet that skips a key is refused. -/
theorem perform_consume_beyond {p : Packet} (hbeyond : r.channel.lastReceived + 1 < p.key) :
    ∃ e, (consume Replica.applier p).perform r = (.error e, r) ∧ (r.channel.state = .active →
      e = .channel (.gap r.channel.group (r.channel.lastReceived + 1) p.key)) := by
  rw [perform_consume]
  by_cases hactive : r.channel.state = .active
  · rw [if_neg (not_not_intro hactive), if_pos hbeyond]
    exact ⟨_, rfl, fun _ => rfl⟩
  · rw [if_pos hactive]
    exact ⟨_, rfl, fun h => absurd h hactive⟩

theorem flushBulk_exact (h : r.channel.Exact) :
    r.channel.Advances ((flushBulk Replica.applier).perform r).2.channel ∧
      ((flushBulk Replica.applier).perform r).2.channel.Settled := by
  obtain ⟨log, hlog, hreceived⟩ := h.received
  obtain ⟨result, r', hdone, hadvances, -, hflushed, hfailed⟩ :=
    flushBulk_spec (progress_true Replica.applier r.channel.settings _) hlog rfl trivial hreceived
  rw [hdone]
  cases result with
  | error e => exact absurd (hfailed e rfl) Replica.not_canFail
  | ok u =>
    obtain ⟨hbulk, hlast, hconfirmed⟩ := hflushed rfl
    exact ⟨hadvances, hbulk, hlast.trans hconfirmed.symm⟩

/-- An open connection is given up before a handshake is asked for. -/
theorem requestHandshake_exact {ρ : Type} {r : Receiver ρ} (h : r.channel.Exact) :
    (requestHandshake.perform r).2.channel.lastConfirmed = r.channel.lastConfirmed ∧
      (requestHandshake.perform r).2.channel.Settled := by
  rw [perform_requestHandshake]
  by_cases hactive : r.channel.state = .active
  · rw [if_pos hactive]
    exact ⟨rfl, rfl, rfl⟩
  · have hsettled := h.settled (h.idle hactive)
    rw [if_neg hactive]
    split <;> exact ⟨rfl, hsettled.bulk, hsettled.last⟩

/-- An answer that comes while nobody waits for it changes nothing. -/
theorem perform_completeHandshake_unasked {response : HandshakeResponse}
    (hstate : r.channel.state ≠ .handshaking) :
    (completeHandshake Replica.applier response).perform r
      = (.error (.channel (.replyOutOfPlace r.channel.group r.channel.state)), r) := by
  rw [completeHandshake, perform_get_bind]
  simp only [hstate, ne_eq, not_false_eq_true, if_true]
  rfl

/-- An answer either leaves what was confirmed, or has the channel start over. -/
theorem completeHandshake_exact (h : r.channel.Exact) (response : HandshakeResponse) :
    ((completeHandshake Replica.applier response).perform r).2.channel.Exact ∧
      (((completeHandshake Replica.applier response).perform r).2.channel.lastConfirmed
          = r.channel.lastConfirmed ∨
        response.discardLocalState = true ∧ r.channel.state = .handshaking ∧
          ((completeHandshake Replica.applier response).perform r).2.channel.state = .active ∧
          ((completeHandshake Replica.applier response).perform r).2.channel.lastConfirmed
            = response.startKey - 1) := by
  by_cases hstate : r.channel.state = .handshaking
  · have hsettled := h.settled (h.idle (by rw [hstate]; exact fun heq => nomatch heq))
    rcases completeHandshake_spec Replica.applier response r with
      ⟨e, r', hdone, ⟨state, hsame, -⟩, -⟩ | ⟨r', hdone, haligned⟩
    · have hstill : TargetChannel.Settled { r.channel with state } := ⟨hsettled.bulk, hsettled.last⟩
      rw [hdone, hsame]
      exact ⟨hstill.exact, .inl rfl⟩
    · have htook : r'.channel.Settled := ⟨haligned.bulk, haligned.last.trans haligned.confirmed.symm⟩
      rw [hdone]
      refine ⟨htook.exact, ?_⟩
      cases hdiscard : response.discardLocalState with
      | true => exact .inr ⟨rfl, hstate, haligned.active, haligned.confirmed⟩
      | false =>
        obtain ⟨-, -, hbehind⟩ := haligned.resumed hdiscard
        exact .inl (haligned.confirmed.trans hbehind.symm)
  · rw [perform_completeHandshake_unasked hstate]
    exact ⟨h, .inl rfl⟩

end Receiver

/-- Only an answer that discards what the copy holds takes back what was confirmed. -/
def ChannelCall.StartsOver (r : Receiver Replica) (call : ChannelCall) : Prop :=
  ∃ response, call = .completeHandshake response ∧ response.discardLocalState = true ∧
    r.channel.state = .handshaking ∧ (call.after r).channel.state = .active ∧
    (call.after r).channel.lastConfirmed = response.startKey - 1

/-- Whatever a channel is asked leaves it exact. -/
theorem ChannelCall.after_exact {r : Receiver Replica} (h : r.channel.Exact) (call : ChannelCall) :
    (call.after r).channel.Exact ∧
      (r.channel.lastConfirmed ≤ (call.after r).channel.lastConfirmed ∨ call.StartsOver r) := by
  cases call with
  | requestHandshake =>
    obtain ⟨hconfirmed, hsettled⟩ := Receiver.requestHandshake_exact h
    exact ⟨hsettled.exact, .inl (Nat.le_of_eq hconfirmed.symm)⟩
  | completeHandshake response =>
    obtain ⟨hexact, hkept | ⟨hdiscard, hstate, hactive, hconfirmed⟩⟩ :=
      Receiver.completeHandshake_exact h response
    · exact ⟨hexact, .inl (Nat.le_of_eq hkept.symm)⟩
    · exact ⟨hexact, .inr ⟨response, rfl, hdiscard, hstate, hactive, hconfirmed⟩⟩
  | consume p =>
    obtain ⟨hadvances, hexact⟩ := Receiver.consume_exact h p
    exact ⟨hexact, .inl hadvances.confirms⟩
  | consumeBatch ps =>
    obtain ⟨hadvances, hexact⟩ := Receiver.consumeBatch_exact h ps
    exact ⟨hexact, .inl hadvances.confirms⟩
  | flushBulk =>
    obtain ⟨hadvances, hsettled⟩ := Receiver.flushBulk_exact h
    exact ⟨hsettled.exact, .inl hadvances.confirms⟩
  | disconnect => exact ⟨r.channel.settled_disconnected.exact, .inl (Nat.le_refl _)⟩
  | requireResync => exact ⟨h.congr rfl rfl rfl rfl, .inl (Nat.le_refl _)⟩

namespace Receiver

theorem calls_exact {r : Receiver Replica} (h : r.channel.Exact) (calls : List ChannelCall) :
    (r.calls calls).channel.Exact := by
  induction calls generalizing r with
  | nil => exact h
  | cons call calls ih => exact ih (call.after_exact h).1

/-- After any calls of a new channel over a copy in memory, whatever packets and answers came with
them. While the channel is active, all that was received is confirmed, up to the one bulk that is held
back and came last; while it is not, all is. Whatever is asked next, no key that was confirmed is taken
back, unless by an answer that starts over. And a packet behind the one that comes next is refused and
changes nothing, be it alone or in a batch behind packets that were consumed. -/
theorem confirmation_exact (group source : String) (settings : ConflictSettings) (replica : Replica)
    (calls : List ChannelCall) :
    let r := (fresh group source settings replica).calls calls
    (r.channel.state = .active → r.channel.Settled ∨ r.channel.HoldsBack) ∧
    (r.channel.state ≠ .active → r.channel.Settled) ∧
    (∀ call : ChannelCall, r.channel.lastConfirmed ≤ (call.after r).channel.lastConfirmed ∨
      call.StartsOver r) ∧
    ∀ p : Packet,
      (r.channel.lastReceived + 1 < p.key → ∃ e,
        (consume Replica.applier p).perform r = (.error e, r) ∧ (r.channel.state = .active →
          e = .channel (.gap r.channel.group (r.channel.lastReceived + 1) p.key))) ∧
      ∀ front rest key r', (consumeBatch Replica.applier front).perform r = (.ok key, r') →
        r'.channel.lastReceived + 1 < p.key →
        ∃ e, (consumeBatch Replica.applier (front ++ p :: rest)).perform r = (.error e, r') := by
  intro r
  have hexact : r.channel.Exact :=
    calls_exact (TargetChannel.settled_fresh group source settings).exact calls
  refine ⟨fun _ => hexact.settled_or_holdsBack, fun hidle => hexact.settled (hexact.idle hidle),
    fun call => (call.after_exact hexact).2,
    fun p => ⟨perform_consume_beyond, fun front rest key r' hfront hbeyond => ?_⟩⟩
  rw [perform_consumeBatch_append hfront]
  exact consumeBatch_refused rest fun htakes => Nat.not_lt.2 htakes.reached hbeyond

/-- A channel that started at 5 took in a packet and then two of a bulk, of which the first came once
more. -/
def withheld : List ChannelCall :=
  let write (key : Nat) (uid : String) (bulk : Option UInt64) : Packet :=
    ⟨key, 1, false, false, .entry (.write ⟨"Order", uid, 1, [], bulk⟩)⟩
  [.requestHandshake, .completeHandshake ⟨5, true, none⟩, .consume (write 5 "a" none),
    .consumeBatch [write 6 "b" (some 7), write 7 "c" (some 7)], .consume (write 6 "b" none)]

/-- It has confirmed the packet before the bulk, and does not take one that skips a key. -/
theorem confirmation_exact_withheld :
    let r := (fresh "orders" "primary" .standard (.empty false)).calls withheld
    r.channel.state = .active ∧ r.channel.HoldsBack ∧ r.channel.lastConfirmed = 5 ∧
      r.channel.lastReceived = 7 ∧
      ∀ p : Packet, p.key = 9 →
        (consume Replica.applier p).perform r = (.error (.channel (.gap "orders" 8 9)), r) := by
  obtain ⟨hactive, -, -, hrefused⟩ := confirmation_exact "orders" "primary" .standard (.empty false)
    withheld
  have hstate : ((fresh "orders" "primary" .standard (.empty false)).calls withheld).channel.state
    = .active := by decide +kernel
  have hlast : ((fresh "orders" "primary" .standard (.empty false)).calls
    withheld).channel.lastReceived = 7 := by decide +kernel
  refine ⟨hstate, (hactive hstate).resolve_left fun hsettled => ?_, by decide +kernel, hlast,
    fun p hkey => ?_⟩
  · exact absurd hsettled.bulk (by decide +kernel)
  · obtain ⟨e, hdone, hgap⟩ := (hrefused p).1 (by omega)
    rw [hgap hstate, hlast, hkey] at hdone
    exact hdone

end Receiver

end GroupReplication
