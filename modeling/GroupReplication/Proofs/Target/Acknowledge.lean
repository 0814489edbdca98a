/-
What an acknowledgement says. Over any connections of one source, and whatever calls on the copy
fail, a key is acknowledged when everything up to it was settled since the copy was last discarded,
with one exception: a commit whose operations were prepared, and of which one failed.
-/
import GroupReplication.Proofs.Target.Ledger
import GroupReplication.Proofs.Target.Reception
import GroupReplication.Proofs.Target.Session
import GroupReplication.Replica.Basic

namespace GroupReplication

open GroupReplication.Action

namespace Signal

/-- The signal can come from this source, which numbers its packets by this log. -/
def ComesFrom (source : String) (log : Nat → Packet) : Signal → Prop
  | frame _ (.connect name _) => name = source
  | frame _ (.packet p) => p = log p.key
  | frame _ (.batch ps) => ∀ p ∈ ps, p = log p.key
  | _ => True

def CarriesPackets : Signal → Prop
  | frame _ (.packet _) | frame _ (.batch _) => True
  | _ => False

end Signal

namespace Receipt

variable {ρ : Type}

/-- Where delivery starts anew, if this is a handshake that made the target discard its copy. -/
def discardedTo? (A : Applier ρ) (x : Receipt ρ) : Option Nat :=
  match x.signal, (x.before.receive A x.signal).1 with
  | .frame _ (.handshakeReply response), some (.ack _) =>
    if response.discardLocalState then some response.startKey else none
  | _, _ => none

end Receipt

namespace Reception

variable {ρ : Type}

/-- Where the last handshake that discarded the copy let delivery start; a new channel waits for key 1. -/
def startKey (A : Applier ρ) (r : Reception ρ) : Nat :=
  (r.receipts.findSome? (·.discardedTo? A)).getD 1

/-- How many entries the journal had when the copy was last discarded. -/
def discardedAt (A : Applier ρ) (r : Reception ρ) : Nat :=
  (r.receipts.find? fun x => (x.discardedTo? A).isSome).elim 0 (·.before.group.journal.length)

/-- What was journaled since the copy was last discarded. -/
def journal (A : Applier ρ) (r : Reception ρ) : List JournalEntry :=
  r.connections.group.journal.drop (r.discardedAt A)

variable {A : Applier ρ} {log : Nat → Packet} {source : String} {r : Reception ρ}
  {signal : Signal} {c? : Option TargetChannel}

theorem startKey_step_none (h : Receipt.discardedTo? A ⟨r.connections, signal⟩ = none) :
    (r.step A signal).startKey A = r.startKey A := by
  rw [startKey, step, List.findSome?_cons, h, startKey]

theorem discardedAt_step_none (h : Receipt.discardedTo? A ⟨r.connections, signal⟩ = none) :
    (r.step A signal).discardedAt A = r.discardedAt A := by
  rw [discardedAt, step, List.find?_cons_of_neg (by simp [h]), discardedAt]

theorem startKey_step_some {key : Nat}
    (h : Receipt.discardedTo? A ⟨r.connections, signal⟩ = some key) :
    (r.step A signal).startKey A = key := by
  rw [startKey, step, List.findSome?_cons, h]
  rfl

theorem discardedAt_step_some {key : Nat}
    (h : Receipt.discardedTo? A ⟨r.connections, signal⟩ = some key) :
    (r.step A signal).discardedAt A = r.connections.group.journal.length := by
  rw [discardedAt, step, List.find?_cons_of_pos (by simp [h])]
  rfl

/-- The accounts of the channel are those since the copy was last discarded. -/
structure Sound (A : Applier ρ) (log : Nat → Packet) (source : String) (r : Reception ρ)
    (c? : Option TargetChannel) : Prop where
  serves : r.connections.group.Serves source c?
  feeds : ∀ connection, (r.connections.sessions connection).Feeds source c?
  told : Told log (r.startKey A) (r.discardedAt A)
    (r.connections.group.orFresh source c?).lastConfirmed
    ⟨(r.connections.group.orFresh source c?).staged, r.connections.group.replica,
      r.connections.group.journal⟩
  received : Received log (r.connections.group.orFresh source c?)
  settings : (r.connections.group.orFresh source c?).settings = r.connections.group.settings

theorem sound_start (A : Applier ρ) (log : Nat → Packet) (source : String)
    (membership : Membership) (policy : AttachPolicy) (settings : ConflictSettings) (replica : ρ) :
    (start (.new membership policy settings replica)).Sound A log source none where
  serves := ⟨rfl, rfl⟩
  feeds _ := .inl rfl
  told := ⟨Nat.le_refl _, settles_start log (Nat.le_refl 1)⟩
  received := .all rfl rfl
  settings := rfl

/-- Other connections keep feeding the channel. -/
theorem Sound.feeds_update (h : r.Sound A log source c?) {c?' : Option TargetChannel}
    {connection : Nat} {s : Session} {g : TargetGroup ρ} (hs : s.Feeds source c?')
    (hknown : c?.isSome = true → c?'.isSome = true) (other : Nat) :
    ((r.connections.update connection s g).sessions other).Feeds source c?' := by
  simp only [Connections.update]
  split
  · exact hs
  · exact (h.feeds other).stays hknown

/-- A signal that does nothing to the copy changes nothing in the accounts. -/
theorem Sound.rests (h : r.Sound A log source c?) {connection : Nat} {s' : Session}
    {g' : TargetGroup ρ} {c?' : Option TargetChannel}
    (hstep : (r.connections.receive A signal).2 = r.connections.update connection s' g')
    (hrests : Session.Rests log source r.connections.group c? s' g' c?')
    (hnone : Receipt.discardedTo? A ⟨r.connections, signal⟩ = none) :
    (r.step A signal).Sound A log source c?' := by
  have hafter : (r.step A signal).connections = r.connections.update connection s' g' := hstep
  have hchannel : (g'.orFresh source c?').lastConfirmed
        = (r.connections.group.orFresh source c?).lastConfirmed ∧
      (g'.orFresh source c?').staged = (r.connections.group.orFresh source c?).staged ∧
      Received log (g'.orFresh source c?') ∧
      (g'.orFresh source c?').settings = (r.connections.group.orFresh source c?).settings := by
    rcases hrests.channel with hsame | ⟨-, hstands, hreceived⟩
    · rw [hsame]
      exact ⟨rfl, rfl, h.received, rfl⟩
    · exact ⟨congrArg (·.lastConfirmed) hstands.confirmation, hstands.staged, hreceived,
        hstands.settings⟩
  obtain ⟨hconfirmed, hstaged, hreceived, hsettings⟩ := hchannel
  refine ⟨?_, fun other => ?_, ?_, ?_, ?_⟩
  · rw [hafter]
    exact hrests.serves
  · rw [hafter]
    exact h.feeds_update hrests.feeds hrests.known other
  · rw [startKey_step_none hnone, discardedAt_step_none hnone, hafter]
    show Told log _ _ (g'.orFresh source c?').lastConfirmed
      ⟨(g'.orFresh source c?').staged, g'.replica, g'.journal⟩
    rw [hconfirmed, hstaged, hrests.replica, hrests.journal]
    exact h.told
  · rw [hafter]
    exact hreceived
  · rw [hafter]
    exact hsettings.trans (h.settings.trans hrests.settings.symm)

/-- Packets keep the accounts right, and are acknowledged up to where these are. -/
theorem Sound.batch (hlog : ∀ k, (log k).key = k) (h : r.Sound A log source c?) {connection : Nat}
    {ps : List Packet} (hps : ∀ p ∈ ps, p = log p.key) {f : Frame}
    (hf : ∀ {c}, r.connections.group.Serves source (some c) →
      Session.receive A f ⟨some source, some 0⟩ r.connections.group
        = Session.receive A (.batch ps) ⟨some source, some 0⟩ r.connections.group)
    (hplain : ∀ name group, f ≠ .connect name group)
    (hnone : Receipt.discardedTo? A ⟨r.connections, .frame connection f⟩ = none) :
    ∃ c?', (r.step A (.frame connection f)).Sound A log source c?' ∧
      ∀ key, (r.connections.receive A (.frame connection f)).1 = some (.ack key) →
        key = ((r.step A (.frame connection f)).connections.group.orFresh source c?').lastConfirmed := by
  rcases h.feeds connection with hnew | ⟨hfeeds, hsome⟩
  · obtain ⟨text, hrefused⟩ := Session.receive_new (g := r.connections.group) A hplain
    rw [← hnew] at hrefused
    have hreceive : r.connections.receive A (.frame connection f)
        = (some (.reject .protocol text), r.connections.update connection
          (r.connections.sessions connection) r.connections.group) := by
      simp only [Connections.receive, hrefused]
    refine ⟨c?, h.rests (congrArg Prod.snd hreceive) (.refl h.serves (h.feeds connection)) hnone,
      fun key hkey => ?_⟩
    rw [hreceive] at hkey
    cases hkey
  · obtain ⟨c, rfl⟩ := Option.isSome_iff_exists.1 hsome
    obtain ⟨reply, g', c', hbatch, hserves, hsettings, hname, hcsettings, htold, hreceived, hack⟩ :=
      Session.batch_spec (progress_told hlog) hlog hps
        (fun hp hle hphase htold happlies => htold.again (hps _ hp) hle hphase happlies) h.serves
        h.settings h.told h.received
    rw [← hf h.serves, ← hfeeds] at hbatch
    have hreceive : r.connections.receive A (.frame connection f)
        = (some reply, r.connections.update connection (r.connections.sessions connection) g') := by
      simp only [Connections.receive, hbatch]
    have hafter : (r.step A (.frame connection f)).connections
        = r.connections.update connection (r.connections.sessions connection) g' :=
      congrArg Prod.snd hreceive
    refine ⟨some c', ⟨?_, fun other => ?_, ?_, ?_, ?_⟩, fun key hkey => ?_⟩
    · rw [hafter]
      exact hserves
    · rw [hafter]
      exact h.feeds_update ((h.feeds connection).stays fun _ => rfl) (fun _ => rfl) other
    · rw [startKey_step_none hnone, discardedAt_step_none hnone, hafter]
      exact htold
    · rw [hafter]
      exact hreceived
    · rw [hafter]
      exact hcsettings.trans hsettings.symm
    · rw [hreceive] at hkey
      rw [hafter]
      exact hack key (Option.some.inj hkey)

/-- A handshake that discards the copy opens new accounts, and one that resumes goes on with the old. -/
theorem Sound.handshakeReply (h : r.Sound A log source c?) {connection : Nat}
    (response : HandshakeResponse) :
    ∃ c?', (r.step A (.frame connection (.handshakeReply response))).Sound A log source c?' := by
  let signal := Signal.frame connection (.handshakeReply response)
  rcases h.feeds connection with hnew | ⟨hfeeds, hsome⟩
  · obtain ⟨text, hrefused⟩ := Session.receive_new (g := r.connections.group) A
      (f := .handshakeReply response) fun _ _ heq => nomatch heq
    rw [← hnew] at hrefused
    have hreceive : r.connections.receive A signal = (some (.reject .protocol text),
        r.connections.update connection (r.connections.sessions connection) r.connections.group) := by
      simp only [signal, Connections.receive, hrefused]
    exact ⟨c?, h.rests (congrArg Prod.snd hreceive) (.refl h.serves (h.feeds connection))
      (by simp only [Receipt.discardedTo?, signal, hreceive])⟩
  · obtain ⟨c, rfl⟩ := Option.isSome_iff_exists.1 hsome
    obtain ⟨reply, g', c', hanswer, hserves, hjournal, hsettings, hname, houtcome⟩ :=
      Session.handshakeReply_spec log A h.serves response
    rw [← hfeeds] at hanswer
    have hreceive : r.connections.receive A signal
        = (some reply, r.connections.update connection (r.connections.sessions connection) g') := by
      simp only [signal, Connections.receive, hanswer]
    have hafter : (r.step A signal).connections
        = r.connections.update connection (r.connections.sessions connection) g' :=
      congrArg Prod.snd hreceive
    have hsound : Received log c' → c'.settings = c.settings →
        Told log ((r.step A signal).startKey A) ((r.step A signal).discardedAt A) c'.lastConfirmed
          ⟨c'.staged, g'.replica, g'.journal⟩ → (r.step A signal).Sound A log source (some c') := by
      intro hreceived hsame htold
      refine ⟨?_, fun other => ?_, ?_, ?_, ?_⟩
      · rw [hafter]
        exact hserves
      · rw [hafter]
        exact h.feeds_update ((h.feeds connection).stays fun _ => rfl) (fun _ => rfl) other
      · rw [hafter]
        exact htold
      · rw [hafter]
        exact hreceived
      · rw [hafter]
        exact hsame.trans (h.settings.trans hsettings.symm)
    have hkept : Receipt.discardedTo? A ⟨r.connections, signal⟩ = none →
        c'.lastConfirmed = c.lastConfirmed → c'.staged = c.staged →
        Told log ((r.step A signal).startKey A) ((r.step A signal).discardedAt A) c'.lastConfirmed
          ⟨c'.staged, g'.replica, g'.journal⟩ := by
      intro hnone hconfirmed hstaged
      rw [startKey_step_none hnone, discardedAt_step_none hnone, hconfirmed, hstaged, hjournal]
      exact h.told
    refine ⟨some c', ?_⟩
    rcases houtcome with ⟨hack, haligned⟩ | ⟨⟨code, text, hreject⟩, -, hstands, hreceived, -⟩
    · have hreceived : Received log c' :=
        .all haligned.bulk (haligned.last.trans haligned.confirmed.symm)
      cases hdiscard : response.discardLocalState with
      | true =>
        have hto : Receipt.discardedTo? A ⟨r.connections, signal⟩ = some response.startKey := by
          simp only [Receipt.discardedTo?, signal, hreceive, hack, hdiscard, if_true]
        refine hsound hreceived haligned.settings ?_
        rw [startKey_step_some hto, discardedAt_step_some hto, ← hjournal, haligned.confirmed,
          (haligned.discarded hdiscard).1]
        refine ⟨Nat.le_refl _, ?_⟩
        rw [List.drop_length]
        exact settles_start log haligned.started
      | false =>
        have hto : Receipt.discardedTo? A ⟨r.connections, signal⟩ = none := by
          simp only [Receipt.discardedTo?, signal, hreceive, hack, hdiscard, Bool.false_eq_true,
            if_false]
        obtain ⟨hstaged, -, hconfirmed⟩ := haligned.resumed hdiscard
        exact hsound hreceived haligned.settings
          (hkept hto (haligned.confirmed.trans hconfirmed.symm) hstaged)
    · have hto : Receipt.discardedTo? A ⟨r.connections, signal⟩ = none := by
        simp only [Receipt.discardedTo?, signal, hreceive, hreject]
      exact hsound hreceived hstands.settings
        (hkept hto (congrArg (·.lastConfirmed) hstands.confirmation) hstands.staged)

/-- Every signal of the source keeps the accounts right. -/
theorem Sound.step (hlog : ∀ k, (log k).key = k) (h : r.Sound A log source c?)
    (hsignal : signal.ComesFrom source log) :
    ∃ c?', (r.step A signal).Sound A log source c?' ∧ (signal.CarriesPackets →
      ∀ key, (r.connections.receive A signal).1 = some (.ack key) →
        key = ((r.step A signal).connections.group.orFresh source c?').lastConfirmed) := by
  cases signal with
  | close connection =>
    obtain ⟨c?', hrests, -⟩ := Session.close_spec log h.serves (h.feeds connection)
    exact ⟨c?', h.rests rfl hrests rfl, fun hcarries => absurd hcarries id⟩
  | frame connection f =>
    have hquiet : ∀ {reply s' g' c?'}, (r.connections.sessions connection).receive A f
          r.connections.group = (reply, s', g') →
        Session.Rests log source r.connections.group c? s' g' c?' →
        Receipt.discardedTo? A ⟨r.connections, .frame connection f⟩ = none →
        (r.step A (.frame connection f)).Sound A log source c?' := fun hreceive hrests hnone =>
      h.rests (show _ = r.connections.update connection _ _ by
        simp only [Connections.receive, hreceive]) hrests hnone
    cases f with
    | connect name group =>
      obtain rfl : name = source := hsignal
      obtain ⟨reply, s', g', c?', hconnect, hrests, -⟩ := Session.connect_spec log h.serves
        (h.feeds connection) (fun c hc => by subst hc; exact h.received) group
      exact ⟨c?', hquiet hconnect hrests rfl, fun hcarries => absurd hcarries id⟩
    | handshakeReply response =>
      obtain ⟨c?', hsound⟩ := h.handshakeReply response
      exact ⟨c?', hsound, fun hcarries => absurd hcarries id⟩
    | packet p =>
      have hp : ∀ q ∈ [p], q = log q.key := fun q hq => by
        rw [List.mem_singleton.1 hq]
        exact hsignal
      obtain ⟨c?', hsound, hack⟩ := h.batch hlog hp (Session.receive_packet A p)
        (fun _ _ heq => nomatch heq) rfl
      exact ⟨c?', hsound, fun _ => hack⟩
    | batch ps =>
      obtain ⟨c?', hsound, hack⟩ := h.batch hlog hsignal (fun _ => rfl) (fun _ _ heq => nomatch heq) rfl
      exact ⟨c?', hsound, fun _ => hack⟩
    | reject code text =>
      rcases h.feeds connection with hnew | ⟨hfeeds, hsome⟩
      · obtain ⟨_, hrefused⟩ := Session.receive_new (g := r.connections.group) A
          (f := .reject code text) fun _ _ heq => nomatch heq
        rw [← hnew] at hrefused
        exact ⟨c?, hquiet hrefused (.refl h.serves (h.feeds connection)) rfl,
          fun hcarries => absurd hcarries id⟩
      · obtain ⟨c, rfl⟩ := Option.isSome_iff_exists.1 hsome
        obtain ⟨reply, g', c', hreceive, hrests, -⟩ :=
          Session.reject_spec log A h.serves code text
        rw [← hfeeds] at hreceive hrests
        exact ⟨some c', hquiet hreceive hrests rfl, fun hcarries => absurd hcarries id⟩
    | handshake request =>
      exact ⟨c?, hquiet rfl (.refl h.serves (h.feeds connection)) rfl,
        fun hcarries => absurd hcarries id⟩
    | ack key =>
      exact ⟨c?, hquiet rfl (.refl h.serves (h.feeds connection)) rfl,
        fun hcarries => absurd hcarries id⟩

theorem Sound.steps (hlog : ∀ k, (log k).key = k) (h : r.Sound A log source c?)
    (signals : List Signal) (hsignals : ∀ signal ∈ signals, signal.ComesFrom source log) :
    ∃ c?', (r.steps A signals).Sound A log source c?' := by
  induction signals generalizing r c? with
  | nil => exact ⟨c?, h⟩
  | cons signal signals ih =>
    obtain ⟨c?', hstep, -⟩ := h.step hlog (hsignals signal (List.mem_cons_self ..))
    exact ih hstep fun other hother => hsignals other (List.mem_cons_of_mem _ hother)

/-- Whatever calls on the copy fail, and in any run of one source's connections: when packets are
answered with the acknowledgement of a key, all effects that became due from the start of delivery
up to that key were settled, in their order and since the copy was discarded, unless one of a commit
without operations of its own failed since then; and then they were not. -/
theorem acknowledged_iff (A : Applier ρ) {log : Nat → Packet} (hlog : ∀ k, (log k).key = k)
    (source : String) (membership : Membership) (policy : AttachPolicy)
    (settings : ConflictSettings) (replica : ρ) (signals : List Signal)
    (hsignals : ∀ signal ∈ signals, signal.ComesFrom source log) (signal : Signal)
    (hsignal : signal.ComesFrom source log) (hcarries : signal.CarriesPackets) (key : Nat) :
    let r := (start (.new membership policy settings replica)).steps A signals
    let r' := r.step A signal
    (r.connections.receive A signal).1 = some (.ack key) →
      ((∀ k, r'.startKey A ≤ k → k ≤ key →
          (dueAt log (r'.startKey A) k).Sublist (settledAt (r'.journal A) k)) ↔
        ∀ k, r'.startKey A ≤ k → k ≤ key → (log k).commitsPrepared = true →
          ¬ FailedAt (r'.journal A) k) := by
  intro r r' hack
  obtain ⟨c?, hsound⟩ := (sound_start A log source membership policy settings replica).steps hlog
    signals hsignals
  obtain ⟨c?', hsound', hkey⟩ := Sound.step hlog hsound hsignal
  have htold := hsound'.told.2.told
  rw [← hkey hcarries key hack] at htold
  exact forall_congr' fun k => forall_congr' fun hk => forall_congr' fun hle => htold k hk hle

/-- A log of writes to one entry. -/
def writeLog (key : Nat) : Packet :=
  ⟨key, 1, false, false, .entry (.write ⟨"Order", "a", 1, [], none⟩)⟩

/-- A copy that counts the calls that are still to fail. -/
def stalling : Applier Nat where
  apply _ _ calls := if calls = 0 then (.ok (), 0) else (.error (.fatal "stalled"), calls - 1)
  overwrite _ calls := (.ok (), calls)
  clearGroup _ calls := (.ok (), calls)

/-- A write failed, and the source came back. -/
def writeAgain : List Signal :=
  [.frame 0 (.connect "primary" "orders"), .frame 0 (.handshakeReply ⟨1, true, none⟩),
    .frame 0 (.packet (writeLog 1)), .close 0, .frame 1 (.connect "primary" "orders"),
    .frame 1 (.handshakeReply ⟨1, false, none⟩)]

/-- The write is settled once its key is acknowledged. -/
theorem acknowledged_iff_writeAgain :
    let r := (start (.new (.openTo "orders") .multiSource .standard 1)).steps stalling writeAgain
    let r' := r.step stalling (.frame 1 (.batch [writeLog 1]))
    ∀ k, r'.startKey stalling ≤ k → k ≤ 1 →
      (dueAt writeLog (r'.startKey stalling) k).Sublist (settledAt (r'.journal stalling) k) := by
  intro r r'
  have hsignals : ∀ signal ∈ writeAgain, signal.ComesFrom "primary" writeLog := by
    intro signal hsignal
    simp only [writeAgain, List.mem_cons, List.not_mem_nil, or_false] at hsignal
    rcases hsignal with rfl | rfl | rfl | rfl | rfl | rfl <;> first | rfl | trivial
  have hsignal : Signal.ComesFrom "primary" writeLog (.frame 1 (.batch [writeLog 1])) := by
    intro p hp
    rw [List.mem_singleton.1 hp]
    rfl
  refine (acknowledged_iff stalling (fun _ => rfl) "primary" (.openTo "orders") .multiSource
    .standard 1 writeAgain hsignals (.frame 1 (.batch [writeLog 1])) hsignal trivial 1
    (by decide +kernel)).2 fun k _ _ hcommits => ?_
  cases hcommits

/-- A log that prepares a write, commits it, and goes on with nothing. -/
def preparedLog (key : Nat) : Packet :=
  ⟨key, 1, false, false, .transaction (if key = 1 then .prepare else if key = 2 then .commit else .abort)
    ⟨7, if key = 1 then [.write ⟨"Order", "a", 1, [], none⟩] else []⟩⟩

/-- The commit comes again after its write failed. -/
def commitAgain : List Signal :=
  [.frame 0 (.connect "primary" "orders"), .frame 0 (.handshakeReply ⟨1, true, none⟩),
    .frame 0 (.packet (preparedLog 1)), .frame 0 (.packet (preparedLog 2)), .close 0,
    .frame 1 (.connect "primary" "orders"), .frame 1 (.handshakeReply ⟨2, false, none⟩)]

/-- The commit is acknowledged, but its write never took place. -/
theorem commit_acknowledged_unsettled :
    let A := InjectedFailures.applier ⟨["a"], [], false⟩ Replica.applier
    let r := (start (.new (.openTo "orders") .singleActiveSource .standard (.empty false))).steps A
      commitAgain
    let r' := r.step A (.frame 1 (.packet (preparedLog 2)))
    (r.connections.receive A (.frame 1 (.packet (preparedLog 2)))).1 = some (.ack 2) ∧
      r'.startKey A = 1 ∧
      dueAt preparedLog 1 2 = [.entry (.write ⟨"Order", "a", 1, [], none⟩)] ∧
      settledAt (r'.journal A) 2 = [] := by
  decide +kernel

end Reception

end GroupReplication
