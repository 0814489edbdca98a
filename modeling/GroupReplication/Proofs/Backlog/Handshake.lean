/-
When a handshake succeeds, and what it leaves. It takes a channel through several states, and each
step may be refused. None is, because every call leaves a channel active or disconnected, so what was
agreed on is carried out, and a handshake that fails has not changed anything.
-/
import GroupReplication.Proofs.Backlog.Resume
import GroupReplication.Proofs.Backlog.Retained

namespace GroupReplication

/-! ## Channels at rest -/

namespace Backlog

open GroupReplication.Action

variable {b b' : Backlog} {ps : List Packet} {op : Operation} {target : String}

/-- No call is in the middle of a handshake. -/
def Rests (b : Backlog) : Prop := ∀ target c, b.channel? target = some c → c.state.AtRest

theorem rests_ofLog (membership : Membership) (settings : BacklogSettings) (log : PacketLog) :
    (ofLog membership settings log).Rests := by
  intro target c hc
  rw [channel?, show (ofLog membership settings log).channels = [] from rfl, Table.get?_nil] at hc
  cases hc

namespace Rests

theorem withChannel (h : b.Rests) {c : SourceChannel} (hc : c.state.AtRest) :
    (b.withChannel target c).Rests := by
  intro other c' hc'
  by_cases hother : other = target
  · subst hother
    rw [channel?_withChannel_self] at hc'
    cases hc'
    exact hc
  · exact h other c' (channel?_withChannel_other hother c b ▸ hc')

/-- A change to every channel that leaves its state alone. -/
theorem mapped (h : b.Rests) {f : SourceChannel → SourceChannel} (hf : ∀ c, (f c).state = c.state)
    (hchannels : ∀ target, b'.channel? target = (b.channel? target).map f) : b'.Rests := by
  intro other c hc
  rw [hchannels] at hc
  obtain ⟨c', hc', rfl⟩ := Option.map_eq_some_iff.1 hc
  rw [hf]
  exact h other c' hc'

theorem discarded (h : b.Rests) (removed : List Packet) (log : PacketLog) :
    (b.discarded removed log).Rests :=
  h.mapped (fun c => c.state_afterDiscard removed) (channel?_discarded b removed log)

theorem extended (h : b.Rests) (p : Packet) (log : PacketLog) : (b.extended p log).Rests :=
  h.mapped (SourceChannel.state_afterAdd b.now p) (channel?_extended b p log)

theorem after (h : b.Rests) (hbecomes : b.Becomes ps op b') : b'.Rests := by
  cases hbecomes with
  | idle _ _ _ hchannels =>
    intro target c hc
    rw [channel?, hchannels] at hc
    exact h target c hc
  | touched hfound hshifts => exact h.withChannel (hshifts.rest (h _ _ hfound))
  | welcomed => exact h.withChannel (.inl rfl)
  | handed _ hfound _ _ hhands =>
    have hrest := h _ _ hfound
    cases hhands with
    | read => exact h.withChannel hrest
    | cut => exact h.withChannel hrest
  | @detached target n log =>
    intro other c hc
    by_cases hother : other = target
    · rw [hother, channel?, Table.get?_erase_self] at hc
      cases hc
    · rw [channel?, Table.get?_erase_other _ hother] at hc
      exact h other c hc
  | compacted | closed => exact h
  | refused => exact h.discarded _ _
  | added => exact (h.discarded _ _).extended _ _

theorem rebuilt (h : b.Rests) (membership : Membership) (settings : BacklogSettings)
    (options : FileOptions) : (b.rebuilt membership settings options).Rests := by
  unfold Backlog.rebuilt
  split
  · exact h
  · split
    · exact rests_ofLog membership settings _
    · exact h

end Rests

/-! ## What a handshake comes to -/

/-- A request is met exactly if it starts over, or resumes at a key that is there or comes next. -/
theorem negotiate_ok_iff {request : HandshakeRequest} {range : RetainedRange} :
    (∃ response, negotiate request range = .ok response) ↔
      request.first = true ∨ (range.earliest ≤ request.lastConfirmed + 1 ∧
        request.lastConfirmed + 1 ≤ range.nextKey ∧ request.lastConfirmed + 1 < 2 ^ 64) := by
  rw [negotiate]
  cases request.first with
  | true => simp
  | false =>
    simp only [Bool.false_eq_true, if_false, false_or]
    by_cases hrange : 2 ^ 64 ≤ request.lastConfirmed + 1
    · simp only [if_pos hrange, reduceCtorEq, exists_false, false_iff]
      omega
    rw [if_neg hrange]
    by_cases hissued : range.nextKey < request.lastConfirmed + 1
    · simp only [if_pos hissued, reduceCtorEq, exists_false, false_iff]
      omega
    rw [if_neg hissued]
    by_cases hgone : request.lastConfirmed + 1 < range.earliest
    · simp only [if_pos hgone, reduceCtorEq, exists_false, false_iff]
      omega
    rw [if_neg hgone]
    exact ⟨fun _ => by omega, fun _ => ⟨_, rfl⟩⟩

/-- Where a request that is met lets delivery start. -/
theorem startKey_of_negotiate {request : HandshakeRequest} {range : RetainedRange}
    {response : HandshakeResponse} (h : negotiate request range = .ok response) :
    response.startKey = if request.first then range.earliest else request.lastConfirmed + 1 := by
  cases hfirst : request.first with
  | true =>
    rw [negotiate, if_pos hfirst] at h
    cases h
    rfl
  | false => exact (negotiate_ok h).2 hfirst

/-- A channel that delivers from `start` on and has neither sent nor lost anything yet. -/
structure Renewed (start : Nat) (c : SourceChannel) : Prop where
  active : c.state = .active
  confirmed : c.lastConfirmed = start - 1
  reads : c.cursor = .catchingUp start
  synced : c.resyncRequired = false
  inFlight : c.inFlight = []
  waiting : c.accumulator.packets = []

theorem renewed_welcomed (request : HandshakeRequest) (start weight : Nat) (c : SourceChannel) :
    Renewed start (welcomed request start weight c) := ⟨rfl, rfl, rfl, rfl, rfl, rfl⟩

theorem earliest_of_holds (h : b.log.Holds ps) (hopen : b.log.isClosed = false) :
    b.retained.earliest = (b.log.packets.head?.map (·.key)).getD b.nextKey := by
  rw [h.packets hopen, ← h.firstKey hopen]
  rfl

theorem handshake_ok_iff (h : b.log.Holds ps) (hrests : b.Rests) (hopen : b.log.isClosed = false)
    (target : String) (request : HandshakeRequest) :
    (∃ response, ((handshake target request).perform b).1 = .ok response) ↔
      b.membership.allowsTarget target = true ∧
        ∃ response, negotiate request b.retained = .ok response := by
  constructor
  · rintro ⟨response, hok⟩
    rcases handshake_spec h target request with ⟨e, he⟩ | ⟨agreed, c, hagreed, -, -, hperform⟩
    · rw [he] at hok
      cases hok
    · refine ⟨?_, agreed, hagreed⟩
      cases hallowed : b.membership.allowsTarget target with
      | true => rfl
      | false =>
        rw [handshake_unknown hallowed] at hok
        cases hok
  · rintro ⟨hallowed, response, hagreed⟩
    obtain ⟨c, -, hok⟩ := handshake_agreed h hallowed hagreed hopen (hrests target)
    exact ⟨_, congrArg Prod.fst hok⟩

theorem handshake_error (h : b.log.Holds ps) {request : HandshakeRequest} {e : Error}
    (he : ((handshake target request).perform b).1 = .error e) :
    ((handshake target request).perform b).2 = b := by
  rcases handshake_spec h target request with ⟨e', he'⟩ | ⟨response, c, -, -, -, hok⟩
  · rw [he']
  · rw [hok] at he
    cases he

theorem handshake_ok (h : b.log.Holds ps) {request : HandshakeRequest} {response : HandshakeResponse}
    (hok : ((handshake target request).perform b).1 = .ok response) :
    b.log.isClosed = false ∧
      response.startKey
        = (if request.first then b.retained.earliest else request.lastConfirmed + 1) ∧
      response.discardLocalState = request.first ∧
      response.state = (b.channel? target).bind (·.producerState) ∧
      ∃ c, Renewed response.startKey c ∧
        ((handshake target request).perform b).2 = b.withChannel target c := by
  rcases handshake_spec h target request with ⟨e, he⟩ | ⟨agreed, c, hagreed, hopen, hc, hperform⟩
  · rw [he] at hok
    cases hok
  · have hstart := startKey_of_negotiate hagreed
    have hdiscard := (negotiate_ok hagreed).1
    rw [hperform] at hok
    cases hok
    refine ⟨hopen, hstart, hdiscard, ?_, _, renewed_welcomed request _ _ c, by rw [hperform]⟩
    rw [hc]
    cases b.channel? target <;> rfl

/-- In any run, restarts included, over any log that came about by its own operations: while the log
is open, a handshake succeeds exactly if the target may connect and its request starts over or resumes
at a key that is retained or comes next. It then answers where delivery starts, and the channel of
the target is all that it changes. A handshake that fails changes nothing. -/
theorem handshake_exact {log : PacketLog} (hlog : log.Reachable) (membership : Membership)
    (settings : BacklogSettings) (events : List BacklogEvent) (target : String) (request : HandshakeRequest)
    (hkeys : ∀ past, past <+: events →
      ((Run.start (.ofLog membership settings log)).undergoAll past).backlog.nextKey < 2 ^ 64) :
    let b := ((Run.start (.ofLog membership settings log)).undergoAll events).backlog
    let earliest := (b.log.packets.head?.map (·.key)).getD b.nextKey
    let answer := ((handshake target request).perform b).1
    let b' := ((handshake target request).perform b).2
    (b.log.isClosed = false →
      ((∃ response, answer = .ok response) ↔ b.membership.allowsTarget target = true ∧
        (request.first = true ∨ (earliest ≤ request.lastConfirmed + 1 ∧
          request.lastConfirmed + 1 ≤ b.nextKey ∧ request.lastConfirmed + 1 < 2 ^ 64)))) ∧
      (∀ e, answer = .error e → b' = b) ∧
      ∀ response, answer = .ok response →
        response.startKey = (if request.first then earliest else request.lastConfirmed + 1) ∧
          response.discardLocalState = request.first ∧
          response.state = (b.channel? target).bind (·.producerState) ∧
          ∃ c, Renewed response.startKey c ∧ b' = b.withChannel target c ∧
            b'.channel? target = some c ∧
            ∀ other, other ≠ target → b'.channel? other = b.channel? other := by
  intro b earliest answer b'
  obtain ⟨kept, hkept, -⟩ := hlog.holds
  have haccounts := (Run.accounts_start membership settings hkept).undergoAll events hkeys
  have hrests : b.Rests := (Run.accounts_start membership settings hkept).invariant
    (rests_ofLog membership settings log)
    (fun op hholds hkey hrests => hrests.after (becomes_after hholds hkey op))
    (fun membership settings options hrests => hrests.rebuilt membership settings options) events hkeys
  obtain ⟨ps, hholds, -⟩ := haccounts.logged.kept
  refine ⟨fun hopen => ?_, fun e he => handshake_error hholds he, fun response hok => ?_⟩
  · rw [handshake_ok_iff hholds hrests hopen, negotiate_ok_iff, earliest_of_holds hholds hopen]
    rfl
  · obtain ⟨hopen, hstart, hdiscard, hstate, c, hc, hleft⟩ := handshake_ok hholds hok
    rw [earliest_of_holds hholds hopen] at hstart
    refine ⟨hstart, hdiscard, hstate, c, hc, hleft, ?_, fun other hother => ?_⟩
    · show ((handshake target request).perform b).2.channel? target = some c
      rw [hleft, channel?_withChannel_self]
    · show ((handshake target request).perform b).2.channel? other = _
      rw [hleft, channel?_withChannel_other hother]

/-- Two targets of a backlog, one of which was handed what was logged. -/
def delivering : List BacklogEvent :=
  [.operate (.handshake "audit" ⟨true, 0, none⟩), .operate (.handshake "backup" ⟨true, 0, none⟩),
    .operate (.add (.entry (.write ⟨"Order", "a", 1, [], none⟩)) false false),
    .operate (.add (.entry (.write ⟨"Order", "b", 1, [], none⟩)) false false),
    .operate (.poll "backup" true)]

/-- It may connect again while it is active, and goes on behind what it confirms then. -/
theorem handshake_exact_delivering :
    let b := ((Run.start (.ofLog (.openTo "orders") ⟨10, .reject, 10, 1000, 10⟩
      (.memory (.empty "orders" none)))).undergoAll delivering).backlog
    ∃ response, ((handshake "backup" ⟨false, 1, none⟩).perform b).1 = .ok response ∧
      response.startKey = 2 ∧
        ((handshake "backup" ⟨false, 1, none⟩).perform b).2.channel? "audit" = b.channel? "audit" := by
  intro b
  have hshort : ∀ n, n < 6 → ((Run.start (.ofLog (.openTo "orders") ⟨10, .reject, 10, 1000, 10⟩
      (.memory (.empty "orders" none)))).undergoAll (delivering.take n)).backlog.nextKey < 2 ^ 64 := by
    decide +kernel
  have hexact := handshake_exact (.memory "orders" none) (.openTo "orders")
    ⟨10, .reject, 10, 1000, 10⟩ delivering "backup" ⟨false, 1, none⟩ fun past hpast => by
      rw [List.prefix_iff_eq_take.1 hpast]
      exact hshort past.length (Nat.lt_succ_of_le hpast.length_le)
  obtain ⟨response, hok⟩ := (hexact.1 (by decide +kernel)).2 (by decide +kernel)
  obtain ⟨hstart, -, -, c, -, -, -, hothers⟩ := hexact.2.2 response hok
  exact ⟨response, hok, hstart, hothers "audit" (by decide)⟩

end Backlog

end GroupReplication
