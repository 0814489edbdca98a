/-
A backlog that rejects packets when it is full. What a channel has not confirmed stays in its log, so
a target that has at least what its channel confirmed can resume. Only a channel's own handshakes,
confirmations and its detachment change what it has confirmed.
-/
import GroupReplication.Proofs.Backlog.Frontier
import GroupReplication.Proofs.Backlog.Handout

namespace GroupReplication

/-- What was negotiated: a restart at the earliest key, or a resume right behind what was asked. -/
theorem negotiate_ok {request : HandshakeRequest} {range : RetainedRange} {response : HandshakeResponse}
    (h : negotiate request range = .ok response) :
    response.discardLocalState = request.first ∧
      (request.first = false → response.startKey = request.lastConfirmed + 1) := by
  cases hfirst : request.first with
  | true => exact ⟨negotiate_first h hfirst, fun hresume => by cases hresume⟩
  | false =>
    simp only [negotiate, hfirst, Bool.false_eq_true, if_false] at h
    split at h
    · cases h
    · split at h
      · cases h
      · split at h
        · cases h
        · cases h
          exact ⟨rfl, fun _ => rfl⟩

/-- A resume key is gone only if the log begins behind it. -/
theorem negotiate_retained {request : HandshakeRequest} {range : RetainedRange}
    (h : request.first = false → range.earliest ≤ request.lastConfirmed + 1) (requested earliest : Nat) :
    negotiate request range ≠ .error (.resumeKeyCompacted requested earliest) := by
  intro hgone
  simp only [negotiate] at hgone
  split at hgone
  · cases hgone
  · rename_i hfirst
    have hle := h (by simpa using hfirst)
    split at hgone
    · cases hgone
    · split at hgone
      · cases hgone
      · split at hgone
        · omega
        · cases hgone

namespace Operation

/-- What `target` has confirmed is not concerned, and the log stays open. -/
def Leaves (target : String) : Operation → Prop
  | handshake name _ | confirm name _ | detach name => name ≠ target
  | close => False
  | _ => True

end Operation

namespace Backlog

open GroupReplication.Action

/-- The key that a target has confirmed, if its channel is registered. -/
def lastConfirmed? (target : String) (b : Backlog) : Option Nat :=
  (b.channel? target).map (·.lastConfirmed)

/-- A backlog with an open log that never gives up what a channel has not confirmed. -/
structure Retains (b : Backlog) : Prop where
  isOpen : b.log.isClosed = false
  rejects : b.settings.fullPolicy = .reject
  keys : b.nextKey < 2 ^ 64
  guarded : ∃ ps, b.log.Holds ps ∧ b.Guards ps

variable {b b' : Backlog} {ps : List Packet} {op : Operation} {target : String}

theorem Becomes.settings (h : b.Becomes ps op b') : b'.settings = b.settings := by
  cases h with
  | idle _ _ hsettings => exact hsettings
  | _ => rfl

/-- Only a close closes the log. -/
theorem Becomes.isClosed (h : b.Becomes ps op b') (hclose : op ≠ .close)
    (hopen : b.log.isClosed = false) : b'.log.isClosed = false := by
  cases h with
  | idle hlog => rw [hlog, hopen]
  | touched | welcomed | handed => exact hopen
  | detached hto | compacted hto | refused hto => exact hto.isClosed.trans hopen
  | added _ _ _ _ hopen' => exact hopen'
  | closed hasked => exact absurd hasked hclose

/-- A closed log is not opened again. -/
theorem Becomes.wasOpen (h : b.Becomes ps op b') (hopen : b'.log.isClosed = false) :
    b.log.isClosed = false := by
  cases h with
  | idle hlog => rw [← hlog, hopen]
  | touched | welcomed | handed => exact hopen
  | detached hto | compacted hto | refused hto => exact hto.isClosed.symm.trans hopen
  | added _ _ _ _ _ hopen' => exact hopen'
  | closed _ _ hclosed =>
    rw [hclosed] at hopen
    cases hopen

theorem Becomes.holds (h : b.Becomes ps op b') (hholds : b.log.Holds ps) :
    ∃ ps', b'.log.Holds ps' := by
  cases h with
  | idle hlog => exact ⟨ps, hlog ▸ hholds⟩
  | touched | welcomed | handed => exact ⟨ps, hholds⟩
  | detached hto | compacted hto | refused hto => exact ⟨_, hto.holds⟩
  | added _ _ hholds' => exact ⟨_, hholds'⟩
  | closed _ hholds' => exact ⟨_, hholds'⟩

theorem lastConfirmed?_withChannel_other {other : String} (h : other ≠ target) (c : SourceChannel)
    (b : Backlog) : (b.withChannel other c).lastConfirmed? target = b.lastConfirmed? target := by
  rw [lastConfirmed?, channel?_withChannel_other h.symm, lastConfirmed?]

theorem lastConfirmed?_withChannel_self (c : SourceChannel) (b : Backlog) :
    (b.withChannel target c).lastConfirmed? target = some c.lastConfirmed := by
  rw [lastConfirmed?, channel?_withChannel_self]
  rfl

theorem lastConfirmed?_discarded (removed : List Packet) (log : PacketLog) (b : Backlog) :
    (b.discarded removed log).lastConfirmed? target = b.lastConfirmed? target := by
  rw [lastConfirmed?, channel?_discarded, Option.map_map, lastConfirmed?]
  exact Option.map_congr fun c _ => (c.afterDiscard_keeps removed).2

theorem lastConfirmed?_extended (p : Packet) (log : PacketLog) (b : Backlog) :
    (b.extended p log).lastConfirmed? target = b.lastConfirmed? target := by
  rw [lastConfirmed?, channel?_extended, Option.map_map, lastConfirmed?]
  refine Option.map_congr fun c _ => ?_
  show (c.afterAdd b.now p).lastConfirmed = c.lastConfirmed
  simp only [SourceChannel.afterAdd]
  split <;> rfl

/-- What is left alone stays confirmed, and no more is. -/
theorem Becomes.lastConfirmed? (h : b.Becomes ps op b') (hop : op.Leaves target) :
    b'.lastConfirmed? target = b.lastConfirmed? target := by
  have hsame : ∀ {other c c'}, b.channel? other = some c → c'.lastConfirmed = c.lastConfirmed →
      (b.withChannel other c').lastConfirmed? target = b.lastConfirmed? target := by
    intro other c c' hfound hkept
    by_cases hother : other = target
    · subst hother
      rw [lastConfirmed?_withChannel_self, hkept, Backlog.lastConfirmed?, hfound]
      rfl
    · exact lastConfirmed?_withChannel_other hother c' b
  cases h with
  | idle _ _ _ hchannels => rw [Backlog.lastConfirmed?, channel?, hchannels]; rfl
  | @touched other c c' hfound _ _ hunconfirmed =>
    by_cases hother : other = target
    · exact hsame hfound (hunconfirmed fun key hasked => by
        rw [hasked] at hop
        exact hop hother)
    · exact lastConfirmed?_withChannel_other hother c' b
  | welcomed hasked =>
    subst hasked
    exact lastConfirmed?_withChannel_other hop _ b
  | handed _ hfound _ _ hhands => exact hsame hfound (by cases hhands <;> rfl)
  | detached _ _ _ hasked =>
    subst hasked
    rw [Backlog.lastConfirmed?, channel?, Table.get?_erase_other _ (Ne.symm hop)]
    rfl
  | compacted => rfl
  | refused => exact lastConfirmed?_discarded _ _ b
  | added => rw [lastConfirmed?_extended, lastConfirmed?_discarded]
  | closed hasked =>
    subst hasked
    exact hop.elim

namespace Retains

/-- Any operation but a close leaves a backlog that retains what is not confirmed. -/
theorem after (h : b.Retains) (hclose : op ≠ .close) (hkeys : (op.after b).nextKey < 2 ^ 64) :
    (op.after b).Retains := by
  obtain ⟨ps, hholds, hguards⟩ := h.guarded
  have hbecomes := becomes_after hholds h.keys op
  exact ⟨hbecomes.isClosed hclose h.isOpen, hbecomes.settings ▸ h.rejects, hkeys,
    hguards.after hholds hbecomes⟩

theorem lastConfirmed?_after (h : b.Retains) (hop : op.Leaves target) :
    (op.after b).lastConfirmed? target = b.lastConfirmed? target := by
  obtain ⟨ps, hholds, -⟩ := h.guarded
  exact (becomes_after hholds h.keys op).lastConfirmed? hop

/-- An operation that logs nothing gives out no key. -/
theorem quiet (h : b.Retains) (hclose : op ≠ .close) (hadd : Turn.appended? ⟨b, op⟩ = none) :
    (op.after b).Retains := by
  obtain ⟨ps, hholds, -⟩ := h.guarded
  have hnext := (becomes_after hholds h.keys op).nextKey
  rw [hadd, Option.toList_none, List.length_nil, Nat.add_zero] at hnext
  exact h.after hclose (hnext ▸ h.keys)

/-- Nothing that a registered channel has not confirmed is gone. -/
theorem earliest_le (h : b.Retains) {low : Nat} (hlow : b.lastConfirmed? target = some low) :
    b.retained.earliest ≤ low + 1 := by
  obtain ⟨ps, hholds, hguards⟩ := h.guarded
  obtain ⟨c, hc, rfl⟩ := Option.map_eq_some_iff.1 hlow
  have hcovers := hguards.covers target c hc (.inr h.rejects)
  have hearliest := hholds.earliest h.isOpen
  rw [PacketLog.earliest, ← hguards.next] at hearliest
  rw [show b.retained.earliest = _ from hearliest]
  omega

theorem earliest_le_nextKey (h : b.Retains) : b.retained.earliest ≤ b.nextKey := by
  obtain ⟨ps, hholds, hguards⟩ := h.guarded
  have hearliest := hholds.earliest h.isOpen
  rw [PacketLog.earliest, ← hguards.next] at hearliest
  rw [show b.retained.earliest = _ from hearliest]
  exact Nat.sub_le _ _

/-- What a handshake comes to. A resume of all that the channel confirmed, or more, never finds its
key gone. -/
theorem handshake_cases (h : b.Retains) {request : HandshakeRequest}
    (hrequest : request.first = false →
      ∃ low, b.lastConfirmed? target = some low ∧ low ≤ request.lastConfirmed) :
    (∃ e, (handshake target request).perform b = (.error e, b) ∧
        ∀ requested earliest, e ≠ .resumeKeyCompacted requested earliest) ∨
      ∃ response b', (handshake target request).perform b = (.ok response, b') ∧
        b'.lastConfirmed? target = some (response.startKey - 1) ∧ response.startKey < 2 ^ 64 ∧
        response.discardLocalState = request.first ∧
        (request.first = false → response.startKey = request.lastConfirmed + 1) := by
  obtain ⟨ps, hholds, -⟩ := h.guarded
  cases hallowed : b.membership.allowsTarget target with
  | false =>
    exact .inl ⟨_, handshake_unknown hallowed, fun _ _ heq => by cases heq⟩
  | true =>
    cases hagreed : negotiate request b.retained with
    | error e =>
      refine .inl ⟨e, ?_, fun requested earliest heq => ?_⟩
      · rw [handshake, perform_get_bind, hallowed]
        simp only [Bool.not_true, Bool.false_eq_true, if_false]
        rw [hagreed, perform_decided_error_bind]
      · refine negotiate_retained (fun hresume => ?_) requested earliest (heq ▸ hagreed)
        obtain ⟨low, hlow, hle⟩ := hrequest hresume
        have := h.earliest_le hlow
        omega
    | ok response =>
      by_cases hrest : ∀ c, b.channel? target = some c → c.state.AtRest
      case neg =>
        simp only [Classical.not_forall] at hrest
        obtain ⟨c, hc, hbusy⟩ := hrest
        exact .inl ⟨_, handshake_busy hholds hallowed hagreed h.isOpen hc hbusy,
          fun _ _ heq => by cases heq⟩
      obtain ⟨c, -, hok⟩ := handshake_agreed hholds hallowed hagreed h.isOpen hrest
      have hstart := (negotiate_bounds hagreed).2 h.earliest_le_nextKey
      obtain ⟨hdiscard, hresume⟩ := negotiate_ok hagreed
      exact .inr ⟨_, _, hok, lastConfirmed?_withChannel_self _ b, Nat.lt_of_le_of_lt hstart h.keys,
        hdiscard, hresume⟩

end Retains

/-- A confirmation takes its channel to the confirmed key at most. -/
theorem lastConfirmed?_confirm {low : Nat} (hlow : b.lastConfirmed? target = some low) (key : Nat) :
    ∃ low', (Operation.after b (.confirm target key)).lastConfirmed? target = some low' ∧
      low' ≤ max low key := by
  obtain ⟨c, hc, rfl⟩ := Option.map_eq_some_iff.1 hlow
  show ∃ low', ((confirm target key).perform b).2.lastConfirmed? target = some low' ∧ _
  rcases confirm_spec b target key with ⟨e, he⟩ | ⟨c', hc', -, ⟨-, hok⟩ | ⟨-, hok⟩⟩
  · exact ⟨_, by rw [he]; exact hlow, Nat.le_max_left ..⟩
  · exact ⟨_, by rw [hok]; exact hlow, Nat.le_max_left ..⟩
  · rw [hc] at hc'
    cases hc'
    refine ⟨_, by rw [hok]; exact lastConfirmed?_withChannel_self _ b, ?_⟩
    show (c.confirmation.advance key).lastConfirmed ≤ _
    rw [Confirmation.lastConfirmed_advance]
    exact Nat.le_refl _

end Backlog

end GroupReplication
