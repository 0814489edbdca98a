/-
What one operation makes of one channel. The cases are those of `Becomes`, read for a single target:
whatever happens on behalf of another one spares it. Invariants that speak of each channel by itself
are proved by cases on this.
-/
import GroupReplication.Proofs.Backlog.Retained

namespace GroupReplication

namespace Backlog

/-- How the channel of `target` fares when the log comes to hold `ps'` and numbers on from `next`. -/
inductive Fares (b : Backlog) (ps : List Packet) (op : Operation) (target : String) :
    (ps' : List Packet) → (next : Nat) → (c' : SourceChannel) → Prop where
  | spared {c : SourceChannel} {n : Nat} (found : b.channel? target = some c)
      (ongoing : Turn.start? target ⟨b, op⟩ = none)
      (confirmed : ∀ p ∈ ps.take n, p.key ≤ c.lastConfirmed) :
      Fares b ps op target (ps.drop n) b.nextKey c
  | touched {c c' : SourceChannel} (found : b.channel? target = some c)
      (ongoing : Turn.start? target ⟨b, op⟩ = none) (shifts : c.Shifts c') (settles : c.Settles c')
      (flagged : c'.resyncRequired = true → c.resyncRequired = true ∨ c.Stranded b.log.earliest) :
      Fares b ps op target ps b.nextKey c'
  | welcomed {request : HandshakeRequest} {response : HandshakeResponse} {c : SourceChannel}
      (agreed : negotiate request b.retained = .ok response) (isOpen : b.log.isClosed = false)
      (found : c = (b.channel? target).getD
        (.fresh (.empty b.settings.maxBatchSize b.settings.maxBatchAge)))
      (started : Turn.start? target ⟨b, op⟩ = some response.startKey) :
      Fares b ps op target ps b.nextKey (Backlog.welcomed request response.startKey
        (Packet.totalWeight (ps.dropWhile (·.key < response.startKey))) c)
  | handed {force : Bool} {c c' : SourceChannel} {batch : List Packet}
      (found : b.channel? target = some c) (ongoing : Turn.start? target ⟨b, op⟩ = none)
      (active : c.state = .active) (synced : c.resyncRequired = false)
      (hands : b.Hands ps force c batch c') : Fares b ps op target ps b.nextKey c'
  | discarded {c : SourceChannel} {n : Nat} (found : b.channel? target = some c)
      (ongoing : Turn.start? target ⟨b, op⟩ = none) :
      Fares b ps op target (ps.drop n) b.nextKey (c.afterDiscard (ps.take n))
  | added {c : SourceChannel} {n : Nat} {p : Packet} (found : b.channel? target = some c)
      (ongoing : Turn.start? target ⟨b, op⟩ = none) (next : p.key = b.nextKey)
      (appended : Turn.appended? ⟨b, op⟩ = some p) :
      Fares b ps op target (ps.drop n ++ [p]) (b.nextKey + 1)
        ((c.afterDiscard (ps.take n)).afterAdd b.now p)

/-- A channel that nothing happened to, over a log that stays. -/
theorem Fares.same {b : Backlog} {ps : List Packet} {op : Operation} {target : String}
    {c : SourceChannel} (found : b.channel? target = some c)
    (ongoing : Turn.start? target ⟨b, op⟩ = none) : b.Fares ps op target ps b.nextKey c :=
  Fares.spared (n := 0) found ongoing (by simp)

/-- The backlog came to hold `ps'`, which begins no earlier than before, and so did its channels fare. -/
structure Moves (b : Backlog) (ps : List Packet) (op : Operation) (b' : Backlog)
    (ps' : List Packet) : Prop where
  holds : b'.log.Holds ps'
  next : b.nextKey = b.log.nextKey → b'.nextKey = b'.log.nextKey
  forward : b.nextKey + ps'.length ≤ b'.nextKey + ps.length
  channels : ∀ target c', b'.channel? target = some c' → b.Fares ps op target ps' b'.nextKey c'

variable {b b' : Backlog} {ps : List Packet} {op : Operation}

/-- What happens on behalf of one target spares the channels of the others. -/
theorem fares_withChannel {target : String} {c : SourceChannel}
    (hc : b.Fares ps op target ps b.nextKey c)
    (hongoing : ∀ other, other ≠ target → Turn.start? other ⟨b, op⟩ = none)
    (other : String) (c' : SourceChannel) (hc' : (b.withChannel target c).channel? other = some c') :
    b.Fares ps op other ps b.nextKey c' := by
  by_cases hother : other = target
  · subst hother
    rw [channel?_withChannel_self] at hc'
    cases hc'
    exact hc
  · rw [channel?_withChannel_other hother] at hc'
    exact .same hc' (hongoing other hother)

theorem length_drop_forward {n next : Nat} : next + (ps.drop n).length ≤ next + ps.length :=
  Nat.add_le_add_left (List.drop_suffix n ps).length_le _

theorem Becomes.moves (h : b.Becomes ps op b') (hholds : b.log.Holds ps) :
    ∃ ps', b.Moves ps op b' ps' := by
  cases h with
  | idle hlog hnext _ hchannels hsilent =>
    refine ⟨ps, hlog ▸ hholds, fun h => hnext.trans (hlog ▸ h), Nat.le_of_eq (by rw [hnext]),
      fun target c' hc' => ?_⟩
    rw [channel?, hchannels] at hc'
    rw [hnext]
    exact .same hc' (hsilent.start target)
  | touched hfound hshifts hsilent _ hsettles hflagged =>
    exact ⟨ps, hholds, id, Nat.le_refl _, fares_withChannel
      (.touched hfound (hsilent.start _) hshifts hsettles hflagged) fun other _ => hsilent.start other⟩
  | welcomed hasked hagreed hopen hfound hstarted hweighs =>
    subst hasked hweighs
    refine ⟨ps, hholds, id, Nat.le_refl _,
      fares_withChannel (.welcomed hagreed hopen hfound hstarted) fun other hother => ?_⟩
    simp [Turn.start?, Ne.symm hother]
  | handed hasked hfound hactive hsynced hhands =>
    subst hasked
    exact ⟨ps, hholds, id, Nat.le_refl _,
      fares_withChannel (.handed hfound rfl hactive hsynced hhands) fun _ _ => rfl⟩
  | @detached target n log hto hlast hsilent =>
    refine ⟨ps.drop n, hto.holds, fun h => h.trans hto.nextKey.symm, length_drop_forward,
      fun other c' hc' => ?_⟩
    by_cases hother : other = target
    · subst hother
      simp [channel?] at hc'
    · have hstill : b.channels.erase target ≠ [] := fun hnone => by
        rw [channel?, hnone] at hc'
        cases hc'
      rw [channel?, Table.get?_erase_other _ hother] at hc'
      rw [hlast hstill]
      exact .same hc' (hsilent.start other)
  | compacted hto hconfirmed hsilent =>
    exact ⟨_, hto.holds, fun h => h.trans hto.nextKey.symm, length_drop_forward, fun target c' hc' =>
      .spared hc' (hsilent.start target)
        fun p hp => hconfirmed p hp c' (Table.mem_values_of_get? hc')⟩
  | refused hto hsilent =>
    refine ⟨_, hto.holds, fun h => h.trans hto.nextKey.symm, length_drop_forward,
      fun target c' hc' => ?_⟩
    rw [channel?_discarded] at hc'
    obtain ⟨c, hc, rfl⟩ := Option.map_eq_some_iff.1 hc'
    exact .discarded hc (hsilent.start target)
  | @added payload transient fromGateway n log log' _ hto hholds' hlast _ _ hasked happended =>
    subst hasked
    refine ⟨_, hholds', fun _ => ?_, ?_, fun target c' hc' => ?_⟩
    · show b.nextKey + 1 = log'.nextKey
      rw [PacketLog.nextKey, hlast]
      rfl
    · have hdrop := (List.drop_suffix n ps).length_le
      show b.nextKey + (ps.drop n ++ [_]).length ≤ b.nextKey + 1 + ps.length
      rw [List.length_append, List.length_singleton]
      omega
    · rw [channel?_extended, channel?_discarded, Option.map_map] at hc'
      obtain ⟨c, hc, rfl⟩ := Option.map_eq_some_iff.1 hc'
      exact .added hc rfl rfl happended
  | @closed log hasked hholds' _ hlast =>
    subst hasked
    refine ⟨ps, hholds', fun h => ?_, Nat.le_refl _, fun _ _ hc' => .same hc' rfl⟩
    show b.nextKey = log.nextKey
    rw [PacketLog.nextKey, hlast]
    exact h

end Backlog

end GroupReplication
