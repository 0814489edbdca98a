/-
What the answers of a backlog say of where a channel stands: a handshake starts an epoch among the
keys that are there, a batch is what comes next in it, and a forced poll that hands out nothing has
come to the next key of all.
-/
import GroupReplication.Proofs.Backlog.Deliveries

namespace GroupReplication

open Packet Log GroupReplication.Action

namespace Backlog

variable {b : Backlog} {ps : List Packet} {target : String}

/-- Only a channel that is active and has lost nothing is answered, and it stays registered. -/
theorem poll_ok (h : b.log.Holds ps) {force : Bool} {batch? : Option (List Packet)}
    (hpoll : ((poll target force).perform b).1 = .ok batch?) :
    ∃ c c', b.channel? target = some c ∧ c.state = .active ∧ c.resyncRequired = false ∧
      ((poll target force).perform b).2.channel? target = some c' ∧
      ((∃ key, c.cursor = .catchingUp key ∧ b.log.isClosed = false ∧ b.log.earliest ≤ key) ∨
        c.cursor = .live) := by
  rcases poll_spec h target force with ⟨e, he⟩ | ⟨c, hc, hactive, hsynced,
    ⟨gone, -, -, he⟩ | ⟨key, hcursor, hopen, hkey, hok⟩ | ⟨hlive, -, hok⟩ | ⟨batch, a, hlive, -, hok⟩⟩
  · rw [he] at hpoll
    cases hpoll
  · rw [he] at hpoll
    cases hpoll
  · rw [hok]
    exact ⟨c, _, hc, hactive, hsynced, channel?_withChannel_self .., .inl ⟨key, hcursor, hopen, hkey⟩⟩
  · rw [hok]
    exact ⟨c, c, hc, hactive, hsynced, hc, .inr hlive⟩
  · rw [hok]
    exact ⟨c, _, hc, hactive, hsynced, channel?_withChannel_self .., .inr hlive⟩

end Backlog

/-- A first handshake always discards what the target has. -/
theorem negotiate_first {request : HandshakeRequest} {range : RetainedRange}
    {response : HandshakeResponse} (h : negotiate request range = .ok response)
    (hfirst : request.first = true) : response.discardLocalState = true := by
  rw [negotiate, if_pos hfirst] at h
  cases h
  rfl

namespace Coherent

open Backlog

variable {settings : BacklogSettings} {b : Backlog} {history : List Packet}
  {start? : String → Option Nat} {delivered : String → List Packet} {target : String}

/-- A handshake lets delivery start at a key that is there, or at the next of all. -/
theorem handshake_starts (h : Coherent settings b history start? delivered)
    (hkey : b.nextKey < 2 ^ 64) (hbatch : 1 ≤ settings.maxBatchSize) {request : HandshakeRequest}
    {response : HandshakeResponse}
    (hok : ((Backlog.handshake target request).perform b).1 = .ok response) :
    Turn.start? target ⟨b, .handshake target request⟩ = some response.startKey ∧
      b.nextKey - history.length ≤ response.startKey ∧ response.startKey ≤ b.nextKey ∧
      (request.first = true → response.discardLocalState = true) := by
  obtain ⟨ps, hholds, -⟩ := h.logged.kept
  have hstart : Turn.start? target ⟨b, .handshake target request⟩ = some response.startKey := by
    simp [Turn.start?, hok, Except.toOption]
  have hafter := h.after hkey hbatch (.handshake target request)
  have hnext := (becomes_after hholds hkey (.handshake target request)).nextKey
  rcases handshake_spec hholds target request with ⟨e, he⟩ | ⟨agreed, c, hagreed, -, -, hperform⟩
  · rw [he] at hok
    cases hok
  · have hresponse : { agreed with state := c.producerState } = response := by
      rw [hperform] at hok
      exact Except.ok.inj hok
    obtain ⟨start, hstarted, hin⟩ := hafter.channels target
      (Backlog.welcomed request agreed.startKey _ c) (by
        show ((Backlog.handshake target request).perform b).2.channel? target = _
        rw [hperform]
        exact channel?_withChannel_self ..)
    rw [startAfter, hstart] at hstarted
    cases hstarted
    have hfirst := hin.first
    have hwithin := hin.within
    rw [historyAfter, List.length_append] at hfirst
    rw [hnext] at hfirst hwithin
    have hquiet : Turn.appended? ⟨b, .handshake target request⟩ = none := rfl
    simp only [hquiet, Option.toList_none, List.length_nil, Nat.add_zero] at hfirst hwithin
    refine ⟨hstart, hfirst, by omega, fun hrequest => ?_⟩
    have hdiscard : agreed.discardLocalState = true := negotiate_first hagreed hrequest
    rw [← hresponse]
    exact hdiscard

/-- A batch is what comes next. -/
theorem handed_next (h : Coherent settings b history start? delivered) (hkey : b.nextKey < 2 ^ 64)
    (hbatch : 1 ≤ settings.maxBatchSize) {force : Bool} {batch : List Packet}
    (hpoll : ((Backlog.poll target force).perform b).1 = .ok (some batch)) :
    ∃ start, start? target = some start ∧ KeyedFrom (start + (delivered target).length) batch ∧
      (∀ p ∈ batch, p ∈ history) ∧ start + (delivered target).length + batch.length ≤ b.nextKey := by
  obtain ⟨ps, hholds, -⟩ := h.logged.kept
  obtain ⟨-, c', -, -, -, hc', -⟩ := poll_ok hholds hpoll
  have hnext := (becomes_after hholds hkey (.poll target force)).nextKey
  have hafter := h.after hkey hbatch (.poll target force)
  obtain ⟨start, hstart, hin⟩ := hafter.channels target c' hc'
  have hhistory : historyAfter history ⟨b, .poll target force⟩ = history := List.append_nil _
  have hdelivered : deliveredAfter delivered ⟨b, .poll target force⟩ target
      = delivered target ++ batch := by
    have hnone : Turn.start? target ⟨b, .poll target force⟩ = none := rfl
    simp [deliveredAfter, hnone, Turn.batch?, hpoll, Except.toOption]
  have hfirst := hin.first
  have hwithin := hin.within
  obtain ⟨rest, hhanded⟩ := hin.handed
  rw [hhistory] at hfirst hhanded
  rw [hdelivered] at hhanded hwithin
  have hsame : (Operation.after b (.poll target force)).nextKey = b.nextKey := hnext
  rw [hsame] at hfirst hwithin
  have howed := keyedFrom_owed h.logged.keyed hfirst
  rw [← hhanded, List.append_assoc, keyedFrom_append, keyedFrom_append] at howed
  refine ⟨start, hstart, howed.2.1, fun p hp => ?_, by rw [List.length_append] at hwithin; omega⟩
  have hmem : p ∈ owed history start := by
    rw [← hhanded]
    simp [hp]
  exact (List.mem_filter.1 hmem).1

/-- A forced poll that hands out nothing has come to the next key of all. -/
theorem caught_up (h : Coherent settings b history start? delivered)
    (hbatch : 1 ≤ settings.maxBatchSize)
    (hpoll : ((Backlog.poll target true).perform b).1 = .ok none) :
    ∃ start, start? target = some start ∧ start + (delivered target).length = b.nextKey := by
  obtain ⟨ps, hholds, -⟩ := h.logged.kept
  obtain ⟨c, -, hc, -⟩ := poll_ok hholds hpoll
  obtain ⟨start, hstart, hin⟩ := h.channels target c hc
  refine ⟨start, hstart, ?_⟩
  have hlength := length_owed h.logged.keyed start
  have hlen := h.logged.length_le
  have hfirst := hin.first
  have hwithin := hin.within
  rw [← h.flush_none hbatch hstart hpoll] at hlength
  omega

/-- A channel that can be polled is owed no more than the log has and its accumulator holds. -/
theorem waiting_le (h : Coherent settings b history start? delivered) {force : Bool}
    {batch? : Option (List Packet)} (hpoll : ((Backlog.poll target force).perform b).1 = .ok batch?) :
    ∃ start, start? target = some start ∧ start + (delivered target).length ≤ b.nextKey ∧
      b.nextKey ≤ start + (delivered target).length
        + (b.size + (b.channel? target).elim 0 (·.accumulator.size)) := by
  obtain ⟨ps, hholds, -⟩ := h.logged.kept
  obtain ⟨c, -, hc, hactive, hsynced, -, hcursor⟩ := poll_ok hholds hpoll
  obtain ⟨start, hstart, hin⟩ := h.channels target c hc
  have hdue := hin.due hactive hsynced
  have hfirst := hin.first
  have hwithin := hin.within
  refine ⟨start, hstart, hwithin, ?_⟩
  rw [hc]
  rcases hcursor with ⟨key, hreads, hopen, hearliest⟩ | hlive
  · rw [hreads] at hdue
    obtain ⟨rfl, -⟩ := hdue
    rw [hholds.earliest hopen, ← h.logged.next] at hearliest
    have hsize : b.size = ps.length := hholds.size hopen
    omega
  · rw [hlive] at hdue
    simp only at hdue
    have hlength := length_owed h.logged.keyed (start + (delivered target).length)
    have hlen := h.logged.length_le
    have hsize : c.accumulator.size = (owed history (start + (delivered target).length)).length := by
      rw [← hdue, Accumulator.packets, List.length_map]
      rfl
    simp only [Option.elim_some]
    omega

end Coherent

end GroupReplication
