/-
What a channel still has to confirm weighs what its confirmation says. The weight of a channel is
never counted again between two handshakes: a packet that is added makes it heavier, one that is
confirmed or discarded makes it lighter, and what a confirmation takes off is read from the list of
packets on their way. It stays right because that list is always all that lies between the last
confirmed key and the last one sent (`Booked`), which in turn holds because a channel is handed the
packets of the log without a hole.
-/
import GroupReplication.Proofs.Backlog.Retained

namespace GroupReplication

open Packet Log

section Owed

variable {ps : List Packet} {first key : Nat}

theorem owed_owed (ps : List Packet) {j k : Nat} (h : j ≤ k) : owed (owed ps j) k = owed ps k := by
  rw [owed, owed, List.filter_filter]
  refine List.filter_congr fun p _ => ?_
  by_cases hk : k ≤ p.key
  · simp [hk, Nat.le_trans h hk]
  · simp [hk]

theorem owed_of_le (ps : List Packet) {j k : Nat} (h : k ≤ j) :
    owed (owed ps j) k = owed ps j := by
  refine List.filter_eq_self.2 fun p hp => ?_
  have hj : j ≤ p.key := of_decide_eq_true (List.mem_filter.1 hp).2
  exact decide_eq_true (Nat.le_trans h hj)

theorem owed_comm (ps : List Packet) (j k : Nat) : owed (owed ps j) k = owed (owed ps k) j := by
  rw [owed, owed, owed, owed, List.filter_filter, List.filter_filter]
  exact List.filter_congr fun p _ => Bool.and_comm ..

theorem owed_append_owed (ps qs : List Packet) (key : Nat) :
    owed (ps ++ qs) key = owed ps key ++ owed qs key := List.filter_append ..

theorem totalWeight_owed_le (ps : List Packet) (key : Nat) :
    totalWeight (owed ps key) ≤ totalWeight ps := by
  induction ps with
  | nil => exact Nat.le_refl _
  | cons p ps ih =>
    rw [owed, List.filter_cons]
    split
    · exact Nat.add_le_add_left ih _
    · exact Nat.le_trans ih (Nat.le_add_left _ _)

theorem dropWhile_eq_owed (h : KeyedFrom first ps) (key : Nat) :
    ps.dropWhile (·.key < key) = owed ps key := by
  rw [h.dropWhile_lt, owed_eq_drop h]

/-- What is owed starts at the key, or at the first packet that is left. -/
theorem keyed_owed (h : KeyedFrom first ps) (key : Nat) :
    KeyedFrom (first + (key - first)) (owed ps key) := by
  rw [owed_eq_drop h]
  exact h.drop _

/-- Packets that lie in front of `key` are not owed from there on. -/
theorem owed_drop {n : Nat} (h : ∀ p ∈ ps.take n, p.key < key) :
    owed (ps.drop n) key = owed ps key := by
  have hfront : owed (ps.take n) key = [] := List.filter_eq_nil_iff.2 fun p hp => by
    simpa using h p hp
  conv => rhs; rw [← List.take_append_drop n ps]
  rw [owed_append_owed, hfront, List.nil_append]

/-- Behind the last of some packets from the front, the others are owed. -/
theorem owed_behind (h : KeyedFrom first ps) {n : Nat} {last : Packet}
    (hlast : (ps.take n).getLast? = some last) : owed ps (last.key + 1) = ps.drop n := by
  have hmem := List.mem_of_getLast? hlast
  have hend := (h.take n).getLast? (List.ne_nil_of_mem hmem)
  have hpos := List.length_pos_of_mem hmem
  rw [hlast, Option.map_some, Option.some.injEq, List.length_take] at hend
  rw [List.length_take] at hpos
  rw [owed_eq_drop h, hend, show first + min n ps.length - 1 + 1 - first = min n ps.length by omega]
  rcases Nat.le_total n ps.length with hle | hle
  · rw [Nat.min_eq_left hle]
  · rw [Nat.min_eq_right hle, List.drop_length, List.drop_eq_nil_of_le hle]

/-- The last key of a batch, if there is one. -/
theorem foldl_max_key {batch : List Packet} (h : KeyedFrom key batch) {last : Nat}
    (hlast : last ≤ key) : batch.foldl (fun last p => max last p.key) last
      = if batch = [] then last else key + batch.length - 1 := by
  induction batch generalizing key last with
  | nil => rfl
  | cons p batch ih =>
    obtain ⟨rfl, hrest⟩ := h
    rw [List.foldl_cons, Nat.max_eq_right hlast, ih hrest (Nat.le_succ _),
      if_neg (List.cons_ne_nil _ _), List.length_cons]
    split
    · rename_i hnil
      rw [hnil]
      rfl
    · omega

/-- What is owed once a batch of what comes next was sent. -/
theorem owed_sent (h : KeyedFrom first ps) {last n : Nat} {batch : List Packet}
    (hlast : last < first + ps.length) (hbatch : batch = (owed ps (last + 1)).take n) :
    last ≤ batch.foldl (fun last p => max last p.key) last ∧
      batch.foldl (fun last p => max last p.key) last < first + ps.length ∧
      owed ps (batch.foldl (fun last p => max last p.key) last + 1) = (owed ps (last + 1)).drop n := by
  have hstart : owed ps (first + (last + 1 - first)) = owed ps (last + 1) := by
    rw [owed_eq_drop h, owed_eq_drop h, Nat.add_sub_cancel_left]
  have hkeyed := keyed_owed h (last + 1)
  have hlength := length_owed h (last + 1)
  have hcut : batch.length = min n (owed ps (last + 1)).length := by rw [hbatch, List.length_take]
  rw [foldl_max_key (hbatch ▸ hkeyed.take n) (by omega)]
  by_cases hnone : batch = []
  · rw [if_pos hnone]
    refine ⟨Nat.le_refl _, hlast, ?_⟩
    rw [hnone] at hbatch
    rcases List.take_eq_nil_iff.1 hbatch.symm with hzero | hempty
    · rw [hzero, List.drop_zero]
    · rw [hempty, List.drop_nil]
  · have hpos : 0 < batch.length := List.length_pos_iff.2 hnone
    rw [if_neg hnone]
    refine ⟨by omega, by omega, ?_⟩
    rw [show first + (last + 1 - first) + batch.length - 1 + 1
        = first + (last + 1 - first) + batch.length by omega,
      owed_add h (Nat.le_add_right _ _), hstart, hcut]
    rcases Nat.le_total n (owed ps (last + 1)).length with hle | hle
    · rw [Nat.min_eq_left hle]
    · rw [Nat.min_eq_right hle, List.drop_length, List.drop_eq_nil_of_le hle]

end Owed

/-- The accounts of a channel over a log that holds `ps`, when the next packet gets `nextKey`. -/
structure Booked (ps : List Packet) (nextKey : Nat) (c : SourceChannel) : Prop where
  confirmed : c.lastConfirmed ≤ c.lastSent
  sent : c.lastSent < nextKey
  weight : c.confirmation.weight = totalWeight (owed ps (c.lastConfirmed + 1))
  flight : ∃ flight, owed ps (c.lastConfirmed + 1) = flight ++ owed ps (c.lastSent + 1) ∧
    c.inFlight = flight.map fun p => (p.key, p.weight)
  due : c.state = .active → c.resyncRequired = false →
    match c.cursor with
    | .catchingUp key => key = c.lastSent + 1 ∧ c.accumulator.packets = []
    | .live => c.accumulator.packets = owed ps (c.lastSent + 1)

namespace Booked

variable {ps : List Packet} {nextKey first : Nat} {c c' : SourceChannel}

/-- A channel whose accounts stay and that would still hand out the same. -/
theorem stays (h : Booked ps nextKey c) (hshifts : c.Shifts c')
    (hconfirmed : c'.lastConfirmed = c.lastConfirmed)
    (hweight : c'.confirmation.weight = c.confirmation.weight) (hflight : c'.inFlight = c.inFlight)
    (hsent : c'.lastSent = c.lastSent) : Booked ps nextKey c' where
  confirmed := by rw [hconfirmed, hsent]; exact h.confirmed
  sent := by rw [hsent]; exact h.sent
  weight := by rw [hweight, hconfirmed]; exact h.weight
  flight := by rw [hflight, hconfirmed, hsent]; exact h.flight
  due hactive hsynced := by
    obtain ⟨hstate, hcursor, hpackets⟩ := hshifts.due hactive hsynced
    have hresync : c.resyncRequired = false := Bool.eq_false_iff.2 fun hlost => by
      rw [hshifts.lost hlost] at hsynced
      cases hsynced
    rw [hcursor, hpackets, hsent]
    exact h.due hstate hresync

/-- A confirmation takes the packets up to its key off the way, and their weight with them. -/
theorem confirms (h : Booked ps nextKey c) (hkeyed : KeyedFrom first ps) {key : Nat}
    (hahead : c.lastConfirmed < key) (hsent : key ≤ c.lastSent) :
    Booked ps nextKey (c.confirm key) := by
  obtain ⟨flight, howed, hflight⟩ := h.flight
  have hall := keyed_owed hkeyed (c.lastConfirmed + 1)
  rw [howed] at hall
  have hrest : flight.dropWhile (·.key ≤ key) = owed flight (key + 1) := by
    have hsame : (fun p : Packet => decide (p.key ≤ key)) = fun p => decide (p.key < key + 1) :=
      funext fun p => decide_eq_decide.2 Nat.lt_succ_iff.symm
    rw [hsame, dropWhile_eq_owed (keyedFrom_append.1 hall).1]
  have hbehind : owed ps (key + 1) = flight.dropWhile (·.key ≤ key) ++ owed ps (c.lastSent + 1) := by
    rw [← owed_owed ps (Nat.succ_le_succ (Nat.le_of_lt hahead)), howed, owed_append_owed, hrest,
      owed_of_le ps (Nat.succ_le_succ hsent)]
  have hconfirmed : (c.confirm key).lastConfirmed = key := by
    show (c.confirmation.advance key).lastConfirmed = key
    rw [Confirmation.lastConfirmed_advance]
    exact Nat.max_eq_right (Nat.le_of_lt hahead)
  have hdone : c.inFlight.takeWhile (·.1 ≤ key)
      = (flight.takeWhile (·.key ≤ key)).map fun p => (p.key, p.weight) := by
    rw [hflight, List.takeWhile_map]
    rfl
  have hparts : flight.takeWhile (·.key ≤ key) ++ flight.dropWhile (·.key ≤ key) = flight :=
    List.takeWhile_append_dropWhile
  refine ⟨by rw [hconfirmed]; exact hsent, h.sent, ?_,
    ⟨flight.dropWhile (·.key ≤ key), by rw [hconfirmed]; exact hbehind, ?_⟩, h.due⟩
  · have htaken : ((c.inFlight.takeWhile (·.1 ≤ key)).map (·.2)).foldr (· + ·) 0
        = totalWeight (flight.takeWhile (·.key ≤ key)) := by
      rw [hdone, List.map_map]
      rfl
    have hweight : (c.confirm key).confirmation.weight
        = c.confirmation.weight - totalWeight (flight.takeWhile (·.key ≤ key)) := by
      rw [← htaken, ← c.confirmation.weight_advance key]
      rfl
    have hall := h.weight
    rw [howed, ← hparts, totalWeight_append, totalWeight_append] at hall
    rw [hweight, hconfirmed, hbehind, totalWeight_append]
    omega
  · show c.inFlight.drop (c.inFlight.takeWhile (·.1 ≤ key)).length = _
    rw [hdone, List.length_map, hflight, ← List.map_drop, FileLog.dropWhile_eq_drop]

/-- A channel does not notice that packets go which it has confirmed. -/
theorem drops (h : Booked ps nextKey c) {n : Nat} (hdone : ∀ p ∈ ps.take n, p.key ≤ c.lastConfirmed) :
    Booked (ps.drop n) nextKey c := by
  have hlt : ∀ p ∈ ps.take n, p.key < c.lastConfirmed + 1 := fun p hp =>
    Nat.lt_succ_of_le (hdone p hp)
  have hsent : ∀ p ∈ ps.take n, p.key < c.lastSent + 1 := fun p hp =>
    Nat.lt_succ_of_le (Nat.le_trans (hdone p hp) h.confirmed)
  refine ⟨h.confirmed, h.sent, ?_, ?_, ?_⟩
  · rw [owed_drop hlt]
    exact h.weight
  · rw [owed_drop hlt, owed_drop hsent]
    exact h.flight
  · rw [owed_drop hsent]
    exact h.due

/-- A discard takes the weight of the packets that were lost off the channel, and all that was on
its way up to the last of them. -/
theorem discards (h : Booked ps nextKey c) (hkeyed : KeyedFrom first ps) (n : Nat) :
    Booked (ps.drop n) nextKey (c.afterDiscard (ps.take n)) := by
  by_cases hdone : ∀ p ∈ ps.take n, p.key ≤ c.lastConfirmed
  · rw [SourceChannel.afterDiscard_of_confirmed hdone]
    exact h.drops hdone
  simp only [Classical.not_forall, Nat.not_le] at hdone
  obtain ⟨p, hp, hlost⟩ := hdone
  obtain ⟨last, hlast⟩ := Option.ne_none_iff_exists'.1
    (mt List.getLast?_eq_none_iff.1 (List.ne_nil_of_mem hp))
  have hparts : owed ps (c.lastConfirmed + 1)
      = owed (ps.take n) (c.lastConfirmed + 1) ++ owed (ps.drop n) (c.lastConfirmed + 1) := by
    rw [← owed_append_owed, List.take_append_drop]
  have hbehind := owed_behind hkeyed hlast
  obtain ⟨flight, howed, hflight⟩ := h.flight
  have hkept : owed (ps.drop n) (c.lastConfirmed + 1)
      = owed flight (last.key + 1) ++ owed (ps.drop n) (c.lastSent + 1) := by
    rw [← hbehind, owed_comm, howed, owed_append_owed, owed_comm ps (last.key + 1)]
  rw [SourceChannel.afterDiscard_of_lost hp hlost hlast]
  refine ⟨h.confirmed, h.sent, ?_, ⟨owed flight (last.key + 1), hkept, ?_⟩, fun _ hsynced => by
    cases hsynced⟩
  · show c.confirmation.weight - totalWeight (owed (ps.take n) (c.lastConfirmed + 1)) = _
    rw [h.weight, hparts, totalWeight_append]
    exact Nat.add_sub_cancel_left ..
  · show c.inFlight.filter (last.key < ·.1) = _
    rw [hflight, List.filter_map]
    rfl

/-- A packet that is added makes a channel heavier, and is not on its way yet. -/
theorem adds (h : Booked ps nextKey c) {p : Packet} (hp : p.key = nextKey)
    (hlight : totalWeight ps + p.weight < 2 ^ 64) (now : Nat) :
    Booked (ps ++ [p]) (nextKey + 1) (c.afterAdd now p) := by
  have hconfirmed := h.confirmed
  have hsent := h.sent
  have hbehind : ∀ k, k ≤ nextKey → owed (ps ++ [p]) k = owed ps k ++ [p] := fun k hk =>
    owed_append (by rw [hp]; exact hk)
  have hweight : saturate (c.confirmation.weight + p.weight)
      = totalWeight (owed (ps ++ [p]) (c.lastConfirmed + 1)) := by
    have hle := totalWeight_owed_le ps (c.lastConfirmed + 1)
    rw [hbehind _ (by omega), totalWeight_append, h.weight, totalWeight_cons, totalWeight_nil,
      saturate]
    omega
  have hflight : ∃ flight, owed (ps ++ [p]) (c.lastConfirmed + 1)
      = flight ++ owed (ps ++ [p]) (c.lastSent + 1) ∧
        c.inFlight = flight.map fun p => (p.key, p.weight) := by
    obtain ⟨flight, howed, hflight⟩ := h.flight
    refine ⟨flight, ?_, hflight⟩
    rw [hbehind _ (by omega), hbehind _ (by omega), howed, List.append_assoc]
  by_cases hlive : c.state = .active ∧ c.cursor = .live
  · have hafter : c.afterAdd now p = { c with
        confirmation := c.confirmation.addWeight p.weight
        accumulator := c.accumulator.push now p } := by
      rw [SourceChannel.afterAdd]
      exact if_pos hlive
    rw [hafter]
    refine ⟨hconfirmed, Nat.lt_succ_of_lt hsent, hweight, hflight, fun hactive hsynced => ?_⟩
    have hdue := h.due hactive hsynced
    rw [hlive.2] at hdue
    simp only [hlive.2]
    rw [Accumulator.packets_push, hdue, hbehind _ (by omega)]
  · have hafter : c.afterAdd now p
        = { c with confirmation := c.confirmation.addWeight p.weight } := by
      rw [SourceChannel.afterAdd]
      exact if_neg hlive
    rw [hafter]
    refine ⟨hconfirmed, Nat.lt_succ_of_lt hsent, hweight, hflight, fun hactive hsynced => ?_⟩
    have hdue := h.due hactive hsynced
    cases hcursor : c.cursor with
    | catchingUp key =>
      rw [hcursor] at hdue
      exact hdue
    | live => exact absurd ⟨hactive, hcursor⟩ hlive

/-- A handshake counts the weight again from where delivery starts. -/
theorem welcomes (hkeyed : KeyedFrom first ps) {start : Nat} (hpos : 1 ≤ start)
    (hstart : start ≤ nextKey) (request : HandshakeRequest) (c : SourceChannel) :
    Booked ps nextKey (Backlog.welcomed request start
      (totalWeight (ps.dropWhile (·.key < start))) c) := by
  have hnext : start - 1 + 1 = start := Nat.sub_add_cancel hpos
  refine ⟨Nat.le_refl _, ?_, ?_, ⟨[], rfl, rfl⟩, fun _ _ => ⟨hnext.symm, rfl⟩⟩
  · show start - 1 < nextKey
    omega
  · show totalWeight (ps.dropWhile (·.key < start)) = totalWeight (owed ps (start - 1 + 1))
    rw [hnext, dropWhile_eq_owed hkeyed]

/-- A batch of what comes next goes on its way. -/
theorem sends (h : Booked ps nextKey c) (hkeyed : KeyedFrom first ps)
    (hend : first + ps.length = nextKey) {n : Nat} {batch : List Packet}
    (hbatch : batch = (owed ps (c.lastSent + 1)).take n) {cursor : Cursor} {accumulator : Accumulator}
    (hdue : match cursor with
      | .catchingUp key => key = (c.recordSent batch).lastSent + 1 ∧ accumulator.packets = []
      | .live => accumulator.packets = (owed ps (c.lastSent + 1)).drop n) :
    Booked ps nextKey ({ c with cursor, accumulator }.recordSent batch) := by
  obtain ⟨hforward, hbefore, hrest⟩ := owed_sent hkeyed (by rw [hend]; exact h.sent) hbatch
  obtain ⟨flight, howed, hflight⟩ := h.flight
  refine ⟨Nat.le_trans h.confirmed hforward, by rw [hend] at hbefore; exact hbefore, h.weight,
    ⟨flight ++ batch, ?_, ?_⟩, fun _ _ => ?_⟩
  · show owed ps (c.lastConfirmed + 1) = flight ++ batch
      ++ owed ps (batch.foldl (fun last p => max last p.key) c.lastSent + 1)
    rw [hrest, howed, hbatch, List.append_assoc, List.take_append_drop]
  · show c.inFlight ++ batch.map _ = _
    rw [hflight, List.map_append]
  · cases cursor with
    | catchingUp key => exact hdue
    | live => exact hdue.trans hrest.symm

/-- Where a channel stands that read a batch of what comes next from an open log. -/
theorem reads {b : Backlog} (h : Booked ps b.nextKey c) (hholds : b.log.Holds ps)
    (hnext : b.nextKey = b.log.nextKey) (hopen : b.log.isClosed = false)
    (hbatch : 1 ≤ b.settings.maxBatchSize) (hactive : c.state = .active)
    (hsynced : c.resyncRequired = false) {key : Nat} (hcursor : c.cursor = .catchingUp key) :
    Booked ps b.nextKey (b.caughtUp (b.batchFrom ps key) c) := by
  obtain ⟨rfl, hempty⟩ : key = c.lastSent + 1 ∧ c.accumulator.packets = [] := by
    have hdue := h.due hactive hsynced
    rwa [hcursor] at hdue
  have hkeyed := hholds.keyed
  have hlength := hholds.length_le
  rw [← hnext] at hkeyed hlength
  have hcut : b.batchFrom ps (c.lastSent + 1)
      = (owed ps (c.lastSent + 1)).take b.settings.maxBatchSize := by
    rw [Backlog.batchFrom, dropWhile_eq_owed hkeyed]
  refine h.sends hkeyed (Nat.sub_add_cancel hlength) hcut ?_
  rw [hcut]
  by_cases hnone : owed ps (c.lastSent + 1) = []
  · rw [hnone, List.take_nil, List.drop_nil]
    exact hempty
  · have hpos : 0 < (owed ps (c.lastSent + 1)).length := List.length_pos_iff.2 hnone
    have howed := length_owed hkeyed (c.lastSent + 1)
    have htail : b.log.lastKey = some (b.nextKey - 1) := by
      have hne : ps ≠ [] := fun hnil => hnone (by rw [hnil]; rfl)
      rw [hholds.lastKey hopen, hkeyed.getLast? hne, Nat.sub_add_cancel hlength]
    have hbatchKeyed := (keyed_owed hkeyed (c.lastSent + 1)).take b.settings.maxBatchSize
    have hbatchLength : ((owed ps (c.lastSent + 1)).take b.settings.maxBatchSize).length
        = min b.settings.maxBatchSize (owed ps (c.lastSent + 1)).length := List.length_take
    have hbatchNe : (owed ps (c.lastSent + 1)).take b.settings.maxBatchSize ≠ [] :=
      List.length_pos_iff.1 (by omega)
    have hlast : (c.recordSent ((owed ps (c.lastSent + 1)).take b.settings.maxBatchSize)).lastSent
        = _ := foldl_max_key hbatchKeyed (by omega)
    rw [if_neg hbatchNe] at hlast
    rw [htail, InStep.cursorAfter_of_keyed hbatchKeyed hbatchNe (by omega)]
    by_cases hmore : b.nextKey - ps.length + (c.lastSent + 1 - (b.nextKey - ps.length))
        + ((owed ps (c.lastSent + 1)).take b.settings.maxBatchSize).length < b.nextKey
    · rw [if_pos hmore]
      refine ⟨?_, hempty⟩
      rw [hlast]
      omega
    · rw [if_neg hmore]
      show c.accumulator.packets = _
      rw [hempty, List.drop_eq_nil_of_le (by omega)]

/-- Where a channel stands that got a batch from its accumulator. -/
theorem cuts (h : Booked ps nextKey c) (hkeyed : KeyedFrom first ps)
    (hend : first + ps.length = nextKey) (hactive : c.state = .active)
    (hsynced : c.resyncRequired = false) (hlive : c.cursor = .live) {now : Nat} {force : Bool}
    {batch : List Packet} {accumulator : Accumulator}
    (hpoll : c.accumulator.poll now force = some (batch, accumulator)) :
    Booked ps nextKey ({ c with accumulator }.recordSent batch) := by
  obtain ⟨-, hbatch, hrest, -⟩ := Accumulator.poll_eq_some hpoll
  have hdue := h.due hactive hsynced
  rw [hlive] at hdue
  simp only at hdue
  rw [hdue] at hbatch hrest
  have hsends : Booked ps nextKey (SourceChannel.recordSent batch
      { c with cursor := .live, accumulator }) := h.sends hkeyed hend hbatch hrest
  rw [← hlive] at hsends
  exact hsends

end Booked

namespace Backlog

/-- The accounts of all channels are right, over a log that holds `ps` and whose keys start at 1 or
later. -/
structure Balanced (b : Backlog) (ps : List Packet) : Prop where
  next : b.nextKey = b.log.nextKey
  numbered : ps.length < b.nextKey
  channels : ∀ target c, b.channel? target = some c → Booked ps b.nextKey c

namespace Balanced

variable {b b' : Backlog} {ps : List Packet} {op : Operation}

theorem withChannel (h : b.Balanced ps) {target : String} {c : SourceChannel}
    (hc : Booked ps b.nextKey c) : (b.withChannel target c).Balanced ps where
  next := h.next
  numbered := h.numbered
  channels other c' hc' := by
    by_cases hother : other = target
    · subst hother
      rw [channel?_withChannel_self] at hc'
      cases hc'
      exact hc
    · rw [channel?_withChannel_other hother] at hc'
      exact h.channels other c' hc'

theorem discarded (h : b.Balanced ps) {first n : Nat} (hkeyed : KeyedFrom first ps) {log : PacketLog}
    (hto : b.log.TrimsTo (ps.drop n) log) : (b.discarded (ps.take n) log).Balanced (ps.drop n) where
  next := h.next.trans hto.nextKey.symm
  numbered := Nat.lt_of_le_of_lt (List.drop_suffix n ps).length_le h.numbered
  channels target c' hc' := by
    rw [channel?_discarded] at hc'
    obtain ⟨c, hc, rfl⟩ := Option.map_eq_some_iff.1 hc'
    exact (h.channels target c hc).discards hkeyed n

theorem extended (h : b.Balanced ps) {p : Packet} (hp : p.key = b.nextKey) {log : PacketLog}
    (hlast : log.lastAppended = some p.key) (hlight : totalWeight ps + p.weight < 2 ^ 64) :
    (b.extended p log).Balanced (ps ++ [p]) where
  next := by
    show p.key + 1 = log.nextKey
    rw [PacketLog.nextKey, hlast]
    rfl
  numbered := by
    show (ps ++ [p]).length < p.key + 1
    rw [hp, List.length_append]
    exact Nat.succ_lt_succ h.numbered
  channels target c' hc' := by
    rw [channel?_extended] at hc'
    obtain ⟨c, hc, rfl⟩ := Option.map_eq_some_iff.1 hc'
    show Booked (ps ++ [p]) (p.key + 1) _
    rw [hp]
    exact (h.channels target c hc).adds hp hlight b.now

/-- Every operation leaves the accounts right. -/
theorem after (h : b.Balanced ps) (hholds : b.log.Holds ps) (hbatch : 1 ≤ b.settings.maxBatchSize)
    (hbecomes : b.Becomes ps op b') (hlight : b'.log.weight < 2 ^ 64) :
    ∃ ps', b'.log.Holds ps' ∧ b'.Balanced ps' := by
  have hkeyed := hholds.keyed
  have hlength := hholds.length_le
  rw [← h.next] at hkeyed hlength
  have hend := Nat.sub_add_cancel hlength
  cases hbecomes with
  | idle hlog hnext _ hchannels =>
    refine ⟨ps, hlog ▸ hholds, hnext.trans (hlog ▸ h.next), hnext ▸ h.numbered, fun target c hc => ?_⟩
    rw [channel?, hchannels] at hc
    rw [hnext]
    exact h.channels target c hc
  | touched hfound hshifts _ _ hsettles =>
    refine ⟨ps, hholds, h.withChannel ?_⟩
    have hbooked := h.channels _ _ hfound
    cases hsettles with
    | stays hconfirmed hweight hflight hsent =>
      exact hbooked.stays hshifts hconfirmed hweight hflight hsent
    | confirms hahead hsent => exact hbooked.confirms hkeyed hahead hsent
  | welcomed _ hagreed hopen _ _ hweighs =>
    refine ⟨ps, hholds, h.withChannel ?_⟩
    obtain ⟨hearliest, hnext⟩ := negotiate_bounds hagreed
    have hnumbered := h.numbered
    have hkept := hholds.earliest hopen
    rw [PacketLog.earliest, ← h.next] at hkept
    rw [show b.retained.earliest = _ from hkept] at hearliest hnext
    subst hweighs
    exact Booked.welcomes hkeyed (by omega) (hnext (Nat.sub_le ..)) _ _
  | handed _ hfound hactive hsynced hhands =>
    refine ⟨ps, hholds, h.withChannel ?_⟩
    have hbooked := h.channels _ _ hfound
    cases hhands with
    | read hcursor hopen _ =>
      exact hbooked.reads hholds h.next hopen hbatch hactive hsynced hcursor
    | cut hlive hpoll => exact hbooked.cuts hkeyed hend hactive hsynced hlive hpoll
  | @detached target n log hto hlast =>
    refine ⟨ps.drop n, hto.holds, h.next.trans hto.nextKey.symm,
      Nat.lt_of_le_of_lt (List.drop_suffix n ps).length_le h.numbered, fun other c hc => ?_⟩
    by_cases hother : other = target
    · subst hother
      simp [channel?] at hc
    · have hstill : b.channels.erase target ≠ [] := fun hnone => by
        rw [channel?, hnone] at hc
        cases hc
      rw [channel?, Table.get?_erase_other _ hother] at hc
      rw [hlast hstill]
      exact h.channels other c hc
  | @compacted n _ hto hconfirmed =>
    refine ⟨_, hto.holds, h.next.trans hto.nextKey.symm,
      Nat.lt_of_le_of_lt (List.drop_suffix n ps).length_le h.numbered, fun target c hc => ?_⟩
    exact (h.channels target c hc).drops fun p hp =>
      hconfirmed p hp c (Table.mem_values_of_get? hc)
  | refused hto => exact ⟨_, hto.holds, h.discarded hkeyed hto⟩
  | @added payload transient fromGateway n _ log' _ hto hholds' hlast hopen' =>
    refine ⟨_, hholds', (h.discarded hkeyed hto).extended rfl hlast ?_⟩
    have hweight : log'.weight
        = totalWeight (ps.drop n ++ [b.numbered payload transient fromGateway]) :=
      congrArg LogView.weight (hholds'.view_open hopen')
    change log'.weight < 2 ^ 64 at hlight
    rwa [hweight, totalWeight_append, totalWeight_cons, totalWeight_nil] at hlight
  | @closed log _ hholds' _ hlast =>
    refine ⟨ps, hholds', ?_, h.numbered, h.channels⟩
    show b.nextKey = log.nextKey
    rw [PacketLog.nextKey, hlast]
    exact h.next

end Balanced

/-- A new backlog has no channels yet. -/
theorem balanced_start {log : PacketLog} {kept : List Packet} (hholds : log.Holds kept)
    (hnumbered : ∀ p ∈ kept, 1 ≤ p.key) (membership : Membership) (settings : BacklogSettings) :
    (Backlog.ofLog membership settings log).Balanced kept where
  next := rfl
  numbered := by
    show kept.length < log.nextKey
    cases hhead : kept.head? with
    | none =>
      rw [List.head?_eq_none_iff.1 hhead, PacketLog.nextKey]
      cases log.lastAppended <;> exact Nat.succ_pos _
    | some p =>
      have hmem := List.mem_of_head? hhead
      have hfirst := hholds.keyed.head? (List.ne_nil_of_mem hmem)
      rw [hhead, Option.map_some, Option.some.injEq] at hfirst
      have hpos := hnumbered p hmem
      omega
  channels _ _ hc := by cases hc

/-- In every run the accounts are right, as long as the log stays light enough to be weighed. -/
theorem balanced_steps (settings : BacklogSettings) (hbatch : 1 ≤ settings.maxBatchSize)
    (ops : List Operation) (r : Run) (hsettings : r.backlog.settings = settings)
    (hbalanced : ∃ ps, r.backlog.log.Holds ps ∧ r.backlog.Balanced ps)
    (hkeys : (r.steps ops).backlog.nextKey < 2 ^ 64)
    (hlight : ∀ t ∈ (r.steps ops).turns, t.after.log.weight < 2 ^ 64) :
    ∃ ps, (r.steps ops).backlog.log.Holds ps ∧ (r.steps ops).backlog.Balanced ps := by
  induction ops generalizing r with
  | nil => exact hbalanced
  | cons op ops ih =>
    obtain ⟨ps, hholds, hps⟩ := hbalanced
    have hkey : r.backlog.nextKey < 2 ^ 64 :=
      Nat.lt_of_le_of_lt (r.nextKey_le_steps (op :: ops)) hkeys
    have hbecomes := becomes_after hholds hkey op
    have hturn : (⟨r.backlog, op⟩ : Turn) ∈ ((r.step op).steps ops).turns :=
      ((r.step op).turns_suffix_steps ops).subset List.mem_cons_self
    exact ih (r.step op) (hbecomes.settings.trans hsettings)
      (hps.after hholds (by rw [hsettings]; exact hbatch) hbecomes (hlight _ hturn)) hkeys hlight

theorem wasOpen_steps (ops : List Operation) (r : Run) {ps : List Packet}
    (hholds : r.backlog.log.Holds ps) (hkeys : (r.steps ops).backlog.nextKey < 2 ^ 64)
    (hopen : (r.steps ops).backlog.log.isClosed = false) : r.backlog.log.isClosed = false := by
  induction ops generalizing r ps with
  | nil => exact hopen
  | cons op ops ih =>
    have hkey : r.backlog.nextKey < 2 ^ 64 :=
      Nat.lt_of_le_of_lt (r.nextKey_le_steps (op :: ops)) hkeys
    have hbecomes := becomes_after hholds hkey op
    obtain ⟨ps', hholds'⟩ := hbecomes.holds hholds
    exact hbecomes.wasOpen (ih (r.step op) hholds' hkeys hopen)

/-- Over any log that came about by its own operations and whose keys start at 1 or later, and at any
point of a run in which the log is open and was never heavier than can be told: the weight of every
channel is that of the packets in the log behind what it has confirmed, and the log tells the number
and the weight of its packets. -/
theorem outstanding_weight {log : PacketLog} (hlog : log.Reachable)
    (hnumbered : ∀ p ∈ log.packets, 1 ≤ p.key) (membership : Membership) (settings : BacklogSettings)
    (hbatch : 1 ≤ settings.maxBatchSize) (ops : List Operation) :
    let r := (Backlog.ofLog membership settings log).run ops
    let b := r.backlog
    b.nextKey < 2 ^ 64 → b.log.isClosed = false → (∀ t ∈ r.turns, t.after.log.weight < 2 ^ 64) →
    (∀ target c, b.channel? target = some c → c.confirmation.weight
      = totalWeight (b.log.packets.filter (c.lastConfirmed < ·.key))) ∧
    b.log.weight = totalWeight b.log.packets ∧
    b.log.size = ⟨b.log.packets.length, totalWeight b.log.packets⟩ := by
  intro r b hkeys hopen hlight
  obtain ⟨kept, hkept, -⟩ := hlog.holds
  have hstart := wasOpen_steps ops (Run.start (.ofLog membership settings log)) hkept hkeys hopen
  rw [hkept.packets hstart] at hnumbered
  have hrun : ∃ ps, b.log.Holds ps ∧ b.Balanced ps :=
    balanced_steps settings hbatch ops _ rfl
      ⟨kept, hkept, balanced_start hkept hnumbered membership settings⟩ hkeys hlight
  obtain ⟨ps, hholds, hbalanced⟩ := hrun
  have hview := hholds.view_open hopen
  rw [hholds.packets hopen]
  exact ⟨fun target c hc => (hbalanced.channels target c hc).weight,
    congrArg LogView.weight hview, congrArg LogView.size hview⟩

/-- What is asked of a backlog with one target that confirms the first of two packets before the
third comes. -/
def partlyConfirmed : List Operation :=
  [.handshake "backup" ⟨true, 0, none⟩,
    .add (.entry (.write ⟨"Order", "a", 1, [], none⟩)) false false,
    .add (.entry (.write ⟨"Order", "b", 1, [], none⟩)) false false,
    .poll "backup" true, .confirm "backup" 1,
    .add (.entry (.write ⟨"Order", "c", 1, [], none⟩)) false false]

/-- Two of the three packets still have to be confirmed. -/
theorem outstanding_weight_partlyConfirmed :
    let b := ((Backlog.ofLog (.openTo "orders") .standard
      (.memory (.empty "orders" none))).run partlyConfirmed).backlog
    ∃ c, b.channel? "backup" = some c ∧ c.lastConfirmed = 1 ∧ c.confirmation.weight = 2 ∧
      c.confirmation.weight = totalWeight (b.log.packets.filter (c.lastConfirmed < ·.key)) ∧
      b.log.weight = totalWeight b.log.packets ∧ b.log.size = ⟨3, 3⟩ := by
  intro b
  obtain ⟨hchannels, hweight, hsize⟩ := outstanding_weight (.memory "orders" none)
    (by decide +kernel) (.openTo "orders") .standard (by decide) partlyConfirmed
    (by decide +kernel) (by decide +kernel) (by decide +kernel)
  have hchannel : (b.channel? "backup").map (fun c => (c.lastConfirmed, c.confirmation.weight))
      = some (1, 2) := by decide +kernel
  obtain ⟨c, hc, hpair⟩ := Option.map_eq_some_iff.1 hchannel
  obtain ⟨hconfirmed, houtstanding⟩ := Prod.mk.inj hpair
  exact ⟨c, hc, hconfirmed, houtstanding, hchannels "backup" c hc, hweight,
    hsize.trans (by decide +kernel)⟩

/-- Without room for a batch a channel is taken for caught up though it read nothing, and what it was
never handed weighs on it for good. -/
theorem outstanding_weight_unbatched :
    let r := (Backlog.ofLog (.openTo "orders") ⟨100000, .reject, 0, 50, 1⟩
      (.memory (.empty "orders" none))).run
      [.handshake "backup" ⟨true, 0, none⟩,
        .add (.entry (.write ⟨"Order", "a", 1, [], none⟩)) false false, .poll "backup" true,
        .add (.entry (.write ⟨"Order", "b", 1, [], none⟩)) false false, .poll "backup" true,
        .confirm "backup" 2]
    r.backlog.nextKey < 2 ^ 64 ∧ r.backlog.log.isClosed = false ∧
      (∀ t ∈ r.turns, t.after.log.weight < 2 ^ 64) ∧
      ∃ c, r.backlog.channel? "backup" = some c ∧ c.lastConfirmed = 2 ∧ c.confirmation.weight = 1 ∧
        c.confirmation.weight
          ≠ totalWeight (r.backlog.log.packets.filter (c.lastConfirmed < ·.key)) := by
  intro r
  have hchannel : (r.backlog.channel? "backup").map (fun c => (c.lastConfirmed, c.confirmation.weight,
      totalWeight (r.backlog.log.packets.filter (c.lastConfirmed < ·.key)))) = some (2, 1, 0) := by
    decide +kernel
  obtain ⟨c, hc, htriple⟩ := Option.map_eq_some_iff.1 hchannel
  obtain ⟨hconfirmed, hweight, hretained⟩ : _ ∧ _ ∧ _ := by
    simpa only [Prod.mk.injEq] using htriple
  refine ⟨by decide +kernel, by decide +kernel, by decide +kernel, c, hc, hconfirmed, hweight, ?_⟩
  rw [hweight, hretained]
  decide

end Backlog

end GroupReplication
