/-
What a channel is charged for covers what it still has to confirm, whatever the size of a batch. A
channel that may hold no packet in a batch passes packets over that it was never handed, so its
weight can be more than is left to confirm, and what it is handed has holes. It still gets packets in
their order, each at most once, and none that it has confirmed (`Covered`); this is all that a
discard relies on when it takes weight off a channel.
-/
import GroupReplication.Proofs.Backlog.Fares
import GroupReplication.Proofs.Backlog.Room
import GroupReplication.Proofs.Backlog.Weight

namespace GroupReplication

open Packet Log

section Sublists

variable {ps qs : List Packet} {key first last : Nat}

theorem totalWeight_sublist (h : ps.Sublist qs) : totalWeight ps ≤ totalWeight qs := by
  induction h with
  | slnil => exact Nat.le_refl _
  | cons p _ ih => exact Nat.le_trans ih (Nat.le_add_left _ _)
  | cons_cons p _ ih => exact Nat.add_le_add_left ih _

theorem owed_sublist (h : ps.Sublist qs) (key : Nat) : (owed ps key).Sublist (owed qs key) :=
  h.filter _

theorem owed_mem {p : Packet} (h : p ∈ owed ps key) : p ∈ ps ∧ key ≤ p.key := by
  simpa [owed] using h

theorem Packet.KeyedFrom.pairwise (h : KeyedFrom key ps) : ps.Pairwise (·.key < ·.key) := by
  have hkeys := keyedFrom_iff.1 h
  have hsorted : (ps.map (·.key)).Pairwise (· < ·) := hkeys ▸ List.pairwise_lt_range'
  exact List.pairwise_map.1 hsorted

theorem foldl_max_key_lt : ∀ {batch : List Packet} {last bound : Nat},
    batch.foldl (fun last p => max last p.key) last < bound ↔
      last < bound ∧ ∀ p ∈ batch, p.key < bound
  | [], _, _ => by simp
  | p :: batch, last, bound => by
    rw [List.foldl_cons, foldl_max_key_lt, Nat.max_lt, List.forall_mem_cons, and_assoc]

theorem le_foldl_max_key (batch : List Packet) (last : Nat) :
    last ≤ batch.foldl (fun last p => max last p.key) last := by
  induction batch generalizing last with
  | nil => exact Nat.le_refl _
  | cons p batch ih => exact Nat.le_trans (Nat.le_max_left ..) (ih _)

/-- Of packets in order, those up to a key come first. -/
theorem dropWhile_upTo (h : ps.Pairwise (·.key < ·.key)) (key : Nat) :
    ps.dropWhile (·.key ≤ key) = owed ps (key + 1) := by
  induction ps with
  | nil => rfl
  | cons p ps ih =>
    obtain ⟨hfirst, hrest⟩ := List.pairwise_cons.1 h
    by_cases hp : p.key ≤ key
    · rw [List.dropWhile_cons_of_pos (by simpa using hp), ih hrest, owed, owed,
        List.filter_cons_of_neg (by simpa [Nat.lt_succ_iff] using hp)]
    · rw [List.dropWhile_cons_of_neg (by simpa using hp), owed]
      refine (List.filter_eq_self.2 fun q hq => ?_).symm
      have hle : p.key ≤ q.key := by
        rcases List.mem_cons.1 hq with rfl | hq
        · exact Nat.le_refl _
        · exact Nat.le_of_lt (hfirst q hq)
      simp only [decide_eq_true_eq]
      omega

/-- The packets up to a key and those behind it. -/
theorem totalWeight_owed_add (ps : List Packet) (key : Nat) :
    totalWeight (ps.filter (·.key ≤ key)) + totalWeight (owed ps (key + 1)) = totalWeight ps := by
  induction ps with
  | nil => rfl
  | cons p ps ih =>
    by_cases hp : p.key ≤ key
    · rw [List.filter_cons_of_pos (by simpa using hp), owed,
        List.filter_cons_of_neg (by simpa [Nat.lt_succ_iff] using hp), totalWeight_cons,
        totalWeight_cons, ← ih, owed]
      omega
    · rw [List.filter_cons_of_neg (by simpa using hp), owed,
        List.filter_cons_of_pos (by simpa [Nat.succ_le_iff] using hp), totalWeight_cons,
        totalWeight_cons, ← ih, owed]
      omega

end Sublists

namespace SourceChannel

/-- The packets that the channel, as it stands, would be handed from a log that holds `ps`. -/
def due (ps : List Packet) (c : SourceChannel) : List Packet :=
  if c.state = .active ∧ c.resyncRequired = false then
    match c.cursor with
    | .catchingUp key => owed ps key
    | .live => c.accumulator.packets
  else []

/-- All that comes next lies behind what was sent, and nothing waits while the log is still read. -/
def Poised (c : SourceChannel) : Prop :=
  match c.cursor with
  | .catchingUp key => c.lastSent < key ∧ c.accumulator.packets = []
  | .live => ∀ p ∈ c.accumulator.packets, c.lastSent < p.key

variable {ps : List Packet} {c c' : SourceChannel}

theorem due_of_lost (h : c.resyncRequired = true) : c.due ps = [] := by
  simp [due, h]

theorem due_catchingUp {key : Nat} (hactive : c.state = .active) (hsynced : c.resyncRequired = false)
    (hcursor : c.cursor = .catchingUp key) : c.due ps = owed ps key := by
  simp [due, hactive, hsynced, hcursor]

theorem due_live (hactive : c.state = .active) (hsynced : c.resyncRequired = false)
    (hcursor : c.cursor = .live) : c.due ps = c.accumulator.packets := by
  simp [due, hactive, hsynced, hcursor]

theorem due_mem {p : Packet} (h : p ∈ c.due ps) : c.state = .active ∧ c.resyncRequired = false := by
  rw [due] at h
  split at h
  · assumption
  · cases h

/-- A channel that shifts would be handed the same, or nothing. -/
theorem due_shifts (h : c.Shifts c') : (c'.due ps).Sublist (c.due ps) := by
  by_cases hpolled : c'.state = .active ∧ c'.resyncRequired = false
  · obtain ⟨hactive, hcursor, hpackets⟩ := h.due hpolled.1 hpolled.2
    have hsynced : c.resyncRequired = false := Bool.eq_false_iff.2 fun hlost => by
      rw [h.lost hlost] at hpolled
      cases hpolled.2
    have hsame : c'.due ps = c.due ps := by
      simp only [due, hpolled, hactive, hsynced, hcursor, hpackets]
    exact hsame ▸ List.Sublist.refl _
  · rw [due, if_neg hpolled]
    exact List.nil_sublist _

/-- Of fewer packets fewer are due. -/
theorem due_drop (n : Nat) : (c.due (ps.drop n)).Sublist (c.due ps) := by
  by_cases hpolled : c.state = .active ∧ c.resyncRequired = false
  · cases hcursor : c.cursor with
    | catchingUp key =>
      rw [due_catchingUp hpolled.1 hpolled.2 hcursor, due_catchingUp hpolled.1 hpolled.2 hcursor]
      exact owed_sublist (List.drop_sublist n ps) key
    | live =>
      have hsame : c.due (ps.drop n) = c.due ps := by
        rw [due_live hpolled.1 hpolled.2 hcursor, due_live hpolled.1 hpolled.2 hcursor]
      exact hsame ▸ List.Sublist.refl _
  · rw [due, if_neg hpolled]
    exact List.nil_sublist _

/-- What an add leaves alone of a channel, and what it charges. -/
structure AddKeeps (p : Packet) (c c' : SourceChannel) : Prop where
  state : c'.state = c.state
  resyncRequired : c'.resyncRequired = c.resyncRequired
  cursor : c'.cursor = c.cursor
  inFlight : c'.inFlight = c.inFlight
  lastSent : c'.lastSent = c.lastSent
  confirmation : c'.confirmation = c.confirmation.addWeight p.weight

theorem AddKeeps.lastConfirmed {p : Packet} (h : AddKeeps p c c') :
    c'.lastConfirmed = c.lastConfirmed := by
  rw [SourceChannel.lastConfirmed, h.confirmation]
  rfl

theorem afterAdd_keeps (now : Nat) (p : Packet) (c : SourceChannel) :
    AddKeeps p c (c.afterAdd now p) := by
  simp only [afterAdd]
  split <;> exact ⟨rfl, rfl, rfl, rfl, rfl, rfl⟩

/-- A packet reaches the accumulator of a live channel. -/
theorem accumulator_afterAdd (now : Nat) (p : Packet) (c : SourceChannel) :
    (c.afterAdd now p).accumulator
      = if c.state = .active ∧ c.cursor = .live then c.accumulator.push now p else c.accumulator := by
  simp only [afterAdd]
  split <;> rfl

/-- A packet that is added comes last. -/
theorem due_afterAdd (now : Nat) (p : Packet) :
    ((c.afterAdd now p).due (ps ++ [p])).Sublist (c.due ps ++ [p]) := by
  have hsame := c.afterAdd_keeps now p
  by_cases hpolled : c.state = .active ∧ c.resyncRequired = false
  · have hactive := hsame.state.trans hpolled.1
    have hsynced := hsame.resyncRequired.trans hpolled.2
    cases hcursor : c.cursor with
    | catchingUp key =>
      rw [due_catchingUp hactive hsynced (hsame.cursor.trans hcursor),
        due_catchingUp hpolled.1 hpolled.2 hcursor, owed_append_owed]
      exact (List.filter_sublist).append_left _
    | live =>
      have hlast : (c.afterAdd now p).due (ps ++ [p]) = c.due ps ++ [p] := by
        rw [due_live hactive hsynced (hsame.cursor.trans hcursor),
          due_live hpolled.1 hpolled.2 hcursor, accumulator_afterAdd, if_pos ⟨hpolled.1, hcursor⟩,
          Accumulator.packets_push]
      exact hlast ▸ List.Sublist.refl _
  · rw [due, hsame.state, hsame.resyncRequired, if_neg hpolled]
    exact List.nil_sublist _

theorem Poised.afterAdd (h : c.Poised) {p : Packet} (now : Nat) (hp : c.lastSent < p.key) :
    (c.afterAdd now p).Poised := by
  have hsame := c.afterAdd_keeps now p
  rw [Poised, hsame.cursor, hsame.lastSent, accumulator_afterAdd]
  rw [Poised] at h
  cases hcursor : c.cursor with
  | catchingUp key =>
    rw [hcursor] at h
    simpa using h
  | live =>
    rw [hcursor] at h
    intro q hq
    split at hq
    · rw [Accumulator.packets_push] at hq
      rcases List.mem_append.1 hq with hq | hq
      · exact h q hq
      · rwa [List.mem_singleton.1 hq]
    · exact h q hq

end SourceChannel

/-- The accounts of a channel over a log that holds `ps`, when the next packet gets `nextKey`. -/
structure Covered (ps : List Packet) (nextKey : Nat) (c : SourceChannel) : Prop where
  confirmed : c.lastConfirmed ≤ c.lastSent
  sent : c.lastSent < nextKey
  discarded : c.confirmation.discarded + ps.length ≤ nextKey
  weight : totalWeight (owed ps (c.lastConfirmed + 1)) ≤ c.confirmation.weight
  flight : ∃ flight, c.inFlight = flight.map (fun p => (p.key, p.weight)) ∧
    (flight ++ c.due ps).Sublist (owed ps (c.lastConfirmed + 1))
  poised : c.state = .active → c.resyncRequired = false → c.Poised

namespace Covered

variable {ps : List Packet} {nextKey first : Nat} {c c' : SourceChannel}

/-- Nothing comes next that was sent before. -/
theorem sent_lt_due (h : Covered ps nextKey c) {p : Packet} (hp : p ∈ c.due ps) :
    c.lastSent < p.key := by
  obtain ⟨hactive, hsynced⟩ := SourceChannel.due_mem hp
  have hpoised := h.poised hactive hsynced
  rw [SourceChannel.Poised] at hpoised
  cases hcursor : c.cursor with
  | catchingUp key =>
    rw [hcursor] at hpoised
    rw [SourceChannel.due_catchingUp hactive hsynced hcursor] at hp
    exact Nat.lt_of_lt_of_le hpoised.1 (owed_mem hp).2
  | live =>
    rw [hcursor] at hpoised
    rw [SourceChannel.due_live hactive hsynced hcursor] at hp
    exact hpoised p hp

theorem poised_shifts (h : Covered ps nextKey c) (hshifts : c.Shifts c')
    (hsent : c'.lastSent = c.lastSent) (hactive : c'.state = .active)
    (hsynced : c'.resyncRequired = false) : c'.Poised := by
  obtain ⟨hstate, hcursor, hpackets⟩ := hshifts.due hactive hsynced
  have hresync : c.resyncRequired = false := Bool.eq_false_iff.2 fun hlost => by
    rw [hshifts.lost hlost] at hsynced
    cases hsynced
  rw [SourceChannel.Poised, hcursor, hpackets, hsent]
  exact h.poised hstate hresync

/-- A confirmation takes off what was on its way up to its key. -/
theorem confirms (h : Covered ps nextKey c) (hkeyed : KeyedFrom first ps) {key : Nat}
    (hahead : c.lastConfirmed < key) (hsent : key ≤ c.lastSent) :
    Covered ps nextKey (c.confirm key) := by
  obtain ⟨flight, hflight, hcoming⟩ := h.flight
  have hconfirmed : (c.confirm key).lastConfirmed = key := by
    show (c.confirmation.advance key).lastConfirmed = key
    rw [Confirmation.lastConfirmed_advance]
    exact Nat.max_eq_right (Nat.le_of_lt hahead)
  have hpast : owed (owed ps (c.lastConfirmed + 1)) (key + 1) = owed ps (key + 1) :=
    owed_owed ps (Nat.succ_le_succ (Nat.le_of_lt hahead))
  have hordered : (owed ps (c.lastConfirmed + 1)).Pairwise (·.key < ·.key) :=
    hkeyed.pairwise.filter _
  have hrest : flight.dropWhile (·.key ≤ key) = owed flight (key + 1) :=
    dropWhile_upTo (List.pairwise_append.1 (hordered.sublist hcoming)).1 key
  have hdone : c.inFlight.takeWhile (·.1 ≤ key)
      = (flight.takeWhile (·.key ≤ key)).map fun p => (p.key, p.weight) := by
    rw [hflight, List.takeWhile_map]
    rfl
  have hdiscarded : (c.confirm key).confirmation.discarded = c.confirmation.discarded :=
    c.confirmation.discarded_advance key
  refine ⟨by rw [hconfirmed]; exact hsent, h.sent, by rw [hdiscarded]; exact h.discarded, ?_,
    ⟨flight.dropWhile (·.key ≤ key), ?_, ?_⟩, h.poised⟩
  · have htaken : ((c.inFlight.takeWhile (·.1 ≤ key)).map (·.2)).foldr (· + ·) 0
        = totalWeight (flight.takeWhile (·.key ≤ key)) := by
      rw [hdone, List.map_map]
      rfl
    have hweight : (c.confirm key).confirmation.weight
        = c.confirmation.weight - totalWeight (flight.takeWhile (·.key ≤ key)) := by
      rw [← htaken, ← c.confirmation.weight_advance key]
      rfl
    have hupTo : (flight.takeWhile (·.key ≤ key)).Sublist
        ((owed ps (c.lastConfirmed + 1)).filter (·.key ≤ key)) := by
      have hall : (flight.takeWhile (·.key ≤ key)).filter (·.key ≤ key)
          = flight.takeWhile (·.key ≤ key) :=
        List.filter_eq_self.2 fun p hp => List.all_eq_true.1 List.all_takeWhile p hp
      rw [← hall]
      exact (((List.takeWhile_sublist _).trans (List.sublist_append_left _ _)).trans hcoming).filter _
    have hbooked := totalWeight_owed_add (owed ps (c.lastConfirmed + 1)) key
    have htook := totalWeight_sublist hupTo
    have hcovered := h.weight
    rw [hpast] at hbooked
    rw [hweight, hconfirmed]
    omega
  · show c.inFlight.drop (c.inFlight.takeWhile (·.1 ≤ key)).length = _
    rw [hdone, List.length_map, hflight, ← List.map_drop, FileLog.dropWhile_eq_drop]
  · have hdue : owed (c.due ps) (key + 1) = c.due ps := List.filter_eq_self.2 fun p hp => by
      have := h.sent_lt_due hp
      simp only [decide_eq_true_eq]
      omega
    rw [hconfirmed, ← hpast, hrest]
    show (owed flight (key + 1) ++ c.due ps).Sublist _
    rw [← hdue, ← owed_append_owed]
    exact owed_sublist hcoming (key + 1)

theorem settles (h : Covered ps nextKey c) (hkeyed : KeyedFrom first ps) (hshifts : c.Shifts c')
    (hsettles : c.Settles c') :
    Covered ps nextKey c' := by
  cases hsettles with
  | confirms hahead hsent => exact h.confirms hkeyed hahead hsent
  | stays hconfirmed hweight hflight hsent hdiscarded =>
    obtain ⟨flight, hsame, hcoming⟩ := h.flight
    refine ⟨by rw [hconfirmed, hsent]; exact h.confirmed, by rw [hsent]; exact h.sent,
      by rw [hdiscarded]; exact h.discarded, by rw [hweight, hconfirmed]; exact h.weight,
      ⟨flight, hflight.trans hsame, ?_⟩, h.poised_shifts hshifts hsent⟩
    rw [hconfirmed]
    exact ((SourceChannel.due_shifts hshifts).append_left flight).trans hcoming

/-- Packets that a channel has confirmed can go without its notice. -/
theorem drops (h : Covered ps nextKey c) {n : Nat} (hdone : ∀ p ∈ ps.take n, p.key ≤ c.lastConfirmed) :
    Covered (ps.drop n) nextKey c := by
  have hlength := (List.drop_suffix n ps).length_le
  have hdiscarded := h.discarded
  obtain ⟨flight, hflight, hcoming⟩ := h.flight
  have hsame : owed (ps.drop n) (c.lastConfirmed + 1) = owed ps (c.lastConfirmed + 1) :=
    owed_drop fun p hp => Nat.lt_succ_of_le (hdone p hp)
  refine ⟨h.confirmed, h.sent, by omega, by rw [hsame]; exact h.weight, ⟨flight, hflight, ?_⟩,
    h.poised⟩
  rw [hsame]
  exact ((SourceChannel.due_drop n).append_left flight).trans hcoming

/-- The packets that a channel loses are among those that it pays for. -/
theorem lost_le (h : Covered ps nextKey c) (n : Nat) :
    totalWeight (owed (ps.take n) (c.lastConfirmed + 1))
      + totalWeight (owed (ps.drop n) (c.lastConfirmed + 1)) ≤ c.confirmation.weight := by
  rw [← totalWeight_append, ← owed_append_owed, List.take_append_drop]
  exact h.weight

/-- A discard takes off what is lost, and no more. -/
theorem discards (h : Covered ps nextKey c) (hkeyed : KeyedFrom first ps) (n : Nat) :
    Covered (ps.drop n) nextKey (c.afterDiscard (ps.take n)) := by
  by_cases hdone : ∀ p ∈ ps.take n, p.key ≤ c.lastConfirmed
  · rw [SourceChannel.afterDiscard_of_confirmed hdone]
    exact h.drops hdone
  simp only [Classical.not_forall, Nat.not_le] at hdone
  obtain ⟨p, hp, hlost⟩ := hdone
  obtain ⟨last, hlast⟩ := Option.ne_none_iff_exists'.1
    (mt List.getLast?_eq_none_iff.1 (List.ne_nil_of_mem hp))
  obtain ⟨flight, hflight, hcoming⟩ := h.flight
  rw [SourceChannel.afterDiscard_of_lost hp hlost hlast]
  refine ⟨h.confirmed, h.sent, ?_, ?_, ⟨owed flight (last.key + 1), ?_, ?_⟩, fun _ hsynced => by
    cases hsynced⟩
  · have hcount : (owed (ps.take n) (c.lastConfirmed + 1)).length ≤ (ps.take n).length :=
      List.length_filter_le ..
    have hparts := congrArg List.length (List.take_append_drop n ps)
    have hdiscarded := h.discarded
    rw [List.length_append] at hparts
    show saturate (c.confirmation.discarded + (owed (ps.take n) (c.lastConfirmed + 1)).length)
      + (ps.drop n).length ≤ nextKey
    rw [saturate]
    omega
  · have hpaid := h.lost_le n
    show _ ≤ c.confirmation.weight - totalWeight (owed (ps.take n) (c.lastConfirmed + 1))
    show totalWeight (owed (ps.drop n) (c.lastConfirmed + 1)) ≤ _
    omega
  · show c.inFlight.filter (last.key < ·.1) = _
    rw [hflight, List.filter_map]
    rfl
  · rw [SourceChannel.due_of_lost rfl, List.append_nil]
    show (owed flight (last.key + 1)).Sublist (owed (ps.drop n) (c.lastConfirmed + 1))
    rw [← owed_behind hkeyed hlast, owed_comm]
    exact owed_sublist ((List.sublist_append_left _ _).trans hcoming) _

/-- A packet that is added is paid for, and comes next. -/
theorem adds (h : Covered ps nextKey c) {p : Packet} (hp : p.key = nextKey)
    (hlight : totalWeight ps + p.weight < 2 ^ 64) (now : Nat) :
    Covered (ps ++ [p]) (nextKey + 1) (c.afterAdd now p) := by
  have hconfirmed := h.confirmed
  have hsent := h.sent
  have hdiscarded := h.discarded
  obtain ⟨flight, hflight, hcoming⟩ := h.flight
  have hgrown : owed (ps ++ [p]) (c.lastConfirmed + 1) = owed ps (c.lastConfirmed + 1) ++ [p] :=
    owed_append (by omega)
  have hweight : totalWeight (owed (ps ++ [p]) (c.lastConfirmed + 1))
      ≤ saturate (c.confirmation.weight + p.weight) := by
    have hle := totalWeight_owed_le ps (c.lastConfirmed + 1)
    have hpaid := h.weight
    rw [hgrown, totalWeight_append, totalWeight_cons, totalWeight_nil, saturate]
    omega
  have hsame := SourceChannel.afterAdd_keeps now p c
  refine ⟨?_, ?_, ?_, ?_, ⟨flight, ?_, ?_⟩, fun hactive hsynced => ?_⟩
  · rw [hsame.lastConfirmed, hsame.lastSent]
    exact hconfirmed
  · rw [hsame.lastSent]
    exact Nat.lt_succ_of_lt hsent
  · rw [hsame.confirmation, List.length_append, List.length_singleton]
    show c.confirmation.discarded + _ ≤ _
    omega
  · rw [hsame.lastConfirmed, hsame.confirmation]
    exact hweight
  · rw [hsame.inFlight]
    exact hflight
  · rw [hsame.lastConfirmed, hgrown]
    refine ((SourceChannel.due_afterAdd now p).append_left flight).trans ?_
    rw [← List.append_assoc]
    exact hcoming.append (List.Sublist.refl _)
  · rw [hsame.state] at hactive
    rw [hsame.resyncRequired] at hsynced
    exact (h.poised hactive hsynced).afterAdd now (by rw [hp]; exact hsent)

/-- A handshake counts the weight again from where delivery starts. -/
theorem welcomes (hkeyed : KeyedFrom first ps) {start : Nat} (hpos : 1 ≤ start)
    (hstart : start ≤ nextKey) (request : HandshakeRequest)
    (hdiscarded : c.confirmation.discarded + ps.length ≤ nextKey) (hlength : ps.length ≤ nextKey) :
    Covered ps nextKey (Backlog.welcomed request start
      (totalWeight (ps.dropWhile (·.key < start))) c) := by
  have hnext : start - 1 + 1 = start := Nat.sub_add_cancel hpos
  refine ⟨Nat.le_refl _, ?_, ?_, ?_, ⟨[], rfl, ?_⟩, fun _ _ => ⟨?_, rfl⟩⟩
  · show start - 1 < nextKey
    omega
  · show saturate (0 + if request.first then 0 else c.confirmation.discarded) + ps.length ≤ nextKey
    rw [saturate]
    split <;> omega
  · show totalWeight (owed ps (start - 1 + 1)) ≤ totalWeight (ps.dropWhile (·.key < start)) - 0
    exact Nat.le_of_eq (by rw [hnext, dropWhile_eq_owed hkeyed, Nat.sub_zero])
  · show (owed ps start).Sublist (owed ps (start - 1 + 1))
    exact hnext.symm ▸ List.Sublist.refl _
  · show start - 1 < start
    omega

/-- A batch from the front of what comes next goes on its way. -/
theorem sends (h : Covered ps nextKey c) (hkeyed : KeyedFrom first ps)
    (hend : first + ps.length = nextKey) {batch rest : List Packet} {cursor : Cursor}
    {accumulator : Accumulator} (hbatch : (batch ++ rest).Sublist (c.due ps))
    (hrest : (SourceChannel.recordSent batch { c with cursor, accumulator }).due ps = rest)
    (hpoised : (SourceChannel.recordSent batch { c with cursor, accumulator }).Poised) :
    Covered ps nextKey (SourceChannel.recordSent batch { c with cursor, accumulator }) := by
  obtain ⟨flight, hflight, hcoming⟩ := h.flight
  refine ⟨Nat.le_trans h.confirmed (le_foldl_max_key batch _), ?_, h.discarded, h.weight,
    ⟨flight ++ batch, ?_, ?_⟩, fun _ _ => hpoised⟩
  · refine foldl_max_key_lt.2 ⟨h.sent, fun p hp => ?_⟩
    have hdue := hbatch.subset (List.mem_append_left _ hp)
    have hmem := (owed_mem (hcoming.subset (List.mem_append_right _ hdue))).1
    rw [← hend]
    exact (hkeyed.bounds hmem).2
  · show c.inFlight ++ batch.map _ = _
    rw [hflight, List.map_append]
  · rw [hrest, List.append_assoc]
    exact (hbatch.append_left flight).trans hcoming

/-- Where a channel stands that read a batch from the log, whatever its size. -/
theorem reads {b : Backlog} (h : Covered ps b.nextKey c) (hkeyed : KeyedFrom first ps)
    (hend : first + ps.length = b.nextKey) (hactive : c.state = .active)
    (hsynced : c.resyncRequired = false) {key : Nat} (hcursor : c.cursor = .catchingUp key) :
    Covered ps b.nextKey (b.caughtUp (b.batchFrom ps key) c) := by
  obtain ⟨hsent, hempty⟩ : c.lastSent < key ∧ c.accumulator.packets = [] := by
    have hpoised := h.poised hactive hsynced
    rwa [SourceChannel.Poised, hcursor] at hpoised
  have hcut : b.batchFrom ps key = (owed ps key).take b.settings.maxBatchSize := by
    rw [Backlog.batchFrom, dropWhile_eq_owed hkeyed]
  rw [hcut]
  have hbatch := (keyed_owed hkeyed key).take b.settings.maxBatchSize
  show Covered ps b.nextKey (SourceChannel.recordSent _ { c with
    cursor := Backlog.cursorAfter b.log.lastKey ((owed ps key).take b.settings.maxBatchSize)
    accumulator := c.accumulator })
  rcases Backlog.cursorAfter_cases b.log.lastKey ((owed ps key).take b.settings.maxBatchSize) with
    hlive | ⟨last, hlast, hmore⟩
  · rw [hlive]
    refine h.sends hkeyed hend ?_ (SourceChannel.due_live hactive hsynced rfl) fun p hp => ?_
    · show (_ ++ c.accumulator.packets).Sublist _
      rw [SourceChannel.due_catchingUp hactive hsynced hcursor, hempty, List.append_nil]
      exact List.take_sublist _ _
    · change p ∈ c.accumulator.packets at hp
      rw [hempty] at hp
      cases hp
  · have hmem := List.mem_of_getLast? hlast
    have hbehind : key ≤ last.key := (owed_mem (List.mem_of_mem_take hmem)).2
    rw [hmore]
    refine h.sends hkeyed hend ?_ (SourceChannel.due_catchingUp hactive hsynced rfl)
      ⟨foldl_max_key_lt.2 ⟨?_, fun p hp => ?_⟩, hempty⟩
    · have hparts :
          (owed ps key).take b.settings.maxBatchSize ++ owed ps (last.key + 1) = c.due ps := by
        rw [SourceChannel.due_catchingUp hactive hsynced hcursor,
          ← owed_owed ps (Nat.le_succ_of_le hbehind), owed_behind (keyed_owed hkeyed key) hlast,
          List.take_append_drop]
      exact hparts ▸ List.Sublist.refl _
    · show c.lastSent < last.key + 1
      omega
    · have hend' := hbatch.getLast? (List.ne_nil_of_mem hmem)
      have hbound := (hbatch.bounds hp).2
      rw [hlast, Option.map_some, Option.some.injEq] at hend'
      omega

/-- Where a channel stands that got a batch from its accumulator. -/
theorem cuts (h : Covered ps nextKey c) (hkeyed : KeyedFrom first ps)
    (hend : first + ps.length = nextKey) (hactive : c.state = .active)
    (hsynced : c.resyncRequired = false) (hlive : c.cursor = .live) {now : Nat} {force : Bool}
    {batch : List Packet} {accumulator : Accumulator}
    (hpoll : c.accumulator.poll now force = some (batch, accumulator)) :
    Covered ps nextKey ({ c with accumulator }.recordSent batch) := by
  obtain ⟨-, hbatch, hrest, -⟩ := Accumulator.poll_eq_some hpoll
  have hparts : batch ++ accumulator.packets = c.accumulator.packets := by
    rw [hbatch, hrest, List.take_append_drop]
  have hpoised := h.poised hactive hsynced
  rw [SourceChannel.Poised, hlive] at hpoised
  have hordered : (batch ++ accumulator.packets).Pairwise (·.key < ·.key) := by
    obtain ⟨flight, -, hcoming⟩ := h.flight
    have hall := (hkeyed.pairwise.filter _).sublist hcoming
    rw [SourceChannel.due_live hactive hsynced hlive, ← hparts] at hall
    exact (List.pairwise_append.1 hall).2.1
  show Covered ps nextKey (SourceChannel.recordSent batch { c with cursor := c.cursor, accumulator })
  rw [hlive]
  refine h.sends hkeyed hend ?_ (SourceChannel.due_live hactive hsynced rfl)
    fun p hp => foldl_max_key_lt.2 ⟨?_, fun q hq => ?_⟩
  · rw [SourceChannel.due_live hactive hsynced hlive]
    exact hparts ▸ List.Sublist.refl _
  · exact hpoised p (hparts ▸ List.mem_append_right _ hp)
  · exact (List.pairwise_append.1 hordered).2.2 q hq p hp

end Covered

namespace Backlog

/-- Every channel pays for what it still has to confirm, over a log that holds `ps`. Keys start at 1 or
later, as a backlog numbers its packets: a confirmed key of 0 says that nothing was confirmed. -/
structure Solvent (b : Backlog) (ps : List Packet) : Prop where
  next : b.nextKey = b.log.nextKey
  numbered : ps.length < b.nextKey
  channels : ∀ target c, b.channel? target = some c → Covered ps b.nextKey c

namespace Solvent

variable {b b' : Backlog} {ps ps' : List Packet} {op : Operation}

/-- A packet comes into the log only if its channels can pay for it. -/
theorem fares (h : b.Solvent ps) (hholds : b.log.Holds ps) {target : String} {next : Nat}
    {c' : SourceChannel}
    (hlight : ∀ p, Turn.appended? ⟨b, op⟩ = some p → totalWeight ps' < 2 ^ 64)
    (hfares : b.Fares ps op target ps' next c') : Covered ps' next c' := by
  have hkeyed := hholds.keyed
  have hlength := hholds.length_le
  rw [← h.next] at hkeyed hlength
  have hend := Nat.sub_add_cancel hlength
  cases hfares with
  | spared hfound _ hconfirmed => exact (h.channels _ _ hfound).drops hconfirmed
  | touched hfound _ hshifts hsettles =>
    exact (h.channels _ _ hfound).settles hkeyed hshifts hsettles
  | welcomed hagreed hopen hfound =>
    obtain ⟨hearliest, hnext⟩ := negotiate_bounds hagreed
    have hkept := hholds.earliest hopen
    rw [PacketLog.earliest, ← h.next] at hkept
    rw [show b.retained.earliest = _ from hkept] at hearliest hnext
    have hnumbered := h.numbered
    refine Covered.welcomes hkeyed (by omega) (hnext (Nat.sub_le ..)) _ ?_ hlength
    cases hold : b.channel? target with
    | none =>
      rw [hfound, hold]
      show 0 + ps.length ≤ b.nextKey
      omega
    | some c =>
      rw [hfound, hold]
      exact (h.channels _ _ hold).discarded
  | handed hfound _ hactive hsynced hhands =>
    have hcovered := h.channels _ _ hfound
    cases hhands with
    | read hcursor => exact hcovered.reads hkeyed hend hactive hsynced hcursor
    | cut hlive hpoll => exact hcovered.cuts hkeyed hend hactive hsynced hlive hpoll
  | discarded hfound => exact (h.channels _ _ hfound).discards hkeyed _
  | added hfound _ hp happended =>
    have hlight := hlight _ happended
    rw [totalWeight_append, totalWeight_cons, totalWeight_nil] at hlight
    exact ((h.channels _ _ hfound).discards hkeyed _).adds hp hlight b.now

/-- No log of this backlog gets too heavy for the weight of a channel to be told. -/
theorem after (h : b.Solvent ps) (hholds : b.log.Holds ps) (hkey : b.nextKey < 2 ^ 64)
    (hmax : b.settings.maxWeight < 2 ^ 64) (op : Operation) :
    ∃ ps', (op.after b).log.Holds ps' ∧ (op.after b).Solvent ps' := by
  have hbecomes := becomes_after hholds hkey op
  obtain ⟨ps', hmoves⟩ := hbecomes.moves hholds
  have hnumbered := h.numbered
  have hforward := hmoves.forward
  refine ⟨ps', hmoves.holds, hmoves.next h.next, by omega, fun target c' hc' => ?_⟩
  refine h.fares hholds (fun p hp => ?_) (hmoves.channels target c' hc')
  obtain ⟨hopen, hwithin⟩ := appended_within hholds hkey hp
  have hweight : (op.after b).log.weight = totalWeight ps' :=
    congrArg LogView.weight (hmoves.holds.view_open hopen)
  omega

end Solvent

/-- A backlog over an open log in which nothing is missing that a channel may still ask for. -/
structure Sound (b : Backlog) : Prop where
  isOpen : b.log.isClosed = false
  keyLeft : b.nextKey < 2 ^ 64
  light : b.settings.maxWeight < 2 ^ 64
  holds : b.log.Holds b.log.packets
  solvent : b.Solvent b.log.packets
  guards : b.Guards b.log.packets

namespace Sound

variable {b : Backlog}

theorem keyed (h : b.Sound) : KeyedFrom (b.nextKey - b.log.packets.length) b.log.packets := by
  rw [h.solvent.next]
  exact h.holds.keyed

theorem earliest (h : b.Sound) : b.log.earliest = b.nextKey - b.log.packets.length := by
  rw [h.solvent.next]
  exact h.holds.earliest h.isOpen

/-- What a channel reads next is in the log, if it does not have to start over. -/
theorem earliest_le (h : b.Sound) {target : String} {c : SourceChannel}
    (hc : b.channel? target = some c) (hactive : c.state = .active) (hsynced : c.resyncRequired = false)
    {key : Nat} (hcursor : c.cursor = .catchingUp key) : b.log.earliest ≤ key := by
  have hcovered := h.solvent.channels target c hc
  have hpoised := hcovered.poised hactive hsynced
  rw [SourceChannel.Poised, hcursor] at hpoised
  have hconfirmed := hcovered.confirmed
  have hguarded := h.guards.covers target c hc (.inl hsynced)
  rw [h.earliest]
  omega

theorem after (h : b.Sound) {op : Operation} (hopen : (op.after b).log.isClosed = false)
    (hkey : (op.after b).nextKey < 2 ^ 64) : (op.after b).Sound := by
  have hbecomes := becomes_after h.holds h.keyLeft op
  obtain ⟨ps, hholds, hsolvent⟩ := h.solvent.after h.holds h.keyLeft h.light op
  obtain ⟨qs, hholds', hguards⟩ := h.guards.after h.holds hbecomes
  obtain rfl := hholds.packets hopen
  rw [← hholds'.packets hopen] at hguards
  exact ⟨hopen, hkey, by rw [hbecomes.settings]; exact h.light, hholds, hsolvent, hguards⟩

end Sound

theorem sound_ofLog {log : PacketLog} {kept : List Packet} (hholds : log.Holds kept)
    (hopen : log.isClosed = false) (hnumbered : ∀ p ∈ log.packets, 1 ≤ p.key)
    (membership : Membership) (settings : BacklogSettings) (hmax : settings.maxWeight < 2 ^ 64)
    (hkey : log.nextKey < 2 ^ 64) : (Backlog.ofLog membership settings log).Sound := by
  obtain rfl := hholds.packets hopen
  have hbalanced := balanced_start hholds hnumbered membership settings
  exact ⟨hopen, hkey, hmax, hholds, ⟨rfl, hbalanced.numbered, fun _ _ hc => by cases hc⟩,
    rfl, fun _ _ hc => by cases hc⟩

end Backlog

namespace Run

/-- As long as the log is open a run leads from one sound backlog to the next, so that what each
operation preserves between two of them holds in the end. -/
theorem sound_steps {P : Run → Prop}
    (hstep : ∀ r op, r.backlog.Sound → (r.step op).backlog.Sound → P r → P (r.step op))
    (ops : List Operation) {r : Run} (hsound : r.backlog.Sound) (hr : P r)
    (hkeys : (r.steps ops).backlog.nextKey < 2 ^ 64)
    (hopen : (r.steps ops).backlog.log.isClosed = false) :
    (r.steps ops).backlog.Sound ∧ P (r.steps ops) := by
  induction ops generalizing r with
  | nil => exact ⟨hsound, hr⟩
  | cons op ops ih =>
    obtain ⟨ps, hholds⟩ := (Backlog.becomes_after hsound.holds hsound.keyLeft op).holds hsound.holds
    have hafter : (r.step op).backlog.Sound :=
      hsound.after (Backlog.wasOpen_steps ops (r.step op) hholds hkeys hopen)
        (Nat.lt_of_le_of_lt ((r.step op).nextKey_le_steps ops) hkeys)
    exact ih hafter (hstep r op hsound hafter hr) hkeys hopen

/-- The same for runs from the start, over a log whose keys start at 1 or later (see `Solvent`). -/
theorem sound_run {P : Run → Prop} {log : PacketLog} (hlog : log.Reachable)
    (hnumbered : ∀ p ∈ log.packets, 1 ≤ p.key) (membership : Membership) (settings : BacklogSettings)
    (hmax : settings.maxWeight < 2 ^ 64) (hstart : P (.start (.ofLog membership settings log)))
    (hstep : ∀ r op, r.backlog.Sound → (r.step op).backlog.Sound → P r → P (r.step op))
    (ops : List Operation) :
    let r := (Backlog.ofLog membership settings log).run ops
    r.backlog.nextKey < 2 ^ 64 → r.backlog.log.isClosed = false → r.backlog.Sound ∧ P r := by
  intro r hkeys hopen
  obtain ⟨kept, hkept, -⟩ := hlog.holds
  have hwasOpen := Backlog.wasOpen_steps ops (Run.start (.ofLog membership settings log)) hkept hkeys
    hopen
  have hkey : log.nextKey < 2 ^ 64 :=
    Nat.lt_of_le_of_lt ((Run.start (.ofLog membership settings log)).nextKey_le_steps ops) hkeys
  exact sound_steps hstep ops
    (Backlog.sound_ofLog hkept hwasOpen hnumbered membership settings hmax hkey) hstart hkeys hopen

/-- What a backlog was set up with it keeps. -/
theorem keeps_settings (settings : BacklogSettings) (r : Run) (op : Operation) (h : r.backlog.Sound)
    (_ : (r.step op).backlog.Sound) (hr : r.backlog.settings = settings) :
    (r.step op).backlog.settings = settings :=
  (Backlog.becomes_after h.holds h.keyLeft op).settings.trans hr

end Run

end GroupReplication
