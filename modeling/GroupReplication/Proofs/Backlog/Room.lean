/-
How room is made for a packet. The weight that is missing is turned into a number of packets, and
these are the fewest from the head that free it. So a log never holds more than it may right after a
packet came in.
-/
import GroupReplication.Proofs.Backlog.Refusal

namespace GroupReplication

open GroupReplication.Action Packet Log

/-- The count stops as soon as enough is free. -/
theorem Backlog.lt_countToFree_iff {needed : Nat} {ps : List Packet} (hpos : 0 < needed)
    (hle : needed ≤ totalWeight ps) (m : Nat) :
    m < countToFree needed ps ↔ totalWeight (ps.take m) < needed := by
  induction ps generalizing needed m with
  | nil => exact absurd hle (Nat.not_le.2 hpos)
  | cons p ps ih =>
    rw [totalWeight_cons] at hle
    cases m with
    | zero => simp [hpos, countToFree_pos]
    | succ m =>
      rw [countToFree, List.take_succ_cons, totalWeight_cons]
      by_cases henough : needed ≤ p.weight
      · rw [if_pos henough]
        omega
      · rw [if_neg henough]
        have hrest := ih (show 0 < needed - p.weight by omega) (by omega) m
        omega

/-- Nothing keeps the log from taking the packet in: there is no limit to what it holds, and a packet
for a directory can be written. -/
def PacketLog.TakesIn (p : Packet) : PacketLog → Prop
  | .memory l => l.capacity = none
  | .file l => l.options.maxBytes = none ∧ (Record.encode p).isOk = true

instance (p : Packet) (l : PacketLog) : Decidable (l.TakesIn p) :=
  match l with
  | .memory l => inferInstanceAs (Decidable (l.capacity = none))
  | .file l => inferInstanceAs (Decidable (l.options.maxBytes = none ∧ (Record.encode p).isOk = true))

namespace PacketLog

variable {l l' : PacketLog} {ps : List Packet} {p : Packet}

/-- What a log takes in does not depend on what it holds. -/
theorem TakesIn.removeFirst (h : l.TakesIn p) {n : Nat} {r : Except Error (List Packet)}
    (hremove : (PacketLog.removeFirst n none).perform l = (r, l')) : l'.TakesIn p := by
  rw [PacketLog.removeFirst, perform_either] at hremove
  cases l with
  | memory m =>
    obtain ⟨-, rfl⟩ := Prod.mk.inj hremove
    exact (MemoryLog.keeps_removeFirst n none m ⟨rfl, rfl⟩).2.trans h
  | file m =>
    obtain ⟨-, rfl⟩ := Prod.mk.inj hremove
    exact ⟨(congrArg FileOptions.maxBytes (FileLog.keeps_removeFirst n none m ⟨rfl, rfl⟩).2).trans h.1,
      h.2⟩

end PacketLog

namespace Backlog

variable {b : Backlog} {ps : List Packet} {weight : Nat}

/-- Room is made by the fewest packets from the head that leave enough of it. -/
theorem makeRoom_least (h : b.log.Holds ps) (hopen : b.log.isClosed = false)
    (hpolicy : b.settings.fullPolicy = .discardOldest) (hfits : weight ≤ b.settings.maxWeight) :
    ∃ n log, b.log.TrimsTo (ps.drop n) log ∧
      (makeRoom weight).perform b = (.ok (), b.discarded (ps.take n) log) ∧
      (∀ p, b.log.TakesIn p → log.TakesIn p) ∧
      ∀ m, m < n ↔ b.settings.maxWeight < totalWeight (ps.drop m) + weight := by
  have hweight : b.log.weight = totalWeight ps := congrArg LogView.weight (h.view_open hopen)
  have hsplit : ∀ m, totalWeight (ps.take m) + totalWeight (ps.drop m) = totalWeight ps := fun m => by
    rw [← totalWeight_append, List.take_append_drop]
  by_cases hfull : b.settings.maxWeight < b.log.weight + weight
  · obtain ⟨log, hto, hremove, hmade⟩ := makeRoom_frees ⟨hopen, hpolicy, hfull, hfits⟩ h
    refine ⟨_, log, hto, hmade, fun p htakes => htakes.removeFirst hremove, fun m => ?_⟩
    rw [lt_countToFree_iff (by omega) (by omega)]
    have hm := hsplit m
    omega
  · refine ⟨0, b.log, .refl h, ?_, fun _ htakes => htakes, fun m => ?_⟩
    · rw [List.take_zero, discarded_nil]
      exact makeRoom_idle (Nat.le_of_not_lt hfull)
    · have hm := hsplit m
      omega

/-- Once room was made the packet fits. -/
theorem makeRoom_ok (h : b.log.Holds ps) (hopen : b.log.isClosed = false)
    (hok : ((makeRoom weight).perform b).1 = .ok ()) :
    ∃ n log, b.log.TrimsTo (ps.drop n) log ∧
      (makeRoom weight).perform b = (.ok (), b.discarded (ps.take n) log) ∧
      totalWeight (ps.drop n) + weight ≤ b.settings.maxWeight := by
  by_cases hroom : b.MakesRoom weight
  · obtain ⟨n, log, hto, hmade, -, hleast⟩ := makeRoom_least h hopen hroom.discards hroom.fits
    exact ⟨n, log, hto, hmade, Nat.not_lt.1 (mt (hleast n).2 (Nat.lt_irrefl n))⟩
  · have hfits : b.log.weight + weight ≤ b.settings.maxWeight := Nat.le_of_not_lt fun hfull => by
      obtain ⟨e, he⟩ := makeRoom_refuses hfull hroom
      rw [he] at hok
      cases hok
    have hweight : b.log.weight = totalWeight ps := congrArg LogView.weight (h.view_open hopen)
    refine ⟨0, b.log, .refl h, ?_, by rwa [List.drop_zero, ← hweight]⟩
    rw [makeRoom_idle hfits, List.take_zero, discarded_nil]

/-- A log that a packet just came into holds no more than it may. -/
theorem addPayload_within (h : b.log.Holds ps) (hkey : b.nextKey < 2 ^ 64) {payload : Payload}
    {transient fromGateway : Bool} {key : Nat}
    (hok : ((addPayload payload transient fromGateway).perform b).1 = .ok (some key)) :
    ((addPayload payload transient fromGateway).perform b).2.log.isClosed = false ∧
      ((addPayload payload transient fromGateway).perform b).2.log.weight ≤ b.settings.maxWeight := by
  have hall : ∀ p ∈ [b.numbered payload transient fromGateway], p.Fits := by
    simpa using fits_numbered payload transient fromGateway hkey
  have hne : b.channels ≠ [] := fun hempty => by
    rw [addPayload_unregistered hempty] at hok
    cases hok
  cases hopen : b.log.isClosed with
  | true =>
    obtain ⟨r, n, log, hmade, hto, -⟩ := makeRoom_spec h payload.defaultWeight
    have hrefused := PacketLog.append_closed (hto.isClosed.trans hopen)
      [b.numbered payload transient fromGateway]
    cases r with
    | error e =>
      rw [addPayload_no_room hne hmade] at hok
      cases hok
    | ok _ =>
      rw [addPayload_refused hne hmade hrefused] at hok
      cases hok
  | false =>
    cases hroom : ((makeRoom payload.defaultWeight).perform b).1 with
    | error e =>
      rw [addPayload_no_room hne (Prod.ext hroom rfl)] at hok
      cases hok
    | ok _ =>
      obtain ⟨n, log, hto, hmade, hwithin⟩ := makeRoom_ok h hopen hroom
      rcases hto.holds.append hall with ⟨e, hrefused⟩ | ⟨-, -, log', hlogged, hholds, -, hopen'⟩
      · rw [addPayload_refused hne hmade hrefused] at hok
        cases hok
      · rw [addPayload_logged hne hmade hlogged]
        refine ⟨hopen', ?_⟩
        have hweight : log'.weight
            = totalWeight (ps.drop n ++ [b.numbered payload transient fromGateway]) :=
          congrArg LogView.weight (hholds.view_open hopen')
        show log'.weight ≤ b.settings.maxWeight
        rw [hweight, totalWeight_append, totalWeight_cons, totalWeight_nil]
        exact hwithin

theorem appended_within (h : b.log.Holds ps) (hkey : b.nextKey < 2 ^ 64) {op : Operation} {p : Packet}
    (happended : Turn.appended? ⟨b, op⟩ = some p) :
    (op.after b).log.isClosed = false ∧ (op.after b).log.weight ≤ b.settings.maxWeight := by
  cases op with
  | add payload transient fromGateway =>
    cases hok : ((addPayload payload transient fromGateway).perform b).1 with
    | error e => simp [Turn.appended?, Turn.added?, hok, Except.toOption] at happended
    | ok key? =>
      cases key? with
      | none => simp [Turn.appended?, Turn.added?, hok, Except.toOption] at happended
      | some key => exact addPayload_within h hkey hok
  | _ => cases happended

end Backlog

end GroupReplication
