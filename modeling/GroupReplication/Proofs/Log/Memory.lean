/-
What the operations of a log in memory do to the packets that it holds.
-/
import GroupReplication.Log.Memory
import GroupReplication.Proofs.Action
import GroupReplication.Proofs.Log.Keys

namespace GroupReplication.MemoryLog

open GroupReplication.Action

/-- The log holds `ps`, and shows them until it is closed. They are no more than it has room for. -/
structure Holds (l : MemoryLog) (ps : List Packet) : Prop where
  packets : l.packets = if l.closed then [] else ps
  weight : l.weight = Packet.totalWeight l.packets
  announced : l.announced = ⟨l.packets.length, l.weight⟩
  endsIn : Log.EndsIn l.lastAppended ps
  undamaged : l.damage = none
  within : ∀ most, l.capacity = some most → l.packets.length ≤ most

theorem holds_empty (name : String) (capacity : Option Nat) : (empty name capacity).Holds [] where
  packets := rfl
  weight := rfl
  announced := rfl
  endsIn := Log.EndsIn.nil none
  undamaged := rfl
  within _ _ := Nat.zero_le _

variable {l : MemoryLog} {ps : List Packet}

theorem Holds.guard_open (h : l.Holds ps) (hopen : l.closed = false) : l.guard = .ok () := by
  simp [guard, hopen, h.undamaged]

theorem guard_closed (hclosed : l.closed = true) :
    l.guard = .error (.storage (.closed l.name)) := by
  simp [guard, hclosed]

theorem Holds.packets_open (h : l.Holds ps) (hopen : l.closed = false) : l.packets = ps := by
  rw [h.packets, hopen]
  rfl

theorem checkCapacity_eq_ok_iff {added : Nat} : l.checkCapacity added = .ok () ↔
    ∀ most, l.capacity = some most → l.packets.length + added ≤ most := by
  rw [checkCapacity]
  cases l.capacity with
  | none => simp
  | some most =>
    by_cases hfull : most < l.packets.length + added
    · simp [hfull]
    · simpa [hfull] using Nat.le_of_not_lt hfull

/-- The log after `added` came in. -/
def extended (l : MemoryLog) (added : List Packet) : MemoryLog :=
  ({ l with
    packets := l.packets ++ added
    weight := l.weight + Packet.totalWeight added
    lastAppended := (added.getLast?.map (·.key)).or l.lastAppended } : MemoryLog).announce

theorem Holds.extended (h : l.Holds ps) (hopen : l.closed = false) {added : List Packet}
    (hadded : Log.checkAppend l.lastAppended (added.map (·.key)) = .ok ())
    (hroom : l.checkCapacity added.length = .ok ()) :
    (l.extended added).Holds (ps ++ added) where
  packets := by
    show l.packets ++ added = if l.closed then [] else ps ++ added
    rw [hopen, h.packets_open hopen]
    rfl
  weight := by
    show l.weight + _ = Packet.totalWeight (l.packets ++ added)
    rw [h.weight, Packet.totalWeight_append]
  announced := rfl
  endsIn := h.endsIn.append hadded
  undamaged := h.undamaged
  within most hmost := by
    show (l.packets ++ added).length ≤ most
    rw [List.length_append]
    exact checkCapacity_eq_ok_iff.1 hroom most hmost

theorem Holds.append_ok (h : l.Holds ps) (hopen : l.closed = false) {added : List Packet}
    (hadded : Log.checkAppend l.lastAppended (added.map (·.key)) = .ok ())
    (hroom : l.checkCapacity added.length = .ok ()) :
    (append added).perform l = (.ok (), l.extended added) := by
  rw [MemoryLog.append, perform_get_bind, h.guard_open hopen, perform_decided_ok_bind, hadded,
    perform_decided_ok_bind, hroom, perform_decided_ok_bind]
  rfl

theorem Holds.append (h : l.Holds ps) (hopen : l.closed = false) (added : List Packet) :
    (∃ e, (append added).perform l = (.error e, l)) ∨
      (append added).perform l = (.ok (), l.extended added) ∧
        Log.checkAppend l.lastAppended (added.map (·.key)) = .ok () ∧
        (l.extended added).Holds (ps ++ added) := by
  cases hadded : Log.checkAppend l.lastAppended (added.map (·.key)) with
  | error e =>
    refine .inl ⟨e, ?_⟩
    rw [MemoryLog.append, perform_get_bind, h.guard_open hopen, perform_decided_ok_bind, hadded,
      perform_decided_error_bind]
  | ok _ =>
    cases hroom : l.checkCapacity added.length with
    | error e =>
      refine .inl ⟨e, ?_⟩
      rw [MemoryLog.append, perform_get_bind, h.guard_open hopen, perform_decided_ok_bind, hadded,
        perform_decided_ok_bind, hroom, perform_decided_error_bind]
    | ok _ => exact .inr ⟨h.append_ok hopen hadded hroom, rfl, h.extended hopen hadded hroom⟩

/-- The log without its first `count` packets. -/
def trimmed (l : MemoryLog) (count : Nat) : MemoryLog :=
  ({ l with
    packets := l.packets.drop count
    weight := l.weight - Packet.totalWeight (l.packets.take count) } : MemoryLog).announce

theorem Holds.trimmed (h : l.Holds ps) (count : Nat) (hopen : l.closed = false) :
    (l.trimmed count).Holds (ps.drop count) where
  packets := by
    show l.packets.drop count = if l.closed then [] else ps.drop count
    rw [hopen, h.packets_open hopen]
    rfl
  weight := by
    show l.weight - Packet.totalWeight (l.packets.take count)
      = Packet.totalWeight (l.packets.drop count)
    have hsplit := Packet.totalWeight_append (l.packets.take count) (l.packets.drop count)
    rw [List.take_append_drop] at hsplit
    rw [h.weight]
    omega
  announced := rfl
  endsIn := h.endsIn.drop count
  undamaged := h.undamaged
  within most hmost := by
    show (l.packets.drop count).length ≤ most
    rw [List.length_drop]
    exact Nat.le_trans (Nat.sub_le _ _) (h.within most hmost)

theorem perform_takeHead (limit : Option Nat) (removable : Packet → Bool) (l : MemoryLog) :
    (takeHead limit removable).perform l =
      (.ok ((limit.elim l.packets l.packets.take).takeWhile removable),
        l.trimmed ((limit.elim l.packets l.packets.take).takeWhile removable).length) := by
  have htake : l.packets.take
      ((limit.elim l.packets l.packets.take).takeWhile removable).length
      = (limit.elim l.packets l.packets.take).takeWhile removable := by
    refine (List.prefix_iff_eq_take.1 ?_).symm
    refine (List.takeWhile_prefix _).trans ?_
    cases limit with
    | none => exact List.prefix_refl _
    | some n => exact List.take_prefix _ _
  rw [takeHead, perform_get_bind]
  cases limit with
  | none => rw [perform_set_bind, perform_pure]; simp only [Option.elim, trimmed] at htake ⊢; rw [htake]
  | some n => rw [perform_set_bind, perform_pure]; simp only [Option.elim, trimmed] at htake ⊢; rw [htake]

theorem Holds.removeFirst (h : l.Holds ps) (hopen : l.closed = false) (count : Nat)
    (frontier : Option Nat) :
    (removeFirst count frontier).perform l = (.ok (Log.removable ps count frontier),
      l.trimmed (Log.removable ps count frontier).length) := by
  rw [MemoryLog.removeFirst, perform_get_bind, h.guard_open hopen, perform_decided_ok_bind,
    perform_takeHead]
  simp only [Option.elim, h.packets_open hopen]
  rfl

theorem Holds.deleteOldest (h : l.Holds ps) (hopen : l.closed = false) (last : Nat) :
    (deleteOldest last).perform l = (.ok (ps.takeWhile (·.key ≤ last)).length,
      l.trimmed (ps.takeWhile (·.key ≤ last)).length) := by
  rw [MemoryLog.deleteOldest, perform_get_bind, h.guard_open hopen, perform_decided_ok_bind,
    perform_bind_ok (perform_takeHead _ _ _), perform_pure]
  simp only [Option.elim, h.packets_open hopen]

theorem Holds.compact (h : l.Holds ps) (hopen : l.closed = false) (first last : Nat) :
    (∃ e, Log.checkRange first last l.firstKey = .error e ∧
        (compact first last).perform l = (.error e, l)) ∨
      Log.checkRange first last l.firstKey = .ok () ∧
        (compact first last).perform l
          = (.ok (Log.removalReport ps (ps.takeWhile (·.key ≤ last)).length),
            l.trimmed (ps.takeWhile (·.key ≤ last)).length) := by
  rw [MemoryLog.compact, perform_get_bind, h.guard_open hopen, perform_decided_ok_bind,
    perform_get_bind]
  cases hrange : Log.checkRange first last l.firstKey with
  | error e => exact .inl ⟨e, rfl, by rw [perform_decided_error_bind]⟩
  | ok _ =>
    have htake : ps.take (ps.takeWhile (·.key ≤ last)).length = ps.takeWhile (·.key ≤ last) :=
      (List.prefix_iff_eq_take.1 (List.takeWhile_prefix _)).symm
    have hrest := (h.trimmed (ps.takeWhile (·.key ≤ last)).length hopen).weight
    have hheld := (h.trimmed (ps.takeWhile (·.key ≤ last)).length hopen).packets_open hopen
    refine .inr ⟨rfl, ?_⟩
    rw [perform_decided_ok_bind, perform_bind_ok (perform_takeHead _ _ _), perform_get_bind,
      perform_pure]
    simp only [Option.elim, h.packets_open hopen]
    rw [hrest, hheld, Log.removalReport, htake]

theorem Holds.validate (h : l.Holds ps) (hopen : l.closed = false) :
    MemoryLog.validate.perform l = (.ok (), l) := by
  have hcheck : Log.checkSequence (l.packets.map (·.key)) (l.packets.map (·.weight))
      ⟨l.announced.packets, l.weight⟩ = .ok () := by
    rw [h.announced, h.weight, h.packets_open hopen]
    exact Log.checkSequence_of_keyedFrom h.endsIn.keyed
  rw [MemoryLog.validate, perform_get_bind, h.guard_open hopen, perform_decided_ok_bind, hcheck]
  rfl

/-- A closed log refuses whatever it is asked. -/
theorem perform_guarded {α : Type} (hclosed : l.closed = true) (act : Action MemoryLog α) :
    (Action.decided l.guard >>= fun _ => act).perform l
      = (.error (.storage (.closed l.name)), l) := by
  rw [guard_closed hclosed, perform_decided_error_bind]

theorem Holds.close (h : l.Holds ps) :
    ∃ l', MemoryLog.close.perform l = (.ok (), l') ∧ l'.Holds ps ∧ l'.closed = true ∧
      l'.lastAppended = l.lastAppended :=
  ⟨_, rfl, ⟨rfl, rfl, rfl, h.endsIn, h.undamaged, fun _ _ => Nat.zero_le _⟩, rfl, rfl⟩

theorem Holds.readFrom (h : l.Holds ps) (hopen : l.closed = false) (start : Option Nat) :
    l.readFrom start = .ok (start.elim ps fun key => ps.dropWhile (·.key < key)) := by
  simp only [MemoryLog.readFrom, h.guard_open hopen, h.packets_open hopen]
  cases start <;> rfl

end GroupReplication.MemoryLog
