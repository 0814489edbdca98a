/-
What a log holds, in memory or in a directory, and what its operations do to that.

A log that was put together by its own operations holds packets with consecutive keys that end
with the last key that was ever added (`Reachable.holds`).
-/
import GroupReplication.PacketLog
import GroupReplication.Proofs.Log.Memory
import GroupReplication.Proofs.Log.Reopen

namespace GroupReplication

/-- What a log says of itself without being read. -/
structure LogView where
  size : LogSize
  weight : Nat
  firstKey : Option Nat
  lastKey : Option Nat
  lastAppended : Option Nat
  isClosed : Bool
  deriving Repr, DecidableEq

/-- What a log says that shows these packets. -/
def LogView.of (shown : List Packet) (lastAppended : Option Nat) (isClosed : Bool) : LogView where
  size := ⟨shown.length, Packet.totalWeight shown⟩
  weight := Packet.totalWeight shown
  firstKey := shown.head?.map (·.key)
  lastKey := shown.getLast?.map (·.key)
  lastAppended := lastAppended
  isClosed := isClosed

namespace PacketLog

open GroupReplication.Action Log Packet

def view (l : PacketLog) : LogView where
  size := l.size
  weight := l.weight
  firstKey := l.firstKey
  lastKey := l.lastKey
  lastAppended := l.lastAppended
  isClosed := l.isClosed

/-- The log holds `ps`. It shows them until it is closed; a directory keeps them also then. -/
def Holds : PacketLog → List Packet → Prop
  | .memory l, ps => l.Holds ps
  | .file l, ps => l.Holds ps

variable {l : PacketLog} {ps : List Packet}

namespace Holds

theorem endsIn (h : l.Holds ps) : EndsIn l.lastAppended ps := by
  cases l with
  | memory l => exact MemoryLog.Holds.endsIn h
  | file l => exact FileLog.Holds.endsIn h

theorem keyed (h : l.Holds ps) : KeyedFrom (l.nextKey - ps.length) ps := h.endsIn.keyed

theorem length_le (h : l.Holds ps) : ps.length ≤ l.nextKey := h.endsIn.length_le

/-- An open log shows the packets that it holds, and a closed one shows none. -/
theorem view_eq (h : l.Holds ps) :
    l.view = .of (if l.isClosed then [] else ps) l.lastAppended l.isClosed := by
  cases l with
  | memory l =>
    show (⟨l.announced, l.weight, l.firstKey, l.lastKey, l.lastAppended, l.closed⟩ : LogView) = _
    rw [h.announced, h.weight, MemoryLog.firstKey, MemoryLog.lastKey, MemoryLog.Holds.packets h]
    rfl
  | file l =>
    obtain ⟨_, entries, _, _, hkept, hpic⟩ := h
    have hindex : l.index.map (·.key) = (if l.isClosed then [] else ps).map (·.key) ∧
        l.index.map (·.weight) = (if l.isClosed then [] else ps).map (·.weight) := by
      rw [hpic.index]
      split
      · exact ⟨rfl, rfl⟩
      · exact ⟨hkept.live.keys, hkept.live.weights⟩
    have hlength := congrArg List.length hindex.1
    rw [List.length_map, List.length_map] at hlength
    show (⟨l.announced, l.weight, l.firstKey, l.lastKey, l.lastAppended, l.isClosed⟩ : LogView) = _
    rw [hpic.announced, hpic.weight, FileLog.totalWeight, FileLog.firstKey, FileLog.lastKey,
      ← List.head?_map, ← List.getLast?_map, hindex.1, hindex.2, hlength, List.head?_map,
      List.getLast?_map]
    rfl

theorem view_open (h : l.Holds ps) (hopen : l.isClosed = false) :
    l.view = .of ps l.lastAppended false := by
  rw [h.view_eq, hopen]
  rfl

theorem firstKey (h : l.Holds ps) (hopen : l.isClosed = false) :
    l.firstKey = ps.head?.map (·.key) :=
  congrArg LogView.firstKey (h.view_open hopen)

theorem lastKey (h : l.Holds ps) (hopen : l.isClosed = false) :
    l.lastKey = ps.getLast?.map (·.key) :=
  congrArg LogView.lastKey (h.view_open hopen)

/-- The packets that an open log announces are those that it holds. -/
theorem size (h : l.Holds ps) (hopen : l.isClosed = false) : l.size.packets = ps.length :=
  congrArg (·.size.packets) (h.view_open hopen)

theorem earliest (h : l.Holds ps) (hopen : l.isClosed = false) :
    l.earliest = l.nextKey - ps.length := by
  rw [PacketLog.earliest, h.firstKey hopen]
  by_cases hne : ps = []
  · subst hne
    rfl
  · rw [h.keyed.head? hne]
    rfl

theorem readFrom (h : l.Holds ps) (hopen : l.isClosed = false) (start : Option Nat) :
    l.readFrom start = .ok ⟨start.elim ps fun key => ps.dropWhile (·.key < key), none⟩ := by
  cases l with
  | memory l =>
    rw [PacketLog.readFrom, MemoryLog.Holds.readFrom h hopen]
    rfl
  | file l =>
    rw [PacketLog.readFrom, FileLog.Holds.readFrom h hopen]
    rfl

theorem readAll (h : l.Holds ps) (hopen : l.isClosed = false) :
    l.readFrom none = .ok ⟨ps, none⟩ := h.readFrom hopen none

end Holds

def name : PacketLog → String
  | .memory l => l.name
  | .file l => l.name

theorem readFrom_closed (hclosed : l.isClosed = true) (start : Option Nat) :
    l.readFrom start = .error (.storage (.closed l.name)) := by
  cases l with
  | memory l =>
    simp only [PacketLog.readFrom, MemoryLog.readFrom,
      MemoryLog.guard_closed (show l.closed = true from hclosed)]
    rfl
  | file l =>
    simp only [PacketLog.readFrom, FileLog.readFrom, FileLog.guard_closed hclosed]
    rfl

/-- What a reader of the whole log gets. -/
def packets (l : PacketLog) : List Packet :=
  match l.readFrom none with
  | .ok r => r.packets
  | .error _ => []

theorem Holds.packets (h : l.Holds ps) (hopen : l.isClosed = false) : l.packets = ps := by
  rw [PacketLog.packets, h.readAll hopen]

theorem packets_closed (hclosed : l.isClosed = true) : l.packets = [] := by
  rw [packets, readFrom_closed hclosed]

/-- The log holds `ps` now; keys go on where they were, and it is as open as it was. -/
structure TrimsTo (l : PacketLog) (ps : List Packet) (l' : PacketLog) : Prop where
  holds : l'.Holds ps
  lastAppended : l'.lastAppended = l.lastAppended
  isClosed : l'.isClosed = l.isClosed

theorem TrimsTo.refl (h : l.Holds ps) : l.TrimsTo ps l := ⟨h, rfl, rfl⟩

theorem TrimsTo.nextKey {l' : PacketLog} (h : l.TrimsTo ps l') : l'.nextKey = l.nextKey := by
  rw [PacketLog.nextKey, PacketLog.nextKey, h.lastAppended]

theorem perform_either {α : Type} (onMemory : Action MemoryLog α) (onFile : Action FileLog α) :
    (either onMemory onFile).perform l = match l with
      | .memory l => ((onMemory.perform l).1, .memory (onMemory.perform l).2)
      | .file l => ((onFile.perform l).1, .file (onFile.perform l).2) := by
  cases l <;> rfl

section

variable {α : Type} {onMemory : Action MemoryLog α} {onFile : Action FileLog α} {r : Except Error α}

theorem perform_memory {l l' : MemoryLog} (h : onMemory.perform l = (r, l')) :
    (either onMemory onFile).perform (.memory l) = (r, .memory l') := by
  rw [perform_either]
  simp only [h]

theorem perform_file {l l' : FileLog} (h : onFile.perform l = (r, l')) :
    (either onMemory onFile).perform (.file l) = (r, .file l') := by
  rw [perform_either]
  simp only [h]

end

/-! ## The operations -/

/-- What first asks whether the log can be used is refused by a closed one. -/
theorem refused {α : Type} (hclosed : l.isClosed = true) (onMemory : MemoryLog → Action MemoryLog α)
    (onFile : FileLog → Action FileLog α) :
    (either (get >>= fun l => decided l.guard >>= fun _ => onMemory l)
      (get >>= fun l => decided l.guard >>= fun _ => onFile l)).perform l
        = (.error (.storage (.closed l.name)), l) := by
  cases l with
  | memory l =>
    simp only [perform_either, perform_get_bind]
    rw [MemoryLog.perform_guarded hclosed]
    rfl
  | file l =>
    simp only [perform_either, perform_get_bind]
    rw [FileLog.perform_guarded hclosed]
    rfl

theorem append_closed (hclosed : l.isClosed = true) (added : List Packet) :
    (append added).perform l = (.error (.storage (.closed l.name)), l) := refused hclosed _ _

theorem removeFirst_closed (hclosed : l.isClosed = true) (count : Nat) (frontier : Option Nat) :
    (removeFirst count frontier).perform l = (.error (.storage (.closed l.name)), l) :=
  refused hclosed _ _

theorem deleteOldest_closed (hclosed : l.isClosed = true) (last : Nat) :
    (deleteOldest last).perform l = (.error (.storage (.closed l.name)), l) := refused hclosed _ _

theorem compact_closed (hclosed : l.isClosed = true) (first last : Nat) :
    (compact first last).perform l = (.error (.storage (.closed l.name)), l) := refused hclosed _ _

theorem validate_closed (hclosed : l.isClosed = true) :
    validate.perform l = (.error (.storage (.closed l.name)), l) := refused hclosed _ _

namespace Holds

/-- An append that fails changes nothing, and one that succeeds adds at the end. -/
theorem append (h : l.Holds ps) {added : List Packet} (hfits : ∀ p ∈ added, p.Fits) :
    (∃ e, (PacketLog.append added).perform l = (.error e, l)) ∨
      l.isClosed = false ∧ checkAppend l.lastAppended (added.map (·.key)) = .ok () ∧
        ∃ l', (PacketLog.append added).perform l = (.ok (), l') ∧ l'.Holds (ps ++ added) ∧
          l'.lastAppended = (added.getLast?.map (·.key)).or l.lastAppended ∧
          l'.isClosed = false := by
  cases hopen : l.isClosed with
  | true => exact .inl ⟨_, append_closed hopen added⟩
  | false =>
    cases l with
    | memory l =>
      rcases MemoryLog.Holds.append h hopen added with ⟨e, he⟩ | ⟨hok, hadded, hholds⟩
      · exact .inl ⟨e, perform_memory he⟩
      · exact .inr ⟨rfl, hadded, .memory (l.extended added), perform_memory hok, hholds, rfl, hopen⟩
    | file l =>
      rcases FileLog.Holds.append h hopen hfits with ⟨e, he⟩ | ⟨hadded, l', hok, hrest⟩
      · exact .inl ⟨e, perform_file he⟩
      · exact .inr ⟨rfl, hadded, .file l', perform_file hok, hrest⟩

theorem removeBelow (h : l.Holds ps) (hopen : l.isClosed = false) (count : Nat)
    (frontier : Option Nat) :
    ∃ l', (PacketLog.removeFirst count frontier).perform l = (.ok (removable ps count frontier), l') ∧
      l.TrimsTo (ps.drop (removable ps count frontier).length) l' := by
  cases l with
  | memory l =>
    have hok := MemoryLog.Holds.removeFirst h hopen count frontier
    exact ⟨.memory (l.trimmed (removable ps count frontier).length), perform_memory hok,
      MemoryLog.Holds.trimmed h _ hopen, rfl, rfl⟩
  | file l =>
    obtain ⟨l', hok, hholds, hlast, hstill⟩ := FileLog.Holds.removeFirst h hopen count frontier
    exact ⟨.file l', perform_file hok, hholds, hlast, hstill.trans hopen.symm⟩

theorem removeFirst (h : l.Holds ps) (hopen : l.isClosed = false) (count : Nat) :
    ∃ l', (PacketLog.removeFirst count none).perform l = (.ok (ps.take count), l') ∧
      l.TrimsTo (ps.drop count) l' := by
  have hdrop : ps.drop count = ps.drop (ps.take count).length := by
    rw [List.length_take]
    rcases Nat.le_total count ps.length with hle | hle
    · rw [Nat.min_eq_left hle]
    · rw [Nat.min_eq_right hle, List.drop_length, List.drop_eq_nil_of_le hle]
  have hremove := h.removeBelow hopen count none
  rwa [removable_none, ← hdrop] at hremove

theorem deleteOldest (h : l.Holds ps) (hopen : l.isClosed = false) (last : Nat) :
    ∃ l', (PacketLog.deleteOldest last).perform l =
        (.ok (ps.takeWhile (·.key ≤ last)).length, l') ∧
      l.TrimsTo (ps.drop (ps.takeWhile (·.key ≤ last)).length) l' := by
  cases l with
  | memory l =>
    have hok := MemoryLog.Holds.deleteOldest h hopen last
    exact ⟨.memory (l.trimmed (ps.takeWhile fun p : Packet => p.key ≤ last).length),
      perform_memory hok, MemoryLog.Holds.trimmed h _ hopen, rfl, rfl⟩
  | file l =>
    obtain ⟨l', hok, hholds, hlast, hstill⟩ := FileLog.Holds.deleteOldest h hopen last
    exact ⟨.file l', perform_file hok, hholds, hlast, hstill.trans hopen.symm⟩

theorem compact (h : l.Holds ps) (hopen : l.isClosed = false) (first last : Nat) :
    (∃ e, checkRange first last (ps.head?.map (·.key)) = .error e ∧
        (PacketLog.compact first last).perform l = (.error e, l)) ∨
      checkRange first last (ps.head?.map (·.key)) = .ok () ∧
        ∃ l', (PacketLog.compact first last).perform l
            = (.ok (removalReport ps (ps.takeWhile (·.key ≤ last)).length), l') ∧
          l.TrimsTo (ps.drop (ps.takeWhile (·.key ≤ last)).length) l' := by
  rw [← h.firstKey hopen]
  cases l with
  | memory l =>
    rcases MemoryLog.Holds.compact h hopen first last with ⟨e, hrange, he⟩ | ⟨hrange, hok⟩
    · exact .inl ⟨e, hrange, perform_memory he⟩
    · exact .inr ⟨hrange, .memory (l.trimmed (ps.takeWhile fun p : Packet => p.key ≤ last).length),
        perform_memory hok, MemoryLog.Holds.trimmed h _ hopen, rfl, rfl⟩
  | file l =>
    rcases FileLog.Holds.compact h hopen first last with
      ⟨e, hrange, he⟩ | ⟨hrange, l', hok, hholds, hlast, hstill⟩
    · exact .inl ⟨e, hrange, perform_file he⟩
    · exact .inr ⟨hrange, .file l', perform_file hok, hholds, hlast, hstill.trans hopen.symm⟩

/-- A log that holds packets never fails its own check. -/
theorem validate (h : l.Holds ps) (hopen : l.isClosed = false) :
    PacketLog.validate.perform l = (.ok (), l) := by
  cases l with
  | memory l => exact perform_memory (MemoryLog.Holds.validate h hopen)
  | file l => exact perform_file (FileLog.Holds.validate h hopen)

theorem close (h : l.Holds ps) :
    ∃ l', PacketLog.close.perform l = (.ok (), l') ∧ l'.Holds ps ∧ l'.isClosed = true ∧
      l'.lastAppended = l.lastAppended := by
  cases l with
  | memory l =>
    obtain ⟨l', hok, hrest⟩ := MemoryLog.Holds.close h
    exact ⟨.memory l', perform_memory hok, hrest⟩
  | file l =>
    obtain ⟨l', hok, hrest⟩ := FileLog.Holds.close h
    exact ⟨.file l', perform_file hok, hrest⟩

end Holds

/-! ## Logs that can come about -/

/-- A log that was made empty and then changed by its own operations, or opened in the directory
of such a log. Added packets fit their records, and keys stay below 2 ^ 64. -/
inductive Reachable : PacketLog → Prop where
  | memory (name : String) (capacity : Option Nat) : Reachable (.memory (.empty name capacity))
  | file {d : Directory} {options : FileOptions} {l : FileLog} (noRecords : d.data.getD [] = [])
      (noMark : d.head = none) (opened : (FileLog.openIn d options).1 = .ok l) :
      Reachable (.file l)
  | append {l : PacketLog} (added : List Packet) (before : Reachable l)
      (fits : ∀ p ∈ added, p.Fits) : Reachable ((PacketLog.append added).perform l).2
  | removeFirst {l : PacketLog} (count : Nat) (before : Reachable l) :
      Reachable ((PacketLog.removeFirst count none).perform l).2
  | deleteOldest {l : PacketLog} (last : Nat) (before : Reachable l) :
      Reachable ((PacketLog.deleteOldest last).perform l).2
  | compact {l : PacketLog} (first last : Nat) (before : Reachable l) :
      Reachable ((PacketLog.compact first last).perform l).2
  | validate {l : PacketLog} (before : Reachable l) : Reachable (PacketLog.validate.perform l).2
  | close {l : PacketLog} (before : Reachable l) : Reachable (PacketLog.close.perform l).2
  | reopen {l l' : FileLog} {options : FileOptions} (before : Reachable (.file l))
      (keysLeft : PacketLog.nextKey (.file l) < 2 ^ 64)
      (opened : (FileLog.openIn l.directory options).1 = .ok l') : Reachable (.file l')

theorem Reachable.holds (h : l.Reachable) : ∃ ps, l.Holds ps ∧ ∀ p ∈ ps, p.Fits := by
  induction h with
  | memory name capacity => exact ⟨[], MemoryLog.holds_empty name capacity, by simp⟩
  | file hdata hhead hopened => exact ⟨[], (FileLog.holds_openIn_fresh hdata hhead hopened).1, by simp⟩
  | append added _ hadded ih =>
    obtain ⟨ps, hps, hfits⟩ := ih
    rcases hps.append hadded with ⟨e, he⟩ | ⟨-, -, l', hok, hholds, -⟩
    · exact ⟨ps, by rwa [he], hfits⟩
    · refine ⟨_, by rwa [hok], fun p hp => ?_⟩
      rcases List.mem_append.1 hp with hp | hp
      · exact hfits p hp
      · exact hadded p hp
  | @removeFirst l count _ ih =>
    obtain ⟨ps, hps, hfits⟩ := ih
    cases hopen : l.isClosed with
    | true => exact ⟨ps, by rwa [removeFirst_closed hopen count none], hfits⟩
    | false =>
      obtain ⟨l', hok, hto⟩ := hps.removeFirst hopen count
      exact ⟨_, by rw [hok]; exact hto.holds, fun p hp => hfits p (List.mem_of_mem_drop hp)⟩
  | @deleteOldest l last _ ih =>
    obtain ⟨ps, hps, hfits⟩ := ih
    cases hopen : l.isClosed with
    | true => exact ⟨ps, by rwa [deleteOldest_closed hopen last], hfits⟩
    | false =>
      obtain ⟨l', hok, hto⟩ := hps.deleteOldest hopen last
      exact ⟨_, by rw [hok]; exact hto.holds, fun p hp => hfits p (List.mem_of_mem_drop hp)⟩
  | @compact l first last _ ih =>
    obtain ⟨ps, hps, hfits⟩ := ih
    cases hopen : l.isClosed with
    | true => exact ⟨ps, by rwa [compact_closed hopen first last], hfits⟩
    | false =>
      rcases hps.compact hopen first last with ⟨e, -, he⟩ | ⟨-, l', hok, hto⟩
      · exact ⟨ps, by rwa [he], hfits⟩
      · exact ⟨_, by rw [hok]; exact hto.holds, fun p hp => hfits p (List.mem_of_mem_drop hp)⟩
  | @validate l _ ih =>
    obtain ⟨ps, hps, hfits⟩ := ih
    cases hopen : l.isClosed with
    | true => exact ⟨ps, by rwa [validate_closed hopen], hfits⟩
    | false => exact ⟨ps, by rwa [hps.validate hopen], hfits⟩
  | close _ ih =>
    obtain ⟨ps, hps, hfits⟩ := ih
    obtain ⟨l', hok, hholds, -⟩ := hps.close
    exact ⟨ps, by rwa [hok], hfits⟩
  | @reopen l l' options _ hkeys hopened ih =>
    obtain ⟨ps, hps, hfits⟩ := ih
    obtain ⟨l'', hok, hholds, -⟩ := FileLog.Holds.openIn hps
      (Nat.lt_of_le_of_lt (Nat.sub_le _ _) hkeys) options
    rw [hok] at hopened
    cases hopened
    exact ⟨ps, hholds, hfits⟩

end PacketLog

end GroupReplication
