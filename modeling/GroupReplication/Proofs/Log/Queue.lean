/-
A log in memory is a queue of packets with consecutive keys. The queue is told by its history alone:
all packets that ever came in, and how many of them were taken from the head again. What an open log
shows and answers follows from that (`IsQueue`), whatever was called before, and one call moves
both on alike (`Queues.answer`).

The queue says which packets a call names by their keys, wherever they are; that they are at its head,
where the log looks for them, is due to its consecutive keys. They are also why a reader can search
for its first packet by halves.
-/
import GroupReplication.Proofs.Log.Agreement
import Mathlib.Data.List.Chain

namespace GroupReplication

open GroupReplication.Action Log

namespace Packet

/-- Each packet has the key that comes after the one before it. -/
def Consecutive (ps : List Packet) : Prop := ps.IsChain fun p q => q.key = p.key + 1

instance (ps : List Packet) : Decidable (Consecutive ps) :=
  inferInstanceAs (Decidable (ps.IsChain fun p q => q.key = p.key + 1))

variable {p : Packet} {ps : List Packet}

theorem consecutive_cons : Consecutive (p :: ps) ↔ KeyedFrom (p.key + 1) ps := by
  induction ps generalizing p with
  | nil => simp [Consecutive, KeyedFrom]
  | cons q ps ih =>
    rw [Consecutive, List.isChain_cons_cons, ← Consecutive, ih, KeyedFrom]
    refine and_congr_right fun hq => ?_
    rw [hq]

theorem Consecutive.keyed (h : Consecutive ps) : ∃ key, KeyedFrom key ps := by
  cases ps with
  | nil => exact ⟨0, trivial⟩
  | cons p ps => exact ⟨p.key, rfl, consecutive_cons.1 h⟩

theorem Consecutive.takeWhile_upTo (h : Consecutive ps) (k : Nat) :
    ps.takeWhile (·.key ≤ k) = ps.filter (·.key ≤ k) := by
  obtain ⟨key, hkeyed⟩ := h.keyed
  rw [hkeyed.takeWhile_upTo, hkeyed.filter_upTo]

theorem Consecutive.dropWhile_lt (h : Consecutive ps) (k : Nat) :
    ps.dropWhile (·.key < k) = ps.filter (k ≤ ·.key) := by
  obtain ⟨key, hkeyed⟩ := h.keyed
  rw [hkeyed.dropWhile_lt, hkeyed.filter_le]

/-- The lower keys come first. -/
theorem Consecutive.parted (h : Consecutive ps) (k : Nat) :
    ps = ps.filter (·.key < k) ++ ps.filter (k ≤ ·.key) := by
  obtain ⟨key, hkeyed⟩ := h.keyed
  cases k with
  | zero => simp
  | succ k =>
    simp only [Nat.lt_succ_iff]
    rw [hkeyed.filter_upTo, hkeyed.filter_le, List.take_append_drop]

/-- The last of consecutive keys is the highest. -/
theorem Consecutive.max? (h : Consecutive ps) :
    (ps.map (·.key)).max? = ps.getLast?.map (·.key) := by
  cases ps with
  | nil => rfl
  | cons p ps =>
    obtain ⟨key, hkeyed⟩ := h.keyed
    have hne : p :: ps ≠ [] := List.cons_ne_nil _ _
    rw [hkeyed.getLast? hne, List.max?_eq_some_iff]
    have hlen : 0 < (p :: ps).length := List.length_pos_iff.2 hne
    refine ⟨List.mem_map.2 (hkeyed.exists_mem (by omega) (by omega)), fun k hk => ?_⟩
    obtain ⟨q, hq, rfl⟩ := List.mem_map.1 hk
    have := (hkeyed.bounds hq).2
    omega

end Packet

/-- Packets may be added if all that ever came in stay consecutive. -/
theorem Log.checkAppend_getLast? {ps added : List Packet} (h : Packet.Consecutive ps) :
    checkAppend (ps.getLast?.map (·.key)) (added.map (·.key)) = .ok () ↔
      Packet.Consecutive (ps ++ added) := by
  have hjoin : Packet.Consecutive (ps ++ added) ↔ Packet.Consecutive added ∧
      ∀ k ∈ ps.getLast?.map (·.key), ∀ p ∈ added.head?, p.key = k + 1 := by
    rw [Packet.Consecutive, List.isChain_append]
    simp [Packet.Consecutive, show ps.IsChain _ from h]
  rw [hjoin]
  cases added with
  | nil => simp [checkAppend, Packet.Consecutive]
  | cons p added =>
    cases ps.getLast?.map (·.key) with
    | none => simp [checkAppend, checkAppend_some, Packet.consecutive_cons]
    | some k =>
      rw [checkAppend_some, Packet.KeyedFrom, Packet.consecutive_cons]
      constructor
      · rintro ⟨hp, hadded⟩
        simpa [hp] using hadded
      · rintro ⟨hadded, hp⟩
        simpa [hp k rfl p rfl] using hadded

theorem Log.checkRange_eq_ok_iff {first last : Nat} {head : Option Nat} :
    checkRange first last head = .ok () ↔ first ≤ last ∧ ∀ k ∈ head, first ≤ k := by
  unfold checkRange
  by_cases hempty : last < first
  · simp [hempty]
  · cases head with
    | none => simpa [hempty] using Nat.le_of_not_lt hempty
    | some k =>
      by_cases hbehind : k < first
      · simp [hempty, hbehind]
      · simpa [hempty, hbehind] using ⟨Nat.le_of_not_lt hempty, Nat.le_of_not_lt hbehind⟩

/-- All packets that ever came in, and how many of them were taken from the head again. -/
structure PacketQueue where
  brought : List Packet
  gone : Nat
  capacity : Option Nat
  deriving Repr, DecidableEq

namespace PacketQueue

def empty (capacity : Option Nat) : PacketQueue := ⟨[], 0, capacity⟩

def kept (q : PacketQueue) : List Packet := q.brought.drop q.gone

/-- The highest key that ever came in. -/
def highest (q : PacketQueue) : Option Nat := (q.brought.map (·.key)).max?

/-- The packets that the call takes out. -/
def named (q : PacketQueue) : LogCall → List Packet
  | .removeFirst count frontier => (q.kept.filter fun p => frontier.all (p.key ≤ ·)).take count
  | .deleteOldest last => q.kept.filter (·.key ≤ last)
  | .compact _ last => q.kept.filter (·.key ≤ last)
  | _ => []

/-- The call can be carried out: what it brings goes on where all that ever came in ends, and there
is room for it; what it takes out is a range that leaves nothing in front of it. -/
def Grants (q : PacketQueue) : LogCall → Prop
  | .append added => Packet.Consecutive (q.brought ++ added) ∧
      ∀ most ∈ q.capacity, q.kept.length + added.length ≤ most
  | .compact first last => first ≤ last ∧ ∀ p ∈ q.kept, first ≤ p.key
  | _ => True

instance (q : PacketQueue) : (c : LogCall) → Decidable (q.Grants c)
  | .append added => inferInstanceAs (Decidable (Packet.Consecutive (q.brought ++ added) ∧
      ∀ most ∈ q.capacity, q.kept.length + added.length ≤ most))
  | .compact first last => inferInstanceAs (Decidable (first ≤ last ∧ ∀ p ∈ q.kept, first ≤ p.key))
  | .removeFirst _ _ | .deleteOldest _ | .readFrom _ | .validate | .close | .look => .isTrue trivial

def call (q : PacketQueue) (c : LogCall) : PacketQueue :=
  if q.Grants c then
    { q with brought := q.brought ++ c.added, gone := q.gone + (q.named c).length }
  else q

def calls (q : PacketQueue) (cs : List LogCall) : PacketQueue := cs.foldl call q

/-- What a call is answered that can be carried out. -/
def report (q : PacketQueue) (c : LogCall) : LogAnswer :=
  match c with
  | .append _ | .validate | .close => .done
  | .removeFirst _ _ => .packets (q.named c)
  | .deleteOldest _ => .count (q.named c).length
  | .compact _ _ => .compaction {
      range := KeyRange.spanning? ((q.named c).map (·.key))
      removed := (q.named c).length
      removedWeight := Packet.totalWeight (q.named c)
      remainingWeight := Packet.totalWeight (q.call c).kept }
  | .readFrom start => .reading ⟨q.kept.filter fun p => start.all (· ≤ p.key), none⟩
  | .look => .view (.of q.kept q.highest false)

/-- All that ever came in has consecutive keys, and no more was taken out. -/
structure Sound (q : PacketQueue) : Prop where
  consecutive : Packet.Consecutive q.brought
  within : q.gone ≤ q.brought.length

theorem sound_empty (capacity : Option Nat) : (empty capacity).Sound := ⟨.nil, Nat.le_refl _⟩

variable {q : PacketQueue} {c : LogCall}

theorem call_granted (hgrants : q.Grants c) : q.call c =
    { q with brought := q.brought ++ c.added, gone := q.gone + (q.named c).length } :=
  if_pos hgrants

theorem call_refused (hgrants : ¬ q.Grants c) : q.call c = q := if_neg hgrants

theorem capacity_call (q : PacketQueue) (c : LogCall) : (q.call c).capacity = q.capacity := by
  by_cases hgrants : q.Grants c
  · rw [call_granted hgrants]
  · rw [call_refused hgrants]

theorem calls_append (q : PacketQueue) (cs more : List LogCall) :
    q.calls (cs ++ more) = (q.calls cs).calls more := List.foldl_append

theorem exists_brought (q : PacketQueue) (cs : List LogCall) :
    ∃ more, (q.calls cs).brought = q.brought ++ more := by
  induction cs generalizing q with
  | nil => exact ⟨[], (List.append_nil _).symm⟩
  | cons c cs ih =>
    obtain ⟨more, hmore⟩ := ih (q.call c)
    rw [calls, List.foldl_cons, ← calls, hmore]
    by_cases hgrants : q.Grants c
    · rw [call_granted hgrants]
      exact ⟨c.added ++ more, List.append_assoc ..⟩
    · rw [call_refused hgrants]
      exact ⟨more, rfl⟩

/-- The highest key never falls. -/
theorem highest_calls (q : PacketQueue) (cs : List LogCall) {k : Nat} (hk : q.highest = some k) :
    ∃ k', (q.calls cs).highest = some k' ∧ k ≤ k' := by
  obtain ⟨more, hmore⟩ := q.exists_brought cs
  have hin : k ∈ (q.calls cs).brought.map (·.key) := by
    rw [hmore, List.map_append]
    exact List.mem_append_left _ (List.max?_mem hk)
  obtain ⟨k', hk'⟩ := Option.isSome_iff_exists.1 (List.isSome_max?_of_mem hin)
  exact ⟨k', hk', (List.max?_eq_some_iff.1 hk').2 k hin⟩

namespace Sound

theorem kept (h : q.Sound) : Packet.Consecutive q.kept := List.IsChain.drop h.consecutive q.gone

theorem removable (h : q.Sound) (count : Nat) (frontier : Option Nat) :
    removable q.kept count frontier = q.named (.removeFirst count frontier) := by
  cases frontier with
  | none =>
    rw [removable_none, named]
    simp
  | some most =>
    obtain ⟨key, hkeyed⟩ := h.kept.keyed
    show (q.kept.take count).takeWhile (·.key ≤ most) = (q.kept.filter (·.key ≤ most)).take count
    rw [(hkeyed.take count).takeWhile_upTo, hkeyed.filter_upTo, List.take_take, List.take_take,
      Nat.min_comm]

/-- What a call takes out is at the head. -/
theorem named_prefix (h : q.Sound) (c : LogCall) : q.named c <+: q.kept := by
  have hupTo (last : Nat) : q.kept.filter (·.key ≤ last) <+: q.kept := by
    rw [← h.kept.takeWhile_upTo]
    exact List.takeWhile_prefix _
  cases c with
  | removeFirst count frontier =>
    rw [← h.removable]
    exact removable_prefix _ _ _
  | deleteOldest last => exact hupTo last
  | compact first last => exact hupTo last
  | append | readFrom | validate | close | look => exact List.nil_prefix

theorem take_named (h : q.Sound) (c : LogCall) : q.kept.take (q.named c).length = q.named c :=
  (List.prefix_iff_eq_take.1 (h.named_prefix c)).symm

theorem kept_call (h : q.Sound) (hgrants : q.Grants c) :
    (q.call c).kept = q.kept.drop (q.named c).length ++ c.added := by
  have hnamed := (h.named_prefix c).length_le
  rw [call_granted hgrants, PacketQueue.kept, ← List.drop_drop,
    List.drop_append_of_le_length h.within]
  exact List.drop_append_of_le_length hnamed

/-- Nothing gets lost or is made up, and the order stays. -/
theorem conserved (h : q.Sound) (hgrants : q.Grants c) :
    q.kept ++ c.added = q.named c ++ (q.call c).kept := by
  have hsplit := List.take_append_drop (q.named c).length q.kept
  rw [h.take_named] at hsplit
  rw [h.kept_call hgrants, ← List.append_assoc, hsplit]

theorem call (h : q.Sound) (c : LogCall) : (q.call c).Sound := by
  by_cases hgrants : q.Grants c
  · have hnamed := (h.named_prefix c).length_le
    have hwithin := h.within
    rw [call_granted hgrants]
    refine ⟨?_, ?_⟩
    · cases c with
      | append added => exact hgrants.1
      | removeFirst | deleteOldest | compact | readFrom | validate | close | look =>
        simpa [LogCall.added] using h.consecutive
    · rw [PacketQueue.kept, List.length_drop] at hnamed
      simp only [List.length_append]
      omega
  · rwa [call_refused hgrants]

end Sound

end PacketQueue

/-! ## A log and its queue -/

namespace MemoryLog

/-- The log is open and is where the queue is. -/
structure Queues (l : MemoryLog) (q : PacketQueue) : Prop where
  sound : q.Sound
  holds : l.Holds q.kept
  isOpen : l.closed = false
  lastAppended : l.lastAppended = q.highest
  capacity : l.capacity = q.capacity

theorem queues_empty (name : String) (capacity : Option Nat) :
    (empty name capacity).Queues (.empty capacity) :=
  ⟨PacketQueue.sound_empty capacity, holds_empty name capacity, rfl, rfl, rfl⟩

namespace Queues

variable {l : MemoryLog} {q : PacketQueue} {c : LogCall}

theorem highest_eq (h : l.Queues q) : l.lastAppended = q.brought.getLast?.map (·.key) := by
  rw [h.lastAppended, PacketQueue.highest, h.sound.consecutive.max?]

theorem grants_append (h : l.Queues q) {added : List Packet} : q.Grants (.append added) ↔
    checkAppend l.lastAppended (added.map (·.key)) = .ok () ∧
      l.checkCapacity added.length = .ok () := by
  rw [h.highest_eq, checkAppend_getLast? h.sound.consecutive, checkCapacity_eq_ok_iff, h.capacity,
    h.holds.packets_open h.isOpen]
  rfl

theorem grants_compact (h : l.Queues q) {first last : Nat} : q.Grants (.compact first last) ↔
    checkRange first last l.firstKey = .ok () := by
  rw [checkRange_eq_ok_iff, firstKey, h.holds.packets_open h.isOpen]
  refine and_congr_right fun _ => ?_
  obtain ⟨key, hkeyed⟩ := h.sound.kept.keyed
  by_cases hne : q.kept = []
  · simp [hne]
  · rw [hkeyed.head? hne]
    refine ⟨fun hall k hk => ?_, fun hhead p hp => ?_⟩
    · cases hk
      have hlen := List.length_pos_iff.2 hne
      obtain ⟨p, hp, hkey⟩ := hkeyed.exists_mem (Nat.le_refl key) (by omega)
      exact hkey ▸ hall p hp
    · exact Nat.le_trans (hhead key rfl) (hkeyed.bounds hp).1

theorem extended (h : l.Queues q) {added : List Packet} (hgrants : q.Grants (.append added)) :
    (l.extended added).Queues (q.call (.append added)) where
  sound := h.sound.call _
  holds := by
    rw [h.sound.kept_call hgrants]
    obtain ⟨hadded, hroom⟩ := h.grants_append.1 hgrants
    exact h.holds.extended h.isOpen hadded hroom
  isOpen := h.isOpen
  lastAppended := by
    rw [PacketQueue.highest, (h.sound.call (.append added)).consecutive.max?,
      PacketQueue.call_granted hgrants, List.getLast?_append, Option.map_or, ← h.highest_eq]
    rfl
  capacity := h.capacity.trans (q.capacity_call _).symm

theorem trimmed (h : l.Queues q) (hgrants : q.Grants c) (hadded : c.added = []) :
    (l.trimmed (q.named c).length).Queues (q.call c) where
  sound := h.sound.call c
  holds := by
    rw [h.sound.kept_call hgrants, hadded, List.append_nil]
    exact h.holds.trimmed _ h.isOpen
  isOpen := h.isOpen
  lastAppended := by
    rw [PacketQueue.highest, PacketQueue.call_granted hgrants, hadded, List.append_nil]
    exact h.lastAppended
  capacity := h.capacity.trans (q.capacity_call c).symm

theorem unmoved (h : l.Queues q) (hadded : c.added = []) (hnamed : q.named c = []) :
    l.Queues (q.call c) := by
  have hcall : q.call c = q := by
    simp [PacketQueue.call, hadded, hnamed]
  rwa [hcall]

theorem view_eq (h : l.Queues q) : PacketLog.view (.memory l) = .of q.kept q.highest false := by
  rw [← h.lastAppended]
  exact PacketLog.Holds.view_open (l := .memory l) h.holds h.isOpen

theorem readFrom (h : l.Queues q) (start : Option Nat) : PacketLog.readFrom start (.memory l) =
    .ok ⟨q.kept.filter fun p => start.all (· ≤ p.key), none⟩ := by
  rw [PacketLog.Holds.readFrom (l := .memory l) h.holds h.isOpen start]
  cases start with
  | none => simp
  | some key => simpa using h.sound.kept.dropWhile_lt key

theorem validate (h : l.Queues q) : PacketLog.validate.perform (.memory l) = (.ok (), .memory l) :=
  PacketLog.Holds.validate (l := .memory l) h.holds h.isOpen

theorem compact (h : l.Queues q) {first last : Nat} (hgrants : q.Grants (.compact first last)) :
    (PacketLog.answer (.compact first last)).perform (.memory l) =
      (.ok (q.report (.compact first last)),
        .memory (l.trimmed (q.named (.compact first last)).length)) := by
  have hupTo : q.kept.takeWhile (·.key ≤ last) = q.named (.compact first last) :=
    h.sound.kept.takeWhile_upTo last
  rcases h.holds.compact h.isOpen first last with ⟨e, hrange, -⟩ | ⟨-, hok⟩
  · rw [h.grants_compact.1 hgrants] at hrange
    cases hrange
  · rw [hupTo, removalReport, h.sound.take_named] at hok
    rw [PacketQueue.report, h.sound.kept_call hgrants,
      show (LogCall.compact first last).added = [] from rfl, List.append_nil]
    exact perform_map_of (PacketLog.perform_memory hok) _

/-- A call that the queue grants is carried out, and moves the log as it moves the queue. -/
theorem answer_granted (h : l.Queues q) (hclose : c ≠ .close) (hgrants : q.Grants c) :
    ∃ l', (PacketLog.answer c).perform (.memory l) = (.ok (q.report c), .memory l') ∧
      l'.Queues (q.call c) := by
  cases c with
  | append added =>
    obtain ⟨hadded, hroom⟩ := h.grants_append.1 hgrants
    have hok := h.holds.append_ok h.isOpen hadded hroom
    exact ⟨_, perform_map_of (PacketLog.perform_memory hok) _, h.extended hgrants⟩
  | removeFirst count frontier =>
    have hok := h.holds.removeFirst h.isOpen count frontier
    rw [h.sound.removable] at hok
    exact ⟨_, perform_map_of (PacketLog.perform_memory hok) _, h.trimmed hgrants rfl⟩
  | deleteOldest last =>
    have hok := h.holds.deleteOldest h.isOpen last
    rw [h.sound.kept.takeWhile_upTo] at hok
    exact ⟨_, perform_map_of (PacketLog.perform_memory hok) _, h.trimmed hgrants rfl⟩
  | compact first last => exact ⟨_, h.compact hgrants, h.trimmed hgrants rfl⟩
  | readFrom start =>
    refine ⟨l, ?_, h.unmoved rfl rfl⟩
    rw [PacketLog.answer_readFrom, h.readFrom]
    rfl
  | validate => exact ⟨l, perform_map_of h.validate _, h.unmoved rfl rfl⟩
  | close => exact absurd rfl hclose
  | look => exact ⟨l, by rw [PacketQueue.report, ← h.view_eq]; rfl, h.unmoved rfl rfl⟩

/-- A call that the queue does not grant fails, and changes nothing. -/
theorem answer_refused (h : l.Queues q) (hgrants : ¬ q.Grants c) :
    ∃ e, (PacketLog.answer c).perform (.memory l) = (.error e, .memory l) := by
  cases c with
  | append added =>
    rcases h.holds.append h.isOpen added with ⟨e, he⟩ | ⟨hok, hadded, hholds⟩
    · exact ⟨e, perform_map_of (PacketLog.perform_memory he) _⟩
    · have hroom : l.checkCapacity added.length = .ok () :=
        checkCapacity_eq_ok_iff.2 fun most hmost => List.length_append ▸ hholds.within most hmost
      exact absurd (h.grants_append.2 ⟨hadded, hroom⟩) hgrants
  | compact first last =>
    rcases h.holds.compact h.isOpen first last with ⟨e, -, he⟩ | ⟨hrange, -⟩
    · exact ⟨e, perform_map_of (PacketLog.perform_memory he) _⟩
    · exact absurd (h.grants_compact.2 hrange) hgrants
  | removeFirst | deleteOldest | readFrom | validate | close | look => exact absurd trivial hgrants

/-- An open log and its queue move alike through any calls. -/
theorem after (h : l.Queues q) {calls : List LogCall} (hopen : .close ∉ calls) :
    ∃ l', PacketLog.after calls (.memory l) = .memory l' ∧ l'.Queues (q.calls calls) := by
  induction calls generalizing l q with
  | nil => exact ⟨l, rfl, h⟩
  | cons c calls ih =>
    rw [List.mem_cons, not_or] at hopen
    by_cases hgrants : q.Grants c
    · obtain ⟨l', hok, hl'⟩ := h.answer_granted (Ne.symm hopen.1) hgrants
      rw [PacketLog.after, hok]
      exact ih hl' hopen.2
    · obtain ⟨e, he⟩ := h.answer_refused hgrants
      rw [PacketLog.after, he, PacketQueue.calls, List.foldl_cons,
        PacketQueue.call_refused hgrants]
      exact ih h hopen.2

end Queues

end MemoryLog

namespace PacketLog

/-- What an open log shows and answers that is where the queue is. -/
structure IsQueue (l : PacketLog) (q : PacketQueue) : Prop where
  consecutive : Packet.Consecutive q.kept
  lastKey : q.kept ≠ [] → q.kept.getLast?.map (·.key) = l.lastAppended
  /-- Count and weight are those of the packets kept, and the last key is the highest ever. -/
  view : l.view = .of q.kept q.highest false
  validates : validate.perform l = (.ok (), l)
  reads (start : Option Nat) :
    l.readFrom start = .ok ⟨q.kept.filter fun p => start.all (· ≤ p.key), none⟩
  /-- A reader may search by halves for where to start. -/
  parted (start : Nat) :
    q.kept = q.kept.filter (·.key < start) ++ q.kept.filter (start ≤ ·.key)
  /-- A call that is carried out takes what it names from the head, adds what it brings at the end,
  and is answered what it did. -/
  granted {c : LogCall} (hclose : c ≠ .close) (hgrants : q.Grants c) :
    q.kept ++ c.added = q.named c ++ (q.call c).kept ∧
      ∃ l', (answer c).perform l = (.ok (q.report c), l') ∧
        l'.view = .of (q.call c).kept (q.call c).highest false ∧
        l'.readFrom none = .ok ⟨(q.call c).kept, none⟩
  refused {c : LogCall} (hgrants : ¬ q.Grants c) : ∃ e, ((answer c).perform l).1 = .error e
  /-- A call that fails changes nothing. -/
  failed {c : LogCall} {e : Error} (hfails : ((answer c).perform l).1 = .error e) :
    ((answer c).perform l).2 = l

theorem isQueue_of_queues {l : MemoryLog} {q : PacketQueue} (h : l.Queues q) :
    IsQueue (.memory l) q where
  consecutive := h.sound.kept
  lastKey hne := (h.holds.endsIn.last_eq hne).symm
  view := h.view_eq
  validates := h.validate
  reads := h.readFrom
  parted := h.sound.kept.parted
  granted hclose hgrants :=
    have ⟨l', hok, hl'⟩ := h.answer_granted hclose hgrants
    ⟨h.sound.conserved hgrants, .memory l', hok, hl'.view_eq,
      PacketLog.Holds.readAll (l := .memory l') hl'.holds hl'.isOpen⟩
  refused hgrants :=
    have ⟨e, he⟩ := h.answer_refused hgrants
    ⟨e, congrArg Prod.fst he⟩
  failed {c e} hfails := by
    by_cases hclose : c = .close
    · subst hclose
      cases hfails
    by_cases hgrants : q.Grants c
    · obtain ⟨l', hok, -⟩ := h.answer_granted hclose hgrants
      rw [hok] at hfails
      cases hfails
    · obtain ⟨e', he⟩ := h.answer_refused hgrants
      rw [he]

theorem after_closed {calls : List LogCall} {l : PacketLog}
    (h : .close ∈ calls ∨ l.isClosed = true) : (after calls l).isClosed = true := by
  induction calls generalizing l with
  | nil => simpa [after] using h
  | cons c calls ih =>
    refine ih ?_
    by_cases hclose : c = .close
    · subst hclose
      right
      cases l <;> rfl
    · rcases h with hin | hclosed
      · exact .inl ((List.mem_cons.1 hin).resolve_left (Ne.symm hclose))
      · right
        rwa [(answer_closed hclosed hclose).1]

/-- A log in memory is a queue, whatever is called. Before it is closed, it shows and answers what
the queue does that the same calls lead to, and the highest key that it ever took in never falls.
Once it is closed, it can only be looked at and closed again. -/
theorem queue_exact (name : String) (capacity : Option Nat) (calls : List LogCall) :
    (.close ∉ calls →
      (after calls (.memory (.empty name capacity))).IsQueue
          ((PacketQueue.empty capacity).calls calls) ∧
        ∀ later, .close ∉ later →
          ∀ k ∈ (after calls (.memory (.empty name capacity))).lastAppended,
            ∃ k' ∈ (after (calls ++ later) (.memory (.empty name capacity))).lastAppended,
              k ≤ k') ∧
    (.close ∈ calls → ∀ c : LogCall, c ≠ .close → c ≠ .look →
      (answer c).perform (after calls (.memory (.empty name capacity))) =
        (.error (.storage (.closed name)), after calls (.memory (.empty name capacity)))) := by
  refine ⟨fun hopen => ⟨?_, fun later hlater k hk => ?_⟩, fun hclose c hc hlook => ?_⟩
  · obtain ⟨l, hafter, hqueues⟩ := (MemoryLog.queues_empty name capacity).after hopen
    rw [hafter]
    exact isQueue_of_queues hqueues
  · obtain ⟨l, hafter, hqueues⟩ := (MemoryLog.queues_empty name capacity).after hopen
    obtain ⟨l', hafter', hqueues'⟩ := (MemoryLog.queues_empty name capacity).after
      (show .close ∉ calls ++ later from fun h => (List.mem_append.1 h).elim hopen hlater)
    rw [hafter] at hk
    rw [hafter']
    have hhighest : l'.lastAppended =
        (((PacketQueue.empty capacity).calls calls).calls later).highest := by
      rw [← PacketQueue.calls_append]
      exact hqueues'.lastAppended
    obtain ⟨k', hk', hle⟩ :=
      PacketQueue.highest_calls _ later (hqueues.lastAppended.symm.trans hk)
    exact ⟨k', hhighest.trans hk', hle⟩
  · have hclosed := after_closed (l := .memory (.empty name capacity)) (.inl hclose)
    have hname := (steady_name name).after calls (l := .memory (.empty name capacity)) rfl
    obtain ⟨hsame, hanswer⟩ := answer_closed hclosed hc
    rw [if_neg hlook, hname] at hanswer
    exact Prod.ext hanswer hsame

end PacketLog

/-- A run that fills a log with room for three packets, and takes out all that it has. On the way
there is no room, a key is left out, and a range does not begin at the head. -/
def LogCall.crowding : List LogCall :=
  [.append [.ofOrder 5 "a", .ofOrder 6 "b", .ofOrder 7 "c"], .append [.ofOrder 8 "d"],
    .removeFirst 2 (some 5), .append [.ofOrder 9 "e"], .append [.ofOrder 8 "d"], .compact 7 8,
    .deleteOldest 6, .compact 5 8]

/-- Also when it is empty, the log goes on behind the last packet that it ever had. -/
theorem PacketLog.queue_exact_emptied :
    .close ∉ LogCall.crowding ∧
      (after LogCall.crowding (.memory (.empty "orders" (some 3)))).IsQueue
        ⟨[.ofOrder 5 "a", .ofOrder 6 "b", .ofOrder 7 "c", .ofOrder 8 "d"], 4, some 3⟩ ∧
      (∃ e, ((answer (.append [.ofOrder 8 "d"])).perform
        (after LogCall.crowding (.memory (.empty "orders" (some 3))))).1 = .error e) ∧
      (answer .validate).perform
          (after (LogCall.crowding ++ [.close]) (.memory (.empty "orders" (some 3)))) =
        (.error (.storage (.closed "orders")),
          after (LogCall.crowding ++ [.close]) (.memory (.empty "orders" (some 3)))) := by
  have hopen : LogCall.close ∉ LogCall.crowding := by decide
  have hqueue : (PacketQueue.empty (some 3)).calls LogCall.crowding =
      ⟨[.ofOrder 5 "a", .ofOrder 6 "b", .ofOrder 7 "c", .ofOrder 8 "d"], 4, some 3⟩ := by
    decide +kernel
  have hshown := ((queue_exact "orders" (some 3) LogCall.crowding).1 hopen).1
  rw [hqueue] at hshown
  exact ⟨hopen, hshown, hshown.refused (by decide +kernel),
    (queue_exact "orders" (some 3) (LogCall.crowding ++ [.close])).2 (by decide) .validate
      (by decide) (by decide)⟩

end GroupReplication
