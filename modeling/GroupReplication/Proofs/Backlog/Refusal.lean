/-
What an add leaves behind that fails. Room is made before the log is asked to take the packet in, so
packets that were discarded for it are gone also when the log refuses it. A log in memory takes in
what it lost a packet for. A log in a directory may have no bytes left for a longer packet.
-/
import GroupReplication.Proofs.Backlog.Resume
import GroupReplication.Proofs.Log.Agreement
import GroupReplication.Proofs.Log.Reached

namespace GroupReplication

open GroupReplication.Action

/-! ## What logs refuse -/

/-- A log takes in a packet that has the next key, if there is room for it. -/
theorem PacketLog.checkAppend_next {l : PacketLog} {p : Packet} (h : p.key = l.nextKey) :
    Log.checkAppend l.lastAppended ([p].map (·.key)) = .ok () := by
  rw [PacketLog.nextKey] at h
  cases hlast : l.lastAppended with
  | none => rfl
  | some last =>
    rw [hlast] at h
    simp [Log.checkAppend, h]

/-- Why a log in a directory may decline a packet that has the next key. -/
inductive FileLog.Declines (l : FileLog) (p : Packet) : Error → Prop where
  | unwritable {fault : FrameFault} (encode : Record.encode p = .error fault) :
      l.Declines p (.protocol fault)
  | full {wanted most : Nat} (limit : l.options.maxBytes = some most) (exceeded : most < wanted) :
      l.Declines p (.storageFull l.name wanted most)

/-- A log in memory has room again once it lost a packet, so only one in a directory refuses. -/
theorem PacketLog.Holds.append_after_removal {l l' : PacketLog} {ps qs : List Packet} {p : Packet}
    {n : Nat} {e : Error} (h : l.Holds ps) (hopen : l.isClosed = false) (hpos : 0 < n)
    (hcount : n ≤ ps.length) (hremove : (PacketLog.removeFirst n none).perform l = (.ok qs, l'))
    (hto : l.TrimsTo (ps.drop n) l') (hp : p.key = l.nextKey)
    (he : ((PacketLog.append [p]).perform l').1 = .error e) :
    ∃ k, l = .file k ∧ k.Declines p e := by
  have hnext : Log.checkAppend l'.lastAppended ([p].map (·.key)) = .ok () :=
    PacketLog.checkAppend_next (hp.trans hto.nextKey.symm)
  have hopen' : l'.isClosed = false := hto.isClosed.trans hopen
  have hholds := hto.holds
  rw [PacketLog.removeFirst, perform_either] at hremove
  cases l with
  | memory m =>
    obtain ⟨-, rfl⟩ := Prod.mk.inj hremove
    have hstays := MemoryLog.keeps_removeFirst n none m ⟨rfl, rfl⟩
    generalize hm' : ((MemoryLog.removeFirst n none).perform m).2 = m' at *
    have hroom : m'.checkCapacity [p].length = .ok () := by
      refine MemoryLog.checkCapacity_eq_ok_iff.2 fun most hmost => ?_
      have hwithin := MemoryLog.Holds.within h most (hstays.2 ▸ hmost)
      rw [MemoryLog.Holds.packets_open h hopen] at hwithin
      rw [MemoryLog.Holds.packets_open hholds hopen', List.length_drop, List.length_singleton]
      omega
    rw [PacketLog.append, perform_either] at he
    simp only [MemoryLog.Holds.append_ok hholds hopen' hnext hroom] at he
    cases he
  | file k =>
    obtain ⟨-, rfl⟩ := Prod.mk.inj hremove
    have hstays := FileLog.keeps_removeFirst n none k ⟨rfl, rfl⟩
    generalize hk' : ((FileLog.removeFirst n none).perform k).2 = k' at *
    refine ⟨k, rfl, ?_⟩
    rw [PacketLog.append, perform_either] at he
    rcases FileLog.Holds.append_error hholds hopen' hnext he with
      ⟨fault, hlay, rfl⟩ | ⟨wanted, most, hmost, hover, rfl⟩
    · cases hencode : Record.encode p with
      | error fault' =>
        rw [FileLog.layOut, hencode] at hlay
        cases hlay
        exact .unwritable hencode
      | ok record =>
        rw [FileLog.layOut, hencode, ok_bind] at hlay
        cases hlay
    · rw [show k'.name = k.name from congrArg Path.name hstays.1]
      exact .full (hstays.2 ▸ hmost) hover

namespace Backlog

variable {b : Backlog} {ps : List Packet} {payload : Payload} {transient fromGateway : Bool} {e : Error}

/-- An add that fails has discarded packets before, or changes nothing. -/
theorem addPayload_error (h : b.log.Holds ps) (hkey : b.nextKey < 2 ^ 64)
    (hnot : ¬ b.MakesRoom payload.defaultWeight)
    (he : ((addPayload payload transient fromGateway).perform b).1 = .error e) :
    ((addPayload payload transient fromGateway).perform b).2 = b := by
  by_cases hempty : b.channels = []
  · rw [addPayload_unregistered hempty]
  obtain ⟨r, hroom⟩ := makeRoom_stays hnot
  cases r with
  | error e' => rw [addPayload_no_room hempty hroom]
  | ok _ =>
    have hall : ∀ p ∈ [b.numbered payload transient fromGateway], p.Fits := by
      simpa using fits_numbered payload transient fromGateway hkey
    have hroom : (makeRoom payload.defaultWeight).perform b = (.ok (), b.discarded [] b.log) := by
      rw [hroom, discarded_nil]
    rcases h.append hall with ⟨e', hrefused⟩ | ⟨-, -, log', hlogged, -⟩
    · rw [addPayload_refused hempty hroom hrefused, discarded_nil]
    · rw [addPayload_logged hempty hroom hlogged] at he
      cases he

/-- What was discarded to make room stays so, though a log in a directory declines the packet then. -/
theorem addPayload_error_behind_room (h : b.log.Holds ps) (hkey : b.nextKey < 2 ^ 64)
    (hnext : b.nextKey = b.log.nextKey) (hroom : b.MakesRoom payload.defaultWeight)
    (he : ((addPayload payload transient fromGateway).perform b).1 = .error e) :
    ∃ l n, b.log = .file l ∧ l.Declines (b.numbered payload transient fromGateway) e ∧
      0 < n ∧ n ≤ b.log.packets.length ∧
      ((addPayload payload transient fromGateway).perform b).2 = b.discarded (b.log.packets.take n)
        ((addPayload payload transient fromGateway).perform b).2.log ∧
      ((addPayload payload transient fromGateway).perform b).2.log.packets
        = b.log.packets.drop n := by
  have hne : b.channels ≠ [] := fun hempty => by
    rw [addPayload_unregistered hempty] at he
    cases he
  obtain ⟨n, log, hpos, hcount, hto, hremove, hmade⟩ := makeRoom_discards hroom h
  have hall : ∀ p ∈ [b.numbered payload transient fromGateway], p.Fits := by
    simpa using fits_numbered payload transient fromGateway hkey
  rcases hto.holds.append hall with ⟨e', hrefused⟩ | ⟨-, -, log', hlogged, -⟩
  · have hperform := addPayload_refused hne hmade hrefused
    rw [hperform] at he
    cases he
    obtain ⟨l, hl, hdeclines⟩ := h.append_after_removal hroom.isOpen hpos hcount hremove hto hnext
      (congrArg Prod.fst hrefused)
    rw [hperform, h.packets hroom.isOpen]
    exact ⟨l, n, hl, hdeclines, hpos, hcount, rfl,
      hto.holds.packets (hto.isClosed.trans hroom.isOpen)⟩
  · rw [addPayload_logged hne hmade hlogged] at he
    cases he

/-- In any run, restarts included, over any log that came about by its own operations: an add that
fails changes nothing, unless it had discarded packets to make room. Then the log is one in a
directory, which declined the packet for its length, and what changed is that the discarded packets
are gone from the log and charged to the channels. -/
theorem add_error_exact {log : PacketLog} (hlog : log.Reachable) (membership : Membership)
    (settings : BacklogSettings) (events : List BacklogEvent) (payload : Payload)
    (transient fromGateway : Bool) (e : Error)
    (hkeys : ∀ past, past <+: events →
      ((Run.start (.ofLog membership settings log)).undergoAll past).backlog.nextKey < 2 ^ 64) :
    let b := ((Run.start (.ofLog membership settings log)).undergoAll events).backlog
    let b' := ((addPayload payload transient fromGateway).perform b).2
    ((addPayload payload transient fromGateway).perform b).1 = .error e →
    (b' = b ↔ ¬ b.MakesRoom payload.defaultWeight) ∧
      (b.MakesRoom payload.defaultWeight →
        ∃ l n, b.log = .file l ∧ l.Declines (b.numbered payload transient fromGateway) e ∧
          0 < n ∧ n ≤ b.log.packets.length ∧
          b' = b.discarded (b.log.packets.take n) b'.log ∧
          b'.log.packets = b.log.packets.drop n) := by
  intro b b' he
  obtain ⟨kept, hkept, -⟩ := hlog.holds
  have haccounts := (Run.accounts_start membership settings hkept).undergoAll events hkeys
  have hkey : b.nextKey < 2 ^ 64 := hkeys events (List.prefix_refl _)
  obtain ⟨ps, hholds, -⟩ := haccounts.logged.kept
  have hchanged := fun hroom =>
    addPayload_error_behind_room (b := b) hholds hkey haccounts.logged.next hroom he
  refine ⟨⟨fun hsame hroom => ?_, fun hnot => addPayload_error hholds hkey hnot he⟩, hchanged⟩
  obtain ⟨l, n, -, -, hpos, hcount, -, hpackets⟩ := hchanged hroom
  have hlength : b'.log.packets.length = b.log.packets.length - n :=
    (congrArg List.length hpackets).trans List.length_drop
  rw [hsame] at hlength
  omega

/-- A log of 100 bytes at most. -/
def narrow : PacketLog := .file (.new "orders" ⟨some 100, 1000⟩)

theorem reachable_narrow : narrow.Reachable :=
  .file (d := ⟨"orders", true, none, none⟩) rfl rfl (FileLog.openIn_new "orders" ⟨some 100, 1000⟩)

/-- One target, and a short packet for it. -/
def occupied : List BacklogEvent :=
  [.operate (.handshake "backup" ⟨true, 0, none⟩),
    .operate (.add (.entry (.write ⟨"Order", "a", 1, [], none⟩)) false false)]

/-- A backlog that keeps one packet at most. -/
def cramped : Backlog :=
  ((Run.start (.ofLog (.openTo "orders") ⟨1, .discardOldest, 10, 1000, 1⟩ narrow)).undergoAll
    occupied).backlog

/-- A payload that makes a packet of more than 100 bytes. -/
def lengthy : Payload := .entry (.write ⟨"Order", "b", 1, List.replicate 40 0, none⟩)

/-- The long packet does not come in, and the short one is gone. -/
theorem add_error_discards :
    (∃ e, ((addPayload lengthy false false).perform cramped).1 = .error e) ∧
      cramped.log.packets.length = 1 ∧
      ((addPayload lengthy false false).perform cramped).2.log.packets = [] ∧
      (cramped.channel? "backup").map (·.resyncRequired) = some false ∧
      (((addPayload lengthy false false).perform cramped).2.channel? "backup").map (·.resyncRequired)
        = some true :=
  ⟨eq_error_of_isOk (by decide +kernel), by decide +kernel, by decide +kernel, by decide +kernel,
    by decide +kernel⟩

/-- Room was made for the long packet, and its log refused it. -/
theorem add_error_exact_cramped :
    cramped.MakesRoom lengthy.defaultWeight ∧
      ((addPayload lengthy false false).perform cramped).2 ≠ cramped ∧
      ∃ l n, cramped.log = .file l ∧ 0 < n ∧
        ((addPayload lengthy false false).perform cramped).2.log.packets
          = cramped.log.packets.drop n := by
  have hroom : cramped.MakesRoom lengthy.defaultWeight :=
    ⟨by decide +kernel, rfl, by decide +kernel, by decide +kernel⟩
  have hshort : ∀ n, n < 3 → ((Run.start (.ofLog (.openTo "orders") ⟨1, .discardOldest, 10, 1000, 1⟩
      narrow)).undergoAll (occupied.take n)).backlog.nextKey < 2 ^ 64 := by
    decide +kernel
  obtain ⟨e, he⟩ := eq_error_of_isOk
    (show ((addPayload lengthy false false).perform cramped).1.isOk = false by decide +kernel)
  obtain ⟨hsame, hchanged⟩ := add_error_exact reachable_narrow (.openTo "orders")
    ⟨1, .discardOldest, 10, 1000, 1⟩ occupied lengthy false false e (fun past hpast => by
      rw [List.prefix_iff_eq_take.1 hpast]
      exact hshort past.length (Nat.lt_succ_of_le hpast.length_le)) he
  obtain ⟨l, n, hl, -, hpos, -, -, hpackets⟩ := hchanged hroom
  refine ⟨hroom, fun heq => hsame.1 heq hroom, l, n, hl, hpos, ?_⟩
  rw [cramped]
  exact hpackets

end Backlog

end GroupReplication
