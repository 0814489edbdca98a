/-
What trims leave of a log. The dead bytes in front of its data file are all that still tells how
often a log was trimmed, and how far each time: they stay until they outweigh the live ones. Without
them, logs that started alike and lost the same packets are equal (`Shortened.unique`).
-/
import GroupReplication.Proofs.Log.Agreement

namespace GroupReplication

open GroupReplication.Action Log Packet

/-- A log in memory is determined by what it holds, its name and its limit. -/
theorem MemoryLog.Holds.unique {l k : MemoryLog} {ps : List Packet} (hl : l.Holds ps) (hk : k.Holds ps)
    (hopen : l.closed = false) (hopen' : k.closed = false) (hstays : l.Stays k.name k.capacity)
    (hlast : l.lastAppended = k.lastAppended) : l = k := by
  have hpackets : l.packets = k.packets :=
    (hl.packets_open hopen).trans (hk.packets_open hopen').symm
  have hweight : l.weight = k.weight := by rw [hl.weight, hk.weight, hpackets]
  have hannounced : l.announced = k.announced := by
    rw [hl.announced, hk.announced, hpackets, hweight]
  have hdamage : l.damage = k.damage := hl.undamaged.trans hk.undamaged.symm
  have hclosed : l.closed = k.closed := hopen.trans hopen'.symm
  obtain ⟨hname, hcapacity⟩ := hstays
  cases l
  cases k
  simp_all only

namespace FileLog

theorem LaidOut.unique {offset : Nat} {ps : List Packet} {entries more : List IndexEntry}
    {bs cs : Bytes} (h : LaidOut offset ps entries bs) (h' : LaidOut offset ps more cs) :
    entries = more ∧ bs = cs := by
  induction h generalizing more cs with
  | nil => exact ⟨h'.eq_nil.1.symm, h'.eq_nil.2.symm⟩
  | cons hrecord _ _ ih =>
    cases h' with
    | cons hrecord' _ hrest' =>
      rw [hrecord] at hrecord'
      cases hrecord'
      obtain ⟨rfl, rfl⟩ := ih hrest'
      exact ⟨rfl, rfl⟩

variable {l k : FileLog} {ps : List Packet}

/-- What the first bytes of a data file were leaves no trace once they are gone. -/
theorem Holds.reclaimed_eq (h : l.Holds ps) (hopen : l.isClosed = false) :
    ∃ entries bs, LaidOut 0 ps entries bs ∧ l.reclaimed =
      { directory := ⟨l.directory.path, true, some bs, l.directory.head⟩
        options := l.options
        handle := .attached
        index := entries
        headOffset := 0
        endOffset := bs.length
        weight := Packet.totalWeight ps
        lastAppended := l.lastAppended
        announced := ⟨ps.length, Packet.totalWeight ps⟩
        damage := none } := by
  obtain ⟨dead, entries, front, back, hkept, hpic⟩ := h
  have hweight : l.weight = Packet.totalWeight ps := by
    rw [hpic.weight, hpic.index_open hopen, hkept.live.totalWeight_eq]
  refine ⟨_, back, LaidOut.shift (d := front.length) (by rw [Nat.zero_add]; exact hkept.live), ?_⟩
  rw [FileLog.reclaimed, hkept.data, Option.map_some, hpic.liveData, hpic.liveBytes, hpic.headOffset,
    hpic.index_open hopen, hpic.handle_open hopen, hpic.announced, hpic.index_open hopen,
    hkept.live.length, hweight, hpic.undamaged, ← hkept.present]

theorem Holds.reclaimed_unique (hl : l.Holds ps) (hk : k.Holds ps) (hopen : l.isClosed = false)
    (hopen' : k.isClosed = false) (hstays : l.Stays k.directory.path k.options)
    (hhead : l.directory.head = k.directory.head) (hlast : l.lastAppended = k.lastAppended) :
    l.reclaimed = k.reclaimed := by
  obtain ⟨entries, bs, hlaid, hleft⟩ := hl.reclaimed_eq hopen
  obtain ⟨more, cs, hlaid', hright⟩ := hk.reclaimed_eq hopen'
  obtain ⟨rfl, rfl⟩ := hlaid.unique hlaid'
  rw [hleft, hright, hstays.1, hstays.2, hhead, hlast]

/-- A trim that takes anything marks the first packet that is left. -/
theorem Holds.head_trimHead (h : l.Holds ps) (hopen : l.isClosed = false) {count : Nat}
    (hcount : count ≤ ps.length) : ((FileLog.trimHead count).perform l).2.directory.head
      = if count = 0 then l.directory.head
        else some (Directory.headMarker (firstOf l.lastAppended (ps.drop count))) := by
  rw [FileLog.trimHead, perform_get_bind]
  by_cases hzero : count = 0
  · rw [if_pos hzero, if_pos hzero]
    rfl
  · obtain ⟨hholds, hwrite⟩ := h.remarked hopen (Nat.pos_of_ne_zero hzero) hcount
    rw [if_neg hzero, if_neg hzero, perform_set_bind, perform_bind_ok hwrite,
      perform_bind_ok (hholds.perform_reclaim hopen), perform_pure]
    split <;> rfl

theorem Holds.head_compact (h : l.Holds ps) (hopen : l.isClosed = false) {first last : Nat}
    (hrange : checkRange first last l.firstKey = .ok ()) :
    let n := (ps.takeWhile (·.key ≤ last)).length
    ((FileLog.compact first last).perform l).2.directory.head = if n = 0 then l.directory.head
      else some (Directory.headMarker (firstOf l.lastAppended (ps.drop n))) := by
  intro n
  have hcount := length_takeWhile_keys (decide <| · ≤ last) (h.index_open hopen).1
  have hhead := h.head_trimHead hopen (show n ≤ ps.length from (List.takeWhile_prefix _).length_le)
  have hthrough : (FileLog.trimThrough last).perform l = (FileLog.trimHead n).perform l := by
    rw [FileLog.trimThrough, perform_get_bind, hcount]
  obtain ⟨l', htrim, -⟩ := h.trimThrough hopen last
  rw [← hthrough, htrim] at hhead
  rw [FileLog.compact, perform_get_bind, h.guard_open hopen, perform_decided_ok_bind,
    perform_get_bind, hrange, perform_decided_ok_bind, perform_bind_ok htrim, perform_get_bind,
    perform_pure]
  exact hhead

end FileLog

namespace PacketLog

/-- The log without dead bytes in front of its data file. One in memory has none. -/
def reclaimed : PacketLog → PacketLog
  | .memory l => .memory l
  | .file l => .file l.reclaimed

/-- An open log lost the first `count` of `ps`. It is where it was, and if it lost any, the mark in
its directory has moved to the first that is left. -/
inductive Shortened (ps : List Packet) (count : Nat) : PacketLog → PacketLog → Prop where
  | memory {l l' : MemoryLog} (holds : l'.Holds (ps.drop count)) (isOpen : l'.closed = false)
      (lastAppended : l'.lastAppended = l.lastAppended) (stays : l'.Stays l.name l.capacity) :
      Shortened ps count (.memory l) (.memory l')
  | file {l l' : FileLog} (holds : l'.Holds (ps.drop count)) (isOpen : l'.isClosed = false)
      (lastAppended : l'.lastAppended = l.lastAppended)
      (stays : l'.Stays l.directory.path l.options)
      (marked : l'.directory.head = if count = 0 then l.directory.head
        else some (Directory.headMarker (FileLog.firstOf l.lastAppended (ps.drop count)))) :
      Shortened ps count (.file l) (.file l')

variable {l l' l'' : PacketLog} {ps : List Packet} {count : Nat}

namespace Shortened

theorem refl (h : l.Holds ps) (hopen : l.isClosed = false) : Shortened ps 0 l l := by
  cases l with
  | memory l => exact .memory h hopen rfl ⟨rfl, rfl⟩
  | file l => exact .file h hopen rfl ⟨rfl, rfl⟩ rfl

theorem isOpen (h : Shortened ps count l l') : l'.isClosed = false := by
  cases h with
  | memory _ hopen => exact hopen
  | file _ hopen => exact hopen

theorem trims (h : Shortened ps count l l') (hopen : l.isClosed = false) :
    l.TrimsTo (ps.drop count) l' := by
  have hclosed := h.isOpen.trans hopen.symm
  cases h with
  | memory hholds _ hlast => exact ⟨hholds, hlast, hclosed⟩
  | file hholds _ hlast => exact ⟨hholds, hlast, hclosed⟩

/-- Two trims in a row come to one. -/
theorem trans {more : Nat} (h : Shortened ps count l l')
    (h' : Shortened (ps.drop count) more l' l'') : Shortened ps (count + more) l l'' := by
  cases h with
  | memory _ _ hlast hstays =>
    cases h' with
    | memory hholds hopen hlast' hstays' =>
      rw [List.drop_drop] at hholds
      refine .memory hholds hopen (hlast'.trans hlast) ?_
      rwa [hstays.1, hstays.2] at hstays'
  | file _ _ hlast hstays hmarked =>
    cases h' with
    | file hholds hopen hlast' hstays' hmarked' =>
      rw [List.drop_drop] at hholds hmarked'
      refine .file hholds hopen (hlast'.trans hlast) (by rwa [hstays.1, hstays.2] at hstays') ?_
      rw [hmarked', hlast]
      by_cases hmore : more = 0
      · rw [if_pos hmore, hmarked, hmore, Nat.add_zero]
      · rw [if_neg hmore, if_neg (by omega)]

/-- Only dead bytes tell apart what lost the same packets. -/
theorem unique {k : PacketLog} (h : Shortened ps count l l') (h' : Shortened ps count l k) :
    l'.reclaimed = k.reclaimed := by
  cases h with
  | memory hholds hopen hlast hstays =>
    cases h' with
    | memory hholds' hopen' hlast' hstays' =>
      refine congrArg PacketLog.memory (hholds.unique hholds' hopen hopen' ?_ (hlast.trans hlast'.symm))
      exact ⟨hstays.1.trans hstays'.1.symm, hstays.2.trans hstays'.2.symm⟩
  | file hholds hopen hlast hstays hmarked =>
    cases h' with
    | file hholds' hopen' hlast' hstays' hmarked' =>
      refine congrArg PacketLog.file (hholds.reclaimed_unique hholds' hopen hopen' ?_
        (hmarked.trans hmarked'.symm) (hlast.trans hlast'.symm))
      exact ⟨hstays.1.trans hstays'.1.symm, hstays.2.trans hstays'.2.symm⟩

theorem unique_memory {l : MemoryLog} {k : PacketLog} (h : Shortened ps count (.memory l) l')
    (h' : Shortened ps count (.memory l) k) : l' = k := by
  have hsame := h.unique h'
  cases h
  cases h'
  exact hsame

end Shortened

/-- A compaction of a range that starts no later than the log removes the packets up to its end. -/
theorem Holds.compact_shortened (h : l.Holds ps) (hopen : l.isClosed = false) {first last : Nat}
    (hrange : checkRange first last (ps.head?.map (·.key)) = .ok ()) :
    let n := (ps.takeWhile (·.key ≤ last)).length
    ∃ l', (PacketLog.compact first last).perform l = (.ok (removalReport ps n), l') ∧
      Shortened ps n l l' := by
  intro n
  rw [← h.firstKey hopen] at hrange
  cases l with
  | memory l =>
    rcases MemoryLog.Holds.compact h hopen first last with ⟨e, he, -⟩ | ⟨-, hok⟩
    · rw [show checkRange first last l.firstKey = .ok () from hrange] at he
      cases he
    · exact ⟨.memory (l.trimmed n), perform_memory hok,
        .memory (MemoryLog.Holds.trimmed h n hopen) hopen rfl ⟨rfl, rfl⟩⟩
  | file l =>
    rcases FileLog.Holds.compact h hopen first last with
      ⟨e, he, -⟩ | ⟨-, l', hok, hholds, hlast, hstill⟩
    · rw [show checkRange first last l.firstKey = .ok () from hrange] at he
      cases he
    · have hstays := FileLog.keeps_compact first last l ⟨rfl, rfl⟩
      rw [hok] at hstays
      have hhead := FileLog.Holds.head_compact h hopen hrange
      rw [hok] at hhead
      exact ⟨.file l', perform_file hok, .file hholds hstill hlast hstays hhead⟩

end PacketLog

end GroupReplication
