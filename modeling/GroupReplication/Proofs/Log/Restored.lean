/-
A log that is opened again shows what it showed before it was dropped or closed, and so does one
that was stopped in the middle of a trim.

A directory keeps a log's packets at every point between two changes of a file (`Kept`), and
opening a directory gives back what it keeps. In the middle of a trim the mark has moved and the
data file has not: the packets that are trimmed are dead already.
-/
import GroupReplication.Proofs.Log.Reached

namespace GroupReplication.FileLog

open GroupReplication.Action Log

variable {l k : FileLog} {ps : List Packet}

/-- Both logs are read to the same packets, and say the same of themselves. -/
structure SameAs (l k : FileLog) : Prop where
  reading : ∃ ps, PacketLog.readFrom none (.file l) = .ok ⟨ps, none⟩ ∧
    PacketLog.readFrom none (.file k) = .ok ⟨ps, none⟩
  view : PacketLog.view (.file l) = PacketLog.view (.file k)

theorem Holds.sameAs (h : l.Holds ps) (hk : k.Holds ps) (hopen : l.isClosed = false)
    (hopen' : k.isClosed = false) (hlast : l.lastAppended = k.lastAppended) : l.SameAs k where
  reading := ⟨ps, PacketLog.Holds.readAll (l := .file l) h hopen,
    PacketLog.Holds.readAll (l := .file k) hk hopen'⟩
  view := by
    rw [PacketLog.Holds.view_eq (l := .file l) h, PacketLog.Holds.view_eq (l := .file k) hk]
    simp only [PacketLog.isClosed, PacketLog.lastAppended, hopen, hopen', hlast]

/-- A log whose keys did not use up their field can be opened again after it was dropped, after it
was closed, and after it was stopped in the middle of a trim. It then shows what it showed before,
or would have shown at the end of the trim. -/
theorem reopened_same (h : l.Reached) (hopen : l.isClosed = false)
    (hkeys : PacketLog.nextKey (.file l) < 2 ^ 64) (options : FileOptions) :
    (∃ l', FileLog.openIn l.directory options = (.ok l', l.directory) ∧ l'.SameAs l) ∧
      (∀ (later : List LogCall) (k : FileLog),
        PacketLog.after (.close :: later) (.file l) = .file k →
        ∃ l', FileLog.openIn k.directory options = (.ok l', k.directory) ∧ l'.SameAs l) ∧
      ∀ count, 0 < count → count ≤ l.index.length →
        let stopped := ((moveMark count).perform l).2.directory
        ∃ l', FileLog.openIn stopped options = (.ok l', stopped) ∧
          l'.SameAs ((trimHead count).perform l).2 := by
  obtain ⟨ps, hholds⟩ := h.holds
  have hreopen : ∃ l',
      FileLog.openIn l.directory options = (.ok l', l.directory) ∧ l'.SameAs l := by
    obtain ⟨l', hok, hheld, hlast, hstill⟩ :=
      hholds.openIn (Nat.lt_of_le_of_lt (Nat.sub_le _ _) hkeys) options
    exact ⟨l', hok, hheld.sameAs hholds hstill hopen hlast⟩
  refine ⟨hreopen, fun later k hk => ?_, fun count hpos hcount => ?_⟩
  · rwa [PacketLog.directory_after_close hk]
  · rw [hholds.length_index hopen] at hcount
    obtain ⟨stopped, hmark, hheld, hlast, hstill⟩ := hholds.moveMark hopen hpos hcount
    obtain ⟨finished, hreclaim, hheld', hlast', hstill'⟩ := hheld.reclaim hstill
    have htrim : ((trimHead count).perform l).2 = finished := by
      rw [perform_trimHead hpos, perform_bind_ok hmark, perform_bind_ok hreclaim, perform_pure]
    rw [hmark, htrim]
    have hfirst : firstOf stopped.lastAppended (ps.drop count) < 2 ^ 64 := by
      rw [hlast]
      exact Nat.lt_of_le_of_lt (Nat.sub_le _ _) hkeys
    obtain ⟨l', hok, hheld'', hlast'', hstill''⟩ := hheld.openIn hfirst options
    exact ⟨l', hok, hheld''.sameAs hheld' hstill'' hstill' (hlast''.trans hlast'.symm)⟩

/-- A log that a trim left empty is found empty again, and its keys go on behind the last one. -/
theorem reopened_same_emptied :
    ∃ l l', PacketLog.after [.append [.ofOrder 1 "a", .ofOrder 2 "b"], .deleteOldest 2]
        (.file (.new "orders" ⟨none, 0⟩)) = .file l ∧
      FileLog.openIn l.directory ⟨none, 0⟩ = (.ok l', l.directory) ∧ l'.SameAs l ∧
      l.lastAppended = some 2 := by
  obtain ⟨l, hl⟩ := PacketLog.after_file [.append [.ofOrder 1 "a", .ofOrder 2 "b"], .deleteOldest 2]
    (.new "orders" ⟨none, 0⟩)
  have hlast : PacketLog.lastAppended (.file l) = some 2 := by
    rw [← hl]
    decide +kernel
  have hopen : PacketLog.isClosed (.file l) = false := by
    rw [← hl]
    decide +kernel
  have hreached := (reached_new "orders" ⟨none, 0⟩).after (by decide +kernel) hl
  obtain ⟨l', hok, hsame⟩ :=
    (reopened_same hreached hopen (by rw [PacketLog.nextKey, hlast]; decide) ⟨none, 0⟩).1
  exact ⟨l, l', hl, hok, hsame, hlast⟩

end GroupReplication.FileLog
