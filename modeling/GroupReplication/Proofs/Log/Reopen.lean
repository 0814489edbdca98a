/-
A log that is opened in the directory of an earlier one holds the packets that the earlier one
held, and goes on behind the last key that was ever added.
-/
import GroupReplication.Proofs.Log.File

namespace GroupReplication

namespace Directory

/-- A key that does not fit the mark is cut off. -/
theorem readHead_marked {d : Directory} {key : Nat} (h : d.head = some (headMarker key)) :
    d.readHead = .ok (some (key % 2 ^ 64)) := by
  have hkept := ofLittleEndian_littleEndian_mod 8 key
  have hcrc := ofLittleEndian_littleEndian 4 (Checksum.crc32 (littleEndian 8 key)).toNat
    (by simpa using UInt32.toNat_lt _)
  have hlen := length_littleEndian 8 key
  have htake : (headMarker key).take 8 = littleEndian 8 key := by
    rw [headMarker, List.take_append_of_le_length (by omega), List.take_of_length_le (by omega)]
  have hdrop : (headMarker key).drop 8
      = littleEndian 4 (Checksum.crc32 (littleEndian 8 key)).toNat := by
    rw [headMarker, List.drop_append_of_le_length (by omega), List.drop_of_length_le (by omega),
      List.nil_append]
  simp only [readHead, h]
  rw [if_neg (by simp [headMarker]), htake, hdrop, hcrc, hkept, UInt32.ofNat_toNat,
    if_neg (by simp)]

theorem readHead_headMarker {d : Directory} {key : Nat} (h : d.head = some (headMarker key))
    (hkey : key < 2 ^ 64) : d.readHead = .ok (some key) := by
  rw [readHead_marked h, Nat.mod_eq_of_lt hkey]

/-- The key behind the last one that fits is marked as if it was 0. -/
theorem headMarker_over : headMarker (2 ^ 64) = headMarker 0 := by
  rw [headMarker, headMarker, show littleEndian 8 (2 ^ 64) = littleEndian 8 0 by decide]

end Directory

namespace FileLog

open Log Packet

theorem highest_keyedFrom (floor : Option Nat) {key : Nat} {ps : List Packet}
    (h : KeyedFrom key ps) (hfloor : ∀ k, floor = some k → k ≤ key) :
    highest floor (ps.map (·.key)) = (ps.getLast?.map (·.key)).or floor := by
  induction ps generalizing floor key with
  | nil => rfl
  | cons p ps ih =>
    obtain ⟨rfl, hps⟩ := h
    have htop : floor.elim p.key (max p.key) = p.key := by
      cases floor with
      | none => rfl
      | some k => exact Nat.max_eq_left (hfloor k rfl)
    have hrest := ih (some p.key) hps (by simp)
    rw [List.map_cons, highest, List.foldl_cons, htop]
    refine hrest.trans ?_
    cases ps with
    | nil => rfl
    | cons q ps => simp [List.getLast?_cons]

theorem highest_of_le {k : Nat} {keys : List Nat} (h : ∀ key ∈ keys, key ≤ k) :
    highest (some k) keys = some k := by
  induction keys with
  | nil => rfl
  | cons key keys ih =>
    rw [highest, List.foldl_cons]
    show highest (some (max key k)) keys = some k
    rw [Nat.max_eq_right (h key (by simp))]
    exact ih fun j hj => h j (by simp [hj])

theorem highest_append (floor : Option Nat) (keys more : List Nat) :
    highest floor (keys ++ more) = highest (highest floor keys) more := by
  rw [highest, highest, highest, List.foldl_append]

variable {d : Directory} {last : Option Nat} {dead ps : List Packet} {entries : List IndexEntry}
  {front back : Bytes}

/-- The mark tells where the live packets start, and also how far keys had come when none was
left. -/
theorem Kept.readHead (h : Kept d last dead ps entries front back)
    (hfits : firstOf last ps < 2 ^ 64) :
    ∃ mark, d.readHead = .ok mark ∧
      mark.getD 0 - (firstOf last ps - dead.length) = dead.length ∧
      highest (mark.bind fun k => if k = 0 then none else some (k - 1))
        (dead.map (·.key) ++ ps.map (·.key)) = last := by
  have hend := h.endsIn
  rcases h.marked with ⟨hhead, hdead, hnil⟩ | ⟨hhead, hpos, hsome⟩
  · have hhigh : highest none (dead.map (·.key) ++ ps.map (·.key)) = last := by
      rw [hdead, List.map_nil, List.nil_append]
      refine (highest_keyedFrom none hend.keyed (by simp)).trans ?_
      by_cases hne : ps = []
      · rw [hne, hnil hne]
        rfl
      · rw [hend.last_eq hne, Option.or_none]
    rcases hhead with hhead | hhead
    · exact ⟨none, by rw [Directory.readHead, hhead], by simp [hdead], hhigh⟩
    · exact ⟨some 0, Directory.readHead_headMarker hhead (by decide), by simp [hdead], hhigh⟩
  · refine ⟨_, Directory.readHead_headMarker hhead hfits, ?_, ?_⟩
    · have hlength := h.length_dead
      simp only [Option.getD_some]
      omega
    · have hbelow : highest (some (firstOf last ps - 1)) (dead.map (·.key))
          = some (firstOf last ps - 1) := highest_of_le fun key hkey => by
        obtain ⟨p, hp, rfl⟩ := List.mem_map.1 hkey
        have := h.behind p hp
        omega
      have hhigh := highest_keyedFrom (some (firstOf last ps - 1)) hend.keyed (by
        intro k hk
        cases hk
        exact Nat.sub_le _ _)
      rw [Option.bind_some, if_neg (by omega), highest_append, hbelow, hhigh]
      by_cases hne : ps = []
      · obtain ⟨k, rfl⟩ := Option.ne_none_iff_exists'.1 hsome
        subst hne
        simp [firstOf]
      · rw [hend.last_eq hne]
        obtain ⟨p, hp⟩ := Option.ne_none_iff_exists'.1 (mt List.getLast?_eq_none_iff.1 hne)
        rw [hp]
        rfl

/-- The entries of packets below the mark are passed over. -/
theorem LaidOut.filter_mark {offset mark key : Nat} {bs : Bytes}
    (h : LaidOut offset ps entries bs) (hkeyed : KeyedFrom key ps) :
    entries.filter (fun e => mark ≤ e.key) = entries.drop (mark - key) := by
  induction h generalizing key with
  | nil => simp
  | @cons offset p ps record bs entries _ _ _ ih =>
    obtain ⟨hp, hps⟩ := hkeyed
    have hrest := ih hps
    by_cases hmark : key < mark
    · rw [List.filter_cons_of_neg (by simp [hp]; omega), hrest,
        show mark - key = mark - (key + 1) + 1 by omega, List.drop_succ_cons]
    · rw [List.filter_cons_of_pos (by simp [hp]; omega), hrest,
        show mark - (key + 1) = 0 by omega, show mark - key = 0 by omega, List.drop_zero,
        List.drop_zero]

/-- A log that is made of a scan pictures what is live of it. -/
theorem pictures_recovered {options : FileOptions} {mark : Option Nat} {s : Record.Scan}
    (hindex : (recovered d options mark s).index = entries)
    (hlive : LaidOut front.length ps entries back) (hend : s.endOffset = (front ++ back).length) :
    Pictures (recovered d options mark s) entries front back := by
  refine ⟨by rw [hindex]; rfl, rfl, rfl, ?_, hend.trans List.length_append,
    by simp [recovered, announce], rfl⟩
  show ((recovered d options mark s).index.head?.map (·.offset)).getD s.endOffset = front.length
  rw [hindex, hend]
  by_cases hne : ps = []
  · rw [hne] at hlive
    obtain ⟨rfl, rfl⟩ := hlive.eq_nil
    rw [List.append_nil]
    rfl
  · rw [hlive.firstOffset hne]
    rfl

/-- Opening a directory whose data file starts with the records of consecutive packets, and ends
with them or with a torn one: the torn one is cut off, and the packets below the mark are passed
over. -/
theorem openIn_scanned {mark : Option Nat} {key : Nat} {qs : List Packet} {bs rest : Bytes}
    {torn : Bool} (hpresent : d.present = true) (hmark : d.readHead = .ok mark)
    (hdata : d.data = some (bs ++ rest)) (hlaid : LaidOut 0 qs entries bs)
    (hkeyed : KeyedFrom key qs) (hscan : Record.scan bs.length rest = .ok ⟨[], bs.length, torn⟩)
    (htorn : torn = false → rest = []) (options : FileOptions) :
    ∃ l front back, FileLog.openIn d options = (.ok l, { d with data := some bs }) ∧
      l.directory = { d with data := some bs } ∧ l.isClosed = false ∧
      l.lastAppended = highest (mark.bind fun k => if k = 0 then none else some (k - 1))
        (qs.map (·.key)) ∧
      bs = front ++ back ∧
      LaidOut 0 (qs.take (mark.getD 0 - key)) (entries.take (mark.getD 0 - key)) front ∧
      LaidOut front.length (qs.drop (mark.getD 0 - key)) (entries.drop (mark.getD 0 - key)) back ∧
      Pictures l (entries.drop (mark.getD 0 - key)) front back := by
  obtain ⟨records, hentries, hkeys, hall⟩ := hlaid.scan_append rest
  obtain ⟨front, back, rfl, hfront, hback⟩ := hlaid.split (mark.getD 0 - key)
  rw [Nat.zero_add] at hback
  let s : Record.Scan := ⟨records ++ [], (front ++ back).length, torn⟩
  have hs : Record.scan 0 (front ++ back ++ rest) = .ok s := by
    rw [hall, Nat.zero_add, hscan]
    rfl
  let d' : Directory := { d with data := some (front ++ back) }
  have hcut : (if s.torn then { d with data := some ((front ++ back ++ rest).take s.endOffset) }
      else d) = d' := by
    cases torn with
    | true => rw [if_pos rfl, List.take_left]
    | false =>
      rw [if_neg Bool.false_ne_true]
      rw [htorn rfl, List.append_nil] at hdata
      exact congrArg (fun data => { d with data }) hdata
  have hindex : (recovered d' options mark s).index = entries.drop (mark.getD 0 - key) := by
    show ((records ++ []).map IndexEntry.ofRecord).filter _ = _
    rw [List.append_nil, hentries]
    exact hlaid.filter_mark hkeyed
  have hpic := pictures_recovered hindex hback rfl
  have hcheck : checkSequence ((recovered d' options mark s).index.map (·.key))
      ((recovered d' options mark s).index.map (·.weight)) (recovered d' options mark s).announced
      = .ok () := by
    rw [hpic.announced, hpic.weight, hindex, hback.totalWeight_eq, hback.keys, hback.weights,
      hback.length]
    exact checkSequence_of_keyedFrom (hkeyed.drop _)
  refine ⟨recovered d' options mark s, front, back, ?_, rfl, rfl, ?_, rfl, hfront, hback, hpic⟩
  · rw [FileLog.openIn, Directory.make, if_pos hpresent]
    have hcreate : d.create = d := by
      rw [Directory.create, hdata]
      exact congrArg (fun data => { d with data }) hdata.symm
    simp only [hmark, hcreate, hdata, Option.getD_some, hs, hcut, hcheck]
    rfl
  · show highest _ ((records ++ []).map fun r : Record.Located => r.packet.key) = _
    rw [List.append_nil, hkeys]

/-- Opening a directory gives back what it keeps. -/
theorem Kept.openIn (h : Kept d last dead ps entries front back)
    (hfits : firstOf last ps < 2 ^ 64) (options : FileOptions) :
    ∃ l, openIn d options = (.ok l, d) ∧ l.Holds ps ∧ l.lastAppended = last ∧
      l.isClosed = false := by
  obtain ⟨mark, hmark, hcount, hhighest⟩ := h.readHead hfits
  obtain ⟨deadEntries, hdead⟩ := h.gone
  have hall := hdead.append (by rw [Nat.zero_add]; exact h.live)
  have hdata : d.data = some (front ++ back ++ []) := by
    rw [List.append_nil]
    exact h.data
  obtain ⟨l, front', back', hok, hdirectory, hopen, hlast, hbytes, hfront', hback', hpic⟩ :=
    openIn_scanned h.present hmark hdata hall h.keyed_all (Record.scan_nil _) (fun _ => rfl) options
  have hsame : { d with data := some (front ++ back) } = d :=
    congrArg (fun data => { d with data }) h.data.symm
  rw [hsame] at hok hdirectory
  rw [List.map_append, hhighest] at hlast
  rw [hcount, List.take_left] at hfront'
  have hentries : (deadEntries ++ entries).drop dead.length = entries := by
    rw [← hdead.length, List.drop_left]
  rw [hcount, hentries] at hback' hpic
  rw [List.drop_left] at hback'
  refine ⟨l, hok, ⟨dead, entries, front', back', ?_, hpic⟩, hlast, hopen⟩
  rw [hdirectory, hlast]
  exact { h with data := hbytes ▸ h.data, gone := ⟨_, hfront'⟩, live := hback' }

/-- When the key behind the last one does not fit the mark, nothing is marked any more, and the
packets that were trimmed but still stand in the data file are kept again. -/
theorem Kept.ranOver (h : Kept d last dead ps entries front back)
    (hover : 2 ^ 64 ≤ firstOf last ps) :
    ∃ last' entries', Kept d last' [] dead entries' [] front ∧ firstOf last' dead < 2 ^ 64 := by
  obtain ⟨hfirst, rfl⟩ : firstOf last ps = 2 ^ 64 ∧ ps = [] := by
    rw [firstOf] at hover ⊢
    cases last with
    | none =>
      rw [following_none] at hover
      omega
    | some k =>
      have hk := h.last_lt k rfl
      rw [following_some] at hover ⊢
      exact ⟨by omega, List.length_eq_zero_iff.1 (by omega)⟩
  have hunmarked : Unmarked d := by
    rcases h.marked with ⟨hunmarked, -⟩ | ⟨hhead, -⟩
    · exact hunmarked
    · rw [hfirst, Directory.headMarker_over] at hhead
      exact .inr hhead
  obtain ⟨deadEntries, hdead⟩ := h.gone
  have hkeyed := h.keyed_dead
  rw [hfirst] at hkeyed
  obtain ⟨hends, hstart⟩ := EndsIn.of_keyed hkeyed
  refine ⟨_, deadEntries, ⟨h.present, ?_, ⟨[], .nil⟩, hdead, hends, fun k hk => ?_, Nat.zero_le _,
    trivial, .inl ⟨hunmarked, rfl, fun hnil => by rw [hnil]; rfl⟩⟩, ?_⟩
  · rw [h.data, h.back_eq_nil, List.append_nil, List.nil_append]
  · obtain ⟨p, hp, rfl⟩ := Option.map_eq_some_iff.1 hk
    exact (hdead.fits p (List.mem_of_getLast? hp)).1
  · by_cases hne : dead = []
    · rw [hne]
      decide
    · have hpos := List.length_pos_iff.2 hne
      rw [firstOf, hstart hne]
      omega

/-- The directory of a log can be opened again, whether the log was closed or just dropped. -/
theorem Holds.openIn {l : FileLog} (h : l.Holds ps) (hfits : firstOf l.lastAppended ps < 2 ^ 64)
    (options : FileOptions) :
    ∃ l', FileLog.openIn l.directory options = (.ok l', l.directory) ∧ l'.Holds ps ∧
      l'.lastAppended = l.lastAppended ∧ l'.isClosed = false := by
  obtain ⟨_, _, _, _, hkept, -⟩ := h
  exact hkept.openIn hfits options

/-- However far its keys came, the directory of a log opens to a log that holds packets. -/
theorem Holds.openIn_any {l : FileLog} (h : l.Holds ps) (options : FileOptions) :
    ∃ l' qs, FileLog.openIn l.directory options = (.ok l', l.directory) ∧ l'.Holds qs := by
  by_cases hfits : firstOf l.lastAppended ps < 2 ^ 64
  · obtain ⟨l', hok, hholds, -⟩ := h.openIn hfits options
    exact ⟨l', ps, hok, hholds⟩
  · obtain ⟨dead, _, _, _, hkept, -⟩ := h
    obtain ⟨_, _, hagain, hfits⟩ := hkept.ranOver (Nat.le_of_not_lt hfits)
    obtain ⟨l', hok, hholds, -⟩ := hagain.openIn hfits options
    exact ⟨l', dead, hok, hholds⟩

/-- A directory without records and without a mark opens to an empty log. -/
theorem openIn_fresh {made : Directory} (hmake : d.make = .ok made) (hdata : d.data.getD [] = [])
    (hhead : d.head = none) (options : FileOptions) :
    ∃ l, (FileLog.openIn d options).1 = .ok l ∧ l.Holds [] ∧ l.lastAppended = none ∧
      l.isClosed = false := by
  have hmade : made = { d with present := true } := by
    rw [Directory.make] at hmake
    split at hmake
    · rename_i hpresent
      cases hmake
      rw [← hpresent]
    · split at hmake <;> cases hmake
      rfl
  subst hmade
  have hkept : Kept { d with present := true, data := some [] } none [] [] [] [] [] :=
    ⟨rfl, rfl, ⟨[], .nil⟩, .nil, EndsIn.nil none, by simp, Nat.zero_le _, trivial,
      .inl ⟨.inl hhead, rfl, fun _ => rfl⟩⟩
  obtain ⟨l, hopen, hholds⟩ := hkept.openIn (by decide) options
  refine ⟨l, ?_, hholds⟩
  have hread : ({ d with present := true } : Directory).readHead = .ok none := by
    simp only [Directory.readHead, hhead]
  have hreadEmpty : ({ d with present := true, data := some [] } : Directory).readHead
      = .ok none := by
    simp only [Directory.readHead, hhead]
  have hcreate : ({ d with present := true } : Directory).create
      = { d with present := true, data := some [] } := by
    simp only [Directory.create, hdata]
  have hempty : ({ d with present := true, data := some [] } : Directory).make
      = .ok { d with present := true, data := some [] } := rfl
  have hagain : ({ d with present := true, data := some [] } : Directory).create
      = { d with present := true, data := some [] } := rfl
  have hsame : FileLog.openIn d options
      = FileLog.openIn { d with present := true, data := some [] } options := by
    rw [FileLog.openIn, FileLog.openIn, hmake, hempty]
    simp only [hread, hreadEmpty, hcreate, hagain]
  rw [hsame, hopen]

theorem holds_openIn_fresh {l : FileLog} {options : FileOptions} (hdata : d.data.getD [] = [])
    (hhead : d.head = none) (hopened : (FileLog.openIn d options).1 = .ok l) :
    l.Holds [] ∧ l.lastAppended = none ∧ l.isClosed = false := by
  cases hmake : d.make with
  | error cause => simp [FileLog.openIn, hmake] at hopened
  | ok made =>
    obtain ⟨l', hopen, hholds⟩ := openIn_fresh hmake hdata hhead options
    rw [hopen] at hopened
    cases hopened
    exact hholds

end FileLog

end GroupReplication
