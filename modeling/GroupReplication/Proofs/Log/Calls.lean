/-
What can be asked of a log, call by call, and how a run of calls is answered.

Every operation of a log is one kind of call; all that a log says of itself without being read is
the answer to a single one, `look`. A run goes on when a call fails, as its caller may.
-/
import GroupReplication.Proofs.Log.Packets

namespace GroupReplication

/-- A packet that writes an order. -/
def Packet.ofOrder (key : Nat) (uid : String) : Packet :=
  ⟨key, 2, false, false, .entry (.write ⟨"Order", uid, 1, [7], none⟩)⟩

inductive LogCall where
  | append (added : List Packet)
  | removeFirst (count : Nat) (frontier : Option Nat)
  | deleteOldest (last : Nat)
  | compact (first last : Nat)
  | readFrom (start : Option Nat)
  | validate
  | close
  | look
  deriving Repr, DecidableEq

inductive LogAnswer where
  | done
  | packets (removed : List Packet)
  | count (removed : Nat)
  | compaction (report : Compaction)
  | reading (read : LogReading)
  | view (seen : LogView)
  deriving Repr, DecidableEq

namespace LogCall

/-- The packets that the call brings. -/
def added : LogCall → List Packet
  | .append added => added
  | _ => []

/-- The numbers of the packets that the call brings fit their fields. -/
def Fits (c : LogCall) : Prop := ∀ p ∈ c.added, p.Fits

instance (c : LogCall) : Decidable c.Fits := inferInstanceAs (Decidable (∀ p ∈ c.added, p.Fits))

/-- The packets that the call brings can be written as records. -/
def Encodable (c : LogCall) : Prop := c.Fits ∧ ∀ p ∈ c.added, (Record.encode p).isOk = true

instance (c : LogCall) : Decidable c.Encodable :=
  inferInstanceAs (Decidable (_ ∧ ∀ p ∈ c.added, (Record.encode p).isOk = true))

end LogCall

namespace PacketLog

open GroupReplication.Action

def answer : LogCall → Action PacketLog LogAnswer
  | .append added => (fun _ => .done) <$> append added
  | .removeFirst count frontier => .packets <$> removeFirst count frontier
  | .deleteOldest last => .count <$> deleteOldest last
  | .compact first last => .compaction <$> compact first last
  | .readFrom start => .reading <$> (get >>= fun l => decided (l.readFrom start))
  | .validate => (fun _ => .done) <$> validate
  | .close => (fun _ => .done) <$> close
  | .look => (fun l => .view l.view) <$> get

/-- What the calls are answered, one after the other. -/
def answers : List LogCall → PacketLog → List (Except Error LogAnswer)
  | [], _ => []
  | c :: calls, l => ((answer c).perform l).1 :: answers calls ((answer c).perform l).2

/-- The log that the calls leave behind. -/
def after : List LogCall → PacketLog → PacketLog
  | [], l => l
  | c :: calls, l => after calls ((answer c).perform l).2

/-- Only queries and a second closing get an answer from a closed log, and nothing changes it. -/
theorem answer_closed {l : PacketLog} (hclosed : l.isClosed = true) {c : LogCall}
    (hclose : c ≠ .close) :
    ((answer c).perform l).2 = l ∧
      ((answer c).perform l).1 = if c = .look then .ok (.view l.view)
        else .error (.storage (.closed l.name)) := by
  cases c with
  | append added => simp [answer, perform_map, append_closed hclosed, Except.map]
  | removeFirst count frontier =>
    simp [answer, perform_map, removeFirst_closed hclosed, Except.map]
  | deleteOldest last => simp [answer, perform_map, deleteOldest_closed hclosed, Except.map]
  | compact first last => simp [answer, perform_map, compact_closed hclosed, Except.map]
  | readFrom start => simp [answer, perform_map, readFrom_closed hclosed, Except.map]
  | validate => simp [answer, perform_map, validate_closed hclosed, Except.map]
  | close => exact absurd rfl hclose
  | look => simp [answer, perform_map, Except.map]

theorem answer_readFrom (l : PacketLog) (start : Option Nat) :
    (answer (.readFrom start)).perform l = ((l.readFrom start).map LogAnswer.reading, l) :=
  perform_map_of (perform_decided (l.readFrom start) l) _

/-- Whatever is called, the log holds packets afterwards. -/
theorem Holds.answer {l : PacketLog} {ps : List Packet} (h : l.Holds ps) {c : LogCall}
    (hc : c.Fits) : ∃ qs, ((answer c).perform l).2.Holds qs := by
  have hleft : ∀ {r : Except Error LogAnswer} {l' : PacketLog} {qs : List Packet},
      (PacketLog.answer c).perform l = (r, l') → l'.Holds qs →
      ∃ qs, ((PacketLog.answer c).perform l).2.Holds qs :=
    fun hl hqs => ⟨_, by rwa [hl]⟩
  by_cases hclose : c = .close
  · subst hclose
    obtain ⟨l', hok, hholds, -⟩ := h.close
    exact hleft (perform_map_of hok _) hholds
  cases hopen : l.isClosed with
  | true => exact ⟨ps, by rwa [(answer_closed hopen hclose).1]⟩
  | false =>
    cases c with
    | append added =>
      rcases h.append (show ∀ p ∈ added, p.Fits from hc) with ⟨e, he⟩ | ⟨-, -, l', hok, hholds, -⟩
      · exact hleft (perform_map_of he _) h
      · exact hleft (perform_map_of hok _) hholds
    | removeFirst count frontier =>
      obtain ⟨l', hok, hto⟩ := h.removeBelow hopen count frontier
      exact hleft (perform_map_of hok _) hto.holds
    | deleteOldest last =>
      obtain ⟨l', hok, hto⟩ := h.deleteOldest hopen last
      exact hleft (perform_map_of hok _) hto.holds
    | compact first last =>
      rcases h.compact hopen first last with ⟨e, -, he⟩ | ⟨-, l', hok, hto⟩
      · exact hleft (perform_map_of he _) h
      · exact hleft (perform_map_of hok _) hto.holds
    | readFrom start => exact hleft (answer_readFrom l start) h
    | validate => exact hleft (perform_map_of (h.validate hopen) _) h
    | close => exact absurd rfl hclose
    | look => exact hleft (perform_map_of (perform_get l) _) h

/-- A log in a directory stays one. -/
theorem after_file (calls : List LogCall) (l : FileLog) :
    ∃ l', after calls (.file l) = .file l' := by
  have hstep (c : LogCall) (l : FileLog) :
      ∃ l', ((PacketLog.answer c).perform (.file l)).2 = .file l' := by
    cases c with
    | readFrom start | look => exact ⟨l, by rw [PacketLog.answer, perform_map]; rfl⟩
    | append added | removeFirst count frontier | deleteOldest last | compact first last
      | validate | close => exact ⟨_, by rw [PacketLog.answer, perform_map]; rfl⟩
  induction calls generalizing l with
  | nil => exact ⟨l, rfl⟩
  | cons c calls ih =>
    obtain ⟨l', hl'⟩ := hstep c l
    obtain ⟨k, hk⟩ := ih l'
    exact ⟨k, by rw [after, hl', hk]⟩

/-- Nothing that is asked of a log in a directory after it was closed changes the directory. -/
theorem directory_after_close {l k : FileLog} {calls : List LogCall}
    (h : after (.close :: calls) (.file l) = .file k) : k.directory = l.directory := by
  have hclosed : ∀ {l : FileLog}, l.isClosed = true → after calls (.file l) = .file k →
      k.directory = l.directory := by
    clear h
    induction calls with
    | nil =>
      intro l _ h
      cases h
      rfl
    | cons c calls ih =>
      intro l hl h
      by_cases hc : c = .close
      · subst hc
        exact ih (l := (FileLog.close.perform l).2) rfl h
      · rw [after, (answer_closed (l := .file l) hl hc).1] at h
        exact ih hl h
  exact hclosed (l := (FileLog.close.perform l).2) rfl h

end PacketLog

end GroupReplication
