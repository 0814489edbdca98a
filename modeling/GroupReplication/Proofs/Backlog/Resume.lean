/-
Resuming: nothing that was logged behind a target's confirmed key is missing when the target goes on
from that key, even when the backlog was dropped in between and another one built over its log.
What the backlog answered without a key is not in the log. It does so only while nobody is
registered, and a target that resumes later is not told of it.
-/
import GroupReplication.Proofs.Backlog.Epoch

namespace GroupReplication

open Packet Log GroupReplication.Action

/-! ## Runs across restarts -/

/-- The backlog that is built over the directory of another one's log, once that one was dropped. A
log in memory leaves nothing to build over. -/
def Backlog.rebuilt (membership : Membership) (settings : BacklogSettings) (options : FileOptions)
    (b : Backlog) : Backlog :=
  match b.log with
  | .memory _ => b
  | .file l =>
    match (FileLog.openIn l.directory options).1 with
    | .ok l' => .ofLog membership settings (.file l')
    | .error _ => b

/-- What happens to a backlog: it is asked for something, or dropped and built again. -/
inductive BacklogEvent where
  | operate (op : Operation)
  | rebuild (membership : Membership) (settings : BacklogSettings) (options : FileOptions)

namespace Run

/-- A run goes on over restarts, with the same turns. -/
def undergo (r : Run) : BacklogEvent → Run
  | .operate op => r.step op
  | .rebuild membership settings options =>
    { r with backlog := r.backlog.rebuilt membership settings options }

def undergoAll (r : Run) (events : List BacklogEvent) : Run := events.foldl undergo r

end Run

/-- A restart leaves every logged packet and the next key as they were. -/
theorem Logged.rebuilt {b : Backlog} {history : List Packet} (h : Logged b history)
    (hkey : b.nextKey < 2 ^ 64) (membership : Membership) (settings : BacklogSettings)
    (options : FileOptions) :
    Logged (b.rebuilt membership settings options) history ∧
      (b.rebuilt membership settings options).nextKey = b.nextKey := by
  obtain ⟨ps, hholds, hkept⟩ := h.kept
  unfold Backlog.rebuilt
  cases hlog : b.log with
  | memory l => exact ⟨h, rfl⟩
  | file l =>
    have hnext := h.next
    rw [hlog] at hholds hnext
    have hlast : following l.lastAppended < 2 ^ 64 := by
      rw [hnext] at hkey
      exact hkey
    obtain ⟨l', hopened, hholds', hsame, -⟩ := FileLog.Holds.openIn hholds
        (Nat.lt_of_le_of_lt (Nat.sub_le _ _) hlast) options
    have hends := h.endsIn
    rw [hlog] at hends
    simp only [hopened]
    have hkeys : (PacketLog.file l').nextKey = (PacketLog.file l).nextKey := by
      show (l'.lastAppended.elim 1 (· + 1)) = _
      rw [hsame]
      rfl
    refine ⟨⟨⟨ps, hholds', hkept⟩, ?_, rfl⟩, hkeys.trans hnext.symm⟩
    show EndsIn l'.lastAppended history
    rw [hsame]
    exact hends

/-! ## What adds were answered -/

namespace Turn

/-- An add gets the next key, or none when nobody is registered. -/
def Answered (t : Turn) : Prop := ∀ answer, t.added? = some answer →
  answer = some t.before.nextKey ∨ answer = none ∧ t.before.channels = []

theorem answered {b : Backlog} {ps : List Packet} (hholds : b.log.Holds ps)
    (hkey : b.nextKey < 2 ^ 64) (op : Operation) : Answered ⟨b, op⟩ := by
  intro answer hanswer
  cases op with
  | add payload transient fromGateway =>
    simp only [added?] at hanswer
    rcases Backlog.addPayload_spec hholds hkey payload transient fromGateway with
      ⟨hnobody, hok⟩ | ⟨-, n, log, -, -, ⟨e, he⟩ | ⟨log', hok, -⟩⟩
    · rw [hok] at hanswer
      cases hanswer
      exact .inr ⟨rfl, hnobody⟩
    · rw [he] at hanswer
      cases hanswer
    · rw [hok] at hanswer
      cases hanswer
      exact .inl rfl
  | _ => cases hanswer

theorem mem_appended {t : Turn} {p : Packet} (h : t.appended? = some p) :
    ∀ {turns : List Turn}, t ∈ turns → p ∈ appended turns := by
  intro turns ht
  induction turns with
  | nil => cases ht
  | cons t' turns ih =>
    rw [appended, List.mem_append]
    rcases List.mem_cons.1 ht with rfl | hmem
    · exact .inr (by rw [h]; exact List.mem_singleton_self p)
    · exact .inl (ih hmem)

end Turn

namespace Run

/-- What a run over a log that held `kept` accounts for. -/
structure Accounts (kept : List Packet) (r : Run) : Prop where
  logged : Logged r.backlog (kept ++ Turn.appended r.turns)
  answered : ∀ t ∈ r.turns, t.Answered

variable {kept : List Packet} {r : Run}

theorem Accounts.step (h : r.Accounts kept) (hkey : r.backlog.nextKey < 2 ^ 64) (op : Operation) :
    (r.step op).Accounts kept := by
  obtain ⟨ps, hholds, hkept⟩ := h.logged.kept
  have hlogged := h.logged.after hholds hkept (Backlog.becomes_after hholds hkey op)
  refine ⟨?_, fun t ht => ?_⟩
  · rwa [historyAfter, List.append_assoc] at hlogged
  · rcases List.mem_cons.1 ht with rfl | hmem
    · exact Turn.answered hholds hkey op
    · exact h.answered t hmem

theorem Accounts.undergo (h : r.Accounts kept) (hkey : r.backlog.nextKey < 2 ^ 64) (event : BacklogEvent) :
    (r.undergo event).Accounts kept := by
  cases event with
  | operate op => exact h.step hkey op
  | rebuild membership settings options =>
    exact ⟨(h.logged.rebuilt hkey membership settings options).1, h.answered⟩

/-- Keys have to last for the whole run, as a log that runs out of them cannot be opened again. -/
theorem Accounts.undergoAll (h : r.Accounts kept) (events : List BacklogEvent)
    (hkeys : ∀ past, past <+: events → (r.undergoAll past).backlog.nextKey < 2 ^ 64) :
    (r.undergoAll events).Accounts kept := by
  induction events generalizing r with
  | nil => exact h
  | cons event events ih =>
    refine ih (h.undergo (hkeys [] List.nil_prefix) event) fun past hpast => ?_
    exact hkeys (event :: past) (List.cons_prefix_cons.2 ⟨rfl, hpast⟩)

/-- What every operation and every restart keeps holds after the run as well. -/
theorem Accounts.invariant (h : r.Accounts kept) {P : Backlog → Prop} (hstart : P r.backlog)
    (hoperate : ∀ {b : Backlog} {ps : List Packet} (op : Operation), b.log.Holds ps →
      b.nextKey < 2 ^ 64 → P b → P (op.after b))
    (hrebuild : ∀ {b : Backlog} (membership : Membership) (settings : BacklogSettings)
      (options : FileOptions), P b → P (b.rebuilt membership settings options))
    (events : List BacklogEvent)
    (hkeys : ∀ past, past <+: events → (r.undergoAll past).backlog.nextKey < 2 ^ 64) :
    P (r.undergoAll events).backlog := by
  induction events generalizing r with
  | nil => exact hstart
  | cons event events ih =>
    have hkey : r.backlog.nextKey < 2 ^ 64 := hkeys [] List.nil_prefix
    refine ih (h.undergo hkey event) ?_ fun past hpast =>
      hkeys (event :: past) (List.cons_prefix_cons.2 ⟨rfl, hpast⟩)
    cases event with
    | operate op =>
      obtain ⟨ps, hholds, -⟩ := h.logged.kept
      exact hoperate op hholds hkey hstart
    | rebuild membership settings options => exact hrebuild membership settings options hstart

theorem accounts_start {log : PacketLog} (membership : Membership) (settings : BacklogSettings)
    (hholds : log.Holds kept) : (Run.start (.ofLog membership settings log)).Accounts kept where
  logged := by
    refine ⟨⟨kept, hholds, ?_⟩, ?_, rfl⟩
    · exact (List.append_nil kept).symm ▸ List.suffix_refl kept
    · exact (List.append_nil kept).symm ▸ hholds.endsIn
  answered t ht := by cases ht

end Run

/-! ## Resuming -/

/-- A handshake that does not start over goes on right behind the confirmed key. -/
theorem negotiate_resumed {request : HandshakeRequest} {range : RetainedRange}
    {response : HandshakeResponse} (h : negotiate request range = .ok response)
    (hresumed : response.discardLocalState = false) :
    range.earliest ≤ request.lastConfirmed + 1 := by
  simp only [negotiate] at h
  split at h
  · cases h
    cases hresumed
  · split at h
    · cases h
    · split at h
      · cases h
      · split at h
        · cases h
        · exact Nat.le_of_not_lt ‹_›

/-- What was logged behind the confirmed key of a target that resumes is still in the log. -/
theorem Logged.resumed {b : Backlog} {history : List Packet} (h : Logged b history)
    {target : String} {request : HandshakeRequest} {response : HandshakeResponse}
    (hok : ((Backlog.handshake target request).perform b).1 = .ok response)
    (hresumed : response.discardLocalState = false) {p : Packet} (hp : p ∈ history)
    (hkey : request.lastConfirmed < p.key) : p ∈ b.log.packets := by
  obtain ⟨ps, hholds, hkept⟩ := h.kept
  rcases Backlog.handshake_spec hholds target request with
    ⟨e, he⟩ | ⟨agreed, c, hagreed, hopen, -, hanswer⟩
  · rw [he] at hok
    cases hok
  · rw [hanswer] at hok
    cases hok
    have hearliest : b.log.earliest ≤ request.lastConfirmed + 1 := by
      have hbehind := negotiate_resumed hagreed hresumed
      rwa [PacketLog.earliest, ← h.next]
    rw [hholds.earliest hopen, ← h.next] at hearliest
    have hlen := h.length_le
    have hpsle := hkept.length_le
    have hleft := owed_of_kept h.keyed hkept
      (show b.nextKey - history.length + history.length ≤ request.lastConfirmed + 1 + ps.length by omega)
    have howed : p ∈ owed history (request.lastConfirmed + 1) :=
      List.mem_filter.2 ⟨hp, decide_eq_true hkey⟩
    rw [hholds.packets hopen]
    rw [← hleft] at howed
    exact (List.dropWhile_suffix _).subset howed

/-- In any run, restarts included, over any log that came about by its own operations: if a target
resumes from a key, then every add since that key was issued either was answered a larger key and is
in the log with all that it was given, or was answered none, at a time when nobody was registered. -/
theorem Backlog.resume_keeps_logged {log : PacketLog} (hlog : log.Reachable)
    (membership : Membership) (settings : BacklogSettings) (events : List BacklogEvent) (target : String)
    (request : HandshakeRequest) {response : HandshakeResponse}
    (hkeys : ∀ past, past <+: events →
      ((Run.start (.ofLog membership settings log)).undergoAll past).backlog.nextKey < 2 ^ 64) :
    let r := (Run.start (.ofLog membership settings log)).undergoAll events
    ((Backlog.handshake target request).perform r.backlog).1 = .ok response →
    response.discardLocalState = false →
    ∀ t ∈ r.turns, request.lastConfirmed < t.before.nextKey →
      ∀ payload transient fromGateway, t.operation = .add payload transient fromGateway →
      ∀ answer, t.added? = some answer →
        (∃ p ∈ r.backlog.log.packets, answer = some p.key ∧ request.lastConfirmed < p.key ∧
          p.payload = payload ∧ p.transient = transient ∧ p.fromGateway = fromGateway) ∨
        answer = none ∧ t.before.channels = [] := by
  intro r hok hresumed t ht hissued payload transient fromGateway hop answer hanswer
  obtain ⟨kept, hholds, -⟩ := hlog.holds
  have haccounts : r.Accounts kept := (Run.accounts_start membership settings hholds).undergoAll
    events hkeys
  rcases haccounts.answered t ht answer hanswer with hkey | hnobody
  · have happended : t.appended? = some
        ⟨t.before.nextKey, payload.defaultWeight, transient, fromGateway, payload⟩ := by
      rw [Turn.appended?, hanswer, hop, hkey]
    have hmem := List.mem_append_right kept (Turn.mem_appended happended ht)
    exact .inl ⟨_, haccounts.logged.resumed hok hresumed hmem hissued, hkey, hissued, rfl, rfl, rfl⟩
  · exact .inr hnobody

/-- A backlog with one packet, whose only target left before the next one came. -/
def Backlog.deserted : Run :=
  (Backlog.ofLog (.openTo "orders") ⟨10, .reject, 10, 1000, 10⟩ (.memory (.empty "orders" none))).run
    [.handshake "backup" ⟨true, 0, none⟩,
      .add (.entry (.write ⟨"Order", "a", 1, [], none⟩)) false false, .detach "backup",
      .add (.entry (.write ⟨"Order", "b", 1, [], none⟩)) false false]

/-- An add while nobody is registered logs nothing, and the target that resumes from the key before
it is not told. -/
theorem Backlog.deserted_resumes :
    ((Backlog.handshake "backup" ⟨false, 1, none⟩).perform deserted.backlog).1
        = .ok ⟨2, false, none⟩ ∧
      ∃ t ∈ deserted.turns, 1 < t.before.nextKey ∧ t.added? = some none := by
  constructor
  · exact eq_ok_of_toOption (by decide +kernel)
  · exact ⟨deserted.turns.head (by decide +kernel), List.head_mem _, by decide +kernel,
      by decide +kernel⟩

/-- The log of a directory in which nothing stands yet. -/
def FileLog.created : FileLog :=
  ((FileLog.openIn ⟨"orders", true, none, none⟩ ⟨none, 1000⟩).1.toOption).get (by decide +kernel)

/-- What happened to a backlog over the log of a new directory: it was dropped and built again before
its target came back and two packets were logged. -/
def Backlog.restarted : List BacklogEvent :=
  [.operate (.handshake "backup" ⟨true, 0, none⟩),
    .rebuild (.openTo "orders") ⟨10, .reject, 10, 1000, 10⟩ ⟨none, 1000⟩,
    .operate (.handshake "backup" ⟨true, 0, none⟩),
    .operate (.add (.entry (.write ⟨"Order", "a", 1, [], none⟩)) false false),
    .operate (.add (.entry (.write ⟨"Order", "b", 1, [], none⟩)) true false)]

/-- The second packet is there for a target that resumes behind the first. -/
theorem Backlog.resume_keeps_logged_restarted :
    ∃ p ∈ ((Run.start (.ofLog (.openTo "orders") ⟨10, .reject, 10, 1000, 10⟩
      (.file .created))).undergoAll restarted).backlog.log.packets, 1 < p.key := by
  have hcreated : (PacketLog.file .created).Reachable :=
    .file (d := ⟨"orders", true, none, none⟩) rfl rfl
      (eq_ok_of_toOption (Option.some_get _).symm)
  have hshort : ∀ n, n < 6 → ((Run.start (.ofLog (.openTo "orders") ⟨10, .reject, 10, 1000, 10⟩
      (.file .created))).undergoAll (restarted.take n)).backlog.nextKey < 2 ^ 64 := by
    decide +kernel
  have hkeys : ∀ past, past <+: restarted →
      ((Run.start (.ofLog (.openTo "orders") ⟨10, .reject, 10, 1000, 10⟩
        (.file .created))).undergoAll past).backlog.nextKey < 2 ^ 64 := by
    intro past hpast
    rw [List.prefix_iff_eq_take.1 hpast]
    exact hshort past.length (Nat.lt_succ_of_le hpast.length_le)
  have haccounts := (Run.accounts_start (.openTo "orders") ⟨10, .reject, 10, 1000, 10⟩
    hcreated.holds.choose_spec.1).undergoAll restarted hkeys
  obtain ⟨c, -, hok⟩ := handshake_agreed
    haccounts.logged.kept.choose_spec.1
    (show Membership.allowsTarget _ "backup" = true by decide +kernel)
    (show negotiate ⟨false, 1, none⟩ _ = .ok ⟨2, false, none⟩ from eq_ok_of_toOption (by decide +kernel))
    (by decide +kernel)
    (fun c hc => .inl (by
      have hactive : ((((Run.start (.ofLog (.openTo "orders") ⟨10, .reject, 10, 1000, 10⟩
          (.file .created))).undergoAll restarted).backlog.channel? "backup").map (·.state))
          = some .active := by decide +kernel
      rw [hc] at hactive
      exact Option.some.inj hactive))
  rcases resume_keeps_logged hcreated (.openTo "orders") ⟨10, .reject, 10, 1000, 10⟩ restarted
    "backup" ⟨false, 1, none⟩ hkeys (congrArg Prod.fst hok) rfl _ (List.head_mem (by decide +kernel))
    (by decide +kernel) _ _ _ rfl (some 2) (by decide +kernel) with ⟨p, hp, -, hbehind, -⟩ | ⟨hnone, -⟩
  · exact ⟨p, hp, hbehind⟩
  · cases hnone

end GroupReplication
