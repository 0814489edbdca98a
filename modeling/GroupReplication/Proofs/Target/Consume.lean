/-
How a target consumes the packets of a log. At any point it has applied the packets up to the key it
confirmed, and may hold back a bulk that begins right behind that key (`Received`). A statement
about the applied packets goes from key to key (`Progress`) and is then kept by all that a channel
does with packets, whatever order they come in and wherever one fails.
-/
import GroupReplication.Proofs.Log.Keys
import GroupReplication.Proofs.Target.Apply

namespace GroupReplication

open GroupReplication.Action

/-- What a channel has of a log: all up to the key that it confirmed, and the packets of one bulk
right behind that key. -/
inductive Received (log : Nat → Packet) (c : TargetChannel) : Prop where
  | all (bulk : c.bulk = none) (last : c.lastReceived = c.lastConfirmed)
  | holdingBack {id : UInt64} {more : Nat}
      (bulk : c.bulk = some ⟨id, (List.range' (c.lastConfirmed + 1) (more + 1)).map log⟩)
      (last : c.lastReceived = c.lastConfirmed + (more + 1))
      (ofBulk : ∀ key, c.lastConfirmed < key → key ≤ c.lastConfirmed + (more + 1) →
        (log key).bulk = some id)

theorem Received.congr {log : Nat → Packet} {c c' : TargetChannel} (h : Received log c)
    (hbulk : c'.bulk = c.bulk) (hlast : c'.lastReceived = c.lastReceived)
    (hconfirmed : c'.lastConfirmed = c.lastConfirmed) : Received log c' := by
  cases h with
  | all hnone hall => exact .all (hbulk.trans hnone) (by omega)
  | holdingBack hheld hall hofBulk =>
    exact .holdingBack (by rw [hbulk, hconfirmed]; exact hheld) (by omega)
      (by rw [hconfirmed]; exact hofBulk)

theorem Received.lastConfirmed_le {log : Nat → Packet} {c : TargetChannel} (h : Received log c) :
    c.lastConfirmed ≤ c.lastReceived := by
  cases h with
  | all _ hlast => omega
  | holdingBack _ hlast => omega

/-- Some effect cannot be settled. -/
def Applier.CanFail {ρ : Type} (A : Applier ρ) (settings : ConflictSettings) : Prop :=
  ∃ (effect : Effect) (transient : Bool) (r : ρ),
    (effect.settle A settings transient r).1.isSettled = false

/-- A statement about the work on all packets up to a key. Applying the next packet takes it one key
further, or leaves it where it is when an effect fails. When a packet of a bulk fails behind another one, the
statement still holds of the key before both. -/
structure Progress {ρ : Type} (A : Applier ρ) (settings : ConflictSettings) (log : Nat → Packet)
    (P : Nat → Work ρ → Prop) : Prop where
  next : ∀ {key w w'}, P key w → Applies A settings (log (key + 1)) w (.ok ()) w' → P (key + 1) w'
  broken : ∀ {key w e w'}, P key w → Applies A settings (log (key + 1)) w (.error e) w' → P key w'
  back : ∀ {key w before}, A.CanFail settings → (log (key + 1)).bulk.isSome = true →
    (log (key + 2)).bulk.isSome = true → P key before → P (key + 1) w → P key w

theorem Applies.canFail {ρ : Type} {A : Applier ρ} {settings : ConflictSettings} {p : Packet}
    {w w' : Work ρ} {e : Error} (h : Applies A settings p w (.error e) w') : A.CanFail settings := by
  cases h with
  | intro hcarried =>
    cases hcarried with
    | broken _ _ _ hcause =>
      obtain ⟨effect, r, hopen⟩ := hcause
      exact ⟨effect, p.transient, r, hopen⟩

/-- A packet that an active channel takes in or replays: it skips no key, and the next key is one of 64
bits. -/
structure TargetChannel.Takes (c : TargetChannel) (p : Packet) : Prop where
  active : c.state = .active
  reached : p.key ≤ c.lastReceived + 1
  numbered : c.lastReceived + 1 < 2 ^ 64

/-- What packets leave as it is in a channel, which confirms only more by them. -/
structure TargetChannel.Advances (c c' : TargetChannel) : Prop where
  group : c'.group = c.group
  source : c'.source = c.source
  settings : c'.settings = c.settings
  state : c'.state = c.state
  confirms : c.lastConfirmed ≤ c'.lastConfirmed

namespace TargetChannel.Advances

variable {c c' c'' : TargetChannel}

theorem refl (c : TargetChannel) : c.Advances c := ⟨rfl, rfl, rfl, rfl, Nat.le_refl _⟩

theorem trans (h : c.Advances c') (h' : c'.Advances c'') : c.Advances c'' :=
  ⟨h'.group.trans h.group, h'.source.trans h.source, h'.settings.trans h.settings,
    h'.state.trans h.state, Nat.le_trans h.confirms h'.confirms⟩

end TargetChannel.Advances

namespace TargetChannel

theorem confirmable_of_none {c : TargetChannel} (h : c.bulk = none) : c.confirmable = c.lastReceived := by
  rw [confirmable, h]
  rfl

/-- Nothing behind the key before a bulk can be confirmed. -/
theorem confirmable_of_some {c : TargetChannel} {id : UInt64} {p : Packet} {ps : List Packet}
    (h : c.bulk = some ⟨id, p :: ps⟩) : c.confirmable = p.key - 1 := by
  rw [confirmable, h]
  rfl

end TargetChannel

/-- A channel that lost its connection has what it confirmed. -/
theorem received_disconnected (log : Nat → Packet) (c : TargetChannel) :
    Received log c.disconnected := .all rfl rfl

namespace TargetChannel

/-- The channel after it took in the packet with this key, by applying it or by holding it back. -/
def tookIn (key : Nat) (c : TargetChannel) : TargetChannel :=
  { c with
    lastReceived := key
    confirmation := c.confirmation.advance { c with lastReceived := key }.confirmable }

variable {c : TargetChannel} {log : Nat → Packet} {id : UInt64}

/-- A packet that was applied is confirmed. -/
theorem tookIn_applied (log : Nat → Packet) (hbulk : c.bulk = none) (hlast : c.lastReceived = c.lastConfirmed) :
    Received log (c.tookIn (c.lastReceived + 1)) ∧
      (c.tookIn (c.lastReceived + 1)).lastConfirmed = c.lastReceived + 1 := by
  have hconfirmed : (c.tookIn (c.lastReceived + 1)).lastConfirmed = c.lastReceived + 1 := by
    show (c.confirmation.advance _).lastConfirmed = _
    rw [Confirmation.lastConfirmed_advance, confirmable_of_none (by exact hbulk)]
    have : c.confirmation.lastConfirmed = c.lastConfirmed := rfl
    show max _ (c.lastReceived + 1) = _
    omega
  exact ⟨.all hbulk hconfirmed.symm, hconfirmed⟩

/-- A packet that is held back does not let more be confirmed. -/
theorem lastConfirmed_tookIn_held {p : Packet} {ps : List Packet} {key : Nat}
    (hbulk : c.bulk = some ⟨id, p :: ps⟩) (hfirst : p.key = c.lastConfirmed + 1) :
    (c.tookIn key).lastConfirmed = c.lastConfirmed := by
  show (c.confirmation.advance _).lastConfirmed = _
  rw [Confirmation.lastConfirmed_advance, confirmable_of_some (by exact hbulk), hfirst]
  have : c.confirmation.lastConfirmed = c.lastConfirmed := rfl
  omega

/-- The first packet of a bulk opens it right behind the confirmed key. -/
theorem tookIn_opened (hlog : ∀ k, (log k).key = k) (hbulk : c.bulk = none)
    (hlast : c.lastReceived = c.lastConfirmed) (hid : (log (c.lastReceived + 1)).bulk = some id) :
    let c' := (c.holdBack id (log (c.lastReceived + 1))).tookIn (c.lastReceived + 1)
    Received log c' ∧ c'.lastConfirmed = c.lastConfirmed := by
  intro c'
  have hheld : c'.bulk = some ⟨id, [log (c.lastReceived + 1)]⟩ := by
    show some (Bulk.mk id (c.bulk.elim [] (·.packets) ++ _)) = _
    rw [hbulk]
    rfl
  have hconfirmed : c'.lastConfirmed = c.lastConfirmed :=
    lastConfirmed_tookIn_held (c := c.holdBack id (log (c.lastReceived + 1))) hheld
      (by rw [hlog, hlast]; rfl)
  refine ⟨@Received.holdingBack log c' id 0 ?_ ?_ ?_, hconfirmed⟩
  · rw [hheld, hconfirmed, hlast]
    rfl
  · rw [hconfirmed, ← hlast]
    rfl
  · intro key hlt hle
    rw [hconfirmed] at hlt hle
    rw [show key = c.lastReceived + 1 by omega]
    exact hid

/-- The next packet of a bulk is held back behind the others. -/
theorem tookIn_joined (hlog : ∀ k, (log k).key = k) {more : Nat}
    (hbulk : c.bulk = some ⟨id, (List.range' (c.lastConfirmed + 1) (more + 1)).map log⟩)
    (hlast : c.lastReceived = c.lastConfirmed + (more + 1))
    (hofBulk : ∀ key, c.lastConfirmed < key → key ≤ c.lastConfirmed + (more + 1) →
      (log key).bulk = some id)
    (hid : (log (c.lastReceived + 1)).bulk = some id) :
    let c' := (c.holdBack id (log (c.lastReceived + 1))).tookIn (c.lastReceived + 1)
    Received log c' ∧ c'.lastConfirmed = c.lastConfirmed := by
  intro c'
  have hheld : c'.bulk
      = some ⟨id, (List.range' (c.lastConfirmed + 1) (more + 1 + 1)).map log⟩ := by
    have hkeys : List.range' (c.lastConfirmed + 1) (more + 1 + 1)
        = List.range' (c.lastConfirmed + 1) (more + 1) ++ [c.lastReceived + 1] := by
      rw [List.range'_1_concat, hlast]
      congr 2
      omega
    show some (Bulk.mk id (c.bulk.elim [] (·.packets) ++ _)) = _
    rw [hbulk, hkeys, List.map_append]
    rfl
  have hconfirmed : c'.lastConfirmed = c.lastConfirmed := by
    have hfirst := hheld
    rw [List.range'_succ, List.map_cons] at hfirst
    exact lastConfirmed_tookIn_held (c := c.holdBack id (log (c.lastReceived + 1))) hfirst (hlog _)
  refine ⟨@Received.holdingBack log c' id (more + 1) ?_ ?_ ?_, hconfirmed⟩
  · rw [hheld, hconfirmed]
  · rw [hconfirmed]
    show c.lastReceived + 1 = _
    omega
  · intro key hlt hle
    rw [hconfirmed] at hlt hle
    by_cases hnew : key ≤ c.lastConfirmed + (more + 1)
    · exact hofBulk key hlt hnew
    · rw [show key = c.lastReceived + 1 by omega]
      exact hid

end TargetChannel

namespace Receiver

variable {ρ : Type} {A : Applier ρ} {log : Nat → Packet} {P : Nat → Work ρ → Prop}

/-- The receiver after it counted a packet. -/
def counted (r : Receiver ρ) : Receiver ρ :=
  { r with channel := { r.channel with stats.received := r.channel.stats.received + 1 } }

theorem perform_onChannel (f : TargetChannel → TargetChannel) (r : Receiver ρ) :
    (onChannel f).perform r = (.ok (), { r with channel := f r.channel }) := rfl

theorem perform_onChannel_bind {α : Type} (f : TargetChannel → TargetChannel)
    (act : Unit → Action (Receiver ρ) α) (r : Receiver ρ) :
    (onChannel f >>= act).perform r = (act ()).perform { r with channel := f r.channel } :=
  perform_bind_ok (perform_onChannel f r)

/-- Applying the packets of a bulk takes the statement to the last of them, or, when one fails,
leaves it at the key before the first. -/
theorem applyPackets_spec {settings : ConflictSettings} (hP : Progress A settings log P)
    (count : Nat) {key : Nat} {r : Receiver ρ} (hsettings : r.channel.settings = settings)
    (h : P key r.work)
    (hbulk : ∀ k, key < k → k ≤ key + count → (log k).bulk.isSome = true) :
    ∃ result stats w,
      (applyPackets A ((List.range' (key + 1) count).map log)).perform r
        = (result, r.withWork w stats) ∧
      (result = .ok () → P (key + count) w) ∧
      ∀ e, result = .error e → P key w ∧ A.CanFail settings ∧ 0 < count := by
  induction count generalizing key r with
  | zero => exact ⟨.ok (), r.channel.stats, r.work, rfl, fun _ => h, fun _ he => nomatch he⟩
  | succ count ih =>
    obtain ⟨result, stats, w, hfirst, happlies⟩ := applyPacket_spec A (log (key + 1)) r
    rw [hsettings] at happlies
    rw [List.range'_succ, List.map_cons, applyPackets]
    cases result with
    | error e =>
      exact ⟨.error e, stats, w, perform_bind_error hfirst, (fun he => nomatch he),
        fun _ _ => ⟨hP.broken h happlies, happlies.canFail, Nat.succ_pos _⟩⟩
    | ok u =>
      obtain ⟨result, stats', w', hrest, hok, herr⟩ := ih (r := r.withWork w stats) hsettings
        (hP.next h happlies) fun k hk hle => hbulk k (by omega) (by omega)
      refine ⟨result, stats', w', ?_, fun hres => ?_, fun e hres => ?_⟩
      · rw [perform_bind_ok hfirst, hrest]
        rfl
      · rw [show key + (count + 1) = key + 1 + count by omega]
        exact hok hres
      · obtain ⟨hbehind, hfail, hmore⟩ := herr e hres
        exact ⟨hP.back hfail (hbulk (key + 1) (by omega) (by omega))
          (hbulk (key + 2) (by omega) (by omega)) h hbehind, hfail, Nat.succ_pos _⟩

/-- Ending a bulk confirms all that was received, or nothing when a packet of it fails. -/
theorem flushBulk_spec {settings : ConflictSettings} (hP : Progress A settings log P)
    (hlog : ∀ k, (log k).key = k) {r : Receiver ρ} (hsettings : r.channel.settings = settings)
    (h : P r.channel.lastConfirmed r.work) (hreceived : Received log r.channel) :
    ∃ result r', (flushBulk A).perform r = (result, r') ∧ r.channel.Advances r'.channel ∧
      P r'.channel.lastConfirmed r'.work ∧
      (result = .ok () → r'.channel.bulk = none ∧ r'.channel.lastReceived = r.channel.lastReceived ∧
        r'.channel.lastConfirmed = r.channel.lastReceived) ∧
      ∀ e, result = .error e → A.CanFail settings := by
  cases hreceived with
  | all hbulk hlast =>
    refine ⟨.ok (), r, ?_, .refl _, h, fun _ => ⟨hbulk, rfl, hlast.symm⟩, fun _ he => by cases he⟩
    simp only [flushBulk, perform_get_bind, hbulk]
    rfl
  | @holdingBack id more hbulk hlast hofBulk =>
    let r₀ : Receiver ρ := { r with channel := { r.channel with bulk := none } }
    obtain ⟨result, stats, w, hall, hok, herr⟩ := applyPackets_spec hP (more + 1) (r := r₀)
      hsettings h fun k hk hle => by rw [hofBulk k hk hle]; rfl
    have hopened : (flushBulk A).perform r = ((applyPackets A
        ((List.range' (r.channel.lastConfirmed + 1) (more + 1)).map log) >>= fun _ =>
          ((List.range' (r.channel.lastConfirmed + 1) (more + 1)).map log).getLast?.elim (pure ())
            fun last => onChannel fun c =>
              { c with confirmation := c.confirmation.advance last.key }).perform r₀) := by
      simp only [flushBulk, perform_get_bind, hbulk, onChannel, perform_modify_bind]
      cases ((List.range' (r.channel.lastConfirmed + 1) (more + 1)).map log).getLast? <;> rfl
    rw [hopened]
    cases result with
    | error e =>
      obtain ⟨hbefore, hfail, -⟩ := herr e rfl
      exact ⟨.error e, r₀.withWork w stats, perform_bind_error hall,
        ⟨rfl, rfl, rfl, rfl, Nat.le_refl _⟩, hbefore, (by intro he; cases he),
        fun _ _ => hfail⟩
    | ok u =>
      have hlastHeld : ((List.range' (r.channel.lastConfirmed + 1) (more + 1)).map log).getLast?
          = some (log r.channel.lastReceived) := by
        rw [List.getLast?_map, List.getLast?_range', if_neg (Nat.add_one_ne_zero _), hlast,
          Option.map_some]
        congr 2
        omega
      have hadvanced : (r.channel.confirmation.advance r.channel.lastReceived).lastConfirmed
          = r.channel.lastReceived := by
        rw [Confirmation.lastConfirmed_advance]
        have : r.channel.confirmation.lastConfirmed = r.channel.lastConfirmed := rfl
        omega
      refine ⟨.ok (), { r₀.withWork w stats with channel := { (r₀.withWork w stats).channel with
        confirmation := r.channel.confirmation.advance r.channel.lastReceived } }, ?_, ?_, ?_,
        fun _ => ⟨rfl, rfl, hadvanced⟩, fun _ he => by cases he⟩
      · rw [perform_bind_ok hall, hlastHeld, Option.elim_some, hlog]
        rfl
      · refine ⟨rfl, rfl, rfl, rfl, ?_⟩
        show r.channel.lastConfirmed
          ≤ (r.channel.confirmation.advance r.channel.lastReceived).lastConfirmed
        omega
      · show P (r.channel.confirmation.advance r.channel.lastReceived).lastConfirmed w
        rw [hadvanced, hlast]
        exact hok rfl

/-- A packet of a bulk ends another bulk, and is held back. -/
theorem perform_receiveNext_bulk {p : Packet} {id : UInt64} (hid : p.bulk = some id)
    (r : Receiver ρ) :
    (receiveNext A p).perform r =
      ((if r.channel.bulk.any (·.id ≠ id) then flushBulk A else pure ()) >>= fun _ =>
        onChannel fun c => (c.holdBack id p).tookIn p.key).perform r.counted := by
  have htail : ∀ r : Receiver ρ, (onChannel (·.holdBack id p) >>= fun _ =>
      onChannel (fun c => { c with lastReceived := p.key }) >>= fun _ =>
      onChannel fun c => { c with confirmation := c.confirmation.advance c.confirmable }).perform r
      = (onChannel fun c => (c.holdBack id p).tookIn p.key).perform r := fun r => rfl
  simp only [receiveNext, hid, perform_onChannel_bind, perform_get_bind]
  split
  · simp only [perform_bind (flushBulk A), htail]
    rfl
  · rfl

/-- A packet outside any bulk ends the bulk before it, and is applied. -/
theorem perform_receiveNext_single {p : Packet} (hnone : p.bulk = none) (r : Receiver ρ) :
    (receiveNext A p).perform r =
      (flushBulk A >>= fun _ => applyPacket A p >>= fun _ =>
        onChannel (·.tookIn p.key)).perform r.counted := by
  have htail : ∀ r : Receiver ρ, (onChannel (fun c => { c with lastReceived := p.key }) >>= fun _ =>
      onChannel fun c => { c with confirmation := c.confirmation.advance c.confirmable }).perform r
      = (onChannel (·.tookIn p.key)).perform r := fun r => rfl
  simp only [receiveNext, hnone, perform_onChannel_bind, perform_bind (flushBulk A),
    perform_bind (applyPacket A p), htail]
  rfl

/-- What the packet that comes next makes of a receiver: it is received, or it or the bulk that it
ends cannot be applied. -/
structure ReceivesNext (A : Applier ρ) (settings : ConflictSettings) (log : Nat → Packet)
    (P : Nat → Work ρ → Prop) (r : Receiver ρ) (result : Except Error Unit) (r' : Receiver ρ) :
    Prop where
  advances : r.channel.Advances r'.channel
  tells : P r'.channel.lastConfirmed r'.work
  received : result = .ok () → Received log r'.channel ∧
    r'.channel.lastReceived = r.channel.lastReceived + 1
  canFail : ∀ e, result = .error e → A.CanFail settings

/-- A packet outside any bulk is applied behind the bulk that it ends. -/
theorem receiveNext_single_spec {settings : ConflictSettings} (hP : Progress A settings log P)
    (hlog : ∀ k, (log k).key = k) {r : Receiver ρ} (hsettings : r.channel.settings = settings)
    (h : P r.channel.lastConfirmed r.work) (hreceived : Received log r.channel)
    (hid : (log (r.channel.lastReceived + 1)).bulk = none) :
    ∃ result r', (receiveNext A (log (r.channel.lastReceived + 1))).perform r = (result, r') ∧
      ReceivesNext A settings log P r result r' := by
  obtain ⟨flushed, r₁, hflush, hadvances, htells, hdone, hfailed⟩ :=
    flushBulk_spec hP hlog (r := r.counted) hsettings h (hreceived.congr rfl rfl rfl)
  have hfrom : r.channel.Advances r₁.channel :=
    (⟨rfl, rfl, rfl, rfl, Nat.le_refl _⟩ : r.channel.Advances r.counted.channel).trans hadvances
  rw [perform_receiveNext_single hid]
  cases flushed with
  | error e =>
    exact ⟨.error e, r₁, perform_bind_error hflush, hfrom, htells, fun he => (nomatch he), hfailed⟩
  | ok u =>
    obtain ⟨hbulk, hlast, hconfirmed⟩ := hdone rfl
    obtain ⟨result, stats, w, happly, happlies⟩ :=
      applyPacket_spec A (log (r.channel.lastReceived + 1)) r₁
    have hkey : log (r.channel.lastReceived + 1) = log (r₁.channel.lastConfirmed + 1) := by
      rw [hconfirmed]
      rfl
    rw [hkey, hadvances.settings.trans hsettings] at happlies
    rw [perform_bind_ok hflush]
    cases result with
    | error e =>
      exact ⟨.error e, r₁.withWork w stats, perform_bind_error happly,
        hfrom.trans ⟨rfl, rfl, rfl, rfl, Nat.le_refl _⟩, hP.broken htells happlies,
        fun he => (nomatch he), fun _ _ => happlies.canFail⟩
    | ok v =>
      have hsame : r₁.channel.lastReceived = r₁.channel.lastConfirmed := hlast.trans hconfirmed.symm
      obtain ⟨htook, hthen⟩ := TargetChannel.tookIn_applied log
        (c := (r₁.withWork w stats).channel) hbulk hsame
      have hreach : r.channel.lastReceived + 1 = r₁.channel.lastReceived + 1 := by
        rw [hlast]
        rfl
      let r₂ := r₁.withWork w stats
      let c := r₂.channel.tookIn (r₁.channel.lastReceived + 1)
      refine ⟨.ok (), { r₂ with channel := c }, ?_, ?_, ?_,
        fun _ => ⟨htook, hreach.symm⟩, fun _ he => nomatch he⟩
      · rw [perform_bind_ok happly, perform_onChannel, hlog, hreach]
      · refine hfrom.trans ⟨rfl, rfl, rfl, rfl, ?_⟩
        show r₁.channel.lastConfirmed ≤ c.lastConfirmed
        have hle : r₁.channel.lastConfirmed ≤ r₁.channel.lastReceived + 1 := by omega
        exact Nat.le_trans hle (Nat.le_of_eq hthen.symm)
      · show P c.lastConfirmed w
        have hnext := hP.next htells happlies
        rw [← hsame] at hnext
        exact (congrArg (P · w) hthen).mpr hnext

/-- A packet of a bulk is held back, behind the others of its bulk or alone behind another bulk that
it ends. -/
theorem receiveNext_bulk_spec {settings : ConflictSettings} (hP : Progress A settings log P)
    (hlog : ∀ k, (log k).key = k) {r : Receiver ρ} (hsettings : r.channel.settings = settings)
    (h : P r.channel.lastConfirmed r.work) (hreceived : Received log r.channel) {id : UInt64}
    (hid : (log (r.channel.lastReceived + 1)).bulk = some id) :
    ∃ result r', (receiveNext A (log (r.channel.lastReceived + 1))).perform r = (result, r') ∧
      ReceivesNext A settings log P r result r' := by
  have hcounted : Received log r.counted.channel := hreceived.congr rfl rfl rfl
  rw [perform_receiveNext_bulk hid, hlog]
  by_cases hother : r.channel.bulk.any (·.id ≠ id) = true
  · rw [if_pos hother]
    obtain ⟨flushed, r₁, hflush, hadvances, htells, hdone, hfailed⟩ :=
      flushBulk_spec hP hlog (r := r.counted) hsettings h hcounted
    have hfrom : r.channel.Advances r₁.channel :=
      (⟨rfl, rfl, rfl, rfl, Nat.le_refl _⟩ : r.channel.Advances r.counted.channel).trans hadvances
    cases flushed with
    | error e =>
      exact ⟨.error e, r₁, perform_bind_error hflush, hfrom, htells, fun he => (nomatch he), hfailed⟩
    | ok u =>
      obtain ⟨hbulk, hlast, hconfirmed⟩ := hdone rfl
      have hreach : r.channel.lastReceived = r₁.channel.lastReceived := hlast.symm
      rw [hreach] at hid ⊢
      obtain ⟨htook, hthen⟩ := TargetChannel.tookIn_opened hlog hbulk
        (hlast.trans hconfirmed.symm) hid
      refine ⟨.ok (), _, (perform_bind_ok hflush).trans (perform_onChannel _ _), ?_, ?_,
        fun _ => ⟨htook, by rw [hreach]; rfl⟩, fun _ he => nomatch he⟩
      · exact hfrom.trans ⟨rfl, rfl, rfl, rfl, Nat.le_of_eq hthen.symm⟩
      · exact (congrArg (P · r₁.work) hthen).mpr htells
  · rw [if_neg hother]
    have hheld : Received log
        ((r.counted.channel.holdBack id (log (r.channel.lastReceived + 1))).tookIn
          (r.channel.lastReceived + 1)) ∧
        ((r.counted.channel.holdBack id (log (r.channel.lastReceived + 1))).tookIn
          (r.channel.lastReceived + 1)).lastConfirmed = r.channel.lastConfirmed := by
      cases hcounted with
      | all hbulk hlast => exact TargetChannel.tookIn_opened hlog hbulk hlast hid
      | @holdingBack id' more hbulk hlast hofBulk =>
        have hsame : id' = id := by
          have hbulk' : r.channel.bulk = _ := hbulk
          simpa [hbulk'] using hother
        subst hsame
        exact TargetChannel.tookIn_joined hlog hbulk hlast hofBulk hid
    refine ⟨.ok (), _, (perform_bind_ok rfl).trans (perform_onChannel _ _), ?_, ?_,
      fun _ => ⟨hheld.1, rfl⟩, fun _ he => nomatch he⟩
    · exact ⟨rfl, rfl, rfl, rfl, Nat.le_of_eq hheld.2.symm⟩
    · exact (congrArg (P · r.work) hheld.2).mpr h

/-- The packet that comes next is applied, or held back with its bulk. -/
theorem receiveNext_spec {settings : ConflictSettings} (hP : Progress A settings log P)
    (hlog : ∀ k, (log k).key = k) {r : Receiver ρ} (hsettings : r.channel.settings = settings)
    (h : P r.channel.lastConfirmed r.work) (hreceived : Received log r.channel) :
    ∃ result r', (receiveNext A (log (r.channel.lastReceived + 1))).perform r = (result, r') ∧
      ReceivesNext A settings log P r result r' := by
  cases hid : (log (r.channel.lastReceived + 1)).bulk with
  | none => exact receiveNext_single_spec hP hlog hsettings h hreceived hid
  | some id => exact receiveNext_bulk_spec hP hlog hsettings h hreceived hid

/-- The receiver after it counted a packet that comes again. -/
def countedAgain (r : Receiver ρ) : Receiver ρ :=
  { r with channel := { r.channel with stats.replayed := r.channel.stats.replayed + 1 } }

/-- A packet that comes again is counted. What is done with it depends on the keys. -/
theorem perform_replay_counted (A : Applier ρ) (p : Packet) (r : Receiver ρ) :
    (replay A p).perform r = (if !(r.channel.bulk.bind (·.firstKey)).any (· ≤ p.key) &&
      !(p.payload.isPhase && decide (p.key ≤ r.channel.lastConfirmed)) then applyPacket A p
      else pure ()).perform r.countedAgain := by
  simp only [replay, perform_onChannel_bind, perform_get_bind]
  cases p.payload <;> rfl

/-- A packet that comes again is applied again, unless it is held back or a phase of a transaction. -/
theorem perform_replay (hlog : ∀ k, (log k).key = k) {p : Packet} {r : Receiver ρ}
    (hreceived : Received log r.channel) (hkey : p.key ≤ r.channel.lastReceived) :
    (replay A p).perform r = (if p.key ≤ r.channel.lastConfirmed ∧ p.payload.isPhase = false then
      applyPacket A p else pure ()).perform r.countedAgain := by
  have hheld : (r.channel.bulk.bind (·.firstKey)).any (· ≤ p.key)
      = decide (r.channel.lastConfirmed < p.key) := by
    cases hreceived with
    | all hbulk hlast =>
      rw [hbulk]
      exact (decide_eq_false (by omega)).symm
    | holdingBack hbulk _ _ =>
      rw [hbulk, List.range'_succ]
      simp only [List.map_cons, Option.bind_some, Bulk.firstKey, List.head?_cons, Option.map_some,
        Option.any_some, hlog, Nat.succ_le_iff]
  rw [perform_replay_counted, hheld]
  congr 2
  cases hphase : p.payload.isPhase <;> simp

theorem replay_spec {settings : ConflictSettings} {p : Packet}
    (hagain : ∀ {key w result w'}, p.key ≤ key → p.payload.isPhase = false → P key w →
      Applies A settings p w result w' → P key w')
    (hlog : ∀ k, (log k).key = k) {r : Receiver ρ} (hsettings : r.channel.settings = settings)
    (h : P r.channel.lastConfirmed r.work) (hreceived : Received log r.channel)
    (hkey : p.key ≤ r.channel.lastReceived) :
    ∃ result r', (replay A p).perform r = (result, r') ∧ r.channel.Advances r'.channel ∧
      P r'.channel.lastConfirmed r'.work ∧ Received log r'.channel := by
  rw [perform_replay hlog hreceived hkey]
  have hcounted : r.channel.Advances r.countedAgain.channel := ⟨rfl, rfl, rfl, rfl, Nat.le_refl _⟩
  split
  · rename_i happlied
    obtain ⟨result, stats, w, happly, happlies⟩ := applyPacket_spec A p r.countedAgain
    rw [show r.countedAgain.channel.settings = settings from hsettings] at happlies
    exact ⟨result, _, happly, hcounted.trans ⟨rfl, rfl, rfl, rfl, Nat.le_refl _⟩,
      hagain happlied.1 happlied.2 h happlies, hreceived.congr rfl rfl rfl⟩
  · exact ⟨.ok (), r.countedAgain, rfl, hcounted, h, hreceived.congr rfl rfl rfl⟩

theorem perform_consume (A : Applier ρ) (p : Packet) (r : Receiver ρ) :
    (consume A p).perform r =
      if r.channel.state ≠ .active then
        (.error (.channel (.packetOutOfPlace r.channel.group p.key r.channel.state)), r)
      else if r.channel.lastReceived + 1 < p.key then
        (.error (.channel (.gap r.channel.group (r.channel.lastReceived + 1) p.key)), r)
      else if 2 ^ 64 ≤ r.channel.lastReceived + 1 then (.error (.channel .keyOverflow), r)
      else match (if p.key < r.channel.lastReceived + 1 then replay A p else receiveNext A p).perform r with
        | (.ok _, r) => (.ok r.channel.lastConfirmed, r)
        | (.error e, r) => (.error e, r) := by
  simp only [consume, perform_get_bind]
  split
  · rfl
  · split
    · rfl
    · split
      · rfl
      · split
        · rw [perform_bind]
          rcases (replay A p).perform r with ⟨_ | _, _⟩ <;> rfl
        · rw [perform_bind]
          rcases (receiveNext A p).perform r with ⟨_ | _, _⟩ <;> rfl

theorem perform_consume_of_takes {r : Receiver ρ} {p : Packet} (h : r.channel.Takes p) :
    (consume A p).perform r =
      match (if p.key < r.channel.lastReceived + 1 then replay A p else receiveNext A p).perform r with
        | (.ok _, r) => (.ok r.channel.lastConfirmed, r)
        | (.error e, r) => (.error e, r) := by
  rw [perform_consume, if_neg (not_not_intro h.active), if_neg (Nat.not_lt.2 h.reached),
    if_neg (Nat.not_le.2 h.numbered)]

/-- A packet that it does not take is refused, and nothing changes. -/
theorem perform_consume_refused {r : Receiver ρ} {p : Packet} (h : ¬ r.channel.Takes p) :
    ∃ e, (consume A p).perform r = (.error e, r) := by
  rw [perform_consume]
  by_cases hactive : r.channel.state = .active
  · rw [if_neg (not_not_intro hactive)]
    by_cases hreached : p.key ≤ r.channel.lastReceived + 1
    · rw [if_neg (Nat.not_lt.2 hreached),
        if_pos (Nat.not_lt.1 fun hnumbered => h ⟨hactive, hreached, hnumbered⟩)]
      exact ⟨_, rfl⟩
    · rw [if_pos (Nat.lt_of_not_le hreached)]
      exact ⟨_, rfl⟩
  · rw [if_pos hactive]
    exact ⟨_, rfl⟩

/-- What a channel answers to a packet, wherever in the log that comes from: when it acknowledges a
key, that is the key up to which the statement holds. -/
theorem consume_spec {settings : ConflictSettings} (hP : Progress A settings log P)
    (hlog : ∀ k, (log k).key = k) {p : Packet} (hp : p = log p.key)
    (hagain : ∀ {key w result w'}, p.key ≤ key → p.payload.isPhase = false → P key w →
      Applies A settings p w result w' → P key w')
    {r : Receiver ρ} (hsettings : r.channel.settings = settings)
    (h : P r.channel.lastConfirmed r.work) (hreceived : Received log r.channel) :
    ∃ result r', (consume A p).perform r = (result, r') ∧ r.channel.Advances r'.channel ∧
      P r'.channel.lastConfirmed r'.work ∧
      ∀ key, result = .ok key → Received log r'.channel ∧ key = r'.channel.lastConfirmed := by
  by_cases htakes : r.channel.Takes p
  · obtain ⟨result, r', hdone, hadvances, htells, hthen⟩ : ∃ result r',
        (if p.key < r.channel.lastReceived + 1 then replay A p else receiveNext A p).perform r
          = (result, r') ∧ r.channel.Advances r'.channel ∧ P r'.channel.lastConfirmed r'.work ∧
        (result = .ok () → Received log r'.channel) := by
      have hreached := htakes.reached
      split
      · obtain ⟨result, r', hdone, hadvances, htells, hthen⟩ :=
          replay_spec hagain hlog hsettings h hreceived (by omega)
        exact ⟨result, r', hdone, hadvances, htells, fun _ => hthen⟩
      · obtain ⟨result, r', hdone, hadvances, htells, hthen, -⟩ :=
          receiveNext_spec hP hlog hsettings h hreceived
        rw [show r.channel.lastReceived + 1 = p.key by omega, ← hp] at hdone
        exact ⟨result, r', hdone, hadvances, htells, fun hok => (hthen hok).1⟩
    rw [perform_consume_of_takes htakes, hdone]
    cases result with
    | error e => exact ⟨_, r', rfl, hadvances, htells, fun _ he => nomatch he⟩
    | ok u =>
      refine ⟨_, r', rfl, hadvances, htells, fun key hkey => ⟨hthen rfl, ?_⟩⟩
      cases hkey
      rfl
  · obtain ⟨e, he⟩ := perform_consume_refused (A := A) htakes
    exact ⟨_, r, he, .refl _, h, fun _ he => nomatch he⟩

theorem perform_consumeBatch_cons (A : Applier ρ) (p : Packet) (ps : List Packet) (r : Receiver ρ) :
    (consumeBatch A (p :: ps)).perform r =
      match (consume A p).perform r with
      | (.ok _, r) => (consumeBatch A ps).perform r
      | (.error e, r) => (.error e, r) := by
  rw [consumeBatch, perform_bind, perform_discard]
  rcases (consume A p).perform r with ⟨_ | _, _⟩ <;> rfl

/-- A single packet is a batch of one. -/
theorem perform_consumeBatch_singleton (A : Applier ρ) (p : Packet) (r : Receiver ρ) :
    (consumeBatch A [p]).perform r = (consume A p).perform r := by
  have hanswer : ∀ {key r'}, (consume A p).perform r = (.ok key, r') →
      key = r'.channel.lastConfirmed := by
    intro key r' h
    by_cases htakes : r.channel.Takes p
    · rw [perform_consume_of_takes htakes] at h
      split at h
      · cases h
        rfl
      · cases h
    · obtain ⟨e, he⟩ := perform_consume_refused (A := A) htakes
      rw [he] at h
      cases h
  rw [perform_consumeBatch_cons]
  rcases hdone : (consume A p).perform r with ⟨e | key, r'⟩
  · rfl
  · rw [hanswer hdone]
    rfl

/-- A batch is acknowledged when all its packets were consumed. -/
theorem consumeBatch_spec {settings : ConflictSettings} (hP : Progress A settings log P)
    (hlog : ∀ k, (log k).key = k) {ps : List Packet} (hps : ∀ p ∈ ps, p = log p.key)
    (hagain : ∀ {p key w result w'}, p ∈ ps → p.key ≤ key → p.payload.isPhase = false → P key w →
      Applies A settings p w result w' → P key w')
    {r : Receiver ρ} (hsettings : r.channel.settings = settings)
    (h : P r.channel.lastConfirmed r.work) (hreceived : Received log r.channel) :
    ∃ result r', (consumeBatch A ps).perform r = (result, r') ∧ r.channel.Advances r'.channel ∧
      P r'.channel.lastConfirmed r'.work ∧
      ∀ key, result = .ok key → Received log r'.channel ∧ key = r'.channel.lastConfirmed := by
  induction ps generalizing r with
  | nil =>
    refine ⟨.ok r.channel.lastConfirmed, r, rfl, .refl _, h, fun key hkey => ⟨hreceived, ?_⟩⟩
    cases hkey
    rfl
  | cons p ps ih =>
    obtain ⟨result, r', hfirst, hadvances, htells, hthen⟩ := consume_spec hP hlog
      (hps p (List.mem_cons_self ..)) (hagain (List.mem_cons_self ..)) hsettings h hreceived
    rw [perform_consumeBatch_cons, hfirst]
    cases result with
    | error e => exact ⟨.error e, r', rfl, hadvances, htells, fun _ he => nomatch he⟩
    | ok key =>
      obtain ⟨result, r'', hrest, hadvances', htells', hthen'⟩ := ih
        (fun q hq => hps q (List.mem_cons_of_mem _ hq))
        (fun hq => hagain (List.mem_cons_of_mem _ hq)) (hadvances.settings.trans hsettings) htells
        (hthen key rfl).1
      exact ⟨result, r'', hrest, hadvances.trans hadvances', htells', hthen'⟩

/-! ## The next packets of the log -/

/-- When no effect can fail, the packet that comes next is taken in. -/
theorem consume_next {settings : ConflictSettings} (hP : Progress A settings log P)
    (hfail : ¬ A.CanFail settings) (hlog : ∀ k, (log k).key = k) {p : Packet} (hp : p = log p.key)
    {r : Receiver ρ} (hsettings : r.channel.settings = settings)
    (h : P r.channel.lastConfirmed r.work) (hreceived : Received log r.channel)
    (hactive : r.channel.state = .active) (hkey : p.key = r.channel.lastReceived + 1)
    (hnumbered : p.key < 2 ^ 64) :
    ∃ r', (consume A p).perform r = (.ok r'.channel.lastConfirmed, r') ∧
      r.channel.Advances r'.channel ∧ P r'.channel.lastConfirmed r'.work ∧
      Received log r'.channel ∧ r'.channel.lastReceived = p.key := by
  obtain ⟨result, r', hdone, hadvances, htells, hok, herror⟩ :=
    receiveNext_spec hP hlog hsettings h hreceived
  rw [← hkey, ← hp] at hdone
  cases result with
  | error e => exact absurd (herror e rfl) hfail
  | ok u =>
    obtain ⟨htook, hlast⟩ := hok rfl
    refine ⟨r', ?_, hadvances, htells, htook, hlast.trans hkey.symm⟩
    rw [perform_consume_of_takes ⟨hactive, Nat.le_of_eq hkey, hkey ▸ hnumbered⟩, if_neg (by omega),
      hdone]

/-- A batch that begins with the packet that comes next is taken in as a whole. -/
theorem consumeBatch_next {settings : ConflictSettings} (hP : Progress A settings log P)
    (hfail : ¬ A.CanFail settings) (hlog : ∀ k, (log k).key = k) {ps : List Packet}
    (hps : ∀ p ∈ ps, p = log p.key) {r : Receiver ρ} (hsettings : r.channel.settings = settings)
    (h : P r.channel.lastConfirmed r.work) (hreceived : Received log r.channel)
    (hactive : r.channel.state = .active)
    (hkeyed : Packet.KeyedFrom (r.channel.lastReceived + 1) ps)
    (hnumbered : r.channel.lastReceived + ps.length < 2 ^ 64) :
    ∃ r', (consumeBatch A ps).perform r = (.ok r'.channel.lastConfirmed, r') ∧
      r.channel.Advances r'.channel ∧ P r'.channel.lastConfirmed r'.work ∧
      Received log r'.channel ∧
      r'.channel.lastReceived = r.channel.lastReceived + ps.length := by
  induction ps generalizing r with
  | nil => exact ⟨r, rfl, .refl _, h, hreceived, rfl⟩
  | cons p ps ih =>
    rw [List.length_cons] at hnumbered
    obtain ⟨r₁, hfirst, hadvances, htells, htook, hlast⟩ := consume_next hP hfail hlog
      (hps p (List.mem_cons_self ..)) hsettings h hreceived hactive hkeyed.1
      (by rw [hkeyed.1]; omega)
    obtain ⟨r', hrest, hadvances', htells', htook', hlast'⟩ := ih (r := r₁)
      (fun q hq => hps q (List.mem_cons_of_mem _ hq)) (hadvances.settings.trans hsettings) htells
      htook (hadvances.state.trans hactive) (by rw [hlast, hkeyed.1]; exact hkeyed.2)
      (by rw [hlast, hkeyed.1]; omega)
    refine ⟨r', ?_, hadvances.trans hadvances', htells', htook', ?_⟩
    · rw [perform_consumeBatch_cons, hfirst]
      exact hrest
    · rw [hlast', hlast, hkeyed.1, List.length_cons]
      omega

/-- A batch is refused with its first packet, and nothing changes. -/
theorem consumeBatch_refused {p : Packet} (ps : List Packet) {r : Receiver ρ}
    (hrefused : ¬ r.channel.Takes p) :
    ∃ e, (consumeBatch A (p :: ps)).perform r = (.error e, r) := by
  obtain ⟨e, he⟩ := perform_consume_refused (A := A) hrefused
  rw [perform_consumeBatch_cons, he]
  exact ⟨e, rfl⟩

end Receiver

end GroupReplication
