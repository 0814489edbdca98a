/-
A worker that ships batches. The source's end of the channel goes on with every batch that it hands
out, the target's end with every batch that it acknowledges; while the ends are in touch each step
that ends well takes both on together, so that deliveries that all end well reach the next key of all.
-/
import GroupReplication.Proofs.Delivery.Establish

namespace GroupReplication.Delivery

open GroupReplication.Action Packet

variable {site : Site} {history : List Packet} {next key : Nat} {touch : Prop}

/-- The source stands at a key, and if `touch` is true the ends are in touch. -/
def StandsAt (site : Site) (history : List Packet) (next key : Nat) (touch : Prop)
    (d : Delivery (Wire Replica)) : Prop :=
  ∃ a, Accord site history d a ∧ a.next site.target = next ∧ d.backlog.nextKey = key ∧
    (touch → InTouch site d a)

/-- The ends meet at a key. -/
def MeetsAt (site : Site) (history : List Packet) (next key : Nat) (d : Delivery (Wire Replica)) :
    Prop :=
  ∃ a, Accord site history d a ∧ a.next site.target = next ∧ d.backlog.nextKey = key ∧ Meets site d a

/-- The source handed out a batch that the target has not seen. -/
def Handed (site : Site) (history : List Packet) (next key : Nat) (batch : List Packet)
    (d : Delivery (Wire Replica)) : Prop :=
  ∃ a, Accord site history d a ∧ a.next site.target = next + batch.length ∧ d.backlog.nextKey = key ∧
    ((site.channel a d.link).state = .active → (site.channel a d.link).lastReceived + 1 ≤ next)

theorem MeetsAt.standsAt {d : Delivery (Wire Replica)} (h : MeetsAt site history next key d) :
    StandsAt site history next key touch d := by
  obtain ⟨a, haccord, hnext, hkey, hmeets⟩ := h
  exact ⟨a, haccord, hnext, hkey, fun _ _ _ _ _ _ => hmeets⟩

/-- A batch that is acknowledged takes the target to where its source stands. -/
theorem ensures_ship {batch : List Packet} (hkeyed : KeyedFrom next batch) (hne : batch ≠ [])
    (hlisted : ∀ p ∈ batch, p ∈ history) (hend : next + batch.length ≤ key) :
    Ensures (Handed site history next key batch) (ship (.wire Replica.applier) batch)
      (fun _ => MeetsAt site history (next + batch.length) key) (fun d => ∃ a, Accord site history d a) := by
  have hexchange : Ensures (Handed site history next key batch)
      (exchange (.wire Replica.applier) (.batch batch))
      (fun reply d => (∃ a, Accord site history d a) ∧
        ∀ k, reply = .ack k → MeetsAt site history (next + batch.length) key d)
      (fun d => ∃ a, Accord site history d a) := by
    rintro d ⟨a, haccord, hnext, rfl, hbehind⟩
    obtain ⟨result, w, c?', hperform, ⟨hrests, hnot⟩ |
      ⟨⟨k, hack⟩, hmirrors, hactive, hreceived, hrestart⟩⟩ :=
      exchange_batch haccord.mirrors site.keyed
        (fun p hp => (haccord.listed p (hlisted p hp)).1)
        (fun p hp => (haccord.listed p (hlisted p hp)).2) hkeyed hne
        (Nat.le_trans hend (Nat.le_of_lt haccord.keys)) hbehind
    · have hafter := haccord.rests hrests
      cases result with
      | ok reply => exact .inl ⟨reply, _, hperform, ⟨_, hafter⟩, fun k heq => absurd (by rw [heq]) (hnot k)⟩
      | error e => exact .inr ⟨e, _, hperform, _, hafter⟩
    · rw [hack] at hperform
      have hafter := haccord.goesOn hmirrors (hreceived.trans hnext.symm) (hnext ▸ hend)
        fun start base heq => haccord.kept start base (hrestart.symm.trans heq)
      exact .inl ⟨_, _, hperform, ⟨_, hafter⟩, fun _ _ =>
        ⟨_, hafter, hnext, rfl, hactive, hreceived.trans hnext.symm⟩⟩
  refine Ensures.bind hexchange fun reply => ?_
  cases reply with
  | ack k => exact Ensures.pure fun _ h => h.2 k rfl
  | _ => exact Ensures.throw fun _ h => h.1

/-- A poll hands out what comes next. One that is forced and hands out nothing has come to the next
key of all. -/
theorem ensures_poll (force : Bool) :
    Ensures (fun d => StandsAt site history next key touch d ∧ d.worker.established = true)
      (onBacklog (Backlog.poll site.target force))
      (fun batch? d => (batch? = none → StandsAt site history next key touch d ∧
          (force = true → next = key ∧ (touch → MeetsAt site history next key d))) ∧
        ∀ batch, batch? = some batch → Handed site history next key batch d ∧ KeyedFrom next batch ∧
          batch ≠ [] ∧ (∀ p ∈ batch, p ∈ history) ∧ next + batch.length ≤ key)
      (fun d => ∃ a, Accord site history d a) := by
  rintro d ⟨⟨a, haccord, rfl, rfl, hin⟩, hestablished⟩
  have hperform : (onBacklog (Backlog.poll site.target force)).perform d
      = (((Backlog.poll site.target force).perform d.backlog).1,
          { d with backlog := Operation.after d.backlog (.poll site.target force) }) := rfl
  have hnone : Turn.appended? ⟨d.backlog, .poll site.target force⟩ = none := rfl
  obtain ⟨hafter, hkey⟩ := haccord.quiet hnone (.inl rfl)
  have hstart : Turn.start? site.target ⟨d.backlog, .poll site.target force⟩ = none := rfl
  have hnext := Account.next_after (a := a) hstart
  cases hpoll : ((Backlog.poll site.target force).perform d.backlog).1 with
  | error e => exact .inr ⟨e, _, hpoll ▸ hperform, _, hafter⟩
  | ok batch? =>
    have hbatch : Turn.batch? site.target ⟨d.backlog, .poll site.target force⟩ = batch? := by
      cases batch? <;> simp [Turn.batch?, hpoll, Except.toOption]
    rw [hbatch] at hnext
    refine .inl ⟨batch?, _, hpoll ▸ hperform, fun hnone => ?_, fun batch hsome => ?_⟩
    · subst hnone
      refine ⟨⟨_, hafter, hnext, hkey, fun h =>
        haccord.inTouch_operated (hin h) hstart (by rw [hbatch]; rfl)⟩, ?_⟩
      rintro rfl
      obtain ⟨start, hstarted, hend⟩ := haccord.coherent.caught_up site.room hpoll
      refine ⟨?_, fun h => ⟨_, hafter, hnext, hkey, ?_⟩⟩
      · rw [← hend, Account.next, hstarted]
        rfl
      · obtain ⟨ps, hholds, -⟩ := haccord.coherent.logged.kept
        obtain ⟨c, -, hc, hactive, hsynced, -⟩ := Backlog.poll_ok hholds hpoll
        obtain ⟨hmeets, hlast⟩ := hin h hestablished c hc hactive hsynced
        exact ⟨hmeets, hlast.trans hnext.symm⟩
    · subst hsome
      obtain ⟨start, hstarted, hkeyed, hlisted, hend⟩ :=
        haccord.coherent.handed_next haccord.keys site.room hpoll
      have hstands : a.next site.target = start + (a.delivered site.target).length := by
        rw [Account.next, hstarted]
        rfl
      rw [← hstands] at hkeyed hend
      exact ⟨⟨_, hafter, hnext, hkey, haccord.behind⟩, hkeyed,
        (haccord.coherent.batch_size site.room hpoll).1, hlisted, hend⟩

theorem MeetsAt.silent {d : Delivery (Wire Replica)} (h : MeetsAt site history next key d)
    {op : Operation} (hsilent : Turn.Silent ⟨d.backlog, op⟩) :
    MeetsAt site history next key { d with backlog := op.after d.backlog } := by
  obtain ⟨a, haccord, hnext, hkey, hmeets⟩ := h
  obtain ⟨hafter, hsame⟩ := haccord.silent hsilent
  exact ⟨a, hafter, hnext, hsame.trans hkey, hmeets⟩

/-- A step that ends well takes both ends on. One that is forced and ships nothing has come to the next
key of all. -/
theorem ensures_step (force : Bool) :
    Ensures (StandsAt site history next key touch) (step (.wire Replica.applier) force)
      (fun n d => StandsAt site history (next + n) key touch d ∧ (n ≠ 0 → next + n ≤ key) ∧
        (n = 0 → force = true → next = key ∧ (touch → MeetsAt site history next key d)))
      (fun d => ∃ a, Accord site history d a) := by
  intro d h
  rw [step, perform_get_bind]
  cases hestablished : d.worker.established with
  | false =>
    simp only [hestablished, Bool.not_false, if_true]
    obtain ⟨a, haccord, -⟩ := h
    exact .inr ⟨_, d, perform_throw_bind .., a, haccord⟩
  | true =>
    simp only [hestablished, Bool.not_true, Bool.false_eq_true, if_false]
    have htarget : d.worker.target = site.target := h.choose_spec.1.target
    rw [htarget]
    refine Ensures.bind (ensures_poll force) (fun batch? => ?_) d ⟨h, hestablished⟩
    cases batch? with
    | none =>
      refine Ensures.pure fun d h => ⟨(h.1 rfl).1, fun hne => absurd rfl hne, fun _ => (h.1 rfl).2⟩
    | some batch =>
      intro d h
      obtain ⟨hhanded, hkeyed, hne, hlisted, hend⟩ := h.2 batch rfl
      have hpos := List.length_pos_iff.2 hne
      refine Ensures.bind (Ensures.attempted (ensures_ship hkeyed hne hlisted hend)) (fun result => ?_)
        d hhanded
      cases result with
      | ok k =>
        have hconfirmed : Ensures (MeetsAt site history (next + batch.length) key)
            (onBacklog (Backlog.confirm site.target k))
            (fun _ => MeetsAt site history (next + batch.length) key)
            (MeetsAt site history (next + batch.length) key) :=
          ensures_onBacklog (.confirm site.target k) (fun _ => rfl)
            fun d h => h.silent ⟨rfl, fun _ => rfl, fun _ => rfl⟩
        refine Ensures.bind ((Ensures.unanswered hconfirmed).mono (fun d h => h.1 k rfl)
          fun d ⟨a, haccord, _⟩ => ⟨a, haccord⟩) fun _ => Ensures.bind
          (Ensures.modify (Q := fun _ => MeetsAt site history (next + batch.length) key)
            fun d ⟨a, haccord, hrest⟩ => ⟨a, haccord.worker rfl rfl, hrest⟩) fun _ =>
          Ensures.pure fun d h => ⟨h.standsAt, fun _ => hend, fun hzero => ?_⟩
        omega
      | error e =>
        have hrecorded : Ensures (fun d => ∃ a, Accord site history d a)
            (onBacklog (Backlog.recordError site.target ((batch.head?.map (·.key)).getD 0) e))
            (fun _ d => ∃ a, Accord site history d a) (fun d => ∃ a, Accord site history d a) :=
          ensures_onBacklog (.recordError site.target _ e) (fun _ => rfl)
            fun d ⟨a, haccord⟩ => ⟨a, (haccord.silent ⟨rfl, fun _ => rfl, fun _ => rfl⟩).1⟩
        exact Ensures.bind (Ensures.modify (Q := fun _ d => ∃ a, Accord site history d a)
            fun d h => (h.2 e rfl).imp fun a haccord => haccord.worker rfl rfl) fun _ =>
          Ensures.bind (Ensures.unanswered hrecorded) fun _ => Ensures.throw fun _ h => h

/-- Deliveries that end well end at the next key of all, unless they run out of steps. -/
theorem ensures_deliverUpTo (fuel : Nat) :
    Ensures (StandsAt site history next key touch) (deliverUpTo (.wire Replica.applier) fuel)
      (fun _ d => (∃ next, StandsAt site history next key touch d) ∧
        (next ≤ key → key < next + fuel → touch → MeetsAt site history key key d))
      (fun d => ∃ a, Accord site history d a) := by
  induction fuel generalizing next with
  | zero =>
    refine Ensures.pure fun d h => ⟨⟨next, h⟩, fun hle hlt => ?_⟩
    omega
  | succ fuel ih =>
    refine Ensures.bind (ensures_step true) fun n => ?_
    cases n with
    | zero =>
      refine Ensures.pure fun d h => ⟨⟨next, h.1⟩, fun _ _ htouch => ?_⟩
      obtain ⟨rfl, hmeets⟩ := h.2.2 rfl rfl
      exact hmeets htouch
    | succ n =>
      intro d h
      have hle := h.2.1 (by omega)
      refine Ensures.bind ih (fun rest => ?_) d h.1
      exact Ensures.pure fun d h => ⟨h.1, fun _ hlt => h.2 hle (by omega)⟩

/-- Deliveries that end well began with a poll that was answered. -/
theorem poll_of_deliverUpTo {τ : Type} {T : Transport τ} {fuel n : Nat} {d d' : Delivery τ}
    (h : (deliverUpTo T (fuel + 1)).perform d = (.ok n, d')) :
    ∃ batch?, ((Backlog.poll d.worker.target true).perform d.backlog).1 = .ok batch? := by
  cases hpoll : ((Backlog.poll d.worker.target true).perform d.backlog).1 with
  | ok batch? => exact ⟨batch?, rfl⟩
  | error e =>
    have hperform : (onBacklog (Backlog.poll d.worker.target true)).perform d
        = (.error e, { d with backlog := ((Backlog.poll d.worker.target true).perform d.backlog).2 }) :=
      hpoll ▸ rfl
    have hstep : ∃ e d', (step T true).perform d = (.error e, d') := by
      rw [step, perform_get_bind]
      cases hestablished : d.worker.established with
      | false =>
        simp only [hestablished, Bool.not_false, if_true]
        exact ⟨_, d, perform_throw_bind ..⟩
      | true =>
        simp only [hestablished, Bool.not_true, Bool.false_eq_true, if_false]
        exact ⟨e, _, perform_bind_error hperform⟩
    obtain ⟨e', d'', hfailed⟩ := hstep
    rw [deliverUpTo, perform_bind_error hfailed] at h
    cases h

/-- Delivering all that waits does so, as long as the ends are in touch. -/
theorem ensures_deliverPending :
    Ensures (StandsAt site history next key touch) (deliverPending (.wire Replica.applier))
      (fun _ d => (∃ next, StandsAt site history next key touch d) ∧
        (touch → MeetsAt site history key key d))
      (fun d => ∃ a, Accord site history d a) := by
  intro d h
  rw [deliverPending, perform_get_bind]
  rcases ensures_deliverUpTo _ d h with ⟨n, d', hok, hstands, hmeets⟩ | hfailed
  · refine .inl ⟨n, d', hok, hstands, ?_⟩
    obtain ⟨batch?, hpoll⟩ := poll_of_deliverUpTo hok
    obtain ⟨a, haccord, rfl, rfl, -⟩ := h
    obtain ⟨start, hstart, hwithin, hwaiting⟩ := haccord.coherent.waiting_le hpoll
    have hnext : a.next d.worker.target = start + (a.delivered d.worker.target).length := by
      rw [Account.next, hstart]
      rfl
    rw [haccord.target] at hnext hwithin hwaiting hmeets
    exact hmeets (by omega) (by omega)
  · exact .inr hfailed

end GroupReplication.Delivery
