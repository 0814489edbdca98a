/-
A worker that establishes its channel. The target is not active from the new connection on, until it
acknowledges where delivery starts; from then on both ends meet. At every other way out the worker
does not count the channel as established.
-/
import GroupReplication.Proofs.Delivery.Accord
import GroupReplication.Proofs.Delivery.Run

namespace GroupReplication.Delivery

open GroupReplication.Action

section Assertions

variable (site : Site) (history : List Packet) (d : Delivery (Wire Replica))

/-- The ends fit, and are in touch as long as the worker counts on it. -/
def InAccord : Prop := ∃ a, Accord site history d a ∧ InTouch site d a

/-- The ends fit, and the worker does not count on the channel. -/
def HungUp : Prop := (∃ a, Accord site history d a) ∧ d.worker.established = false

/-- The ends fit, and the target is not active. -/
def Idle : Prop :=
  ∃ a, Accord site history d a ∧ (site.channel a d.link).state ≠ .active ∧
    d.worker.established = false

/-- The source is ready to start where it told the target. -/
def Awaits (response : HandshakeResponse) : Prop :=
  ∃ a, (Accord site history d a ∧ (site.channel a d.link).state ≠ .active ∧
      d.worker.established = false) ∧
    a.next site.target = response.startKey ∧ response.startKey ≤ d.backlog.nextKey ∧
    d.backlog.nextKey - history.length ≤ response.startKey ∧
    (d.link.restart? = none → response.discardLocalState = true)

end Assertions

variable {site : Site} {history : List Packet} {d : Delivery (Wire Replica)} {a : Account}

theorem HungUp.inAccord (h : HungUp site history d) : InAccord site history d := by
  obtain ⟨⟨a, haccord⟩, hdown⟩ := h
  exact ⟨a, haccord, .of_unestablished hdown⟩

theorem Idle.inAccord (h : Idle site history d) : InAccord site history d := by
  obtain ⟨a, haccord, -, hdown⟩ := h
  exact ⟨a, haccord, .of_unestablished hdown⟩

theorem Idle.of_rests (haccord : Accord site history d a)
    (hidle : (site.channel a d.link).state ≠ .active) (hdown : d.worker.established = false)
    {w : Wire Replica} {c?' : Option TargetChannel}
    (hrests : d.link.Rests site.log site.conflicts site.source site.initial a.channel? w c?') :
    Idle site history { d with link := w } :=
  ⟨_, haccord.rests hrests, hrests.idle hidle, hdown⟩

/-- Statistics do not matter to the ends. -/
theorem ensures_onStats (f : DeliveryStats → DeliveryStats) {R : Delivery (Wire Replica) → Prop} :
    Ensures (Idle site history) (onStats f) (fun _ => Idle site history) R :=
  Ensures.modify fun _ ⟨a, haccord, hidle, hdown⟩ => ⟨a, haccord.worker rfl rfl, hidle, hdown⟩

theorem ensures_setDown {R : Delivery (Wire Replica) → Prop} :
    Ensures (fun d => ∃ a, Accord site history d a) (setEstablished false)
      (fun _ => HungUp site history) R :=
  Ensures.modify fun _ ⟨a, haccord⟩ => ⟨⟨a, haccord.worker rfl rfl⟩, rfl⟩

/-- A new connection does not know its source yet. -/
theorem ensures_connect :
    Ensures (HungUp site history) (onLink (Transport.wire Replica.applier).connect)
      (fun _ d => Idle site history d ∧ d.link.ends.link.session = some .new) (Idle site history) := by
  rintro d ⟨⟨a, haccord⟩, hdown⟩
  have hcut : d.link.Rests site.log site.conflicts site.source site.initial a.channel? d.link.cutNext
      a.channel? := haccord.mirrors.same rfl rfl rfl
  obtain ⟨c?', hclosed⟩ := hcut.mirrors.closed
  have hrests := hcut.trans hclosed
  have hidle : (({ d.link.cutNext with ends := d.link.cutNext.ends.closeSession } :
      Wire Replica).channel site.source c?').state ≠ .active :=
    hrests.mirrors.calm (by
      rw [show _ = none from LoopbackEnds.session_closeSession d.link.cutNext.ends]
      simp)
  have hperform : (onLink (Transport.wire Replica.applier).connect).perform d
      = (((Transport.wire Replica.applier).connect.perform d.link).1,
          { d with link := ((Transport.wire Replica.applier).connect.perform d.link).2 }) := rfl
  have hclosed := haccord.rests hrests
  rw [Wire.perform_connect] at hperform
  split at hperform
  · exact .inr ⟨_, _, hperform, _, hclosed, hidle, hdown⟩
  · exact .inl ⟨(), _, hperform, ⟨_, ⟨hclosed.source, hclosed.target, hclosed.coherent, hclosed.listed,
      hclosed.keys, hrests.mirrors.opened hidle, hclosed.issued, hclosed.behind, hclosed.kept⟩,
      hidle, hdown⟩, rfl⟩

/-- A target that never started over asks to. -/
theorem ensures_announce (group : String) :
    Ensures (fun d => Idle site history d ∧ d.link.ends.link.session = some .new)
      (exchange (.wire Replica.applier) (.connect site.source group))
      (fun reply d => Idle site history d ∧
        ∀ request, reply = .handshake request → d.link.restart? = none → request.first = true)
      (Idle site history) := by
  rintro d ⟨⟨a, haccord, hidle, hdown⟩, hnew⟩
  obtain ⟨result, w, c?', hperform, hrests, hrequest⟩ :=
    exchange_connect haccord.mirrors haccord.lastConfirmed_lt hnew group
  have hafter := Idle.of_rests haccord hidle hdown hrests
  cases result with
  | ok reply =>
    refine .inl ⟨reply, _, hperform, hafter, fun request hreply hnone => ?_⟩
    exact hrequest request (by rw [hreply]) hnone
  | error e => exact .inr ⟨e, _, hperform, hafter⟩

theorem ensures_reject (code : RejectCode) (text : String) :
    Ensures (Idle site history) (exchange (.wire Replica.applier) (.reject code text))
      (fun _ => Idle site history) (Idle site history) := by
  rintro d ⟨a, haccord, hidle, hdown⟩
  obtain ⟨result, w, c?', hperform, hrests⟩ :=
    exchange_reject haccord.mirrors haccord.lastConfirmed_lt code text
  have hafter := Idle.of_rests haccord hidle hdown hrests
  cases result with
  | ok reply => exact .inl ⟨reply, _, hperform, hafter⟩
  | error e => exact .inr ⟨e, _, hperform, hafter⟩

/-- The backlog's handshake puts its channel where its answer says. -/
theorem ensures_handshake (request : HandshakeRequest) {R : Delivery (Wire Replica) → Prop} :
    Ensures (fun d => Idle site history d ∧ (d.link.restart? = none → request.first = true))
      (handshake request)
      (fun result d => (∀ response, result = .ok response → Awaits site history d response) ∧
        ∀ e, result = .error e → Idle site history d) R := by
  rintro d ⟨⟨a, haccord, hidle, hdown⟩, hfirst⟩
  refine .inl ⟨_, _, rfl, ?_⟩
  rw [haccord.target]
  have hnone : Turn.appended? ⟨d.backlog, .handshake site.target request⟩ = none := rfl
  have hquiet := haccord.quiet hnone (.inr hidle)
  refine ⟨fun response hok => ?_, fun e _ => ⟨_, hquiet.1, hidle, hdown⟩⟩
  obtain ⟨hstart, hkept, hwithin, hdiscard⟩ :=
    haccord.coherent.handshake_starts haccord.keys site.room hok
  refine ⟨_, ⟨hquiet.1, hidle, hdown⟩, Account.next_started hstart, ?_, ?_, fun hnone =>
    hdiscard (hfirst hnone)⟩
  · exact Nat.le_trans hwithin (Nat.le_of_eq hquiet.2.symm)
  · exact Nat.le_trans (Nat.le_of_eq (congrArg (· - history.length) hquiet.2)) hkept

/-- The target meets its source once it acknowledged where delivery starts. -/
theorem ensures_answer (response : HandshakeResponse) :
    Ensures (Awaits site history · response)
      (exchange (.wire Replica.applier) (.handshakeReply response))
      (fun reply d => ((∀ key, reply ≠ .ack key) → Idle site history d) ∧
        ∀ key, reply = .ack key → ∃ a, Accord site history d a ∧ Meets site d a)
      (Idle site history) := by
  rintro d ⟨a, ⟨haccord, hidle, hdown⟩, hnext, hwithin, hkept, hdiscard⟩
  obtain ⟨result, w, c?', hperform, ⟨hrests, hnot⟩ |
    ⟨⟨key, hack⟩, hmirrors, hactive, hreceived, -, hrestart⟩⟩ :=
    exchange_handshakeReply haccord.mirrors site.clustered
      (Nat.lt_of_le_of_lt hwithin haccord.keys) hdiscard
  · have hafter := Idle.of_rests haccord hidle hdown hrests
    cases result with
    | ok reply =>
      exact .inl ⟨reply, _, hperform, fun _ => hafter, fun key heq => absurd (by rw [heq]) (hnot key)⟩
    | error e => exact .inr ⟨e, _, hperform, hafter⟩
  · rw [hack] at hperform
    refine .inl ⟨_, _, hperform, fun hnot => absurd rfl (hnot key), fun _ _ =>
      ⟨_, haccord.goesOn hmirrors (hreceived.trans hnext.symm) (hnext ▸ hwithin)
        fun start base heq => ?_, hactive, hreceived.trans hnext.symm⟩⟩
    rcases hrestart with hsame | ⟨base', hnew⟩
    · exact haccord.kept start base (hsame.symm.trans heq)
    · rw [hnew] at heq
      cases heq
      exact hkept

theorem ensures_disconnect {target : String} :
    Ensures (Idle site history) (onBacklog (Backlog.disconnect target)) (fun _ => Idle site history)
      (Idle site history) :=
  ensures_onBacklog (.disconnect target) (fun _ => rfl) fun _ ⟨a, haccord, hidle, hdown⟩ =>
    ⟨a, (haccord.silent ⟨rfl, fun _ => rfl, fun _ => rfl⟩).1, hidle, hdown⟩

/-! ## Ways through a handshake -/

theorem ensures_answerHandshake (response : HandshakeResponse) :
    Ensures (Awaits site history · response) (answerHandshake (.wire Replica.applier) response)
      (fun _ => InAccord site history) (InAccord site history) := by
  refine Ensures.bind ((ensures_answer response).mono (fun _ => id) fun _ h => h.inAccord)
    fun reply => ?_
  have hrefused : Ensures (Idle site history)
      (do
        discard <| Action.attempt (onBacklog (Backlog.disconnect (← get).worker.target))
        throw (unexpectedReply reply .handshakeReply) : Action (Delivery (Wire Replica)) Unit)
      (fun _ => InAccord site history) (InAccord site history) :=
    Ensures.getting fun d _ => Ensures.bind (Ensures.tried ensures_disconnect) fun _ =>
      Ensures.throw fun _ h => h.inAccord
  cases reply with
  | ack key =>
    refine Ensures.bind (Ensures.modify (Q := fun _ d => ∃ a, Accord site history d a ∧ Meets site d a)
      fun d h => ?_) fun _ => Ensures.modify fun d h => ?_
    · obtain ⟨a, haccord, hmeets⟩ := h.2 key rfl
      exact ⟨a, haccord.worker rfl rfl, hmeets⟩
    · obtain ⟨a, haccord, hmeets⟩ := h
      exact ⟨a, haccord.worker rfl rfl, fun _ _ _ _ _ => hmeets⟩
  | _ => exact hrefused.mono (fun _ h => h.1 fun _ heq => by cases heq) fun _ => id

/-- A refused target is left as it is. -/
theorem ensures_refuse (e : Error) :
    Ensures (Idle site history) (refuse (.wire Replica.applier) e) (fun _ => InAccord site history)
      (InAccord site history) :=
  Ensures.bind (Ensures.tried (ensures_reject _ _)) fun _ => Ensures.throw fun _ h => h.inAccord

/-- A target that is asked to start over does so, or nothing comes of it. -/
theorem ensures_demandResync (e : Error) :
    Ensures (Idle site history) (demandResync (.wire Replica.applier) e)
      (fun request d => Idle site history d ∧ request.first = true) (Idle site history) := by
  refine Ensures.bind (ensures_onStats _) fun _ => Ensures.bind (ensures_reject _ _) fun reply =>
    Ensures.bind (Ensures.decided (fun request d _ h => h) fun _ h => h) fun request => ?_
  cases hfirst : request.first with
  | true =>
    simp only [Bool.not_true, Bool.false_eq_true, if_false]
    exact Ensures.pure fun d h => ⟨h, hfirst⟩
  | false =>
    simp only [Bool.not_false, if_true]
    exact Ensures.bind (Ensures.throw (Q := fun _ _ => False) fun _ h => h) fun _ _ h => h.elim

/-- Whatever comes of it, an attempt to establish the channel keeps the ends in accord. -/
theorem ensures_establish :
    Ensures (fun d => ∃ a, Accord site history d a) (establish (.wire Replica.applier))
      (fun _ => InAccord site history) (InAccord site history) := by
  refine Ensures.bind ensures_setDown fun _ => ?_
  refine Ensures.bind (ensures_connect.mono (fun _ => id) fun _ h => h.inAccord) fun _ => ?_
  refine Ensures.getting fun d ⟨⟨a, haccord, _⟩, _⟩ => ?_
  rw [haccord.source]
  refine Ensures.bind ((ensures_announce _).mono (fun _ => id) fun _ h => h.inAccord) fun reply => ?_
  refine Ensures.bind (Ensures.decided (Q := fun request d => Idle site history d ∧
    (d.link.restart? = none → request.first = true)) (fun request d hrequest h => ⟨h.1, h.2 request ?_⟩)
    fun _ h => h.1.inAccord) fun request => ?_
  · exact expectHandshake_ok hrequest
  refine Ensures.bind (ensures_handshake request) fun result => ?_
  cases result with
  | ok response => exact (ensures_answerHandshake response).mono (fun _ h => h.1 response rfl) fun _ => id
  | error e =>
    refine Ensures.mono (P := Idle site history) ?_ (fun _ h => h.2 e rfl) fun _ => id
    dsimp only
    split
    · refine Ensures.bind ((ensures_demandResync _).mono (fun _ => id) fun _ h => h.inAccord)
        fun request => Ensures.bind ((ensures_handshake request).mono (fun _ h => ⟨h.1, fun _ => h.2⟩)
          fun _ => id) fun result => ?_
      cases result with
      | ok response =>
        exact (ensures_answerHandshake response).mono (fun _ h => h.1 response rfl) fun _ => id
      | error e => exact (ensures_refuse e).mono (fun _ h => h.2 e rfl) fun _ => id
    · exact ensures_refuse _

/-- A worker that hangs up does not count on the channel. -/
theorem ensures_hangUp :
    Ensures (fun d => ∃ a, Accord site history d a) (disconnect (.wire Replica.applier))
      (fun _ => InAccord site history) (InAccord site history) := by
  have hclose : Ensures (HungUp site history) (onLink (Transport.wire Replica.applier).close)
      (fun _ => HungUp site history) (HungUp site history) := by
    rintro d ⟨⟨a, haccord⟩, hdown⟩
    obtain ⟨c?', hrests⟩ := haccord.mirrors.closed
    exact .inl ⟨(), _, rfl, ⟨_, haccord.rests hrests⟩, hdown⟩
  refine Ensures.bind ensures_setDown fun _ => Ensures.getting fun d _ => ?_
  have hdisconnected : Ensures (HungUp site history) (onBacklog (Backlog.disconnect d.worker.target))
      (fun _ => HungUp site history) (HungUp site history) :=
    ensures_onBacklog (.disconnect d.worker.target) (fun _ => rfl) fun _ h =>
      ⟨h.1.imp fun a haccord => (haccord.silent ⟨rfl, fun _ => rfl, fun _ => rfl⟩).1, h.2⟩
  have hclosed : Ensures (HungUp site history)
      (discard (onLink (Transport.wire Replica.applier).close).attempt)
      (fun _ => HungUp site history) (InAccord site history) := Ensures.tried hclose
  refine Ensures.bind (Ensures.tried hdisconnected) fun _ d hd => ?_
  rcases hclosed d hd with ⟨_, d', hok, h⟩ | hfailed
  · exact .inl ⟨_, d', hok, h.inAccord⟩
  · exact .inr hfailed

end GroupReplication.Delivery
