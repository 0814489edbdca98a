/-
A worker whose target can resume whenever it asks to. The source rejects packets when its backlog is
full, so what its channel has not confirmed stays in the log, and the target never has less than that
unless it is about to start over (`Resumable`). So no handshake fails for a resume key that is gone, and
after its first handshake the target's copy is never dropped again.
-/
import GroupReplication.Proofs.Backlog.Retained
import GroupReplication.Proofs.Delivery.Replication
import GroupReplication.Proofs.Target.Steady

namespace GroupReplication

open GroupReplication.Action

/-! ## The wire -/

namespace Wire

variable {ρ : Type} {A : Applier ρ} {source : String} {low? : Option Nat} {since? : Option ρ}
  {w w' : Wire ρ}

/-- The target behind the wire is steady, whether there is a connection to it or not. -/
def Anchored (A : Applier ρ) (source : String) (low? : Option Nat) (since? : Option ρ)
    (w : Wire ρ) : Prop :=
  (w.ends.link.session.getD .new).Anchored A source low? since? w.ends.group

/-- The channel of the source behind the wire, and the copy. -/
def receiver (source : String) (w : Wire ρ) : Receiver ρ := w.ends.group.receiver source

theorem anchored_new {cuts : List Bool} {members : Membership} {policy : AttachPolicy}
    {conflicts : ConflictSettings} {replica : ρ} :
    (Wire.new cuts (.new members policy conflicts replica)).Anchored A source low? none :=
  ⟨⟨none, ⟨rfl, rfl⟩, .inl rfl⟩, .fresh .., .inl rfl, fun hpos => absurd hpos (Nat.lt_irrefl 0),
    fun _ hcopy => by cases hcopy⟩

theorem Anchored.closed (h : w.Anchored A source low? since?) :
    { w with ends := w.ends.closeSession }.Anchored A source low? since? := by
  unfold Anchored LoopbackEnds.closeSession
  unfold Anchored at h
  cases hsession : w.ends.link.session with
  | none =>
    simp only [hsession]
    rw [hsession] at h
    exact h
  | some s =>
    rw [hsession] at h
    exact Session.close_anchored h

/-- A new connection, which has not announced its source. -/
theorem Anchored.opened (h : w.Anchored A source low? since?) :
    { w with ends := w.ends.opened }.Anchored A source low? since? := by
  obtain ⟨c?, hserves, -⟩ := h.serves
  exact ⟨⟨c?, hserves, .inl rfl⟩, h.steady⟩

/-- What comes of a frame by which the source goes on leaves the target steady, and what is answered is
the target's own answer. -/
theorem Anchored.sent (h : w.Anchored A source low? since?) {f : Frame} {result : Except Error Frame}
    (hsent : w.Sent A f result w') (hf : ∀ f', f.ReadAs f' →
      f'.Onward source low? (w.receiver source).channel.firstHandshakePending) :
    w'.Anchored A source low? since? ∧
      ∀ reply, result = .ok reply → (w'.receiver source).channel.Answers reply := by
  cases hsent with
  | kept hsession hgroup =>
    refine ⟨?_, fun _ heq => by cases heq⟩
    unfold Anchored
    rw [hsession, hgroup]
    exact h
  | lost =>
    exact ⟨Anchored.closed (w := w.cutNext) h, fun _ heq => by cases heq⟩
  | @taken s s' f' reply g result hread hsession hreceive hanswer =>
    have hanchored : s.Anchored A source low? since? w.ends.group := by simpa [Anchored, hsession] using h
    have hrides := Session.receive_anchored hanchored (hf f' hread)
    rw [hreceive] at hrides
    refine ⟨hrides.1, fun answer hok => ?_⟩
    rcases hanswer with rfl | ⟨⟨e, rfl⟩, -⟩
    · cases hok
      exact hrides.2
    · cases hok

end Wire

/-- Only a resume key that is gone is refused as one. -/
theorem Error.rejectCode_ne {e : Error}
    (h : ∀ requested earliest, e ≠ .resumeKeyCompacted requested earliest) :
    e.rejectCode ≠ .resumeKeyCompacted := by
  cases e with
  | resumeKeyCompacted requested earliest => exact absurd rfl (h requested earliest)
  | _ => simp [Error.rejectCode]

namespace Delivery

variable {ρ : Type} {A : Applier ρ} {source target : String} {since? : Option ρ}
  {d : Delivery (Wire ρ)}

/-- The target can resume at any time, and never was asked to start over. -/
structure Resumable (A : Applier ρ) (source target : String) (since? : Option ρ)
    (d : Delivery (Wire ρ)) : Prop where
  retains : d.backlog.Retains
  anchored : d.link.Anchored A source (d.backlog.lastConfirmed? target) since?
  resyncs : d.worker.stats.resyncs = 0
  source : d.worker.source = source
  target : d.worker.target = target

/-- The channel of the target. -/
abbrev targetChannel (source : String) (d : Delivery (Wire ρ)) : TargetChannel :=
  (d.link.receiver source).channel

namespace Resumable

variable (h : Resumable A source target since? d)
include h

theorem steady : (d.link.receiver source).Steady A (d.backlog.lastConfirmed? target) since? :=
  Session.Anchored.steady h.anchored

/-- The source may count on other keys that the target has confirmed. -/
theorem counting {b : Backlog} (hretains : b.Retains)
    (hcounts : (targetChannel source d).firstHandshakePending = false →
      ∃ low, b.lastConfirmed? target = some low ∧ low ≤ (targetChannel source d).lastConfirmed) :
    Resumable A source target since? { d with backlog := b } := by
  obtain ⟨c?, hserves, hfeeds⟩ := Session.Anchored.serves h.anchored
  refine ⟨hretains, ⟨⟨c?, hserves, hfeeds⟩, h.steady.bounded, ?_, h.steady.done, h.steady.since⟩,
    h.resyncs, h.source, h.target⟩
  cases hpending : (targetChannel source d).firstHandshakePending with
  | true => exact .inl hpending
  | false => exact .inr (hcounts hpending)

/-- A target that is not about to start over has confirmed what the source counts on. -/
theorem confirmed (hpending : (targetChannel source d).firstHandshakePending = false) :
    ∃ low, d.backlog.lastConfirmed? target = some low ∧
      low ≤ (targetChannel source d).lastConfirmed :=
  h.steady.behind.resolve_left fun hfirst => by
    rw [show (targetChannel source d).firstHandshakePending = true from hfirst] at hpending
    cases hpending

/-- A target that asks to resume has all that the source counts on. -/
theorem resuming (hresume : (targetChannel source d).request.first = false) :
    ∃ low, d.backlog.lastConfirmed? target = some low ∧
      low ≤ (targetChannel source d).request.lastConfirmed := by
  rw [TargetChannel.request_lastConfirmed hresume]
  exact h.confirmed ((TargetChannel.request_first _).symm.trans hresume)

/-- An operation that leaves alone what the target has confirmed. -/
theorem operated {op : Operation} (hop : op.Leaves target)
    (hkeys : (op.after d.backlog).nextKey < 2 ^ 64) :
    Resumable A source target since? { d with backlog := op.after d.backlog } := by
  have hclose : op ≠ .close := by
    rintro rfl
    exact hop
  refine h.counting (h.retains.after hclose hkeys) ?_
  rw [h.retains.lastConfirmed?_after hop]
  exact h.confirmed

theorem quiet {op : Operation} (hop : op.Leaves target) (hadd : Turn.appended? ⟨d.backlog, op⟩ = none) :
    Resumable A source target since? { d with backlog := op.after d.backlog } := by
  have hclose : op ≠ .close := by
    rintro rfl
    exact hop
  exact h.operated hop (h.retains.quiet hclose hadd).keys

theorem relinked {w : Wire ρ} (hw : w.Anchored A source (d.backlog.lastConfirmed? target) since?) :
    Resumable A source target since? { d with link := w } :=
  ⟨h.retains, hw, h.resyncs, h.source, h.target⟩

end Resumable

/-- The operation leaves a target that can resume, whether it fails or not. -/
abbrev KeepsResumable {α : Type} (A : Applier ρ) (source target : String) (since? : Option ρ)
    (act : Action (Delivery (Wire ρ)) α) : Prop :=
  Ensures (Resumable A source target since?) act (fun _ => Resumable A source target since?)
    (Resumable A source target since?)

/-! ## Frames -/

theorem resumable_onStats {f : DeliveryStats → DeliveryStats} (hf : ∀ s, (f s).resyncs = s.resyncs) :
    KeepsResumable A source target since? (onStats f) :=
  Ensures.modify fun _ h => ⟨h.retains, h.anchored, (hf _).trans h.resyncs, h.source, h.target⟩

theorem resumable_setEstablished (established : Bool) :
    KeepsResumable A source target since? (setEstablished established) :=
  Ensures.modify fun _ h => ⟨h.retains, h.anchored, h.resyncs, h.source, h.target⟩

theorem resumable_connect :
    KeepsResumable A source target since? (onLink (Transport.wire A).connect) := by
  intro d h
  have hclosed : { d.link.cutNext with ends := d.link.cutNext.ends.closeSession }.Anchored A source
      (d.backlog.lastConfirmed? target) since? := Wire.Anchored.closed (w := d.link.cutNext) h.anchored
  have hperform : (onLink (Transport.wire A).connect).perform d
      = (((Transport.wire A).connect.perform d.link).1,
          { d with link := ((Transport.wire A).connect.perform d.link).2 }) := rfl
  rw [Wire.perform_connect] at hperform
  split at hperform
  · exact .inr ⟨_, _, hperform, h.relinked hclosed⟩
  · exact .inl ⟨(), _, hperform, h.relinked hclosed.opened⟩

/-- A frame by which the source goes on is answered by the target, or lost. -/
theorem resumable_exchange (A : Applier ρ) (f : Frame) :
    Ensures (fun d => Resumable A source target since? d ∧ ∀ f', f.ReadAs f' → f'.Onward source
        (d.backlog.lastConfirmed? target) (targetChannel source d).firstHandshakePending)
      (exchange (.wire A) f)
      (fun reply d => Resumable A source target since? d ∧ (targetChannel source d).Answers reply)
      (Resumable A source target since?) := by
  rintro d ⟨h, hf⟩
  obtain ⟨result, w, hperform, hsent⟩ := exchange_spec A f d fun s f' hsession hread => by
    have hanchored := h.anchored
    rw [Wire.Anchored, hsession] at hanchored
    obtain ⟨hkept, hanswers⟩ := Session.receive_anchored hanchored (hf f' hread)
    exact ⟨hanswers.fits hkept.steady.bounded, hanswers.ordered⟩
  obtain ⟨hanchored, hanswers⟩ := h.anchored.sent hsent hf
  cases result with
  | ok reply => exact .inl ⟨reply, _, hperform, h.relinked hanchored, hanswers reply rfl⟩
  | error e => exact .inr ⟨e, _, hperform, h.relinked hanchored⟩

/-! ## Ways through a handshake -/

/-- The target asked for a handshake like this. -/
def Asked (A : Applier ρ) (source target : String) (since? : Option ρ) (request : HandshakeRequest)
    (d : Delivery (Wire ρ)) : Prop :=
  Resumable A source target since? d ∧ request = (targetChannel source d).request

/-- The source told its channel to start where it is about to tell the target to. -/
def Starting (A : Applier ρ) (source target : String) (since? : Option ρ)
    (response : HandshakeResponse) (d : Delivery (Wire ρ)) : Prop :=
  Resumable A source target since? d ∧ response.startKey < 2 ^ 64 ∧
    d.backlog.lastConfirmed? target = some (response.startKey - 1) ∧
    (response.discardLocalState = true → (targetChannel source d).firstHandshakePending = true)

theorem resumable_announce (group : String) :
    Ensures (Resumable A source target since?) (exchange (.wire A) (.connect source group))
      (fun reply d => Resumable A source target since? d ∧
        ∀ request, reply = .handshake request → request = (targetChannel source d).request)
      (Resumable A source target since?) := by
  intro d h
  have hf : ∀ f', (Frame.connect source group).ReadAs f' → f'.Onward source
      (d.backlog.lastConfirmed? target) (targetChannel source d).firstHandshakePending := by
    intro f' hread
    rw [hread.same trivial trivial]
    exact rfl
  rcases resumable_exchange A (.connect source group) d ⟨h, hf⟩ with
    ⟨reply, d', hok, h', hanswers⟩ | hfailed
  · refine .inl ⟨reply, d', hok, h', fun request hreply => ?_⟩
    subst hreply
    cases hanswers
    rfl
  · exact .inr hfailed

/-- What the target asks for is not gone. -/
theorem resumable_handshake (request : HandshakeRequest) {R : Delivery (Wire ρ) → Prop} :
    Ensures (Asked A source target since? request) (handshake request)
      (fun result d => (∀ response, result = .ok response → Starting A source target since? response d) ∧
        ∀ e, result = .error e → Resumable A source target since? d ∧
          ∀ requested earliest, e ≠ .resumeKeyCompacted requested earliest) R := by
  rintro d ⟨h, rfl⟩
  generalize hrequest : (targetChannel source d).request = request
  have hcounts := h.resuming
  rw [hrequest] at hcounts
  have hperform : (handshake request).perform d
      = (.ok ((Backlog.handshake target request).perform d.backlog).1,
          { d with backlog := ((Backlog.handshake target request).perform d.backlog).2 }) := by
    rw [← h.target]
    rfl
  have hfirst : request.first = (targetChannel source d).firstHandshakePending :=
    hrequest ▸ TargetChannel.request_first _
  rcases h.retains.handshake_cases hcounts with
    ⟨e, he, hne⟩ | ⟨response, b', hok, hstart, hkey, hdiscard, hresumes⟩
  · rw [he] at hperform
    refine .inl ⟨_, _, hperform, fun response hanswer => (by cases hanswer), fun e' hanswer => ?_⟩
    cases hanswer
    exact ⟨h, hne⟩
  · have hretains : b'.Retains := by
      have hafter : Operation.after d.backlog (.handshake target request) = b' := congrArg (·.2) hok
      rw [← hafter]
      exact h.retains.quiet (fun heq => by cases heq) rfl
    rw [hok] at hperform
    refine .inl ⟨_, _, hperform, fun response' hanswer => ?_, fun e hanswer => by cases hanswer⟩
    cases hanswer
    refine ⟨h.counting hretains fun hpending => ⟨_, hstart, ?_⟩, hkey, hstart, fun hdrop => ?_⟩
    · have hresume : request.first = false := hfirst.trans hpending
      subst hrequest
      rw [hresumes hresume, TargetChannel.request_lastConfirmed hresume]
      exact Nat.le_refl _
    · exact hfirst.symm.trans (hdiscard.symm.trans hdrop)

/-- The target takes the start that its source decided on, or ends the handshake. -/
theorem resumable_answer (response : HandshakeResponse) :
    Ensures (Starting A source target since? response)
      (exchange (.wire A) (.handshakeReply response)) (fun _ => Resumable A source target since?)
      (Resumable A source target since?) := by
  rintro d ⟨h, hkey, hstart, hdiscard⟩
  have hf : ∀ f', (Frame.handshakeReply response).ReadAs f' → f'.Onward source
      (d.backlog.lastConfirmed? target) (targetChannel source d).firstHandshakePending := by
    intro f' hread
    rw [hread.same hkey trivial]
    exact ⟨hkey, ⟨_, hstart, Nat.le_refl _⟩, hdiscard⟩
  rcases resumable_exchange A _ d ⟨h, hf⟩ with ⟨reply, d', hok, h', -⟩ | hfailed
  · exact .inl ⟨reply, d', hok, h'⟩
  · exact .inr hfailed

theorem resumable_disconnectTarget :
    KeepsResumable A source target since? (onBacklog (Backlog.disconnect target)) :=
  ensures_onBacklog (.disconnect target) (fun _ => rfl) fun _ h => h.quiet trivial rfl

theorem resumable_answerHandshake (response : HandshakeResponse) :
    Ensures (Starting A source target since? response) (answerHandshake (.wire A) response)
      (fun _ => Resumable A source target since?) (Resumable A source target since?) := by
  refine Ensures.bind (resumable_answer response) fun reply => ?_
  have hrefused : KeepsResumable A source target since? (do
      discard <| Action.attempt (onBacklog (Backlog.disconnect (← get).worker.target))
      throw (unexpectedReply reply .handshakeReply) : Action (Delivery (Wire ρ)) Unit) :=
    Ensures.getting fun d h => h.target ▸ Ensures.bind (Ensures.tried resumable_disconnectTarget)
      fun _ => Ensures.throw fun _ => id
  cases reply with
  | ack key =>
    exact Ensures.bind (resumable_setEstablished true) fun _ => resumable_onStats fun _ => by rfl
  | _ => exact hrefused

/-- A target that is told of any other error than a resume key that is gone can still resume. -/
theorem resumable_refuse {e : Error}
    (he : ∀ requested earliest, e ≠ .resumeKeyCompacted requested earliest) :
    KeepsResumable A source target since? (refuse (.wire A) e) := by
  have hreject : KeepsResumable A source target since? (exchange (.wire A) e.rejection) := by
    intro d h
    rcases resumable_exchange A e.rejection d ⟨h, fun f' hread => by
      rw [hread.same trivial trivial]
      exact Error.rejectCode_ne he⟩ with ⟨reply, d', hok, h', -⟩ | hfailed
    · exact .inl ⟨reply, d', hok, h'⟩
    · exact .inr hfailed
  exact Ensures.bind (Ensures.tried hreject) fun _ => Ensures.throw fun _ => id

/-- No attempt to establish the channel finds that the resume key is gone. -/
theorem resumable_establish :
    KeepsResumable A source target since? (establish (.wire A)) := by
  refine Ensures.bind (resumable_setEstablished false) fun _ => Ensures.bind resumable_connect fun _ =>
    Ensures.getting fun d h => ?_
  rw [h.source]
  refine Ensures.bind (resumable_announce _) fun reply => Ensures.bind
    (Ensures.decided (Q := Asked A source target since?) (fun request d hrequest h =>
      ⟨h.1, h.2 request (expectHandshake_ok hrequest)⟩) fun _ h => h.1) fun request =>
    Ensures.bind (resumable_handshake request) fun result => ?_
  cases result with
  | ok response =>
    exact (resumable_answerHandshake response).mono (fun _ h => h.1 response rfl) fun _ => id
  | error e =>
    intro d h
    obtain ⟨hresumable, hne⟩ := h.2 e rfl
    dsimp only
    split
    · exact absurd rfl (hne _ _)
    · exact resumable_refuse hne d hresumable

/-! ## Batches -/

/-- What is acknowledged is confirmed by the target. -/
theorem resumable_ship (ps : List Packet) :
    Ensures (Resumable A source target since?) (ship (.wire A) ps)
      (fun key d => Resumable A source target since? d ∧ key = (targetChannel source d).lastConfirmed)
      (Resumable A source target since?) := by
  have hexchange : Ensures (Resumable A source target since?) (exchange (.wire A) (.batch ps))
      (fun reply d => Resumable A source target since? d ∧ (targetChannel source d).Answers reply)
      (Resumable A source target since?) := by
    intro d h
    refine resumable_exchange A (.batch ps) d ⟨h, fun f' hread => ?_⟩
    -- numbers that did not fit were cut, but what was read is still a batch
    have htype := hread.type
    cases f' with
    | batch ps' => exact fun p hp => (hread.fits p hp).1
    | _ => cases htype
  refine Ensures.bind hexchange fun reply => ?_
  cases reply with
  | ack key =>
    refine Ensures.pure fun d h => ⟨h.1, ?_⟩
    cases h.2
    rfl
  | _ => exact Ensures.throw fun _ h => h.1

theorem resumable_confirm (key : Nat) :
    Ensures (fun d => Resumable A source target since? d ∧ key = (targetChannel source d).lastConfirmed)
      (onBacklog (Backlog.confirm target key)) (fun _ => Resumable A source target since?)
      (Resumable A source target since?) := by
  rintro d ⟨h, hkey⟩
  have hperform : (onBacklog (Backlog.confirm target key)).perform d
      = (((Backlog.confirm target key).perform d.backlog).1,
          { d with backlog := Operation.after d.backlog (.confirm target key) }) := rfl
  have hafter : Resumable A source target since?
      { d with backlog := Operation.after d.backlog (.confirm target key) } := by
    refine h.counting (h.retains.quiet (fun heq => by cases heq) rfl) fun hpending => ?_
    obtain ⟨low, hlow, hle⟩ := h.confirmed hpending
    obtain ⟨low', hlow', hle'⟩ := Backlog.lastConfirmed?_confirm hlow key
    exact ⟨low', hlow', Nat.le_trans hle' (Nat.max_le.2 ⟨hle, Nat.le_of_eq hkey⟩)⟩
  cases hresult : ((Backlog.confirm target key).perform d.backlog).1 with
  | ok _ => exact .inl ⟨_, _, hresult ▸ hperform, hafter⟩
  | error e => exact .inr ⟨e, _, hresult ▸ hperform, hafter⟩

theorem resumable_step (force : Bool) :
    KeepsResumable A source target since? (step (.wire A) force) := by
  intro d h
  rw [step, perform_get_bind]
  cases hestablished : d.worker.established with
  | false =>
    simp only [hestablished, Bool.not_false, if_true]
    exact .inr ⟨_, d, perform_throw_bind .., h⟩
  | true =>
    simp only [hestablished, Bool.not_true, Bool.false_eq_true, if_false]
    rw [h.target]
    have hpolled : KeepsResumable A source target since? (onBacklog (Backlog.poll target force)) :=
      ensures_onBacklog (.poll target force) (fun _ => rfl) fun _ h => h.quiet trivial rfl
    refine Ensures.bind hpolled (fun batch? => ?_) d h
    cases batch? with
    | none => exact Ensures.pure fun _ => id
    | some ps =>
      refine Ensures.bind (Ensures.attempted (resumable_ship ps)) fun result => ?_
      cases result with
      | ok key =>
        exact Ensures.bind ((Ensures.unanswered (resumable_confirm key)).mono
          (fun _ h => h.1 key rfl) fun _ => id) fun _ =>
            Ensures.bind (resumable_onStats fun _ => by rfl) fun _ => Ensures.pure fun _ => id
      | error e =>
        have hrecorded : KeepsResumable A source target since?
            (onBacklog (Backlog.recordError target ((ps.head?.map (·.key)).getD 0) e)) :=
          ensures_onBacklog (.recordError target _ e) (fun _ => rfl) fun _ h => h.quiet trivial rfl
        exact Ensures.bind ((resumable_onStats fun _ => by rfl).mono (fun _ h => h.2 e rfl) fun _ => id)
          fun _ => Ensures.bind (Ensures.unanswered hrecorded) fun _ => Ensures.throw fun _ => id

theorem resumable_deliverUpTo (fuel : Nat) :
    KeepsResumable A source target since? (deliverUpTo (.wire A) fuel) := by
  induction fuel with
  | zero => exact Ensures.pure fun _ => id
  | succ fuel ih =>
    refine Ensures.bind (resumable_step true) fun shipped => ?_
    cases shipped with
    | zero => exact Ensures.pure fun _ => id
    | succ n => exact Ensures.bind ih fun _ => Ensures.pure fun _ => id

theorem resumable_hangUp :
    KeepsResumable A source target since? (disconnect (.wire A)) := by
  refine Ensures.bind (resumable_setEstablished false) fun _ => Ensures.getting fun d h => ?_
  rw [h.target]
  have hclose : KeepsResumable A source target since? (onLink (Transport.wire A).close) :=
    fun d h => .inl ⟨(), _, rfl, h.relinked h.anchored.closed⟩
  exact Ensures.bind (Ensures.tried resumable_disconnectTarget) fun _ => Ensures.tried hclose

theorem resumable_deliverPending :
    KeepsResumable A source target since? (deliverPending (.wire A)) := by
  intro d h
  rw [deliverPending, perform_get_bind]
  exact resumable_deliverUpTo _ d h

/-! ## Runs -/

/-- Nobody but the worker makes a handshake with its target, confirms keys for it or detaches its
channel, and the log stays open. -/
def Event.Leaves (target : String) : Event → Prop
  | operate op => op.Leaves target
  | _ => True

/-- Every event leaves a target that can resume. -/
theorem Resumable.after {c : Course ρ} (h : Resumable A source target since? c.delivery) {e : Event}
    (he : e.Leaves target) (hkeys : (c.after A e).delivery.backlog.nextKey < 2 ^ 64) :
    Resumable A source target since? (c.after A e).delivery := by
  cases e with
  | operate op => exact h.operated he hkeys
  | establish => exact resumable_establish.keeps _ h
  | step force => exact (Ensures.unanswered (resumable_step force)).keeps _ h
  | deliver => exact (Ensures.unanswered resumable_deliverPending).keeps _ h
  | disconnect => exact resumable_hangUp.keeps _ h
  | sever => exact h.relinked (w := c.delivery.link.setSevered true) h.anchored
  | heal => exact h.relinked (w := c.delivery.link.setSevered false) h.anchored

/-- What every event leaves is left by any run of them. -/
theorem Resumable.run {c : Course ρ} (h : Resumable A source target since? c.delivery)
    (events : List Event) (hleaves : ∀ e ∈ events, e.Leaves target)
    (hkeys : (c.run A events).delivery.backlog.nextKey < 2 ^ 64) :
    Resumable A source target since? (c.run A events).delivery := by
  induction events generalizing c with
  | nil => exact h
  | cons e events ih =>
    have hkey := Nat.lt_of_le_of_lt ((c.after A e).nextKey_le_run A events) hkeys
    exact ih (h.after (hleaves e (List.mem_cons_self ..)) hkey)
      (fun e he => hleaves e (List.mem_cons_of_mem _ he)) hkeys

/-- From a handshake of the target on, its copy is what is made of the copy it has now. -/
theorem Resumable.working (h : Resumable A source target none d)
    (hhandshakes : 0 < (targetChannel source d).stats.handshakes) :
    Resumable A source target (some d.link.ends.group.replica) d := by
  have hsteady := h.steady
  refine ⟨h.retains, ⟨h.anchored.serves, hsteady.bounded, hsteady.behind, hsteady.done, ?_⟩,
    h.resyncs, h.source, h.target⟩
  intro copy hcopy
  cases hcopy
  exact ⟨hsteady.done hhandshakes, .refl⟩

section Start

variable {membership : Membership} {settings : BacklogSettings} {log : PacketLog}
  {worker : DeliverySettings} {members : Membership} {policy : AttachPolicy}
  {conflicts : ConflictSettings} {replica : ρ} {cuts : List Bool}

/-- A worker that begins, with a group that has heard of no source. -/
theorem resumable_start (hlog : log.Reachable) (hopen : log.isClosed = false)
    (hreject : settings.fullPolicy = .reject)
    (hkeys : (Backlog.ofLog membership settings log).nextKey < 2 ^ 64) :
    Resumable A source target none (Course.start (.ofLog membership settings log)
      (.new source target worker) cuts (.new members policy conflicts replica)).delivery := by
  obtain ⟨kept, hholds, -⟩ := hlog.holds
  exact ⟨⟨hopen, hreject, hkeys, kept, hholds, rfl, fun _ _ hc => by cases hc⟩, Wire.anchored_new,
    rfl, rfl, rfl⟩

/-- Over any open log that came about by its own operations, and in any run in which the link may be
cut before any frame: a backlog that rejects packets when it is full never counts on more than its target
has confirmed, unless the target is about to start over. So what the target asks for is never gone, no
attempt to establish the channel made the target start over, and once a handshake was completed, the
copy only changes by what is applied to it. -/
theorem resume_never_refused (hlog : log.Reachable) (hopen : log.isClosed = false)
    (hreject : settings.fullPolicy = .reject) (events : List Event)
    (hleaves : ∀ e ∈ events, e.Leaves target)
    (hkeys : ((Course.start (.ofLog membership settings log) (.new source target worker) cuts
      (.new members policy conflicts replica)).run A events).delivery.backlog.nextKey < 2 ^ 64) :
    let first := Course.start (.ofLog membership settings log) (.new source target worker) cuts
      (.new members policy conflicts replica)
    let c := first.run A events
    ((c.channel source).request.first = true ∨ ∀ s, c.delivery.backlog.channel? target = some s →
        s.lastConfirmed ≤ (c.channel source).lastConfirmed) ∧
      (∀ requested earliest, negotiate (c.channel source).request c.delivery.backlog.retained
        ≠ .error (.resumeKeyCompacted requested earliest)) ∧
      c.delivery.worker.stats.resyncs = 0 ∧
      ∀ past rest, events = past ++ rest → 0 < ((first.run A past).channel source).stats.handshakes →
        A.Works (first.run A past).replica c.replica := by
  intro first c
  have hstart : Resumable A source target none first.delivery :=
    resumable_start hlog hopen hreject (Nat.lt_of_le_of_lt (first.nextKey_le_run A events) hkeys)
  have hend : Resumable A source target none c.delivery := hstart.run events hleaves hkeys
  have hbehind : (c.channel source).request.first = false →
      ∃ low, c.delivery.backlog.lastConfirmed? target = some low ∧
        low ≤ (c.channel source).request.lastConfirmed := hend.resuming
  refine ⟨?_, negotiate_retained fun hresume => ?_, hend.resyncs, ?_⟩
  · cases hresume : (c.channel source).request.first with
    | true => exact .inl rfl
    | false =>
      obtain ⟨low, hlow, hle⟩ := hbehind hresume
      rw [TargetChannel.request_lastConfirmed hresume] at hle
      refine .inr fun s hs => ?_
      rw [Backlog.lastConfirmed?, hs] at hlow
      cases hlow
      exact hle
  · obtain ⟨low, hlow, hle⟩ := hbehind hresume
    have hearliest := hend.retains.earliest_le hlow
    omega
  · rintro past rest rfl hhandshakes
    have hsplit : c = (first.run A past).run A rest := first.run_append A past rest
    have hkeys : c.delivery.backlog.nextKey < 2 ^ 64 := hkeys
    rw [hsplit] at hkeys ⊢
    have hpast : Resumable A source target none (first.run A past).delivery :=
      hstart.run past (fun e he => hleaves e (List.mem_append_left _ he))
        (Nat.lt_of_le_of_lt (Course.nextKey_le_run A _ rest) hkeys)
    have hrest := (hpast.working hhandshakes).run rest
      (fun e he => hleaves e (List.mem_append_right _ he)) hkeys
    exact (hrest.steady.since _ rfl).2

end Start

/-- A worker of a new backlog whose link is cut before its second batch, and again in the middle of the
handshake after that. -/
def Course.interrupted : Course Replica :=
  .start (.ofLog (.openTo "orders") .standard (.memory (.empty "orders" none)))
    (.new "primary" "backup" .standard) [false, false, false, false, true, false, false, true]
    (.new (.openTo "orders") .singleActiveSource .standard (.empty false))

/-- The first order was compacted when the link was cut, and the target resumes behind it. -/
theorem resume_never_refused_interrupted :
    let past := [.establish, .order "a", .deliver]
    let rest := [.operate (.compact 10), .order "b", .deliver, .heal, .establish, .heal, .establish,
      .deliver]
    let c := Course.interrupted.run Replica.applier (past ++ rest)
    c.delivery.backlog.retained.earliest = 2 ∧ c.delivery.worker.stats.handshakes = 2 ∧
      c.delivery.worker.stats.resyncs = 0 ∧
      Replica.applier.Works (Course.interrupted.run Replica.applier past).replica c.replica := by
  intro past rest
  have hrun : (Course.interrupted.run Replica.applier (past ++ rest)).delivery.backlog.nextKey < 2 ^ 64 ∧
      (Course.interrupted.run Replica.applier (past ++ rest)).delivery.backlog.retained.earliest = 2 ∧
      (Course.interrupted.run Replica.applier (past ++ rest)).delivery.worker.stats.handshakes = 2 := by
    decide +kernel
  have hhandshakes : 0 < ((Course.interrupted.run Replica.applier past).channel
      "primary").stats.handshakes := by decide +kernel
  have hleaves : ∀ e ∈ past ++ rest, e.Leaves "backup" := by
    simp [past, rest, Event.order, Event.Leaves, Operation.Leaves]
  unfold Course.interrupted at hrun hhandshakes ⊢
  obtain ⟨hkeys, hearliest, hdone⟩ := hrun
  obtain ⟨-, -, hresyncs, hworks⟩ := resume_never_refused (.memory "orders" none) rfl rfl _ hleaves hkeys
  exact ⟨hearliest, hdone, hresyncs, hworks past rest rfl hhandshakes⟩

end Delivery

end GroupReplication
