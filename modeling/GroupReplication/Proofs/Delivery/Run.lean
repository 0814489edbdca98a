/-
Runs of a delivery: what can happen to a worker, its backlog and its link, in any order. Whatever a
worker does, its backlog only goes through operations of its own that log nothing, so a run of a delivery
is a run of its backlog too (`Course.backlog_run`).
-/
import GroupReplication.Proofs.Backlog.Deliveries
import GroupReplication.Proofs.Delivery.Wire
import Mathlib.Data.List.Induction

namespace GroupReplication

open GroupReplication.Action

/-! ## Operations that log nothing -/

namespace Operation

def isAdd : Operation → Bool
  | add .. => true
  | _ => false

end Operation

theorem Turn.appended?_of_not_add {b : Backlog} {op : Operation} (h : op.isAdd = false) :
    Turn.appended? ⟨b, op⟩ = none := by
  cases op with
  | add => cases h
  | _ => rfl

/-- The backlog after operations that log nothing. -/
inductive Backlog.Operated (b : Backlog) : Backlog → Prop where
  | refl : Operated b b
  | step {b' : Backlog} (h : Operated b b') (op : Operation) (hop : op.isAdd = false) :
      Operated b (op.after b')

theorem Backlog.Operated.run {b b' : Backlog} (h : b.Operated b') (turns : List Turn) :
    ∃ ops, ((Run.mk b turns).steps ops).backlog = b' ∧
      Turn.appended ((Run.mk b turns).steps ops).turns = Turn.appended turns := by
  induction h with
  | refl => exact ⟨[], rfl, rfl⟩
  | step _ op hop ih =>
    obtain ⟨ops, hb, hturns⟩ := ih
    refine ⟨ops ++ [op], ?_, ?_⟩
    · rw [Run.steps, List.foldl_append]
      exact congrArg op.after hb
    · rw [Run.steps, List.foldl_append]
      show Turn.appended _ ++ (Turn.appended? ⟨_, op⟩).toList = _
      rw [Turn.appended?_of_not_add hop]
      exact (List.append_nil _).trans hturns

namespace Delivery

/-- What an operation on the backlog does to a delivery. -/
theorem ensures_onBacklog {τ α : Type} {act : Action Backlog α} (op : Operation)
    (hop : ∀ b, (act.perform b).2 = op.after b) {P : Delivery τ → Prop}
    (hP : ∀ d, P d → P { d with backlog := op.after d.backlog }) :
    Ensures P (onBacklog act) (fun _ => P) P := by
  intro d hd
  have hperform : (onBacklog act).perform d
      = ((act.perform d.backlog).1, { d with backlog := op.after d.backlog }) :=
    congrArg (fun b => ((act.perform d.backlog).1, { d with backlog := b })) (hop d.backlog)
  cases hresult : (act.perform d.backlog).1 with
  | ok _ => exact .inl ⟨_, _, hresult ▸ hperform, hP d hd⟩
  | error e => exact .inr ⟨_, _, hresult ▸ hperform, hP d hd⟩

theorem expectHandshake_ok {reply : Frame} {request : HandshakeRequest}
    (h : expectHandshake reply = .ok request) : reply = .handshake request := by
  unfold expectHandshake at h
  split at h
  · cases h
    rfl
  · cases h

section Operated

variable {τ α : Type} {b : Backlog}

/-- The operation does nothing to the backlog but operations that log nothing. -/
abbrev Operates (b : Backlog) (act : Action (Delivery τ) α) : Prop :=
  Keeps (fun d => b.Operated d.backlog) act

theorem operates_modify {f : Delivery τ → Delivery τ} (h : ∀ d, (f d).backlog = d.backlog) :
    Operates b (modify f : Action (Delivery τ) PUnit) := by
  intro d hd
  rw [perform_modify, h]
  exact hd

theorem operates_onLink (act : Action τ α) : Operates b (onLink act) := fun _ hd => hd

theorem operates_onBacklog {act : Action Backlog α} (op : Operation)
    (hperform : ∀ b, (act.perform b).2 = op.after b) (hop : op.isAdd = false) :
    Operates (τ := τ) b (onBacklog act) := by
  intro d hd
  show b.Operated (act.perform d.backlog).2
  rw [hperform]
  exact hd.step op hop

theorem operates_attempt {act : Action (Delivery τ) α} (h : Operates b act) :
    Operates b act.attempt := by
  intro d hd
  rw [perform_attempt]
  exact h d hd

theorem operates_exchange (T : Transport τ) (f : Frame) : Operates b (exchange T f) :=
  Keeps.bind (.decided _) fun _ => Keeps.bind (operates_onLink _) fun _ => .decided _

theorem operates_disconnectTarget (target : String) :
    Operates (τ := τ) b (onBacklog (Backlog.disconnect target)) :=
  operates_onBacklog (.disconnect target) (fun _ => rfl) rfl

theorem operates_answerHandshake (T : Transport τ) (response : HandshakeResponse) :
    Operates b (answerHandshake T response) := by
  refine Keeps.bind (operates_exchange _ _) fun reply => ?_
  have hrefused : Operates b (do
      discard <| Action.attempt (onBacklog (Backlog.disconnect (← get).worker.target))
      throw (unexpectedReply reply .handshakeReply) : Action (Delivery τ) Unit) :=
    Keeps.bind .get fun _ => Keeps.bind
      (.discard (operates_attempt (operates_disconnectTarget _))) fun _ => .throw _
  cases reply with
  | ack key =>
    exact Keeps.bind (operates_modify fun _ => rfl) fun _ => operates_modify fun _ => rfl
  | _ => exact hrefused

theorem operates_refuse (T : Transport τ) (e : Error) : Operates b (refuse T e) :=
  Keeps.bind (.discard (operates_attempt (operates_exchange _ _))) fun _ => .throw _

theorem operates_demandResync (T : Transport τ) (e : Error) : Operates b (demandResync T e) := by
  refine Keeps.bind (operates_modify fun _ => rfl) fun _ => Keeps.bind (operates_exchange _ _) fun _ =>
    Keeps.bind (.decided _) fun request => ?_
  cases hfirst : request.first with
  | true =>
    simp only [Bool.not_true, Bool.false_eq_true, if_false]
    exact .pure _
  | false =>
    simp only [Bool.not_false, if_true]
    exact .throw_bind _ _

theorem operates_handshake (request : HandshakeRequest) :
    Operates (τ := τ) b (handshake request) :=
  Keeps.bind .get fun _ => operates_attempt
    (operates_onBacklog (.handshake _ request) (fun _ => rfl) rfl)

theorem operates_establish (T : Transport τ) : Operates b (establish T) := by
  refine Keeps.bind (operates_modify fun _ => rfl) fun _ => Keeps.bind (operates_onLink _) fun _ =>
    Keeps.bind .get fun _ => Keeps.bind (operates_exchange _ _) fun _ => Keeps.bind (.decided _)
      fun request => Keeps.bind (operates_handshake request) fun result => ?_
  cases result with
  | ok response => exact operates_answerHandshake T response
  | error e =>
    dsimp only
    split
    · refine Keeps.bind (operates_demandResync T _) fun request =>
        Keeps.bind (operates_handshake request) fun result => ?_
      cases result with
      | ok response => exact operates_answerHandshake T response
      | error e => exact operates_refuse T e
    · exact operates_refuse T _

theorem operates_ship (T : Transport τ) (ps : List Packet) : Operates b (ship T ps) := by
  refine Keeps.bind (operates_exchange _ _) fun reply => ?_
  cases reply with
  | ack key => exact .pure _
  | _ => exact .throw _

theorem operates_step (T : Transport τ) (force : Bool) : Operates b (step T force) := by
  refine Keeps.bind .get fun d => Keeps.ite (.throw_bind _ _) ?_
  refine Keeps.bind (operates_onBacklog (.poll d.worker.target force) (fun _ => rfl) rfl)
    fun batch? => ?_
  cases batch? with
  | none => exact .pure _
  | some ps =>
    refine Keeps.bind (operates_attempt (operates_ship T ps)) fun result => ?_
    cases result with
    | ok key =>
      exact Keeps.bind (.discard (operates_onBacklog (.confirm _ key) (fun _ => rfl) rfl)) fun _ =>
        Keeps.bind (operates_modify fun _ => rfl) fun _ => .pure _
    | error e =>
      exact Keeps.bind (operates_modify fun _ => rfl) fun _ => Keeps.bind
        (.discard (operates_onBacklog (.recordError _ _ e) (fun _ => rfl) rfl)) fun _ => .throw _

theorem operates_deliverUpTo (T : Transport τ) (fuel : Nat) : Operates b (deliverUpTo T fuel) := by
  induction fuel with
  | zero => exact .pure _
  | succ fuel ih =>
    refine Keeps.bind (operates_step T true) fun shipped => ?_
    cases shipped with
    | zero => exact .pure _
    | succ n => exact Keeps.bind ih fun _ => .pure _

theorem operates_deliverPending (T : Transport τ) : Operates b (deliverPending T) := by
  intro d hd
  rw [deliverPending, perform_get_bind]
  exact operates_deliverUpTo T _ d hd

theorem operates_disconnect (T : Transport τ) : Operates b (disconnect T) :=
  Keeps.bind (operates_modify fun _ => rfl) fun _ => Keeps.bind .get fun _ =>
    Keeps.bind (.discard (operates_attempt (operates_disconnectTarget _))) fun _ =>
      .discard (operates_attempt (operates_onLink _))

end Operated

/-! ## Runs -/

/-- What can happen to a delivery. The link is cut by itself as well, before the frames that its
`cuts` say. -/
inductive Event where
  | operate (op : Operation)
  | establish
  | step (force : Bool)
  | deliver
  | disconnect
  | sever
  | heal

namespace Event

variable {ρ : Type}

def act (A : Applier ρ) : Event → Action (Delivery (Wire ρ)) Unit
  | operate op => modify fun d => { d with backlog := op.after d.backlog }
  | establish => Delivery.establish (.wire A)
  | step force => Functor.discard (Delivery.step (.wire A) force)
  | deliver => Functor.discard (deliverPending (.wire A))
  | disconnect => Delivery.disconnect (.wire A)
  | sever => modify fun d => { d with link := d.link.setSevered true }
  | heal => modify fun d => { d with link := d.link.setSevered false }

/-- The packet that is logged. -/
def appended? (b : Backlog) : Event → Option Packet
  | operate op => Turn.appended? ⟨b, op⟩
  | _ => none

/-- Nobody but the worker makes a handshake with its target, or polls the target's channel. -/
def Spares (target : String) : Event → Prop
  | operate (.handshake name _) => name ≠ target
  | operate (.poll name _) => name ≠ target
  | _ => True

end Event

/-- A delivery, and the packets that were logged in the course of it. -/
structure Course (ρ : Type) where
  delivery : Delivery (Wire ρ)
  logged : List Packet

namespace Course

variable {ρ : Type}

/-- A worker that begins, with nothing on the other side of the link but a new group. -/
def start (b : Backlog) (w : Worker) (cuts : List Bool) (g : TargetGroup ρ) : Course ρ :=
  ⟨⟨w, b, .new cuts g⟩, []⟩

def after (A : Applier ρ) (c : Course ρ) (e : Event) : Course ρ where
  delivery := ((e.act A).perform c.delivery).2
  logged := c.logged ++ (e.appended? c.delivery.backlog).toList

def run (A : Applier ρ) (c : Course ρ) (events : List Event) : Course ρ := events.foldl (after A) c

/-- The event succeeds. -/
def EndsWell (A : Applier ρ) (c : Course ρ) (e : Event) : Prop :=
  ((e.act A).perform c.delivery).1 = .ok ()

/-- All events succeed, one after the other. -/
def AllEndWell (A : Applier ρ) : Course ρ → List Event → Prop
  | _, [] => True
  | c, e :: events => c.EndsWell A e ∧ (c.after A e).AllEndWell A events

theorem run_append (A : Applier ρ) (c : Course ρ) (past events : List Event) :
    c.run A (past ++ events) = (c.run A past).run A events := List.foldl_append ..

theorem allEndWell_append (A : Applier ρ) (c : Course ρ) (past events : List Event) :
    c.AllEndWell A (past ++ events) ↔ c.AllEndWell A past ∧ (c.run A past).AllEndWell A events := by
  induction past generalizing c with
  | nil => exact ⟨fun h => ⟨trivial, h⟩, And.right⟩
  | cons e past ih => exact (and_congr_right fun _ => ih (c.after A e)).trans and_assoc.symm

theorem logged_run (A : Applier ρ) (c : Course ρ) (events : List Event) :
    c.logged <+: (c.run A events).logged := by
  induction events generalizing c with
  | nil => exact List.prefix_refl _
  | cons e events ih => exact (List.prefix_append _ _).trans (ih (c.after A e))

/-- Only an operation of its own can log something in a backlog. -/
theorem operated_after (A : Applier ρ) (c : Course ρ) (e : Event) :
    (∃ op, e = .operate op) ∨
      c.delivery.backlog.Operated (c.after A e).delivery.backlog ∧
        e.appended? c.delivery.backlog = none := by
  cases e with
  | operate op => exact .inl ⟨op, rfl⟩
  | establish => exact .inr ⟨operates_establish (.wire A) c.delivery .refl, rfl⟩
  | step force => exact .inr ⟨Keeps.discard (operates_step (.wire A) force) c.delivery .refl, rfl⟩
  | deliver => exact .inr ⟨Keeps.discard (operates_deliverPending (.wire A)) c.delivery .refl, rfl⟩
  | disconnect => exact .inr ⟨operates_disconnect (.wire A) c.delivery .refl, rfl⟩
  | sever => exact .inr ⟨.refl, rfl⟩
  | heal => exact .inr ⟨.refl, rfl⟩

/-- Keys only grow. -/
theorem nextKey_le_run (A : Applier ρ) (c : Course ρ) (events : List Event) :
    c.delivery.backlog.nextKey ≤ (c.run A events).delivery.backlog.nextKey := by
  induction events generalizing c with
  | nil => exact Nat.le_refl _
  | cons e events ih =>
    refine Nat.le_trans ?_ (ih (c.after A e))
    rcases operated_after A c e with ⟨op, rfl⟩ | ⟨hoperated, -⟩
    · exact Backlog.nextKey_le_after c.delivery.backlog op
    · generalize (c.after A e).delivery.backlog = b at hoperated
      induction hoperated with
      | refl => exact Nat.le_refl _
      | step _ op _ ih => exact Nat.le_trans ih (Backlog.nextKey_le_after _ op)

/-- An event takes the backlog through operations. -/
theorem backlog_after (A : Applier ρ) (c : Course ρ) (e : Event) {b : Backlog} {ops : List Operation}
    (hb : (b.run ops).backlog = c.delivery.backlog)
    (hlogged : Turn.appended (b.run ops).turns = c.logged) :
    ∃ more, (b.run (ops ++ more)).backlog = (c.after A e).delivery.backlog ∧
      Turn.appended (b.run (ops ++ more)).turns = (c.after A e).logged := by
  have hrun : ∀ more, b.run (ops ++ more) = (b.run ops).steps more := fun more => List.foldl_append ..
  rcases operated_after A c e with ⟨op, rfl⟩ | ⟨hoperated, hnone⟩
  · refine ⟨[op], ?_, ?_⟩
    · rw [hrun]
      exact congrArg op.after hb
    · rw [hrun]
      show Turn.appended (b.run ops).turns ++ (Turn.appended? ⟨(b.run ops).backlog, op⟩).toList = _
      rw [hlogged, hb]
      rfl
  · obtain ⟨more, hmore, hturns⟩ := (hb ▸ hoperated).run (b.run ops).turns
    refine ⟨more, by rw [hrun]; exact hmore, ?_⟩
    rw [hrun, after, hnone, Option.toList_none, List.append_nil, ← hlogged]
    exact hturns

/-- A course of a delivery is a run of its backlog. -/
theorem backlog_run (A : Applier ρ) (b : Backlog) (w : Worker) (cuts : List Bool) (g : TargetGroup ρ)
    (events : List Event) : ∃ ops,
      (b.run ops).backlog = ((start b w cuts g).run A events).delivery.backlog ∧
      Turn.appended (b.run ops).turns = ((start b w cuts g).run A events).logged := by
  induction events using List.reverseRecOn with
  | nil => exact ⟨[], rfl, rfl⟩
  | append_singleton events e ih =>
    obtain ⟨ops, hb, hlogged⟩ := ih
    obtain ⟨more, hmore⟩ := backlog_after A _ e hb hlogged
    rw [run_append]
    exact ⟨ops ++ more, hmore⟩

end Course

end Delivery

end GroupReplication
