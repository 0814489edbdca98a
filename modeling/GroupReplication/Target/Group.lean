/-
The receiving end of a group. A slot keeps the channel of each source; a source that is
detached finds its channel again when it comes back. With a single active source, no second
one can attach, and attaching closes the channels of sources that are gone. A closed channel
lives on for the connections that still hold it.
-/
import GroupReplication.Target.Channel

namespace GroupReplication

structure Slot where
  /-- The number of the channel among all that the group ever had. -/
  channel : Nat
  attached : Bool
  deriving Repr, DecidableEq

structure TargetGroup (ρ : Type) where
  membership : Membership
  attachPolicy : AttachPolicy
  settings : ConflictSettings
  replica : ρ
  slots : Table String Slot
  channels : List TargetChannel
  journal : List JournalEntry

namespace TargetGroup

variable {ρ : Type}

def new (membership : Membership) (attachPolicy : AttachPolicy) (settings : ConflictSettings)
    (replica : ρ) : TargetGroup ρ :=
  ⟨membership, attachPolicy, settings, replica, [], [], []⟩

def name (g : TargetGroup ρ) : String := g.membership.name

/-- The channel that the slot of a source holds. -/
def channelOf? (g : TargetGroup ρ) (source : String) : Option TargetChannel :=
  (g.slots.get? source).bind fun s => g.channels[s.channel]?

/-- The sources that are attached, by name. -/
def attachedSources (g : TargetGroup ρ) : List String :=
  Table.sortedKeys (g.slots.filter (·.2.attached))

def disconnect (channel : Nat) (g : TargetGroup ρ) : TargetGroup ρ :=
  { g with channels := g.channels.modify channel (·.disconnected) }

/-- Lets a channel work on the copy of the group. -/
def onChannel {α : Type} (channel : Nat) (act : Action (Receiver ρ) α) :
    Action (TargetGroup ρ) α := do
  let g ← get
  match g.channels[channel]? with
  | none => throw (.channel (.notRegistered (toString channel) g.name))
  | some c =>
    let (outcome, r) := act.perform ⟨c, g.replica, g.journal⟩
    set ({ g with
      replica := r.replica
      journal := r.journal
      channels := g.channels.set channel r.channel } : TargetGroup ρ)
    Action.decided outcome

/-- Gives up the slots of all sources but one. -/
def closeOthers (source : String) (g : TargetGroup ρ) : TargetGroup ρ :=
  let stale := g.slots.filter (·.1 ≠ source)
  { stale.foldl (fun g s => g.disconnect s.2.channel) g with
    slots := g.slots.filter (·.1 = source) }

/-- The slot of a source, with a fresh channel if it has none. -/
def openSlot (source : String) (g : TargetGroup ρ) : Nat × TargetGroup ρ :=
  match g.slots.get? source with
  | some s => (s.channel, { g with slots := g.slots.insert source ⟨s.channel, true⟩ })
  | none =>
    let channel := g.channels.length
    (channel, { g with
      channels := g.channels ++ [.fresh g.name source g.settings]
      slots := g.slots.insert source ⟨channel, true⟩ })

/-- Attaches a source and answers its channel. -/
def attach (source : String) : Action (TargetGroup ρ) Nat := do
  let g ← get
  if !g.membership.allowsSource source then
    throw (.unknownMember (.source source g.name))
  if g.attachPolicy = .singleActiveSource then
    if let some (active, _) := g.slots.find? fun s => s.2.attached && s.1 ≠ source then
      throw (.sourceAlreadyAttached g.name active source)
    modify (closeOthers source)
  let (channel, g) := openSlot source (← get)
  set g
  return channel

/-- Detaches a source; its channel stays for a later resume. -/
def detach (source : String) (g : TargetGroup ρ) : TargetGroup ρ :=
  match g.slots.get? source with
  | some s => { g with slots := g.slots.insert source ⟨s.channel, false⟩ }.disconnect s.channel
  | none => g

/-- Forgets a source and its channel. -/
def remove (source : String) (g : TargetGroup ρ) : TargetGroup ρ :=
  { g with slots := g.slots.erase source }

end TargetGroup

end GroupReplication
