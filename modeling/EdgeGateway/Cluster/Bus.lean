import EdgeGateway.Route.Event

/-!
# A bus within one process

Every event that is published goes to all subscribers. A subscriber that has closed or dropped its
end is forgotten when the next event is published; what it had received before it closed can still
be taken.
-/

namespace EdgeGateway

/-- How a subscriber's end is. -/
inductive ReceiverState
  | receiving
  | closed
  | gone
  deriving DecidableEq, Inhabited

/-- A subscriber with the events it has not taken yet. -/
structure Subscriber where
  state : ReceiverState
  known : Bool
  pending : List Event
  deriving DecidableEq, Inhabited

/-- A bus with all the subscribers it ever had. -/
structure Bus where
  subscribers : List Subscriber
  deriving DecidableEq, Inhabited

namespace Bus

def empty : Bus := ⟨[]⟩

/-- The number of subscribers that the bus knows. -/
def size (b : Bus) : Nat := b.subscribers.countP (·.known)

/-- Adds a subscriber; its number is how many there were before. -/
def subscribe (b : Bus) : Bus := ⟨b.subscribers ++ [⟨.receiving, true, []⟩]⟩

/-- Hands the event to a subscriber, or forgets it. -/
def hand (e : Event) (s : Subscriber) : Subscriber :=
  if s.known then
    match s.state with
    | .receiving => { s with pending := s.pending ++ [e] }
    | _ => { s with known := false }
  else s

def publish (b : Bus) (e : Event) : Bus := ⟨b.subscribers.map (hand e)⟩

/-- The subscriber takes nothing new from now on. -/
def close (b : Bus) (i : Nat) : Bus :=
  ⟨b.subscribers.modify i fun s => if s.state = .receiving then { s with state := .closed } else s⟩

/-- The subscriber is gone, with what it had not taken. -/
def drop (b : Bus) (i : Nat) : Bus :=
  ⟨b.subscribers.modify i fun s => { s with state := .gone, pending := [] }⟩

/-- Takes the next event of a subscriber. -/
def receive (b : Bus) (i : Nat) : Option Event × Bus :=
  ((b.subscribers[i]?.map (·.pending.head?)).join,
    ⟨b.subscribers.modify i fun s => { s with pending := s.pending.drop 1 }⟩)

end Bus
end EdgeGateway
