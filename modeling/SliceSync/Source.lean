import SliceSync.Update
import SliceSync.Error
import SliceSync.Lock
/-!
# The source of updates

Updates of a slice reach their follower through a pair of bounded streams, one for evaluations and one
for builds. A `Source` keeps the current pair of each slice: senders and the follower may come in
either order, and who follows a slice anew gets a new pair. A stream ends when its last sender is
gone; sending fails when the follower is gone.

A sender that finds its stream full waits in line. Each update taken out gives the free place to the
sender that has waited longest.
-/

namespace SliceSync

/-- A bounded stream of updates. -/
structure Stream where
  queue : List Update := []
  /-- How many can still send. -/
  senders : Nat := 0
  /-- The senders that were given a place and have not used it yet. -/
  granted : List JobId := []
  waiting : List JobId := []
  deriving DecidableEq, Inhabited

namespace Stream

/-- Puts an update into a stream that has room for one more. -/
def offer (s : Stream) (capacity : Nat) (u : Update) : Option Stream :=
  if s.queue.length + s.granted.length < capacity then some { s with queue := s.queue ++ [u] } else none

/-- Joins the line of waiting senders. -/
def await (s : Stream) (sender : JobId) : Stream := { s with waiting := s.waiting ++ [sender] }

/-- Puts an update into the place that was given to the sender. -/
def deliver (s : Stream) (sender : JobId) (u : Update) : Option Stream :=
  if s.granted.contains sender then
    some { s with queue := s.queue ++ [u], granted := s.granted.erase sender }
  else none

/-- Takes the oldest update out; its place goes to the sender that has waited longest. -/
def take (s : Stream) : Option (Update × Stream) :=
  match s.queue with
  | [] => none
  | u :: rest =>
    match s.waiting with
    | [] => some (u, { s with queue := rest })
    | next :: others => some (u, { s with queue := rest, granted := s.granted ++ [next], waiting := others })

end Stream

/-- The two streams of a slice. -/
structure StreamPair where
  evaluation : Stream := {}
  build : Stream := {}
  /-- Whether the receiving ends exist. -/
  followed : Bool := true
  deriving DecidableEq, Inhabited

namespace StreamPair

def stream (p : StreamPair) : UpdateKind → Stream
  | .evaluation => p.evaluation
  | .build => p.build

def setStream (p : StreamPair) (kind : UpdateKind) (s : Stream) : StreamPair :=
  match kind with
  | .evaluation => { p with evaluation := s }
  | .build => { p with build := s }

/-- Whether the stream of a kind has something to tell: an update, or that it has ended. -/
def isReady (p : StreamPair) (kind : UpdateKind) : Bool :=
  !(p.stream kind).queue.isEmpty || (p.stream kind).senders = 0

end StreamPair

/-- The current pair of a slice. -/
structure Feed where
  /-- The pair's place among all pairs. -/
  pair : Nat
  /-- Whether the receiving ends have been handed out. -/
  taken : Bool := false
  deriving DecidableEq, Repr

structure Source where
  capacity : Nat
  feeds : Listing Slice Feed := ∅
  /-- All pairs, in the order they were opened. -/
  pairs : List StreamPair := []
  deriving DecidableEq

/-- What reading a stream without waiting yields. -/
inductive Received
  | update (u : Update)
  /-- Nothing has come. -/
  | empty
  /-- Nothing can come any more. -/
  | ended
  deriving DecidableEq

/-- What sending without waiting yields. -/
inductive Sent
  | sent
  | full
  /-- The follower is gone. -/
  | closed
  deriving DecidableEq, Repr

namespace Source

/-- A source whose streams queue so many updates, and at least one. Any capacity is taken here; whether streams of
this length can be opened shows when the first ones are (`Source.canOpen`). -/
def ofCapacity (capacity : Nat) : Source := { capacity := max capacity 1 }

/-- How many updates a stream can queue at most. -/
def capacityLimit : Nat := Nat.pow 2 61 - 1

/-- Whether streams can be opened. Opening longer ones panics. -/
def canOpen (s : Source) : Bool := s.capacity ≤ capacityLimit

/-- The error of sending where nobody follows. -/
def closedError : SyncError := .subscription "update stream is closed"

def modifyPair (s : Source) (pair : Nat) (f : StreamPair → StreamPair) : Source :=
  { s with pairs := s.pairs.modify pair f }

/-- Opens a pair for a slice; the feed counts as one of its senders. -/
def openFeed (s : Source) (slice : Slice) (taken : Bool) : Source × Nat :=
  ({ s with
      feeds := s.feeds.insert slice ⟨s.pairs.length, taken⟩
      pairs := s.pairs ++ [{ evaluation := { senders := 1 }, build := { senders := 1 } }] }, s.pairs.length)

def addSender (s : Source) (pair : Nat) : Source :=
  s.modifyPair pair fun p =>
    { p with
      evaluation := { p.evaluation with senders := p.evaluation.senders + 1 }
      build := { p.build with senders := p.build.senders + 1 } }

def dropSender (s : Source) (pair : Nat) : Source :=
  s.modifyPair pair fun p =>
    { p with
      evaluation := { p.evaluation with senders := p.evaluation.senders - 1 }
      build := { p.build with senders := p.build.senders - 1 } }

/-- Gives the receiving ends up; what is queued is lost. -/
def dropReceivers (s : Source) (pair : Nat) : Source :=
  s.modifyPair pair fun p =>
    { p with
      evaluation := { p.evaluation with queue := [] }
      build := { p.build with queue := [] }
      followed := false }

/-- A sender for the slice's current pair, which is opened if there is none. -/
def sender (s : Source) (slice : Slice) : Source × Nat :=
  let (s, pair) :=
    match s.feeds.get? slice with
    | some feed => (s, feed.pair)
    | none => s.openFeed slice false
  (s.addSender pair, pair)

/-- The receiving ends of the slice's current pair. If they were handed out before, a new pair takes
the place of the current one. -/
def subscribe (s : Source) (slice : Slice) : Source × Nat :=
  match s.feeds.get? slice with
  | some feed =>
    if feed.taken then (s.dropSender feed.pair).openFeed slice true
    else ({ s with feeds := s.feeds.insert slice { feed with taken := true } }, feed.pair)
  | none => s.openFeed slice true

/-- Forgets the slice's pair. Its streams end with the last sender that was taken. -/
def close (s : Source) (slice : Slice) : Source :=
  match s.feeds.get? slice with
  | some feed =>
    let s := { s with feeds := s.feeds.erase slice }.dropSender feed.pair
    if feed.taken then s else s.dropReceivers feed.pair
  | none => s

/-- Whether sending on a pair is of no use. -/
def isClosed (s : Source) (pair : Nat) : Bool :=
  match s.pairs[pair]? with
  | some p => !p.followed
  | none => true

/-- Sends an update on the stream of its kind, if there is room or a place was given to the sender. -/
def send (s : Source) (pair : Nat) (job : JobId) (waited : Bool) (u : Update) : Source × Sent :=
  match s.pairs[pair]? with
  | none => (s, .closed)
  | some p =>
    if !p.followed then (s, .closed)
    else
      let stream := p.stream u.kind
      match if waited then stream.deliver job u else stream.offer s.capacity u with
      | some stream => (s.modifyPair pair (·.setStream u.kind stream), .sent)
      | none => (s, .full)

/-- Joins the line of senders on a full stream. -/
def await (s : Source) (pair : Nat) (job : JobId) (kind : UpdateKind) : Source :=
  s.modifyPair pair fun p => p.setStream kind ((p.stream kind).await job)

/-- Whether a waiting sender can go on. -/
def isGranted (s : Source) (pair : Nat) (job : JobId) (kind : UpdateKind) : Bool :=
  match s.pairs[pair]? with
  | some p => (p.stream kind).granted.contains job
  | none => true

def receive (s : Source) (pair : Nat) (kind : UpdateKind) : Source × Received :=
  match s.pairs[pair]? with
  | none => (s, .ended)
  | some p =>
    match (p.stream kind).take with
    | some (u, stream) => (s.modifyPair pair (·.setStream kind stream), .update u)
    | none => (s, if (p.stream kind).senders = 0 then .ended else .empty)

def isReady (s : Source) (pair : Nat) (kind : UpdateKind) : Bool :=
  match s.pairs[pair]? with
  | some p => p.isReady kind
  | none => true

end Source

end SliceSync
