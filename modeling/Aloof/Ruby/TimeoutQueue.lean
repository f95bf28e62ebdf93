import Aloof.Framework.Condition
import Aloof.Framework.Transition

namespace Aloof.Ruby.TimeoutQueue

open Framework

/-- An object and the number of objects that were accepted before it, which no code reads. -/
structure Item (α : Type) where
  ticket : Nat
  object : α
  deriving DecidableEq

/-- @queue, @max and @closed. The last three fields are history: the objects that were accepted,
that pop returned, and that were deleted or cleared, each in the order of the steps. -/
structure Store (α : Type) where
  queue : List (Item α)
  max : Option Int
  closed : Bool
  accepted : List (Item α)
  returned : List (Item α)
  removed : List (Item α)

namespace Store

variable {α : Type}

def new (max : Option Int) : Store α := ⟨[], max, false, [], [], []⟩

/-- @max and @queue.size == @max. -/
def full (q : Store α) : Bool :=
  match q.max with
  | some max => (q.queue.length : Int) == max
  | none => false

def label (object : α) (q : Store α) : Item α := ⟨q.accepted.length, object⟩

def push (object : α) (q : Store α) : Store α :=
  { q with
    queue := q.queue ++ [q.label object]
    accepted := q.accepted ++ [q.label object] }

def unshift (object : α) (q : Store α) : Store α :=
  { q with
    queue := q.label object :: q.queue
    accepted := q.accepted ++ [q.label object] }

def delete [BEq α] (object : α) (q : Store α) : Store α :=
  { q with
    queue := q.queue.filter fun item => !(item.object == object)
    removed := q.removed ++ q.queue.filter fun item => item.object == object }

def clear (q : Store α) : Store α := { q with queue := [], removed := q.removed ++ q.queue }

def close (q : Store α) : Store α := { q with closed := true }

def shift (q : Store α) : Option (Item α × Store α) :=
  match q.queue with
  | [] => none
  | item :: rest => some (item, { q with queue := rest, returned := q.returned ++ [item] })

end Store

/-- The queue with its threads: @waiting, @received, and the threads that are in the loop of pop,
each with whether it gave a timeout. -/
structure State (τ α : Type) where
  store : Store α
  waiting : List τ
  received : Condition τ
  looping : τ → Option Bool

/-- How a step ends: push and unshift return the object or nil, pop returns an object or waits, and
the others return. -/
inductive Outcome (α : Type) where
  | accepted (item : Item α)
  | dropped
  | popped (item : Item α)
  | waits
  | done
  | closedQueueError
  | threadError

/-- The mutex-protected sections, each with the thread that runs it. A push has the waiter that its
signal wakes, if any, and pop has what the clock says, if it is asked. resume is the section of pop
that follows a wait, and wake ends the sleep of a thread without a signal. -/
inductive Action (τ α : Type) where
  | push (t : τ) (object : α) (woken : Option τ)
  | unshift (t : τ) (object : α) (woken : Option τ)
  | delete (t : τ) (object : α)
  | clear (t : τ)
  | close (t : τ)
  | pop (t : τ) (nonBlock timed expired : Bool)
  | resume (t : τ) (expired : Bool)
  | wake (t : τ) (listed : Bool)

section Methods

variable {τ α : Type} [DecidableEq τ]

def new (max : Option Int) : State τ α := ⟨.new max, [], .new, fun _ => none⟩

/-- __push, with what its block does to the queue. -/
def pushBy (insert : Store α → Store α) (object : α) (woken : Option τ) (s : State τ α) :
    Option (Outcome α × State τ α) :=
  if s.store.closed then some (.closedQueueError, s)
  else if s.store.full then some (.dropped, s)
  else (s.received.signal woken).map fun received =>
    (.accepted (s.store.label object), { s with store := insert s.store, received := received })

def push (object : α) : Option τ → State τ α → Option (Outcome α × State τ α) :=
  pushBy (Store.push object) object

def unshift (object : α) : Option τ → State τ α → Option (Outcome α × State τ α) :=
  pushBy (Store.unshift object) object

def close (s : State τ α) : State τ α :=
  if s.store.closed then s
  else { s with store := s.store.close, received := s.received.wakeAll s.waiting }

/-- @waiting.delete(Thread.current), after the loop of pop. -/
def leave (t : τ) (s : State τ α) : State τ α :=
  { s with
    waiting := s.waiting.filter (· != t)
    looping := Function.update s.looping t none }

/-- pop after its loop. -/
def finish (t : τ) (s : State τ α) : Outcome α × State τ α :=
  match s.store.shift with
  | some (item, store) => (.popped item, { leave t s with store := store })
  | none => (if s.store.closed then .closedQueueError else .threadError, leave t s)

/-- pop from the head of its loop, up to the next wait or the end. -/
def loop (t : τ) (nonBlock timed expired : Bool) (s : State τ α) : Outcome α × State τ α :=
  if s.store.queue.isEmpty && !nonBlock && !s.store.closed then
    if timed && expired then finish t s
    else (.waits, { s with
      received := s.received.wait t
      looping := Function.update s.looping t (some timed) })
  else finish t s

def pop (t : τ) (nonBlock timed expired : Bool) (s : State τ α) : Outcome α × State τ α :=
  loop t nonBlock timed expired { s with waiting := s.waiting ++ [t] }

/-- The end of a wait in the loop of pop. -/
def resume (t : τ) (expired : Bool) (s : State τ α) : Option (Outcome α × State τ α) :=
  match s.looping t with
  | none => none
  | some timed => (s.received.resume t).map fun received =>
    loop t false timed expired { s with received := received }

/-- A thread in the loop of pop calls nothing else. -/
def act [BEq α] (s : State τ α) : Action τ α → Option (Outcome α × State τ α)
  | .push t object woken => if (s.looping t).isNone then push object woken s else none
  | .unshift t object woken => if (s.looping t).isNone then unshift object woken s else none
  | .delete t object =>
    if (s.looping t).isNone then some (.done, { s with store := s.store.delete object }) else none
  | .clear t =>
    if (s.looping t).isNone then some (.done, { s with store := s.store.clear }) else none
  | .close t => if (s.looping t).isNone then some (.done, close s) else none
  | .pop t nonBlock timed expired =>
    if (s.looping t).isNone then some (pop t nonBlock timed expired s) else none
  | .resume t expired => resume t expired s
  | .wake t listed => (s.received.wake t listed).map fun received =>
    (.waits, { s with received := received })

/-- Any number of threads with one queue. -/
def timeoutQueue [BEq α] (max : Option Int) : System (State τ α) (Action τ α) :=
  ⟨new max, fun s a => (act s a).map Prod.snd⟩

end Methods

end Aloof.Ruby.TimeoutQueue
