import Kademlia.Table

/-!
# Sessions

A session is a routing table together with the clock that its operations read. The clock moves only by an operation of its own,
forwards or backwards, so what a run of operations does is a function of the operations alone.
-/

namespace Kademlia

/-- A table and the time. -/
structure Session where
  now : Int
  table : Table
deriving DecidableEq

/-- What a session can be asked to do. The age of a node that is inserted is how long before now its status was set. -/
inductive Operation
  | advance (ms : Int)
  | insert (contact : Contact) (status : Status) (age : Int)
  | update (id : Key) (status : Status) (family : Family)
  | clear
  | find (id : Key) (family : Family)
  | closest (target : Key) (family : Family) (count : Option Nat)
  | tally (family : Family)
  | nodes (family : Family)
  | buckets (family : Family)
deriving DecidableEq

/-- What a session says in return. -/
inductive Answer
  | done
  | outcome (outcome : Outcome)
  | known (known : Bool)
  | node (node : Option Node)
  | nodes (nodes : List Node)
  | tally (tally : Tally)
  | buckets (buckets : List Bucket)
deriving DecidableEq

/-- One operation's effect: the session afterwards, what is said, and what is reported. -/
structure Reply where
  session : Session
  answer : Answer
  events : List Event
deriving DecidableEq

namespace Session

/-- The start of a session at time zero. -/
def start (config : Config) : Session := ⟨0, Table.empty config 0⟩

/-- Does one operation. -/
def step (s : Session) : Operation → Reply
  | .advance ms => ⟨{ s with now := s.now + ms }, .done, []⟩
  | .insert contact status age =>
    let insertion := s.table.insert s.now ⟨contact, status, s.now - age⟩
    ⟨{ s with table := insertion.state }, .outcome insertion.outcome, insertion.events⟩
  | .update id status family =>
    match s.table.update? id status family s.now with
    | some table => ⟨{ s with table }, .known true, []⟩
    | none => ⟨s, .known false, []⟩
  | .clear =>
    let (table, events) := s.table.clear s.now
    ⟨{ s with table }, .done, events⟩
  | .find id family => ⟨s, .node (s.table.find? id family), []⟩
  | .closest target family count => ⟨s, .nodes (s.table.closest target family count), []⟩
  | .tally family => ⟨s, .tally (s.table.tally family s.now), []⟩
  | .nodes family => ⟨s, .nodes (s.table.nodes family), []⟩
  | .buckets family => ⟨s, .buckets (s.table.buckets family), []⟩

/-- Does operations one after the other. -/
def run : Session → List Operation → Session
  | s, [] => s
  | s, op :: ops => (s.step op).session.run ops

/-- The replies of a run, one for each operation. -/
def replies : Session → List Operation → List Reply
  | _, [] => []
  | s, op :: ops => s.step op :: (s.step op).session.replies ops

@[simp] theorem run_nil (s : Session) : s.run [] = s := rfl

@[simp] theorem run_cons (s : Session) (op : Operation) (ops : List Operation) :
    s.run (op :: ops) = (s.step op).session.run ops := rfl

/-- A run can be cut in two: the second part goes on from where the first ends. -/
theorem run_append (s : Session) (ops more : List Operation) : s.run (ops ++ more) = (s.run ops).run more := by
  induction ops generalizing s with
  | nil => rfl
  | cons op ops ih => exact ih (s.step op).session

/-- Each operation of a run has one reply. -/
@[simp] theorem length_replies (s : Session) (ops : List Operation) : (s.replies ops).length = ops.length := by
  induction ops generalizing s with
  | nil => rfl
  | cons op ops ih => simp [replies, ih]

end Session

end Kademlia
