import Kademlia.Node

/-!
# Log messages

What the routing table reports while it works. Each event has a level and a text; those of one address family name it first.
-/

namespace Kademlia

/-- Something that the routing table reports. -/
inductive Event
  | opened (ownId : Key) (maxNodes : Nat) (acceptAll : Bool)
  | tableFull (id : Key)
  | bucketFull (family : Family) (min max id : Key)
  | bucketSplit (family : Family) (mid : Key) (lower upper : Nat)
  | upperHalfDropped (family : Family) (mid min max : Key)
  | bucketMoved (family : Family) (id : Key)
  | gaveUp (family : Family) (id : Key)
  | clearing (nodes : Nat)
deriving DecidableEq

/-- How much an event matters. -/
inductive Level
  | trace
  | debug
  | info
deriving DecidableEq, Repr

/-- The name of a level. -/
def Level.text : Level → String
  | .trace => "TRACE"
  | .debug => "DEBUG"
  | .info => "INFO"

namespace Event

/-- The level of an event. -/
def level : Event → Level
  | opened .. => .debug
  | tableFull _ => .trace
  | bucketFull .. => .trace
  | bucketSplit .. => .debug
  | upperHalfDropped .. => .debug
  | bucketMoved .. => .trace
  | gaveUp .. => .debug
  | clearing _ => .info

/-- The two ends of an interval of keys. -/
def interval (min max : Key) : String := "[" ++ min.text ++ ", " ++ max.text ++ "]"

/-- The wording of an event. -/
def text : Event → String
  | opened ownId maxNodes acceptAll =>
    "routing table for " ++ ownId.text ++ " (max " ++ toString maxNodes ++ " nodes, accept all: " ++
      (if acceptAll then "true" else "false") ++ ")"
  | tableFull id => "routing table full, dropping " ++ id.text
  | bucketFull family min max id =>
    family.text ++ ": bucket " ++ interval min max ++ " full, dropping " ++ id.text
  | bucketSplit family mid lower upper =>
    family.text ++ ": split bucket at " ++ mid.text ++ " (" ++ toString lower ++ " / " ++ toString upper ++ " nodes)"
  | upperHalfDropped family mid min max =>
    family.text ++ ": buckets changed while splitting at " ++ mid.text ++ ", dropping " ++ interval min max
  | bucketMoved family id => family.text ++ ": bucket for " ++ id.text ++ " moved during insert"
  | gaveUp family id => family.text ++ ": gave up inserting " ++ id.text
  | clearing nodes => "clearing routing table (" ++ toString nodes ++ " nodes)"

/-- The line that the log shows. -/
def line (e : Event) : String := e.level.text ++ " " ++ e.text

end Event

end Kademlia
