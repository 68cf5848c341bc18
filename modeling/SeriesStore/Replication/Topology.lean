import SeriesStore.Prelude

/-!
# Topology of a database

The nodes that hold a database: members, in order, the first of them the primary, and
promotables that may become members. A node is in at most one of the two lists once added
through `addPromotable`; the members given at the start may repeat.
-/

namespace SeriesStore

/-- The role of a node in a topology. -/
inductive NodeStatus where
  | member
  | promotable
  deriving Repr, DecidableEq

/-- Members (the first is the primary) and promotables. -/
structure Topology where
  members : List String
  promotables : List String := []
  deriving Repr, DecidableEq, Inhabited

namespace Topology

/-- The primary node: the first member. -/
def primary (t : Topology) : Option String := t.members.head?

/-- Whether the node is the primary. -/
def isPrimary (t : Topology) (tag : String) : Bool := t.primary == some tag

/-- The role of a node, if it has one. -/
def status (t : Topology) (tag : String) : Option NodeStatus :=
  if t.members.contains tag then some .member
  else if t.promotables.contains tag then some .promotable
  else none

/-- Add a node as promotable, unless it already has a role. -/
def addPromotable (t : Topology) (tag : String) : Topology :=
  if (t.status tag).isNone then { t with promotables := t.promotables ++ [tag] } else t

/-- Make a promotable node the last member; false when it is not promotable. -/
def promote (t : Topology) (tag : String) : Topology × Bool :=
  if t.promotables.contains tag then
    ({ members := t.members ++ [tag], promotables := t.promotables.erase tag }, true)
  else (t, false)

/-- Remove every occurrence of a node; false when it had no role. -/
def remove (t : Topology) (tag : String) : Topology × Bool :=
  let t' : Topology :=
    { members := t.members.filter (· != tag), promotables := t.promotables.filter (· != tag) }
  (t', t'.members.length + t'.promotables.length != t.members.length + t.promotables.length)

/-- Move a member to the front; false when it is not a member. -/
def setPrimary (t : Topology) (tag : String) : Topology × Bool :=
  if t.members.contains tag then ({ t with members := tag :: t.members.erase tag }, true)
  else (t, false)

end Topology

end SeriesStore
