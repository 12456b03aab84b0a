/-
The cyclic components of a directed graph on the numbers below the length of its list of edge lists.
Two nodes are in one component when each is reached from the other; a component is cyclic when a
node of it is reached from itself.

One depth-first search numbers the nodes as it meets them. A node stays open, on a stack, until its
component is known; for each open node the search notes the least number of an open node that it is
known to lead to. A node that is left with its own number there completes a component: itself and
all nodes opened after it.
-/
namespace RowMapper.Graph

/-- For each node the nodes that its edges lead to. -/
abbrev Edges := List (List Nat)

def successors (edges : Edges) (node : Nat) : List Nat := edges[node]?.getD []

/-! ## Ascending lists -/

/-- Puts a node in its place in an ascending list. -/
def insertNode (node : Nat) : List Nat → List Nat
  | [] => [node]
  | other :: rest => if node ≤ other then node :: other :: rest else other :: insertNode node rest

/-- The nodes in ascending order. -/
def ascending (nodes : List Nat) : List Nat := nodes.foldr insertNode []

/-! ## States of the search -/

structure Search where
  /-- The number of each node that was met. -/
  numbers : Array (Option Nat)
  /-- For each node that was met the least number of an open node that it is known to lead to. -/
  low : Array Nat
  /-- Whether a node is on the stack. -/
  marks : Array Bool
  /-- The open nodes, the newest first. -/
  stack : List Nat := []
  /-- The number that the next node gets. -/
  next : Nat := 0
  /-- The cyclic components that are complete, in the order of their completion. -/
  cyclic : List (List Nat) := []

namespace Search

/-- The search on some number of nodes, none of them met. -/
def start (nodes : Nat) : Search :=
  { numbers := .replicate nodes none, low := .replicate nodes 0, marks := .replicate nodes false }

def number? (s : Search) (node : Nat) : Option Nat := s.numbers[node]?.getD none

def lowOf (s : Search) (node : Nat) : Nat := s.low[node]?.getD 0

def isOpen (s : Search) (node : Nat) : Bool := s.marks[node]?.getD false

/-- Meets a node and opens it. -/
def enter (s : Search) (node : Nat) : Search :=
  { s with
    numbers := s.numbers.setIfInBounds node (some s.next)
    low := s.low.setIfInBounds node s.next
    marks := s.marks.setIfInBounds node true
    stack := node :: s.stack
    next := s.next + 1 }

/-- Notes that a node leads to an open node with a number. -/
def lower (s : Search) (node number : Nat) : Search :=
  { s with low := s.low.setIfInBounds node (min (s.lowOf node) number) }

/-- Takes the open nodes down to `node` off a stack; they come first in the result. -/
def popTo (node : Nat) : List Nat → List Nat × List Nat
  | [] => ([], [])
  | member :: stack =>
    if member = node then ([member], stack)
    else
      let (members, rest) := popTo node stack
      (member :: members, rest)

/-- Closes a component, which leaves `rest` on the stack, and keeps it if it holds a cycle. -/
def close (s : Search) (members rest : List Nat) (isCyclic : Bool) : Search :=
  { s with
    marks := members.foldl (fun marks member => marks.setIfInBounds member false) s.marks
    stack := rest
    cyclic := if isCyclic then s.cyclic ++ [ascending members] else s.cyclic }

/-- Leaves a node whose edges are followed. If it leads to no older open node its component is
complete, which holds a cycle when it has a second node or an edge from its node to itself. -/
def leave (edges : Edges) (s : Search) (node : Nat) : Search :=
  if some (s.lowOf node) = s.number? node then
    let (members, rest) := popTo node s.stack
    s.close members rest (1 < members.length || (successors edges node).contains node)
  else s

end Search

/-! ## The search -/

/-- Follows an edge from a node, where `visit` searches from a node that was not met. -/
def follow (visit : Search → Nat → Option Search) (node : Nat) (s : Search) (child : Nat) :
    Option Search :=
  match s.number? child with
  | none => (visit s child).map fun s => s.lower node (s.lowOf child)
  | some number => some (if s.isOpen child then s.lower node number else s)

/-- Searches from a node that was not met. The first argument bounds the depth, and nothing comes
of a search that goes deeper. -/
def visit (edges : Edges) : Nat → Search → Nat → Option Search
  | 0, _, _ => none
  | depth + 1, s, node =>
    ((successors edges node).foldlM (follow (visit edges depth) node) (s.enter node)).map
      (Search.leave edges · node)

/-- Searches from a node, unless it was met. -/
def visitNew (edges : Edges) (s : Search) (node : Nat) : Option Search :=
  if (s.number? node).isNone then visit edges edges.length s node else some s

/-- The components that hold a cycle, each in ascending order. Every node on the way is met for the
first time, so that no search goes deeper than there are nodes. -/
def components? (edges : Edges) : Option (List (List Nat)) :=
  ((List.range edges.length).foldlM (visitNew edges) (.start edges.length)).map (·.cyclic)

/-- The components that hold a cycle. -/
def cycles (edges : Edges) : List (List Nat) := (components? edges).getD []

end RowMapper.Graph
