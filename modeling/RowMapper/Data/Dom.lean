/-
Document trees of named elements and text: reading by a path of element names, changing the
content of the element at a path, and the tree as XML.
-/
import RowMapper.Text.Basic

namespace RowMapper

inductive DomNode where
  | element (name : String) (children : List DomNode)
  | text (text : String)

namespace DomNode

/-- An element that holds one text. -/
def textElement (name content : String) : DomNode := .element name [.text content]

def name? : DomNode → Option String
  | .element name _ => some name
  | .text _ => none

def children : DomNode → List DomNode
  | .element _ children => children
  | .text _ => []

/-! ## Equality -/

mutual

def same : DomNode → DomNode → Bool
  | .element n cs, .element m ds => n == m && sameAll cs ds
  | .text s, .text t => s == t
  | _, _ => false

def sameAll : List DomNode → List DomNode → Bool
  | [], [] => true
  | c :: cs, d :: ds => same c d && sameAll cs ds
  | _, _ => false

end

instance : BEq DomNode := ⟨same⟩

/-! ## Reading -/

mutual

/-- The text of the node and of all nodes below it. -/
def content : DomNode → String
  | .element _ children => contents children
  | .text s => s

def contents : List DomNode → String
  | [] => ""
  | node :: nodes => content node ++ contents nodes

end

/-- The first child element with the name. -/
def child? (node : DomNode) (name : String) : Option DomNode :=
  node.children.find? fun c => c.name? == some name

/-- The element that the steps lead to. -/
def findSteps? : List String → DomNode → Option DomNode
  | [], node => some node
  | step :: steps, node => (node.child? step).bind (findSteps? steps)

/-- The element at a dotted path. -/
def find? (node : DomNode) (path : String) : Option DomNode := findSteps? (Text.steps path) node

/-! ## Changing -/

/-- A text takes no children. -/
def appendChild (node child : DomNode) : DomNode :=
  match node with
  | .element name children => .element name (children ++ [child])
  | .text s => .text s

/-- Changes the first element with the name, or a new one at the end. -/
def modifyChild (name : String) (f : DomNode → DomNode) : List DomNode → List DomNode
  | [] => [f (.element name [])]
  | node :: nodes =>
    if node.name? == some name then f node :: nodes else node :: modifyChild name f nodes

/-- Changes the children of the element that the steps lead to, making elements on the way. A
text is left as it is. -/
def modifySteps (f : List DomNode → List DomNode) : List String → DomNode → DomNode
  | _, .text s => .text s
  | [], .element name children => .element name (f children)
  | step :: steps, .element name children =>
    .element name (modifyChild step (modifySteps f steps) children)

/-- Replaces the content of the element at a dotted path. -/
def setContent (node : DomNode) (path : String) (content : List DomNode) : DomNode :=
  modifySteps (fun _ => content) (Text.steps path) node

/-- Adds to the content of the element at a dotted path. -/
def appendContent (node : DomNode) (path : String) (content : List DomNode) : DomNode :=
  modifySteps (· ++ content) (Text.steps path) node

/-! ## XML -/

def escape : List Char → List Char
  | [] => []
  | '&' :: cs => "&amp;".toList ++ escape cs
  | '<' :: cs => "&lt;".toList ++ escape cs
  | '>' :: cs => "&gt;".toList ++ escape cs
  | c :: cs => c :: escape cs

mutual

/-- The characters of the XML text of a tree. -/
def xmlChars : DomNode → List Char
  | .text s => escape s.toList
  | .element name [] => '<' :: name.toList ++ ['/', '>']
  | .element name (c :: cs) =>
    '<' :: name.toList ++ '>' :: (xmlChars c ++ xmlCharsAll cs) ++
      '<' :: '/' :: name.toList ++ ['>']

def xmlCharsAll : List DomNode → List Char
  | [] => []
  | node :: nodes => xmlChars node ++ xmlCharsAll nodes

end

/-- The tree as XML text. -/
def xml (node : DomNode) : String := String.ofList (xmlChars node)

end DomNode

end RowMapper
