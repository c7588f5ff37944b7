/-!
# Drawn trees

A `Tree` is a label over an ordered list of subtrees, and `Tree.draw` draws it with one line for
each node: the root at the margin, every other node behind a connector that tells whether it is
the last of its siblings.

* `Tree.draw` : the whole drawing.
* `Tree.drawNode` : one subtree behind a given margin.
-/

namespace QueryTuning

/-- An ordered tree with a label at every node. -/
inductive Tree where
  /-- A label over its subtrees, first one first. -/
  | node (label : String) (children : List Tree)

namespace Tree

/-- What stands right before a label: the closing corner for a last sibling, a tee otherwise. -/
def connector (last : Bool) : String :=
  if last then "└─ " else "├─ "

/-- What a node adds to the margin of its descendants: a bar runs past them down to its next
    sibling, and nothing but blanks if there is none. -/
def spacer (last : Bool) : String :=
  if last then "   " else "│  "

mutual

/-- Draws a subtree whose root stands behind `margin`; `last` says whether it closes its parent's
    list of children. -/
def drawNode (margin : String) (last : Bool) : Tree → String
  | node label children =>
    margin ++ connector last ++ label ++ "\n" ++ drawForest (margin ++ spacer last) children

/-- Draws siblings below one another. -/
def drawForest (margin : String) : List Tree → String
  | [] => ""
  | t :: rest => drawNode margin rest.isEmpty t ++ drawForest margin rest

end

/-- The drawing of a tree. Every line, the last one included, ends in a line feed. -/
def draw : Tree → String
  | node label children => label ++ "\n" ++ drawForest "" children

end Tree

end QueryTuning
