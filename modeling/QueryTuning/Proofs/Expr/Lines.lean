import Mathlib.Data.List.Flatten
import Mathlib.Data.List.Range
import QueryTuning.Expr.Text
import QueryTuning.Expr.Walk
import QueryTuning.Proofs.Expr.Path
import QueryTuning.Proofs.Tree.Drawing

/-!
# Drawings of expressions, line by line

A drawing is made by a recursion that carries a margin along. Here it is said line by line what the
drawing is: the lines come in the order of a walk, and what stands in front of a label depends on
nothing but the path to the node. Each node on the way there, the root apart, adds a bar if it has
siblings behind it, and blanks if it is the last one.

* `Expr.nodes` : a walk that tells the path to every part.
* `Expr.line` : the line for the node that a path leads to.
* `Expr.map_snd_nodes`, `Expr.mem_nodes`, `Expr.pairwise_nodes` : the nodes are those of a walk, and
  they are in the order of their paths.
* `Expr.draw_tree_eq_join_lines` : a drawing consists of the lines for the nodes, in this order.
-/

namespace QueryTuning

/-! ## Walks with paths -/

namespace Expr

/-- A node below the operand with the given index, seen from the call: the path to it begins with
    the index. -/
def inOperand (i : Nat) (node : List Nat × Expr) : List Nat × Expr := (i :: node.1, node.2)

mutual

/-- The expression and everything inside of it, in the order of a walk, each part behind the path
    that leads to it. -/
def nodes : Expr → List (List Nat × Expr)
  | literal v => [([], literal v)]
  | identifier x => [([], identifier x)]
  | call f es => ([], call f es) :: operandNodes 0 es

/-- The nodes of operands whose indices begin with the given one. -/
def operandNodes (i : Nat) : List Expr → List (List Nat × Expr)
  | [] => []
  | e :: es => (nodes e).map (inOperand i) ++ operandNodes (i + 1) es

end

/-- The nodes of operands, operand by operand. -/
theorem operandNodes_eq_flatMap (i : Nat) (es : List Expr) :
    operandNodes i es = (es.zipIdx i).flatMap fun d => d.1.nodes.map (inOperand d.2) := by
  induction es generalizing i with
  | nil => rfl
  | cons e es ih => rw [operandNodes, ih, List.zipIdx_cons, List.flatMap_cons]

/-- The nodes of an expression but for its root. -/
def innerNodes (e : Expr) : List (List Nat × Expr) :=
  e.children.zipIdx.flatMap fun d => d.1.nodes.map (inOperand d.2)

/-- The root comes before all other nodes. -/
theorem nodes_eq_cons (e : Expr) : e.nodes = ([], e) :: e.innerNodes := by
  cases e with
  | literal v => rfl
  | identifier x => rfl
  | call f es => rw [nodes, operandNodes_eq_flatMap, innerNodes, children]

/-- A node but for the root is a node of an operand. -/
theorem mem_innerNodes {e : Expr} {node : List Nat × Expr} :
    node ∈ e.innerNodes ↔
      ∃ i c, e.children[i]? = some c ∧ ∃ inner ∈ c.nodes, node = inOperand i inner := by
  rw [innerNodes, List.mem_flatMap]
  constructor
  · rintro ⟨⟨c, i⟩, hc, hnode⟩
    obtain ⟨inner, hinner, rfl⟩ := List.mem_map.mp hnode
    exact ⟨i, c, List.mk_mem_zipIdx_iff_getElem?.mp hc, inner, hinner, rfl⟩
  · rintro ⟨i, c, hc, inner, hinner, rfl⟩
    exact ⟨(c, i), List.mk_mem_zipIdx_iff_getElem?.mpr hc, List.mem_map_of_mem hinner⟩

/-- **The nodes are those of a walk**, in the same order. -/
theorem map_snd_nodes (e : Expr) : e.nodes.map Prod.snd = e.walk := by
  have hoperands {es : List Expr} (i : Nat) (h : ∀ e ∈ es, e.nodes.map Prod.snd = e.walk) :
      (operandNodes i es).map Prod.snd = es.flatMap walk := by
    induction es generalizing i with
    | nil => rfl
    | cons e es ih =>
      obtain ⟨he, hes⟩ := List.forall_mem_cons.mp h
      rw [operandNodes, List.map_append, List.map_map, ih (i + 1) hes, List.flatMap_cons, ← he]
      rfl
  induction e using inductionOn with
  | literal v => rfl
  | identifier x => rfl
  | call f es ih => rw [nodes, List.map_cons, hoperands 0 ih, walk_call]

/-- **The nodes are the parts that paths lead to.** -/
theorem mem_nodes {e d : Expr} {path : List Nat} : (path, d) ∈ e.nodes ↔ e.at? path = some d := by
  rw [nodes_eq_cons, List.mem_cons]
  induction path generalizing e with
  | nil =>
    have hroot : ([], d) ∉ e.innerNodes := by
      intro h
      obtain ⟨i, c, -, inner, -, heq⟩ := mem_innerNodes.mp h
      cases heq
    simp [hroot, eq_comm]
  | cons i path ih =>
    rw [at?_cons, Option.bind_eq_some_iff, mem_innerNodes]
    constructor
    · rintro (h | ⟨j, c, hc, inner, hinner, heq⟩)
      · cases h
      · cases heq
        exact ⟨c, hc, ih.mp (List.mem_cons.mp (nodes_eq_cons c ▸ hinner))⟩
    · rintro ⟨c, hc, hd⟩
      have hinner : (path, d) ∈ c.nodes := by
        rw [nodes_eq_cons, List.mem_cons]
        exact ih.mpr hd
      exact .inr ⟨i, c, hc, (path, d), hinner, rfl⟩

/-- **The nodes are in the order of their paths**: a node comes before all that are inside of it,
    and operands come in the order of their indices. -/
theorem pairwise_nodes (e : Expr) : e.nodes.Pairwise fun a b => a.1 < b.1 := by
  induction e using inductionOn with
  | literal v => exact List.pairwise_singleton _ _
  | identifier x => exact List.pairwise_singleton _ _
  | call f es ih =>
    rw [nodes_eq_cons, List.pairwise_cons]
    constructor
    · intro node hnode
      obtain ⟨i, c, -, inner, -, rfl⟩ := mem_innerNodes.mp hnode
      exact List.nil_lt_cons i inner.1
    · rw [innerNodes, children, List.pairwise_flatMap]
      constructor
      · rintro ⟨c, i⟩ hc
        refine List.pairwise_map.mpr ((ih c (List.fst_mem_of_mem_zipIdx hc)).imp ?_)
        exact fun h => List.cons_lt_cons_iff.mpr (.inr ⟨rfl, h⟩)
      · have hindices : es.zipIdx.Pairwise fun a b => a.2 < b.2 := by
          rw [← List.pairwise_map, List.zipIdx_map_snd]
          exact List.pairwise_lt_range'
        refine hindices.imp fun hlt a ha b hb => ?_
        obtain ⟨a, -, rfl⟩ := List.mem_map.mp ha
        obtain ⟨b, -, rfl⟩ := List.mem_map.mp hb
        exact List.cons_lt_cons_iff.mpr (.inl hlt)

/-! ## Lines -/

/-- Whether a path leads to the last operand of a call: its last index is the last one that the node
    right above has. -/
def isLast (e : Expr) (path : List Nat) : Bool :=
  path.getLast?.map (· + 1) == (e.at? path.dropLast).map (·.children.length)

/-- The paths to the nodes that lie between the root and a node. -/
def between (path : List Nat) : List (List Nat) :=
  (List.range (path.length - 1)).map fun k => path.take (k + 1)

/-- What the nodes between the root and a node put in front of it: blanks if they are last operands,
    and a bar otherwise. -/
def guides (e : Expr) (path : List Nat) : String :=
  String.join ((between path).map fun above => if e.isLast above then "   " else "│  ")

/-- What stands in front of the label of a node: what the nodes above it put there, and a corner if
    the node is a last operand, or else a tee. The root has nothing in front of its label. -/
def front (e : Expr) (path : List Nat) : String :=
  if path = [] then "" else e.guides path ++ if e.isLast path then "└─ " else "├─ "

/-- **The line for a node** that a path leads to. -/
def line (e : Expr) (path : List Nat) (node : Expr) : String :=
  e.front path ++ node.label ++ "\n"

/-- An operand of the root is the last one if it has the last index. -/
theorem isLast_singleton (e : Expr) (i : Nat) :
    e.isLast [i] = (i + 1 == e.children.length) := rfl

/-- Further down, it does not matter what is above. -/
theorem isLast_cons {e c : Expr} {i : Nat} (hc : e.children[i]? = some c) {path : List Nat}
    (hpath : path ≠ []) : e.isLast (i :: path) = c.isLast path := by
  rw [isLast, isLast, List.getLast?_cons_of_ne_nil hpath, List.dropLast_cons_of_ne_nil hpath,
    at?_cons, hc, Option.bind_some]

/-- The first node on the way to a node further down is the operand that the way goes through. -/
theorem between_cons_cons (i j : Nat) (path : List Nat) :
    between (i :: j :: path) = [i] :: (between (j :: path)).map (i :: ·) := by
  simp [between, List.range_succ_eq_map]

/-- The operand that the way goes through puts its spacer in front of what would be there without
    the call. -/
theorem guides_cons_cons {e c : Expr} {i : Nat} (hc : e.children[i]? = some c) (j : Nat)
    (path : List Nat) :
    e.guides (i :: j :: path) = Tree.spacer (e.isLast [i]) ++ c.guides (j :: path) := by
  have hbelow : (between (j :: path)).map
        ((fun above => if e.isLast above then "   " else "│  ") ∘ (i :: ·))
      = (between (j :: path)).map fun above => if c.isLast above then "   " else "│  " := by
    refine List.map_congr_left fun above habove => ?_
    obtain ⟨k, -, rfl⟩ := List.mem_map.mp habove
    rw [Function.comp_apply, isLast_cons hc (by simp)]
  rw [guides, guides, between_cons_cons, List.map_cons, List.map_map, String.join_cons, hbelow,
    Tree.spacer]

/-- In front of an operand is its connector, and in front of what is inside of an operand is its
    spacer and then what would be there without the call. -/
theorem front_cons {e c : Expr} {i : Nat} (hc : e.children[i]? = some c) (path : List Nat) :
    e.front (i :: path)
      = (if path = [] then Tree.connector (e.isLast [i]) else Tree.spacer (e.isLast [i]))
        ++ c.front path := by
  cases path with
  | nil => simp [front, guides, between, Tree.connector]
  | cons j path =>
    have hlast : e.isLast (i :: j :: path) = c.isLast (j :: path) :=
      isLast_cons hc (List.cons_ne_nil j path)
    simp only [front, reduceCtorEq, if_false, guides_cons_cons hc, hlast, String.append_assoc]

/-- The first operand has a sibling behind it, and what is inside of it is a last operand. -/
example : (call "f" [call "g" [identifier "x"], identifier "y"]).front [0, 0] = "│  └─ " := by
  decide +kernel

/-! ## Drawings -/

/-- The line for a node as a row, without the line feed. -/
def row (e : Expr) (node : List Nat × Expr) : List Char :=
  (e.front node.1).toList ++ node.2.label.toList

/-- The tree of an expression has the trees of its operands below the root. -/
theorem tree_eq_node (e : Expr) : e.tree = .node e.label (e.children.map tree) := by
  cases e with
  | literal v => rfl
  | identifier x => rfl
  | call f es => rw [tree_call, children]

/-- The row for a node of an operand is the one that it has without the call, behind a connector or
    a spacer. -/
theorem row_inOperand {e c : Expr} {i : Nat} (hc : e.children[i]? = some c)
    (node : List Nat × Expr) :
    e.row (inOperand i node)
      = (if node.1 = [] then Tree.connector (e.isLast [i]) else Tree.spacer (e.isLast [i])).toList
        ++ c.row node := by
  rw [row, row, inOperand, front_cons hc, String.toList_append, List.append_assoc]

/-- The rows of an operand, behind its connector and its spacer. -/
theorem map_row_inOperand {e c : Expr} {i : Nat} (hc : e.children[i]? = some c) :
    c.nodes.map (fun node => e.row (inOperand i node))
      = ((Tree.connector (e.isLast [i])).toList ++ c.label.toList)
        :: (c.innerNodes.map c.row).map ((Tree.spacer (e.isLast [i])).toList ++ ·) := by
  have hroot : e.row (inOperand i ([], c))
      = (Tree.connector (e.isLast [i])).toList ++ c.label.toList := by
    rw [row_inOperand hc, if_pos rfl, row, front, if_pos rfl, String.toList_empty, List.nil_append]
  have hinner : ∀ node ∈ c.innerNodes,
      e.row (inOperand i node) = (Tree.spacer (e.isLast [i])).toList ++ c.row node := by
    intro node hnode
    obtain ⟨j, d, -, inner, -, rfl⟩ := mem_innerNodes.mp hnode
    have hne : (inOperand j inner).1 ≠ [] := List.cons_ne_nil j inner.1
    rw [row_inOperand hc, if_neg hne]
  rw [nodes_eq_cons, List.map_cons, List.map_map, hroot, List.map_congr_left hinner]
  rfl

/-- **The rows below a root are those for the inner nodes.** The induction is on the expression: the
    rows of an operand are the same as without the call, behind its connector or its spacer. -/
theorem forestRows_children (e : Expr) :
    Tree.forestRows [] (e.children.map tree) = e.innerNodes.map e.row := by
  induction e using inductionOn with
  | literal v => rfl
  | identifier x => rfl
  | call f es ih =>
    rw [innerNodes, List.map_flatMap, Tree.forestRows_eq_flatMap, List.zipIdx_map, List.flatMap_map,
      children, List.length_map]
    refine List.flatMap_congr fun ⟨c, i⟩ hmem => ?_
    have hc : (call f es).children[i]? = some c := List.mk_mem_zipIdx_iff_getElem?.mp hmem
    have hinner := Tree.forestRows_append (Tree.spacer (i + 1 == es.length)).toList []
      (c.children.map tree)
    rw [List.append_nil, ih c (List.fst_mem_of_mem_zipIdx hmem)] at hinner
    rw [List.map_map]
    show Tree.nodeRows [] (i + 1 == es.length) c.tree
      = c.nodes.map fun node => row _ (inOperand i node)
    rw [map_row_inOperand hc, isLast_singleton, tree_eq_node, Tree.nodeRows, children,
      List.nil_append, List.nil_append, hinner]

/-- A drawing is the text of the rows for the nodes. -/
theorem toList_draw_tree (e : Expr) : e.tree.draw.toList = Text.unlines (e.nodes.map e.row) := by
  rw [Tree.toList_draw, tree_eq_node, Tree.rows, forestRows_children, nodes_eq_cons, List.map_cons]
  rfl

/-- **A drawing is a walk, line by line.** The nodes of an expression are those of a walk, in the
    same order; the path of each of them leads to it and all paths are there, and they are in the
    order of their indices. A drawing consists of one line for each of them: the root is at the
    margin, and the line for any other node begins with three characters for each node between the
    root and it, three blanks if that node is a last operand and a bar and two blanks otherwise, and
    with a corner or a tee, according to whether the node itself is a last operand. -/
theorem draw_tree_eq_join_lines (e : Expr) :
    e.nodes.map Prod.snd = e.walk ∧
    (∀ path d, (path, d) ∈ e.nodes ↔ e.at? path = some d) ∧
    e.nodes.Pairwise (fun a b => a.1 < b.1) ∧
    e.tree.draw = String.join (e.nodes.map fun node => e.line node.1 node.2) := by
  refine ⟨e.map_snd_nodes, fun path d => mem_nodes, e.pairwise_nodes, String.toList_injective ?_⟩
  rw [toList_draw_tree, String.toList_join, Text.unlines, List.flatMap_map, List.flatMap_map]
  refine List.flatMap_congr fun node _ => ?_
  simp [line, row]

end Expr

end QueryTuning
