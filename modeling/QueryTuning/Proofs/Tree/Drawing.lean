import QueryTuning.Proofs.Text.Lines
import QueryTuning.Proofs.Text.Pieces
import QueryTuning.Tree

/-!
# Drawings of trees

A drawing has one row for each node, and the row tells how deep the node stands and whether it is
the last of its siblings. This is enough to make the tree out again, whatever the labels are: a row
that belongs to no node of a forest has another character where the rows of the forest go on behind
their margin.

* `Tree.rows`, `Tree.forestRows` : the rows of a drawing.
* `Tree.toList_draw` : a drawing is the text of its rows.
* `Tree.Leaves` : rows that belong to no forest behind a margin.
* `Tree.forestRows_append_inj`, `Tree.rows_append_inj` : a forest and a tree are made out in front of
  such rows.
* `Tree.pieces_rows` : trees below one another are made out, if their labels do not
  begin like a margin.
-/

namespace QueryTuning.Tree

/-- Induction over forests: what is to be shown may be assumed below the first root and for the
    siblings behind it. -/
theorem forestInduction {motive : List Tree → Prop} (nil : motive [])
    (cons : ∀ label children rest, motive children → motive rest →
      motive (node label children :: rest)) (ts : List Tree) : motive ts :=
  @Tree.rec_1 (fun t => ∀ rest, motive rest → motive (t :: rest)) motive
    (fun label children hchildren rest hrest => cons label children rest hchildren hrest) nil
    (fun _ rest hfirst hrest => hfirst rest hrest) ts

/-! ## Rows -/

mutual

/-- The rows of a subtree whose root stands behind a margin. -/
def nodeRows (margin : List Char) (last : Bool) : Tree → List (List Char)
  | node label children =>
    (margin ++ (connector last).toList ++ label.toList)
      :: forestRows (margin ++ (spacer last).toList) children

/-- The rows of siblings, one below another. -/
def forestRows (margin : List Char) : List Tree → List (List Char)
  | [] => []
  | t :: rest => nodeRows margin rest.isEmpty t ++ forestRows margin rest

end

/-- The rows of a tree whose root stands behind a margin without any connector. -/
def rows (margin : List Char) : Tree → List (List Char)
  | node label children => (margin ++ label.toList) :: forestRows margin children

theorem forestRows_cons (margin : List Char) (label : String) (children rest : List Tree) :
    forestRows margin (node label children :: rest)
      = (margin ++ (connector rest.isEmpty).toList ++ label.toList)
        :: (forestRows (margin ++ (spacer rest.isEmpty).toList) children
          ++ forestRows margin rest) := rfl

/-- The rows of a forest, tree by tree. The last tree is the one with the last index. -/
theorem forestRows_eq_flatMap (margin : List Char) (ts : List Tree) :
    forestRows margin ts
      = ts.zipIdx.flatMap fun t => nodeRows margin (t.2 + 1 == ts.length) t.1 := by
  -- The trees may be numbered from any index on.
  have hfrom (k : Nat) : forestRows margin ts
      = (ts.zipIdx k).flatMap fun t => nodeRows margin (t.2 + 1 == k + ts.length) t.1 := by
    induction ts generalizing k with
    | nil => rfl
    | cons t ts ih =>
      have hlast : ts.isEmpty = (k + 1 == k + (t :: ts).length) := by
        cases ts <;> simp
      have hlength : k + (t :: ts).length = k + 1 + ts.length := by
        rw [List.length_cons]
        omega
      rw [forestRows, ih (k + 1), hlast, hlength, List.zipIdx_cons, List.flatMap_cons]
  simpa using hfrom 0

/-- The drawing of siblings is the text of their rows. -/
theorem toList_drawForest (margin : String) (ts : List Tree) :
    (drawForest margin ts).toList = Text.unlines (forestRows margin.toList ts) := by
  induction ts using forestInduction generalizing margin with
  | nil => rfl
  | cons label children rest ihChildren ihRest =>
    have hchildren := ihChildren (margin ++ spacer rest.isEmpty)
    rw [String.toList_append] at hchildren
    rw [forestRows_cons, Text.unlines_cons, Text.unlines_append, ← hchildren, ← ihRest margin]
    simp [drawForest, drawNode]

/-- **A drawing is the text of its rows.** -/
theorem toList_draw (t : Tree) : t.draw.toList = Text.unlines (t.rows []) := by
  obtain ⟨label, children⟩ := t
  rw [rows, Text.unlines_cons]
  have hchildren : (drawForest "" children).toList = _ := toList_drawForest "" children
  rw [draw, String.toList_append, hchildren]
  simp

/-- What stands in front of a margin stands in front of every row of a forest. -/
theorem forestRows_append (front margin : List Char) (ts : List Tree) :
    forestRows (front ++ margin) ts = (forestRows margin ts).map (front ++ ·) := by
  induction ts using forestInduction generalizing margin with
  | nil => rfl
  | cons label children rest ihChildren ihRest =>
    rw [forestRows_cons, forestRows_cons, List.append_assoc front margin (spacer _).toList,
      ihChildren, ihRest]
    simp

/-- A tree is moved behind a margin row by row. -/
theorem rows_eq_map (margin : List Char) (t : Tree) :
    t.rows margin = (t.rows []).map (margin ++ ·) := by
  obtain ⟨label, children⟩ := t
  have hforest := forestRows_append margin [] children
  rw [List.append_nil] at hforest
  rw [rows, rows, hforest]
  rfl

/-! ## Whole rows -/

mutual

/-- The labels of a tree, each one before those below it. -/
def labels : Tree → List String
  | node label children => label :: forestLabels children

/-- The labels of siblings and of what is below them. -/
def forestLabels : List Tree → List String
  | [] => []
  | t :: rest => labels t ++ forestLabels rest

end

/-- The labels of siblings, tree by tree. -/
theorem forestLabels_eq_flatMap (ts : List Tree) : forestLabels ts = ts.flatMap labels := by
  induction ts with
  | nil => rfl
  | cons t ts ih => rw [forestLabels, ih, List.flatMap_cons]

/-- A label may close a row if it is whole and not empty. -/
def ClosesRow (label : String) : Prop := label.toList ≠ [] ∧ Text.Whole label.toList

/-- Margins have no line feed. -/
theorem not_mem_marks (last : Bool) :
    '\n' ∉ (connector last).toList ∧ '\n' ∉ (spacer last).toList := by
  cases last <;> decide

/-- **The rows of a forest are whole** if its labels are. -/
theorem whole_forestRows {margin : List Char} (hmargin : '\n' ∉ margin) {ts : List Tree}
    (h : ∀ label ∈ forestLabels ts, ClosesRow label) :
    ∀ row ∈ forestRows margin ts, Text.Whole row := by
  induction ts using forestInduction generalizing margin with
  | nil => exact fun row hrow => absurd hrow List.not_mem_nil
  | cons label children rest ihChildren ihRest =>
    simp only [forestLabels, labels, List.cons_append, List.forall_mem_cons,
      List.forall_mem_append] at h
    obtain ⟨⟨hne, hlabel⟩, hchildren, hrest⟩ := h
    obtain ⟨hconnector, hspacer⟩ := not_mem_marks rest.isEmpty
    rw [forestRows_cons, List.forall_mem_cons, List.forall_mem_append]
    refine ⟨hlabel.append ?_ hne, ihChildren ?_ hchildren, ihRest hmargin hrest⟩
    · simp [hmargin, hconnector]
    · simp [hmargin, hspacer]

/-- The rows of a tree are whole if its labels are. -/
theorem whole_rows {margin : List Char} (hmargin : '\n' ∉ margin) {t : Tree}
    (h : ∀ label ∈ t.labels, ClosesRow label) : ∀ row ∈ t.rows margin, Text.Whole row := by
  obtain ⟨label, children⟩ := t
  obtain ⟨⟨hne, hlabel⟩, hchildren⟩ := List.forall_mem_cons.mp h
  exact List.forall_mem_cons.mpr ⟨hlabel.append hmargin hne, whole_forestRows hmargin hchildren⟩

/-! ## Making out a tree -/

/-- The characters that margins and connectors begin with. -/
def marks : List Char := [' ', '│', '├', '└']

/-- Rows **leave** a margin if the first of them has no mark behind the margin. -/
def Leaves (margin : List Char) (rs : List (List Char)) : Prop :=
  ∀ row ∈ rs.head?, ∀ c ∈ marks, ¬ margin ++ [c] <+: row

theorem connector_eq_cons (last : Bool) :
    ∃ c cs, (connector last).toList = c :: cs ∧ c ∈ marks ∧ c ≠ ' ' ∧ c ≠ '│' := by
  cases last
  · exact ⟨'├', ['─', ' '], by decide⟩
  · exact ⟨'└', ['─', ' '], by decide⟩

theorem spacer_eq_cons (last : Bool) :
    ∃ c cs, (spacer last).toList = c :: cs ∧ c ∈ marks ∧ (c = ' ' ∨ c = '│') := by
  cases last
  · exact ⟨'│', [' ', ' '], by decide⟩
  · exact ⟨' ', [' ', ' '], by decide⟩

/-- Connectors are told apart in front of whatever labels. -/
theorem connector_append_inj {last last' : Bool} {cs ds : List Char}
    (h : (connector last).toList ++ cs = (connector last').toList ++ ds) :
    last = last' ∧ cs = ds := by
  cases last <;> cases last' <;> simp_all [connector]

/-- The first row of a forest has a connector behind the margin. -/
theorem head?_forestRows_cons (margin : List Char) (t : Tree) (rest : List Tree) :
    ∃ row, (forestRows margin (t :: rest)).head? = some row ∧
      margin ++ (connector rest.isEmpty).toList <+: row := by
  obtain ⟨label, children⟩ := t
  exact ⟨_, by rw [forestRows_cons, List.head?_cons], List.prefix_append _ _⟩

/-- Two marks behind one margin are the same. -/
theorem eq_of_prefix_concat {margin row : List Char} {c d : Char} (hc : margin ++ [c] <+: row)
    (hd : margin ++ [d] <+: row) : c = d := by
  obtain ⟨cs, rfl⟩ := hc
  obtain ⟨ds, hds⟩ := hd
  simp only [List.append_assoc, List.append_cancel_left_eq, List.cons_append, List.nil_append,
    List.cons.injEq] at hds
  exact hds.1.symm

/-- What leaves a margin does not begin with a forest behind it. -/
theorem Leaves.ne_forestRows_cons {margin : List Char} {rs more : List (List Char)}
    (h : Leaves margin rs) (t : Tree) (rest : List Tree) :
    rs ≠ forestRows margin (t :: rest) ++ more := by
  rintro rfl
  obtain ⟨row, hrow, hprefix⟩ := head?_forestRows_cons margin t rest
  obtain ⟨c, cs, hconnector, hc, -⟩ := connector_eq_cons rest.isEmpty
  refine h row ?_ c hc ?_
  · rw [List.head?_append, hrow]
    rfl
  · rw [hconnector] at hprefix
    exact List.IsPrefix.trans ⟨cs, by simp⟩ hprefix

/-- **The siblings of a subtree leave the margin of what is below it**, as does what leaves the
    margin of the siblings. -/
theorem Leaves.below {margin : List Char} {rs : List (List Char)} (h : Leaves margin rs)
    (rest : List Tree) :
    Leaves (margin ++ (spacer rest.isEmpty).toList) (forestRows margin rest ++ rs) := by
  intro row hrow c _ hprefix
  obtain ⟨d, ds, hspacer, hd, hblank⟩ := spacer_eq_cons rest.isEmpty
  have hbelow : margin ++ [d] <+: row := by
    rw [hspacer] at hprefix
    exact List.IsPrefix.trans ⟨ds ++ [c], by simp⟩ hprefix
  cases rest with
  | nil => exact h row hrow d hd hbelow
  | cons t rest =>
    -- The first sibling has a connector where there is a bar or a blank further in.
    obtain ⟨row', hrow', hsibling⟩ := head?_forestRows_cons margin t rest
    rw [List.head?_append, hrow', Option.some_or, Option.mem_some_iff] at hrow
    subst hrow
    obtain ⟨e, es, hconnector, -, hspace, hbar⟩ := connector_eq_cons rest.isEmpty
    have hconnected : margin ++ [e] <+: row' := by
      rw [hconnector] at hsibling
      exact List.IsPrefix.trans ⟨es, by simp⟩ hsibling
    obtain rfl := eq_of_prefix_concat hbelow hconnected
    exact hblank.elim hspace hbar

/-- **A forest is made out in front of what leaves its margin.** The induction is on the first
    forest; its first row tells the label and whether there are siblings, and the rows below it are
    told from those of the siblings. -/
theorem forestRows_append_inj {margin : List Char} {ts us : List Tree} {rs ss : List (List Char)}
    (hrs : Leaves margin rs) (hss : Leaves margin ss)
    (h : forestRows margin ts ++ rs = forestRows margin us ++ ss) : ts = us ∧ rs = ss := by
  induction ts using forestInduction generalizing margin us rs ss with
  | nil =>
    cases us with
    | nil => exact ⟨rfl, h⟩
    | cons u us => exact absurd h (hrs.ne_forestRows_cons u us)
  | cons label children rest ihChildren ihRest =>
    cases us with
    | nil => exact absurd h.symm (hss.ne_forestRows_cons _ rest)
    | cons u us =>
      obtain ⟨label', children'⟩ := u
      simp only [forestRows_cons, List.cons_append, List.cons.injEq, List.append_assoc,
        List.append_cancel_left_eq] at h
      obtain ⟨hrow, hrows⟩ := h
      obtain ⟨hlast, hlabel⟩ := connector_append_inj hrow
      obtain rfl : label = label' := String.toList_injective hlabel
      have hbelow := hss.below us
      rw [← hlast] at hrows hbelow
      obtain ⟨rfl, hsiblings⟩ := ihChildren (hrs.below rest) hbelow hrows
      obtain ⟨rfl, hmore⟩ := ihRest hrs hss hsiblings
      exact ⟨rfl, hmore⟩

/-- **A tree is made out in front of what leaves its margin.** -/
theorem rows_append_inj {margin : List Char} {t u : Tree} {rs ss : List (List Char)}
    (hrs : Leaves margin rs) (hss : Leaves margin ss)
    (h : t.rows margin ++ rs = u.rows margin ++ ss) : t = u ∧ rs = ss := by
  obtain ⟨label, children⟩ := t
  obtain ⟨label', children'⟩ := u
  simp only [rows, List.cons_append, List.cons.injEq, List.append_cancel_left_eq] at h
  obtain ⟨hlabel, hrows⟩ := h
  obtain rfl : label = label' := String.toList_injective hlabel
  obtain ⟨rfl, hmore⟩ := forestRows_append_inj hrs hss hrows
  exact ⟨rfl, hmore⟩

/-! ## Trees below one another -/

/-- The label at the root. -/
def label : Tree → String
  | node label _ => label

/-- A label **stands out** if it begins with a character that is no mark. -/
def StandsOut (label : String) : Prop := ∃ c cs, label.toList = c :: cs ∧ c ∉ marks

/-- Rows are **outside** of a margin if the first of them does not have it. -/
def Outside (margin : List Char) (rs : List (List Char)) : Prop :=
  ∀ row ∈ rs.head?, ¬ margin <+: row

theorem Outside.leaves {margin : List Char} {rs : List (List Char)} (h : Outside margin rs) :
    Leaves margin rs :=
  fun row hrow c _ hprefix =>
    h row hrow (List.IsPrefix.trans (List.prefix_append margin [c]) hprefix)

/-- A tree whose label stands out leaves its own margin. -/
theorem StandsOut.leaves {margin : List Char} {t : Tree} (h : StandsOut t.label)
    (rs : List (List Char)) : Leaves margin (t.rows margin ++ rs) := by
  obtain ⟨label, children⟩ := t
  obtain ⟨d, ds, hlabel, hmark⟩ := h
  intro row hrow c hc hprefix
  obtain rfl : margin ++ label.toList = row := Option.some.inj hrow
  have hfirst : margin ++ [d] <+: margin ++ label.toList :=
    ⟨ds, by rw [show label.toList = d :: ds from hlabel]; simp⟩
  exact hmark (eq_of_prefix_concat hprefix hfirst ▸ hc)

/-- Trees are told behind a margin. -/
theorem told_rows (margin : List Char) (t u : Tree) : Told (rows margin) (Leaves margin) t u :=
  fun _ _ hr hs h => rows_append_inj hr hs h

/-- **Trees below one another are made out** in front of what is outside of their margin, if their
    labels stand out. -/
theorem pieces_rows (margin : List Char) :
    Pieces (rows margin) (fun t => StandsOut t.label) (Leaves margin) (Outside margin) where
  next r ht := ht.leaves r
  last hr := hr.leaves
  ne {t r} s _ hr := by
    rintro rfl
    obtain ⟨label, children⟩ := t
    exact hr (margin ++ label.toList) rfl (List.prefix_append _ _)

end QueryTuning.Tree
