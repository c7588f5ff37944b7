/-!
# Sequences that are made out piece by piece

A sequence of pieces can be taken apart if each piece is told from what may follow it, and if the
next piece and the end of the sequence are both of the kind that may follow.

* `eq_of_map_eq` : lists are told by what is made of their members.
* `Told` : a piece is told in front of what follows it.
* `Pieces.flatMap_append_inj` : a sequence of pieces is told in front of what stops it.
* `optionalPiece_append_inj` : a piece that may be missing is told by the heading in front of it.
-/

namespace QueryTuning

variable {α β : Type}

/-- Lists are the same if a function makes the same of them, one by one, and tells the members of
    the first from those of the second. -/
theorem eq_of_map_eq {f : α → β} {as bs : List α} (hinj : ∀ a ∈ as, ∀ b ∈ bs, f a = f b → a = b)
    (h : as.map f = bs.map f) : as = bs := by
  induction as generalizing bs with
  | nil => exact (List.map_eq_nil_iff.mp h.symm).symm
  | cons a as ih =>
    obtain ⟨b, bs, rfl, hfirst, hrest⟩ := List.map_eq_cons_iff.mp h.symm
    rw [hinj a List.mem_cons_self b List.mem_cons_self hfirst.symm,
      ih (fun c hc d hd => hinj c (List.mem_cons_of_mem a hc) d (List.mem_cons_of_mem b hd))
        hrest.symm]

/-- The piece of a member is **told** from that of another one in front of what `follows` them. -/
def Told (piece : α → List β) (follows : List β → Prop) (a b : α) : Prop :=
  ∀ r s, follows r → follows s → piece a ++ r = piece b ++ s → a = b ∧ r = s

/-- How **pieces** of good members make up a sequence: each of them `follows` another one, as does
    what `stops` the sequence, and none of them looks like what stops it. -/
structure Pieces (piece : α → List β) (good : α → Prop) (follows stops : List β → Prop) :
    Prop where
  /-- The next piece follows. -/
  next : ∀ {a} r, good a → follows (piece a ++ r)
  /-- What stops the sequence follows. -/
  last : ∀ {r}, stops r → follows r
  /-- No piece is at the beginning of what stops the sequence. -/
  ne : ∀ {a r} s, good a → stops r → r ≠ piece a ++ s

variable {piece : α → List β} {good : α → Prop} {follows stops : List β → Prop} {as bs : List α}
  {r s : List β}

/-- A whole sequence follows in front of what stops it. -/
theorem Pieces.follows_flatMap (h : Pieces piece good follows stops) (has : ∀ a ∈ as, good a)
    (hr : stops r) : follows (as.flatMap piece ++ r) := by
  cases as with
  | nil => exact h.last hr
  | cons a as =>
    rw [List.flatMap_cons, List.append_assoc]
    exact h.next _ (has a List.mem_cons_self)

/-- **A sequence of pieces is made out** in front of what stops it, if each piece of it is told. The
    induction is on the first sequence. -/
theorem Pieces.flatMap_append_inj (h : Pieces piece good follows stops) (has : ∀ a ∈ as, good a)
    (hbs : ∀ b ∈ bs, good b) (htold : ∀ a ∈ as, ∀ b ∈ bs, Told piece follows a b) (hr : stops r)
    (hs : stops s) (heq : as.flatMap piece ++ r = bs.flatMap piece ++ s) : as = bs ∧ r = s := by
  induction as generalizing bs with
  | nil =>
    cases bs with
    | nil => exact ⟨rfl, heq⟩
    | cons b bs =>
      rw [List.flatMap_cons, List.append_assoc] at heq
      exact absurd heq (h.ne _ (hbs b List.mem_cons_self) hr)
  | cons a as ih =>
    cases bs with
    | nil =>
      rw [List.flatMap_cons, List.append_assoc] at heq
      exact absurd heq.symm (h.ne _ (has a List.mem_cons_self) hs)
    | cons b bs =>
      have hatail := (List.forall_mem_cons.mp has).2
      have hbtail := (List.forall_mem_cons.mp hbs).2
      rw [List.flatMap_cons, List.flatMap_cons, List.append_assoc, List.append_assoc] at heq
      have hfirst := htold a List.mem_cons_self b List.mem_cons_self
      obtain ⟨rfl, hrest⟩ := hfirst _ _ (h.follows_flatMap hatail hr)
        (h.follows_flatMap hbtail hs) heq
      have htail : ∀ c ∈ as, ∀ d ∈ bs, Told piece follows c d := fun c hc d hd =>
        htold c (List.mem_cons_of_mem a hc) d (List.mem_cons_of_mem a hd)
      obtain ⟨rfl, hend⟩ := ih hatail hbtail htail hrest
      exact ⟨rfl, hend⟩

/-! ## Optional pieces -/

/-- The piece of something that may be missing, behind a heading. -/
def optionalPiece (heading : List β) (piece : α → List β) : Option α → List β
  | none => []
  | some a => heading ++ piece a

/-- What holds of headings and of pieces holds of optional pieces. -/
theorem forall_mem_optionalPiece {P : β → Prop} {heading : List β} {o : Option α}
    (hheading : ∀ b ∈ heading, P b) (hpiece : ∀ a ∈ o, ∀ b ∈ piece a, P b) :
    ∀ b ∈ optionalPiece heading piece o, P b := by
  cases o with
  | none => exact fun b hb => absurd hb List.not_mem_nil
  | some a => exact List.forall_mem_append.mpr ⟨hheading, hpiece a rfl⟩

/-- Behind an optional piece, another heading is not at the beginning if it is not at the beginning
    of what follows, and differs from the one in front of the piece. -/
theorem optionalPiece_append_ne {heading heading' : List β} {o : Option α}
    (happart : ∀ t t', heading ++ t ≠ heading' ++ t') (hr : ∀ t', r ≠ heading' ++ t')
    (t' : List β) :
    optionalPiece heading piece o ++ r ≠ heading' ++ t' := by
  cases o with
  | none => exact hr t'
  | some a =>
    rw [optionalPiece, List.append_assoc]
    exact happart _ t'

/-- **An optional piece is made out** in front of what does not begin with its heading, if it is told
    from other pieces there. -/
theorem optionalPiece_append_inj {heading : List β} {o o' : Option α}
    (htold : ∀ a ∈ o, ∀ b ∈ o', piece a ++ r = piece b ++ s → a = b ∧ r = s)
    (hr : ∀ t, r ≠ heading ++ t) (hs : ∀ t, s ≠ heading ++ t)
    (h : optionalPiece heading piece o ++ r = optionalPiece heading piece o' ++ s) :
    o = o' ∧ r = s := by
  cases o with
  | none =>
    cases o' with
    | none => exact ⟨rfl, h⟩
    | some b =>
      rw [optionalPiece, optionalPiece, List.append_assoc] at h
      exact absurd h (hr _)
  | some a =>
    cases o' with
    | none =>
      rw [optionalPiece, optionalPiece, List.append_assoc] at h
      exact absurd h.symm (hs _)
    | some b =>
      rw [optionalPiece, optionalPiece, List.append_assoc, List.append_assoc,
        List.append_cancel_left_eq] at h
      obtain ⟨rfl, hrest⟩ := htold a rfl b rfl h
      exact ⟨rfl, hrest⟩

end QueryTuning
