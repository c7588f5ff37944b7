import QueryTuning.Expr.Basic

/-!
# Spellings of function names

Case and underscores of a function name do not count. Here this is said in two ways, letter by
letter and by canonical names, for a name and for all the names inside of an expression.

* `SpelledAlike` : two names differ in case and underscores only.
* `spelledAlike_iff` : that is, they have one canonical name.
* `Expr.canonical` : an expression with every function under its canonical name.
* `Expr.RespelledAs`, `Expr.respelledAs_iff` : the same two ways for expressions.
-/

namespace QueryTuning

/-! ## Names -/

/-- **Letters that are spelled alike**: letter by letter they agree up to case, where underscores on
    either side are passed over. -/
inductive LettersAlike : List Char → List Char → Prop where
  /-- Nothing is left on either side. -/
  | nil : LettersAlike [] []
  /-- The next letters agree up to case. -/
  | letter {c d : Char} {cs ds : List Char} (hcase : c.toLower = d.toLower)
      (hrest : LettersAlike cs ds) : LettersAlike (c :: cs) (d :: ds)
  /-- An underscore on the left is passed over. -/
  | left {cs ds : List Char} (hrest : LettersAlike cs ds) : LettersAlike ('_' :: cs) ds
  /-- An underscore on the right is passed over. -/
  | right {cs ds : List Char} (hrest : LettersAlike cs ds) : LettersAlike cs ('_' :: ds)

/-- Names that are spelled alike differ in case and underscores only. -/
def SpelledAlike (f g : String) : Prop := LettersAlike f.toList g.toList

/-- The letters of a canonical name. -/
def canonicalLetters (cs : List Char) : List Char := (cs.filter (· != '_')).map Char.toLower

theorem toList_canonicalName (f : String) :
    (canonicalName f).toList = canonicalLetters f.toList := by
  simp [canonicalName, canonicalLetters]

theorem canonicalLetters_underscore (cs : List Char) :
    canonicalLetters ('_' :: cs) = canonicalLetters cs := rfl

theorem canonicalLetters_cons {c : Char} (h : c ≠ '_') (cs : List Char) :
    canonicalLetters (c :: cs) = c.toLower :: canonicalLetters cs := by
  simp [canonicalLetters, h]

/-- No other character becomes an underscore in lower case. -/
theorem toLower_eq_underscore_iff {c : Char} : c.toLower = '_' ↔ c = '_' := by
  constructor
  · intro h
    unfold Char.toLower at h
    split at h
    · -- What stands 32 places in front of an underscore is no capital letter.
      rename_i hupper
      have hge : 65 ≤ c.val.toNat := UInt32.le_iff_toNat_le.mp hupper.1
      have hle : c.val.toNat ≤ 90 := UInt32.le_iff_toNat_le.mp hupper.2
      have hval : (c.val.toNat + 32) % 4294967296 = 95 := congrArg (·.val.toNat) h
      omega
    · exact h
  · rintro rfl
    rfl

/-- An underscore only stands beside another one, or is passed over. -/
theorem LettersAlike.canonicalLetters_eq {cs ds : List Char} (h : LettersAlike cs ds) :
    canonicalLetters cs = canonicalLetters ds := by
  induction h with
  | nil => rfl
  | @letter c d cs ds hcase hrest ih =>
    by_cases hc : c = '_'
    · have hd : d = '_' := by
        rw [← toLower_eq_underscore_iff, ← hcase, hc]
        rfl
      rw [hc, hd, canonicalLetters_underscore, canonicalLetters_underscore, ih]
    · have hd : d ≠ '_' := by
        intro hd
        rw [hd] at hcase
        exact hc (toLower_eq_underscore_iff.mp hcase)
      rw [canonicalLetters_cons hc, canonicalLetters_cons hd, hcase, ih]
  | @left cs ds hrest ih => rw [canonicalLetters_underscore, ih]
  | @right cs ds hrest ih => rw [canonicalLetters_underscore, ih]

/-- The induction is on both lists together: the first underscore is passed over on its side, and
    where there is none, the first letters belong together. -/
theorem LettersAlike.of_canonicalLetters_eq :
    ∀ {cs ds : List Char}, canonicalLetters cs = canonicalLetters ds → LettersAlike cs ds
  | [], [], _ => .nil
  | c :: cs, ds, h => by
    by_cases hc : c = '_'
    · rw [hc, canonicalLetters_underscore] at h
      rw [hc]
      exact .left (of_canonicalLetters_eq h)
    · match ds with
      | [] =>
        rw [canonicalLetters_cons hc] at h
        cases h
      | d :: ds =>
        by_cases hd : d = '_'
        · rw [hd, canonicalLetters_underscore] at h
          rw [hd]
          exact .right (of_canonicalLetters_eq h)
        · rw [canonicalLetters_cons hc, canonicalLetters_cons hd] at h
          obtain ⟨hcase, hrest⟩ := List.cons.inj h
          exact .letter hcase (of_canonicalLetters_eq hrest)
  | [], d :: ds, h => by
    by_cases hd : d = '_'
    · rw [hd, canonicalLetters_underscore] at h
      rw [hd]
      exact .right (of_canonicalLetters_eq h)
    · rw [canonicalLetters_cons hd] at h
      cases h
termination_by cs ds => cs.length + ds.length

/-- **Names are spelled alike** exactly if they have one canonical name. -/
theorem spelledAlike_iff {f g : String} :
    SpelledAlike f g ↔ canonicalName f = canonicalName g := by
  rw [← String.toList_inj, toList_canonicalName, toList_canonicalName]
  exact ⟨LettersAlike.canonicalLetters_eq, LettersAlike.of_canonicalLetters_eq⟩

/-- A canonical name is canonical already. -/
theorem canonicalName_canonicalName (f : String) :
    canonicalName (canonicalName f) = canonicalName f := by
  rw [← String.toList_inj, toList_canonicalName, toList_canonicalName]
  have hfilter : ∀ c ∈ canonicalLetters f.toList, (c != '_') = true := by
    intro c hc
    obtain ⟨d, hd, rfl⟩ := List.mem_map.mp hc
    rw [bne_iff_ne, ne_eq, toLower_eq_underscore_iff]
    simpa using (List.mem_filter.mp hd).2
  rw [canonicalLetters, List.filter_eq_self.mpr hfilter, canonicalLetters, List.map_map]
  refine List.map_congr_left fun c _ => ?_
  show c.toLower.toLower = c.toLower
  unfold Char.toLower
  grind

/-! ## Expressions -/

namespace Expr

/-- An expression with every function under its canonical name. -/
def canonical (e : Expr) : Expr :=
  e.fold .literal .identifier fun f es => .call (canonicalName f) es

@[simp] theorem canonical_literal (v : Literal) : canonical (.literal v) = .literal v := rfl

@[simp] theorem canonical_identifier (x : String) :
    canonical (.identifier x) = .identifier x := rfl

@[simp] theorem canonical_call (f : String) (es : List Expr) :
    canonical (.call f es) = .call (canonicalName f) (es.map canonical) := by
  simp only [canonical, fold_call]
  rfl

/-- **An expression is respelled as another one** if they differ in the spelling of function names
    only, at any depth. -/
inductive RespelledAs : Expr → Expr → Prop where
  /-- A constant is the same. -/
  | literal (v : Literal) : RespelledAs (.literal v) (.literal v)
  /-- The name of a column is the same. -/
  | identifier (x : String) : RespelledAs (.identifier x) (.identifier x)
  /-- The functions are spelled alike, and the operands are respelled one by one. -/
  | call {f g : String} {es ds : List Expr} (hname : SpelledAlike f g)
      (hlength : es.length = ds.length)
      (hoperands : ∀ (i : Nat) e d, es[i]? = some e → ds[i]? = some d → RespelledAs e d) :
      RespelledAs (.call f es) (.call g ds)

theorem RespelledAs.canonical_eq {e d : Expr} (h : e.RespelledAs d) :
    e.canonical = d.canonical := by
  induction h with
  | literal v => rfl
  | identifier x => rfl
  | @call f g es ds hname hlength hoperands ih =>
    have hes : es.map canonical = ds.map canonical := by
      refine List.ext_getElem (by simpa using hlength) fun i hi hi' => ?_
      rw [List.getElem_map, List.getElem_map]
      exact ih i _ _ (List.getElem?_eq_getElem _) (List.getElem?_eq_getElem _)
    rw [canonical_call, canonical_call, spelledAlike_iff.mp hname, hes]

theorem RespelledAs.of_canonical_eq {e d : Expr} (h : e.canonical = d.canonical) :
    e.RespelledAs d := by
  induction e using inductionOn generalizing d with
  | literal v =>
    cases d with
    | literal w => cases h; exact .literal v
    | identifier y => cases h
    | call g ds => simp at h
  | identifier x =>
    cases d with
    | literal w => cases h
    | identifier y => cases h; exact .identifier x
    | call g ds => simp at h
  | call f es ih =>
    cases d with
    | literal w => simp at h
    | identifier y => simp at h
    | call g ds =>
      rw [canonical_call, canonical_call] at h
      obtain ⟨hname, hes⟩ := call.inj h
      have hlength : es.length = ds.length := by simpa using congrArg List.length hes
      refine .call (spelledAlike_iff.mpr hname) hlength fun i e d he hd => ?_
      -- The operands at one place have the same canonical form.
      have hsame : (es.map canonical)[i]? = (ds.map canonical)[i]? := by rw [hes]
      rw [List.getElem?_map, List.getElem?_map, he, hd] at hsame
      exact ih e (List.mem_of_getElem? he) (Option.some.inj hsame)

/-- **Expressions are respelled as one another** exactly if they have one canonical form. -/
theorem respelledAs_iff {e d : Expr} : e.RespelledAs d ↔ e.canonical = d.canonical :=
  ⟨RespelledAs.canonical_eq, RespelledAs.of_canonical_eq⟩

end Expr

end QueryTuning
