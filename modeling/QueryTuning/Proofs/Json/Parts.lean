import Mathlib.Data.List.Pairwise
import QueryTuning.Json.Record
import QueryTuning.Proofs.Json.Inversion

/-!
# What records are read from

A record is read from the members of an object one after another, or from the items of an array.
In either case it comes to the same: each field is read from its own part of the document, whatever
else there is and wherever the part stands, and what is left out is left out of the draft. This
needs fields that keep out of each other's way.

* `Json.Doc.part?` : the part of a document that belongs to a field.
* `Json.Record.fill` : fills in a draft field by field, each from its part.
* `Json.Record.Admits` : the documents that have the form of a record.
* `Json.Record.reader_eq_ok_iff` : a record is read from a document of its form, part by part.
-/

namespace QueryTuning.Json

variable {σ α β γ : Type}

/-! ## Parts of a document -/

/-- Whether a string is read as a name. -/
def Quoted.isName (q : Quoted) (name : String) : Bool :=
  match q.read with
  | .ok s => s == name
  | .error _ => false

theorem Quoted.isName_iff {q : Quoted} {name : String} :
    q.isName name = true ↔ q.read = .ok name := by
  unfold isName
  cases q.read <;> simp

namespace Doc

/-- The values of the members of a name. -/
def values (members : List (Quoted × Doc)) (name : String) : List Doc :=
  members.filterMap fun m => if m.1.isName name then some m.2 else none

/-- The value of the first member of a name. -/
def member? (members : List (Quoted × Doc)) (name : String) : Option Doc :=
  (values members name).head?

/-- The item that stands where a name does among some names. -/
def item? (names : List String) (ds : List Doc) (name : String) : Option Doc :=
  (names.zip ds).lookup name

/-- **The part of a document that belongs to a name**: in an object, the member of the name; in an
    array, the item that stands where the name does among some names. -/
def part? (names : List String) (d : Doc) (name : String) : Option Doc :=
  match d with
  | .object members _ => member? members name
  | .array ds _ => item? names ds name
  | _ => none

/-- A member has its own name. -/
theorem values_cons_of_read {q : Quoted} {name : String} (h : q.read = .ok name) (d : Doc)
    (members : List (Quoted × Doc)) :
    values ((q, d) :: members) name = d :: values members name :=
  List.filterMap_cons_some (if_pos (Quoted.isName_iff.mpr h))

/-- A member of another name makes no difference. -/
theorem values_cons_of_ne {q : Quoted} {key name : String} (h : q.read = .ok key)
    (hne : key ≠ name) (d : Doc) (members : List (Quoted × Doc)) :
    values ((q, d) :: members) name = values members name := by
  have hname : ¬ q.isName name = true := by
    rw [Quoted.isName_iff, h]
    exact fun hkey => hne (Except.ok.inj hkey)
  exact List.filterMap_cons_none (if_neg hname)

theorem member?_cons_of_read {q : Quoted} {name : String} (h : q.read = .ok name) (d : Doc)
    (members : List (Quoted × Doc)) : member? ((q, d) :: members) name = some d := by
  rw [member?, values_cons_of_read h, List.head?_cons]

theorem member?_cons_of_ne {q : Quoted} {key name : String} (h : q.read = .ok key)
    (hne : key ≠ name) (d : Doc) (members : List (Quoted × Doc)) :
    member? ((q, d) :: members) name = member? members name := by
  rw [member?, values_cons_of_ne h hne, member?]

/-- Where a name does not occur, there is no member of it. -/
theorem member?_of_length_values {members : List (Quoted × Doc)} {name : String}
    (h : (values members name).length = 0) : member? members name = none := by
  rw [member?, List.length_eq_zero_iff.mp h, List.head?_nil]

/-- Without items no name has any. -/
theorem item?_nil (names : List String) (name : String) : item? names [] name = none := by
  rw [item?, List.zip_nil_right, List.lookup_nil]

/-- The first item belongs to the first name. -/
theorem item?_cons_self (name : String) (names : List String) (d : Doc) (ds : List Doc) :
    item? (name :: names) (d :: ds) name = some d := by
  rw [item?, List.zip_cons_cons, List.lookup_cons_self]

/-- The other items belong to the other names. -/
theorem item?_cons_of_ne {key name : String} (hne : key ≠ name) (names : List String) (d : Doc)
    (ds : List Doc) : item? (key :: names) (d :: ds) name = item? names ds name := by
  have hkey : (name == key) = false := beq_eq_false_iff_ne.mpr hne.symm
  simp [item?, List.lookup_cons, hkey]

end Doc

namespace Record

/-! ## Filling in a draft field by field -/

/-- Fills in a draft field by field, each from its part if there is one. -/
def fill (fields : List (Field σ)) (room : Nat) (part? : String → Option Doc) (draft : σ) :
    Except Error σ :=
  match fields with
  | [] => .ok draft
  | field :: fields =>
    match part? field.name with
    | none => fill fields room part? draft
    | some d => do
      let update ← field.read room d
      fill fields room part? (update draft)

variable {field : Field σ} {fields : List (Field σ)} {room : Nat} {draft full : σ}
  {part? other? : String → Option Doc}

theorem fill_nil : fill [] room part? draft = .ok draft := rfl

theorem fill_cons_of_none (h : part? field.name = none) :
    fill (field :: fields) room part? draft = fill fields room part? draft := by
  rw [fill, h]

theorem fill_cons_of_some {d : Doc} (h : part? field.name = some d) :
    fill (field :: fields) room part? draft = .ok full ↔
      ∃ update, field.read room d = .ok update ∧
        fill fields room part? (update draft) = .ok full := by
  rw [fill, h]
  constructor
  · exact exists_of_bind_eq_ok
  · rintro ⟨update, hupdate, hfull⟩
    simp only [hupdate]
    exact hfull

/-- Only the parts of the fields matter. -/
theorem fill_congr (h : ∀ field ∈ fields, part? field.name = other? field.name) (draft : σ) :
    fill fields room part? draft = fill fields room other? draft := by
  induction fields generalizing draft with
  | nil => rfl
  | cons field fields ih =>
    obtain ⟨hfield, hfields⟩ := List.forall_mem_cons.mp h
    rw [fill, fill, hfield]
    cases other? field.name with
    | none => exact ih hfields draft
    | some d => exact bind_congr fun update => ih hfields (update draft)

/-- A draft is filled in from other parts in the same way if every field is read from them as
    before. -/
theorem fill_of_rel {same : Doc → Doc → Prop}
    (hsame : ∀ field ∈ fields, ∀ d d' update, same d d' → field.read room d = .ok update →
      field.read room d' = .ok update)
    (h : ∀ field ∈ fields, Option.Rel same (part? field.name) (other? field.name))
    (hfull : fill fields room part? draft = .ok full) :
    fill fields room other? draft = .ok full := by
  induction fields generalizing draft with
  | nil => exact hfull
  | cons field fields ih =>
    obtain ⟨hfield, hfields⟩ := List.forall_mem_cons.mp h
    obtain ⟨hread, hreads⟩ := List.forall_mem_cons.mp hsame
    cases hpart : part? field.name with
    | none =>
      rw [hpart] at hfield
      cases hother : other? field.name with
      | none =>
        rw [fill_cons_of_none hpart] at hfull
        rw [fill_cons_of_none hother]
        exact ih hreads hfields hfull
      | some d' =>
        rw [hother] at hfield
        cases hfield
    | some d =>
      rw [hpart] at hfield
      cases hother : other? field.name with
      | none =>
        rw [hother] at hfield
        cases hfield
      | some d' =>
        rw [hother] at hfield
        cases hfield with
        | some hdd =>
          obtain ⟨update, hupdate, hrest⟩ := (fill_cons_of_some hpart).mp hfull
          exact (fill_cons_of_some hother).mpr
            ⟨update, hread d d' update hdd hupdate, ih hreads hfields hrest⟩

/-- A field with a component of its own is read from its part, if there is one. -/
theorem fill_of_eq_ok_iff {name : String} {get : σ → Option β} {set : σ → β → σ}
    {read : Reader β} :
    fill (.of name get set read :: fields) room part? draft = .ok full ↔
      ∃ o, (part? name).mapM (read room) = .ok o ∧
        fill fields room part? (o.elim draft (set draft)) = .ok full := by
  cases hpart : part? name with
  | none =>
    rw [fill_cons_of_none hpart, Option.mapM_none]
    constructor
    · exact fun h => ⟨none, rfl, h⟩
    · rintro ⟨o, ho, h⟩
      obtain rfl := Except.ok.inj ho
      exact h
  | some d =>
    rw [fill_cons_of_some hpart, Option.mapM_some]
    constructor
    · rintro ⟨update, hupdate, h⟩
      obtain ⟨b, hb, rfl⟩ := exists_of_map_eq_ok hupdate
      exact ⟨some b, by rw [hb]; rfl, h⟩
    · rintro ⟨o, ho, h⟩
      obtain ⟨b, hb, rfl⟩ := exists_of_map_eq_ok ho
      refine ⟨fun draft => set draft b, ?_, h⟩
      show (fun b draft => set draft b) <$> read room d = _
      rw [hb]
      rfl

/-- A component that was missing is filled in with what its part gives, if there is one. -/
theorem fill_of_eq_ok {name : String} {get : σ → Option β} {set : σ → β → σ} {read : Reader β}
    {o : Option β} (enter : Option β → σ) (henter : ∀ b, set (enter none) b = enter (some b))
    (ho : (part? name).mapM (read room) = .ok o)
    (hrest : fill fields room part? (enter o) = .ok full) :
    fill (.of name get set read :: fields) room part? (enter none) = .ok full := by
  refine fill_of_eq_ok_iff.mpr ⟨o, ho, ?_⟩
  cases o with
  | none => exact hrest
  | some b => rwa [Option.elim_some, henter]

/-! ## Fields that keep out of each other's way -/

end Record

/-- Two fields **keep out of each other's way** if they have different names, if neither adds the
    other one to a draft, and if it makes no difference which of them is added first. -/
structure Field.Apart (f g : Field σ) : Prop where
  /-- The names are different. -/
  name : f.name ≠ g.name
  /-- The first field does not add the second one. -/
  isSet_right : ∀ {room d update}, f.read room d = .ok update →
    ∀ draft, g.isSet (update draft) = g.isSet draft
  /-- The second field does not add the first one. -/
  isSet_left : ∀ {room d update}, g.read room d = .ok update →
    ∀ draft, f.isSet (update draft) = f.isSet draft
  /-- They may be added in either order. -/
  comm : ∀ {room d update e later}, f.read room d = .ok update → g.read room e = .ok later →
    ∀ draft, later (update draft) = update (later draft)

instance : Std.Symm (@Field.Apart σ) where
  symm _ _ h :=
    { name := h.name.symm
      isSet_right := h.isSet_left
      isSet_left := h.isSet_right
      comm := fun hg hf draft => (h.comm hf hg draft).symm }

/-- A field **shows** if it is there once it was added. -/
def Field.Shows (f : Field σ) : Prop :=
  ∀ room d update, f.read room d = .ok update → ∀ draft, f.isSet (update draft) = true

/-- The fields of a record are **lawful** if each of them shows and all of them keep out of each
    other's way. -/
structure Lawful (fields : List (Field σ)) : Prop where
  /-- Each field shows. -/
  shows : ∀ f ∈ fields, f.Shows
  /-- Any two fields keep out of each other's way. -/
  apart : fields.Pairwise Field.Apart

namespace Field

variable {name name' : String} {get : σ → Option β} {set : σ → β → σ} {read : Reader β}
  {get' : σ → Option γ} {set' : σ → γ → σ} {read' : Reader γ}

/-- A field with a component of its own is read alike where its component is. -/
theorem read_of_eq {room : Nat} {d d' : Doc} (h : read room d' = read room d) :
    (of name get set read).read room d' = (of name get set read).read room d :=
  congrArg (fun x => (fun b draft => set draft b) <$> x) h

/-- A field with a component of its own shows if its component does. -/
theorem shows_of (hget : ∀ draft b, get (set draft b) = some b) :
    (of name get set read).Shows := by
  intro room d update hupdate draft
  obtain ⟨b, -, rfl⟩ := exists_of_map_eq_ok hupdate
  show (get (set draft b)).isSome = true
  rw [hget]
  rfl

/-- Fields keep out of each other's way if their components do. -/
theorem apart_of (hname : name ≠ name') (hright : ∀ draft b, get' (set draft b) = get' draft)
    (hleft : ∀ draft c, get (set' draft c) = get draft)
    (hcomm : ∀ draft b c, set' (set draft b) c = set (set' draft c) b) :
    (of name get set read).Apart (of name' get' set' read') where
  name := hname
  isSet_right hupdate draft := by
    obtain ⟨b, -, rfl⟩ := exists_of_map_eq_ok hupdate
    exact congrArg Option.isSome (hright draft b)
  isSet_left hupdate draft := by
    obtain ⟨c, -, rfl⟩ := exists_of_map_eq_ok hupdate
    exact congrArg Option.isSome (hleft draft c)
  comm hupdate hlater draft := by
    obtain ⟨b, -, rfl⟩ := exists_of_map_eq_ok hupdate
    obtain ⟨c, -, rfl⟩ := exists_of_map_eq_ok hlater
    exact hcomm draft b c

end Field

namespace Lawful

variable {fields : List (Field σ)} {f g : Field σ}

/-- No fields are lawful. -/
theorem nil : Lawful ([] : List (Field σ)) :=
  ⟨fun _ hf => absurd hf List.not_mem_nil, .nil⟩

/-- One more field is lawful with others if it shows and keeps out of their way. -/
theorem cons (hshows : f.Shows) (hapart : ∀ g ∈ fields, f.Apart g) (h : Lawful fields) :
    Lawful (f :: fields) :=
  ⟨List.forall_mem_cons.mpr ⟨hshows, h.shows⟩, .cons hapart h.apart⟩

/-- Fields of different names keep out of each other's way. -/
theorem apart_of_ne (h : Lawful fields) (hf : f ∈ fields) (hg : g ∈ fields)
    (hne : f.name ≠ g.name) : f.Apart g :=
  h.apart.forall hf hg fun hfg => hne (congrArg Field.name hfg)

/-- There is only one field of a name. -/
theorem eq_of_name_eq (h : Lawful fields) (hf : f ∈ fields) (hg : g ∈ fields)
    (hname : f.name = g.name) : f = g := by
  by_contra hne
  exact (h.apart.forall hf hg hne).name hname

/-- A field is found by its name. -/
theorem find?_eq_some (h : Lawful fields) (hf : f ∈ fields) :
    fields.find? (·.name == f.name) = some f := by
  cases hfind : fields.find? (·.name == f.name) with
  | none => exact absurd (List.find?_eq_none.mp hfind f hf) (by simp)
  | some g =>
    have hname : g.name = f.name := by simpa using List.find?_some hfind
    rw [h.eq_of_name_eq (List.mem_of_find?_eq_some hfind) hf hname]

end Lawful

namespace Record

variable {field : Field σ} {fields : List (Field σ)} {room : Nat} {draft full : σ}
  {part? other? : String → Option Doc}

/-- It makes no difference to a draft when a field is read from its part: it may as well be the
    first one. The induction is on the fields; where the field is not the first one, it changes
    places with the field before it. -/
theorem fill_eq_ok_iff_of_mem (hapart : fields.Pairwise Field.Apart) (hfield : field ∈ fields)
    {d : Doc} (hpart : part? field.name = some d) (hother : other? field.name = none)
    (hsame : ∀ g ∈ fields, field.name ≠ g.name → part? g.name = other? g.name) :
    fill fields room part? draft = .ok full ↔
      ∃ update, field.read room d = .ok update ∧
        fill fields room other? (update draft) = .ok full := by
  induction fields generalizing draft with
  | nil => cases hfield
  | cons g fields ih =>
    obtain ⟨hg, hfields⟩ := List.pairwise_cons.mp hapart
    obtain ⟨hfirst, hrest⟩ := List.forall_mem_cons.mp hsame
    rcases List.mem_cons.mp hfield with rfl | hmem
    · rw [fill_cons_of_some hpart]
      refine exists_congr fun update => and_congr_right fun _ => ?_
      rw [fill_cons_of_none hother]
      rw [fill_congr fun f hf => hrest f hf (hg f hf).name]
    · have hswap : g.Apart field := hg field hmem
      have hpartg := hfirst hswap.name.symm
      cases hother' : other? g.name with
      | none =>
        rw [hother'] at hpartg
        rw [fill_cons_of_none hpartg, ih hfields hmem hrest]
        refine exists_congr fun update => and_congr_right fun _ => ?_
        rw [fill_cons_of_none hother']
      | some e =>
        -- Both orders read the two fields, and the updates may change places.
        rw [hother'] at hpartg
        rw [fill_cons_of_some hpartg]
        simp only [ih hfields hmem hrest, fill_cons_of_some hother']
        constructor
        · rintro ⟨first, hfirst, update, hupdate, hfull⟩
          refine ⟨update, hupdate, first, hfirst, ?_⟩
          rw [← hswap.comm hfirst hupdate]
          exact hfull
        · rintro ⟨update, hupdate, first, hfirst, hfull⟩
          refine ⟨first, hfirst, update, hupdate, ?_⟩
          rw [hswap.comm hfirst hupdate]
          exact hfull

/-- Without any parts a draft stays as it is. -/
theorem fill_of_forall_none (h : ∀ field ∈ fields, part? field.name = none) :
    fill fields room part? draft = .ok draft := by
  induction fields with
  | nil => rfl
  | cons field fields ih =>
    obtain ⟨hfield, hfields⟩ := List.forall_mem_cons.mp h
    rw [fill_cons_of_none hfield, ih hfields]

/-! ## Objects -/

/-- **A member may stand in an object** for a record if its name can be read, and if it is well
    formed in case that the record has no field of this name. -/
def MayStand (names : List String) (m : Quoted × Doc) : Prop :=
  ∃ name, m.1.read = .ok name ∧ (name ∈ names ∨ m.2.formFault? = none)

/-- **Members are admitted** to a draft if each of them may stand in the object, and if no field
    occurs twice, where a field that the draft has already counts as well. -/
structure Admitted (fields : List (Field σ)) (draft : σ) (members : List (Quoted × Doc)) :
    Prop where
  /-- Each member may stand in the object. -/
  mayStand : ∀ m ∈ members, MayStand (fields.map Field.name) m
  /-- No field occurs twice. -/
  once : ∀ f ∈ fields, (Doc.values members f.name).length + (f.isSet draft).toNat ≤ 1

variable {q : Quoted} {d : Doc} {key : String} {rest : List (Quoted × Doc)}

/-- A member without a field is admitted if it is well formed. -/
theorem admitted_cons_of_not_mem (hq : q.read = .ok key) (hkey : key ∉ fields.map Field.name) :
    Admitted fields draft ((q, d) :: rest) ↔
      d.formFault? = none ∧ Admitted fields draft rest := by
  have hne : ∀ f ∈ fields, key ≠ f.name := by
    rintro f hf rfl
    exact hkey (List.mem_map_of_mem hf)
  constructor
  · rintro ⟨hstand, honce⟩
    obtain ⟨⟨name, hname, hcase⟩, hrest⟩ := List.forall_mem_cons.mp hstand
    obtain rfl : key = name := Except.ok.inj (hq.symm.trans hname)
    refine ⟨hcase.resolve_left hkey, hrest, fun f hf => ?_⟩
    rw [← Doc.values_cons_of_ne hq (hne f hf) d]
    exact honce f hf
  · rintro ⟨hform, hstand, honce⟩
    refine ⟨List.forall_mem_cons.mpr ⟨⟨key, hq, .inr hform⟩, hstand⟩, fun f hf => ?_⟩
    rw [Doc.values_cons_of_ne hq (hne f hf) d]
    exact honce f hf

/-- A member with a field is admitted if the draft does not have the field, and then it has. -/
theorem admitted_cons_of_mem (hlawful : Lawful fields) (hfield : field ∈ fields)
    (hq : q.read = .ok field.name) {update : σ → σ} (hread : field.read room d = .ok update) :
    Admitted fields draft ((q, d) :: rest) ↔
      field.isSet draft = false ∧ Admitted fields (update draft) rest := by
  have hset : field.isSet (update draft) = true := hlawful.shows field hfield _ _ _ hread draft
  have hother {f : Field σ} (hf : f ∈ fields) (hne : field.name ≠ f.name) :
      f.isSet (update draft) = f.isSet draft :=
    (hlawful.apart_of_ne hfield hf hne).isSet_right hread draft
  constructor
  · rintro ⟨hstand, honce⟩
    have hself := honce field hfield
    rw [Doc.values_cons_of_read hq, List.length_cons] at hself
    refine ⟨by cases h : field.isSet draft <;> simp_all, (List.forall_mem_cons.mp hstand).2, ?_⟩
    intro f hf
    by_cases hname : field.name = f.name
    · obtain rfl := hlawful.eq_of_name_eq hfield hf hname
      rw [hset, Bool.toNat_true]
      omega
    · rw [hother hf hname, ← Doc.values_cons_of_ne hq hname d]
      exact honce f hf
  · rintro ⟨hunset, hstand, honce⟩
    refine ⟨List.forall_mem_cons.mpr ⟨⟨_, hq, .inl (List.mem_map_of_mem hfield)⟩, hstand⟩, ?_⟩
    intro f hf
    have hf' := honce f hf
    by_cases hname : field.name = f.name
    · obtain rfl := hlawful.eq_of_name_eq hfield hf hname
      rw [hset, Bool.toNat_true] at hf'
      rw [Doc.values_cons_of_read hq, List.length_cons, hunset, Bool.toNat_false]
      exact hf'
    · rw [Doc.values_cons_of_ne hq hname, ← hother hf hname]
      exact hf'

/-- A member without a field has to be well formed, and does nothing. -/
theorem readMembers_cons_of_not_mem (hq : q.read = .ok key)
    (hkey : key ∉ fields.map Field.name) :
    readMembers fields room ((q, d) :: rest) draft = .ok full ↔
      d.formFault? = none ∧ readMembers fields room rest draft = .ok full := by
  have hfind : fields.find? (·.name == key) = none := by
    simpa [List.find?_eq_none] using hkey
  simp only [readMembers, readQuoted, hq, bind, Except.bind, hfind]
  cases d.formFault? <;> simp [checkFault]

/-- A member with a field is read, unless the field is there already. -/
theorem readMembers_cons_of_mem (hlawful : Lawful fields) (hfield : field ∈ fields)
    (hq : q.read = .ok field.name) :
    readMembers fields room ((q, d) :: rest) draft = .ok full ↔
      field.isSet draft = false ∧ ∃ update, field.read room d = .ok update ∧
        readMembers fields room rest (update draft) = .ok full := by
  simp only [readMembers, readQuoted, hq, bind, Except.bind, hlawful.find?_eq_some hfield]
  cases hset : field.isSet draft with
  | true => simp [refuse]
  | false => cases hread : field.read room d <;> simp

/-- **Members are read one after another as if they were read field by field**, if they are
    admitted. The induction is on the members. -/
theorem readMembers_eq_ok_iff (hlawful : Lawful fields) (members : List (Quoted × Doc)) :
    readMembers fields room members draft = .ok full ↔
      Admitted fields draft members ∧
        fill fields room (Doc.member? members) draft = .ok full := by
  induction members generalizing draft with
  | nil =>
    have hadmitted : Admitted fields draft [] :=
      ⟨fun m hm => absurd hm List.not_mem_nil, fun f _ => by simp [Doc.values, Bool.toNat_le]⟩
    rw [fill_of_forall_none fun _ _ => rfl, and_iff_right hadmitted, readMembers]
  | cons m rest ih =>
    obtain ⟨q, d⟩ := m
    cases hq : q.read with
    | error fault =>
      constructor
      · intro h
        simp [readMembers, readQuoted, hq, bind, Except.bind] at h
      · rintro ⟨⟨hstand, -⟩, -⟩
        obtain ⟨name, hname, -⟩ := hstand (q, d) List.mem_cons_self
        simp [hq] at hname
    | ok key =>
      by_cases hkey : key ∈ fields.map Field.name
      · obtain ⟨field, hfield, rfl⟩ := List.mem_map.mp hkey
        rw [readMembers_cons_of_mem hlawful hfield hq]
        -- The field is read from this member exactly if it does not occur in the others.
        have hfill (hrest : (Doc.values rest field.name).length = 0) :
            fill fields room (Doc.member? ((q, d) :: rest)) draft = .ok full ↔ _ :=
          fill_eq_ok_iff_of_mem hlawful.apart hfield (Doc.member?_cons_of_read hq d rest)
            (Doc.member?_of_length_values hrest) fun g _ hne => Doc.member?_cons_of_ne hq hne d rest
        constructor
        · rintro ⟨hunset, update, hread, hfull⟩
          obtain ⟨hadmitted, hfull⟩ := ih.mp hfull
          have honce := hadmitted.once field hfield
          rw [hlawful.shows field hfield _ _ _ hread draft, Bool.toNat_true] at honce
          exact ⟨(admitted_cons_of_mem hlawful hfield hq hread).mpr ⟨hunset, hadmitted⟩,
            (hfill (by omega)).mpr ⟨update, hread, hfull⟩⟩
        · rintro ⟨hadmitted, hfull⟩
          have honce := hadmitted.once field hfield
          rw [Doc.values_cons_of_read hq, List.length_cons] at honce
          obtain ⟨update, hread, hfull⟩ := (hfill (by omega)).mp hfull
          obtain ⟨hunset, hadmitted⟩ :=
            (admitted_cons_of_mem hlawful hfield hq hread).mp hadmitted
          exact ⟨hunset, update, hread, ih.mpr ⟨hadmitted, hfull⟩⟩
      · have hne : ∀ f ∈ fields, key ≠ f.name := by
          rintro f hf rfl
          exact hkey (List.mem_map_of_mem hf)
        rw [readMembers_cons_of_not_mem hq hkey, ih, admitted_cons_of_not_mem hq hkey, and_assoc,
          fill_congr fun f hf => Doc.member?_cons_of_ne hq (hne f hf) d rest]

/-! ## Arrays -/

/-- **Items are read one after another as if they were read field by field**, if there are not too
    many and not too few of them. The induction is on the fields that are left. -/
theorem readItems_eq_ok_iff {record : Record σ α} {ending : Option Fault}
    (hapart : fields.Pairwise Field.Apart) (ds : List Doc) :
    record.readItems room ending fields ds draft = .ok full ↔
      (ending = none ∧ ds.length ≤ fields.length ∧ (ds.length = fields.length ∨
        record.needed ≤ record.fields.length - (fields.length - ds.length))) ∧
      fill fields room (Doc.item? (fields.map Field.name) ds) draft = .ok full := by
  induction fields generalizing ds draft with
  | nil =>
    cases ds with
    | nil =>
      cases ending <;> simp [readItems, checkFault, fill, bind, Except.bind, pure, Except.pure]
    | cons d ds => simp [readItems, malformed]
  | cons field fields ih =>
    cases ds with
    | nil =>
      -- The items end here, and the fields that are left may be left out or not.
      rw [fill_of_forall_none fun _ _ => Doc.item?_nil _ _]
      cases ending with
      | some fault => simp [readItems, checkFault, bind, Except.bind]
      | none =>
        simp only [readItems, checkFault, bind, Except.bind, pure, Except.pure, List.length_cons]
        split <;> simp [refuse] <;> omega
    | cons d ds =>
      obtain ⟨hfield, hfields⟩ := List.pairwise_cons.mp hapart
      have hrest (draft : σ) :
          fill fields room (Doc.item? ((field :: fields).map Field.name) (d :: ds)) draft
            = fill fields room (Doc.item? (fields.map Field.name) ds) draft :=
        fill_congr (fun f hf => Doc.item?_cons_of_ne (hfield f hf).name _ d ds) draft
      rw [List.map_cons, fill_cons_of_some (Doc.item?_cons_self field.name _ d ds), ← List.map_cons]
      simp only [hrest, List.length_cons, Nat.add_le_add_iff_right, Nat.add_right_cancel_iff,
        Nat.add_sub_add_right]
      constructor
      · intro h
        obtain ⟨update, hread, h⟩ := exists_of_bind_eq_ok h
        obtain ⟨hshape, hfull⟩ := (ih hfields ds).mp h
        exact ⟨hshape, update, hread, hfull⟩
      · rintro ⟨hshape, update, hread, hfull⟩
        rw [readItems, hread]
        exact (ih hfields ds).mpr ⟨hshape, hfull⟩

/-! ## Records -/

/-- **A document has the form of a record**: an object whose members are admitted, or an array with
    neither too many nor too few items. -/
def Admits (record : Record σ α) : Doc → Prop
  | .object members ending => ending = none ∧ Admitted record.fields record.start members
  | .array ds ending => ending = none ∧ ds.length ≤ record.fields.length ∧
      (ds.length = record.fields.length ∨ record.needed ≤ ds.length)
  | .null | .bool _ | .number _ | .string _ | .broken _ _ | .absent _ => False

/-- **A record is read from a document of its form**, each field from its part. -/
theorem reader_eq_ok_iff {record : Record σ α} (hlawful : Lawful record.fields) {d : Doc} {a : α} :
    record.reader room d = .ok a ↔ ∃ r, room = r + 1 ∧ record.Admits d ∧
      ∃ full,
        fill record.fields r (d.part? (record.fields.map Field.name)) record.start = .ok full ∧
        record.finish full = .ok a := by
  constructor
  · intro h
    match d, room, h with
    | .object members ending, r + 1, h =>
      obtain ⟨full, hfull, h⟩ := exists_of_bind_eq_ok h
      obtain ⟨_, hending, h⟩ := exists_of_bind_eq_ok h
      obtain ⟨hadmitted, hfull⟩ := (readMembers_eq_ok_iff hlawful members).mp hfull
      exact ⟨r, rfl, ⟨checkFault_eq_ok_iff.mp hending, hadmitted⟩, full, hfull, h⟩
    | .array ds ending, r + 1, h =>
      obtain ⟨full, hfull, h⟩ := exists_of_bind_eq_ok h
      obtain ⟨⟨hending, hle, hshape⟩, hfull⟩ := (readItems_eq_ok_iff hlawful.apart ds).mp hfull
      rw [Nat.sub_sub_self hle] at hshape
      exact ⟨r, rfl, ⟨hending, hle, hshape⟩, full, hfull, h⟩
  · rintro ⟨r, rfl, hadmits, full, hfull, hfinish⟩
    match d, hadmits with
    | .object members _, ⟨rfl, hadmitted⟩ =>
      have hread := (readMembers_eq_ok_iff hlawful members).mpr ⟨hadmitted, hfull⟩
      rw [reader, hread]
      exact hfinish
    | .array ds _, ⟨rfl, hle, hshape⟩ =>
      have hitems : ds.length = record.fields.length ∨
          record.needed ≤ record.fields.length - (record.fields.length - ds.length) := by
        rwa [Nat.sub_sub_self hle]
      have hread := (readItems_eq_ok_iff hlawful.apart ds).mpr ⟨⟨rfl, hle, hitems⟩, hfull⟩
      rw [reader, hread]
      exact hfinish

end Record

end QueryTuning.Json
