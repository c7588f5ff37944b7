import QueryTuning.Json.Record
import QueryTuning.Json.Variant
import QueryTuning.Proofs.Json.Inversion

/-!
# What readers give

A text may be given in forms that are never written: members in any order and others between them,
records as arrays, names of variants as objects. Whatever the form is, what a reader gives has the
properties that the readers of the parts give it.

* `Json.Yields` : everything that a reader gives has a property.
* `Json.Yields.list`, `Json.Yields.option`, `Json.Yields.variant`, `Json.Yields.record` : the same
  for values that are made of others. Each bracket takes some room from what is inside of it.
-/

namespace QueryTuning.Json

variable {σ α β : Type}

/-- **A reader yields a property** if it has been read in whatever document it accepts with some
    room. -/
def Yields (read : Reader α) (room : Nat) (P : α → Prop) : Prop :=
  ∀ d a, read room d = .ok a → P a

namespace Yields

variable {read : Reader α} {room : Nat} {P Q : α → Prop}

/-- What follows from a property is yielded with it. -/
theorem imp (h : Yields read room P) (hPQ : ∀ a, P a → Q a) : Yields read room Q :=
  fun d a ha => hPQ a (h d a ha)

/-- A function of what is read has the property that it takes from it. -/
theorem map {f : α → β} {P : β → Prop} (h : Yields read room fun a => P (f a)) :
    Yields (fun room d => f <$> read room d) room P := by
  intro d b hb
  obtain ⟨a, ha, rfl⟩ := exists_of_map_eq_ok hb
  exact h d a ha

/-! ## Lists and options -/

/-- **The items of a list have the property** inside of its bracket. -/
theorem list (h : ∀ r, room = r + 1 → Yields read r P) :
    Yields (Reader.list read) room fun as => 0 < room ∧ ∀ a ∈ as, P a := by
  intro d as has
  obtain ⟨r, ds, rfl, rfl, hread⟩ := Reader.list_eq_ok_iff.mp has
  refine ⟨Nat.succ_pos r, fun a ha => ?_⟩
  obtain ⟨d, -, hd⟩ := exists_of_mem_right hread a ha
  exact h r rfl d a hd

/-- What may be missing has the property if it is there. -/
theorem option (h : Yields read room P) :
    Yields (Reader.option read) room fun o => ∀ a ∈ o, P a := by
  intro d o ho a ha
  unfold Reader.option at ho
  split at ho
  · cases ho
    cases ha
  · cases ho
  · obtain ⟨b, hb, rfl⟩ := exists_of_map_eq_ok ho
    obtain rfl : b = a := Option.mem_some.mp ha
    exact h _ b hb

/-! ## Variants -/

/-- The content of a form yields a property. What it holds stands inside of a bracket. -/
def Holds (room : Nat) (P : α → Prop) : Content α → Prop
  | .bare a => P a
  | .holding read => ∀ r, room = r + 1 → Yields read r P

/-- The content of a name is that of one of the forms. -/
theorem exists_of_find_eq_ok {variants : List (Variant α)} {name : String} {content : Content α}
    (h : Variant.find variants name = .ok content) : ∃ v ∈ variants, v.content = content := by
  unfold Variant.find at h
  split at h
  · rename_i v hv
    exact ⟨v, List.mem_of_find?_eq_some hv, Except.ok.inj h⟩
  · cases h

/-- **A value of several forms has the property** if each form yields it. -/
theorem variant {variants : List (Variant α)} (h : ∀ v ∈ variants, Holds room P v.content) :
    Yields (Variant.reader variants) room P := by
  have hfound {name content} (hfind : Variant.find variants name = .ok content) :
      Holds room P content := by
    obtain ⟨v, hv, rfl⟩ := exists_of_find_eq_ok hfind
    exact h v hv
  intro d a ha
  cases d with
  | string q =>
    obtain ⟨name, -, ha⟩ := exists_of_bind_eq_ok ha
    obtain ⟨content, hfind, ha⟩ := exists_of_bind_eq_ok ha
    cases content with
    | bare b =>
      obtain rfl := Except.ok.inj ha
      exact hfound hfind
    | holding read => cases ha
  | object members ending =>
    -- The name is the only member, and its value is what the form holds.
    match room, members, ha with
    | r + 1, (q, d) :: rest, ha =>
      obtain ⟨name, -, ha⟩ := exists_of_bind_eq_ok ha
      obtain ⟨content, hfind, ha⟩ := exists_of_bind_eq_ok ha
      obtain ⟨b, hcontent, ha⟩ := exists_of_bind_eq_ok ha
      obtain ⟨_, -, ha⟩ := exists_of_bind_eq_ok ha
      obtain rfl := Except.ok.inj ha
      cases content with
      | bare c =>
        -- A form that holds nothing has null there.
        obtain ⟨_, -, hcontent⟩ := exists_of_bind_eq_ok hcontent
        obtain rfl := Except.ok.inj hcontent
        exact hfound hfind
      | holding read => exact hfound hfind r rfl d b hcontent
  | _ => cases ha

/-! ## Records -/

/-- A field **keeps** a property of drafts if a draft still has it when the field was added. -/
def Keeps (room : Nat) (inv : σ → Prop) (field : Field σ) : Prop :=
  Yields field.read room fun update => ∀ draft, inv draft → inv (update draft)

/-- A field with a component of its own keeps what goes with what it yields. -/
theorem keeps_of {inv : σ → Prop} {name : String} {get : σ → Option α} {set : σ → α → σ}
    (h : Yields read room P) (hset : ∀ draft a, P a → inv draft → inv (set draft a)) :
    Keeps room inv (.of name get set read) :=
  Yields.map (h.imp fun a ha draft => hset draft a ha)

/-- A field that has nothing to do with a property keeps it. -/
theorem keeps_of_unchanged {inv : σ → Prop} {name : String} {get : σ → Option α}
    {set : σ → α → σ} (hset : ∀ draft a, inv draft → inv (set draft a)) :
    Keeps room inv (.of name get set read) := by
  have htrivial : Yields read room fun _ => True := fun _ _ _ => trivial
  exact keeps_of htrivial fun draft a _ => hset draft a

/-- What all fields keep holds of a draft that was filled in from an object. The induction is on the
    members, for any draft that they are added to. -/
theorem of_readMembers {fields : List (Field σ)} {inv : σ → Prop}
    (h : ∀ field ∈ fields, Keeps room inv field) {members : List (Quoted × Doc)} {draft full : σ}
    (hread : Record.readMembers fields room members draft = .ok full) (hdraft : inv draft) :
    inv full := by
  induction members generalizing draft with
  | nil =>
    obtain rfl := Except.ok.inj hread
    exact hdraft
  | cons m rest ih =>
    obtain ⟨key, -, hread⟩ := exists_of_bind_eq_ok hread
    split at hread
    · -- A member that belongs to no field leaves the draft as it is.
      obtain ⟨_, -, hread⟩ := exists_of_bind_eq_ok hread
      exact ih hread hdraft
    · rename_i field hfield
      split at hread
      · cases hread
      · obtain ⟨update, hupdate, hread⟩ := exists_of_bind_eq_ok hread
        exact ih hread (h field (List.mem_of_find?_eq_some hfield) _ _ hupdate draft hdraft)

/-- What all fields keep holds of a draft that was filled in from an array. The induction is on the
    fields, because the items may end before they do. -/
theorem of_readItems {record : Record σ α} {ending : Option Fault} {inv : σ → Prop}
    {fields : List (Field σ)} (h : ∀ field ∈ fields, Keeps room inv field) {ds : List Doc}
    {draft full : σ} (hread : record.readItems room ending fields ds draft = .ok full)
    (hdraft : inv draft) : inv full := by
  induction fields generalizing ds draft with
  | nil =>
    cases ds with
    | nil =>
      obtain ⟨_, -, hread⟩ := exists_of_bind_eq_ok hread
      obtain rfl := Except.ok.inj hread
      exact hdraft
    | cons d ds => cases hread
  | cons field fields ih =>
    obtain ⟨hfield, hfields⟩ := List.forall_mem_cons.mp h
    cases ds with
    | nil =>
      obtain ⟨_, -, hread⟩ := exists_of_bind_eq_ok hread
      dsimp only at hread
      split at hread
      · cases hread
      · obtain rfl := Except.ok.inj hread
        exact hdraft
    | cons d ds =>
      obtain ⟨update, hupdate, hread⟩ := exists_of_bind_eq_ok hread
      exact ih hfields hread (hfield d update hupdate draft hdraft)

/-- **A record has the property** that its drafts lead to, if its fields keep that of the drafts. -/
theorem record {record : Record σ α} (inv : Nat → σ → Prop) (hstart : ∀ r, inv r record.start)
    (hkeeps : ∀ r, room = r + 1 → ∀ field ∈ record.fields, Keeps r (inv r) field)
    (hfinish : ∀ r, room = r + 1 → ∀ draft a, inv r draft → record.finish draft = .ok a → P a) :
    Yields record.reader room P := by
  intro d a ha
  cases d with
  | object members ending =>
    cases room with
    | zero => cases ha
    | succ r =>
      obtain ⟨draft, hdraft, ha⟩ := exists_of_bind_eq_ok ha
      obtain ⟨_, -, ha⟩ := exists_of_bind_eq_ok ha
      exact hfinish r rfl draft a (of_readMembers (hkeeps r rfl) hdraft (hstart r)) ha
  | array ds ending =>
    cases room with
    | zero => cases ha
    | succ r =>
      obtain ⟨draft, hdraft, ha⟩ := exists_of_bind_eq_ok ha
      exact hfinish r rfl draft a (of_readItems (hkeeps r rfl) hdraft (hstart r)) ha
  | _ => cases ha

end Yields

end QueryTuning.Json
