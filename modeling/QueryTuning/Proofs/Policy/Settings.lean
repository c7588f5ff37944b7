import Mathlib.Tactic.FinCases
import QueryTuning.Policy.Json
import QueryTuning.Proofs.Json.Reads
import QueryTuning.Proofs.Json.Rearranged

/-!
# Policies that are given in part

An object may give some of the settings of a policy, in any order and with other members among
them. Whatever it does not give has its standard value, and unless no rows would be left by default,
the settings of a broker are read with that policy.

* `Policy.Setting` : what an object can give of a policy.
* `Policy.restrict` : a policy as far as it is given.
* `Policy.reader_givenMembers` : an object that gives some settings is read as what it gives.
* `Policy.ofJson_of_read` : a policy is accepted if its default limit is not zero.
* `Policy.read_given` : how partial policies are read.
-/

namespace QueryTuning

open Json (Doc Document Field Lawful)
open Json.Field (shows_of apart_of)
open Json.Record (fill_of_eq_ok)

/-- A document is **respelled** if it stays as it is, or if it is a text and its characters are
    escaped in another way. -/
inductive Json.Doc.Respelled : Doc → Doc → Prop
  /-- The same document. -/
  | refl (d : Doc) : Respelled d d
  /-- The same text in other characters. -/
  | string {q q' : Json.Quoted} (h : q'.read = q.read) : Respelled (.string q) (.string q')

/-- What is looked for in vain is missed in the same way. -/
theorem Json.Doc.Respelled.mismatch {d d' : Doc} (h : d.Respelled d') (expected : Json.Expected) :
    d'.mismatch expected = d.mismatch expected := by
  cases h with
  | refl => rfl
  | string h => rw [Doc.mismatch, Doc.mismatch, h]

namespace Policy

/-! ## Settings -/

/-- A setting of a policy. -/
inductive Setting where
  /-- The highest limit. -/
  | ceiling
  /-- The limit of a query that has none. -/
  | defaultLimit
  /-- Whether approximate aggregations are allowed. -/
  | approximate
  /-- Whether distinct values may be counted segment by segment. -/
  | segmentPartitioned
  /-- Whether the distinct count for several values in a row may be chosen. -/
  | multiValued
  /-- Which variant of a distinct count wins. -/
  | precedence
deriving DecidableEq

/-- All settings, in the order in which they are written. -/
def Setting.all : List Setting :=
  [.ceiling, .defaultLimit, .approximate, .segmentPartitioned, .multiValued, .precedence]

/-- The name of a setting. -/
def Setting.name : Setting → String
  | ceiling => "query_limit_ceiling"
  | defaultLimit => "default_limit"
  | approximate => "use_approximate_function"
  | segmentPartitioned => "segment_partitioned_distinct_count"
  | multiValued => "distinct_multi_valued"
  | precedence => "distinct_count_precedence"

/-- The names of all settings. -/
def Setting.names : List String := all.map name

/-- The settings are the fields of the record. -/
theorem names_fields : format.fields.map Field.name = Setting.names := rfl

/-- The value of a setting, as it is written. -/
def setting (p : Policy) : Setting → Json
  | .ceiling => .nat p.ceiling.toNat
  | .defaultLimit => .nat p.defaultLimit.toNat
  | .approximate => .bool p.approximate
  | .segmentPartitioned => .bool p.segmentPartitioned
  | .multiValued => .bool p.multiValued
  | .precedence => p.precedence.toJson

/-- The members that give some settings of a policy. -/
def givenMembers (p : Policy) (given : Setting → Bool) : List (String × Json) :=
  (Setting.all.filter given).map fun s => (s.name, p.setting s)

/-- A policy is written with all its settings. -/
theorem toJson_eq_givenMembers (p : Policy) :
    p.toJson = .object (p.givenMembers fun _ => true) := rfl

/-- **A policy as far as it is given**: every other setting has its standard value. -/
def restrict (p : Policy) (given : Setting → Bool) : Policy :=
  let standard : Policy := {}
  { ceiling := if given .ceiling then p.ceiling else standard.ceiling
    defaultLimit := if given .defaultLimit then p.defaultLimit else standard.defaultLimit
    approximate := if given .approximate then p.approximate else standard.approximate
    segmentPartitioned :=
      if given .segmentPartitioned then p.segmentPartitioned else standard.segmentPartitioned
    multiValued := if given .multiValued then p.multiValued else standard.multiValued
    precedence := if given .precedence then p.precedence else standard.precedence }

/-- A policy that is given as a whole. -/
theorem restrict_true (p : Policy) : p.restrict (fun _ => true) = p := rfl

/-! ## Reading the record of a policy -/

/-- The settings have components of their own. -/
theorem lawful : Lawful format.fields := by
  refine .cons (shows_of fun _ _ => rfl) ?_ <| .cons (shows_of fun _ _ => rfl) ?_ <|
    .cons (shows_of fun _ _ => rfl) ?_ <| .cons (shows_of fun _ _ => rfl) ?_ <|
    .cons (shows_of fun _ _ => rfl) ?_ <| .cons (shows_of fun _ _ => rfl) ?_ .nil
  all_goals
    intro field hfield
    fin_cases hfield
  all_goals exact apart_of (by decide) (fun _ _ => rfl) (fun _ _ => rfl) fun _ _ _ => rfl

/-- A setting stands under its name if it is given, and nowhere else. -/
theorem filter_givenMembers (p : Policy) (given : Setting → Bool) (s : Setting) :
    (p.givenMembers given).filter (·.1 == s.name)
      = if given s then [(s.name, p.setting s)] else [] := by
  have hname : Setting.all.filter (·.name == s.name) = [s] := by cases s <;> rfl
  have hfilter : (Setting.all.filter given).filter (·.name == s.name) = [s].filter given := by
    rw [← hname, List.filter_filter, List.filter_filter]
    exact List.filter_congr fun t _ => Bool.and_comm ..
  rw [givenMembers, List.filter_map]
  show ((Setting.all.filter given).filter (·.name == s.name)).map _ = _
  rw [hfilter]
  cases h : given s <;> simp [h]

variable {p : Policy} {given : Setting → Bool} {room : Nat}

/-- The part that belongs to a setting. -/
theorem part?_givenMembers (p : Policy) (given : Setting → Bool) (s : Setting) :
    (Doc.ofJson (.object (p.givenMembers given))).part? Setting.names s.name
      = if given s then some (.ofJson (p.setting s)) else none := by
  show (Doc.values (Doc.ofMembers (p.givenMembers given)) s.name).head? = _
  rw [Doc.values_ofMembers, filter_givenMembers]
  cases given s <;> rfl

theorem mapM_part?_givenMembers {β : Type} {read : Json.Reader β} {b : β} (s : Setting)
    (h : read room (.ofJson (p.setting s)) = .ok b) :
    ((Doc.ofJson (.object (p.givenMembers given))).part? Setting.names s.name).mapM (read room)
      = .ok (if given s then some b else none) := by
  rw [part?_givenMembers]
  cases given s with
  | false => rfl
  | true =>
    simp only [if_true, Option.mapM_some, h]
    rfl

/-- The draft that some settings fill in. -/
def draft (p : Policy) (given : Setting → Bool) : Draft where
  ceiling := if given .ceiling then some p.ceiling else none
  defaultLimit := if given .defaultLimit then some p.defaultLimit else none
  approximate := if given .approximate then some p.approximate else none
  segmentPartitioned := if given .segmentPartitioned then some p.segmentPartitioned else none
  multiValued := if given .multiValued then some p.multiValued else none
  precedence := if given .precedence then some p.precedence else none

theorem ofDraft_draft (p : Policy) (given : Setting → Bool) :
    ofDraft (p.draft given) = p.restrict given := by
  simp only [ofDraft, draft, restrict]
  congr 1 <;> split <;> rfl

/-- **What some settings fill in**, component by component. -/
theorem fill_givenMembers (p : Policy) (given : Setting → Bool) (room : Nat) :
    Json.Record.fill format.fields room
        ((Doc.ofJson (.object (p.givenMembers given))).part? Setting.names) format.start
      = .ok (p.draft given) := by
  have hprecedence : Precedence.reader room (.ofJson p.precedence.toJson) = .ok p.precedence := by
    cases p.precedence <;> exact (Json.Reads.bareName rfl room).eq_ok (Nat.zero_le _)
  have hceiling := (Json.Reads.uint64 room p.ceiling).eq_ok (Nat.zero_le _)
  have hdefault := (Json.Reads.uint64 room p.defaultLimit).eq_ok (Nat.zero_le _)
  let d := p.draft given
  refine fill_of_eq_ok (fun o => ({ ceiling := o } : Draft)) (fun _ => rfl)
    (mapM_part?_givenMembers .ceiling hceiling) ?_
  refine fill_of_eq_ok (fun o => ({ ceiling := d.ceiling, defaultLimit := o } : Draft))
    (fun _ => rfl) (mapM_part?_givenMembers .defaultLimit hdefault) ?_
  refine fill_of_eq_ok
    (fun o => ({ d with
        approximate := o, segmentPartitioned := none
        multiValued := none, precedence := none } : Draft))
    (fun _ => rfl) (mapM_part?_givenMembers .approximate rfl) ?_
  refine fill_of_eq_ok
    (fun o => ({ d with segmentPartitioned := o, multiValued := none, precedence := none } : Draft))
    (fun _ => rfl) (mapM_part?_givenMembers .segmentPartitioned rfl) ?_
  refine fill_of_eq_ok (fun o => ({ d with multiValued := o, precedence := none } : Draft))
    (fun _ => rfl) (mapM_part?_givenMembers .multiValued rfl) ?_
  refine fill_of_eq_ok (fun o => ({ d with precedence := o } : Draft)) (fun _ => rfl)
    (mapM_part?_givenMembers .precedence hprecedence) ?_
  rfl

/-- **An object that gives some settings is read as what it gives.** -/
theorem reader_givenMembers (p : Policy) (given : Setting → Bool) (room : Nat) :
    reader (room + 1) (.ofJson (.object (p.givenMembers given))) = .ok (p.restrict given) := by
  have hunset : ∀ f ∈ format.fields, f.isSet format.start = false := by
    intro field hfield
    fin_cases hfield <;> rfl
  have honce : ∀ f ∈ format.fields,
      ((p.givenMembers given).filter (·.1 == f.name)).length ≤ 1 := by
    intro field hfield
    have hname : field.name ∈ Setting.names := names_fields ▸ List.mem_map_of_mem hfield
    obtain ⟨s, -, hs⟩ := List.mem_map.mp hname
    rw [← hs, filter_givenMembers]
    cases given s <;> simp
  refine (Json.Record.reader_eq_ok_iff lawful).mpr
    ⟨room, rfl, Json.Record.admits_written hunset honce, _, p.fill_givenMembers given room, ?_⟩
  exact congrArg Except.ok (p.ofDraft_draft given)

/-- A setting is read from a respelled document as before. -/
theorem read_of_respelled :
    ∀ field ∈ format.fields, ∀ room d d' update, Doc.Respelled d d' →
      field.read room d = .ok update → field.read room d' = .ok update := by
  intro field hfield room d d' update hd hupdate
  cases hd with
  | refl => exact hupdate
  | @string q q' h =>
    have hmismatch (expected : Json.Expected) := (Doc.Respelled.string h).mismatch expected
    have hlimit : Json.Reader.uint64 room (.string q') = Json.Reader.uint64 room (.string q) :=
      congrArg Except.error (hmismatch _)
    have hflag : Json.Reader.bool room (.string q') = Json.Reader.bool room (.string q) :=
      congrArg Except.error (hmismatch _)
    have hprecedence :
        Precedence.reader room (.string q') = Precedence.reader room (.string q) := by
      simp only [Precedence.reader, Json.Variant.reader, Json.Variant.readName, Json.readQuoted, h]
    rw [← hupdate]
    fin_cases hfield
    · exact Field.read_of_eq hlimit
    · exact Field.read_of_eq hlimit
    · exact Field.read_of_eq hflag
    · exact Field.read_of_eq hflag
    · exact Field.read_of_eq hflag
    · exact Field.read_of_eq hprecedence

/-- A policy is read from a rearranged object as before. -/
theorem reader_of_rearranged {d d' : Doc} (hd : d.Rearranged Setting.names Doc.Respelled d')
    (h : reader room d = .ok p) : reader room d' = .ok p :=
  Json.Record.reader_of_rearranged lawful read_of_respelled h hd

/-! ## The settings of a broker -/

/-- The names of the settings of a broker. -/
def brokerNames : List String := ["rewrite"]

/-- The settings of a broker that hold an object. -/
def brokerMembers (v : Json) : List (String × Json) := [("rewrite", v)]

theorem brokerLawful : Lawful brokerFormat.fields :=
  .cons (shows_of fun _ _ => rfl) (fun _ hg => absurd hg List.not_mem_nil) .nil

/-- The settings of a broker are read with the policy that is read inside of them. -/
theorem brokerReader_brokerMembers {v : Json} (h : reader room (.ofJson v) = .ok p) :
    brokerReader (room + 1) (.ofJson (.object (brokerMembers v))) = .ok p := by
  have hfill : Json.Record.fill brokerFormat.fields room
      ((Doc.ofJson (.object (brokerMembers v))).part? brokerNames) brokerFormat.start
        = .ok (some p) := by
    simp only [brokerFormat, Json.Record.fill_of_eq_ok_iff, Json.Record.fill_nil]
    refine ⟨some p, ?_, rfl⟩
    have hpart : (Doc.ofJson (.object (brokerMembers v))).part? brokerNames "rewrite"
        = some (.ofJson v) := Doc.member?_cons_of_read (Json.Quoted.read_ofString _) _ _
    rw [hpart, Option.mapM_some, h]
    rfl
  refine (Json.Record.reader_eq_ok_iff brokerLawful).mpr
    ⟨room, rfl, Json.Record.admits_written ?_ ?_, some p, hfill, rfl⟩
  · exact List.forall_mem_singleton.mpr rfl
  · exact List.forall_mem_singleton.mpr (List.length_filter_le _ _)

/-- The settings of a broker are read as before if the policy inside of them is rearranged. -/
theorem brokerReader_of_rearranged {d d' : Doc}
    (hd : d.Rearranged brokerNames (Doc.Rearranged Setting.names Doc.Respelled) d')
    (h : brokerReader room d = .ok p) : brokerReader room d' = .ok p := by
  refine Json.Record.reader_of_rearranged brokerLawful ?_ h hd
  refine List.forall_mem_singleton.mpr fun room d d' update hd hupdate => ?_
  obtain ⟨p, hp, rfl⟩ := exists_of_map_eq_ok hupdate
  have hread : reader room d' = .ok p := reader_of_rearranged hd hp
  show (fun p _ => some p) <$> reader room d' = _
  rw [hread]
  rfl

/-- **A policy is accepted** if its default limit is not zero. -/
theorem ofJson_of_read {text : String} (h : Json.Reader.ofText brokerReader text = .ok p) :
    ofJson text = if p.defaultLimit = 0 then .error .zeroDefaultLimit else .ok p := by
  simp only [ofJson, h, Except.mapError, validate, Error.ensure, bind, Except.bind]
  by_cases hzero : p.defaultLimit = 0 <;> simp [hzero, pure, Except.pure]

/-! ## The result -/

/-- What is given of a policy is well formed. -/
theorem wellFormed_setting (p : Policy) (s : Setting) : (p.setting s).WellFormed := by
  cases s with
  | ceiling => exact Numeral.wellFormed_ofNat p.ceiling.toNat
  | defaultLimit => exact Numeral.wellFormed_ofNat p.defaultLimit.toNat
  | approximate => exact trivial
  | segmentPartitioned => exact trivial
  | multiValued => exact trivial
  | precedence =>
    show (p.precedence.toJson).WellFormed
    cases p.precedence <;> exact trivial

/-- All that is given of a policy has a name of its own. -/
theorem filter_mem_givenMembers (p : Policy) (given : Setting → Bool) :
    (p.givenMembers given).filter (·.1 ∈ Setting.names) = p.givenMembers given := by
  refine List.filter_eq_self.mpr fun m hm => ?_
  obtain ⟨s, -, rfl⟩ := List.mem_map.mp hm
  have hall : s ∈ Setting.all := by cases s <;> decide
  have hname : s.name ∈ Setting.names := List.mem_map_of_mem hall
  exact decide_eq_true hname

/-- A text of an object that gives some settings is read as what it gives. -/
theorem ofText_of_rearranged {text : String} (hending : (Document.ofText text).ending = none)
    (hroot : Doc.Rearranged Setting.names Doc.Respelled (.ofJson (.object (p.givenMembers given)))
      (Document.ofText text).root) : Json.Reader.ofText reader text = .ok (p.restrict given) :=
  Json.Reader.ofText_eq_ok_iff.mpr
    ⟨reader_of_rearranged hroot (p.reader_givenMembers given 126), hending⟩

/-- The settings of a broker with such an object in them are accepted with what it gives. -/
theorem ofJson_of_rearranged {text : String} (hending : (Document.ofText text).ending = none)
    (hroot : Doc.Rearranged brokerNames (Doc.Rearranged Setting.names Doc.Respelled)
      (.ofJson (.object (brokerMembers (.object (p.givenMembers given)))))
      (Document.ofText text).root) :
    ofJson text = if (p.restrict given).defaultLimit = 0 then .error .zeroDefaultLimit
      else .ok (p.restrict given) := by
  have hread := brokerReader_brokerMembers (p.reader_givenMembers given 125)
  exact ofJson_of_read
    (Json.Reader.ofText_eq_ok_iff.mpr ⟨brokerReader_of_rearranged hroot hread, hending⟩)

/-- **A written object that gives some settings** among other members is a rearranged one, and so are
    the settings of a broker around it. -/
theorem rearranged_of_written {members : List (String × Json)}
    (h : (members.filter (·.1 ∈ Setting.names)).Perm (p.givenMembers given)) :
    Doc.Rearranged Setting.names Doc.Respelled (.ofJson (.object (p.givenMembers given)))
      (.ofJson (.object members)) := by
  refine .of_written Doc.Respelled.refl ?_
  rw [filter_mem_givenMembers]
  exact h

theorem rearranged_brokerMembers {v v' : Json}
    (h : Doc.Rearranged Setting.names Doc.Respelled (.ofJson v) (.ofJson v')) :
    Doc.Rearranged brokerNames (Doc.Rearranged Setting.names Doc.Respelled)
      (.ofJson (.object (brokerMembers v))) (.ofJson (.object (brokerMembers v'))) := by
  have hkept : List.Forall₂ (Json.Alike (Doc.Rearranged Setting.names Doc.Respelled))
      ((Doc.ofMembers (brokerMembers v)).filter (Json.hasField brokerNames))
      (Doc.ofMembers (brokerMembers v')) := by
    rw [Doc.filter_hasField_ofMembers]
    exact .cons ⟨rfl, h⟩ .nil
  exact .object hkept (fun m hm => absurd hm List.not_mem_nil) (by rw [List.append_nil])

/-- Written settings of a broker that give some settings of a policy are accepted with them. -/
theorem ofJson_written {members : List (String × Json)} (hwell : ∀ m ∈ members, m.2.WellFormed)
    (h : (members.filter (·.1 ∈ Setting.names)).Perm (p.givenMembers given)) :
    ofJson (Json.object (brokerMembers (.object members))).text
      = if (p.restrict given).defaultLimit = 0 then .error .zeroDefaultLimit
        else .ok (p.restrict given) := by
  have hobject : (Json.object (brokerMembers (.object members))).WellFormed :=
    ⟨(Json.membersWellFormed_iff members).mpr hwell, trivial⟩
  refine ofJson_of_rearranged ?_ ?_ <;> rw [Json.document_ofText hobject]
  exact rearranged_brokerMembers (rearranged_of_written h)

/-- **Partial policies.** Let an object give some of the settings of a policy.

    * Every text of the object is read as the policy that has the given settings and is standard
      otherwise, in whatever order they are given and whatever other members stand among them, as
      long as these are well formed.
    * If the settings of a broker hold such an object, they are read with that policy, unless its
      default limit is zero. Then they are refused as a policy.
    * The same holds of written objects, with any written members among the given ones.
    * A policy that was written with the settings of a broker is read back, unless its default limit
      is zero. -/
theorem read_given (p : Policy) (given : Setting → Bool) :
    (∀ text, (Document.ofText text).ending = none →
      Doc.Rearranged Setting.names Doc.Respelled (.ofJson (.object (p.givenMembers given)))
        (Document.ofText text).root →
      Json.Reader.ofText reader text = .ok (p.restrict given)) ∧
    (∀ text, (Document.ofText text).ending = none →
      Doc.Rearranged brokerNames (Doc.Rearranged Setting.names Doc.Respelled)
        (.ofJson (.object (brokerMembers (.object (p.givenMembers given)))))
        (Document.ofText text).root →
      ofJson text = if (p.restrict given).defaultLimit = 0 then .error .zeroDefaultLimit
        else .ok (p.restrict given)) ∧
    (∀ members : List (String × Json), (∀ m ∈ members, m.2.WellFormed) →
      (members.filter (·.1 ∈ Setting.names)).Perm (p.givenMembers given) →
      Json.Reader.ofText reader (Json.object members).text = .ok (p.restrict given) ∧
      ofJson (Json.object (brokerMembers (.object members))).text
        = if (p.restrict given).defaultLimit = 0 then .error .zeroDefaultLimit
          else .ok (p.restrict given)) ∧
    ofJson p.brokerJson.text = if p.defaultLimit = 0 then .error .zeroDefaultLimit else .ok p := by
  refine ⟨fun text hending hroot => ofText_of_rearranged hending hroot,
    fun text hending hroot => ofJson_of_rearranged hending hroot,
    fun members hwell hgiven => ⟨?_, ofJson_written hwell hgiven⟩, ?_⟩
  · have hobject : (Json.object members).WellFormed :=
      (Json.membersWellFormed_iff members).mpr hwell
    refine ofText_of_rearranged ?_ ?_ <;> rw [Json.document_ofText hobject]
    exact rearranged_of_written hgiven
  · have hwell : ∀ m ∈ p.givenMembers fun _ => true, m.2.WellFormed := by
      intro m hm
      obtain ⟨s, -, rfl⟩ := List.mem_map.mp hm
      exact p.wellFormed_setting s
    have hall := ofJson_written hwell (.of_eq (p.filter_mem_givenMembers fun _ => true))
    rw [← toJson_eq_givenMembers, restrict_true] at hall
    exact hall

/-- The highest ceiling there is and a precedence, given in another order and between notes. The
    policy that they come from is refused for its default limit, and the one that they give is
    not. -/
theorem read_given_sample :
    let p : Policy :=
      { ceiling := 0xFFFFFFFFFFFFFFFF, defaultLimit := 0, precedence := .segmentPartitioned }
    let given : Setting → Bool := fun s => s == .precedence || s == .ceiling
    let members : List (String × Json) :=
      [("note", .array [.null]), ("distinct_count_precedence", .string "segment_partitioned"),
        ("note", .object []), ("query_limit_ceiling", .nat 0xFFFFFFFFFFFFFFFF)]
    let broker := (Json.object (brokerMembers (.object members))).text
    let q : Policy := { ceiling := 0xFFFFFFFFFFFFFFFF, precedence := .segmentPartitioned }
    ((∀ m ∈ members, m.2.WellFormed) ∧
      (members.filter (·.1 ∈ Setting.names)).Perm (p.givenMembers given)) ∧
    (Document.ofText (Json.object members).text).ending = none ∧
    (Document.ofText broker).ending = none ∧
    Json.Reader.ofText reader (Json.object members).text = .ok q ∧ ofJson broker = .ok q ∧
    ofJson p.brokerJson.text = .error .zeroDefaultLimit := by
  intro p given members broker q
  have hwell : ∀ m ∈ members, m.2.WellFormed := by
    simp only [members, List.forall_mem_cons]
    exact ⟨⟨trivial, trivial⟩, trivial, trivial, Numeral.wellFormed_ofNat _,
      fun m hm => absurd hm List.not_mem_nil⟩
  have hgiven : (members.filter (·.1 ∈ Setting.names)).Perm (p.givenMembers given) := .swap _ _ _
  have hobject : (Json.object members).WellFormed := (Json.membersWellFormed_iff members).mpr hwell
  have hbroker : (Json.object (brokerMembers (.object members))).WellFormed := ⟨hobject, trivial⟩
  have hending : (Document.ofText (Json.object members).text).ending = none := by
    rw [Json.document_ofText hobject]
  have hending' : (Document.ofText broker).ending = none := by rw [Json.document_ofText hbroker]
  have hroot : Doc.Rearranged Setting.names Doc.Respelled (.ofJson (.object (p.givenMembers given)))
      (Document.ofText (Json.object members).text).root := by
    rw [Json.document_ofText hobject]
    exact rearranged_of_written hgiven
  have hroot' : Doc.Rearranged brokerNames (Doc.Rearranged Setting.names Doc.Respelled)
      (.ofJson (.object (brokerMembers (.object (p.givenMembers given)))))
      (Document.ofText broker).root := by
    rw [Json.document_ofText hbroker]
    exact rearranged_brokerMembers (rearranged_of_written hgiven)
  obtain ⟨htext, hsettings, -, hback⟩ := read_given p given
  have hsame : p.restrict given = q := rfl
  refine ⟨⟨hwell, hgiven⟩, hending, hending', ?_, ?_, hback.trans rfl⟩
  · rw [htext _ hending hroot, hsame]
  · have hread := hsettings _ hending' hroot'
    rw [hsame] at hread
    exact hread

end Policy

end QueryTuning
