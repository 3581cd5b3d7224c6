import AlertHandoff.Proofs.Written
import AlertHandoff.Wire.Journal

/-! # Written values read back, whole and in part

A value of the wire is written as a document and read from one (`Json.read?`).  What can be written
is known to read back as the same document, so that it is enough to look at documents as values.

From the record of a value some fields may be taken away: `Json.without` leaves out the members
whose names are gone, and `Json.withoutFields` does so inside a variant.  A reader of records finds
every field that is left and no other (`Json.fields?_without`, `Json.lookup_filter`).  From this
follows for each type which parts of a record it needs: `Settings` none, every other type all of
them.  `encoded_values_decode_back` puts this together. -/

namespace AlertHandoff

namespace Json
variable {α : Type} {j : Json}

/-- Reads a document as a value of some type. -/
def read? (decode? : Json → Option α) (document : String) : Option α :=
  (parse? document).bind decode?

theorem read?_render (h : j.Plain) (decode? : Json → Option α) :
    read? decode? j.render = decode? j := by
  rw [read?, parse?_render h, Option.bind_some]

/-- The object less the members whose names are gone. -/
def without (gone : String → Bool) : Json → Json
  | .object members => .object (members.filter fun m => !m.1.any gone)
  | j => j

/-- The variant less the fields whose names are gone. -/
def withoutFields (gone : String → Bool) : Json → Json
  | .object members => .object (members.map fun m => (m.1, m.2.without gone))
  | j => j

/-- The names of the members of an object. -/
def names : Json → List String
  | .object members => members.filterMap (·.1)
  | _ => []

/-- The names of the fields of a variant. -/
def fieldNames : Json → List String
  | .object members => members.flatMap (·.2.names)
  | _ => []

@[simp] theorem names_record (members : List (String × Json)) :
    (record members).names = members.map (·.1) := by
  simp [names, record, List.filterMap_map]

@[simp] theorem fieldNames_variant (name : String) (fields : List (String × Json)) :
    (variant name fields).fieldNames = fields.map (·.1) := by
  rw [← names_record]
  simp [fieldNames, variant, record]

@[simp] theorem text?_string (s : String) : (string s).text? = some s := rfl

@[simp] theorem bool?_bool (b : Bool) : (bool b).bool? = some b := rfl

theorem without_none (j : Json) : j.without (fun _ => false) = j := by
  cases j <;> simp [without]

theorem withoutFields_none (j : Json) : j.withoutFields (fun _ => false) = j := by
  cases j <;> simp [withoutFields, without_none]

/-! ### What can be written -/

@[simp] theorem plain_string (s : String) : (string s).Plain := .string s

@[simp] theorem plain_bool (b : Bool) : (bool b).Plain := .bool b

theorem Plain.record {members : List (String × Json)} (h : ∀ m ∈ members, m.2.Plain) :
    (Json.record members).Plain := by
  refine .object (fun m hm => ?_) (fun m hm => ?_)
  all_goals obtain ⟨x, hx, rfl⟩ := List.mem_map.mp hm
  · rfl
  · exact h x hx

theorem Plain.variant {name : String} {fields : List (String × Json)}
    (h : ∀ f ∈ fields, f.2.Plain) : (Json.variant name fields).Plain := by
  refine Plain.record fun m hm => ?_
  rw [List.mem_singleton.mp hm]
  exact Plain.record h

theorem Plain.without (h : j.Plain) (gone : String → Bool) : (j.without gone).Plain := by
  cases h with
  | object hnames hmembers =>
      exact .object (fun m hm => hnames m (List.mem_of_mem_filter hm))
        (fun m hm => hmembers m (List.mem_of_mem_filter hm))
  | null | bool | natural | string => constructor
  | list h => exact .list h

theorem Plain.withoutFields (h : j.Plain) (gone : String → Bool) :
    (j.withoutFields gone).Plain := by
  cases h with
  | object hnames hmembers =>
      refine .object (fun m hm => ?_) (fun m hm => ?_)
      all_goals obtain ⟨x, hx, rfl⟩ := List.mem_map.mp hm
      · exact hnames x hx
      · exact (hmembers x hx).without gone
  | null | bool | natural | string => constructor
  | list h => exact .list h

/-! ### What a reader of records finds -/

theorem namedMembers?_record : ∀ ms : List (String × Json),
    namedMembers? (ms.map fun m => (some m.1, m.2)) = some ms
  | [] => rfl
  | m :: ms => by
      have ih := namedMembers?_record ms
      rw [namedMembers?] at ih ⊢
      rw [List.map_cons, List.mapM_cons, ih]
      rfl

theorem without_record (gone : String → Bool) (ms : List (String × Json)) :
    (record ms).without gone = record (ms.filter fun m => !gone m.1) := by
  rw [record, without, record, List.filter_map]
  rfl

/-- A reader that knows the fields of a record finds those that are left. -/
theorem fields?_without {names : List String} {fs : List (String × Json)}
    (hknown : ∀ f ∈ fs, f.1 ∈ names) (hnodup : (fs.map (·.1)).Nodup) (gone : String → Bool) :
    ((record fs).without gone).fields? names = some (fs.filter fun f => !gone f.1) := by
  have hall : ((fs.filter fun f => !gone f.1).filter fun f => names.contains f.1) =
      fs.filter fun f => !gone f.1 := by
    refine List.filter_eq_self.mpr fun f hf => ?_
    simpa using hknown f (List.mem_of_mem_filter hf)
  have hleft : ((fs.filter fun f => !gone f.1).map (·.1)).Nodup :=
    hnodup.sublist (List.filter_sublist.map _)
  rw [without_record]
  simp only [record, fields?, namedMembers?_record, Option.bind_eq_bind, Option.bind_some, hall,
    if_pos hleft]

/-- Of the fields that are left, a reader finds each by its name. -/
theorem lookup_filter (gone : String → Bool) (name : String) : ∀ fs : List (String × Json),
    (fs.filter fun f => !gone f.1).lookup name = if gone name then none else fs.lookup name
  | [] => by simp
  | (key, j) :: fs => by
      rw [List.filter_cons]
      by_cases hname : name = key
      · subst hname
        cases hg : gone name with
        | true => simp [lookup_filter gone name fs, hg]
        | false => simp
      · have hne : (name == key) = false := by simpa using hname
        rw [List.lookup_cons, hne]
        split
        · rw [List.lookup_cons, hne, lookup_filter gone name fs]
        · exact lookup_filter gone name fs

theorem variant?_withoutFields (gone : String → Bool) (name : String)
    (fields : List (String × Json)) :
    ((variant name fields).withoutFields gone).variant? =
      some (name, (record fields).without gone) := rfl

theorem below?_natural {bound n : Nat} (h : n < bound) :
    (natural n).below? bound = some ⟨n, h⟩ := dif_pos h

end Json

/-! ### Names and numbers -/

@[simp] theorem Kind.decode?_encode (k : Kind) : Kind.decode? k.encode = some k :=
  Json.named?_string k.mem_all (by cases k <;> decide)

@[simp] theorem Role.decode?_encode (r : Role) : Role.decode? r.encode = some r :=
  Json.named?_string (by cases r <;> simp) (by cases r <;> decide)

@[simp] theorem Scope.decode?_encode (s : Scope) : Scope.decode? s.encode = some s :=
  Json.named?_string (by cases s <;> simp) (by cases s <;> decide)

@[simp] theorem Cause.decode?_encode (c : Cause) : Cause.decode? c.encode = some c :=
  Json.named?_string (by cases c <;> simp) (by cases c <;> decide)

@[simp] theorem Kind.plain_encode (k : Kind) : k.encode.Plain := .string k.name

@[simp] theorem Role.plain_encode (r : Role) : r.encode.Plain := .string r.name

@[simp] theorem Scope.plain_encode (s : Scope) : s.encode.Plain := .string s.name

@[simp] theorem Cause.plain_encode (c : Cause) : c.encode.Plain := .string c.name

namespace Settings

/-- Every number of 64 bits reads back as itself. -/
@[simp] theorem decodeWindow?_encodeWindow (w : Option UInt64) :
    decodeWindow? (encodeWindow w) = some w := by
  cases w with
  | none => rfl
  | some w =>
      rw [encodeWindow, decodeWindow?, Json.below?_natural w.toNat_lt]
      · rfl
      · simp

@[simp] theorem plain_encodeWindow (w : Option UInt64) : (encodeWindow w).Plain := by
  cases w with
  | none => exact .null
  | some w => exact .natural w.toNat

/-! ### Records -/

theorem plain_encode (s : Settings) : s.encode.Plain := .record (by simp)

/-- Settings are read whatever is left of their record, with the default for what is gone. -/
theorem decode?_without (s : Settings) (gone : String → Bool) :
    decode? (s.encode.without gone) =
      some { window := if gone "transfer_back_window_ms" then none else s.window
             asksForContent :=
               if gone "request_content_on_defer" then true else s.asksForContent } := by
  unfold decode? encode
  rw [Json.fields?_without (by simp) (by simp)]
  simp only [Option.bind_eq_bind, Option.bind_some, Json.lookup_filter]
  cases hw : gone "transfer_back_window_ms" <;> cases ha : gone "request_content_on_defer" <;>
    simp [List.lookup_cons]

theorem decode?_encode (s : Settings) : decode? s.encode = some s := by
  simpa [Json.without_none] using s.decode?_without fun _ => false

end Settings

namespace Policy

theorem plain_encode (p : Policy) : p.encode.Plain := .record (by simp)

/-- A policy is read only from a record with all its fields. -/
theorem decode?_without (p : Policy) (gone : String → Bool) :
    decode? (p.encode.without gone) = if p.encode.names.any gone then none else some p := by
  unfold decode? encode
  rw [Json.fields?_without (by simp) (by simp)]
  simp only [Option.bind_eq_bind, Option.bind_some, Json.lookup_filter]
  cases hc : gone "can_alert" <;> cases hs : gone "group_alert" <;>
    simp [List.lookup_cons, hc, hs]

theorem decode?_encode (p : Policy) : decode? p.encode = some p := by
  simpa [Json.without_none] using p.decode?_without fun _ => false

end Policy

namespace Membership

theorem plain_encode (m : Membership) : m.encode.Plain := .record (by simp)

/-- A membership is read only from a record with all its fields. -/
theorem decode?_without (m : Membership) (gone : String → Bool) :
    decode? (m.encode.without gone) = if m.encode.names.any gone then none else some m := by
  unfold decode? encode
  rw [Json.fields?_without (by simp) (by simp)]
  simp only [Option.bind_eq_bind, Option.bind_some, Json.lookup_filter]
  cases hg : gone "group_key" <;> cases hr : gone "role" <;> simp [List.lookup_cons, hg, hr]

theorem decode?_encode (m : Membership) : decode? m.encode = some m := by
  simpa [Json.without_none] using m.decode?_without fun _ => false

end Membership

/-! ### Variants -/

namespace Action

theorem plain_encode (a : Action) : a.encode.Plain := by
  cases a <;> exact .variant (by simp)

theorem decodeMove?_without (make : String → String → Kind → Action) (source target : String)
    (kind : Kind) (gone : String → Bool) :
    decodeMove? make ((Json.record [("from", .string source), ("to", .string target),
        ("kind", kind.encode)]).without gone) =
      if ["from", "to", "kind"].any gone then none else some (make source target kind) := by
  unfold decodeMove?
  rw [Json.fields?_without (by simp) (by simp)]
  simp only [Option.bind_eq_bind, Option.bind_some, Json.lookup_filter]
  cases hs : gone "from" <;> cases ht : gone "to" <;> cases hk : gone "kind" <;>
    simp [List.lookup_cons, hs, ht, hk]

theorem decodeKind?_without {field : String} (hfield : field ≠ "kind")
    (make : String → Kind → Action) (name : String) (kind : Kind) (gone : String → Bool) :
    decodeKind? field make ((Json.record [(field, .string name),
        ("kind", kind.encode)]).without gone) =
      if [field, "kind"].any gone then none else some (make name kind) := by
  have hne : ("kind" == field) = false := by simpa using hfield.symm
  unfold decodeKind?
  rw [Json.fields?_without (by simp) (by simpa using hfield)]
  simp only [Option.bind_eq_bind, Option.bind_some, Json.lookup_filter]
  cases hf : gone field <;> cases hk : gone "kind" <;> simp [List.lookup_cons, hne, hf, hk]

/-- A step is read only from a variant with all its fields. -/
theorem decode?_withoutFields (a : Action) (gone : String → Bool) :
    decode? (a.encode.withoutFields gone) =
      if a.encode.fieldNames.any gone then none else some a := by
  cases a
  all_goals
    simp only [encode, decode?, Json.variant?_withoutFields, Option.bind_eq_bind, Option.bind_some]
  case moved source target kind => exact decodeMove?_without .moved source target kind gone
  case deferred source target kind => exact decodeMove?_without .deferred source target kind gone
  case completed key kind => exact decodeKind?_without (by decide) .completed key kind gone
  case scheduled group kind => exact decodeKind?_without (by decide) .scheduled group kind gone
  case reversed key =>
    rw [Json.fields?_without (by simp) (by simp)]
    simp only [Option.bind_some, Json.lookup_filter]
    cases hk : gone "key" <;> simp [hk]
  case voided key cause =>
    rw [Json.fields?_without (by simp) (by simp)]
    simp only [Option.bind_some, Json.lookup_filter]
    cases hk : gone "key" <;> cases hr : gone "reason" <;> simp [List.lookup_cons, hk, hr]

theorem decode?_encode (a : Action) : decode? a.encode = some a := by
  simpa [Json.withoutFields_none] using a.decode?_withoutFields fun _ => false

end Action

namespace GroupEvent

theorem plain_encode (e : GroupEvent) : e.encode.Plain := by
  cases e <;> exact .variant (by simp)

/-- An event of a group is read only from a variant with all its fields. -/
theorem decode?_withoutFields (e : GroupEvent) (gone : String → Bool) :
    decode? (e.encode.withoutFields gone) =
      if e.encode.fieldNames.any gone then none else some e := by
  cases e
  all_goals
    simp only [encode, decode?, Json.variant?_withoutFields, Option.bind_eq_bind, Option.bind_some]
    rw [Json.fields?_without (by simp) (by simp)]
    simp only [Option.bind_some, Json.lookup_filter]
  case formed group => cases hg : gone "group_key" <;> simp [hg]
  case suppression group on =>
    cases hg : gone "group_key" <;> cases hs : gone "suppressed" <;>
      simp [List.lookup_cons, hg, hs]
  case dissolved group => cases hg : gone "group_key" <;> simp [hg]

theorem decode?_encode (e : GroupEvent) : decode? e.encode = some e := by
  simpa [Json.withoutFields_none] using e.decode?_withoutFields fun _ => false

end GroupEvent

/-! ### Documents -/

/-- **Encoded values decode back.**  For settings, policies, memberships, events of groups and steps
of handoffs, whatever their texts and numbers, the document that is written of a value reads back as
the value.  If fields are taken away, whichever and however many, settings are read nevertheless,
with the default for every field that is gone; all others are refused if one of their fields is
gone.  An object is written member by member, so that a member is taken away from its document
too. -/
theorem encoded_values_decode_back :
    (∀ members : List (String × Json), (Json.record members).render =
      "\x7b" ++ ",".intercalate
        (members.map fun m => (Json.string m.1).render ++ ":" ++ m.2.render) ++ "\x7d") ∧
    (∀ s : Settings, Json.read? Settings.decode? s.encode.render = some s) ∧
    (∀ p : Policy, Json.read? Policy.decode? p.encode.render = some p) ∧
    (∀ m : Membership, Json.read? Membership.decode? m.encode.render = some m) ∧
    (∀ e : GroupEvent, Json.read? GroupEvent.decode? e.encode.render = some e) ∧
    (∀ a : Action, Json.read? Action.decode? a.encode.render = some a) ∧
    ∀ gone : String → Bool,
      (∀ s : Settings, Json.read? Settings.decode? (s.encode.without gone).render =
        some { window := if gone "transfer_back_window_ms" then none else s.window
               asksForContent :=
                 if gone "request_content_on_defer" then true else s.asksForContent }) ∧
      (∀ p : Policy, Json.read? Policy.decode? (p.encode.without gone).render =
        if p.encode.names.any gone then none else some p) ∧
      (∀ m : Membership, Json.read? Membership.decode? (m.encode.without gone).render =
        if m.encode.names.any gone then none else some m) ∧
      (∀ e : GroupEvent, Json.read? GroupEvent.decode? (e.encode.withoutFields gone).render =
        if e.encode.fieldNames.any gone then none else some e) ∧
      (∀ a : Action, Json.read? Action.decode? (a.encode.withoutFields gone).render =
        if a.encode.fieldNames.any gone then none else some a) := by
  refine ⟨Json.render_record, fun s => ?_, fun p => ?_, fun m => ?_, fun e => ?_, fun a => ?_,
    fun gone => ⟨fun s => ?_, fun p => ?_, fun m => ?_, fun e => ?_, fun a => ?_⟩⟩
  · rw [Json.read?_render s.plain_encode, s.decode?_encode]
  · rw [Json.read?_render p.plain_encode, p.decode?_encode]
  · rw [Json.read?_render m.plain_encode, m.decode?_encode]
  · rw [Json.read?_render e.plain_encode, e.decode?_encode]
  · rw [Json.read?_render a.plain_encode, a.decode?_encode]
  · rw [Json.read?_render (s.plain_encode.without gone), s.decode?_without]
  · rw [Json.read?_render (p.plain_encode.without gone), p.decode?_without]
  · rw [Json.read?_render (m.plain_encode.without gone), m.decode?_without]
  · rw [Json.read?_render (e.plain_encode.withoutFields gone), e.decode?_withoutFields]
  · rw [Json.read?_render (a.plain_encode.withoutFields gone), a.decode?_withoutFields]

example : (Membership.encode ⟨"a\"\n\x00é", .child⟩).render =
    "\x7b\"group_key\":\"a\\\"\\n\\u0000é\",\"role\":\"Child\"\x7d" := by decide +kernel

end AlertHandoff
