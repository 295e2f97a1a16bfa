import CordisCore.Loader.Plan
import CordisCore.Serde.Visitors

/-!
# The wire schema — how declarations are written and read back

Injection and isolation rows are written through one set of types and read through
another.  An object is read if it is written like one of them, up to the order of
fields.
-/

namespace CordisCore
namespace Wire

open Serde

/-- `rename_all = "camelCase"` on the name of a variant. -/
def camelCase (variant : String) : String :=
  match variant.toList with
  | [] => ""
  | first :: rest => String.ofList (first.toLower :: rest)

variable (serde : Derive)

/-! ## Injection rows -/

/-- A row of the source: here a configuration is the document itself. -/
abbrev InjectEntry := Loader.InjectEntry Value

inductive InjectEntryRef where
  | required (service : String)
  | configured (service : String) (config : Value)

inductive InjectEntryWire where
  | required (service : String)
  | configured (service : String) (config : Value)

def InjectEntryRef.serialize : InjectEntryRef → Value
  | required service =>
      serde.serializeTagged "kind" (camelCase "Required") [("service", .string service)]
  | configured service config =>
      serde.serializeTagged "kind" (camelCase "Configured")
        [("service", .string service), ("config", config)]

def InjectEntryWire.schema : Tagged InjectEntryWire where
  tag := "kind"
  variants := [
    { name := camelCase "Required"
      fields := [.string "service"]
      make := fun (service, _) => .required service },
    { name := camelCase "Configured"
      fields := [.string "service", .value "config"]
      make := fun (service, config, _) => .configured service config }]
  distinct := by decide
  fields_distinct := by
    simp only [List.mem_cons, List.not_mem_nil, or_false, forall_eq_or_imp, forall_eq]
    exact ⟨by decide, by decide⟩

def InjectEntry.serialize : InjectEntry → Value
  | .required service => (InjectEntryRef.required service).serialize serde
  | .configured service config => (InjectEntryRef.configured service config).serialize serde

def InjectEntry.deserialize (v : Value) : Except DecodeError InjectEntry := do
  match ← serde.deserializeTagged InjectEntryWire.schema v with
  | .required service => return .required service
  | .configured service config => return .configured service config

/-! ## Isolation rows -/

open Loader (RealmPolicy IsolateEntry)

inductive RealmPolicyWire where
  | privately
  | shared (label : String)

/-- The strict form: `Private {}` is a struct variant without fields. -/
def RealmPolicyWire.schema : Tagged RealmPolicyWire where
  tag := "kind"
  variants := [
    { name := camelCase "Private"
      fields := []
      make := fun _ => .privately },
    { name := camelCase "Shared"
      fields := [.string "label"]
      make := fun (label, _) => .shared label }]
  distinct := by decide
  fields_distinct := by
    simp only [List.mem_cons, List.not_mem_nil, or_false, forall_eq_or_imp, forall_eq]
    exact ⟨by decide, by decide⟩

/-- `From<RealmPolicyWire> for RealmPolicy` -/
def RealmPolicyWire.from : RealmPolicyWire → RealmPolicy
  | privately => .privately
  | shared label => .shared label

/-- A unit variant is written as its tag alone. -/
def RealmPolicy.serialize : RealmPolicy → Value
  | .privately => serde.serializeTagged "kind" (camelCase "Private") []
  | .shared label => serde.serializeTagged "kind" (camelCase "Shared") [("label", .string label)]

def RealmPolicy.deserialize (v : Value) : Except DecodeError RealmPolicy := do
  let wire ← serde.deserializeTagged RealmPolicyWire.schema v
  return wire.from

def IsolateEntry.fields : List Field :=
  [.string "service",
    { name := "policy", Carrier := RealmPolicy, deserialize := RealmPolicy.deserialize serde }]

def IsolateEntry.serialize (entry : IsolateEntry) : Value :=
  serde.serializeStruct
    [("service", .string entry.service), ("policy", RealmPolicy.serialize serde entry.policy)]

def IsolateEntry.deserialize (v : Value) : Except DecodeError IsolateEntry := do
  let (service, policy, _) ← serde.deserializeStruct (fields serde) v
  return { service, policy }

variable {serde}

/-! ## How a form is spelled -/

/-- The fields of a row, its tag first. -/
def InjectEntry.spelling : InjectEntry → List (String × Value)
  | .required service => [("kind", .string "required"), ("service", .string service)]
  | .configured service config =>
      [("kind", .string "configured"), ("service", .string service), ("config", config)]

def RealmPolicy.spelling : RealmPolicy → List (String × Value)
  | .privately => [("kind", .string "private")]
  | .shared label => [("kind", .string "shared"), ("label", .string label)]

theorem injectEntry_written (serde : Derive) (e : InjectEntry) :
    ∃ written, InjectEntry.serialize serde e = .object written ∧
      written.Perm (InjectEntry.spelling e) := by
  cases e with
  | required service => exact serde.tagged_written "kind" _ [("service", .string service)]
  | configured service config =>
      exact serde.tagged_written "kind" _ [("service", .string service), ("config", config)]

theorem realmPolicy_written (serde : Derive) (policy : RealmPolicy) :
    ∃ written, RealmPolicy.serialize serde policy = .object written ∧
      written.Perm (RealmPolicy.spelling policy) := by
  cases policy with
  | privately => exact serde.tagged_written "kind" _ []
  | shared label => exact serde.tagged_written "kind" _ [("label", .string label)]

/-! ## What is read -/

/-- The row that a form stands for. -/
def InjectEntryWire.row : InjectEntryWire → InjectEntry
  | required service => .required service
  | configured service config => .configured service config

theorem injectEntryWire_eq_ok {entries : List (String × Value)} {wire : InjectEntryWire} :
    serde.deserializeTagged InjectEntryWire.schema (.object entries) = .ok wire ↔
      entries.Perm (InjectEntry.spelling wire.row) := by
  rw [serde.tagged_object]
  constructor
  · rintro ⟨variant, hvariant, spelled, record, hperm, hspells, rfl⟩
    simp only [InjectEntryWire.schema, List.mem_cons, List.not_mem_nil, or_false] at hvariant
    rcases hvariant with rfl | rfl
    · rcases record with ⟨service, rest⟩
      rcases hspells with ⟨value, others, rfl, hservice, hnone⟩
      obtain rfl := Value.toStringValue_eq_ok.mp hservice
      obtain rfl : others = [] := hnone
      exact hperm
    · rcases record with ⟨service, config, rest⟩
      rcases hspells with ⟨value, others, rfl, hservice, document, none, rfl, hconfig, hnone⟩
      obtain rfl := Value.toStringValue_eq_ok.mp hservice
      obtain rfl : none = [] := hnone
      cases hconfig
      exact hperm
  · intro h
    cases wire with
    | required service =>
        exact ⟨_, List.mem_cons_self .., [("service", .string service)], (service, ()), h,
          ⟨_, _, rfl, rfl, rfl⟩, rfl⟩
    | configured service config =>
        exact ⟨_, List.mem_cons_of_mem _ (List.mem_cons_self ..),
          [("service", .string service), ("config", config)], (service, config, ()), h,
          ⟨_, _, rfl, rfl, _, _, rfl, rfl, rfl⟩, rfl⟩

theorem injectEntry_eq_ok {entries : List (String × Value)} {e : InjectEntry} :
    InjectEntry.deserialize serde (.object entries) = .ok e ↔
      entries.Perm (InjectEntry.spelling e) := by
  unfold InjectEntry.deserialize
  constructor
  · intro hok
    cases hread : serde.deserializeTagged InjectEntryWire.schema (.object entries) with
    | error error =>
        rw [hread] at hok
        cases hok
    | ok wire =>
        rw [hread] at hok
        have hperm := injectEntryWire_eq_ok.mp hread
        cases wire <;> cases hok <;> exact hperm
  · intro hperm
    cases e with
    | required service =>
        have hread : serde.deserializeTagged InjectEntryWire.schema (.object entries) =
            .ok (.required service) := injectEntryWire_eq_ok.mpr hperm
        rw [hread]
        rfl
    | configured service config =>
        have hread : serde.deserializeTagged InjectEntryWire.schema (.object entries) =
            .ok (.configured service config) := injectEntryWire_eq_ok.mpr hperm
        rw [hread]
        rfl

theorem realmPolicyWire_eq_ok {entries : List (String × Value)} {wire : RealmPolicyWire} :
    serde.deserializeTagged RealmPolicyWire.schema (.object entries) = .ok wire ↔
      entries.Perm (RealmPolicy.spelling wire.from) := by
  rw [serde.tagged_object]
  constructor
  · rintro ⟨variant, hvariant, spelled, record, hperm, hspells, rfl⟩
    simp only [RealmPolicyWire.schema, List.mem_cons, List.not_mem_nil, or_false] at hvariant
    rcases hvariant with rfl | rfl
    · obtain rfl : spelled = [] := hspells
      exact hperm
    · rcases record with ⟨label, rest⟩
      rcases hspells with ⟨value, others, rfl, hlabel, hnone⟩
      obtain rfl := Value.toStringValue_eq_ok.mp hlabel
      obtain rfl : others = [] := hnone
      exact hperm
  · intro h
    cases wire with
    | privately => exact ⟨_, List.mem_cons_self .., [], (), h, rfl, rfl⟩
    | shared label =>
        exact ⟨_, List.mem_cons_of_mem _ (List.mem_cons_self ..), [("label", .string label)],
          (label, ()), h, ⟨_, _, rfl, rfl, rfl⟩, rfl⟩

theorem realmPolicy_eq_ok {entries : List (String × Value)} {policy : RealmPolicy} :
    RealmPolicy.deserialize serde (.object entries) = .ok policy ↔
      entries.Perm (RealmPolicy.spelling policy) := by
  unfold RealmPolicy.deserialize
  constructor
  · intro hok
    cases hread : serde.deserializeTagged RealmPolicyWire.schema (.object entries) with
    | error error =>
        rw [hread] at hok
        cases hok
    | ok wire =>
        rw [hread] at hok
        cases hok
        exact realmPolicyWire_eq_ok.mp hread
  · intro hperm
    cases policy with
    | privately =>
        have hread : serde.deserializeTagged RealmPolicyWire.schema (.object entries) =
            .ok .privately := realmPolicyWire_eq_ok.mpr hperm
        rw [hread]
        rfl
    | shared label =>
        have hread : serde.deserializeTagged RealmPolicyWire.schema (.object entries) =
            .ok (.shared label) := realmPolicyWire_eq_ok.mpr hperm
        rw [hread]
        rfl

/-- A row is read from its two fields, whatever document its policy is read from. -/
theorem isolateEntry_eq_ok {entries : List (String × Value)} {e : IsolateEntry} :
    IsolateEntry.deserialize serde (.object entries) = .ok e ↔
      ∃ policy, entries.Perm [("service", .string e.service), ("policy", policy)] ∧
        RealmPolicy.deserialize serde policy = .ok e.policy := by
  have hnames : ((IsolateEntry.fields serde).map Field.name).Nodup := by
    show ["service", "policy"].Nodup
    decide
  simp only [IsolateEntry.deserialize]
  constructor
  · intro hok
    cases hread : serde.deserializeStruct (IsolateEntry.fields serde) (.object entries) with
    | error error =>
        rw [hread] at hok
        cases hok
    | ok record =>
        rw [hread] at hok
        rcases (serde.struct_object hnames).mp hread with ⟨spelled, hperm, hspells⟩
        rcases record with ⟨service, policy, rest⟩
        cases hok
        rcases hspells with ⟨value, others, rfl, hservice, document, none, rfl, hpolicy, hnone⟩
        obtain rfl := Value.toStringValue_eq_ok.mp hservice
        obtain rfl : none = [] := hnone
        exact ⟨document, hperm, hpolicy⟩
  · rintro ⟨policy, hperm, hpolicy⟩
    have hread : serde.deserializeStruct (IsolateEntry.fields serde) (.object entries) =
        .ok (e.service, e.policy, ()) :=
      (serde.struct_object hnames).mpr ⟨_, hperm, _, _, rfl, rfl, _, _, rfl, hpolicy, rfl⟩
    rw [hread]
    rfl

/-! ## The schema -/

/-- Reading what is written gives it back. -/
def RoundTrips {α : Type} (serialize : α → Value) (deserialize : Value → Except DecodeError α) :
    Prop :=
  ∀ a, deserialize (serialize a) = .ok a

/-- An object that is read is written again, up to the order of fields. -/
def Rewrites {α : Type} (serialize : α → Value) (deserialize : Value → Except DecodeError α) :
    Prop :=
  ∀ entries a, deserialize (.object entries) = .ok a → Value.Same (.object entries) (serialize a)

/-- The object has the tag of a variant and exactly the fields which that variant defines. -/
def Exact (variants : List (String × List String)) (entries : List (String × Value)) : Prop :=
  ∃ kind names, (kind, names) ∈ variants ∧ ("kind", .string kind) ∈ entries ∧
    (entries.map Prod.fst).Perm ("kind" :: names)

def InjectEntry.variants : List (String × List String) :=
  [("required", ["service"]), ("configured", ["service", "config"])]

def RealmPolicy.variants : List (String × List String) :=
  [("private", []), ("shared", ["label"])]

section Spelling

variable {α : Type} {serialize : α → Value} {deserialize : Value → Except DecodeError α}
variable {spelling : α → List (String × Value)}

theorem Rewrites.of_spelling
    (hwritten : ∀ a, ∃ written, serialize a = .object written ∧ written.Perm (spelling a))
    (hread : ∀ {entries a}, deserialize (.object entries) = .ok a → entries.Perm (spelling a)) :
    Rewrites serialize deserialize := by
  intro entries a hok
  rcases hwritten a with ⟨written, hobject, hspelling⟩
  rw [hobject]
  exact .of_perm ((hread hok).trans hspelling.symm)

theorem RoundTrips.of_spelling
    (hwritten : ∀ a, ∃ written, serialize a = .object written ∧ written.Perm (spelling a))
    (hread : ∀ {entries a}, entries.Perm (spelling a) → deserialize (.object entries) = .ok a) :
    RoundTrips serialize deserialize := by
  intro a
  rcases hwritten a with ⟨written, hobject, hspelling⟩
  rw [hobject]
  exact hread hspelling

end Spelling

/-- What is spelled like a variant has its fields. -/
theorem Exact.of_spelling {variants : List (String × List String)} {variant : String}
    {fields entries : List (String × Value)}
    (hvariant : (variant, fields.map Prod.fst) ∈ variants)
    (hperm : entries.Perm (("kind", .string variant) :: fields)) : Exact variants entries :=
  ⟨variant, _, hvariant, hperm.mem_iff.mpr (List.mem_cons_self ..), hperm.map Prod.fst⟩

theorem injectEntry_exact {entries : List (String × Value)} {e : InjectEntry}
    (h : InjectEntry.deserialize serde (.object entries) = .ok e) :
    Exact InjectEntry.variants entries := by
  have hperm := injectEntry_eq_ok.mp h
  cases e with
  | required service => exact .of_spelling (List.mem_cons_self ..) hperm
  | configured service config =>
      exact .of_spelling (List.mem_cons_of_mem _ (List.mem_cons_self ..)) hperm

theorem realmPolicy_exact {entries : List (String × Value)} {policy : RealmPolicy}
    (h : RealmPolicy.deserialize serde (.object entries) = .ok policy) :
    Exact RealmPolicy.variants entries := by
  have hperm := realmPolicy_eq_ok.mp h
  cases policy with
  | privately => exact .of_spelling (List.mem_cons_self ..) hperm
  | shared label => exact .of_spelling (List.mem_cons_of_mem _ (List.mem_cons_self ..)) hperm

theorem realmPolicy_roundTrips :
    RoundTrips (RealmPolicy.serialize serde) (RealmPolicy.deserialize serde) :=
  .of_spelling (realmPolicy_written serde) realmPolicy_eq_ok.mpr

theorem isolateEntry_roundTrips :
    RoundTrips (IsolateEntry.serialize serde) (IsolateEntry.deserialize serde) := by
  intro e
  rcases serde.struct_written [("service", .string e.service),
    ("policy", RealmPolicy.serialize serde e.policy)] with ⟨written, hwritten, hfields⟩
  rw [IsolateEntry.serialize, hwritten]
  exact isolateEntry_eq_ok.mpr ⟨_, hfields, realmPolicy_roundTrips e.policy⟩

/-- A row whose policy is an object is written again as it was. -/
theorem isolateEntry_same {entries policy : List (String × Value)} {e : IsolateEntry}
    (hperm : entries.Perm [("service", .string e.service), ("policy", .object policy)])
    (hpolicy : RealmPolicy.deserialize serde (.object policy) = .ok e.policy) :
    Value.Same (.object entries) (IsolateEntry.serialize serde e) := by
  rcases realmPolicy_written serde e.policy with ⟨inner, hinner, hspelling⟩
  have hsame := (realmPolicy_eq_ok.mp hpolicy).trans hspelling.symm
  rcases serde.struct_written [("service", .string e.service),
    ("policy", RealmPolicy.serialize serde e.policy)] with ⟨written, hwritten, hfields⟩
  rw [IsolateEntry.serialize, hwritten]
  rw [hinner] at hfields
  -- the fields of the row may be reordered, and those of its policy
  have hrow : Value.SameEntries [("service", .string e.service), ("policy", .object policy)]
      [("service", .string e.service), ("policy", .object inner)] :=
    .cons (.refl _) (.cons (.of_perm hsame) .nil)
  exact .object (.reorder hperm hrow hfields.symm)

def sampleRow : List (String × Value) :=
  [("policy", .object [("label", .string "x"), ("kind", .string "shared")]),
    ("service", .string "db")]

theorem sampleRow_read : IsolateEntry.deserialize visitors (.object sampleRow) =
    .ok { service := "db", policy := .shared "x" } :=
  rfl

def sequenceRow : List (String × Value) :=
  [("service", .string "db"), ("policy", .array [.string "shared", .string "x"])]

end Wire
end CordisCore
