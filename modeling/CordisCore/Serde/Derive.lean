import CordisCore.Serde.Value

/-!
# Derived readers and writers — what the documentation promises of them

A struct is written as an object of its fields.  An internally tagged enum is
written with its tag next to the fields of the variant.  Strict readers take the
same objects, whatever the order, and also sequences: the tag first, then the
fields in declaration order.
-/

namespace CordisCore
namespace Serde

/-! ## Structs -/

structure Field where
  name : String
  Carrier : Type
  deserialize : Value → Except DecodeError Carrier

def Field.string (name : String) : Field :=
  { name, Carrier := String, deserialize := Value.toStringValue }

/-- A field that takes any document. -/
def Field.value (name : String) : Field :=
  { name, Carrier := Value, deserialize := .ok }

/-- One value for every field. -/
@[reducible] def Record : List Field → Type
  | [] => Unit
  | field :: fields => field.Carrier × Record fields

/-! ## What a struct reads -/

/-- The entries name every field, in declaration order, with values that read as the record. -/
def Spells : (fields : List Field) → List (String × Value) → Record fields → Prop
  | [], entries, _ => entries = []
  | field :: fields, entries, (read, record) => ∃ value rest,
      entries = (field.name, value) :: rest ∧ field.deserialize value = .ok read ∧
        Spells fields rest record

/-- The elements are the values of the fields, in declaration order. -/
def Lists : (fields : List Field) → List Value → Record fields → Prop
  | [], elements, _ => elements = []
  | field :: fields, elements, (read, record) => ∃ value rest,
      elements = value :: rest ∧ field.deserialize value = .ok read ∧ Lists fields rest record

/-- Every entry that spells a record is named like a field. -/
theorem Spells.names {fields : List Field} {entries : List (String × Value)}
    {record : Record fields} (h : Spells fields entries record) :
    entries.map Prod.fst = fields.map Field.name := by
  induction fields generalizing entries with
  | nil =>
      obtain rfl : entries = [] := h
      rfl
  | cons field fields ih =>
      rcases h with ⟨value, rest, rfl, -, hrest⟩
      rw [List.map_cons, List.map_cons, ih hrest]

/-! ## Internally tagged enums -/

structure Variant (α : Type) where
  name : String
  fields : List Field
  make : Record fields → α

/-- An enum whose variants have distinct names and no field that is named like the tag. -/
structure Tagged (α : Type) where
  tag : String
  variants : List (Variant α)
  distinct : (variants.map Variant.name).Nodup
  fields_distinct : ∀ variant ∈ variants, (tag :: variant.fields.map Field.name).Nodup

namespace Tagged

variable {α : Type} (schema : Tagged α)

def names : List String :=
  schema.variants.map Variant.name

end Tagged

/-! ## The macros -/

/-- What the derive macros generate, with what the generated code is documented to do. -/
structure Derive where
  serializeStruct : List (String × Value) → Value
  serializeTagged : (tag variant : String) → List (String × Value) → Value
  deserializeStruct : (fields : List Field) → Value → Except DecodeError (Record fields)
  deserializeTagged : {α : Type} → Tagged α → Value → Except DecodeError α
  /-- A struct is written as an object of its fields. -/
  struct_written : ∀ fields, ∃ written,
    serializeStruct fields = .object written ∧ written.Perm fields
  /-- The tag of a variant is written next to its fields. -/
  tagged_written : ∀ tag variant fields, ∃ written,
    serializeTagged tag variant fields = .object written ∧
      written.Perm ((tag, .string variant) :: fields)
  /-- `deny_unknown_fields` on a struct: every field once and no other. -/
  struct_object : ∀ {fields : List Field} {entries : List (String × Value)}
    {record : Record fields}, (fields.map Field.name).Nodup →
    (deserializeStruct fields (.object entries) = .ok record ↔
      ∃ spelled, entries.Perm spelled ∧ Spells fields spelled record)
  /-- `deny_unknown_fields` on an internally tagged enum: the tag and the fields of its variant. -/
  tagged_object : ∀ {α : Type} (schema : Tagged α) {entries : List (String × Value)} {a : α},
    deserializeTagged schema (.object entries) = .ok a ↔
      ∃ variant ∈ schema.variants, ∃ spelled record,
        entries.Perm ((schema.tag, .string variant.name) :: spelled) ∧
          Spells variant.fields spelled record ∧ variant.make record = a
  /-- An internally tagged enum is also read from a sequence. -/
  tagged_array : ∀ {α : Type} (schema : Tagged α) {elements : List Value} {a : α},
    deserializeTagged schema (.array elements) = .ok a ↔
      ∃ variant ∈ schema.variants, ∃ listed record,
        elements = .string variant.name :: listed ∧
          Lists variant.fields listed record ∧ variant.make record = a

end Serde
end CordisCore
