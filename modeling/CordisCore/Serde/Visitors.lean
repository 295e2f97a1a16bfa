import CordisCore.Serde.Derive

/-!
# Visitors — the code that the derive macros generate

A struct is read entry by entry into one slot for each field; a field that is
unknown, repeated or missing is refused.  An internally tagged enum finds its tag
anywhere among the entries and reads the others as the struct of that variant; in a
sequence the tag comes first.
-/

namespace CordisCore
namespace Serde

/-! ## Structs -/

/-- The slots of a visitor. -/
@[reducible] def Slots : List Field → Type
  | [] => Unit
  | field :: fields => Option field.Carrier × Slots fields

def Slots.empty : (fields : List Field) → Slots fields
  | [] => ()
  | _ :: fields => (none, Slots.empty fields)

/-- One entry of the map: it is read when it is met, into a slot that was empty. -/
def Slots.visit (expected : List String) : (fields : List Field) → Slots fields →
    String → Value → Except DecodeError (Slots fields)
  | [], _, key, _ => .error (.unknownField key expected)
  | field :: fields, (slot, rest), key, value =>
      if key = field.name then
        match slot with
        | some _ => .error (.duplicateField field.name)
        | none => do
            let read ← field.deserialize value
            return (some read, rest)
      else do
        let rest ← Slots.visit expected fields rest key value
        return (slot, rest)

/-- The first empty slot is reported. -/
def Slots.finish : (fields : List Field) → Slots fields → Except DecodeError (Record fields)
  | [], _ => .ok ()
  | field :: _, (none, _) => .error (.missingField field.name)
  | _ :: fields, (some read, rest) => do
      let record ← Slots.finish fields rest
      return (read, record)

def visitMap (fields : List Field) (slots : Slots fields) :
    List (String × Value) → Except DecodeError (Slots fields)
  | [] => .ok slots
  | (key, value) :: entries => do
      let slots ← slots.visit (fields.map Field.name) fields key value
      visitMap fields slots entries

def deserializeFields (fields : List Field) (entries : List (String × Value)) :
    Except DecodeError (Record fields) := do
  let slots ← visitMap fields (Slots.empty fields) entries
  slots.finish fields

/-- The slots hold what these entries spell, in any order. -/
def Filled : (fields : List Field) → List (String × Value) → Slots fields → Prop
  | [], entries, _ => entries = []
  | _ :: fields, entries, (none, slots) => Filled fields entries slots
  | field :: fields, entries, (some read, slots) => ∃ value rest,
      entries.Perm ((field.name, value) :: rest) ∧ field.deserialize value = .ok read ∧
        Filled fields rest slots

/-- These entries, in any order, spell what the slots lack of the record. -/
def Lacking : (fields : List Field) → Record fields → List (String × Value) → Slots fields → Prop
  | [], _, entries, _ => entries = []
  | field :: fields, (read, record), entries, (none, slots) => ∃ value rest,
      entries.Perm ((field.name, value) :: rest) ∧ field.deserialize value = .ok read ∧
        Lacking fields record rest slots
  | _ :: fields, (read, record), entries, (some found, slots) =>
      found = read ∧ Lacking fields record entries slots

theorem Filled.perm {fields : List Field} {entries others : List (String × Value)}
    {slots : Slots fields} (h : Filled fields entries slots) (hperm : others.Perm entries) :
    Filled fields others slots := by
  induction fields generalizing entries others with
  | nil =>
      obtain rfl : entries = [] := h
      exact hperm.eq_nil
  | cons field fields ih =>
      rcases slots with ⟨_ | read, slots⟩
      · exact ih h hperm
      · rcases h with ⟨value, rest, hentries, hread, hrest⟩
        exact ⟨value, rest, hperm.trans hentries, hread, hrest⟩

theorem Filled.empty (fields : List Field) : Filled fields [] (Slots.empty fields) := by
  induction fields with
  | nil => rfl
  | cons field fields ih => exact ih

/-- An entry that is read stands in its slot afterwards. -/
theorem Filled.visit {fields : List Field} {expected : List String} {key : String} {value : Value}
    {entries : List (String × Value)} {slots slots' : Slots fields}
    (h : Filled fields entries slots)
    (hvisit : slots.visit expected fields key value = .ok slots') :
    Filled fields ((key, value) :: entries) slots' := by
  induction fields generalizing entries with
  | nil => cases hvisit
  | cons field fields ih =>
      rcases slots with ⟨slot, slots⟩
      simp only [Slots.visit] at hvisit
      split at hvisit
      · rename_i hkey
        cases slot with
        | some found => cases hvisit
        | none =>
            cases hread : field.deserialize value with
            | error error =>
                rw [hread] at hvisit
                cases hvisit
            | ok read =>
                rw [hread] at hvisit
                cases hvisit
                exact ⟨value, entries, by rw [hkey], hread, h⟩
      · cases hrest : slots.visit expected fields key value with
        | error error =>
            rw [hrest] at hvisit
            cases hvisit
        | ok rest =>
            rw [hrest] at hvisit
            cases hvisit
            cases slot with
            | none => exact ih h hrest
            | some found =>
                rcases h with ⟨first, others, hperm, hread, hothers⟩
                exact ⟨first, (key, value) :: others,
                  (hperm.cons _).trans (List.Perm.swap _ _ _), hread, ih hothers hrest⟩

theorem Filled.visitMap {fields : List Field} {read entries : List (String × Value)}
    {slots slots' : Slots fields} (h : Filled fields read slots)
    (hvisit : visitMap fields slots entries = .ok slots') :
    Filled fields (entries ++ read) slots' := by
  induction entries generalizing read slots with
  | nil =>
      cases hvisit
      exact h
  | cons entry entries ih =>
      rcases entry with ⟨key, value⟩
      simp only [Serde.visitMap] at hvisit
      cases hnext : slots.visit (fields.map Field.name) fields key value with
      | error error =>
          rw [hnext] at hvisit
          cases hvisit
      | ok next =>
          rw [hnext] at hvisit
          exact (ih (h.visit hnext) hvisit).perm List.perm_middle.symm

theorem Filled.finish {fields : List Field} {entries : List (String × Value)}
    {slots : Slots fields} {record : Record fields} (h : Filled fields entries slots)
    (hfinish : slots.finish fields = .ok record) :
    ∃ spelled, entries.Perm spelled ∧ Spells fields spelled record := by
  induction fields generalizing entries with
  | nil => exact ⟨entries, .refl _, h⟩
  | cons field fields ih =>
      rcases slots with ⟨_ | read, slots⟩
      · cases hfinish
      · simp only [Slots.finish] at hfinish
        cases hrest : slots.finish fields with
        | error error =>
            rw [hrest] at hfinish
            cases hfinish
        | ok rest =>
            rw [hrest] at hfinish
            cases hfinish
            rcases h with ⟨value, others, hperm, hread, hothers⟩
            rcases ih hothers hrest with ⟨spelled, hspelled, hspells⟩
            exact ⟨(field.name, value) :: spelled, hperm.trans (hspelled.cons _),
              value, spelled, rfl, hread, hspells⟩

theorem Lacking.perm {fields : List Field} {record : Record fields}
    {entries others : List (String × Value)} {slots : Slots fields}
    (h : Lacking fields record entries slots) (hperm : others.Perm entries) :
    Lacking fields record others slots := by
  induction fields generalizing entries others with
  | nil =>
      obtain rfl : entries = [] := h
      exact hperm.eq_nil
  | cons field fields ih =>
      rcases record with ⟨read, record⟩
      rcases slots with ⟨_ | found, slots⟩
      · rcases h with ⟨value, rest, hentries, hread, hrest⟩
        exact ⟨value, rest, hperm.trans hentries, hread, hrest⟩
      · exact ⟨h.1, ih h.2 hperm⟩

theorem Lacking.empty {fields : List Field} {record : Record fields}
    {entries : List (String × Value)} (h : Spells fields entries record) :
    Lacking fields record entries (Slots.empty fields) := by
  induction fields generalizing entries with
  | nil => exact h
  | cons field fields ih =>
      rcases record with ⟨read, record⟩
      rcases h with ⟨value, rest, rfl, hread, hrest⟩
      exact ⟨value, rest, .refl _, hread, ih hrest⟩

/-- What is lacking is spelled under the names of the fields. -/
theorem Lacking.known {fields : List Field} {record : Record fields}
    {entries : List (String × Value)} {slots : Slots fields}
    (h : Lacking fields record entries slots) :
    ∀ entry ∈ entries, entry.1 ∈ fields.map Field.name := by
  induction fields generalizing entries with
  | nil =>
      obtain rfl : entries = [] := h
      exact nofun
  | cons field fields ih =>
      rcases record with ⟨read, record⟩
      intro entry hentry
      rcases slots with ⟨_ | found, slots⟩
      · rcases h with ⟨value, rest, hperm, -, hrest⟩
        rcases List.mem_cons.mp (hperm.mem_iff.mp hentry) with rfl | hmem
        · exact List.mem_cons_self ..
        · exact List.mem_cons_of_mem _ (ih hrest entry hmem)
      · exact List.mem_cons_of_mem _ (ih h.2 entry hentry)

/-- An entry that is lacking is read. -/
theorem Lacking.visit {fields : List Field} (hnames : (fields.map Field.name).Nodup)
    {expected : List String} {record : Record fields} {key : String} {value : Value}
    {entries : List (String × Value)} {slots : Slots fields}
    (h : Lacking fields record ((key, value) :: entries) slots) :
    ∃ slots', slots.visit expected fields key value = .ok slots' ∧
      Lacking fields record entries slots' := by
  induction fields generalizing entries with
  | nil => cases h
  | cons field fields ih =>
      rw [List.map_cons, List.nodup_cons] at hnames
      rcases record with ⟨read, record⟩
      rcases slots with ⟨_ | found, slots⟩
      · rcases h with ⟨first, rest, hperm, hread, hrest⟩
        by_cases hkey : key = field.name
        · -- no other field has this name, so this is the entry of the first one
          subst hkey
          have hmem : (field.name, value) ∈ (field.name, first) :: rest :=
            hperm.mem_iff.mp (List.mem_cons_self ..)
          have hhead : (field.name, value) = (field.name, first) := by
            rcases List.mem_cons.mp hmem with heq | hother
            · exact heq
            · exact absurd (hrest.known _ hother) hnames.1
          cases hhead
          refine ⟨(some read, slots), ?_, rfl, hrest.perm (List.Perm.cons_inv hperm)⟩
          simp only [Slots.visit, if_true, hread]
          rfl
        · have hmem : (key, value) ∈ rest := by
            rcases List.mem_cons.mp (hperm.mem_iff.mp (List.mem_cons_self ..)) with heq | hother
            · cases heq
              exact absurd rfl hkey
            · exact hother
          rcases List.append_of_mem hmem with ⟨before, after, rfl⟩
          have hmiddle : (before ++ (key, value) :: after).Perm ((key, value) :: (before ++ after)) :=
            List.perm_middle
          rcases ih hnames.2 (hrest.perm hmiddle.symm) with ⟨slots', hvisit, hlacking⟩
          refine ⟨(none, slots'), ?_, first, before ++ after, ?_, hread, hlacking⟩
          · simp only [Slots.visit, if_neg hkey, hvisit]
            rfl
          · have hswap := hperm.trans ((hmiddle.cons (field.name, first)).trans (List.Perm.swap _ _ _))
            exact List.Perm.cons_inv hswap
      · have hkey : key ≠ field.name := by
          rintro rfl
          exact hnames.1 (h.2.known _ (List.mem_cons_self ..))
        rcases ih hnames.2 h.2 with ⟨slots', hvisit, hlacking⟩
        refine ⟨(some found, slots'), ?_, h.1, hlacking⟩
        simp only [Slots.visit, if_neg hkey, hvisit]
        rfl

theorem Lacking.visitMap {fields : List Field} (hnames : (fields.map Field.name).Nodup)
    {record : Record fields} {entries : List (String × Value)} {slots : Slots fields}
    (h : Lacking fields record entries slots) :
    ∃ slots', visitMap fields slots entries = .ok slots' ∧ Lacking fields record [] slots' := by
  induction entries generalizing slots with
  | nil => exact ⟨slots, rfl, h⟩
  | cons entry entries ih =>
      rcases entry with ⟨key, value⟩
      have hfirst : ∃ next, slots.visit (fields.map Field.name) fields key value = .ok next ∧
          Lacking fields record entries next := h.visit hnames
      rcases hfirst with ⟨next, hvisit, hnext⟩
      rcases ih hnext with ⟨slots', hrun, hlacking⟩
      refine ⟨slots', ?_, hlacking⟩
      simp only [Serde.visitMap, hvisit]
      exact hrun

theorem Lacking.finish {fields : List Field} {record : Record fields} {slots : Slots fields}
    (h : Lacking fields record [] slots) : slots.finish fields = .ok record := by
  induction fields with
  | nil => rfl
  | cons field fields ih =>
      rcases record with ⟨read, record⟩
      rcases slots with ⟨_ | found, slots⟩
      · rcases h with ⟨value, rest, hperm, -⟩
        cases hperm.symm.eq_nil
      · rcases h with ⟨rfl, hrest⟩
        simp only [Slots.finish, ih hrest]
        rfl

/-- A struct reads exactly the entries that spell it, in any order. -/
theorem deserializeFields_eq_ok {fields : List Field} (hnames : (fields.map Field.name).Nodup)
    {entries : List (String × Value)} {record : Record fields} :
    deserializeFields fields entries = .ok record ↔
      ∃ spelled, entries.Perm spelled ∧ Spells fields spelled record := by
  unfold deserializeFields
  constructor
  · intro hok
    cases hvisit : visitMap fields (Slots.empty fields) entries with
    | error error =>
        rw [hvisit] at hok
        cases hok
    | ok slots =>
        rw [hvisit] at hok
        have hfilled := (Filled.empty fields).visitMap hvisit
        rw [List.append_nil] at hfilled
        exact hfilled.finish hok
  · rintro ⟨spelled, hperm, hspells⟩
    rcases ((Lacking.empty hspells).perm hperm).visitMap hnames with ⟨slots, hvisit, hlacking⟩
    rw [hvisit]
    exact hlacking.finish

/-- The elements are read into the fields, as many as there are. -/
def visitSeq : (fields : List Field) → List Value → Except DecodeError (Record fields)
  | [], [] => .ok ()
  | [], _ :: _ => .error .invalidLength
  | _ :: _, [] => .error .invalidLength
  | field :: fields, value :: elements => do
      let read ← field.deserialize value
      let record ← visitSeq fields elements
      return (read, record)

def deserializeStruct (fields : List Field) : Value → Except DecodeError (Record fields)
  | .object entries => deserializeFields fields entries
  | .array elements => visitSeq fields elements
  | _ => .error (.invalidType "struct")

theorem visitSeq_eq_ok {fields : List Field} {elements : List Value} {record : Record fields} :
    visitSeq fields elements = .ok record ↔ Lists fields elements record := by
  induction fields generalizing elements with
  | nil => cases elements <;> simp [visitSeq, Lists]
  | cons field fields ih =>
      rcases record with ⟨read, record⟩
      cases elements with
      | nil => simp [visitSeq, Lists]
      | cons value elements =>
          simp only [visitSeq, Lists, List.cons.injEq]
          constructor
          · intro hok
            cases hread : field.deserialize value with
            | error error =>
                rw [hread] at hok
                cases hok
            | ok found =>
                cases hrest : visitSeq fields elements with
                | error error =>
                    rw [hread, hrest] at hok
                    cases hok
                | ok rest =>
                    rw [hread, hrest] at hok
                    cases hok
                    exact ⟨value, elements, ⟨rfl, rfl⟩, hread, ih.mp hrest⟩
          · rintro ⟨_, _, ⟨rfl, rfl⟩, hread, hlists⟩
            rw [hread, ih.mpr hlists]
            rfl

/-! ## Internally tagged enums -/

/-- The identifier of a variant. -/
def identifyVariant (expected : List String) : Value → Except DecodeError String
  | .string name =>
      if name ∈ expected then .ok name else .error (.unknownVariant name expected)
  | _ => .error (.invalidType "variant identifier")

/-- The tag, and the entries that are not the tag. -/
def visitTagged (tag : String) (expected : List String) : Option String →
    List (String × Value) → Except DecodeError (String × List (String × Value))
  | none, [] => .error (.missingField tag)
  | some name, [] => .ok (name, [])
  | found, (key, value) :: entries =>
      if key = tag then
        match found with
        | some _ => .error (.duplicateField tag)
        | none => do
            let name ← identifyVariant expected value
            visitTagged tag expected (some name) entries
      else do
        let (name, content) ← visitTagged tag expected found entries
        return (name, (key, value) :: content)

theorem identifyVariant_eq_ok {expected : List String} {value : Value} {name : String} :
    identifyVariant expected value = .ok name ↔ value = .string name ∧ name ∈ expected := by
  cases value with
  | string found =>
      simp only [identifyVariant, Value.string.injEq]
      split
      · rename_i hmem
        constructor
        · intro hok
          cases hok
          exact ⟨rfl, hmem⟩
        · rintro ⟨rfl, -⟩
          rfl
      · rename_i hmem
        refine ⟨nofun, ?_⟩
        rintro ⟨rfl, hname⟩
        exact absurd hname hmem
  | _ => simp [identifyVariant]

/-- Once the tag is found it may not come again. -/
theorem visitTagged_found {tag : String} {expected : List String} {found name : String}
    {entries content : List (String × Value)} :
    visitTagged tag expected (some found) entries = .ok (name, content) ↔
      name = found ∧ content = entries ∧ tag ∉ entries.map Prod.fst := by
  induction entries generalizing content with
  | nil =>
      simp only [visitTagged, Except.ok.injEq, Prod.mk.injEq, List.map_nil, List.not_mem_nil,
        not_false_eq_true, and_true]
      exact and_congr eq_comm eq_comm
  | cons entry entries ih =>
      rcases entry with ⟨key, value⟩
      simp only [visitTagged, List.map_cons, List.mem_cons, not_or]
      split
      · rename_i hkey
        exact ⟨nofun, fun h => absurd hkey.symm h.2.2.1⟩
      · rename_i hkey
        constructor
        · intro hok
          cases hrest : visitTagged tag expected (some found) entries with
          | error error =>
              rw [hrest] at hok
              cases hok
          | ok read =>
              rw [hrest] at hok
              rcases read with ⟨other, rest⟩
              cases hok
              rcases ih.mp hrest with ⟨rfl, rfl, hnone⟩
              exact ⟨rfl, rfl, Ne.symm hkey, hnone⟩
        · rintro ⟨rfl, rfl, -, hnone⟩
          rw [ih.mpr ⟨rfl, rfl, hnone⟩]
          rfl

/-- The tag is found wherever it stands, once, and the rest keeps its order. -/
theorem visitTagged_none {tag : String} {expected : List String} {name : String}
    {entries content : List (String × Value)} :
    visitTagged tag expected none entries = .ok (name, content) ↔
      ∃ before after, entries = before ++ (tag, .string name) :: after ∧
        content = before ++ after ∧ name ∈ expected ∧ tag ∉ content.map Prod.fst := by
  induction entries generalizing content with
  | nil => simp [visitTagged]
  | cons entry entries ih =>
      rcases entry with ⟨key, value⟩
      simp only [visitTagged]
      split
      · rename_i hkey
        subst hkey
        constructor
        · intro hok
          cases hname : identifyVariant expected value with
          | error error =>
              rw [hname] at hok
              cases hok
          | ok read =>
              rw [hname] at hok
              -- the first entry is the tag: the rest may not have it again
              rcases visitTagged_found.mp hok with ⟨rfl, rfl, hnone⟩
              rcases identifyVariant_eq_ok.mp hname with ⟨rfl, hmem⟩
              exact ⟨[], content, rfl, rfl, hmem, hnone⟩
        · rintro ⟨before, after, hsplit, rfl, hmem, hnone⟩
          rcases before with _ | ⟨first, before⟩
          · cases hsplit
            rw [identifyVariant_eq_ok.mpr ⟨rfl, hmem⟩]
            exact visitTagged_found.mpr ⟨rfl, rfl, hnone⟩
          · cases hsplit
            -- a second tag is refused
            exact absurd (List.mem_cons_self ..) hnone
      · rename_i hkey
        constructor
        · intro hok
          cases hrest : visitTagged tag expected none entries with
          | error error =>
              rw [hrest] at hok
              cases hok
          | ok read =>
              rw [hrest] at hok
              rcases read with ⟨other, rest⟩
              cases hok
              rcases ih.mp hrest with ⟨before, after, rfl, rfl, hmem, hnone⟩
              refine ⟨(key, value) :: before, after, rfl, rfl, hmem, ?_⟩
              simp only [List.map_cons, List.mem_cons, not_or]
              exact ⟨Ne.symm hkey, hnone⟩
        · rintro ⟨before, after, hsplit, rfl, hmem, hnone⟩
          rcases before with _ | ⟨first, before⟩
          · cases hsplit
            exact absurd rfl hkey
          · cases hsplit
            have hrest : tag ∉ (before ++ after).map Prod.fst :=
              fun h => hnone (List.mem_cons_of_mem _ h)
            rw [ih.mpr ⟨before, after, rfl, rfl, hmem, hrest⟩]
            rfl

namespace Tagged

variable {α : Type} (schema : Tagged α)

/-- The content is read as the struct of its variant. -/
def deserializeContent (read : (fields : List Field) → Except DecodeError (Record fields))
    (name : String) : Except DecodeError α :=
  match schema.variants.find? fun variant => variant.name == name with
  | some variant => do
      let record ← read variant.fields
      return variant.make record
  | none => .error (.unknownVariant name schema.names)

def deserialize : Value → Except DecodeError α
  | .object entries => do
      let (name, content) ← visitTagged schema.tag schema.names none entries
      schema.deserializeContent (fun fields => deserializeFields fields content) name
  | .array [] => .error (.missingField schema.tag)
  | .array (first :: elements) => do
      let name ← identifyVariant schema.names first
      schema.deserializeContent (fun fields => visitSeq fields elements) name
  | _ => .error (.invalidType "internally tagged enum")

variable {schema}

theorem deserializeContent_eq_ok
    (read : (fields : List Field) → Except DecodeError (Record fields)) {name : String} {a : α} :
    schema.deserializeContent read name = .ok a ↔
      ∃ variant ∈ schema.variants, ∃ record,
        variant.name = name ∧ read variant.fields = .ok record ∧ variant.make record = a := by
  unfold deserializeContent
  constructor
  · intro hok
    cases hfind : schema.variants.find? fun variant => variant.name == name with
    | none =>
        rw [hfind] at hok
        cases hok
    | some variant =>
        rw [hfind] at hok
        have hname : variant.name = name := by simpa using List.find?_some hfind
        cases hread : read variant.fields with
        | error error =>
            simp only [hread] at hok
            cases hok
        | ok record =>
            simp only [hread] at hok
            cases hok
            exact ⟨variant, List.mem_of_find?_eq_some hfind, record, hname, hread, rfl⟩
  · rintro ⟨variant, hmem, record, rfl, hread, rfl⟩
    have hfind : (schema.variants.find? fun other => other.name == variant.name) =
        some variant := by
      rw [List.find?_eq_some_iff_append]
      rcases List.append_of_mem hmem with ⟨first, rest, hsplit⟩
      refine ⟨beq_self_eq_true _, first, rest, hsplit, fun other hearlier => ?_⟩
      have hdistinct := schema.distinct
      rw [hsplit, List.map_append, List.map_cons, List.nodup_append] at hdistinct
      have hne : other.name ≠ variant.name :=
        hdistinct.2.2 _ (List.mem_map_of_mem hearlier) _ (List.mem_cons_self ..)
      simpa using hne
    simp only [hfind, hread]
    rfl

/-- An object is read if it has the tag of a variant together with what spells that variant. -/
theorem deserialize_object {entries : List (String × Value)} {a : α} :
    schema.deserialize (.object entries) = .ok a ↔
      ∃ variant ∈ schema.variants, ∃ spelled record,
        entries.Perm ((schema.tag, .string variant.name) :: spelled) ∧
          Spells variant.fields spelled record ∧ variant.make record = a := by
  simp only [deserialize]
  constructor
  · intro hok
    cases hvisit : visitTagged schema.tag schema.names none entries with
    | error error =>
        rw [hvisit] at hok
        cases hok
    | ok found =>
        rw [hvisit] at hok
        rcases found with ⟨name, content⟩
        rcases (deserializeContent_eq_ok fun fields => deserializeFields fields content).mp hok with
          ⟨variant, hmem, record, rfl, hread, rfl⟩
        have hnodup := (List.nodup_cons.mp (schema.fields_distinct variant hmem)).2
        rcases (deserializeFields_eq_ok hnodup).mp hread with ⟨spelled, hperm, hspells⟩
        rcases visitTagged_none.mp hvisit with ⟨before, after, rfl, rfl, -⟩
        exact ⟨variant, hmem, spelled, record, List.perm_middle.trans (hperm.cons _), hspells, rfl⟩
  · rintro ⟨variant, hmem, spelled, record, hperm, hspells, rfl⟩
    rcases List.append_of_mem (hperm.mem_iff.mpr (List.mem_cons_self ..)) with
      ⟨before, after, rfl⟩
    have hnodup := List.nodup_cons.mp (schema.fields_distinct variant hmem)
    have hcontent : (before ++ after).Perm spelled :=
      List.Perm.cons_inv (List.perm_middle.symm.trans hperm)
    have hother : schema.tag ∉ (before ++ after).map Prod.fst := by
      rw [(hcontent.map Prod.fst).mem_iff, hspells.names]
      exact hnodup.1
    have hknown : variant.name ∈ schema.names := List.mem_map_of_mem hmem
    have hread := (deserializeFields_eq_ok hnodup.2).mpr ⟨spelled, hcontent, hspells⟩
    rw [visitTagged_none.mpr ⟨before, after, rfl, rfl, hknown, hother⟩]
    exact (deserializeContent_eq_ok fun fields => deserializeFields fields (before ++ after)).mpr
      ⟨variant, hmem, record, rfl, hread, rfl⟩

/-- A sequence is read if it has the tag of a variant and then the values of its fields. -/
theorem deserialize_array {elements : List Value} {a : α} :
    schema.deserialize (.array elements) = .ok a ↔
      ∃ variant ∈ schema.variants, ∃ listed record,
        elements = .string variant.name :: listed ∧
          Lists variant.fields listed record ∧ variant.make record = a := by
  constructor
  · intro hok
    cases elements with
    | nil => cases hok
    | cons first elements =>
        simp only [deserialize] at hok
        cases hname : identifyVariant schema.names first with
        | error error =>
            rw [hname] at hok
            cases hok
        | ok name =>
            rw [hname] at hok
            rcases identifyVariant_eq_ok.mp hname with ⟨rfl, -⟩
            rcases (deserializeContent_eq_ok fun fields => visitSeq fields elements).mp hok with
              ⟨variant, hmem, record, rfl, hread, rfl⟩
            exact ⟨variant, hmem, elements, record, rfl, visitSeq_eq_ok.mp hread, rfl⟩
  · rintro ⟨variant, hmem, listed, record, rfl, hlists, rfl⟩
    have hknown : variant.name ∈ schema.names := List.mem_map_of_mem hmem
    simp only [deserialize]
    rw [identifyVariant_eq_ok.mpr ⟨rfl, hknown⟩]
    exact (deserializeContent_eq_ok fun fields => visitSeq fields listed).mpr
      ⟨variant, hmem, record, rfl, visitSeq_eq_ok.mpr hlists, rfl⟩

end Tagged

/-- The generated code does what the documentation promises. -/
def visitors : Derive where
  serializeStruct fields := .object fields
  serializeTagged tag variant fields := .object ((tag, .string variant) :: fields)
  deserializeStruct := deserializeStruct
  deserializeTagged := Tagged.deserialize
  struct_written fields := ⟨fields, rfl, .refl _⟩
  tagged_written _ _ _ := ⟨_, rfl, .refl _⟩
  struct_object hnames := deserializeFields_eq_ok hnames
  tagged_object _ := Tagged.deserialize_object
  tagged_array _ := Tagged.deserialize_array

end Serde
end CordisCore
