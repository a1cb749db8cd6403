import RailsSchema.Definition.Schema
import RailsSchema.Proofs.Entries
import Mathlib.Data.List.Basic
import Mathlib.Data.List.Induction

/-!
# Where foreign keys go

Foreign keys are resolved one after the other, and each changes the schema that the next one is
looked up in. It changes no name, though, so the outcome can be told from the declared tables alone:
`Schema.withKeys` gives every table the keys that point from it to a table of the schema, in order.

* `Schema.resolve_withKeys`: one key takes the outcome for the keys before it to the outcome for
  those and the key itself;
* `Schema.foldl_resolve`: so does a list of keys;
* `Schema.read_eq`: what reading a text comes to;
* `Schema.read_resolution`: no key is lost, given twice or given to another table, and nothing else
  depends on the keys.
-/

namespace RailsSchema

theorem Table.foreignKeys_ofBlock (settings : Settings) (block : TableBlock) :
    (Table.ofBlock settings block).foreignKeys = [] := by
  unfold Table.ofBlock Table.read Table.ofDeclared
  split
  · split <;> rfl
  · rfl

namespace Schema

/-- The keys of a list that point from a table to a table of the schema. -/
def keysOf (schema : Schema) (keys : List ForeignKey) (name : String) : List ForeignKey :=
  keys.filter fun key => key.fromTable == name && OrderedMap.contains schema key.toTable

/-- A schema in which every table has just those of the keys that it should. -/
def withKeys (schema : Schema) (keys : List ForeignKey) : Schema :=
  schema.map fun entry => (entry.1, { entry.2 with foreignKeys := keysOf schema keys entry.1 })

@[simp] theorem keys_withKeys (schema : Schema) (keys : List ForeignKey) :
    OrderedMap.keys (withKeys schema keys) = OrderedMap.keys schema := by
  simp [OrderedMap.keys, withKeys, Function.comp_def]

theorem contains_withKeys (schema : Schema) (keys : List ForeignKey) (name : String) :
    OrderedMap.contains (withKeys schema keys) name = OrderedMap.contains schema name := by
  rw [Bool.eq_iff_iff, OrderedMap.contains_iff_mem_keys, OrderedMap.contains_iff_mem_keys,
    keys_withKeys]

/-- What is wrong with a key does not depend on the keys resolved before. -/
theorem problem?_withKeys (schema : Schema) (keys : List ForeignKey) (key : ForeignKey) :
    problem? (withKeys schema keys) key = problem? schema key := by
  simp only [problem?, contains_withKeys]

theorem keysOf_append (schema : Schema) (keys more : List ForeignKey) (name : String) :
    keysOf schema (keys ++ more) name = keysOf schema keys name ++ keysOf schema more name :=
  List.filter_append ..

theorem keysOf_of_problem? {schema : Schema} {key : ForeignKey} {diagnostic : Diagnostic}
    (h : problem? schema key = some diagnostic) {entry : String × Table} (hentry : entry ∈ schema) :
    keysOf schema [key] entry.1 = [] := by
  refine List.filter_eq_nil_iff.mpr fun k hk => ?_
  rw [List.mem_singleton.mp hk]
  have hmem : OrderedMap.contains schema entry.1 = true :=
    OrderedMap.contains_iff_mem_keys.mpr (List.mem_map_of_mem hentry)
  simp only [problem?] at h
  intro hkey
  simp only [Bool.and_eq_true, beq_iff_eq] at hkey
  rw [hkey.1, hmem, hkey.2] at h
  cases h

theorem keysOf_of_resolved {schema : Schema} {key : ForeignKey} (h : problem? schema key = none)
    (name : String) : keysOf schema [key] name = if name = key.fromTable then [key] else [] := by
  have hto : OrderedMap.contains schema key.toTable = true := by
    cases hto : OrderedMap.contains schema key.toTable with
    | true => rfl
    | false =>
      simp only [problem?, hto] at h
      split at h <;> cases h
  by_cases hname : name = key.fromTable
  · simp [keysOf, hname, hto]
  · simp [keysOf, hname, Ne.symm hname]

/-- One key takes the outcome for the keys before it to the outcome for those and itself. -/
theorem resolve_withKeys (schema : Schema) (done : List ForeignKey) (key : ForeignKey) :
    resolve ⟨withKeys schema done, done.filterMap (problem? schema)⟩ key =
      ⟨withKeys schema (done ++ [key]), (done ++ [key]).filterMap (problem? schema)⟩ := by
  simp only [resolve, problem?_withKeys]
  cases hproblem : problem? schema key with
  | some diagnostic =>
    have hschema : withKeys schema (done ++ [key]) = withKeys schema done := by
      refine List.map_congr_left fun entry hentry => ?_
      rw [keysOf_append, keysOf_of_problem? hproblem hentry, List.append_nil]
    simp [hschema, hproblem]
  | none =>
    have hschema : OrderedMap.modify (withKeys schema done) key.fromTable
        (Table.addForeignKey · key) = withKeys schema (done ++ [key]) := by
      simp only [OrderedMap.modify, withKeys, List.map_map]
      refine List.map_congr_left fun entry _ => ?_
      rw [keysOf_append, keysOf_of_resolved hproblem]
      by_cases hname : entry.1 = key.fromTable <;> simp [hname, Table.addForeignKey]
    simp [hschema, hproblem]

/-- Resolving a list of keys gives every table those that it should get. -/
theorem foldl_resolve (schema : Schema) (keys : List ForeignKey) :
    keys.foldl resolve ⟨withKeys schema [], []⟩ =
      ⟨withKeys schema keys, keys.filterMap (problem? schema)⟩ := by
  induction keys using List.reverseRecOn with
  | nil => rfl
  | append_singleton keys key ih =>
    rw [List.foldl_append, ih, List.foldl_cons, List.foldl_nil, resolve_withKeys]

/-- The declared tables have no foreign keys yet. -/
theorem withKeys_declared_nil (settings : Settings) (text : String) :
    withKeys (declared settings text) [] = declared settings text := by
  refine map_eq_self fun entry hentry => ?_
  obtain ⟨block, -, rfl⟩ := List.mem_map.mp (OrderedMap.mem_of_mem_ofEntries hentry)
  refine Prod.ext rfl ?_
  have hnone := Table.foreignKeys_ofBlock settings block
  simp only [keysOf, List.filter_nil]
  rw [← hnone]

/-- What reading a text comes to. -/
theorem read_eq (settings : Settings) (singular : String → String) (text : String) :
    read settings singular text =
      ⟨withKeys (declared settings text) (ForeignKey.all settings singular text),
        (ForeignKey.all settings singular text).filterMap
          (problem? (declared settings text))⟩ := by
  rw [read, ← foldl_resolve, withKeys_declared_nil]

/-- Every foreign key that a text declares goes to the table that it points from, once and in
order, if both its tables are declared, and to the diagnostics otherwise; all else is as it would be
without foreign keys. -/
theorem read_resolution (settings : Settings) (singular : String → String) (text : String) :
    let keys := ForeignKey.all settings singular text
    let reading := read settings singular text
    let names := OrderedMap.keys reading.schema
    names.Nodup ∧
      (∀ name table, (name, table) ∈ reading.schema →
        table.foreignKeys =
          keys.filter fun key => key.fromTable = name ∧ key.toTable ∈ names) ∧
      (reading.diagnostics = keys.filterMap fun key =>
        if key.fromTable ∉ names then some (.missingSource key.fromTable key.toTable)
        else if key.toTable ∉ names then some (.missingDestination key.fromTable key.toTable)
        else none) ∧
      (reading.schema.map fun entry => (entry.1, { entry.2 with foreignKeys := [] })) =
        declared settings text := by
  intro keys reading names
  have hreading : reading = _ := read_eq settings singular text
  have hnames : names = OrderedMap.keys (declared settings text) := by
    simp only [names, hreading, keys_withKeys]
  have hcontains : ∀ name, OrderedMap.contains (declared settings text) name =
      decide (name ∈ names) := by
    intro name
    rw [Bool.eq_iff_iff, OrderedMap.contains_iff_mem_keys, hnames, decide_eq_true_iff]
  refine ⟨?_, ?_, ?_, ?_⟩
  · rw [hnames]
    exact OrderedMap.nodup_keys_ofEntries _
  · intro name table hmem
    rw [hreading] at hmem
    obtain ⟨entry, -, heq⟩ := List.mem_map.mp hmem
    cases heq
    refine List.filter_congr fun key _ => ?_
    rw [hcontains, Bool.decide_and]
    rfl
  · rw [hreading]
    refine List.filterMap_congr fun key _ => ?_
    simp only [problem?, hcontains, Bool.not_eq_true', decide_eq_false_iff_not]
  · rw [hreading, withKeys, List.map_map]
    have hback := withKeys_declared_nil settings text
    rw [withKeys] at hback
    exact hback

end Schema

end RailsSchema
