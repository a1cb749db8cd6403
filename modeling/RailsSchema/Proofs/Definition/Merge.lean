import RailsSchema.Proofs.Definition.Resolution
import RailsSchema.Proofs.Statement.Concat
import RailsSchema.Singular

/-!
# Schemas behind one another

What is read from two texts with a line break between them, if the first is closed: the tables of
the first and then the new tables of the second, a table that both declare being that of the second
in the place of the first, and the foreign keys of both texts resolved in this one schema.

* `Schema.bare_read`: what is read, foreign keys aside, is what is declared;
* `Schema.declared_append`: the declared tables of the two texts, merged;
* `Schema.read_append`: what is read from them; a text without the two keywords adds nothing.
-/

namespace RailsSchema

open Text

theorem ForeignKey.all_append {a : String} (ha : Text.IsClosed a) (settings : Settings)
    (singular : String → String) (b : String) :
    ForeignKey.all settings singular (a ++ "\n" ++ b) =
      ForeignKey.all settings singular a ++ ForeignKey.all settings singular b := by
  unfold ForeignKey.all
  rw [ForeignKeyStatement.all_append ha, List.map_append]

namespace Schema

/-- A schema without its foreign keys. -/
def bare (schema : Schema) : Schema :=
  schema.map fun entry => (entry.1, { entry.2 with foreignKeys := [] })

theorem bare_withKeys (schema : Schema) (keys : List ForeignKey) :
    bare (withKeys schema keys) = bare schema := by
  simp [bare, withKeys, Function.comp_def]

/-- What is read from a text, foreign keys aside, is what it declares. -/
theorem bare_read (settings : Settings) (singular : String → String) (text : String) :
    bare (read settings singular text).schema = declared settings text := by
  rw [read_eq, bare_withKeys]
  exact withKeys_declared_nil settings text

theorem declared_append {a : String} (ha : Text.IsClosed a) (settings : Settings) (b : String) :
    declared settings (a ++ "\n" ++ b) =
      OrderedMap.merge (declared settings a) (declared settings b) := by
  unfold declared
  rw [TableBlock.all_append ha, List.map_append, List.map_map, OrderedMap.ofEntries_append]
  rfl

theorem declared_of_absent {a : String} (settings : Settings)
    (htable : ¬ "create_table".toList <:+: a.toList) : declared settings a = [] := by
  unfold declared TableBlock.all TableBlock.keyword
  rw [sites_of_absent (by decide) htable]
  rfl

/-- Two texts with a line break between them are read as one schema, if the first is closed: their
statements are those of the one and those of the other, their tables are merged, and the foreign keys
of both are resolved in the outcome. A text without the two keywords can be left out. -/
theorem read_append (settings : Settings) (singular : String → String) (a b : String) :
    (Text.IsClosed a →
      TableBlock.all (a ++ "\n" ++ b) =
          TableBlock.all a ++ (TableBlock.all b).map (TableBlock.shift (byteLength a.toList + 1)) ∧
        ForeignKeyStatement.all (a ++ "\n" ++ b) =
          ForeignKeyStatement.all a ++ ForeignKeyStatement.all b ∧
        let merged := OrderedMap.merge (bare (read settings singular a).schema)
          (bare (read settings singular b).schema)
        bare (read settings singular (a ++ "\n" ++ b)).schema = merged ∧
          read settings singular (a ++ "\n" ++ b) =
            (ForeignKey.all settings singular a ++ ForeignKey.all settings singular b).foldl
              resolve ⟨merged, []⟩) ∧
    (¬ "create_table".toList <:+: a.toList → ¬ "add_foreign_key".toList <:+: a.toList →
      read settings singular (a ++ "\n" ++ b) = read settings singular b) := by
  constructor
  · intro ha
    refine ⟨TableBlock.all_append ha b, ForeignKeyStatement.all_append ha b, ?_⟩
    simp only [bare_read]
    refine ⟨declared_append ha settings b, ?_⟩
    rw [read, declared_append ha, ForeignKey.all_append ha]
  · intro htable hkey
    have ha := Text.IsClosed.of_absent htable hkey
    have hnone : ForeignKey.all settings singular a = [] := by
      unfold ForeignKey.all ForeignKeyStatement.all
      rw [sites_of_absent (by decide) hkey]
      rfl
    have hmerge : ∀ schema : Schema, OrderedMap.merge [] schema = schema := by
      intro schema
      simp [OrderedMap.merge, OrderedMap.keys]
    rw [read, declared_append ha, ForeignKey.all_append ha, declared_of_absent settings htable,
      hnone, hmerge, List.nil_append]
    rfl

/-- A table with a foreign key to itself. -/
def blog : String :=
  "create_table \"posts\" do |t|\nend\nadd_foreign_key \"posts\", \"posts\""

/-- The table of `blog` with a column, and a new table. -/
def forum : String :=
  "create_table \"posts\" do |t|\nt.text \"body\"\nend\ncreate_table \"topics\" do |t|\nend"

theorem read_blog_forum :
    Text.IsClosed blog ∧
      bare (read ⟨.present, 64⟩ English.singular (blog ++ "\n" ++ forum)).schema =
        OrderedMap.merge (bare (read ⟨.present, 64⟩ English.singular blog).schema)
          (bare (read ⟨.present, 64⟩ English.singular forum).schema) ∧
      read ⟨.present, 64⟩ English.singular ("# a comment" ++ "\n" ++ forum) =
        read ⟨.present, 64⟩ English.singular forum := by
  have hclosed : Text.IsClosed blog := by decide +kernel
  have htable : ¬ "create_table".toList <:+: "# a comment".toList := by decide +kernel
  have hkey : ¬ "add_foreign_key".toList <:+: "# a comment".toList := by decide +kernel
  obtain ⟨-, -, hmerged, -⟩ := (read_append ⟨.present, 64⟩ English.singular blog forum).1 hclosed
  exact ⟨hclosed, hmerged,
    (read_append ⟨.present, 64⟩ English.singular "# a comment" forum).2 htable hkey⟩

end Schema

end RailsSchema
