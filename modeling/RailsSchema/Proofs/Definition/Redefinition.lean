import RailsSchema.Proofs.Definition.Merge
import RailsSchema.Proofs.Statement.Spans

/-!
# Tables that are declared more than once

The tables of a schema are told by the blocks of its text: each name stands where it first comes, and
what stands under it is read from the last block of that name and from no other
(`Schema.keys_read`, `Schema.get?_read`). `Schema.read_blocks` says so together with what the blocks
of a text are.
-/

namespace RailsSchema

open Text

/-- What a table holds besides its foreign keys. -/
def Table.declarations (table : Table) : Options × List Field × List Index :=
  (table.options, table.fields, table.indexes)

namespace Schema

theorem keys_read (settings : Settings) (singular : String → String) (text : String) :
    OrderedMap.keys (read settings singular text).schema =
      ((TableBlock.all text).map TableBlock.name).eraseDups := by
  rw [read_eq, keys_withKeys, declared, OrderedMap.keys_ofEntries, List.map_map]
  rfl

theorem get?_declared (settings : Settings) (text name : String) :
    OrderedMap.get? (declared settings text) name =
      (((TableBlock.all text).filter (·.name == name)).getLast?).map (Table.ofBlock settings) := by
  rw [declared, OrderedMap.get?_ofEntries, List.filter_map, List.getLast?_map, Option.map_map]
  rfl

/-- What stands under a name is what the last block of the name declares. -/
theorem get?_read (settings : Settings) (singular : String → String) (text name : String) :
    (OrderedMap.get? (read settings singular text).schema name).map Table.declarations =
      (((TableBlock.all text).filter (·.name == name)).getLast?).map fun block =>
        (Table.read settings block.body block.options).declarations := by
  have hbare : (OrderedMap.get? (read settings singular text).schema name).map
        (fun table => { table with foreignKeys := [] }) =
      OrderedMap.get? (declared settings text) name := by
    rw [← bare_read settings singular text]
    exact (OrderedMap.get?_map _ _ _).symm
  have hdeclarations := congrArg (Option.map Table.declarations) hbare
  rw [get?_declared, Option.map_map, Option.map_map] at hdeclarations
  exact hdeclarations

/-- The tables of a schema are those of the blocks of its text, without repetitions, and each is that
of the last block of its name. Blocks come from left to right and do not overlap; each has a header,
a body without white space around it and without an `end` of its own, and an `end` that closes it;
and every keyword with a header and a later `end` lies in a block. -/
theorem read_blocks (settings : Settings) (singular : String → String) (text : String) :
    let schema := (read settings singular text).schema
    let blocks := TableBlock.all text
    OrderedMap.keys schema = (blocks.map TableBlock.name).eraseDups ∧
      (∀ name, (OrderedMap.get? schema name).map Table.declarations =
        ((blocks.filter (·.name == name)).getLast?).map fun block =>
          (Table.read settings block.body block.options).declarations) ∧
      (blocks.Pairwise fun block later => block.stop ≤ later.start) ∧
      (∀ block ∈ blocks, block.start < block.stop ∧ TableBlock.IsBody block.body.toList ∧
        ∃ front behind header inner tail, text.toList = front ++ ("create_table".toList ++ behind) ∧
          isBoundary front.getLast? = true ∧
          TableBlock.Parts (byteLength front) behind header inner tail block) ∧
      ∀ front (header : TableHeader) inner tail,
        text.toList = front ++ ("create_table".toList ++
          (header.text ++ (inner ++ ("end".toList ++ tail)))) →
        isBoundary front.getLast? = true →
        ((∃ c ∈ inner.getLast?, isBlank c = true) ∨ inner = [] ∧ header.IsFirst) →
        TableBlock.isGap tail.head? = true →
          ∃ block ∈ blocks, block.start ≤ byteLength front ∧ byteLength front < block.stop := by
  intro schema blocks
  refine ⟨keys_read settings singular text, get?_read settings singular text,
    TableBlock.pairwise_all text, fun block hblock => ?_, ?_⟩
  · obtain ⟨site, -, hat⟩ := TableBlock.exists_of_mem_atSites hblock
    obtain ⟨front, behind, header, inner, tail, htext, hboundary, hparts⟩ :=
      TableBlock.exists_parts_of_mem_all hblock
    refine ⟨(TableBlock.start_lt_stop hat).2, ?_, front, behind, header, inner, tail, htext,
      hboundary, hparts⟩
    rw [hparts.block]
    show TableBlock.IsBody (String.ofList (trim inner)).toList
    rw [String.toList_ofList]
    exact hparts.isBody
  · intro front header inner tail htext hboundary hbefore hafter
    exact TableBlock.covered_of_header htext hboundary hbefore hafter

end Schema

end RailsSchema
