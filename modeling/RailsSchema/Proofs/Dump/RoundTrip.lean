import RailsSchema.Singular
import RailsSchema.Proofs.Dump.Decide
import RailsSchema.Proofs.Dump.Keys
import RailsSchema.Proofs.Dump.Reading

/-!
# Reading a dump back

`read_text`: every statement of a dump whose strings are mute for the searches that run over them is
found with its options, under any filter. `Schema.read_dump` is the case of a well-formed dump under
the filter that keeps all items: its strings contain no barred word, and so are mute for all
searches, and the dump is read as what it stands for.
-/

namespace RailsSchema

open Text

namespace Dump

variable {settings : Settings} {dump : Dump} {header body foot : String → Prop} {depth : Nat}

/-- Whether a dump is in canonical form and each of its strings is mute for the searches that run
over its place. -/
def Quiet (depth : Nat) (dump : Dump) : Prop :=
  dump.Canonical (MuteFor headProbes) (MuteFor bodyProbes) (MuteFor footProbes) depth

/-! ## Tables -/

/-- The table that is read at a block is the one that is built for it. -/
theorem ofBlock_asBlock (hcolumns : ∀ content, body content → columnProbe.Mutes content)
    (hindexes : ∀ content, body content → indexProbe.Mutes content) {block : Block}
    (h : block.Canonical header body settings.maxDepth) (start : Nat) :
    Table.ofBlock settings (block.asBlock start) =
      (block.mapOptions (optionsUnder settings.arrayFilter)).built := by
  have hoptions := parseOptions_text h.options
    (trim_behindComma h.options (by decide : ∀ c ∈ [' '], isBlank c = true))
  show Table.ofDeclared (parseOptions settings (String.ofList (behindComma block.options ++ [' '])))
    (Field.all settings (String.ofList (bodyText block.statements)))
    (Index.all settings (String.ofList (bodyText block.statements))) = _
  rw [hoptions, fields_bodyText hcolumns h.statements, indexes_bodyText hindexes h.statements]
  rfl

theorem map_zipWith {α β γ δ : Type} {f : γ → δ} {g : α → β → γ} {k : α → δ} {as : List α}
    {bs : List β} (h : ∀ a ∈ as, ∀ b, f (g a b) = k a) (hlength : bs.length = as.length) :
    (List.zipWith g as bs).map f = as.map k := by
  induction as generalizing bs with
  | nil => rfl
  | cons a as ih =>
    cases bs with
    | nil => cases hlength
    | cons b bs =>
      rw [List.zipWith_cons_cons, List.map_cons, List.map_cons, h a List.mem_cons_self,
        ih (fun a' ha' => h a' (List.mem_cons_of_mem a ha')) (Nat.succ.inj hlength)]

/-- The tables of a dump are declared in order. -/
theorem declared_text (h : dump.Quiet settings.maxDepth) :
    Schema.declared settings (String.ofList dump.text) =
      (dump.under settings.arrayFilter).builtSchema := by
  have hheader := mutes_of_mem (by simp [headProbes] : openerProbe ∈ headProbes)
  have hclosing := mutes_of_mem (by simp [bodyProbes] : closingProbe ∈ bodyProbes)
  have hcolumns := mutes_of_mem (by simp [bodyProbes] : columnProbe ∈ bodyProbes)
  have hindexes := mutes_of_mem (by simp [bodyProbes] : indexProbe ∈ bodyProbes)
  have hfoot := mutes_of_mem (by simp [footProbes] : tableProbe ∈ footProbes)
  obtain ⟨starts, hlength, hblocks⟩ := atSites_blocks hheader hclosing h.blocks
    (rfl : isBoundary none = true) (Nat.le_refl 0) fun before => silent_keys hfoot h.keys before
  have hall : TableBlock.all (String.ofList dump.text) =
      List.zipWith Block.asBlock dump.blocks starts := by
    unfold TableBlock.all sites
    rw [String.toList_ofList]
    exact hblocks
  have hentries : (TableBlock.all (String.ofList dump.text)).map
      (fun block => (block.name, Table.ofBlock settings block)) =
        (dump.under settings.arrayFilter).builtSchema := by
    rw [hall, map_zipWith (k := fun block : Block =>
      (block.name, (block.mapOptions (optionsUnder settings.arrayFilter)).built)) ?_ hlength]
    · rw [builtSchema, under, List.map_map]
      rfl
    · intro block hblock start
      refine Prod.ext rfl ?_
      exact ofBlock_asBlock hcolumns hindexes (h.blocks block hblock) start
  rw [Schema.declared, hentries]
  refine OrderedMap.ofEntries_of_nodup ?_
  have hkeys : OrderedMap.keys (dump.under settings.arrayFilter).builtSchema =
      dump.blocks.map Block.name := by
    simp [OrderedMap.keys, builtSchema, under, Block.mapOptions, Function.comp_def]
  rw [hkeys]
  exact h.nodup

/-! ## Foreign keys -/

theorem isBoundary_lastOf_blocks (blocks : List Block) {before : Option Char}
    (hbefore : isBoundary before = true) :
    isBoundary (lastOf before (blocks.flatMap Block.text)) = true := by
  induction blocks generalizing before with
  | nil => exact hbefore
  | cons block blocks ih =>
    have hend : "\nend\n".toList = "\nend".toList ++ ['\n'] := rfl
    rw [List.flatMap_cons, lastOf_append]
    refine ih ?_
    unfold Block.text
    rw [lastOf_append, lastOf_append, lastOf_append, hend, lastOf_append]
    exact (by decide : isBoundary (some '\n') = true)

/-- The foreign keys of a dump are declared in order. -/
theorem keys_text (h : dump.Quiet settings.maxDepth) (singular : String → String) :
    ForeignKey.all settings singular (String.ofList dump.text) =
      (dump.under settings.arrayFilter).keys.map (Key.built singular) := by
  have hheader := mutes_of_mem (by simp [headProbes] : keyProbe ∈ headProbes)
  have hbody := mutes_of_mem (by simp [bodyProbes] : keyProbe ∈ bodyProbes)
  have hfoot := mutes_of_mem (by simp [footProbes] : keyProbe ∈ footProbes)
  have hsilent := silent_blocks hheader hbody h.blocks none (dump.keys.flatMap Key.text)
  have hall : ForeignKeyStatement.all (String.ofList dump.text) =
      dump.keys.map Key.asStatement := by
    unfold ForeignKeyStatement.all
    rw [String.toList_ofList]
    show found "add_foreign_key".toList ForeignKeyStatement.read? none dump.text = _
    rw [text, found_of_silent (fun _ _ _ _ hb ha hr => fires_of_read? hb ha hr) hsilent]
    exact found_keys hfoot h.keys (isBoundary_lastOf_blocks dump.blocks rfl)
  rw [ForeignKey.all, hall, under, List.map_map, List.map_map]
  refine List.map_congr_left fun key hkey => ?_
  have hoptions := parseOptions_bareText (h.keys key hkey).options
  show ForeignKey.ofOptions singular key.fromTable key.toTable
    (parseOptions settings (String.ofList (bareText key.options))) = _
  rw [hoptions]
  rfl

/-- A dump whose strings are mute is read as what is built for it, its values as the filter leaves
them. -/
theorem read_text (h : dump.Quiet settings.maxDepth) (singular : String → String) :
    Schema.read settings singular (String.ofList dump.text) =
      (dump.under settings.arrayFilter).built singular := by
  rw [Schema.read_eq, declared_text h, keys_text h]
  rfl

/-! ## Well-formed dumps -/

theorem regular_of_mem {p : Probe} (hp : p ∈ headProbes ++ (bodyProbes ++ footProbes)) :
    p.Regular := by
  rcases List.mem_append.mp hp with hp | hp
  · simp only [headProbes, List.mem_cons, List.not_mem_nil, or_false] at hp
    rcases hp with rfl | rfl
    · exact regular_openerProbe
    · exact regular_keyProbe
  · rcases List.mem_append.mp hp with hp | hp
    · exact regular_of_mem_bodyProbes hp
    · simp only [footProbes, List.mem_cons, List.not_mem_nil, or_false] at hp
      rcases hp with rfl | rfl
      · exact regular_keyProbe
      · exact regular_tableProbe

theorem Statement.Canonical.mono {plain other : String → Prop}
    (himp : ∀ content, plain content → other content) {statement : Statement}
    (h : statement.Canonical plain depth) : statement.Canonical other depth :=
  ⟨h.subject, h.options.mono himp⟩

theorem WellFormed.quiet (h : dump.WellFormed depth) : dump.Quiet depth := by
  have hmute : ∀ probes, probes ⊆ headProbes ++ (bodyProbes ++ footProbes) →
      ∀ content, IsPlain content → MuteFor probes content :=
    fun probes hsub content hplain p hp =>
      Probe.mutes_of_isPlain (regular_of_mem (hsub hp)) hplain
  have hhead := hmute headProbes (List.subset_append_left _ _)
  have hbody := hmute bodyProbes fun p hp =>
    List.mem_append_right _ (List.mem_append_left _ hp)
  have hfoot := hmute footProbes fun p hp =>
    List.mem_append_right _ (List.mem_append_right _ hp)
  refine ⟨h.nodup, fun block hblock => ?_, fun key hkey => ?_⟩
  · have hcanonical := h.blocks block hblock
    exact ⟨hcanonical.name, hcanonical.options.mono hhead,
      fun statement hmem => (hcanonical.statements statement hmem).mono hbody⟩
  · have hcanonical := h.keys key hkey
    exact ⟨hcanonical.fromTable, hcanonical.toTable, hcanonical.options.mono hfoot⟩

theorem optionsUnder_present {plain : String → Prop} {options : Options}
    (h : CanonicalOptions plain depth options) : optionsUnder .present options = options := by
  refine map_eq_self fun option hoption => ?_
  have hvalue := Written.value_literal (h.writable hoption)
  rw [Value.value_labelled] at hvalue
  exact Prod.ext rfl hvalue

theorem Statement.mapOptions_present {plain : String → Prop} {statement : Statement}
    (h : statement.Canonical plain depth) :
    statement.mapOptions (optionsUnder .present) = statement := by
  have hoptions := optionsUnder_present h.options
  cases statement with
  | typed type name options => exact congrArg (Statement.typed type name) hoptions
  | generic name type options => exact congrArg (Statement.generic name type) hoptions
  | index columns options => exact congrArg (Statement.index columns) hoptions

theorem Block.mapOptions_present {block : Block} (h : block.Canonical header body depth) :
    block.mapOptions (optionsUnder .present) = block := by
  have hstatements : block.statements.map (Statement.mapOptions (optionsUnder .present)) =
      block.statements :=
    map_eq_self fun statement hmem => Statement.mapOptions_present (h.statements statement hmem)
  unfold Block.mapOptions
  rw [optionsUnder_present h.options, hstatements]

theorem Key.mapOptions_present {plain : String → Prop} {key : Key}
    (h : key.Canonical plain depth) : key.mapOptions (optionsUnder .present) = key := by
  unfold Key.mapOptions
  rw [optionsUnder_present h.options]

/-- The filter that keeps all items leaves a dump as it is. -/
theorem under_present (h : dump.Canonical header body foot depth) : dump.under .present = dump := by
  have hblocks : dump.blocks.map (Block.mapOptions (optionsUnder .present)) = dump.blocks :=
    map_eq_self fun block hblock => Block.mapOptions_present (h.blocks block hblock)
  have hkeys : dump.keys.map (Key.mapOptions (optionsUnder .present)) = dump.keys :=
    map_eq_self fun key hkey => Key.mapOptions_present (h.keys key hkey)
  unfold under
  rw [hblocks, hkeys]

end Dump

/-- A well-formed dump is read as what it stands for. -/
theorem Schema.read_dump {settings : Settings} (hfilter : settings.arrayFilter = .present)
    (singular : String → String) {dump : Dump} (h : dump.WellFormed settings.maxDepth) :
    Schema.read settings singular (String.ofList dump.text) = dump.reading singular := by
  rw [Dump.read_text h.quiet singular, hfilter, Dump.under_present h,
    Dump.built_eq_reading singular h]

/-- Two tables and a key between them, with values of every kind. -/
def Dump.shop : Dump where
  blocks := [
    { name := "owners"
      options := [
        ("comment", .str "people [é], and others"),
        ("id", .hash [("type", .symbol "uuid"), ("default", .callable "-> \x7b uuid \x7d")])]
      statements := [
        .typed "string" "email" [("null", .keyword .false), ("limit", .numeric "255")],
        .generic "kind" "owner_kind" [("default", .array [.str "visitor", .array [.numeric "-1.5"]])],
        .index ["email", "kind"] [("unique", .keyword .true)]] },
    { name := "shops", options := [], statements := [.typed "bigint" "owner_id" []] }]
  keys := [⟨"shops", "owners", [("on_delete", .symbol "cascade")]⟩]

theorem Schema.read_shop :
    Dump.shop.WellFormed 2 ∧
      Schema.read ⟨.present, 2⟩ English.singular (String.ofList Dump.shop.text) = {
        schema := [
          ("owners", {
            options := [("comment", .str "people [é], and others")]
            fields := [
              ⟨"id", "uuid", false,
                some (.callable "-> \x7b uuid \x7d"), some "AUTO_INCREMENT", []⟩,
              ⟨"kind", "owner_kind", true,
                some (.array [.str "visitor", .array [.numeric "-1.5"]]), none, []⟩,
              ⟨"email", "string", false, none, none, [("limit", .numeric "255")]⟩]
            indexes := [
              ⟨["id"], true, some "PRIMARY_KEY", []⟩,
              ⟨["email", "kind"], true, none, []⟩]
            foreignKeys := [] }),
          ("shops", {
            options := []
            fields := [
              ⟨"id", "primary_key", false, none, some "AUTO_INCREMENT", []⟩,
              ⟨"owner_id", "bigint", true, none, none, []⟩]
            indexes := [⟨["id"], true, some "PRIMARY_KEY", []⟩]
            foreignKeys := [
              ⟨"shops", "owners", "owner_id", "id", none, [("on_delete", .symbol "cascade")]⟩] })]
        diagnostics := [] } := by
  have h : Dump.shop.WellFormed 2 := by decide +kernel
  exact ⟨h, (@Schema.read_dump ⟨.present, 2⟩ rfl English.singular Dump.shop h).trans rfl⟩

end RailsSchema
