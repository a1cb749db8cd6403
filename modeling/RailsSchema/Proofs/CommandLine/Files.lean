import RailsSchema.CommandLine.Files

/-!
# Reading and writing files

When a text can be read or written, and what a tree is after it has been written. The place that is
written is none that a path leads through, so every path leads where it did before
(`FileSystem.locate_put`): the text is found where it was written, and nothing else has changed
(`FileSystem.Replaced.of_write`).
-/

namespace RailsSchema.CommandLine.FileSystem

variable {files after : FileSystem} {path text : String} {place here other : List String}

/-- Whether a path leads to a file that holds a text. -/
def Holds (files : FileSystem) (path text : String) : Prop :=
  ∃ place contents, files.locate path = .ok place ∧ files.node? place = some (.file contents) ∧
    String.fromUTF8? contents = some text

theorem read_eq_ok_iff : files.read path = .ok text ↔ files.Holds path text := by
  unfold read Holds
  cases hlocate : files.locate path with
  | error error => simp [bind, Except.bind]
  | ok place =>
    simp only [bind, Except.bind, Except.ok.injEq]
    cases hnode : files.node? place with
    | none => simp [hnode]
    | some node =>
      cases node with
      | directory => simp [hnode]
      | file contents =>
        cases htext : String.fromUTF8? contents <;> simp [hnode, htext]

theorem Holds.unique {other : String} (h : files.Holds path text) (hother : files.Holds path other) :
    other = text := by
  have hread := read_eq_ok_iff.mpr h
  rw [read_eq_ok_iff.mpr hother] at hread
  cases hread
  rfl

/-- Whether a file can be made or replaced at a path: all names but the last lead to directories, and
the last does not. -/
def Writable (files : FileSystem) (path : String) : Prop :=
  ∃ place, files.locateForWriting path = .ok place ∧ files.node? place ≠ some .directory

/-- The tree in which something stands at a place, whatever stood there before. -/
def put (files : FileSystem) (place : List String) (node : Node) : FileSystem :=
  { files with nodes := files.nodes.insert (join place) node }

theorem write_eq_ok_iff : files.write path text = .ok after ↔
    ∃ place, files.locateForWriting path = .ok place ∧ files.node? place ≠ some .directory ∧
      after = files.put place (.file text.toUTF8) := by
  unfold write
  cases hlocate : files.locateForWriting path with
  | error error => simp [bind, Except.bind]
  | ok place =>
    simp only [bind, Except.bind, Except.ok.injEq, exists_eq_left']
    cases hnode : files.node? place with
    | none => simp [put, eq_comm]
    | some node => cases node <;> simp [put, eq_comm]

theorem exists_write_iff : (∃ after, files.write path text = .ok after) ↔ files.Writable path := by
  constructor
  · rintro ⟨after, hwrite⟩
    obtain ⟨place, hplace, hnode, -⟩ := write_eq_ok_iff.mp hwrite
    exact ⟨place, hplace, hnode⟩
  · rintro ⟨place, hplace, hnode⟩
    exact ⟨_, write_eq_ok_iff.mpr ⟨place, hplace, hnode, rfl⟩⟩

/-! ## What stands where -/

variable {node : Node}

theorem node?_put_of_ne (hne : join other ≠ join place) :
    (files.put place node).node? other = files.node? other := by
  unfold node? put
  rw [OrderedMap.get?_insert, if_neg hne.symm]

/-- Directories stay, if none is replaced. -/
theorem node?_put_of_directory (hplace : files.node? place ≠ some .directory)
    (hother : files.node? other = some .directory) :
    (files.put place node).node? other = some .directory := by
  by_cases hjoin : join other = join place
  · unfold node? at hplace hother ⊢
    by_cases hprefix : other.isPrefixOf files.workingDirectory
    · exact if_pos hprefix
    · rw [if_neg hprefix, hjoin] at hother
      split at hplace
      · exact absurd rfl hplace
      · exact absurd hother hplace
  · rw [node?_put_of_ne hjoin, hother]

theorem node?_put_self (hplace : files.node? place ≠ some .directory) :
    (files.put place node).node? place = some node := by
  unfold node? at hplace ⊢
  split at hplace
  · exact absurd rfl hplace
  · next hprefix =>
    unfold put
    rw [if_neg hprefix, OrderedMap.get?_insert, if_pos rfl]

/-! ## Where paths lead -/

theorem directory_of_enter {segment : String} (h : files.enter here segment = .ok place) :
    files.node? here = some .directory := by
  unfold enter at h
  split at h
  · cases h
  · cases h
  · next hnode => exact hnode

theorem enter_put (hplace : files.node? place ≠ some .directory) {segment : String}
    (h : files.enter here segment = .ok other) :
    (files.put place node).enter here segment = .ok other := by
  have hhere := directory_of_enter h
  unfold enter at h ⊢
  rw [hhere] at h
  rw [node?_put_of_directory hplace hhere]
  exact h

theorem foldlM_enter_put (hplace : files.node? place ≠ some .directory) {names : List String}
    (h : names.foldlM files.enter here = .ok other) :
    names.foldlM (files.put place node).enter here = .ok other := by
  induction names generalizing here with
  | nil => exact h
  | cons name names ih =>
    rw [List.foldlM_cons] at h ⊢
    cases henter : files.enter here name with
    | error error =>
      rw [henter] at h
      cases h
    | ok next =>
      rw [henter] at h
      rw [enter_put hplace henter]
      exact ih h

/-- A path that leads anywhere leads there when a file is put where there is no directory. -/
theorem locate_put (hplace : files.node? place ≠ some .directory)
    (h : files.locate path = .ok other) : (files.put place node).locate path = .ok other := by
  unfold locate follow at h ⊢
  split at h
  · cases h
  · next hnonempty =>
    rw [if_neg hnonempty]
    split at h
    · cases h
    · next hshort =>
      rw [if_neg hshort]
      exact foldlM_enter_put hplace h

theorem locate_of_locateForWriting (h : files.locateForWriting path = .ok place) :
    files.locate path = .ok place := by
  unfold locateForWriting at h
  split at h
  · exact h
  · next before _ =>
    cases hparent : files.follow path before with
    | error error =>
      rw [hparent] at h
      cases h
    | ok parent =>
      rw [hparent] at h
      change (files.enter parent "." >>= fun _ => .error .isDirectory) = .ok place at h
      cases henter : files.enter parent "." <;> rw [henter] at h <;> cases h

/-! ## Writing -/

theorem fromUTF8?_toUTF8 (text : String) : String.fromUTF8? text.toUTF8 = some text := by
  unfold String.fromUTF8?
  split
  · rfl
  · next hinvalid => exact absurd text.isValidUTF8 hinvalid

/-- Whether a tree is another one but for the file at a path, which holds a text. -/
structure Replaced (files : FileSystem) (path text : String) (after : FileSystem) : Prop where
  holds : after.Holds path text
  workingDirectory : after.workingDirectory = files.workingDirectory
  others : ∃ place, files.locateForWriting path = .ok place ∧
    ∀ other, join other ≠ join place → after.node? other = files.node? other

/-- What is written is found at its path, and nothing else has changed. -/
theorem Replaced.of_write (h : files.write path text = .ok after) :
    files.Replaced path text after := by
  obtain ⟨place, hlocate, hplace, rfl⟩ := write_eq_ok_iff.mp h
  have hthere : (files.put place (.file text.toUTF8)).locate path = .ok place :=
    locate_put hplace (locate_of_locateForWriting hlocate)
  refine ⟨?_, rfl, place, hlocate, fun other hne => node?_put_of_ne hne⟩
  exact ⟨place, text.toUTF8, hthere, node?_put_self hplace, fromUTF8?_toUTF8 text⟩

end RailsSchema.CommandLine.FileSystem
