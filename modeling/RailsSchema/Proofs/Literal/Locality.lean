import RailsSchema.Proofs.Literal.Lists
import RailsSchema.Proofs.Literal.Spelling

/-!
# What is read does not depend on what follows

Whatever is read off the front of a text is read again when other text follows it, as long as no
token that was at its end goes on there (`Literal.CanReplace`). Readers of literals and of entries
are local in this sense (`Literal.isLocal_reader`, `Literal.isLocal_entryReader`), and so are lists
of what a local reader reads: a text has a front that is read as all its items, whatever comes
behind (`Reader.IsLocal.exists_reads`).

* `Reader.IsLocal.listing_append`: a text that is read to its end and text behind it are read one
  after the other;
* `Reader.IsLocal.exists_cut`: a text that is not read to its end has a place up to which it is
  read, and from which on it is not;
* `Reader.IsLocal.items_append_blanks`: white space at the end adds no item and takes none away.
-/

namespace RailsSchema

open Text

namespace Literal

/-- Whether a text can stand behind a literal in the place of `rest`: it begins with the same
character, or with none that a token could go on with. -/
def CanReplace (rest' rest : List Char) : Prop :=
  Stops isTokenChar rest' ∨ rest'.head? = rest.head?

theorem CanReplace.append_left {more behind : List Char} (h : CanReplace more behind)
    (front : List Char) : CanReplace (front ++ more) (front ++ behind) := by
  cases front with
  | nil => exact h
  | cons c front => exact .inr rfl

theorem stops_isTokenChar_of_blanks {blanks : List Char} (h : ∀ c ∈ blanks, isBlank c = true) :
    Stops isTokenChar blanks := by
  intro c hc
  have hblank := h c (List.mem_of_mem_head? hc)
  rw [Bool.eq_false_iff]
  intro htoken
  rw [isBlank_of_isTokenChar htoken] at hblank
  cases hblank

/-- More text may stand behind a text that is not empty, and any text that begins with no token
character behind any other. -/
theorem canReplace_append {rest more : List Char} (h : rest ≠ [] ∨ Stops isTokenChar more) :
    CanReplace (rest ++ more) rest := by
  cases rest with
  | nil => exact .inl (h.resolve_left fun hne => hne rfl)
  | cons c rest => exact .inr rfl

theorem canReplace_append_blanks {blanks : List Char} (h : ∀ c ∈ blanks, isBlank c = true)
    (rest : List Char) : CanReplace (rest ++ blanks) rest :=
  canReplace_append (.inr (stops_isTokenChar_of_blanks h))

end Literal

open Literal

namespace Reader

variable {α : Type} {reader : Reader α} {cutAt : List Char → Cut}

/-- Whether a reader reads the same value again whatever stands behind it, and no white space at its
end. -/
structure IsLocal (reader : Reader α) : Prop where
  exists_taken : ∀ {cs rest : List Char} {a : α}, reader.run cs = some (a, rest) →
    ∃ taken, cs = taken ++ rest ∧ EndsSolid taken ∧
      ∀ rest', CanReplace rest' rest → reader.run (taken ++ rest') = some (a, rest')

/-- Whether a text is read as some items whatever stands behind it in the place of `behind`. -/
def Reads (reader : Reader α) (cutAt : List Char → Cut) (front behind : List Char)
    (items : List α) : Prop :=
  ∀ more, CanReplace more behind → reader.listing cutAt (front ++ more) =
    ⟨items ++ (reader.listing cutAt more).items, (reader.listing cutAt more).cut⟩

theorem reads_separators {separators : List Char} (h : ∀ c ∈ separators, isSeparator c = true)
    (behind : List Char) : reader.Reads cutAt separators behind [] := by
  intro more _
  exact listing_congr (List.dropWhile_append_of_pos h)

/-- One more item in front. -/
theorem Reads.cons {separators taken front behind : List Char} {a : α} {items : List α}
    (h : reader.Reads cutAt front behind items)
    (hseparators : ∀ c ∈ separators, isSeparator c = true) (hne : taken ≠ [])
    (hstop : Stops isSeparator taken)
    (hrun : ∀ rest, CanReplace rest (front ++ behind) →
      reader.run (taken ++ rest) = some (a, rest)) :
    reader.Reads cutAt (separators ++ (taken ++ front)) behind (a :: items) := by
  intro more hmore
  have hread := hrun (front ++ more) (hmore.append_left front)
  rw [List.append_assoc, List.append_assoc]
  cases taken with
  | nil => exact absurd rfl hne
  | cons c taken =>
    have hstart : Stops isSeparator (c :: taken ++ (front ++ more)) := hstop
    have hdrop := dropWhile_append_of_stops hseparators hstart
    rw [listing_cons hdrop hread, h more hmore]
    rfl

/-- All that is read of a text is read off its front, whatever comes behind; from there on nothing
is read. -/
theorem IsLocal.exists_reads (h : reader.IsLocal) (cutAt : List Char → Cut) (cs : List Char) :
    ∃ front behind, cs = front ++ behind ∧ Stops isSeparator behind ∧
      reader.listing cutAt behind = ⟨[], (reader.listing cutAt cs).cut⟩ ∧
      reader.Reads cutAt front behind (reader.listing cutAt cs).items := by
  fun_induction Reader.listing reader cutAt cs with
  | case1 cs hcs =>
    have hseparators := List.dropWhile_eq_nil_iff.mp hcs
    exact ⟨cs, [], (List.append_nil cs).symm, stops_nil _, listing_nil rfl,
      reads_separators hseparators []⟩
  | case2 cs c following hcs hrun =>
    have hstop : Stops isSeparator (c :: following) := hcs ▸ stops_dropWhile isSeparator cs
    refine ⟨cs.takeWhile isSeparator, c :: following, ?_, hstop, ?_, ?_⟩
    · rw [← hcs, List.takeWhile_append_dropWhile]
    · exact listing_cut (dropWhile_of_stops hstop) hrun
    · exact reads_separators (fun c hc => List.mem_takeWhile_imp hc) _
  | case3 cs c following hcs a rest hrun others ih =>
    obtain ⟨front, behind, rfl, hstop, hbehind, hreads⟩ := ih
    obtain ⟨taken, htaken, hsolid, hlocal⟩ := h.exists_taken hrun
    have hne : taken ≠ [] := by
      obtain ⟨start, last, rfl, -⟩ := hsolid
      simp
    refine ⟨cs.takeWhile isSeparator ++ (taken ++ front), behind, ?_, hstop, hbehind, ?_⟩
    · rw [List.append_assoc, List.append_assoc, ← htaken, ← hcs, List.takeWhile_append_dropWhile]
    · refine hreads.cons (fun c hc => List.mem_takeWhile_imp hc) hne ?_ hlocal
      have hstart : Stops isSeparator (taken ++ (front ++ behind)) := by
        rw [← htaken, ← hcs]
        exact stops_dropWhile isSeparator cs
      cases taken with
      | nil => exact absurd rfl hne
      | cons c taken => exact hstart

/-- Where nothing is read there is no text, or text that begins with what cannot be read. -/
theorem run_of_listing {cs : List Char} {cut : Option Cut} (hstop : Stops isSeparator cs)
    (h : reader.listing cutAt cs = ⟨[], cut⟩) :
    cs = [] ∧ cut = none ∨
      ∃ c following, cs = c :: following ∧ reader.run cs = none ∧ cut = some (cutAt cs) := by
  cases cs with
  | nil =>
    rw [listing_nil rfl] at h
    cases h
    exact .inl ⟨rfl, rfl⟩
  | cons c following =>
    have hdrop := dropWhile_of_stops hstop
    cases hrun : reader.run (c :: following) with
    | none =>
      rw [listing_cut hdrop hrun] at h
      cases h
      exact .inr ⟨c, following, rfl, rfl, rfl⟩
    | some found =>
      rw [listing_cons hdrop hrun] at h
      cases h

/-- A text that is read to its end, and then what follows it. -/
theorem IsLocal.listing_append (h : reader.IsLocal) {cs more : List Char}
    (hcs : (reader.listing cutAt cs).cut = none) (hmore : Stops isTokenChar more) :
    reader.listing cutAt (cs ++ more) =
      ⟨(reader.listing cutAt cs).items ++ (reader.listing cutAt more).items,
        (reader.listing cutAt more).cut⟩ := by
  obtain ⟨front, behind, hsplit, hstop, hbehind, hreads⟩ := h.exists_reads cutAt cs
  rw [hcs] at hbehind
  rcases run_of_listing hstop hbehind with ⟨rfl, -⟩ | ⟨c, following, -, -, hcut⟩
  · rw [List.append_nil] at hsplit
    rw [hsplit] at hreads ⊢
    exact hreads more (.inl hmore)
  · cases hcut

/-- The place up to which a text is read that is not read to its end, and the character that stands
there. -/
theorem IsLocal.exists_cut (h : reader.IsLocal) {cs : List Char} {cut : Cut}
    (hcs : (reader.listing cutAt cs).cut = some cut) :
    ∃ front c following, cs = front ++ c :: following ∧ cut = cutAt (c :: following) ∧
      reader.listing cutAt front = ⟨(reader.listing cutAt cs).items, none⟩ ∧
      ∀ following', reader.listing cutAt (front ++ c :: following') =
        ⟨(reader.listing cutAt cs).items ++ (reader.listing cutAt (c :: following')).items,
          (reader.listing cutAt (c :: following')).cut⟩ := by
  obtain ⟨front, behind, hsplit, hstop, hbehind, hreads⟩ := h.exists_reads cutAt cs
  rw [hcs] at hbehind
  rcases run_of_listing hstop hbehind with ⟨-, hnone⟩ | ⟨c, following, rfl, -, hcut⟩
  · cases hnone
  · refine ⟨front, c, following, hsplit, Option.some.inj hcut, ?_, fun _ => hreads _ (.inr rfl)⟩
    have hfront := hreads [] (.inl (stops_nil _))
    have hnil : reader.listing cutAt [] = ⟨[], none⟩ := listing_nil rfl
    rwa [hnil, List.append_nil, List.append_nil] at hfront

/-! ## White space at the end -/

theorem IsLocal.run_append_blanks (h : reader.IsLocal) {cs blanks : List Char}
    (hblanks : ∀ c ∈ blanks, isBlank c = true) (hcs : reader.run cs = none) :
    reader.run (cs ++ blanks) = none := by
  rw [Option.eq_none_iff_forall_not_mem]
  rintro ⟨a, rest⟩ hread
  obtain ⟨taken, htaken, hsolid, hlocal⟩ := h.exists_taken hread
  obtain ⟨rest', rfl, rfl⟩ := exists_rest_of_endsSolid hsolid hblanks htaken
  have hsome := hlocal rest' ?_
  · rw [hcs] at hsome
    cases hsome
  · cases rest' with
    | nil => exact .inl (stops_nil _)
    | cons c rest' => exact .inr rfl

/-- White space at the end of a text adds no item and takes none away, whether or not the text is
read to its end. -/
theorem IsLocal.items_append_blanks (h : reader.IsLocal) (cutAt : List Char → Cut)
    {blanks : List Char} (hblanks : ∀ c ∈ blanks, isBlank c = true) (cs : List Char) :
    (reader.listing cutAt (cs ++ blanks)).items = (reader.listing cutAt cs).items := by
  obtain ⟨front, behind, hsplit, hstop, hbehind, hreads⟩ := h.exists_reads cutAt cs
  have hnone : (reader.listing cutAt (behind ++ blanks)).items = [] := by
    cases behind with
    | nil =>
      have hdrop : blanks.dropWhile isSeparator = [] :=
        List.dropWhile_eq_nil_iff.mpr fun c hc => isSeparator_of_isBlank (hblanks c hc)
      rw [List.nil_append, listing_nil hdrop]
    | cons c behind =>
      have hdrop : (c :: behind ++ blanks).dropWhile isSeparator = c :: (behind ++ blanks) :=
        dropWhile_of_stops hstop
      rcases run_of_listing hstop hbehind with ⟨heq, -⟩ | ⟨-, -, -, hrun, -⟩
      · cases heq
      · rw [listing_cut hdrop (h.run_append_blanks hblanks hrun)]
  have hall := hreads (behind ++ blanks) (canReplace_append_blanks hblanks behind)
  rw [← List.append_assoc, ← hsplit] at hall
  rw [hall, hnone, List.append_nil]

end Reader

/-! ## Literals and entries -/

namespace Literal

theorem isLocal_reader (room : Nat) : (reader room).IsLocal := by
  constructor
  intro cs rest l h
  obtain ⟨blanks, taken, rfl, hblanks, hspells⟩ := read?_eq_some_iff.mp h
  refine ⟨blanks ++ taken, (List.append_assoc _ _ _).symm, hspells.endsSolid.append blanks, ?_⟩
  intro rest' hrest'
  rw [List.append_assoc]
  exact read?_eq_some_iff.mpr ⟨blanks, taken, rfl, hblanks, hspells.withNext hrest'⟩

theorem isLocal_entryReader {reader : Reader Literal} (h : reader.IsLocal) :
    (entryReader reader).IsLocal := by
  constructor
  intro cs rest entry hrun
  obtain ⟨key, behind, hkey, hname, hvalue⟩ := entryReader_eq_some_iff.mp hrun
  obtain ⟨taken, rfl, hsolid, hlocal⟩ := h.exists_taken hvalue
  obtain ⟨front, rfl, hspells, hstop⟩ := key?_eq_some_iff.mp hkey
  refine ⟨front ++ taken, (List.append_assoc _ _ _).symm, hsolid.append front, ?_⟩
  intro rest' hrest'
  -- the value takes a character, so what the key is followed by stays the same
  have hhead : (taken ++ rest').head? = (taken ++ rest).head? := by
    obtain ⟨start, last, rfl, -⟩ := hsolid
    cases start <;> rfl
  have hkey' : key? (front ++ (taken ++ rest')) = some (key, taken ++ rest') := by
    refine key?_eq_some_iff.mpr ⟨front, rfl, hhead ▸ hspells, ?_⟩
    unfold Stops
    rwa [hhead]
  rw [List.append_assoc]
  exact entryReader_eq_some_iff.mpr ⟨key, taken ++ rest', hkey', hname, hlocal rest' hrest'⟩

end Literal

end RailsSchema
