import RailsSchema.Value.Basic

/-!
# The values inside a value

* `Value.Each P`: the predicate `P` holds of a value and of every value nested in it;
* `Value.depth`: how deep lists and maps are nested in a value;
* `Value.nodes`: how many values there are in a value, itself counted;
* `Value.induction`: induction over values, where the hypothesis for a list or a map is about its
  members.
-/

namespace RailsSchema.Value

/-- Induction over values by their members. -/
@[elab_as_elim]
theorem induction {motive : Value → Prop}
    (str : ∀ text, motive (.str text)) (callable : ∀ source, motive (.callable source))
    (hash : ∀ entries, (∀ entry ∈ entries, motive entry.2) → motive (.hash entries))
    (array : ∀ items, (∀ item ∈ items, motive item) → motive (.array items))
    (numeric : ∀ text, motive (.numeric text)) (symbol : ∀ name, motive (.symbol name))
    (keyword : ∀ word, motive (.keyword word)) (value : Value) : motive value :=
  @Value.rec motive (fun entries => ∀ entry ∈ entries, motive entry.2)
    (fun items => ∀ item ∈ items, motive item) (fun entry => motive entry.2)
    str callable (fun entries => hash entries) (fun items => array items) numeric symbol keyword
    (by simp) (fun _ _ hentry hentries => List.forall_mem_cons.mpr ⟨hentry, hentries⟩)
    (by simp) (fun _ _ hitem hitems => List.forall_mem_cons.mpr ⟨hitem, hitems⟩)
    (fun _ _ hvalue => hvalue) value

mutual

/-- Whether a predicate holds of a value and of all values inside it. -/
def Each (P : Value → Prop) : Value → Prop
  | .hash entries => P (.hash entries) ∧ EachEntry P entries
  | .array items => P (.array items) ∧ EachItem P items
  | .str text => P (.str text)
  | .callable source => P (.callable source)
  | .numeric text => P (.numeric text)
  | .symbol name => P (.symbol name)
  | .keyword word => P (.keyword word)

/-- Whether a predicate holds of all values inside the items of a list. -/
def EachItem (P : Value → Prop) : List Value → Prop
  | [] => True
  | item :: items => Each P item ∧ EachItem P items

/-- Whether a predicate holds of all values inside the entries of a map. -/
def EachEntry (P : Value → Prop) : List (String × Value) → Prop
  | [] => True
  | (_, value) :: entries => Each P value ∧ EachEntry P entries

end

mutual

/-- How deep lists and maps are nested in a value. -/
def depth : Value → Nat
  | .hash entries => entryDepth entries + 1
  | .array items => itemDepth items + 1
  | _ => 0

/-- The greatest depth of the items of a list. -/
def itemDepth : List Value → Nat
  | [] => 0
  | item :: items => max item.depth (itemDepth items)

/-- The greatest depth of the values of a map. -/
def entryDepth : List (String × Value) → Nat
  | [] => 0
  | (_, value) :: entries => max value.depth (entryDepth entries)

end

mutual

/-- How many values there are in a value, itself counted. -/
def nodes : Value → Nat
  | .hash entries => entryNodes entries + 1
  | .array items => itemNodes items + 1
  | _ => 1

/-- How many values there are in the items of a list. -/
def itemNodes : List Value → Nat
  | [] => 0
  | item :: items => item.nodes + itemNodes items

/-- How many values there are in the values of a map. -/
def entryNodes : List (String × Value) → Nat
  | [] => 0
  | (_, value) :: entries => value.nodes + entryNodes entries

end

theorem eachItem_iff {P : Value → Prop} {items : List Value} :
    EachItem P items ↔ ∀ item ∈ items, Each P item := by
  induction items with
  | nil => simp [EachItem]
  | cons item items ih => rw [EachItem, ih, List.forall_mem_cons]

theorem eachEntry_iff {P : Value → Prop} {entries : List (String × Value)} :
    EachEntry P entries ↔ ∀ entry ∈ entries, Each P entry.2 := by
  induction entries with
  | nil => simp [EachEntry]
  | cons entry entries ih => rw [EachEntry, ih, List.forall_mem_cons]

/-- What holds everywhere inside a value holds of the value. -/
theorem Each.self {P : Value → Prop} {value : Value} (h : value.Each P) : P value := by
  cases value <;> simp only [Each] at h
  case hash => exact h.1
  case array => exact h.1
  all_goals exact h

theorem Each.imp {P Q : Value → Prop} (h : ∀ value, P value → Q value) {value : Value}
    (hvalue : value.Each P) : value.Each Q := by
  induction value using Value.induction with
  | hash entries ih =>
    refine ⟨h _ hvalue.1, eachEntry_iff.mpr fun entry hentry => ?_⟩
    exact ih entry hentry (eachEntry_iff.mp hvalue.2 entry hentry)
  | array items ih =>
    refine ⟨h _ hvalue.1, eachItem_iff.mpr fun item hitem => ?_⟩
    exact ih item hitem (eachItem_iff.mp hvalue.2 item hitem)
  | _ => exact h _ hvalue

theorem itemDepth_le_iff {items : List Value} {n : Nat} :
    itemDepth items ≤ n ↔ ∀ item ∈ items, item.depth ≤ n := by
  induction items with
  | nil => simp [itemDepth]
  | cons item items ih => rw [itemDepth, Nat.max_le, ih, List.forall_mem_cons]

theorem entryDepth_le_iff {entries : List (String × Value)} {n : Nat} :
    entryDepth entries ≤ n ↔ ∀ entry ∈ entries, entry.2.depth ≤ n := by
  induction entries with
  | nil => simp [entryDepth]
  | cons entry entries ih => rw [entryDepth, Nat.max_le, ih, List.forall_mem_cons]

/-- Where nothing is nested there is one value. -/
theorem nodes_of_depth_le_zero {value : Value} (h : value.depth ≤ 0) : value.nodes = 1 := by
  cases value with
  | hash entries => exact absurd h (Nat.not_succ_le_zero _)
  | array items => exact absurd h (Nat.not_succ_le_zero _)
  | _ => rfl

end RailsSchema.Value
