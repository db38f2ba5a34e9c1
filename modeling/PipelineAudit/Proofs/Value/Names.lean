import PipelineAudit.Proofs.Workflow.Writable
import PipelineAudit.Proofs.Yaml.Duplicates

/-!
# Texts as keys

A mapping holds under a text what the first entry with that key has. Writing pairs one after another
puts no text twice as a key (`Value.nodup_names_entriesOf`), and then a mapping holds the values of
all its entries under their names (`Value.get?_of_mem`).
-/

namespace PipelineAudit.Value

variable {es : List (Value × Value)} {key v w : Value} {name : String} {e : Value × Value}

/-- The text that a value is, if it is one. -/
def str? : Value → Option String
  | .str s => some s
  | _ => none

/-- The texts that stand as keys, in order. -/
def names (es : List (Value × Value)) : List String := (es.map Prod.fst).filterMap str?

/-- A key is a text. -/
lemma str?_eq_some_iff : key.str? = some name ↔ key = .str name := by
  cases key <;> simp [str?]

/-- An entry has a name if its key is this text. -/
lemma hasName_iff : hasName name e = true ↔ e.1 = .str name := by
  obtain ⟨k, v⟩ := e
  cases k <;> simp [hasName]

/-- Only a text is the same key as that text. -/
lemma eq_str_of_sameKey (h : key.sameKey (.str name) = true) : key = .str name :=
  hasName_iff.mp ((sameKey_str name (key, null)).symm.trans h)

/-- A name is among those of entries if one of them has it. -/
lemma mem_names : name ∈ names es ↔ ∃ v, (.str name, v) ∈ es := by
  simp only [names, List.mem_filterMap, str?_eq_some_iff, exists_eq_right,
    List.mem_map, Prod.exists]
  exact ⟨fun ⟨k, v, he, hk⟩ => ⟨v, hk ▸ he⟩, fun ⟨v, he⟩ => ⟨_, v, he, rfl⟩⟩

/-- What a mapping holds under a text is the value of an entry with that text as its key. -/
lemma mem_of_get? (h : (map es).get? name = some v) : (.str name, v) ∈ es := by
  obtain ⟨⟨k, v⟩, hfind, rfl⟩ := Option.map_eq_some_iff.mp h
  obtain rfl : k = .str name := hasName_iff.mp (List.find?_some hfind)
  exact List.mem_of_find?_eq_some hfind

/-- What is found under a text is the value of an entry with that text as its key. -/
lemma mem_of_lookup (h : lookup es (.str name) = some v) : (.str name, v) ∈ es := by
  induction es with
  | nil => cases h
  | cons e rest ih =>
      obtain ⟨k, w⟩ := e
      rw [lookup] at h
      split_ifs at h with hsame
      · cases h
        obtain rfl := eq_str_of_sameKey hsame
        exact List.mem_cons_self
      · exact List.mem_cons_of_mem _ (ih h)

/-- Where no text stands twice as a key, a mapping holds the values of its entries. -/
lemma get?_of_mem (hnodup : (names es).Nodup) (h : (.str name, v) ∈ es) :
    (map es).get? name = some v := by
  rw [get?, entries]
  induction es with
  | nil => cases h
  | cons e rest ih =>
      rcases List.mem_cons.mp h with rfl | hrest
      · rw [List.find?_cons_of_pos (hasName_iff.mpr rfl)]
        rfl
      · have hne : ¬hasName name e = true := fun hname => by
          obtain ⟨k, w⟩ := e
          obtain rfl : k = .str name := hasName_iff.mp hname
          exact (List.nodup_cons.mp hnodup).1 (mem_names.mpr ⟨v, hrest⟩)
        rw [List.find?_cons_of_neg hne]
        exact ih (hnodup.sublist (((List.sublist_cons_self e rest).map Prod.fst).filterMap str?))
          hrest

/-- Under a text, writing an entry puts the value there. -/
lemma mem_insertEntry_str (h : e ∈ insertEntry es (.str name) v) : e ∈ es ∨ e = (.str name, v) := by
  rcases mem_insertEntry_cases h with h | ⟨rfl, hkey | ⟨hkey, -⟩⟩
  · exact Or.inl h
  · exact Or.inr (Prod.ext hkey rfl)
  · exact Or.inr (Prod.ext (eq_str_of_sameKey hkey) rfl)

/-- Writing an entry puts no text twice as a key. -/
lemma nodup_names_insertEntry (h : (names es).Nodup) (key v : Value) :
    (names (insertEntry es key v)).Nodup := by
  by_cases hold : ∃ e ∈ es, e.1.sameKey key = true
  · obtain ⟨e, he, hsame⟩ := hold
    rwa [names, map_fst_insertEntry_of_mem he hsame]
  · have hnew : ∀ e ∈ es, e.1.sameKey key = false := by simpa using hold
    rw [insertEntry_eq_append hnew, names, List.map_append, List.filterMap_append]
    cases hkey : key.str? with
    | none =>
        have hnone : ([(key, v)].map Prod.fst).filterMap str? = [] := by simp [hkey]
        rwa [hnone, List.append_nil]
    | some name =>
        obtain rfl := str?_eq_some_iff.mp hkey
        have hfresh : name ∉ names es := fun hmem => by
          obtain ⟨w, hw⟩ := mem_names.mp hmem
          have hsame := hnew _ hw
          rw [sameKey_str_str, beq_self_eq_true] at hsame
          cases hsame
        exact List.nodup_append_comm.mp (List.nodup_cons.mpr ⟨hfresh, h⟩)

/-- Pairs that are written one after another put no text twice as a key. -/
lemma nodup_names_entriesOf (pairs : List (Value × Value)) : (names (entriesOf pairs)).Nodup := by
  have hfold : ∀ es : List (Value × Value), (names es).Nodup →
      (names (pairs.foldl (fun es p => insertEntry es p.1 p.2) es)).Nodup := by
    induction pairs with
    | nil => exact fun es h => h
    | cons p rest ih => exact fun es h => ih _ (nodup_names_insertEntry h p.1 p.2)
  exact hfold [] List.nodup_nil

end PipelineAudit.Value
