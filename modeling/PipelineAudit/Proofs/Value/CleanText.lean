import Mathlib.Algebra.GroupWithZero.Nat
import PipelineAudit.Proofs.Value.Clean

/-!
# The texts of clean values

Cleaning a value makes its text shorter, unless it changes nothing (`Value.clean_eq_or_display_lt`).
So the text of a value that has position entries is never that of the clean value, and whether a
text that was made from a value shows positions can be told by comparing the two
(`Value.display_clean_eq_iff`).
-/

namespace PipelineAudit

/-! ## Lists that get lighter -/

/-- If every item is kept as it is or made lighter, then so is the list. An item that is left out is
made lighter as well, by its whole weight. -/
lemma filterMap_eq_or_sum_lt {α : Type} {change : α → Option α} {weight : α → Nat} {items : List α}
    (h : ∀ a ∈ items, change a = some a ∨ ((change a).map weight).getD 0 < weight a) :
    items.filterMap change = items ∨
      ((items.filterMap change).map weight).sum < (items.map weight).sum := by
  induction items with
  | nil => exact Or.inl rfl
  | cons a rest ih =>
      obtain ⟨hfirst, hrest⟩ := List.forall_mem_cons.mp h
      rw [List.map_cons, List.sum_cons]
      rcases hfirst with hkept | hlighter
      · rw [List.filterMap_cons_some hkept]
        refine (ih hrest).imp (congrArg (a :: ·)) fun hlt => ?_
        rw [List.map_cons, List.sum_cons]
        omega
      · have hle : ((rest.filterMap change).map weight).sum ≤ (rest.map weight).sum := by
          rcases ih hrest with heq | hlt
          · exact Nat.le_of_eq (by rw [heq])
          · exact Nat.le_of_lt hlt
        refine Or.inr ?_
        cases hchange : change a with
        | none =>
            rw [hchange, Option.map_none, Option.getD_none] at hlighter
            rw [List.filterMap_cons_none hchange]
            omega
        | some a' =>
            rw [hchange, Option.map_some, Option.getD_some] at hlighter
            rw [List.filterMap_cons_some hchange, List.map_cons, List.sum_cons]
            omega

/-- If every item is kept as it is or made lighter, then so is the list. -/
lemma map_eq_or_sum_lt {α : Type} {change : α → α} {weight : α → Nat} {items : List α}
    (h : ∀ a ∈ items, change a = a ∨ weight (change a) < weight a) :
    items.map change = items ∨ ((items.map change).map weight).sum < (items.map weight).sum := by
  rw [← List.filterMap_eq_map]
  exact filterMap_eq_or_sum_lt fun a ha => (h a ha).imp_left (congrArg some)

namespace Text

/-- The room that texts take when they are joined, with a separator after each of them. -/
def room (sep : String) (parts : List String) : Nat :=
  (parts.map fun t => t.length + sep.length).sum

/-- The room for pieces is that of their lengths, each with a separator. -/
lemma room_map {α : Type} (sep : String) (f : α → String) (items : List α) :
    room sep (items.map f) = (items.map fun a => (f a).length + sep.length).sum := by
  rw [room, List.map_map]
  rfl

/-- Pieces that are joined take their room, but for one separator. -/
lemma length_join_add (sep : String) {parts : List String} (h : parts ≠ []) :
    (join sep parts).length + sep.length = room sep parts := by
  unfold join room
  induction parts with
  | nil => exact absurd rfl h
  | cons t rest ih =>
      cases rest with
      | nil => simp [String.intercalate_singleton]
      | cons u rest =>
          have hrest := ih (List.cons_ne_nil u rest)
          rw [String.intercalate_cons_cons, String.length_append, String.length_append,
            List.map_cons, List.sum_cons, ← hrest]
          omega

/-- Texts that take less room are shorter when joined. -/
lemma length_join_lt {sep : String} {parts others : List String}
    (hroom : room sep others < room sep parts)
    (hlong : others = [] → 0 < (join sep parts).length) :
    (join sep others).length < (join sep parts).length := by
  have hparts : parts ≠ [] := by
    rintro rfl
    exact Nat.not_lt_zero _ hroom
  have hlength := length_join_add sep hparts
  by_cases hothers : others = []
  · rw [hothers]
    exact hlong hothers
  · have hlength' := length_join_add sep hothers
    omega

/-- Joined texts start with the first of them. -/
lemma exists_toList_join_cons (sep t : String) (rest : List String) :
    ∃ later, (join sep (t :: rest)).toList = t.toList ++ later := by
  unfold join
  cases rest with
  | nil => exact ⟨[], by rw [String.intercalate_singleton, List.append_nil]⟩
  | cons u rest =>
      refine ⟨sep.toList ++ (sep.intercalate (u :: rest)).toList, ?_⟩
      rw [String.intercalate_cons_cons, String.toList_append, String.toList_append,
        List.append_assoc]

/-- A text that starts and ends with other characters than blanks has nothing to trim. -/
lemma trim_of_ends {s : String} {first last : Char} {middle : List Char}
    (h : s.toList = first :: (middle ++ [last])) (hfirst : isBlank first = false)
    (hlast : isBlank last = false) : trim s = s := by
  have hleft : trimLeft s.toList = s.toList := by
    rw [h, trimLeft, List.dropWhile_cons_of_neg (by simp [hfirst])]
  have hright : trimRight s.toList = s.toList := by
    have hreverse : s.toList.reverse = last :: (middle.reverse ++ [first]) := by simp [h]
    rw [trimRight, hreverse, List.dropWhile_cons_of_neg (by simp [hlast]), ← hreverse,
      List.reverse_reverse]
  rw [trim, trimChars, hleft, hright, String.ofList_toList]

end Text

namespace Value

/-! ## Shorter texts -/

/-- The inner texts of items, one by one. -/
lemma innerItems_eq_map (items : List Value) : innerItems items = items.map inner := by
  induction items with
  | nil => rfl
  | cons v rest ih => rw [innerItems, ih, List.map_cons]

/-- The inner texts of entries, one by one. -/
lemma innerEntries_eq_map (es : List (Value × Value)) : innerEntries es = es.map innerEntry := by
  induction es with
  | nil => rfl
  | cons e rest ih => rw [innerEntries, ih, List.map_cons]

/-- Clean entries are those whose key is no position key, with clean values. -/
lemma cleanEntries_eq_filterMap (es : List (Value × Value)) :
    cleanEntries es = es.filterMap fun e =>
      if e.1.isPositionKey then none else some (e.1, e.2.clean) := by
  induction es with
  | nil => rfl
  | cons e rest ih =>
      obtain ⟨k, v⟩ := e
      rw [cleanEntries, ih, List.filterMap_cons]
      split_ifs <;> rfl

/-- The inner text of an entry is that of its key and of its value, with two characters between. -/
lemma length_innerEntry (e : Value × Value) :
    (innerEntry e).length = e.1.inner.length + 2 + e.2.inner.length := by
  obtain ⟨k, v⟩ := e
  rw [innerEntry, String.length_append, String.length_append]
  rfl

/-- The entries of a mapping take no less than a character. -/
lemma length_join_innerEntries_pos {es : List (Value × Value)} (h : es ≠ []) :
    0 < (Text.join ", " (innerEntries es)).length := by
  cases es with
  | nil => exact absurd rfl h
  | cons e rest =>
      have hsome : innerEntries (e :: rest) ≠ [] := List.cons_ne_nil _ _
      have hlength := Text.length_join_add ", " hsome
      rw [innerEntries, Text.room, List.map_cons, List.sum_cons, length_innerEntry] at hlength
      rw [innerEntries]
      omega

/-- **Cleaning changes nothing, or makes a value shorter** where it stands inside another. -/
lemma clean_eq_or_inner_lt (v : Value) : v.clean = v ∨ v.clean.inner.length < v.inner.length := by
  induction v using induction_parts with
  | leaf v hleaf => exact Or.inl (clean_of_isLeaf hleaf)
  | pair k v hk hv => exact Or.inl rfl
  | seq items ih =>
      rw [clean_seq]
      have hitems := @map_eq_or_sum_lt _ clean (fun v => v.inner.length + 2) items fun v hv =>
        (ih v hv).imp_right fun hlt => Nat.add_lt_add_right hlt 2
      refine hitems.imp (congrArg seq) fun hlt => ?_
      have hroom : Text.room ", " (innerItems (items.map clean)) <
          Text.room ", " (innerItems items) := by
        rw [innerItems_eq_map, innerItems_eq_map, Text.room_map, Text.room_map]
        exact hlt
      have hjoin := Text.length_join_lt hroom fun hnone => by
        obtain rfl : items = [] := by simpa [innerItems_eq_map] using hnone
        exact absurd hlt (Nat.lt_irrefl _)
      rw [inner, inner, String.length_append, String.length_append, String.length_append,
        String.length_append]
      omega
  | map es ih =>
      rw [clean]
      have hentries := @filterMap_eq_or_sum_lt _
        (fun e : Value × Value => if e.1.isPositionKey then none else some (e.1, e.2.clean))
        (fun e => (innerEntry e).length + 2) es fun e he => by
          split_ifs with hkey
          · exact Or.inr (Nat.succ_pos _)
          · refine (ih e he).2.imp (fun heq => by rw [heq]) fun hlt => ?_
            rw [Option.map_some, Option.getD_some, length_innerEntry, length_innerEntry]
            dsimp only
            omega
      rw [← cleanEntries_eq_filterMap] at hentries
      refine hentries.imp (congrArg map) fun hlt => ?_
      have hroom : Text.room ", " (innerEntries (cleanEntries es)) <
          Text.room ", " (innerEntries es) := by
        rw [innerEntries_eq_map, innerEntries_eq_map, Text.room_map, Text.room_map]
        exact hlt
      have hjoin := Text.length_join_lt hroom fun _ => length_join_innerEntries_pos (by
        rintro rfl
        exact Nat.lt_irrefl _ hlt)
      rw [inner, inner, String.length_append, String.length_append, String.length_append,
        String.length_append]
      omega

/-! ## Values that can be cleaned -/

/-- Cleaning leaves a list as it is exactly if it leaves its items. -/
lemma map_clean_eq_self_iff {values : List Value} :
    values.map clean = values ↔ ∀ v ∈ values, v.clean = v :=
  ⟨fun h => List.map_inj_left.mp (h.trans (List.map_id values).symm),
    fun h => (List.map_congr_left h).trans (List.map_id values)⟩

variable {v : Value}

/-- A value is a list or a mapping. -/
def isCollection : Value → Bool
  | seq _ | map _ => true
  | _ => false

/-- Only collections have something to clean. -/
lemma isCollection_of_clean_ne (h : v.clean ≠ v) : v.isCollection = true := by
  cases v with
  | seq items => rfl
  | map es => rfl
  | _ => exact absurd rfl h

/-- Cleaning keeps what is a collection. -/
@[simp] lemma isCollection_clean (v : Value) : v.clean.isCollection = v.isCollection := by
  cases v <;> rfl

/-- A collection shows its inner text. -/
lemma display_of_isCollection (h : v.isCollection = true) : v.display = v.inner := by
  cases v with
  | seq items => rfl
  | map es => rfl
  | _ => cases h

/-- Where there is something to clean, there is something. -/
lemma truthy_of_clean_ne (h : v.clean ≠ v) : v.truthy = true := by
  cases v with
  | seq items =>
      cases items with
      | nil => exact absurd rfl h
      | cons item rest => rfl
  | map es =>
      cases es with
      | nil => exact absurd rfl h
      | cons e rest => rfl
  | _ => exact absurd rfl h

/-- **Cleaning changes nothing, or makes the text of a value shorter.** -/
lemma clean_eq_or_display_lt (v : Value) :
    v.clean = v ∨ v.clean.display.length < v.display.length := by
  by_cases hclean : v.clean = v
  · exact Or.inl hclean
  · have hcollection := isCollection_of_clean_ne hclean
    rw [display_of_isCollection hcollection, display_of_isCollection (by simpa using hcollection)]
    exact clean_eq_or_inner_lt v

/-- The text of a value is that of the clean value only if there is nothing to clean. -/
lemma display_clean_eq_iff : v.clean.display = v.display ↔ v.clean = v := by
  refine ⟨fun h => ?_, fun h => by rw [h]⟩
  rcases clean_eq_or_display_lt v with hclean | hlt
  · exact hclean
  · rw [h] at hlt
    exact absurd hlt (Nat.lt_irrefl _)

/-- The text of a collection stands in brackets. -/
lemma exists_brackets (h : v.isCollection = true) : ∃ first middle last,
    v.display.toList = first :: (middle ++ [last]) ∧ (first = '[' ∨ first = '\x7b') ∧
      Text.isBlank first = false ∧ Text.isBlank last = false := by
  cases v with
  | seq items =>
      refine ⟨'[', (Text.join ", " (innerItems items)).toList, ']', ?_,
        Or.inl rfl, by decide, by decide⟩
      rw [display_of_isCollection h, inner, String.toList_append, String.toList_append]
      rfl
  | map es =>
      refine ⟨'\x7b', (Text.join ", " (innerEntries es)).toList, '\x7d', ?_,
        Or.inr rfl, by decide, by decide⟩
      rw [display_of_isCollection h, inner, String.toList_append, String.toList_append]
      rfl
  | _ => cases h

/-- There is nothing to trim from the text of a collection. -/
lemma trim_display (h : v.isCollection = true) : Text.trim v.display = v.display := by
  obtain ⟨first, middle, last, hends, -, hfirst, hlast⟩ := exists_brackets h
  exact Text.trim_of_ends hends hfirst hlast

/-- The text of a value that is not null is that of the clean value only if there is nothing to
clean. -/
lemma text?_clean_eq_iff : v.clean.text? = v.text? ↔ v.clean = v := by
  refine ⟨fun h => ?_, fun h => by rw [h]⟩
  by_contra hclean
  have htext : ∀ {w : Value}, w.isCollection = true → w.text? = some w.display := by
    intro w hw
    cases w with
    | null => cases hw
    | _ => rfl
  have hcollection := isCollection_of_clean_ne hclean
  rw [htext hcollection, htext (by simpa using hcollection)] at h
  exact hclean (display_clean_eq_iff.mp (Option.some.inj h))

/-- The condition that a value stands for is that of the clean value only if there is nothing to
clean. -/
lemma condition?_clean_eq_iff : v.clean.condition? = v.condition? ↔ v.clean = v := by
  refine ⟨fun h => ?_, fun h => by rw [h]⟩
  by_contra hclean
  have hcondition : ∀ {w : Value}, w.isCollection = true → w.condition? = some w.display := by
    intro w hw
    have htrim : w.condition? = nonEmpty? (Text.trim w.display) := by
      cases w with
      | seq items => rfl
      | map es => rfl
      | _ => cases hw
    obtain ⟨first, middle, last, hends, -⟩ := exists_brackets hw
    have hne : w.display ≠ "" := by
      intro hempty
      rw [hempty] at hends
      cases hends
    rw [htrim, trim_display hw, nonEmpty?]
    simp [hne]
  have hcollection := isCollection_of_clean_ne hclean
  rw [hcondition hcollection, hcondition (by simpa using hcollection)] at h
  exact hclean (display_clean_eq_iff.mp (Option.some.inj h))

end Value

end PipelineAudit
