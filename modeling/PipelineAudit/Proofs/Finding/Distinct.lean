import Mathlib.Data.List.Nodup
import Mathlib.Data.List.Pairwise
import PipelineAudit.Finding.Basic
import PipelineAudit.Proofs.Value.Keys

/-!
# Findings that repeat each other

Two findings repeat each other if they say the same of the same place (`Finding.same`). Places are
compared by values that may stand for lines, and only those around which lines can be shown do
(`Value.IsLine`): on them it does not matter which is compared with the other
(`Value.sameKey_comm`), as it does on mappings in general.

Dropping repeats keeps the order (`Finding.distinct_sublist`), leaves no repeats behind
(`Finding.pairwise_distinct`), and keeps every finding that no other one repeats
(`Finding.mem_distinct_of_unique`); so nothing is dropped where nothing repeats
(`Finding.distinct_eq_self`). A choice by what findings are about can be made before or after
(`Finding.filter_distinct`).
-/

namespace PipelineAudit

/-! ## Lines -/

namespace Value

variable {v w : Value}

/-- A value may stand for a line: the lines around it can be shown, if only none of them. -/
def IsLine (v : Value) : Prop := ∃ source shown, Snippet.around source v = .ok shown

/-- Values that are no numbers and count as false. -/
def blanks : List Value := [.null, .str "", .bytes [], .seq [], .map []]

/-- A value that may stand for a line is a number or blank. -/
lemma IsLine.isNumber_or_blank (h : v.IsLine) : v.IsNumber ∨ v ∈ blanks := by
  obtain ⟨source, shown, h⟩ := h
  -- around a value of another kind no lines are shown, and it must not count as true
  have hfalsy : ∀ truthy : Bool, (if truthy then (.error .notALine : Except Source.LineFault _)
      else .ok none) = .ok shown → truthy = false := by
    rintro (_ | _) h
    · rfl
    · cases h
  cases v with
  | int n => exact Or.inl (Or.inl ⟨n, rfl⟩)
  | bool b => exact Or.inl (Or.inr (Or.inl ⟨b, rfl⟩))
  | float x => exact Or.inl (Or.inr (Or.inr ⟨x, rfl⟩))
  | null => exact Or.inr List.mem_cons_self
  | str s => exact Or.inr (by simpa [blanks, truthy] using hfalsy _ h)
  | bytes bs => exact Or.inr (by simpa [blanks, truthy] using hfalsy _ h)
  | date d => cases h
  | moment t => cases h
  | seq items => exact Or.inr (by simpa [blanks, truthy] using hfalsy _ h)
  | pair a b => cases h
  | map es => exact Or.inr (by simpa [blanks, truthy] using hfalsy _ h)

/-- No number is the same as a blank value. -/
lemma sameKey_blank (hv : v.IsNumber) (hw : w ∈ blanks) :
    v.sameKey w = false ∧ w.sameKey v = false := by
  simp only [blanks, List.mem_cons, List.not_mem_nil, or_false] at hw
  rcases hv with ⟨n, rfl⟩ | ⟨b, rfl⟩ | ⟨x, rfl⟩ <;>
    rcases hw with rfl | rfl | rfl | rfl | rfl <;> simp [sameKey, isOne, same, number?]

/-- It does not matter which of two lines is compared with the other. -/
lemma sameKey_comm (hv : v.IsLine) (hw : w.IsLine) : v.sameKey w = w.sameKey v := by
  rcases hv.isNumber_or_blank with hv | hv <;> rcases hw.isNumber_or_blank with hw | hw
  · exact Bool.eq_iff_iff.mpr ⟨sameKey_symm hv.isLeaf hw.isLeaf, sameKey_symm hw.isLeaf hv.isLeaf⟩
  · rw [(sameKey_blank hv hw).1, (sameKey_blank hv hw).2]
  · rw [(sameKey_blank hw hv).1, (sameKey_blank hw hv).2]
  · exact (by decide : ∀ v ∈ blanks, ∀ w ∈ blanks, v.sameKey w = w.sameKey v) v hv w hw

end Value

namespace Finding

/-- A finding has no location, or the line of its location may stand for one. -/
def IsPlaced (f : Finding) : Prop := ∀ l, f.location = some l → l.line.IsLine

variable {f g : Finding} {findings seen : List Finding}

/-! ## Repeats -/

/-- Every finding repeats itself. -/
lemma same_refl (f : Finding) : f.same f = true := by
  cases hl : f.location with
  | none => simp [same, sameLocation, hl]
  | some l => simp [same, sameLocation, Location.same, hl, Value.sameKey_self]

/-- Of two findings that are placed, each repeats the other or none does. -/
lemma same_comm (hf : f.IsPlaced) (hg : g.IsPlaced) : f.same g = g.same f := by
  have hlocation : sameLocation f.location g.location = sameLocation g.location f.location := by
    cases hl : f.location with
    | none => cases hm : g.location <;> rfl
    | some l =>
        cases hm : g.location with
        | none => rfl
        | some m =>
            rw [sameLocation, sameLocation, Location.same, Location.same,
              Value.sameKey_comm (hf l hl) (hg m hm), Bool.beq_comm,
              Bool.beq_comm (a := m.step.map _)]
  rw [same, same, hlocation, Bool.beq_comm, Bool.beq_comm (a := f.title)]

/-- What a finding is about: its category, its title and its place. -/
def key (f : Finding) : Category × String × Option Location := (f.category, f.title, f.location)

/-- The id is no part of what a finding is about. -/
lemma key_withId (f : Finding) (id : String) : ({ f with id := id } : Finding).key = f.key := rfl

/-- Whether findings repeat each other depends on what they are about. -/
lemma same_congr {f' g' : Finding} (hf : f.key = f'.key) (hg : g.key = g'.key) :
    f.same g = f'.same g' := by
  simp only [key, Prod.mk.injEq] at hf hg
  rw [same, same, hf.1, hf.2.1, hf.2.2, hg.1, hg.2.1, hg.2.2]

/-- Findings that repeat each other have the same title. -/
lemma title_eq_of_same (h : f.same g = true) : f.title = g.title := by
  simp only [same, Bool.and_eq_true, beq_iff_eq] at h
  exact h.1.2

/-! ## Dropping repeats -/

/-- Dropping repeats keeps the order of the others. -/
lemma distinctFrom_sublist (seen findings : List Finding) :
    (distinctFrom seen findings).Sublist findings := by
  induction findings generalizing seen with
  | nil => exact List.Sublist.slnil
  | cons f rest ih =>
      rw [distinctFrom]
      split_ifs with hseen
      · exact (ih seen).cons f
      · exact (ih (f :: seen)).cons_cons f

/-- The findings that stay repeat none that was seen. -/
lemma not_same_of_mem_distinctFrom (h : f ∈ distinctFrom seen findings) (hg : g ∈ seen) :
    g.same f = false := by
  induction findings generalizing seen with
  | nil => cases h
  | cons a rest ih =>
      rw [distinctFrom] at h
      split_ifs at h with hseen
      · exact ih h hg
      · rcases List.mem_cons.mp h with rfl | h
        · simpa using fun hsame => hseen (List.any_eq_true.mpr ⟨g, hg, hsame⟩)
        · exact ih h (List.mem_cons_of_mem a hg)

/-- Of the findings that stay, none repeats one before it. -/
lemma pairwise_distinctFrom (seen findings : List Finding) :
    (distinctFrom seen findings).Pairwise fun a b => a.same b = false := by
  induction findings generalizing seen with
  | nil => exact List.Pairwise.nil
  | cons f rest ih =>
      rw [distinctFrom]
      split_ifs with hseen
      · exact ih seen
      · exact List.pairwise_cons.mpr
          ⟨fun g hg => not_same_of_mem_distinctFrom hg List.mem_cons_self, ih (f :: seen)⟩

/-- A finding stays if it repeats none that was seen and none before it. -/
lemma mem_distinctFrom_of_forall_before {before after : List Finding}
    (hseen : ∀ g ∈ seen, g.same f = false) (hbefore : ∀ g ∈ before, g.same f = false) :
    f ∈ distinctFrom seen (before ++ f :: after) := by
  induction before generalizing seen with
  | nil =>
      have hnew : ¬(seen.any (·.same f)) = true := by simpa using hseen
      rw [List.nil_append, distinctFrom, if_neg hnew]
      exact List.mem_cons_self
  | cons a rest ih =>
      have hrest : ∀ g ∈ rest, g.same f = false := fun g hg => hbefore g (List.mem_cons_of_mem a hg)
      rw [List.cons_append, distinctFrom]
      split_ifs
      · exact ih hseen hrest
      · refine List.mem_cons_of_mem a (ih ?_ hrest)
        intro g hg
        rcases List.mem_cons.mp hg with rfl | hg
        · exact hbefore g List.mem_cons_self
        · exact hseen g hg

/-- Dropping repeats keeps the order of the others. -/
lemma distinct_sublist (findings : List Finding) : (distinct findings).Sublist findings :=
  distinctFrom_sublist [] findings

/-- After repeats are dropped, no finding repeats one before it. -/
lemma pairwise_distinct (findings : List Finding) :
    (distinct findings).Pairwise fun a b => a.same b = false :=
  pairwise_distinctFrom [] findings

/-- Where no finding repeats one that was seen or one before it, all of them stay. -/
lemma distinctFrom_eq_self (hseen : ∀ g ∈ seen, ∀ f ∈ findings, g.same f = false)
    (hpair : findings.Pairwise fun a b => a.same b = false) :
    distinctFrom seen findings = findings := by
  induction findings generalizing seen with
  | nil => rfl
  | cons f rest ih =>
      obtain ⟨hf, hrest⟩ := List.pairwise_cons.mp hpair
      have hnew : ¬(seen.any (·.same f)) = true := by
        simpa using fun g hg => hseen g hg f List.mem_cons_self
      rw [distinctFrom, if_neg hnew, ih ?_ hrest]
      intro g hg a ha
      rcases List.mem_cons.mp hg with rfl | hg
      · exact hf a ha
      · exact hseen g hg a (List.mem_cons_of_mem f ha)

/-- Where no finding repeats one before it, all of them stay. -/
lemma distinct_eq_self (hpair : findings.Pairwise fun a b => a.same b = false) :
    distinct findings = findings :=
  distinctFrom_eq_self (fun _ hg => absurd hg List.not_mem_nil) hpair

/-- A choice that does not part findings which repeat each other can be made before repeats are
dropped as well as after. -/
lemma filter_distinctFrom {p : Finding → Bool}
    (h : ∀ g ∈ seen ++ findings, ∀ f ∈ findings, g.same f = true → p g = p f) :
    (distinctFrom seen findings).filter p = distinctFrom (seen.filter p) (findings.filter p) := by
  induction findings generalizing seen with
  | nil => rfl
  | cons f rest ih =>
      have hold : ∀ g ∈ seen ++ rest, ∀ a ∈ rest, g.same a = true → p g = p a := fun g hg a ha =>
        h g (by grind) a (List.mem_cons_of_mem f ha)
      have hnew : ∀ g ∈ (f :: seen) ++ rest, ∀ a ∈ rest, g.same a = true → p g = p a :=
        fun g hg a ha =>
        h g (by grind) a (List.mem_cons_of_mem f ha)
      -- what was seen and repeats `f` is chosen if `f` is
      have hany : p f = true → (seen.filter p).any (·.same f) = seen.any (·.same f) := by
        intro hf
        rw [List.any_filter, Bool.eq_iff_iff]
        simp only [List.any_eq_true, Bool.and_eq_true]
        constructor
        · rintro ⟨g, hg, -, hsame⟩
          exact ⟨g, hg, hsame⟩
        · rintro ⟨g, hg, hsame⟩
          exact ⟨g, hg, (h g (List.mem_append_left _ hg) f List.mem_cons_self hsame).trans hf,
            hsame⟩
      rw [distinctFrom]
      cases hf : p f with
      | true =>
          rw [List.filter_cons_of_pos hf, distinctFrom, hany hf]
          split_ifs with hrepeat
          · exact ih hold
          · rw [List.filter_cons_of_pos hf, ih hnew, List.filter_cons_of_pos hf]
      | false =>
          have hneg : ¬p f = true := by simp [hf]
          rw [List.filter_cons_of_neg hneg]
          split_ifs with hrepeat
          · exact ih hold
          · rw [List.filter_cons_of_neg hneg, ih hnew, List.filter_cons_of_neg hneg]

/-- A choice that does not part findings which repeat each other can be made before repeats are
dropped as well as after. -/
lemma filter_distinct {p : Finding → Bool}
    (h : ∀ g ∈ findings, ∀ f ∈ findings, g.same f = true → p g = p f) :
    (distinct findings).filter p = distinct (findings.filter p) :=
  filter_distinctFrom h

/-- A finding stays if no other one is about the same. -/
lemma mem_distinct_of_unique (hf : f ∈ findings) (h : ∀ g ∈ findings, g.same f = true → g = f) :
    f ∈ distinct findings := by
  obtain ⟨before, after, rfl, hfirst⟩ := List.eq_append_cons_of_mem hf
  refine mem_distinctFrom_of_forall_before (fun _ hg => absurd hg List.not_mem_nil) fun g hg => ?_
  by_contra hsame
  have heq := h g (List.mem_append_left _ hg) (by simpa using hsame)
  exact hfirst (heq ▸ hg)

/-- Among findings that are placed and none of which repeats one before it, none repeats another. -/
lemma eq_of_same (hplaced : ∀ f ∈ findings, f.IsPlaced)
    (hpair : findings.Pairwise fun a b => a.same b = false) (hf : f ∈ findings) (hg : g ∈ findings)
    (h : g.same f = true) : g = f := by
  by_contra hne
  let Apart (a b : Finding) : Prop := a.same b = false ∧ b.same a = false
  have : Std.Symm Apart := ⟨fun _ _ hab => ⟨hab.2, hab.1⟩⟩
  have hapart : findings.Pairwise Apart := hpair.imp_of_mem fun ha hb hab =>
    ⟨hab, same_comm (hplaced _ hb) (hplaced _ ha) ▸ hab⟩
  have hgf : Apart g f := hapart.forall hg hf hne
  rw [hgf.1] at h
  cases h

end Finding

end PipelineAudit
