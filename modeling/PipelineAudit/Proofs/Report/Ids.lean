import Mathlib.Data.List.Nodup
import PipelineAudit.Proofs.Report.Provenance

/-!
# When the ids of findings are distinct

A finding that brings an id along for the second time gets a number after it, and so on. The numbers
alone tell such findings apart: an id and how often it came before never occur twice together
(`nodup_ranked`), and what is numbered can be read back, since the last dash stands before the
number (`numbered_inj`). But a finding may bring along what numbering makes of another id. The ids
are distinct exactly if none does (`ids_withIds`), and `exists_repeated_id` is a document where one
does.
-/

namespace PipelineAudit.Aggregate

/-! ## Numbers -/

/-- A list is known from its parts before and after the last of its dashes. -/
lemma append_dash_inj {xs ys ds es : List Char} (hds : '-' ∉ ds) (hes : '-' ∉ es)
    (h : xs ++ '-' :: ds = ys ++ '-' :: es) : xs = ys ∧ ds = es := by
  -- of two parts before a dash one is an initial part of the other, and goes no further
  rcases List.append_eq_append_iff.mp h with ⟨ts, rfl, hts⟩ | ⟨ts, rfl, hts⟩
  all_goals
    cases ts with
    | nil =>
        rw [List.nil_append, List.cons.injEq] at hts
        simp [hts.2]
    | cons t ts =>
        rw [List.cons_append, List.cons.injEq] at hts
        simp [hts.2] at hds hes

/-- The digits of a number have no dash. -/
lemma dash_notMem_digits (n : Nat) : '-' ∉ (toString n).toList := by
  rw [Nat.toString_eq_repr, Nat.toList_repr]
  intro h
  exact absurd (Nat.isDigit_of_mem_toDigits (by decide) (by decide) h) (by decide)

/-- A number is known from its digits. -/
lemma toString_inj {m n : Nat} (h : (toString m).toList = (toString n).toList) : m = n := by
  rw [Nat.toString_eq_repr, Nat.toString_eq_repr, Nat.toList_repr, Nat.toList_repr] at h
  simpa using congrArg (fun digits => Nat.ofDigitChars 10 digits 0) h

/-- Ids with a number are the same only if they are the same id with the same number. -/
lemma numbered_inj {b c : String} {m n : Nat} (hm : m ≠ 0) (hn : n ≠ 0)
    (h : numbered b m = numbered c n) : b = c ∧ m = n := by
  rw [numbered, numbered, if_neg hm, if_neg hn] at h
  have hlist : b.toList ++ '-' :: (toString (m + 1)).toList =
      c.toList ++ '-' :: (toString (n + 1)).toList := by
    simpa using congrArg String.toList h
  obtain ⟨hbase, hdigits⟩ :=
    append_dash_inj (dash_notMem_digits _) (dash_notMem_digits _) hlist
  exact ⟨String.toList_inj.mp hbase, Nat.succ.inj (toString_inj hdigits)⟩

/-! ## Ranks -/

/-- Ids with the number of earlier occurrences of each. -/
def ranked (used : List String) : List String → List (String × Nat)
  | [] => []
  | b :: rest => (b, used.count b) :: ranked (b :: used) rest

/-- The ranks of an id go on from its occurrences so far. -/
lemma mem_ranked_iff {used bases : List String} {b : String} {n : Nat} :
    (b, n) ∈ ranked used bases ↔ used.count b ≤ n ∧ n < used.count b + bases.count b := by
  induction bases generalizing used with
  | nil =>
      simp only [ranked, List.not_mem_nil, List.count_nil, false_iff]
      omega
  | cons c rest ih =>
      rw [ranked, List.mem_cons, ih, Prod.mk.injEq]
      by_cases hcb : c = b
      · subst hcb
        simp only [List.count_cons_self, true_and]
        omega
      · rw [List.count_cons_of_ne hcb, List.count_cons_of_ne hcb]
        simp [Ne.symm hcb]

/-- No id has the same rank twice. -/
lemma nodup_ranked (used bases : List String) : (ranked used bases).Nodup := by
  induction bases generalizing used with
  | nil => exact List.nodup_nil
  | cons b rest ih =>
      refine List.nodup_cons.mpr ⟨fun hmem => ?_, ih (b :: used)⟩
      have hrank := (mem_ranked_iff.mp hmem).1
      rw [List.count_cons_self] at hrank
      omega

/-! ## Ids -/

/-- The ids that findings bring along, from a position on. -/
def basesFrom (index : Nat) : List Finding → List String
  | [] => []
  | f :: rest => baseId index f :: basesFrom (index + 1) rest

/-- The ids that findings bring along. -/
def bases (findings : List Finding) : List String := basesFrom 0 findings

/-- No id that is brought along is one that numbering makes of another. -/
def IsUnambiguous (bases : List String) : Prop :=
  ∀ b k, 0 < k → k < bases.count b → numbered b k ∉ bases

/-- An id that is brought along is not empty, since an empty one is replaced. -/
lemma baseId_ne_empty (index : Nat) (f : Finding) : baseId index f ≠ "" := by
  rw [baseId]
  cases h : nonEmpty? f.id with
  | none => simp
  | some id =>
      rintro rfl
      simp [nonEmpty?] at h

/-- A number does not make an id empty. -/
lemma numbered_ne_empty {b : String} (hb : b ≠ "") (k : Nat) : numbered b k ≠ "" := by
  rw [numbered]
  split_ifs
  · exact hb
  · simp

/-- The ids that findings get are those they bring along, numbered by rank. -/
lemma map_id_withIdsFrom (index : Nat) (used : List String) (findings : List Finding) :
    (withIdsFrom index used findings).map Finding.id =
      (ranked used (basesFrom index findings)).map fun p => numbered p.1 p.2 := by
  induction findings generalizing index used with
  | nil => rfl
  | cons f rest ih =>
      rw [withIdsFrom, basesFrom, ranked, List.map_cons, List.map_cons, ih]

/-- No finding gets an empty id. -/
lemma id_ne_empty_of_mem_withIdsFrom {index : Nat} {used : List String} {findings : List Finding} :
    ∀ f ∈ withIdsFrom index used findings, f.id ≠ "" := by
  induction findings generalizing index used with
  | nil => exact fun f hf => absurd hf List.not_mem_nil
  | cons f rest ih =>
      intro r hr
      rcases List.mem_cons.mp hr with rfl | hr
      · exact numbered_ne_empty (baseId_ne_empty index f) _
      · exact ih r hr

/-- Ids numbered by rank are distinct exactly if numbering makes none that is brought along. -/
lemma nodup_numbered_iff (bases : List String) :
    ((ranked [] bases).map fun p => numbered p.1 p.2).Nodup ↔ IsUnambiguous bases := by
  have hmem : ∀ b n, (b, n) ∈ ranked [] bases ↔ n < bases.count b := by simp [mem_ranked_iff]
  rw [List.nodup_map_iff_inj_on (nodup_ranked [] bases)]
  constructor
  · intro hinj b k hpos hlt hbrought
    -- the id that is brought along and the one that is numbered have different ranks
    have heq := hinj (numbered b k, 0) ((hmem _ _).mpr (List.count_pos_iff.mpr hbrought))
      (b, k) ((hmem _ _).mpr hlt) rfl
    rw [Prod.mk.injEq] at heq
    omega
  · rintro hbases ⟨b, m⟩ hb ⟨c, n⟩ hc h
    rw [hmem] at hb hc
    rcases Nat.eq_zero_or_pos m with rfl | hm <;> rcases Nat.eq_zero_or_pos n with rfl | hn
    · exact Prod.mk.injEq .. ▸ ⟨h, rfl⟩
    · -- `b` is what numbering makes of `c`
      exact absurd (h ▸ List.count_pos_iff.mp hb) (hbases c n hn hc)
    · exact absurd (h ▸ List.count_pos_iff.mp hc) (hbases b m hm hb)
    · obtain ⟨rfl, rfl⟩ := numbered_inj (Nat.ne_of_gt hm) (Nat.ne_of_gt hn) h
      rfl

/-- **The ids of findings** are not empty, and they are distinct exactly if no finding brings along
what numbering makes of the id of others. -/
theorem ids_withIds (findings : List Finding) :
    (∀ f ∈ withIds findings, f.id ≠ "") ∧
      (((withIds findings).map Finding.id).Nodup ↔ IsUnambiguous (bases findings)) := by
  refine ⟨id_ne_empty_of_mem_withIdsFrom, ?_⟩
  rw [withIds, map_id_withIdsFrom]
  exact nodup_numbered_iff (bases findings)

/-- A job that waits for two jobs that do not exist and whose ids differ by a number, and a second
job whose id goes on where that of the first ends. -/
def collidingTree : Value :=
  .ofFields [("on", .str "push"), ("jobs", .ofFields [
    ("a", .ofFields [("needs", .ofStrings ["b-c", "b-c-2"])]),
    ("a-b", .ofFields [("needs", .ofStrings ["c"])])])]

/-- **Ids of a report may repeat.** The first and the last missing dependency bring the same id
along, `missing_dependency-a-b-c`; the last one gets a number, and with it the id of the second. -/
theorem exists_repeated_id : ∃ d,
    Document.ofTree collidingTree "" "github-actions" "ci.yml" = .ok d ∧
      ¬(((Analysis.ofDocument d "").report {}).findings.map Finding.id).Nodup := by
  exact exists_ok_of_any (by decide +kernel)

end PipelineAudit.Aggregate
