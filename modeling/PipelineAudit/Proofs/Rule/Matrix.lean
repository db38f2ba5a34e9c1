import Mathlib.Data.List.Nodup
import Mathlib.Data.List.Sections
import PipelineAudit.Proofs.Value.Keys
import PipelineAudit.Rule.Performance

/-!
# The jobs of a matrix

A matrix stands for one job for each choice of a value in every dimension (`Rules.combinations`),
less the choices that an exclude entry matches (`Rules.Matches`). An entry may name some of the
dimensions only and then matches many choices, several entries may match one choice, and an entry
may match none.

The count looks at none of this: it takes one off for each entry. So it is the number of jobs
exactly if the entries match as many choices as they are themselves, or all of them
(`Rules.countsJobs`). That is so where each entry names every dimension with one of its values and
no two entries pick the same choice (`Rules.Picks`); `Rules.exists_miscounted` is a matrix where an
entry names one dimension of two.
-/

namespace PipelineAudit

namespace Rules

/-! ## Choices -/

/-- A dimension of a matrix: its name and the values to choose from. -/
structure Dimension where
  name : Value
  values : List Value

/-- The entry of a matrix that writes a dimension. -/
def Dimension.entry (d : Dimension) : Value × Value := (d.name, .seq d.values)

/-- The combinations of a matrix: one value of every dimension, in the order of the dimensions. -/
def combinations (dims : List Dimension) : List (List Value) := (dims.map Dimension.values).sections

/-- A combination agrees with an exclude entry on every dimension that the entry names. -/
def Matches (dims : List Dimension) (entry : List (Value × Value)) (combination : List Value) :
    Prop :=
  ∀ choice ∈ dims.zip combination, ∀ e ∈ entry,
    e.1.sameKey choice.1.name = true → choice.2.sameKey e.2 = true

instance (dims : List Dimension) (entry : List (Value × Value)) (combination : List Value) :
    Decidable (Matches dims entry combination) :=
  inferInstanceAs (Decidable (∀ choice ∈ dims.zip combination, ∀ e ∈ entry,
    e.1.sameKey choice.1.name = true → choice.2.sameKey e.2 = true))

/-- Some exclude entry matches a combination. -/
def IsExcluded (dims : List Dimension) (exclude : List (List (Value × Value)))
    (combination : List Value) : Prop :=
  ∃ entry ∈ exclude, Matches dims entry combination

instance (dims : List Dimension) (exclude : List (List (Value × Value)))
    (combination : List Value) : Decidable (IsExcluded dims exclude combination) :=
  inferInstanceAs (Decidable (∃ entry ∈ exclude, Matches dims entry combination))

/-- The combinations that an exclude entry matches. -/
def excludedFrom (dims : List Dimension) (exclude : List (List (Value × Value))) :
    List (List Value) :=
  (combinations dims).filter fun c => IsExcluded dims exclude c

/-- The combinations that no exclude entry matches: the jobs. -/
def remaining (dims : List Dimension) (exclude : List (List (Value × Value))) : List (List Value) :=
  (combinations dims).filter fun c => !decide (IsExcluded dims exclude c)

/-- A matrix that is written as its dimensions and an exclude list over them, with no include. Its
names are different keys, and so are the values of each dimension. -/
structure IsMatrix (matrix : Value) (dims : List Dimension)
    (exclude : List (List (Value × Value))) : Prop where
  dimensions :
    (matrix.entries.filter fun e => !(Value.hasName "include" e || Value.hasName "exclude" e)) =
    dims.map Dimension.entry
  excluded : matrix.get? "exclude" = some (.seq (exclude.map .map))
  included : matrix.get? "include" = none
  names : dims.Pairwise fun d e => d.name.sameKey e.name = false
  values : ∀ d ∈ dims, d.values.Nodup ∧ ∀ v ∈ d.values, ∀ w ∈ d.values, v.sameKey w = true → v = w
  known : ∀ entry ∈ exclude, ∀ e ∈ entry, ∃ d ∈ dims, e.1.sameKey d.name = true

/-- An exclude entry picks a single combination: it names every dimension, with the value of the
combination. -/
def Picks (dims : List Dimension) (entry : List (Value × Value)) (combination : List Value) :
    Prop :=
  combination ∈ combinations dims ∧
    ∀ choice ∈ dims.zip combination, (∃ e ∈ entry, e.1.sameKey choice.1.name = true) ∧
      ∀ e ∈ entry, e.1.sameKey choice.1.name = true → e.2 = choice.2

variable {matrix : Value} {dims : List Dimension} {exclude : List (List (Value × Value))}

/-! ## How many there are -/

/-- There are as many combinations as the product of the numbers of choices. -/
lemma length_sections (choices : List (List Value)) :
    choices.sections.length = (choices.map List.length).foldl (· * ·) 1 := by
  rw [← List.prod_eq_foldl]
  induction choices with
  | nil => rfl
  | cons values rest ih => simp [List.sections, List.length_flatMap, ih, Nat.mul_comm]

/-- No combination stands twice if no choice does. -/
lemma nodup_sections {choices : List (List Value)} (h : ∀ values ∈ choices, values.Nodup) :
    choices.sections.Nodup := by
  induction choices with
  | nil => simp [List.sections]
  | cons values rest ih =>
      have hrest := ih fun vs hvs => h vs (List.mem_cons_of_mem values hvs)
      rw [List.sections, List.nodup_flatMap]
      constructor
      · intro c _
        exact (h values List.mem_cons_self).map fun v w heq => List.head_eq_of_cons_eq heq
      · refine hrest.imp fun {c d} hne => ?_
        -- two lists that start alike but go on differently are different
        intro x hc hd
        obtain ⟨v, -, rfl⟩ := List.mem_map.mp hc
        obtain ⟨w, -, heq⟩ := List.mem_map.mp hd
        exact hne (List.tail_eq_of_cons_eq heq).symm

/-- No combination is counted twice. -/
lemma IsMatrix.nodup_combinations (h : IsMatrix matrix dims exclude) :
    (combinations dims).Nodup := by
  refine nodup_sections fun values hvalues => ?_
  obtain ⟨d, hd, rfl⟩ := List.mem_map.mp hvalues
  exact (h.values d hd).1

/-- The combinations are those excluded and those that remain. -/
lemma length_excludedFrom_add_remaining (dims : List Dimension)
    (exclude : List (List (Value × Value))) :
    (excludedFrom dims exclude).length + (remaining dims exclude).length =
      (combinations dims).length :=
  (List.length_eq_length_filter_add _).symm

/-- Which combinations are excluded. -/
lemma mem_excludedFrom {combination : List Value} :
    combination ∈ excludedFrom dims exclude ↔
      combination ∈ combinations dims ∧ IsExcluded dims exclude combination := by
  simp [excludedFrom]

/-- The sizes that are read of a matrix are those of its dimensions. -/
lemma dimensionSizes?_of_isMatrix (h : IsMatrix matrix dims exclude) :
    dimensionSizes? matrix = some (dims.map fun d => d.values.length) := by
  rw [dimensionSizes?, h.dimensions, List.mapM_map]
  exact List.mapM_pure

/-- The count is the number of combinations less the number of exclude entries, whatever they
match. -/
lemma combinationCount_eq (h : IsMatrix matrix dims exclude) :
    combinationCount matrix = (if dims = [] then 0 else (combinations dims).length) -
      exclude.length := by
  have hexclude : itemCount (matrix.get "exclude") = exclude.length := by
    simp [Value.get, h.excluded, itemCount]
  have hinclude : itemCount (matrix.get "include") = 0 := by
    simp [Value.get, h.included, itemCount]
  have hproduct : (combinations dims).length =
      (dims.map fun d => d.values.length).foldl (· * ·) 1 := by
    rw [combinations, length_sections, List.map_map]
    rfl
  simp only [combinationCount, dimensionSizes?_of_isMatrix h, hexclude, hinclude, List.isEmpty_map,
    List.isEmpty_iff, hproduct]
  split <;> omega

/-! ## Entries that pick a combination each -/

/-- A combination has a value of each dimension. -/
lemma mem_combinations {combination : List Value} :
    combination ∈ combinations dims ↔ List.Forall₂ (fun v d => v ∈ d.values) combination dims := by
  rw [combinations, List.mem_sections, List.forall₂_map_right_iff]

/-- An entry matches a combination that it picks. -/
lemma Picks.matches {entry : List (Value × Value)} {combination : List Value}
    (h : Picks dims entry combination) : Matches dims entry combination := by
  intro choice hchoice e he hname
  rw [(h.2 choice hchoice).2 e he hname]
  exact Value.sameKey_self _

/-- What such an entry matches is the combination that it picks: of each dimension it leaves one
value only. -/
lemma Picks.eq_of_matches {entry : List (Value × Value)} {combination other : List Value}
    (hpicks : Picks dims entry combination) (h : IsMatrix matrix dims exclude)
    (hother : other ∈ combinations dims) (hmatches : Matches dims entry other) :
    other = combination := by
  have hpicked := mem_combinations.mp hpicks.1
  have hothers := mem_combinations.mp hother
  apply List.ext_getElem (hothers.length_eq.trans hpicked.length_eq.symm)
  intro i hi hi'
  have hdims : i < dims.length := hothers.length_eq ▸ hi
  have hchoice : (dims[i], combination[i]) ∈ dims.zip combination :=
    List.mem_iff_getElem.mpr ⟨i, List.length_zip ▸ Nat.lt_min.mpr ⟨hdims, hi'⟩, List.getElem_zip⟩
  have hchoice' : (dims[i], other[i]) ∈ dims.zip other :=
    List.mem_iff_getElem.mpr ⟨i, List.length_zip ▸ Nat.lt_min.mpr ⟨hdims, hi⟩, List.getElem_zip⟩
  obtain ⟨⟨e, he, hname⟩, hvalue⟩ := hpicks.2 _ hchoice
  have hsame : other[i].sameKey combination[i] = true := by
    have := hmatches _ hchoice' e he hname
    rwa [hvalue e he hname] at this
  exact (h.values dims[i] (List.getElem_mem hdims)).2 _ (hothers.get hi hdims) _
    (hpicked.get hi' hdims) hsame

/-- Entries that pick different combinations exclude one combination each. -/
lemma length_excludedFrom_of_picks (h : IsMatrix matrix dims exclude)
    (hpicks : ∀ entry ∈ exclude, ∃ c, Picks dims entry c)
    (happart : exclude.Pairwise fun entry other => ∀ c, Picks dims entry c → ¬Picks dims other c) :
    (excludedFrom dims exclude).length = exclude.length := by
  choose! pick hpick using hpicks
  have hnodup : (exclude.map pick).Nodup := by
    refine List.pairwise_map.mpr (happart.imp_of_mem fun {entry other} he ho hne heq => ?_)
    exact hne (pick entry) (hpick entry he) (heq ▸ hpick other ho)
  have hmem : ∀ c, c ∈ excludedFrom dims exclude ↔ c ∈ exclude.map pick := by
    intro c
    rw [mem_excludedFrom, List.mem_map]
    constructor
    · rintro ⟨hc, entry, he, hmatches⟩
      exact ⟨entry, he, ((hpick entry he).eq_of_matches h hc hmatches).symm⟩
    · rintro ⟨entry, he, rfl⟩
      exact ⟨(hpick entry he).1, entry, he, (hpick entry he).matches⟩
  have hperm := (List.perm_ext_iff_of_nodup (h.nodup_combinations.filter _) hnodup).mpr hmem
  rw [← List.length_map pick]
  exact hperm.length_eq

/-! ## When the count is right -/

/-- What the count of a matrix is, and when it is the number of jobs. -/
structure CountsJobs (matrix : Value) (dims : List Dimension)
    (exclude : List (List (Value × Value))) : Prop where
  /-- It takes one off the number of combinations for each entry; without a dimension there is
  nothing to take from. -/
  count : combinationCount matrix = (if dims = [] then 0 else (combinations dims).length) -
    exclude.length
  /-- It is right exactly if the entries exclude as many combinations as they are, or all. -/
  right : dims ≠ [] → (combinationCount matrix = (remaining dims exclude).length ↔
    (excludedFrom dims exclude).length = min exclude.length (combinations dims).length)
  /-- A matrix without a dimension stands for the empty combination, which every entry excludes. -/
  empty : dims = [] → (combinationCount matrix = (remaining dims exclude).length ↔ exclude ≠ [])
  /-- It is right where the entries pick different combinations. -/
  picked : dims ≠ [] → (∀ entry ∈ exclude, ∃ c, Picks dims entry c) →
    (exclude.Pairwise fun entry other => ∀ c, Picks dims entry c → ¬Picks dims other c) →
    combinationCount matrix = (remaining dims exclude).length

/-- **The jobs of a matrix.** For every matrix of dimensions with different values, with entries
over them to exclude, the count takes one off the number of combinations for each entry, and is
right exactly if the entries exclude as many combinations as they are, or all. -/
theorem countsJobs (h : IsMatrix matrix dims exclude) : CountsJobs matrix dims exclude := by
  have hcount := combinationCount_eq h
  have hsum := length_excludedFrom_add_remaining dims exclude
  refine ⟨hcount, fun hne => ?_, fun hnil => ?_, fun hne hpicks happart => ?_⟩
  · rw [hcount, if_neg hne]
    omega
  · subst hnil
    cases exclude with
    | nil => simp [hcount, remaining, combinations, List.sections, IsExcluded]
    | cons entry rest => simp [hcount, remaining, combinations, List.sections, IsExcluded, Matches]
  · have hexcluded := length_excludedFrom_of_picks h hpicks happart
    rw [hcount, if_neg hne]
    omega

/-- A matrix of two dimensions with an exclude list. -/
def hosts (exclude : List (List (Value × Value))) : Value :=
  .map [(.str "os", .seq [.str "a", .str "b"]), (.str "node", .seq [.int 1, .int 2, .int 3]),
    (.str "exclude", .seq (exclude.map .map))]

/-- Its dimensions. -/
def hostDimensions : List Dimension :=
  [⟨.str "os", [.str "a", .str "b"]⟩, ⟨.str "node", [.int 1, .int 2, .int 3]⟩]

/-- The matrix of hosts is one, whatever of its dimensions is excluded. -/
lemma isMatrix_hosts
    (h : ∀ entry ∈ exclude, ∀ e ∈ entry, ∃ d ∈ hostDimensions, e.1.sameKey d.name = true) :
    IsMatrix (hosts exclude) hostDimensions exclude where
  dimensions := rfl
  excluded := rfl
  included := rfl
  names := by simp [hostDimensions, Value.sameKey, Value.isOne, Value.same]
  values := by simp [hostDimensions, Value.sameKey, Value.isOne, Value.same, Value.number?]
  known := h

/-- An entry that names both dimensions, with a value of each, excludes one combination. -/
theorem countsJobs_hosts :
    IsMatrix (hosts [[(.str "os", .str "b"), (.str "node", .int 3)]]) hostDimensions
        [[(.str "os", .str "b"), (.str "node", .int 3)]] ∧
      combinationCount (hosts [[(.str "os", .str "b"), (.str "node", .int 3)]]) =
        (remaining hostDimensions [[(.str "os", .str "b"), (.str "node", .int 3)]]).length :=
  have hmatrix := isMatrix_hosts (by decide)
  ⟨hmatrix, ((countsJobs hmatrix).right (by simp [hostDimensions])).mpr (by decide)⟩

/-- An entry that names one dimension excludes all combinations with its value, and is counted as
one. -/
theorem exists_miscounted : ∃ matrix dims exclude, IsMatrix matrix dims exclude ∧
    combinationCount matrix = 5 ∧ (remaining dims exclude).length = 3 :=
  ⟨hosts [[(.str "os", .str "b")]], hostDimensions, [[(.str "os", .str "b")]],
    isMatrix_hosts (by decide), by decide, by decide⟩

end Rules

end PipelineAudit
