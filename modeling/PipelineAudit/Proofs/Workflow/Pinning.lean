import Mathlib.Data.List.TakeWhile
import PipelineAudit.Proofs.Pattern.Language
import PipelineAudit.Workflow.ActionRef

/-!
# References that pin a commit

A reference is exempt if it names a path inside the repository or a container image. Any other one
pins a commit exactly if forty hexadecimal digits stand behind its first `@`
(`ActionRef.isPinned_parse_iff`). The pattern for commits would let a newline follow them
(`RefKind.matchesStart_shaPattern_iff`), and there is none, since the reference is trimmed before it
is read (`Text.isBlank_of_trim`).
-/

namespace PipelineAudit

/-! ## Pieces of a text -/

namespace Text

variable {s : String} {sep c : Char} {u v : List Char}

/-- A text starts with another if its characters do. -/
lemma startsWith_iff {head : String} : startsWith s head = true ↔ head.toList <+: s.toList :=
  List.isPrefixOf_iff_prefix

/-- A trimmed text does not end with a blank. -/
lemma isBlank_of_trim (h : (trim s).toList = u ++ [c]) : isBlank c = false := by
  have hrest : (trimLeft s.toList).reverse.dropWhile isBlank = c :: u.reverse := by
    rw [trim, String.toList_ofList, trimChars, trimRight] at h
    simpa using congrArg List.reverse h
  have hhead := List.head?_dropWhile_not isBlank (trimLeft s.toList).reverse
  rw [hrest] at hhead
  simpa using hhead

/-- What stands behind the first separator. -/
lemma toList_snd_cut : (cut sep s).2.toList = (s.toList.dropWhile (· ≠ sep)).drop 1 :=
  String.toList_ofList

/-- A text is cut at the first occurrence of the separator. -/
lemma snd_cut_of_eq_append (h : s.toList = u ++ sep :: v) (hu : sep ∉ u) :
    (cut sep s).2.toList = v := by
  have hpass : ∀ x ∈ u, decide (x ≠ sep) = true := fun x hx => by
    rw [decide_eq_true_eq]
    rintro rfl
    exact hu hx
  rw [toList_snd_cut, h, List.dropWhile_append_of_pos hpass, List.dropWhile_cons_of_neg (by simp)]
  rfl

/-- If something stands behind the cut, then the separator stands before it, and not earlier. -/
lemma exists_eq_append_of_snd_cut (h : (cut sep s).2.toList ≠ []) :
    ∃ u, s.toList = u ++ sep :: (cut sep s).2.toList ∧ sep ∉ u := by
  rw [toList_snd_cut] at h ⊢
  have hsplit := List.takeWhile_append_dropWhile (p := fun x => decide (x ≠ sep)) (l := s.toList)
  cases hrest : s.toList.dropWhile (· ≠ sep) with
  | nil => exact absurd (by rw [hrest]; rfl) h
  | cons x rest =>
      obtain rfl : x = sep := by
        have hhead := List.head?_dropWhile_not (fun x => decide (x ≠ sep)) s.toList
        rw [hrest] at hhead
        simpa using hhead
      refine ⟨s.toList.takeWhile (· ≠ x), ?_, fun hx => ?_⟩
      · rw [List.drop_one, List.tail_cons, ← hrest]
        exact hsplit.symm
      · simpa using List.mem_takeWhile_imp hx

end Text

/-! ## Kinds of refs -/

namespace RefKind

/-- A hexadecimal digit of ASCII. -/
def IsHexDigit (c : Char) : Prop := ('0' ≤ c ∧ c ≤ '9') ∨ ('a' ≤ c ∧ c ≤ 'f') ∨ ('A' ≤ c ∧ c ≤ 'F')

/-- A text is a full commit hash. -/
def IsCommit (ref : List Char) : Prop := ref.length = 40 ∧ ∀ c ∈ ref, IsHexDigit c

instance : DecidablePred IsHexDigit := fun _ => inferInstanceAs (Decidable (_ ∨ _))

-- named, since the instance for quantifiers over a finite type would try every character
instance : DecidablePred IsCommit :=
  fun ref => @instDecidableAnd _ _ inferInstance (List.decidableBAll _ ref)

variable {ref : String}

/-- The hexadecimal digits that patterns know are those of a commit. -/
lemma contains_hex_iff {c : Char} : CharSet.hex.contains c = true ↔ IsHexDigit c := by
  change ((decide ('0' ≤ c) && decide (c ≤ '9') || decide ('a' ≤ c) && decide (c ≤ 'f'))
    || decide ('A' ≤ c) && decide (c ≤ 'F')) = true ↔ _
  simp only [Bool.or_eq_true, Bool.and_eq_true, decide_eq_true_eq, IsHexDigit, or_assoc]

/-- The pattern for commits matches a commit hash, and one with a newline behind it. -/
lemma matchesStart_shaPattern_iff : shaPattern.matchesStart ref = true ↔
    IsCommit ref.toList ∨ ∃ hash, ref.toList = hash ++ ['\n'] ∧ IsCommit hash := by
  rw [Regex.matchesStart_iff]
  constructor
  · rintro ⟨_, rest, href, _, _, rfl, ⟨_, hash, rfl, ⟨rfl, -⟩, hhash⟩, rfl, hend⟩
    obtain ⟨hlen, hall⟩ := Regex.reads_exactly_char.mp hhash
    have hcommit : IsCommit hash := ⟨hlen, fun c hc => contains_hex_iff.mp (hall c hc)⟩
    rw [List.nil_append, List.append_nil] at href
    rcases hend with rfl | rfl
    · exact .inl (by rwa [href, List.append_nil])
    · exact .inr ⟨hash, href, hcommit⟩
  · intro h
    obtain ⟨hash, rest, href, hcommit, hrest⟩ :
        ∃ hash rest, ref.toList = hash ++ rest ∧ IsCommit hash ∧ (rest = [] ∨ rest = ['\n']) := by
      rcases h with h | ⟨hash, href, h⟩
      · exact ⟨ref.toList, [], (List.append_nil _).symm, h, .inl rfl⟩
      · exact ⟨hash, ['\n'], href, h, .inr rfl⟩
    have hhash : (Regex.exactly 40 (.char .hex)).Reads none hash rest :=
      Regex.reads_exactly_char.mpr ⟨hcommit.1, fun c hc => contains_hex_iff.mpr (hcommit.2 c hc)⟩
    refine ⟨hash, rest, href, hash, [], (List.append_nil _).symm,
      ⟨[], hash, rfl, ⟨rfl, rfl⟩, hhash⟩, rfl, hrest⟩

/-- A ref is a commit hash if the pattern for them matches; an empty one does not match. -/
lemma classify_eq_sha_iff : classify ref = .sha ↔ shaPattern.matchesStart ref = true := by
  have hempty : ref.isEmpty = true → shaPattern.matchesStart ref = false := fun h => by
    rw [String.isEmpty_iff.mp h]
    decide
  unfold classify
  split_ifs <;> simp_all

/-- A ref that is given and is neither a commit hash nor a tag is taken for a branch. -/
lemma classify_eq_branch_iff : classify ref = .branch ↔ ref ≠ "" ∧ classify ref ≠ .sha ∧
    classify ref ≠ .tag := by
  rw [← String.isEmpty_eq_false_iff]
  unfold classify
  split_ifs <;> simp_all

/-- Refs are outside the repository. -/
lemma classify_isExternal (ref : String) :
    classify ref ≠ .inRepository ∧ classify ref ≠ .container := by
  unfold classify
  split_ifs <;> simp

end RefKind

/-! ## References -/

namespace ActionRef

variable {text : String}

/-- A reference names a path inside the repository or a container image. -/
def IsExempt (reference : String) : Prop :=
  ∃ head ∈ ["./", "../", "docker://"], head.toList <+: reference.toList

/-- A commit hash stands behind the first `@` of a reference. -/
def PinsCommit (reference : String) : Prop :=
  ∃ name ref, reference.toList = name ++ '@' :: ref ∧ '@' ∉ name ∧ RefKind.IsCommit ref

/-- The ref of a reference that is written in some text. -/
def refOf (text : String) : String := (Text.cut '@' (Text.trim text)).2

instance : DecidablePred IsExempt := fun _ => List.decidableBEx _ _

/-- A reference pins a commit exactly if what stands behind its first `@` is one. -/
lemma pinsCommit_iff {reference : String} :
    PinsCommit reference ↔ RefKind.IsCommit (Text.cut '@' reference).2.toList := by
  constructor
  · rintro ⟨name, ref, hsplit, hname, hcommit⟩
    rwa [Text.snd_cut_of_eq_append hsplit hname]
  · intro h
    have hne : (Text.cut '@' reference).2.toList ≠ [] :=
      List.ne_nil_of_length_pos (by rw [h.1]; decide)
    obtain ⟨name, hsplit, hname⟩ := Text.exists_eq_append_of_snd_cut hne
    exact ⟨name, _, hsplit, hname, h⟩

instance : DecidablePred PinsCommit := fun _ => decidable_of_iff' _ pinsCommit_iff

/-- References are exempt that stand for a path or an image. -/
lemma isExempt_iff {reference : String} : IsExempt reference ↔
    (Text.startsWith reference "./" || Text.startsWith reference "../") = true ∨
      Text.startsWith reference "docker://" = true := by
  simp only [IsExempt, List.exists_mem_cons_iff, List.not_mem_nil, false_and, exists_false,
    or_false, Bool.or_eq_true, Text.startsWith_iff, or_assoc]

/-- A reference that is not exempt is of the kind of its ref. -/
lemma kind_parse (h : ¬IsExempt (Text.trim text)) : (parse text).kind = .classify (refOf text) := by
  rw [isExempt_iff, not_or] at h
  unfold parse
  simp [h.1, h.2, refOf]

/-- Actions are outside the repository unless their references are exempt. -/
lemma isExternal_parse_iff : (parse text).isExternal = true ↔ ¬IsExempt (Text.trim text) := by
  by_cases h : IsExempt (Text.trim text)
  · refine iff_of_false ?_ (not_not_intro h)
    rw [isExempt_iff] at h
    unfold parse
    rcases h with h | h
    · simp [h, isExternal]
    · dsimp only
      split_ifs <;> simp [isExternal]
  · refine iff_of_true ?_ h
    obtain ⟨hpath, himage⟩ := RefKind.classify_isExternal (refOf text)
    simp [isExternal, kind_parse h, hpath, himage]

/-- The ref of a trimmed reference does not end with a newline. -/
lemma not_endsWith_newline {hash : List Char} : (refOf text).toList ≠ hash ++ ['\n'] := by
  intro h
  obtain ⟨name, hsplit, -⟩ : ∃ u, (Text.trim text).toList = u ++ '@' :: (refOf text).toList ∧
      '@' ∉ u :=
    Text.exists_eq_append_of_snd_cut (by rw [← refOf, h]; simp)
  rw [h, ← List.cons_append, ← List.append_assoc] at hsplit
  have hblank := Text.isBlank_of_trim hsplit
  revert hblank
  decide

/-- **A reference is pinned** exactly if it is not exempt and a commit hash stands behind its first
`@`. -/
theorem isPinned_parse_iff : (parse text).isPinned = true ↔
    ¬IsExempt (Text.trim text) ∧ PinsCommit (Text.trim text) := by
  by_cases h : IsExempt (Text.trim text)
  · refine iff_of_false (fun hpinned => ?_) fun hboth => hboth.1 h
    have hexternal : (parse text).isExternal = true := by
      simp only [isPinned, beq_iff_eq] at hpinned
      simp [isExternal, hpinned]
    exact isExternal_parse_iff.mp hexternal h
  · rw [isPinned, kind_parse h, beq_iff_eq, RefKind.classify_eq_sha_iff,
      RefKind.matchesStart_shaPattern_iff, pinsCommit_iff, ← refOf, and_iff_right h]
    refine or_iff_left ?_
    rintro ⟨hash, hnewline, -⟩
    exact not_endsWith_newline hnewline

end ActionRef

end PipelineAudit
