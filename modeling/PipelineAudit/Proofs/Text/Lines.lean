import Mathlib.Data.List.Basic
import PipelineAudit.Text.Lines

/-!
# Lines that are joined and cut again

A line holds no line break of any kind (`Text.isPlain_of_mem_lines`). So lines that are joined with
newlines are told apart again: the pieces between the newlines are the lines (`Text.splitOn_join`),
and cutting at every line boundary gives them back as well (`Text.lines_join`), except that a blank
line at the end is lost, since a newline ends a line and does not start another. A text has no more
lines without its first character (`Text.length_linesFrom_le_cons`).
-/

namespace PipelineAudit.Text

/-- Characters without a line break. -/
def IsPlainChars (cs : List Char) : Prop := ∀ c ∈ cs, isLineBreak c = false

/-- A text without a line break. -/
def IsPlain (s : String) : Prop := IsPlainChars s.toList

variable {current current' l rest cs : List Char} {c : Char} {ls : List String}

/-! ## One line after another -/

/-- A character that is no line break goes on with the line. -/
lemma linesFrom_cons_of_plain (h : isLineBreak c = false) :
    linesFrom current (c :: rest) = linesFrom (c :: current) rest := by
  rw [linesFrom, if_neg (by simp [h])]
  -- a carriage return, which may take the newline behind it along, is a line break itself
  rintro r rfl
  simp [isLineBreak] at h

/-- A newline ends the line. -/
lemma linesFrom_newline :
    linesFrom current ('\n' :: rest) = current.reverse :: linesFrom [] rest := by
  rw [linesFrom]
  · simp [isLineBreak]
  · simp

/-- Plain characters and a newline end the line behind them. -/
lemma linesFrom_append_newline (h : IsPlainChars l) :
    linesFrom current (l ++ '\n' :: rest) = (current.reverse ++ l) :: linesFrom [] rest := by
  induction l generalizing current with
  | nil => simp [linesFrom_newline]
  | cons c l ih =>
      have hl : IsPlainChars l := fun d hd => h d (List.mem_cons_of_mem c hd)
      rw [List.cons_append, linesFrom_cons_of_plain (h c List.mem_cons_self), ih hl]
      simp

/-- Plain characters are the rest of the line. -/
lemma linesFrom_of_plain (h : IsPlainChars l) :
    linesFrom current l = if current.reverse ++ l = [] then [] else [current.reverse ++ l] := by
  induction l generalizing current with
  | nil => simp [linesFrom]
  | cons c l ih =>
      have hl : IsPlainChars l := fun d hd => h d (List.mem_cons_of_mem c hd)
      rw [linesFrom_cons_of_plain (h c List.mem_cons_self), ih hl]
      simp

/-- What is cut out is plain, if the current line is so far. -/
lemma isPlainChars_of_mem_linesFrom (cs : List Char) (hcurrent : IsPlainChars current)
    (hl : l ∈ linesFrom current cs) : IsPlainChars l := by
  have hreverse : ∀ {cs : List Char}, IsPlainChars cs → IsPlainChars cs.reverse := fun h c hc =>
    h c (List.mem_reverse.mp hc)
  fun_induction linesFrom current cs with
  | case1 => cases hl
  | case2 current =>
      obtain rfl := List.mem_singleton.mp hl
      exact hreverse hcurrent
  | case3 current rest ih =>
      rcases List.mem_cons.mp hl with rfl | hl
      · exact hreverse hcurrent
      · exact ih (by simp [IsPlainChars]) hl
  | case4 current c rest _ _ ih =>
      rcases List.mem_cons.mp hl with rfl | hl
      · exact hreverse hcurrent
      · exact ih (by simp [IsPlainChars]) hl
  | case5 current c rest _ hbreak ih =>
      refine ih (fun d hd => ?_) hl
      rcases List.mem_cons.mp hd with rfl | hd
      · simpa using hbreak
      · exact hcurrent d hd

/-- No line of a text holds a line break. -/
theorem isPlain_of_mem_lines {s line : String} (h : line ∈ lines s) : IsPlain line := by
  obtain ⟨l, hl, rfl⟩ := List.mem_map.mp h
  rw [IsPlain, String.toList_ofList]
  exact isPlainChars_of_mem_linesFrom s.toList (by simp [IsPlainChars]) hl

/-! ## Joining and cutting -/

/-- The characters of joined texts are those of the texts, with the separator between them. -/
lemma toList_join (sep : String) (ls : List String) :
    (join sep ls).toList = sep.toList.intercalate (ls.map String.toList) :=
  String.toList_intercalate

/-- Pieces that are joined by newlines are the lines, but for an empty last one. -/
lemma linesFrom_intercalate {pieces : List (List Char)} (h : ∀ l ∈ pieces, IsPlainChars l) :
    linesFrom [] (['\n'].intercalate pieces) =
      if pieces.getLast? = some [] then pieces.dropLast else pieces := by
  induction pieces with
  | nil => simp [linesFrom]
  | cons l pieces ih =>
      have hl := h l List.mem_cons_self
      have hpieces : ∀ l ∈ pieces, IsPlainChars l := fun k hk => h k (List.mem_cons_of_mem l hk)
      cases pieces with
      | nil =>
          rw [List.intercalate_singleton, linesFrom_of_plain hl]
          cases l <;> simp
      | cons l' pieces =>
          rw [List.intercalate_cons_cons, List.append_assoc, List.singleton_append,
            linesFrom_append_newline hl, ih hpieces, List.getLast?_cons_cons,
            List.dropLast_cons_cons]
          split <;> rfl

/-- Texts are made of their characters. -/
lemma map_ofList_map_toList (ls : List String) : (ls.map String.toList).map String.ofList = ls := by
  simp [Function.comp_def]

/-- The characters of plain texts are plain. -/
lemma isPlainChars_of_mem_map (h : ∀ l ∈ ls, IsPlain l) :
    ∀ cs ∈ ls.map String.toList, IsPlainChars cs := by
  intro cs hcs
  obtain ⟨l, hl, rfl⟩ := List.mem_map.mp hcs
  exact h l hl

/-- Cutting lines that were joined gives them back, save for a blank one at the end. -/
theorem lines_join (h : ∀ l ∈ ls, IsPlain l) :
    lines (join "\n" ls) = if ls.getLast? = some "" then ls.dropLast else ls := by
  have hlast : (ls.map String.toList).getLast? = some [] ↔ ls.getLast? = some "" := by
    simp [List.getLast?_map]
  rw [lines, toList_join, show "\n".toList = ['\n'] from rfl,
    linesFrom_intercalate (isPlainChars_of_mem_map h)]
  simp only [hlast]
  split
  · rw [← List.map_dropLast, map_ofList_map_toList]
  · rw [map_ofList_map_toList]

/-- Splitting characters at a separator is that of lists. -/
lemma splitChars_eq_splitOn (sep : Char) (cs : List Char) : splitChars sep cs = cs.splitOn sep := by
  induction cs with
  | nil => rfl
  | cons c rest ih =>
      simp only [splitChars, ih, List.splitOn, List.splitOnP_cons_eq_if_modifyHead]
      cases hpieces : rest.splitOnP (· == sep) with
      | nil => exact absurd hpieces (List.splitOnP_ne_nil _ _)
      | cons piece pieces => simp

/-- The pieces between the newlines of lines that were joined are the lines. -/
theorem splitOn_join (h : ∀ l ∈ ls, IsPlain l) (hne : ls ≠ []) :
    splitOn '\n' (join "\n" ls) = ls := by
  have hnone : ∀ cs ∈ ls.map String.toList, '\n' ∉ cs := fun cs hcs hmem => by
    simpa [isLineBreak] using isPlainChars_of_mem_map h cs hcs '\n' hmem
  rw [splitOn, splitChars_eq_splitOn, toList_join, show "\n".toList = ['\n'] from rfl,
    List.splitOn_intercalate '\n' hnone (by simpa using hne), map_ofList_map_toList]

/-! ## How many lines there are -/

/-- A line break ends a line, unless a newline follows a carriage return. -/
lemma linesFrom_cons_of_break (h : isLineBreak c = true)
    (hpair : ¬(c = '\r' ∧ rest.head? = some '\n')) :
    linesFrom current (c :: rest) = current.reverse :: linesFrom [] rest := by
  rw [linesFrom, if_pos h]
  rintro r rfl rfl
  exact hpair ⟨rfl, rfl⟩

/-- Where there are characters there is a line. -/
lemma linesFrom_ne_nil (h : current ≠ [] ∨ cs ≠ []) : linesFrom current cs ≠ [] := by
  fun_induction linesFrom current cs with
  | case1 current hempty => simp_all
  | case2 current hempty => simp
  | case3 current rest ih => simp
  | case4 current c rest _ hbreak ih => simp
  | case5 current c rest _ hbreak ih => exact ih (Or.inl (by simp))

/-- A line that has begun takes no room. -/
lemma length_linesFrom_le (h : current = [] ∨ current' ≠ []) :
    (linesFrom current cs).length ≤ (linesFrom current' cs).length := by
  fun_induction linesFrom current cs generalizing current' with
  | case1 current hempty => exact Nat.zero_le _
  | case2 current hempty =>
      have hcurrent' : current' ≠ [] := h.resolve_left (by simpa using hempty)
      exact List.length_pos_iff.mpr (linesFrom_ne_nil (Or.inl hcurrent'))
  | case3 current rest ih =>
      rw [linesFrom]
      exact Nat.le_refl _
  | case4 current c rest hpair hbreak ih =>
      have hpair' : ¬(c = '\r' ∧ rest.head? = some '\n') := by
        rintro ⟨rfl, hrest⟩
        obtain ⟨r, rfl⟩ := List.head?_eq_some_iff.mp hrest
        exact hpair r rfl rfl
      rw [linesFrom_cons_of_break hbreak hpair']
      exact Nat.le_refl _
  | case5 current c rest hpair hbreak ih =>
      rw [linesFrom_cons_of_plain (by simpa using hbreak)]
      exact ih (Or.inr (List.cons_ne_nil c current'))

/-- A text has no more lines without its first character. -/
lemma length_linesFrom_le_cons (c : Char) (rest : List Char) :
    (linesFrom [] rest).length ≤ (linesFrom [] (c :: rest)).length := by
  by_cases hbreak : isLineBreak c = true
  · by_cases hpair : c = '\r' ∧ rest.head? = some '\n'
    · obtain ⟨rfl, hrest⟩ := hpair
      obtain ⟨r, rfl⟩ := List.head?_eq_some_iff.mp hrest
      exact Nat.le_of_eq (by rw [linesFrom_newline, linesFrom])
    · rw [linesFrom_cons_of_break hbreak hpair, List.length_cons]
      exact Nat.le_succ _
  · rw [linesFrom_cons_of_plain (by simpa using hbreak)]
    exact length_linesFrom_le (Or.inl rfl)

end PipelineAudit.Text
