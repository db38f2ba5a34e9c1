import PipelineAudit.Proofs.Finding.Snippet
import PipelineAudit.Report.Console

/-!
# The rows of a printed snippet

A finding that quotes the source is printed with a row for every line that it quotes: the number of
the line, its text, and a mark at the line that the finding is about (`Console.ShowsLines`,
`Console.printsSnippet`). The content of the snippet is cut into lines anew when it is printed, and
a blank line at its end is lost in this; no other line is, and the rows that are left keep their
numbers.
-/

namespace PipelineAudit.Console

/-- A row of a printed snippet: whether it is marked, its number and the text that it shows. -/
structure Row where
  isMarked : Bool
  number : Nat
  text : String
  deriving DecidableEq

/-- A row as it is printed. -/
def Row.print (r : Row) : String :=
  ln ["    ", if r.isMarked then ">" else " ", " ", Text.padLeft 4 (toString r.number),
    " | ", r.text]

/-- Rows show the lines of a source from a first to a last number, and mark one of them. -/
structure ShowsLines (source : String) (n first last : Nat) (rows : List Row) : Prop where
  /-- The rows are numbered one after another, from the first line on. -/
  numbers : rows.map Row.number = List.range' first rows.length
  /-- Each shows the line with its number, and no text runs over into another row. -/
  texts : ∀ r ∈ rows, (Text.lines source)[r.number - 1]? = some r.text ∧ Text.IsPlain r.text
  /-- Only a blank line at the end may be missing. -/
  complete : rows.length = last + 1 - first ∨
    rows.length = last - first ∧ (Text.lines source)[last - 1]? = some ""
  /-- The mark stands at the line that the rows are about. -/
  marks : ∀ r ∈ rows, r.isMarked = true ↔ r.number = n
  /-- There is one mark, unless the line is the missing one. -/
  marked : rows.countP Row.isMarked = 1 ∨
    rows.countP Row.isMarked = 0 ∧ n = last ∧ rows.length = last - first

variable {source : String} {n first last : Nat} {s : Snippet} {f : Finding} {style : Style}
    {texts : List String}
  {row : Row}

/-! ## Numbered texts -/

/-- The rows of texts that are numbered from a line on. -/
def rowsFrom (n first : Nat) (texts : List String) : List Row :=
  (texts.zipIdx first).map fun (text, number) => ⟨decide (number = n), number, text⟩

/-- There is a row for each text. -/
@[simp] lemma length_rowsFrom (n first : Nat) (texts : List String) :
    (rowsFrom n first texts).length = texts.length := by
  simp [rowsFrom]

/-- The rows are numbered one after the other. -/
lemma map_number_rowsFrom (n first : Nat) (texts : List String) :
    (rowsFrom n first texts).map Row.number = List.range' first texts.length := by
  rw [rowsFrom, List.map_map]
  exact List.zipIdx_map_snd first texts

/-- What a row shows. -/
lemma of_mem_rowsFrom (h : row ∈ rowsFrom n first texts) :
    first ≤ row.number ∧ texts[row.number - first]? = some row.text ∧
      (row.isMarked = true ↔ row.number = n) := by
  obtain ⟨⟨text, number⟩, hp, rfl⟩ := List.mem_map.mp h
  obtain ⟨hle, htext⟩ := List.mk_mem_zipIdx_iff_le_and_getElem?_sub.mp hp
  exact ⟨hle, htext, decide_eq_true_iff⟩

/-- The rows are marked as often as their numbers are the marked one. -/
lemma countP_rowsFrom (n first : Nat) (texts : List String) :
    (rowsFrom n first texts).countP Row.isMarked = (List.range' first texts.length).count n := by
  rw [← map_number_rowsFrom n, List.count, List.countP_map]
  refine List.countP_congr fun row hrow => ?_
  simp [(of_mem_rowsFrom hrow).2.2]

/-! ## The rows of a snippet -/

/-- The rows that are printed are the lines of the content, numbered from the first line that is
quoted. -/
lemma snippetRows_eq (h : Snippet.Quotes source n first last s) :
    snippetRows s = (rowsFrom n first (Text.lines s.content)).map Row.print := by
  obtain ⟨mark, hmark, hn⟩ := h.highlight
  rw [h.startLine] at hn
  rw [snippetRows, rowsFrom, List.zipIdx_eq_map_add (i := first), List.map_map, List.map_map]
  refine List.map_congr_left fun p _ => ?_
  obtain ⟨text, offset⟩ := p
  have hsame : s.highlight.same (.int (offset + 1)) = decide (first + offset = n) := by
    rw [hmark, Bool.eq_iff_iff, decide_eq_true_iff]
    simp only [Value.same, Value.number?, beq_iff_eq]
    omega
  have hnumber : s.startLine + offset = (first + offset : Nat) := by
    rw [h.startLine]
    omega
  simp only [snippetRow, hsame, hnumber, Function.comp_apply, Row.print]
  rfl

/-- Printing cuts the content into the lines that are quoted, save for a blank one at the end. -/
lemma lines_content (h : Snippet.Quotes source n first last s) :
    ∃ stop, Text.lines s.content = Snippet.linesOf source first stop ∧
      (stop = last ∨ stop = last - 1 ∧ (Text.lines source)[last - 1]? = some "") := by
  obtain ⟨hfirst, hbefore, hbehind, hlast⟩ := h.within
  rw [h.content, Text.lines_join fun _ => Snippet.isPlain_of_mem_linesOf]
  split
  · rename_i hblank
    refine ⟨last - 1, ?_, Or.inr ⟨rfl, ?_⟩⟩
    · rw [List.dropLast_eq_take, h.length_linesOf, Snippet.linesOf, Snippet.linesOf, List.take_drop,
        List.take_take]
      congr 2
      omega
    · rw [List.getLast?_eq_getElem?, h.length_linesOf, Snippet.getElem?_linesOf (by omega)]
        at hblank
      rwa [show first - 1 + (last + 1 - first - 1) = last - 1 by omega] at hblank
  · exact ⟨last, rfl, Or.inl rfl⟩

/-- The rows of a snippet show the lines that it quotes. -/
theorem showsLines (h : Snippet.Quotes source n first last s) :
    ShowsLines source n first last (rowsFrom n first (Text.lines s.content)) := by
  obtain ⟨hfirst, hbefore, hbehind, hlast⟩ := h.within
  obtain ⟨stop, hlines, hstop⟩ := lines_content h
  have hlength : (Snippet.linesOf source first stop).length = stop + 1 - first := by
    rw [Snippet.length_linesOf (by omega)]
    omega
  rw [hlines]
  constructor
  · rw [map_number_rowsFrom, length_rowsFrom]
  · intro row hrow
    obtain ⟨hle, htext, -⟩ := of_mem_rowsFrom hrow
    have hlt : row.number - first < stop + 1 - first :=
      hlength ▸ (List.getElem?_eq_some_iff.mp htext).1
    refine ⟨?_, Snippet.isPlain_of_mem_linesOf (List.mem_of_getElem? htext)⟩
    rw [Snippet.getElem?_linesOf (by omega)] at htext
    rwa [show first - 1 + (row.number - first) = row.number - 1 by omega] at htext
  · rw [length_rowsFrom, hlength]
    rcases hstop with rfl | ⟨rfl, hblank⟩
    · exact Or.inl rfl
    · exact Or.inr ⟨by omega, hblank⟩
  · exact fun row hrow => (of_mem_rowsFrom hrow).2.2
  · rw [countP_rowsFrom, length_rowsFrom, hlength, List.count_range']
    by_cases hn : n ≤ stop
    · exact Or.inl (if_pos ⟨n - first, by omega, by omega⟩)
    · exact Or.inr ⟨if_neg fun ⟨k, hk, hsum⟩ => by omega, by omega, by omega⟩

/-! ## Findings with a snippet -/

/-- A snippet is shown behind everything else. -/
lemma findingText_eq (style : Style) (f : Finding) :
    findingText style f = findingText { style with showSnippets := false } f ++
      (if style.showSnippets then Text.join "" ((f.snippet.map snippetRows).getD []) else "") := by
  have hrest : reachabilityText { style with showSnippets := false } = reachabilityText style := rfl
  simp [findingText, paint, hrest]

/-- A finding that carries the snippet around a line of the source is printed with rows that show
the lines of the source which the snippet quotes, and no others. -/
theorem printsSnippet (hn : 1 ≤ n) (hcount : n ≤ (Text.lines source).length) (context : Nat)
    (hsnippet : f.snippet = Snippet.extract source n context) (hshow : style.showSnippets = true) :
    ∃ s first last rows, f.snippet = some s ∧ Snippet.Quotes source n first last s ∧
      findingText style f = findingText { style with showSnippets := false } f ++
        Text.join "" (rows.map Row.print) ∧
      ShowsLines source n first last rows := by
  obtain ⟨s, first, last, hs, hquotes⟩ := Snippet.exists_extract hn hcount context
  rw [hs] at hsnippet
  refine ⟨s, first, last, rowsFrom n first (Text.lines s.content), hsnippet, hquotes, ?_,
    showsLines hquotes⟩
  rw [findingText_eq, if_pos hshow, hsnippet, Option.map_some, Option.getD_some,
    snippetRows_eq hquotes]

/-- A finding about the first line of a source that ends in a blank one. -/
def blankEnded : Finding where
  category := .bestPractice
  severity := .info
  title := "Unnamed workflow"
  description := "The workflow has no name"
  file := "ci.yml"
  snippet := Snippet.extract "on: push\n\n" 1 2

theorem printsSnippet_blankEnded :
    1 ≤ (Text.lines "on: push\n\n").length ∧
    ∃ s first last rows, blankEnded.snippet = some s ∧
    Snippet.Quotes "on: push\n\n" 1 first last s ∧
      findingText {} blankEnded = findingText { showSnippets := false } blankEnded ++
        Text.join "" (rows.map Row.print) ∧
      ShowsLines "on: push\n\n" 1 first last rows :=
  ⟨by decide, printsSnippet (by decide) (by decide) 2 rfl rfl⟩

end PipelineAudit.Console
