import PipelineAudit.Finding.Basic
import PipelineAudit.Proofs.Text.Lines
import PipelineAudit.Proofs.Yaml.Position

/-!
# What a snippet quotes

A snippet around a line of the source quotes the lines from one before it to one behind it, clipped
at both ends of the source, and says where among them the line is (`Snippet.Quotes`). Every line of
the source has one, also the first and the last (`Snippet.exists_extract`).
-/

namespace PipelineAudit.Snippet

/-- The lines of a source from one number to another, both included. -/
def linesOf (source : String) (first last : Nat) : List String :=
  ((Text.lines source).take last).drop (first - 1)

/-- A snippet quotes the lines of the source from a first to a last number, and marks a line between
them. -/
structure Quotes (source : String) (n first last : Nat) (s : Snippet) : Prop where
  startLine : s.startLine = first
  endLine : s.endLine = last
  /-- It starts at or before the line and ends at or behind it, within the source. -/
  within : 1 ≤ first ∧ first ≤ n ∧ n ≤ last ∧ last ≤ (Text.lines source).length
  /-- The mark counts from the start of the snippet. -/
  highlight : ∃ mark : Int, s.highlight = .int mark ∧ s.startLine + mark - 1 = n
  content : s.content = Text.join "\n" (linesOf source first last)
  /-- The content, cut at newlines, is the lines again. -/
  pieces : Text.splitOn '\n' s.content = linesOf source first last

variable {source line : String} {n first last k : Nat} {s : Snippet}

/-- Quoted lines hold no line break. -/
lemma isPlain_of_mem_linesOf (h : line ∈ linesOf source first last) : Text.IsPlain line :=
  Text.isPlain_of_mem_lines (List.mem_of_mem_take (List.mem_of_mem_drop h))

/-- How many lines are quoted. -/
lemma length_linesOf (h : last ≤ (Text.lines source).length) :
    (linesOf source first last).length = last - (first - 1) := by
  rw [linesOf, List.length_drop, List.length_take, Nat.min_eq_left h]

/-- The quoted lines are those of the source, from the first on. -/
lemma getElem?_linesOf (h : first - 1 + k < last) :
    (linesOf source first last)[k]? = (Text.lines source)[first - 1 + k]? := by
  rw [linesOf, List.getElem?_drop, List.getElem?_take_of_lt h]

/-- A snippet quotes the lines from its first to its last. -/
lemma Quotes.length_linesOf (h : Quotes source n first last s) :
    (linesOf source first last).length = last + 1 - first := by
  obtain ⟨hfirst, -, -, hlast⟩ := h.within
  rw [Snippet.length_linesOf hlast]
  omega

/-- The lines between are those quoted. -/
lemma between_eq_linesOf (source : String) (first last : Nat) :
    between (Text.lines source) ((first : Int) - 1) last = linesOf source first last := by
  rw [between, if_neg (by omega), linesOf]
  congr 1
  omega

/-- The snippet around a line of the source reaches as far as the source does. -/
lemma extract_eq (hn : 1 ≤ n) (hcount : n ≤ (Text.lines source).length) (context : Nat)
    (hfirst : first = max 1 (n - context))
    (hlast : last = min (Text.lines source).length (n + context)) :
    extract source n context = some {
      content := Text.join "\n" (linesOf source first last)
      startLine := first
      endLine := last
      highlight := .int (n - first + 1) } := by
  have hstart : max 1 ((n : Int) - context) = first := by omega
  have hstop : min ((Text.lines source).length : Int) (n + context) = last := by omega
  rw [extract, if_neg (by omega), if_neg (by omega)]
  simp only [hstart, hstop, between_eq_linesOf]

/-- Every line of the source has a snippet around it. -/
theorem exists_extract (hn : 1 ≤ n) (hcount : n ≤ (Text.lines source).length) (context : Nat) :
    ∃ s first last, extract source n context = some s ∧ Quotes source n first last s := by
  have hextract := extract_eq hn hcount context rfl rfl
  have hne : linesOf source (max 1 (n - context)) (min (Text.lines source).length (n + context)) ≠
      [] := by
    rw [← List.length_pos_iff_ne_nil, length_linesOf (Nat.min_le_left _ _)]
    omega
  refine ⟨_, max 1 (n - context), min (Text.lines source).length (n + context), hextract, ?_⟩
  exact
    { startLine := rfl
      endLine := rfl
      within := by omega
      highlight := ⟨_, rfl, by dsimp only; omega⟩
      content := rfl
      pieces := Text.splitOn_join (fun _ => isPlain_of_mem_linesOf) hne }

/-- A place that is recorded as a number within the source has a snippet around it. -/
theorem exists_around {place : Value} (hplace : place.IsPlace)
    (hnumber : place.number? = some (n : Int)) (hn : 1 ≤ n)
    (hcount : n ≤ (Text.lines source).length) :
    ∃ s first last, around source place = .ok (some s) ∧ Quotes source n first last s := by
  have haround : around source place = .ok (extract source n reach) := by
    cases hplace with
    | null => cases hnumber
    | int m => simp_all [around, Value.number?]
    | bool b => simp_all [around, Value.number?]
  obtain ⟨s, first, last, hs, hquotes⟩ := exists_extract hn hcount 2
  exact ⟨s, first, last, by rw [haround, ← hs]; rfl, hquotes⟩

end PipelineAudit.Snippet
