import Mathlib.Data.List.Induction
import PipelineAudit.Pattern.Credential
import PipelineAudit.Proofs.Pattern.Expression

/-!
# Secrets in expressions

An expression uses the context of secrets where the name of that context stands outside string
literals and is not a part of a longer name (`Expression.MentionsSecrets`): it takes a secret from
it by a name behind a dot or by a text in brackets, or it takes the context as a whole
(`Expression.UsesSecrets`).

The pattern for secrets looks for one of these only. It is found in a text exactly if a part between
an opening and a closing holds no closing brace and names a secret: a dot and the beginning of a
name follow the word (`Credential.occursIn_secretReference_iff`). An expression that uses a secret
by its name does (`Expression.MentionsSecrets.namesSecret`).
-/

namespace PipelineAudit

namespace Expression

/-- A text stands between an opening and a closing. -/
def Encloses (text inside : List Char) : Prop :=
  ∃ before after, text = before ++ (opening ++ (inside ++ (closing ++ after)))

/-- A character that names in expressions are made of. -/
def isNameChar (c : Char) : Bool := Text.isWord c || c == '-'

/-- The characters that follow stand outside string literals: as many of them were closed as
opened. -/
def EndsUnquoted (text : List Char) : Prop := text.count '\'' % 2 = 0

/-- A text is the inside of an expression: it ends with the first closing outside string
literals. -/
structure IsInside (text inside : List Char) : Prop where
  encloses : Encloses text inside
  unquoted : EndsUnquoted inside
  first : ∀ u v, inside ++ closing = u ++ (closing ++ v) → EndsUnquoted u → v = []

/-- The context that holds the secrets. -/
def secrets : List Char := ['s', 'e', 'c', 'r', 'e', 't', 's']

/-- The name of the context stands in an expression before some text, outside string literals and
not as a part of a longer name. -/
def MentionsSecrets (inside behind : List Char) : Prop :=
  ∃ u, inside = u ++ (secrets ++ behind) ∧ EndsUnquoted u ∧
  (∀ c ∈ u.getLast?, isNameChar c = false) ∧ ∀ c ∈ behind.head?, isNameChar c = false

/-- A character of the name of a secret. -/
def isSecretNameChar (c : Char) : Bool := (CharSet.alnum ||| .ofString "_").contains c

/-- An expression uses the context of secrets. -/
inductive UsesSecrets (inside : List Char) : Prop where
  /-- By a name behind a dot. -/
  | byName (c : Char) (rest : List Char) :
      MentionsSecrets inside ('.' :: c :: rest) → isSecretNameChar c = true → UsesSecrets inside
  /-- By a text in brackets. -/
  | byText (rest : List Char) : MentionsSecrets inside ('[' :: '\'' :: rest) → UsesSecrets inside
  /-- As a whole. -/
  | whole (behind : List Char) :
      MentionsSecrets inside behind → (∀ c ∈ behind.head?, c ≠ '.' ∧ c ≠ '[') → UsesSecrets inside

/-- A text names a secret: a dot and the beginning of a name follow the word, and no character of a
word stands before it. -/
def NamesSecret (text : List Char) : Prop :=
  ∃ u c rest, text = u ++ (secrets ++ '.' :: c :: rest) ∧
  (∀ x ∈ u.getLast?, Text.isWord x = false) ∧ isSecretNameChar c = true

variable {text inside rest u : List Char} {c : Char}

/-- What holds no closing brace is an inside where it is enclosed, if all its string literals are
closed. -/
lemma IsInside.of_notMem (hencloses : Encloses text inside) (hunquoted : EndsUnquoted inside)
    (hbrace : '\x7d' ∉ inside) : IsInside text inside := by
  refine ⟨hencloses, hunquoted, fun u v huv _ => ?_⟩
  have hlen := congrArg List.length huv
  simp only [closing, List.length_append, List.length_cons, List.length_nil] at hlen
  rcases List.append_eq_append_iff.mp huv with ⟨w, rfl, -⟩ | ⟨w, rfl, hw⟩
  · rw [List.length_append] at hlen
    exact List.eq_nil_of_length_eq_zero (by omega)
  · cases w with
    | nil => exact List.eq_nil_of_length_eq_zero (by simpa using hlen)
    | cons x w =>
        obtain rfl : '\x7d' = x := (List.cons.inj hw).1
        simp at hbrace

/-- An expression that uses a secret by its name names a secret. -/
lemma MentionsSecrets.namesSecret (h : MentionsSecrets inside ('.' :: c :: rest))
    (hc : isSecretNameChar c = true) : NamesSecret inside := by
  obtain ⟨u, hu, -, hborder, -⟩ := h
  refine ⟨u, c, rest, hu, fun x hx => ?_, hc⟩
  have := hborder x hx
  rw [isNameChar, Bool.or_eq_false_iff] at this
  exact this.1

end Expression

namespace Credential

open Regex Expression

variable {before : Option Char} {text rest u : List Char}

/-- What holds no closing brace is passed by the stretches around the name of a secret. -/
lemma reads_star_noneOf_brace : (star (noneOf "\x7d")).Reads before text rest ↔ '\x7d' ∉ text := by
  have hset (c : Char) : (CharSet.compl (.ofString "\x7d")).contains c = true ↔ c ≠ '\x7d' := by
    simp [CharSet.contains, CharSet.ofString]
  rw [noneOf, reads_star_char]
  simp only [hset, ne_eq]
  exact List.forall_mem_ne'

/-- Behind an opening and some text begins a word, if that text does not end with a character of a
word. -/
lemma atBoundary_opening {offset : Nat} :
    atBoundary ⟨charAfter before (opening ++ u), secrets ++ rest, offset⟩ = true ↔
      ∀ x ∈ u.getLast?, Text.isWord x = false := by
  have hs : Text.isWord 's' = true := by decide +kernel
  have hbrace : Text.isWord '\x7b' = false := by decide +kernel
  rw [charAfter_append]
  rcases u.eq_nil_or_concat' with rfl | ⟨u, x, rfl⟩
  · simp [atBoundary, charAfter, opening, secrets, hs, hbrace]
  · simp [atBoundary, charAfter_append, charAfter, secrets, hs]

/-- A name of a secret holds no closing brace. -/
lemma ne_brace_of_isSecretNameChar {c : Char} (h : isSecretNameChar c = true) : '\x7d' ≠ c := by
  rintro rfl
  revert h
  decide

/-- The pattern for secrets reads an opening, a text without closing braces that names a secret, and
a closing. -/
lemma reads_secretReference_iff : secretReference.Reads before text rest ↔
    ∃ inside, text = opening ++ (inside ++ closing) ∧ '\x7d' ∉ inside ∧ NamesSecret inside := by
  have hopening {before text rest} : exprOpen.Reads before text rest ↔ text = opening :=
    reads_ofChars
  have hclosing {before text rest} : exprClose.Reads before text rest ↔ text = closing :=
    reads_ofChars
  have hword {before text rest} : (lit "secrets.").Reads before text rest ↔ text = secrets
      ++ ['.'] := reads_lit
  constructor
  · rintro ⟨_, _, rfl,
      ⟨_, w, rfl, ⟨_, name, rfl, ⟨_, _, rfl, ⟨_, _, rfl, ⟨_, u, rfl, hopen, hu⟩, hborder⟩,
      hsecrets⟩, hname⟩, hw⟩, hclose⟩
    obtain rfl := hopening.mp hopen
    obtain rfl := hword.mp hsecrets
    obtain rfl := hclosing.mp hclose
    obtain ⟨rfl, hborder⟩ := hborder
    rw [reads_star_noneOf_brace] at hu hw
    obtain ⟨hne, hname⟩ := reads_plus_char.mp hname
    obtain ⟨c, name, rfl⟩ := List.exists_cons_of_ne_nil hne
    have hbrace : '\x7d' ∉ c :: name := fun hmem => ne_brace_of_isSecretNameChar (hname _ hmem) rfl
    rw [List.append_assoc secrets] at hborder
    refine ⟨u ++ (secrets ++ '.' :: c :: (name ++ w)), by simp, ?_, u, c, name ++ w, rfl,
      atBoundary_opening.mp hborder, hname c List.mem_cons_self⟩
    simp_all [secrets]
  · rintro ⟨_, rfl, hbrace, u, c, w, rfl, hborder, hc⟩
    have hu : '\x7d' ∉ u := fun hmem => hbrace (by simp [hmem])
    have hw : '\x7d' ∉ w := fun hmem => hbrace (by simp [hmem])
    have hname : [c] ≠ [] ∧ ∀ x ∈ [c], isSecretNameChar x = true :=
      ⟨List.cons_ne_nil _ _, by simpa using hc⟩
    refine ⟨opening ++ u ++ [] ++ (secrets ++ ['.']) ++ [c] ++ w, closing, by simp,
      ⟨_, w, rfl, ⟨_, [c], rfl, ⟨_, secrets ++ ['.'], rfl, ⟨_, [], rfl,
        ⟨opening, u, rfl, hopening.mpr rfl, reads_star_noneOf_brace.mpr hu⟩, rfl, ?_⟩,
          hword.mpr rfl⟩,
        reads_plus_char.mpr hname⟩, reads_star_noneOf_brace.mpr hw⟩, hclosing.mpr rfl⟩
    rw [List.append_assoc secrets]
    exact atBoundary_opening.mpr hborder

/-- **What the pattern for secrets finds**: a text without closing braces that names a secret,
between an opening and a closing. -/
theorem occursIn_secretReference_iff {s : String} : secretReference.occursIn s = true ↔
    ∃ inside, Encloses s.toList inside ∧ '\x7d' ∉ inside ∧ NamesSecret inside := by
  rw [occursIn_iff]
  constructor
  · rintro ⟨u, v, w, hs, hreads⟩
    obtain ⟨inside, rfl, hbrace, hnames⟩ := reads_secretReference_iff.mp hreads
    exact ⟨inside, ⟨u, w, by simp [hs]⟩, hbrace, hnames⟩
  · rintro ⟨inside, ⟨u, w, hs⟩, hbrace, hnames⟩
    exact ⟨u, opening ++ (inside ++ closing), w, by simp [hs],
      reads_secretReference_iff.mpr ⟨inside, rfl, hbrace, hnames⟩⟩

end Credential

end PipelineAudit
