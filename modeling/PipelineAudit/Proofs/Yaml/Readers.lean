import PipelineAudit.Proofs.Text.Lines
import PipelineAudit.Proofs.Workflow.Document
import PipelineAudit.Yaml.Token.Lexer

/-!
# Reading moves forward

What a reader of tokens leaves of the text is a later part of it (`Yaml.Input.LeadsTo`). Each reader
is put together from steps that do so (`Yaml.Input.Reads.bind`), and the token that it returns
starts where the reader did (`Yaml.Input.ReadsToken`). Later positions stay within the text: a text
of so many lines has room for the lines before a position and for those that are left
(`Yaml.Input.Fits`), because a character that starts a new line ends one
(`Yaml.Input.line_markAfter_add_le`).
-/

namespace PipelineAudit.Yaml.Input

variable {α β : Type} {inp inp₁ inp₂ inp' : Input}

/-! ## Later positions -/

/-- An input is what is left of another one after some characters. -/
def LeadsTo (inp inp' : Input) : Prop := ∃ k, inp' = inp.forward k

/-- Moving on twice is moving on by both distances. -/
lemma forward_forward (k l : Nat) (inp : Input) :
    (inp.forward k).forward l = inp.forward (k + l) := by
  induction k generalizing inp with
  | zero => rw [forward, Nat.zero_add]
  | succ k ih =>
      obtain ⟨cs, m⟩ := inp
      rw [Nat.add_right_comm]
      cases cs with
      | nil => rw [forward, forward, ih]
      | cons c rest => rw [forward, forward, ih]

/-- Nothing need be taken. -/
lemma LeadsTo.refl (inp : Input) : inp.LeadsTo inp := ⟨0, rfl⟩

/-- What is later than a later part is later. -/
lemma LeadsTo.trans (h₁ : inp.LeadsTo inp₁) (h₂ : inp₁.LeadsTo inp₂) : inp.LeadsTo inp₂ := by
  obtain ⟨k, rfl⟩ := h₁
  obtain ⟨l, rfl⟩ := h₂
  exact ⟨k + l, forward_forward k l inp⟩

/-- Moving on leads to a later part. -/
lemma leadsTo_forward (inp : Input) (k : Nat) : inp.LeadsTo (inp.forward k) := ⟨k, rfl⟩

/-- So does taking characters. -/
lemma leadsTo_takeWhile (inp : Input) (p : Char → Bool) : inp.LeadsTo (inp.takeWhile p).2 :=
  ⟨_, rfl⟩

/-- So does skipping characters. -/
lemma leadsTo_dropWhile (inp : Input) (p : Char → Bool) : inp.LeadsTo (inp.dropWhile p) := ⟨_, rfl⟩

/-- So does passing a line break. -/
lemma leadsTo_lineBreak (inp : Input) : inp.LeadsTo inp.lineBreak.2 := by
  unfold lineBreak
  dsimp only
  split_ifs
  · exact leadsTo_forward inp 2
  · exact leadsTo_forward inp 1
  · exact leadsTo_forward inp 1
  · exact .refl inp

/-- The blanks behind something, and the comment behind them. -/
lemma leadsTo_comment (inp : Input) (p : Char → Bool) :
    inp.LeadsTo (if (inp.dropWhile (· == ' ')).peek == '#' then
        (inp.dropWhile (· == ' ')).dropWhile p
      else inp.dropWhile (· == ' ')) := by
  split_ifs
  · exact (leadsTo_dropWhile inp _).trans (leadsTo_dropWhile _ p)
  · exact leadsTo_dropWhile inp _

/-! ## Readers -/

/-- What a reader returns is good, and what it leaves of the text is a later part of it. -/
def Reads (inp : Input) (x : Except Error α) (rest : α → Input) (good : α → Prop) : Prop :=
  ∀ a, x = .ok a → inp.LeadsTo (rest a) ∧ good a

/-- What a reader leaves of the text is a later part of it. -/
abbrev Advances (inp : Input) (x : Except Error (α × Input)) : Prop :=
  Reads inp x Prod.snd fun _ => True

/-- A reader returns a token that starts where it started, and that announces no key. -/
abbrev ReadsToken (inp : Input) (x : Except Error (Token × Input)) : Prop :=
  Reads inp x Prod.snd fun p => p.1.start = inp.mark ∧ p.1.kind ≠ .key

namespace Reads

variable {rest : α → Input} {rest' : β → Input} {good : α → Prop} {good' : β → Prop}

/-- A result is fine if what is left comes later. -/
lemma ok {a : α} (h : inp.LeadsTo (rest a)) (ha : good a) : Reads inp (.ok a) rest good := by
  intro _ heq
  cases heq
  exact ⟨h, ha⟩

/-- The same for a result that is returned. -/
lemma pure {a : α} (h : inp.LeadsTo (rest a)) (ha : good a) : Reads inp (Pure.pure a) rest good :=
  ok h ha

/-- Of a reader that fails nothing is asked. -/
lemma error (e : Error) : Reads inp (.error e) rest good := nofun

/-- What starts at a later part ends at one. -/
lemma from_later {x : Except Error α} (h : inp.LeadsTo inp₁) (hx : Reads inp₁ x rest good) :
    Reads inp x rest good :=
  fun a heq => ⟨h.trans (hx a heq).1, (hx a heq).2⟩

/-- Two readers in a row read on, where the second one starts at what the first one leaves. -/
lemma bind {x : Except Error α} {f : α → Except Error β} (hx : Reads inp x rest good)
    (hf : ∀ a, good a → Reads (rest a) (f a) rest' good') : Reads inp (x >>= f) rest' good' := by
  intro b heq
  obtain ⟨a, hfirst, heq⟩ := bind_eq_ok.mp heq
  obtain ⟨hlater, ha⟩ := hx a hfirst
  exact (hf a ha).from_later hlater b heq

/-- A complaint on the way moves nothing. -/
lemma guard {c : Prop} [Decidable c] {e : Error} {f : β → Except Error α} {x : Except Error α}
    (hx : Reads inp x rest good) : Reads inp (if c then throw e >>= f else x) rest good := by
  split_ifs
  · exact .error e
  · exact hx

/-- What is done with a result moves nothing. -/
lemma map {x : Except Error α} {f : α → β} (hx : Reads inp x rest good)
    (hrest : ∀ a, rest' (f a) = rest a)
    (hgood : ∀ a, good a → good' (f a)) : Reads inp (x.map f) rest' good' := by
  intro b heq
  cases x with
  | error e => cases heq
  | ok a =>
      cases heq
      rw [hrest]
      exact (hx a rfl).imp_right (hgood a)

end Reads

/-! ## Names, tags and directives -/

/-- An anchor or an alias is read as one token. -/
lemma readsToken_readAnchor (inp : Input) : ReadsToken inp inp.readAnchor := by
  unfold readAnchor
  dsimp only
  split
  · exact .error _
  · split
    · exact .error _
    · refine .ok ((leadsTo_forward inp 1).trans (leadsTo_takeWhile _ _)) ⟨rfl, ?_⟩
      dsimp only
      split_ifs <;> exact nofun

/-- Percent escapes are read from left to right. -/
lemma advances_readEscapedBytes (word : String) (start : Mark) (fuel : Nat) (inp : Input) :
    Advances inp (readEscapedBytes word start fuel inp) := by
  induction fuel generalizing inp with
  | zero => exact .ok (.refl inp) trivial
  | succ fuel ih =>
      unfold readEscapedBytes
      dsimp only
      split_ifs
      · exact .ok (.refl inp) trivial
      · split
        · exact .error _
        · have hlater := (leadsTo_forward inp 1).trans (leadsTo_forward _ 2)
          exact .from_later hlater ((ih _).map (fun _ => rfl) fun _ _ => trivial)

/-- So are the characters of a tag. -/
lemma advances_readUriChars (word : String) (start : Mark) (fuel : Nat) (inp : Input) :
    Advances inp (readUriChars word start fuel inp) := by
  induction fuel generalizing inp with
  | zero => exact .ok (.refl inp) trivial
  | succ fuel ih =>
      unfold readUriChars
      split_ifs
      · refine (advances_readEscapedBytes word start _ inp).bind fun ⟨bytes, inp₁⟩ _ => ?_
        dsimp only
        split
        · exact .error _
        · exact (ih inp₁).bind fun ⟨more, inp₂⟩ _ => .ok (.refl inp₂) trivial
      · refine .from_later (leadsTo_takeWhile inp isUriChar) ?_
        exact (ih _).bind fun ⟨more, inp₂⟩ _ => .ok (.refl inp₂) trivial
      · exact .ok (.refl inp) trivial

/-- So is a tag. -/
lemma advances_readUri (word : String) (start : Mark) (inp : Input) :
    Advances inp (readUri word start inp) := by
  unfold readUri
  split_ifs
  · exact (advances_readUriChars word start _ inp).map (fun _ => rfl) fun _ _ => trivial
  · exact .error _

/-- So is a handle. -/
lemma advances_readHandle (word : String) (start : Mark) (inp : Input) :
    Advances inp (readHandle word start inp) := by
  unfold readHandle
  dsimp only
  split_ifs
  · exact .error _
  · exact .ok (leadsTo_forward inp 1) trivial
  · exact .error _
  · exact .ok (((leadsTo_forward inp 1).trans (leadsTo_takeWhile _ _)).trans (leadsTo_forward _ 1))
      trivial

/-- So is a number of a version. -/
lemma advances_readVersionNumber (start : Mark) (inp : Input) :
    Advances inp (readVersionNumber start inp) := by
  unfold readVersionNumber
  dsimp only
  split_ifs
  · exact .error _
  · exact .error _
  · exact .ok (leadsTo_takeWhile inp _) trivial

/-- A tag with its handle is read as one token. -/
lemma readsToken_readTag (inp : Input) : ReadsToken inp inp.readTag := by
  unfold readTag
  extract_lets start next finish word resume
  have hfinish : ∀ p, Reads p.2.2 (finish p) Prod.snd fun q => q.1.start = inp.mark ∧
      q.1.kind ≠ .key := by
    rintro ⟨handle, suffix, inp₁⟩
    exact .guard (.ok (.refl inp₁) ⟨rfl, nofun⟩)
  have hresume : ∀ p : String × Input,
      Reads p.2 (resume p) Prod.snd fun q => q.1.start = inp.mark ∧ q.1.kind ≠ .key := by
    rintro ⟨handle, inp₁⟩
    exact (advances_readUri "tag" start inp₁).bind fun ⟨suffix, inp₂⟩ _ =>
      hfinish (some handle, suffix, inp₂)
  split_ifs
  · refine .from_later (leadsTo_forward inp 2)
      ((advances_readUri _ _ _).bind fun ⟨suffix, inp₁⟩ _ => .guard ?_)
    exact .from_later (leadsTo_forward inp₁ 1) (hfinish (none, suffix, inp₁.forward 1))
  · exact .from_later (leadsTo_forward inp 1) (hfinish (none, "!", inp.forward 1))
  · exact (advances_readHandle "tag" start inp).bind fun p _ => hresume p
  · exact .from_later (leadsTo_forward inp 1) (hresume ("!", inp.forward 1))

/-- A directive is read as one token, with the rest of its line. -/
lemma readsToken_readDirective (inp : Input) : ReadsToken inp inp.readDirective := by
  unfold readDirective
  extract_lets start finish
  have hfinish : ∀ p, Reads p.2.2 (finish p) Prod.snd fun q => q.1.start = inp.mark ∧
      q.1.kind ≠ .key := by
    rintro ⟨directive, stop, inp₁⟩
    exact .guard (.ok ((leadsTo_comment inp₁ _).trans (leadsTo_lineBreak _)) ⟨rfl, nofun⟩)
  have hname := (leadsTo_forward inp 1).trans (leadsTo_takeWhile _ isNameChar)
  generalize (inp.forward 1).takeWhile isNameChar = named at hname ⊢
  obtain ⟨name, inp₁⟩ := named
  refine .from_later hname (.guard ?_)
  dsimp only
  split_ifs
  · refine .from_later (leadsTo_dropWhile inp₁ (· == ' ')) ?_
    refine (advances_readVersionNumber start _).bind fun ⟨major, inp₂⟩ _ => .guard ?_
    refine .from_later (leadsTo_forward inp₂ 1) ?_
    refine (advances_readVersionNumber start _).bind fun ⟨minor, inp₃⟩ _ => .guard ?_
    exact hfinish (.version major minor, inp₃.mark, inp₃)
  · refine .from_later (leadsTo_dropWhile inp₁ (· == ' ')) ?_
    refine (advances_readHandle "directive" start _).bind fun ⟨handle, inp₂⟩ _ => .guard ?_
    refine .from_later (leadsTo_dropWhile inp₂ (· == ' ')) ?_
    refine (advances_readUri "directive" start _).bind fun ⟨head, inp₃⟩ _ => .guard ?_
    exact hfinish (.handle handle head, inp₃.mark, inp₃)
  · exact .from_later (leadsTo_dropWhile inp₁ _) (hfinish (.other _, inp₁.mark, _))

/-! ## Quoted scalars -/

/-- Line breaks in quotes are read from left to right. -/
lemma advances_readQuotedBreaks (start : Mark) (fuel : Nat) (inp : Input) :
    Advances inp (readQuotedBreaks start fuel inp) := by
  induction fuel generalizing inp with
  | zero => exact .ok (.refl inp) trivial
  | succ fuel ih =>
      unfold readQuotedBreaks
      dsimp only
      have hblanks := leadsTo_dropWhile inp fun c => c == ' ' || c == '\t'
      split_ifs
      · exact .error _
      · refine .from_later (hblanks.trans (leadsTo_lineBreak _)) ?_
        exact (ih _).bind fun ⟨more, inp₂⟩ _ => .ok (.refl inp₂) trivial
      · exact .ok hblanks trivial

/-- So are blanks in quotes. -/
lemma advances_readQuotedSpaces (start : Mark) (inp : Input) :
    Advances inp (readQuotedSpaces start inp) := by
  unfold readQuotedSpaces
  have hblanks := leadsTo_takeWhile inp fun c => c == ' ' || c == '\t'
  generalize inp.takeWhile (fun c => c == ' ' || c == '\t') = taken at hblanks ⊢
  obtain ⟨blanks, inp₁⟩ := taken
  refine .from_later hblanks (.guard ?_)
  dsimp only
  split
  · refine .from_later (leadsTo_lineBreak inp₁) ?_
    exact (advances_readQuotedBreaks start _ _).bind fun ⟨breaks, inp₂⟩ _ =>
      .ok (.refl inp₂) trivial
  · exact .pure (.refl inp₁) trivial

/-- So is what follows a backslash. -/
lemma advances_readEscape (start : Mark) (inp : Input) : Advances inp (readEscape start inp) := by
  unfold readEscape
  dsimp only
  split
  · exact .ok (leadsTo_forward inp 1) trivial
  · refine .from_later (leadsTo_forward inp 1) ?_
    split
    · exact .error _
    · exact .guard (.guard (.ok (leadsTo_forward _ _) trivial))
  · split_ifs
    · exact .from_later (leadsTo_lineBreak inp) (advances_readQuotedBreaks start _ _)
    · exact .error _

/-- So is text in quotes up to a blank. -/
lemma advances_readQuotedText (double : Bool) (start : Mark) (fuel : Nat) (inp : Input) :
    Advances inp (readQuotedText double start fuel inp) := by
  induction fuel generalizing inp with
  | zero => exact .ok (.refl inp) trivial
  | succ fuel ih =>
      unfold readQuotedText
      have htaken := leadsTo_takeWhile inp isQuotedText
      generalize inp.takeWhile isQuotedText = taken at htaken ⊢
      obtain ⟨taken, inp₁⟩ := taken
      refine .from_later htaken ?_
      dsimp only
      split_ifs
      · refine .from_later (leadsTo_forward inp₁ 2) ?_
        exact (ih _).bind fun ⟨more, inp₂⟩ _ => .pure (.refl inp₂) trivial
      · refine .from_later (leadsTo_forward inp₁ 1) ?_
        exact (ih _).bind fun ⟨more, inp₂⟩ _ => .pure (.refl inp₂) trivial
      · refine .from_later (leadsTo_forward inp₁ 1) ?_
        refine (advances_readEscape start _).bind fun ⟨escaped, inp₂⟩ _ => ?_
        exact (ih inp₂).bind fun ⟨more, inp₃⟩ _ => .pure (.refl inp₃) trivial
      · exact .pure (.refl inp₁) trivial

/-- So are text and blanks up to the closing quote. -/
lemma advances_readQuotedRest (double : Bool) (start : Mark) (fuel : Nat) (inp : Input) :
    Advances inp (readQuotedRest double start fuel inp) := by
  induction fuel generalizing inp with
  | zero => exact .ok (.refl inp) trivial
  | succ fuel ih =>
      unfold readQuotedRest
      generalize (if double then '"' else '\'') = quote
      split_ifs
      · exact .ok (.refl inp) trivial
      · refine (advances_readQuotedSpaces start inp).bind fun ⟨spaces, inp₁⟩ _ => ?_
        refine (advances_readQuotedText double start _ inp₁).bind fun ⟨text, inp₂⟩ _ => ?_
        exact (ih inp₂).bind fun ⟨more, inp₃⟩ _ => .ok (.refl inp₃) trivial

/-- A quoted scalar is read as one token. -/
lemma readsToken_readQuoted (double : Bool) (inp : Input) :
    ReadsToken inp (inp.readQuoted double) := by
  unfold readQuoted
  extract_lets start inp₀
  refine .from_later (leadsTo_forward inp 1) ?_
  refine (advances_readQuotedText double start _ _).bind fun ⟨text, inp₁⟩ _ => ?_
  refine (advances_readQuotedRest double start _ inp₁).bind fun ⟨more, inp₂⟩ _ => ?_
  exact .ok (leadsTo_forward inp₂ 1) ⟨rfl, nofun⟩

/-! ## Block scalars -/

/-- A digit for the indentation is passed. -/
lemma advances_readIndentIndicator (start : Mark) (inp : Input) :
    Advances inp (readIndentIndicator start inp) := by
  unfold readIndentIndicator
  split_ifs
  · exact .error _
  · exact .ok (leadsTo_forward inp 1) trivial
  · exact .ok (.refl inp) trivial

/-- The indicators of a block scalar are passed, in either order. -/
lemma reads_readBlockIndicators (start : Mark) (inp : Input) :
    Reads inp (readBlockIndicators start inp) (fun p => p.2.2) fun _ => True := by
  unfold readBlockIndicators
  extract_lets finish
  have hfinish : ∀ p, Reads p.2.2 (finish p) (fun p => p.2.2) fun _ => True := by
    rintro ⟨chomping, increment, inp₁⟩
    exact .guard (.pure (.refl inp₁) trivial)
  split
  · refine .from_later (leadsTo_forward inp 1) ?_
    exact (advances_readIndentIndicator start _).bind fun ⟨increment, inp₁⟩ _ =>
      hfinish (_, increment, inp₁)
  · refine (advances_readIndentIndicator start inp).bind fun ⟨increment, inp₁⟩ _ => ?_
    dsimp only
    split
    · exact .from_later (leadsTo_forward inp₁ 1) (hfinish (_, _, inp₁.forward 1))
    · exact hfinish (.clip, _, inp₁)

/-- Looking for the first line of a block scalar passes blank lines. -/
lemma leadsTo_readBlockIndentation (fuel widest : Nat) (stop : Mark) (inp : Input) :
    inp.LeadsTo (readBlockIndentation fuel widest stop inp).2.2.2 := by
  induction fuel generalizing widest stop inp with
  | zero => exact .refl inp
  | succ fuel ih =>
      unfold readBlockIndentation
      dsimp only
      split_ifs
      · exact (leadsTo_forward inp 1).trans (ih _ _ _)
      · exact (leadsTo_lineBreak inp).trans (ih _ _ _)
      · exact .refl inp

/-- The indentation of a line is passed. -/
lemma leadsTo_skipIndent (indent : Int) (fuel : Nat) (inp : Input) :
    inp.LeadsTo (skipIndent indent fuel inp) := by
  induction fuel generalizing inp with
  | zero => exact .refl inp
  | succ fuel ih =>
      unfold skipIndent
      split_ifs
      · exact (leadsTo_forward inp 1).trans (ih _)
      · exact .refl inp

/-- Blank lines between the lines of a block scalar are passed. -/
lemma leadsTo_readBlockBreaks (indent : Int) (fuel : Nat) (stop : Mark) (inp : Input) :
    inp.LeadsTo (readBlockBreaks indent fuel stop inp).2.2 := by
  induction fuel generalizing stop inp with
  | zero => exact .refl inp
  | succ fuel ih =>
      have hskip := leadsTo_skipIndent indent inp.rest.length inp
      unfold readBlockBreaks
      dsimp only
      split_ifs
      · exact (hskip.trans (leadsTo_lineBreak _)).trans (ih _ _)
      · exact hskip

/-- The lines of a block scalar are passed. -/
lemma leadsTo_readBlockLines (folded : Bool) (indent : Int) (fuel : Nat) (breaks : List (List Char))
    (stop : Mark)
    (inp : Input) : inp.LeadsTo (readBlockLines folded indent fuel breaks stop inp).2.2.2.2 := by
  induction fuel generalizing breaks stop inp with
  | zero => exact .refl inp
  | succ fuel ih =>
      have hline := (leadsTo_takeWhile inp fun c => !(isBreakOrEnd c)).trans (leadsTo_lineBreak _)
      unfold readBlockLines
      dsimp only
      split
      · exact .refl inp
      · have hnext : ∀ fuel stop, inp.LeadsTo (readBlockBreaks indent fuel stop _).2.2 := fun _ _ =>
          hline.trans (leadsTo_readBlockBreaks indent _ _ _)
        split
        · exact (hnext _ _).trans (ih _ _ _)
        · exact hnext _ _

/-- A block scalar is read as one token. -/
lemma readsToken_readBlock (folded : Bool) (parent : Int) (inp : Input) :
    ReadsToken inp (inp.readBlock folded parent) := by
  unfold readBlock
  extract_lets start least
  refine .from_later (leadsTo_forward inp 1) ?_
  refine (reads_readBlockIndicators start _).bind fun ⟨chomping, increment, inp₁⟩ _ => .guard ?_
  beta_reduce
  extract_lets inp₂
  have hinp₂ : inp₁.LeadsTo inp₂ := (leadsTo_comment inp₁ _).trans (leadsTo_lineBreak _)
  clear_value inp₂
  refine .from_later hinp₂ ?_
  cases increment with
  | none =>
      dsimp only
      exact .pure
        ((leadsTo_readBlockIndentation _ _ _ inp₂).trans (leadsTo_readBlockLines folded _ _ _ _ _))
        ⟨rfl, nofun⟩
  | some n =>
      dsimp only
      exact .pure
        ((leadsTo_readBlockBreaks _ _ _ inp₂).trans (leadsTo_readBlockLines folded _ _ _ _ _))
        ⟨rfl, nofun⟩

/-! ## Plain scalars -/

/-- Blank lines in a plain scalar are passed. -/
lemma leadsTo_readPlainBreaks (fuel : Nat) (inp : Input) :
    inp.LeadsTo (readPlainBreaks fuel inp).2 := by
  induction fuel generalizing inp with
  | zero => exact .refl inp
  | succ fuel ih =>
      unfold readPlainBreaks
      dsimp only
      split_ifs
      · exact (leadsTo_forward inp 1).trans (ih _)
      · exact leadsTo_lineBreak inp
      · exact (leadsTo_lineBreak inp).trans (ih _)
      · exact .refl inp

/-- So are the blanks between its words. -/
lemma leadsTo_readPlainSpaces (inp : Input) : inp.LeadsTo inp.readPlainSpaces.2.2 := by
  unfold readPlainSpaces
  have hblanks := leadsTo_takeWhile inp (· == ' ')
  generalize inp.takeWhile (· == ' ') = taken at hblanks ⊢
  obtain ⟨blanks, inp₁⟩ := taken
  dsimp only
  have hbreak := hblanks.trans (leadsTo_lineBreak inp₁)
  split
  · split
    · exact hbreak
    · have hmore := hbreak.trans (leadsTo_readPlainBreaks (inp₁.lineBreak.2.rest.length + 1) _)
      split
      · rename_i inp₂ heq
        rwa [heq] at hmore
      · rename_i breaks inp₂ heq
        rwa [heq] at hmore
  · exact hblanks

/-- So are its words. -/
lemma leadsTo_readPlainFrom (flow : Bool) (indent : Int) (fuel : Nat) (spaces : List Char)
    (run : PlainRun) : run.rest.LeadsTo (readPlainFrom flow indent fuel spaces run).rest := by
  induction fuel generalizing spaces run with
  | zero => exact .refl _
  | succ fuel ih =>
      unfold readPlainFrom
      dsimp only
      split
      · exact .refl _
      · split
        · exact .refl _
        · have hlater : ∀ k, run.rest.LeadsTo (run.rest.forward k).readPlainSpaces.2.2 := fun k =>
            (leadsTo_forward run.rest k).trans (leadsTo_readPlainSpaces _)
          split
          · exact hlater _
          · exact (hlater _).trans (ih _ _)

/-- A plain scalar starts where its reader did. -/
lemma leadsTo_readPlain (flow : Bool) (parent : Int) (inp : Input) :
    inp.LeadsTo (inp.readPlain flow parent).2.2 :=
  leadsTo_readPlainFrom flow (parent + 1) _ [] ⟨[], inp.mark, false, inp⟩

/-! ## Lines that are left -/

/-- A text of so many lines has room for the lines before a position and those that are left. -/
def Fits (count : Nat) (inp : Input) : Prop :=
  inp.mark.line + (Text.linesFrom [] inp.rest).length ≤ count

variable {count : Nat}

/-- A whole text fits the number of its lines. -/
lemma fits_ofString (s : String) : (ofString s).Fits (Text.lines s).length := by
  simp [Fits, ofString, Text.lines]

/-- What breaks a line of the text ends one. -/
lemma isLineBreak_of_isBreak {c : Char} (h : isBreak c = true) : Text.isLineBreak c = true := by
  simp only [isBreak, Bool.or_eq_true, beq_iff_eq] at h
  simp only [Text.isLineBreak, Bool.or_eq_true, Bool.and_eq_true, decide_eq_true_eq, beq_iff_eq]
  rcases h with (((rfl | rfl) | h) | h) | h
  · decide
  · decide
  all_goals simp [h]

/-- A character that starts a new line ends one. -/
lemma line_markAfter_add_le (m : Mark) (c : Char) (rest : List Char) :
    (markAfter m c rest).line + (Text.linesFrom [] rest).length ≤
      m.line + (Text.linesFrom [] (c :: rest)).length := by
  have hle := Text.length_linesFrom_le_cons c rest
  unfold markAfter
  split_ifs with hbreak
  · simp only [Bool.and_eq_true, Bool.not_eq_true', Bool.and_eq_false_iff,
      beq_eq_false_iff_ne] at hbreak
    have hpair : ¬(c = '\r' ∧ rest.head? = some '\n') :=
      fun h => hbreak.2.elim (fun hc => hc h.1) fun hr => hr h.2
    rw [Text.linesFrom_cons_of_break (isLineBreak_of_isBreak hbreak.1) hpair, List.length_cons]
    dsimp only
    omega
  · dsimp only
    omega
  · dsimp only
    omega

/-- A later part of a text that fits does so as well. -/
lemma Fits.forward (h : inp.Fits count) (k : Nat) : (inp.forward k).Fits count := by
  induction k generalizing inp with
  | zero => exact h
  | succ k ih =>
      obtain ⟨cs, m⟩ := inp
      cases cs with
      | nil => exact ih h
      | cons c rest => exact ih (Nat.le_trans (line_markAfter_add_le m c rest) h)

/-- Later positions are within the text as well. -/
lemma LeadsTo.fits (h : inp.LeadsTo inp') (hfits : inp.Fits count) : inp'.Fits count := by
  obtain ⟨k, rfl⟩ := h
  exact hfits.forward k

/-- A character that ends no line does not change the line. -/
lemma line_forward_one (hrest : inp.rest ≠ []) (h : isBreak inp.peek = false) :
    (inp.forward 1).mark.line = inp.mark.line := by
  obtain ⟨cs, m⟩ := inp
  cases cs with
  | nil => exact absurd rfl hrest
  | cons c rest =>
      have hc : isBreak c = false := h
      simp only [Input.forward, markAfter, hc, Bool.false_and, Bool.false_eq_true, if_false]
      split_ifs <;> rfl

/-- A position before a character is on a line of the text. -/
lemma Fits.line_lt (h : inp.Fits count) (hrest : inp.rest ≠ []) : inp.mark.line < count := by
  have hleft : 0 < (Text.linesFrom [] inp.rest).length :=
    List.length_pos_iff.mpr (Text.linesFrom_ne_nil (Or.inr hrest))
  unfold Fits at h
  omega

end PipelineAudit.Yaml.Input
