import PipelineAudit.Proofs.Yaml.Readers

/-!
# Tokens on the lines of a text

Every token of a text starts on one of its lines, except those that tell that the text or a block
ends (`Yaml.Token.fits_of_mem_scan`). A state of the lexer stands before what is left of the text,
and its tokens and possible keys are on lines (`Yaml.Lexer.StandsAt`). A step is only taken before a
character, which is on a line, or at the end of the text; it adds tokens here or where a possible
key is, and ends later in the text (`Yaml.Lexer.moves_fetch`).
-/

namespace PipelineAudit.Yaml

/-! ## Tokens -/

/-- Whether a token tells that the text or a block ends. -/
def TokenKind.isEnd : TokenKind → Bool
  | .streamEnd | .blockEnd => true
  | _ => false

/-- A token starts on one of so many lines, unless it tells that something ends; where it announces
a key, it ends there as well. -/
structure Token.Fits (count : Nat) (t : Token) : Prop where
  start : t.kind.isEnd = false → t.start.line < count
  stop : t.kind = .key → t.stop.line < count

namespace Lexer

/-- A state stands before what is left of a text; its tokens and its possible keys are on so many
lines. -/
structure StandsAt (count : Nat) (inp : Input) (lx : Lexer) : Prop where
  input : lx.input = inp
  tokens : ∀ t ∈ lx.tokens, t.Fits count
  keys : ∀ key ∈ lx.keys, key.2.mark.line < count

variable {count : Nat} {inp inp' : Input} {lx lx' : Lexer} {t : Token}

/-- Only the place, the tokens and the possible keys count. -/
lemma StandsAt.move (h : lx.StandsAt count inp) (hinput : lx'.input = inp')
    (htokens : lx'.tokens = lx.tokens) (hkeys : lx'.keys = lx.keys) : lx'.StandsAt count inp' :=
  ⟨hinput, htokens ▸ h.tokens, hkeys ▸ h.keys⟩

/-- States with the same place, tokens and possible keys stand at the same part. -/
lemma StandsAt.congr (h : lx.StandsAt count inp) (hinput : lx'.input = lx.input)
    (htokens : lx'.tokens = lx.tokens) (hkeys : lx'.keys = lx.keys) : lx'.StandsAt count inp :=
  h.move (hinput.trans h.input) htokens hkeys

/-- A token that fits can be added. -/
lemma StandsAt.push (h : lx.StandsAt count inp) (ht : t.Fits count) :
    (lx.push t).StandsAt count inp :=
  ⟨h.input, List.forall_mem_cons.mpr ⟨ht, h.tokens⟩, h.keys⟩

/-- It can be put between others. -/
lemma StandsAt.insertAt (h : lx.StandsAt count inp) (number : Nat) (ht : t.Fits count) :
    (lx.insertAt number t).StandsAt count inp := by
  refine ⟨h.input, fun t' ht' => ?_, h.keys⟩
  rcases List.mem_append.mp ht' with ht' | ht'
  · exact h.tokens t' (List.mem_of_mem_take ht')
  · rcases List.mem_cons.mp ht' with rfl | ht'
    · exact ht
    · exact h.tokens t' (List.mem_of_mem_drop ht')

/-- That a block ends can be told anywhere. -/
lemma StandsAt.pushBlockEnd (h : lx.StandsAt count inp) :
    (lx.pushHere .blockEnd).StandsAt count inp :=
  h.push ⟨fun h => Bool.noConfusion h, nofun⟩

/-- Other tokens can be added before a character. -/
lemma StandsAt.pushHere (h : lx.StandsAt count inp) (hline : inp.mark.line < count)
    (kind : TokenKind) : (lx.pushHere kind).StandsAt count inp := by
  have hmark : lx.mark.line < count := by rwa [mark, h.input]
  exact h.push ⟨fun _ => hmark, fun _ => hmark⟩

/-- An indicator is added and passed. -/
lemma StandsAt.pushIndicator (h : lx.StandsAt count inp) (hline : inp.mark.line < count)
    {k : TokenKind} {length : Nat} (hkey : k = .key → (inp.forward length).mark.line < count) :
    (lx.pushIndicator k length).StandsAt count (inp.forward length) := by
  have hmark : lx.mark.line < count := by rwa [mark, h.input]
  have hpush := h.push (t := ⟨k, lx.mark, (lx.input.forward length).mark⟩)
    ⟨fun _ => hmark, fun hkind => h.input ▸ hkey hkind⟩
  exact ⟨congrArg (Input.forward length) h.input, hpush.tokens, hpush.keys⟩

/-! ### Possible keys -/

/-- A possible key can be forgotten. -/
lemma StandsAt.eraseKey (h : lx.StandsAt count inp) : lx.eraseKey.StandsAt count inp :=
  ⟨h.input, h.tokens, fun key hkey => h.keys key (List.mem_of_mem_filter hkey)⟩

/-- It can be given up. -/
lemma StandsAt.dropKey (h : lx.StandsAt count inp) (hx : lx.dropKey = .ok lx') :
    lx'.StandsAt count inp := by
  unfold Lexer.dropKey at hx
  split at hx
  · split_ifs at hx
    cases hx
    exact h.eraseKey
  · cases hx
    exact h

/-- A key is possible before a character. -/
lemma StandsAt.saveKey (h : lx.StandsAt count inp) (hline : inp.mark.line < count)
    (hx : lx.saveKey = .ok lx') : lx'.StandsAt count inp := by
  unfold Lexer.saveKey at hx
  split_ifs at hx
  · obtain ⟨lx₁, hdrop, hx⟩ := bind_eq_ok.mp hx
    cases hx
    have h₁ := h.dropKey hdrop
    refine ⟨h₁.input, h₁.tokens, fun key hkey => ?_⟩
    rcases List.mem_append.mp hkey with hkey | hkey
    · exact h₁.keys key hkey
    · obtain rfl := List.mem_singleton.mp hkey
      have hmark : lx₁.mark.line < count := by rwa [mark, h₁.input]
      exact hmark
  · cases hx
    exact h

/-- Keys that are no longer possible can be given up. -/
lemma StandsAt.dropStaleKeys (h : lx.StandsAt count inp) (hx : lx.dropStaleKeys = .ok lx') :
    lx'.StandsAt count inp := by
  unfold Lexer.dropStaleKeys at hx
  split at hx
  · cases hx
  · cases hx
    exact ⟨h.input, h.tokens, fun key hkey => h.keys key (List.mem_of_mem_filter hkey)⟩

/-- The possible key stands on a line. -/
lemma StandsAt.line_of_currentKey? (h : lx.StandsAt count inp) {key : SimpleKey}
    (hkey : lx.currentKey? = some key) : key.mark.line < count := by
  obtain ⟨entry, hentry, rfl⟩ := Option.map_eq_some_iff.mp hkey
  exact h.keys entry (List.mem_of_find?_eq_some hentry)

/-! ### Indentation -/

/-- Blocks that are indented further are ended. -/
lemma StandsAt.unwindFrom (h : lx.StandsAt count inp) (column : Int) (outer : List Int) :
    (unwindFrom column outer lx).StandsAt count inp := by
  induction outer generalizing lx with
  | nil => exact h
  | cons indent rest ih =>
      unfold Lexer.unwindFrom
      split_ifs
      · exact ih (h.pushBlockEnd.congr rfl rfl rfl)
      · exact h

/-- The same from where the state stands. -/
lemma StandsAt.unwind (h : lx.StandsAt count inp) (column : Int) :
    (lx.unwind column).StandsAt count inp := by
  unfold Lexer.unwind
  split_ifs
  · exact h
  · exact h.unwindFrom column lx.indents

/-- A new indentation moves nothing. -/
lemma StandsAt.addIndent (h : lx.StandsAt count inp) (column : Int) :
    (lx.addIndent column).2.StandsAt count inp := by
  unfold Lexer.addIndent
  split_ifs
  · exact h.congr rfl rfl rfl
  · exact h

/-- A block is opened before a character. -/
lemma StandsAt.openBlock (h : lx.StandsAt count inp) (hline : inp.mark.line < count)
    (kind : TokenKind) : (lx.openBlock kind).StandsAt count inp := by
  unfold Lexer.openBlock
  dsimp only
  split_ifs
  · exact (h.addIndent _).pushHere hline kind
  · exact h.addIndent _

/-! ### Steps -/

/-- A step ends later in the text. -/
def Moves (count : Nat) (inp : Input) (x : Except Error Lexer) : Prop :=
  ∀ lx, x = .ok lx → ∃ inp', inp.LeadsTo inp' ∧ lx.StandsAt count inp'

namespace Moves

/-- A step may end at any later part. -/
lemma ok (hlater : inp.LeadsTo inp') (h : lx.StandsAt count inp') : Moves count inp (.ok lx) := by
  intro _ heq
  cases heq
  exact ⟨inp', hlater, h⟩

/-- Of a step that fails nothing is asked. -/
lemma error (e : Error) : Moves count inp (.error e) := nofun

/-- A step with two ways goes one of them. -/
lemma ite {c : Prop} [Decidable c] {x y : Except Error Lexer} (hx : c → Moves count inp x)
    (hy : ¬c → Moves count inp y) : Moves count inp (if c then x else y) := by
  split_ifs with h
  · exact hx h
  · exact hy h

/-- What comes first may keep the place. -/
lemma bind_stay {x : Except Error Lexer} {f : Lexer → Except Error Lexer}
    (hx : ∀ lx, x = .ok lx → lx.StandsAt count inp)
    (hf : ∀ lx, lx.StandsAt count inp → Moves count inp (f lx)) : Moves count inp (x >>= f) := by
  intro lx heq
  obtain ⟨lx₁, hfirst, heq⟩ := bind_eq_ok.mp heq
  exact hf lx₁ (hx lx₁ hfirst) lx heq

/-- A token is read and added. -/
lemma bind_read {x : Except Error (Token × Input)} {f : Token × Input → Except Error Lexer}
    (hx : Input.ReadsToken inp x) (hline : inp.mark.line < count)
    (hf : ∀ t inp', inp.LeadsTo inp' → t.Fits count → Moves count inp (f (t, inp'))) :
    Moves count inp (x >>= f) := by
  intro lx heq
  obtain ⟨⟨t, inp₁⟩, hread, heq⟩ := bind_eq_ok.mp heq
  obtain ⟨hlater, hstart, hkind⟩ := hx _ hread
  exact hf t inp₁ hlater ⟨fun _ => hstart ▸ hline, fun hkey => absurd hkey hkind⟩ lx heq

end Moves

/-- The end of the text is told where it is. -/
lemma moves_fetchEnd (h : lx.StandsAt count inp) : Moves count inp lx.fetchEnd := by
  refine .bind_stay (fun _ => (h.unwind (-1)).dropKey) fun lx₁ h₁ => .ok (.refl inp) ?_
  have hend := h₁.push (t := ⟨.streamEnd, lx₁.mark, lx₁.mark⟩) ⟨fun h => Bool.noConfusion h, nofun⟩
  exact ⟨hend.input, hend.tokens, nofun⟩

/-- A directive is read. -/
lemma moves_fetchDirective (h : lx.StandsAt count inp) (hline : inp.mark.line < count) :
    Moves count inp lx.fetchDirective := by
  refine .bind_stay (fun _ => (h.unwind (-1)).dropKey) fun lx₁ h₁ => ?_
  rw [h₁.input]
  refine .bind_read (Input.readsToken_readDirective inp) hline fun t inp' hlater ht => .ok hlater ?_
  exact (h₁.push ht).move rfl rfl rfl

/-- A mark between documents is read. -/
lemma moves_fetchSeparator (h : lx.StandsAt count inp) (hline : inp.mark.line < count)
    {kind : TokenKind} (hkind : kind ≠ .key) : Moves count inp (lx.fetchSeparator kind) := by
  refine .bind_stay (fun _ => (h.unwind (-1)).dropKey) fun lx₁ h₁ =>
    .ok (Input.leadsTo_forward inp 3) ?_
  exact (h₁.pushIndicator hline fun hkey => absurd hkey hkind).congr rfl rfl rfl

/-- An opening bracket is read. -/
lemma moves_fetchFlowStart (h : lx.StandsAt count inp) (hline : inp.mark.line < count)
    {kind : TokenKind} (hkind : kind ≠ .key) : Moves count inp (lx.fetchFlowStart kind) := by
  refine .bind_stay (fun _ => h.saveKey hline) fun lx₁ h₁ => .ok (Input.leadsTo_forward inp 1) ?_
  exact (h₁.pushIndicator hline fun hkey => absurd hkey hkind).congr rfl rfl rfl

/-- A closing bracket is read. -/
lemma moves_fetchFlowEnd (h : lx.StandsAt count inp) (hline : inp.mark.line < count)
    {kind : TokenKind} (hkind : kind ≠ .key) : Moves count inp (lx.fetchFlowEnd kind) := by
  refine .bind_stay (fun _ => h.dropKey) fun lx₁ h₁ => .ok (Input.leadsTo_forward inp 1) ?_
  exact (h₁.pushIndicator hline fun hkey => absurd hkey hkind).congr rfl rfl rfl

/-- A comma is read. -/
lemma moves_fetchFlowEntry (h : lx.StandsAt count inp) (hline : inp.mark.line < count) :
    Moves count inp lx.fetchFlowEntry := by
  refine .bind_stay (fun _ => h.dropKey) fun lx₁ h₁ => .ok (Input.leadsTo_forward inp 1) ?_
  exact (h₁.pushIndicator (k := .flowEntry) hline nofun).congr rfl rfl rfl

/-- Before an indicator, the start of a block collection may be added. -/
lemma moves_openBlock_bind (h : lx.StandsAt count inp) (hline : inp.mark.line < count)
    (kind : TokenKind) (e : Error) {f : Lexer → Except Error Lexer}
    (hf : ∀ lx, lx.StandsAt count inp → Moves count inp (f lx)) :
    Moves count inp (if lx.inFlow then pure lx >>= f else if !lx.allowKey then throw e >>= f
      else pure (lx.openBlock kind) >>= f) := by
  split_ifs
  · exact hf lx h
  · exact .error e
  · exact hf _ (h.openBlock hline kind)

/-- A dash is read, and may open a block. -/
lemma moves_fetchBlockEntry (h : lx.StandsAt count inp) (hline : inp.mark.line < count) :
    Moves count inp lx.fetchBlockEntry := by
  refine moves_openBlock_bind h hline .blockSequenceStart _ fun lx₁ h₁ => ?_
  refine .bind_stay (fun _ => h₁.dropKey) fun lx₂ h₂ => .ok (Input.leadsTo_forward inp 1) ?_
  exact (h₂.pushIndicator (k := .blockEntry) hline nofun).congr rfl rfl rfl

/-- The question mark is not the end of a line. -/
lemma moves_fetchKey (h : lx.StandsAt count inp) (hline : inp.mark.line < count)
    (hafter : (inp.forward 1).mark.line < count) : Moves count inp lx.fetchKey := by
  refine moves_openBlock_bind h hline .blockMappingStart _ fun lx₁ h₁ => ?_
  refine .bind_stay (fun _ => h₁.dropKey) fun lx₂ h₂ => .ok (Input.leadsTo_forward inp 1) ?_
  exact (h₂.pushIndicator (k := .key) hline fun _ => hafter).congr rfl rfl rfl

/-- Before a key that turns out to be one, the start of a block mapping may be put in. -/
lemma StandsAt.insertBlock (h : lx.StandsAt count inp) (number : Nat) {m : Mark}
    (hm : m.line < count) : (if lx.inFlow then lx
      else if (lx.addIndent m.column).1 then
        (lx.addIndent m.column).2.insertAt number ⟨.blockMappingStart, m, m⟩
      else (lx.addIndent m.column).2).StandsAt count inp := by
  split_ifs
  · exact h
  · exact (h.addIndent _).insertAt number ⟨fun _ => hm, fun _ => hm⟩
  · exact h.addIndent _

/-- A colon is read; what stands before it becomes a key. -/
lemma moves_fetchValue (h : lx.StandsAt count inp) (hline : inp.mark.line < count) :
    Moves count inp lx.fetchValue := by
  unfold Lexer.fetchValue
  split
  · rename_i key hkey
    have hmark : key.mark.line < count := h.line_of_currentKey? hkey
    have hannounced : (lx.eraseKey.insertAt key.tokenNumber ⟨.key, key.mark, key.mark⟩).StandsAt
        count inp :=
      h.eraseKey.insertAt key.tokenNumber ⟨fun _ => hmark, fun _ => hmark⟩
    have hblock := hannounced.insertBlock key.tokenNumber hmark
    refine .ok (Input.leadsTo_forward inp 1) ?_
    exact (hblock.pushIndicator (k := .value) hline nofun).congr rfl rfl rfl
  · refine moves_openBlock_bind h hline .blockMappingStart _ fun lx₁ h₁ => ?_
    refine .bind_stay (fun _ => h₁.dropKey) fun lx₂ h₂ => .ok (Input.leadsTo_forward inp 1) ?_
    exact (h₂.pushIndicator (k := .value) hline nofun).congr rfl rfl rfl

/-- An anchor or an alias is read. -/
lemma moves_fetchAnchor (h : lx.StandsAt count inp) (hline : inp.mark.line < count) :
    Moves count inp lx.fetchAnchor := by
  refine .bind_stay (fun _ => h.saveKey hline) fun lx₁ h₁ => ?_
  rw [h₁.input]
  exact .bind_read (Input.readsToken_readAnchor inp) hline fun t inp' hlater ht =>
    .ok hlater ((h₁.push ht).move rfl rfl rfl)

/-- A tag is read. -/
lemma moves_fetchTag (h : lx.StandsAt count inp) (hline : inp.mark.line < count) :
    Moves count inp lx.fetchTag := by
  refine .bind_stay (fun _ => h.saveKey hline) fun lx₁ h₁ => ?_
  rw [h₁.input]
  exact .bind_read (Input.readsToken_readTag inp) hline fun t inp' hlater ht =>
    .ok hlater ((h₁.push ht).move rfl rfl rfl)

/-- A block scalar is read. -/
lemma moves_fetchBlockScalar (h : lx.StandsAt count inp) (hline : inp.mark.line < count)
    (folded : Bool) : Moves count inp (lx.fetchBlockScalar folded) := by
  refine .bind_stay (fun _ => h.dropKey) fun lx₁ h₁ => ?_
  rw [h₁.input]
  exact .bind_read (Input.readsToken_readBlock folded lx₁.indent inp) hline fun t inp' hlater ht =>
    .ok hlater ((h₁.push ht).move rfl rfl rfl)

/-- A quoted scalar is read. -/
lemma moves_fetchQuoted (h : lx.StandsAt count inp) (hline : inp.mark.line < count)
    (double : Bool) : Moves count inp (lx.fetchQuoted double) := by
  refine .bind_stay (fun _ => h.saveKey hline) fun lx₁ h₁ => ?_
  rw [h₁.input]
  exact .bind_read (Input.readsToken_readQuoted double inp) hline fun t inp' hlater ht =>
    .ok hlater ((h₁.push ht).move rfl rfl rfl)

/-- A plain scalar is read. -/
lemma moves_fetchPlain (h : lx.StandsAt count inp) (hline : inp.mark.line < count) :
    Moves count inp lx.fetchPlain := by
  refine .bind_stay (fun _ => h.saveKey hline) fun lx₁ h₁ => ?_
  rw [h₁.input]
  refine .ok (Input.leadsTo_readPlain lx₁.inFlow lx₁.indent inp) ?_
  exact (h₁.push (t := (inp.readPlain lx₁.inFlow lx₁.indent).1) ⟨fun _ => hline, nofun⟩).move rfl
    rfl rfl

/-! ### Whole texts -/

/-- What is reached from a later part is reached. -/
lemma exists_later (hlater : inp.LeadsTo inp')
    (h : ∃ inp₁, inp'.LeadsTo inp₁ ∧ lx.StandsAt count inp₁) :
    ∃ inp₁, inp.LeadsTo inp₁ ∧ lx.StandsAt count inp₁ := by
  obtain ⟨inp₁, hlater₁, h₁⟩ := h
  exact ⟨inp₁, hlater.trans hlater₁, h₁⟩

/-- Blanks, comments and line breaks between tokens are passed. -/
lemma exists_skipGap (h : lx.StandsAt count inp) (fuel : Nat) :
    ∃ inp', inp.LeadsTo inp' ∧ (skipGap fuel lx).StandsAt count inp' := by
  induction fuel generalizing lx inp with
  | zero => exact ⟨inp, .refl inp, h⟩
  | succ fuel ih =>
      obtain ⟨rfl, htokens, hkeys⟩ := h
      unfold skipGap
      extract_lets inp₁ inp₂
      have hcomment : lx.input.LeadsTo inp₂ := Input.leadsTo_comment lx.input _
      clear_value inp₂
      split
      · exact exists_later (hcomment.trans (Input.leadsTo_lineBreak inp₂))
          (ih ⟨rfl, htokens, hkeys⟩)
      · exact ⟨inp₂, hcomment, rfl, htokens, hkeys⟩

/-- A byte order mark at the head of a text is passed. -/
lemma exists_start (h : lx.StandsAt count inp) (c : Prop) [Decidable c] :
    ∃ inp', inp.LeadsTo inp' ∧
      (if c then { lx with input := lx.input.forward 1 } else lx : Lexer).StandsAt count inp' := by
  split_ifs
  · exact ⟨inp.forward 1, Input.leadsTo_forward inp 1, congrArg (Input.forward 1) h.input,
      h.tokens, h.keys⟩
  · exact ⟨inp, .refl inp, h⟩

/-- A step from a later part is a step. -/
lemma Moves.from_later {x : Except Error Lexer} (hlater : inp.LeadsTo inp')
    (hx : Moves count inp' x) : Moves count inp x :=
  fun lx heq => exists_later hlater (hx lx heq)

/-- **A step** adds tokens on lines of the text, and ends later in the text. -/
lemma moves_fetch (h : lx.StandsAt count inp) (hfits : inp.Fits count) :
    Moves count inp lx.fetch := by
  unfold Lexer.fetch
  extract_lets gapFuel start
  obtain ⟨inp₁, hlater₁, h₁⟩ : ∃ inp', inp.LeadsTo inp' ∧ start.StandsAt count inp' :=
    exists_start h _
  obtain ⟨inp₂, hlater₂, h₂⟩ := exists_skipGap h₁ gapFuel
  have hlater := hlater₁.trans hlater₂
  refine .from_later hlater (.bind_stay (fun _ => h₂.dropStaleKeys) fun lx₁ h₃ => ?_)
  extract_lets lx₂ c white
  have h₄ : lx₂.StandsAt count inp₂ := h₃.unwind lx₁.column
  have hc : c = inp₂.peek := congrArg Input.peek h₄.input
  clear_value lx₂ c white
  refine .ite (fun _ => moves_fetchEnd h₄) fun hend => ?_
  have hrest : inp₂.rest ≠ [] := by
    intro hnil
    rw [hc, Input.peek, hnil] at hend
    exact hend rfl
  have hline : inp₂.mark.line < count := (hlater.fits hfits).line_lt hrest
  refine .ite (fun _ => moves_fetchDirective h₄ hline) fun _ => ?_
  refine .ite (fun _ => moves_fetchSeparator h₄ hline nofun) fun _ => ?_
  refine .ite (fun _ => moves_fetchSeparator h₄ hline nofun) fun _ => ?_
  refine .ite (fun _ => moves_fetchFlowStart h₄ hline nofun) fun _ => ?_
  refine .ite (fun _ => moves_fetchFlowStart h₄ hline nofun) fun _ => ?_
  refine .ite (fun _ => moves_fetchFlowEnd h₄ hline nofun) fun _ => ?_
  refine .ite (fun _ => moves_fetchFlowEnd h₄ hline nofun) fun _ => ?_
  refine .ite (fun _ => moves_fetchFlowEntry h₄ hline) fun _ => ?_
  refine .ite (fun _ => moves_fetchBlockEntry h₄ hline) fun _ => ?_
  refine .ite (fun hkey => ?_) fun _ => ?_
  · have hmark : inp₂.peek = '?' := by
      rw [Bool.and_eq_true, beq_iff_eq] at hkey
      exact hc.symm.trans hkey.1
    refine moves_fetchKey h₄ hline ?_
    rwa [Input.line_forward_one hrest (by rw [hmark]; decide)]
  refine .ite (fun _ => moves_fetchValue h₄ hline) fun _ => ?_
  refine .ite (fun _ => moves_fetchAnchor h₄ hline) fun _ => ?_
  refine .ite (fun _ => moves_fetchTag h₄ hline) fun _ => ?_
  refine .ite (fun _ => moves_fetchBlockScalar h₄ hline false) fun _ => ?_
  refine .ite (fun _ => moves_fetchBlockScalar h₄ hline true) fun _ => ?_
  refine .ite (fun _ => moves_fetchQuoted h₄ hline false) fun _ => ?_
  refine .ite (fun _ => moves_fetchQuoted h₄ hline true) fun _ => ?_
  exact .ite (fun _ => moves_fetchPlain h₄ hline) fun _ => .error _

/-- What a run comes to by a step is on lines of the text, if what follows the step is. -/
lemma StandsAt.fits_of_mem_runFrom (h : lx.StandsAt count inp) (hfits : inp.Fits count)
    (breakOff : Option Error) {go : Lexer → TokenStream}
    (hgo : ∀ {inp' lx'}, inp'.Fits count → StandsAt count inp' lx' →
      ∀ t ∈ (go lx').tokens, t.Fits count) :
    ∀ t ∈ (lx.runFrom breakOff go).tokens, t.Fits count := by
  have hnext : ∀ {lx'}, (do (← lx.fetch).dropStaleKeys) = .ok lx' →
      ∀ t ∈ (go lx').tokens, t.Fits count := by
    intro lx' hx
    obtain ⟨lx₁, hfetch, hdrop⟩ := bind_eq_ok.mp hx
    obtain ⟨inp', hlater, h₁⟩ := moves_fetch h hfits lx₁ hfetch
    exact hgo (hlater.fits hfits) (h₁.dropStaleKeys hdrop)
  have hfailed : ∀ k, ∀ t ∈ (lx.tokens.drop k).reverse, t.Fits count := fun k t ht =>
    h.tokens t (List.mem_of_mem_drop (List.mem_reverse.mp ht))
  unfold runFrom
  dsimp only
  split
  · rename_i hx
    exact hnext hx
  · rename_i hx
    split
    · exact hfailed _
    · exact hnext hx
  · exact hfailed _
  · exact hfailed _

/-- **A run** adds tokens on lines of the text. -/
lemma StandsAt.fits_of_mem_run (h : lx.StandsAt count inp) (hfits : inp.Fits count)
    (breakOff : Option Error) (fuel : Nat) : ∀ t ∈ (run breakOff fuel lx).tokens, t.Fits count := by
  have hend : ∀ {lx : Lexer} {inp : Input}, lx.StandsAt count inp →
      ∀ t ∈ lx.tokens.reverse, t.Fits count :=
    fun h t ht => h.tokens t (List.mem_reverse.mp ht)
  induction fuel generalizing lx inp with
  | zero => exact hend h
  | succ fuel ih =>
      rw [run]
      split
      · exact hend h
      · exact h.fits_of_mem_runFrom hfits breakOff fun hfits' h' => ih h' hfits'

end Lexer

/-- **The tokens of a text** are on its lines. -/
theorem Token.fits_of_mem_scan (passage : Passage) :
    ∀ t ∈ (scan passage).tokens, t.Fits (Text.lines passage.text).length := by
  have hstart : Lexer.StandsAt (Text.lines passage.text).length (.ofString passage.text)
      { input := .ofString passage.text } := ⟨rfl, List.forall_mem_nil _, List.forall_mem_nil _⟩
  exact hstart.fits_of_mem_run (Input.fits_ofString passage.text) _ _

end PipelineAudit.Yaml
