import Mathlib.Data.List.Nodup
import PipelineAudit.Pattern.Untrusted
import PipelineAudit.Proofs.Pattern.Language

/-!
# Expressions in a text

`Expression.insides` cuts the expressions out of a text by hand: from an opening to the first
closing behind it, and on from there; an opening that is never closed is passed over like any other
character. This is what the search for expressions finds (`Untrusted.expressions_eq`).

More text around a text moves the cuts, but loses nothing. A closing does not overlap an opening, so
an earlier opening swallows a whole expression with its opening or ends before it: what was an
inside is the end of an inside (`Expression.exists_append_mem_insides`). Since the patterns for
untrusted inputs begin with a character, an input that was found is found again
(`Untrusted.mem_inExpressions_append`).
-/

namespace PipelineAudit

namespace Expression

/-- How an expression begins. -/
def opening : List Char := ['$', '\x7b', '\x7b']

/-- How an expression ends. -/
def closing : List Char := ['\x7d', '\x7d']

/-- What stands before the first closing, and what stands behind it. -/
def untilClosing : List Char → Option (List Char × List Char)
  | [] => none
  | c :: text =>
    if closing <+: c :: text then some ([], text.drop 1)
    else (untilClosing text).map fun cut => (c :: cut.1, cut.2)

variable {text inside after u : List Char}

/-- At the closing braces nothing is left before them. -/
lemma untilClosing_closing : untilClosing (closing ++ text) = some ([], text) := by
  simp [untilClosing, closing]

/-- A character before them stands inside. -/
lemma untilClosing_cons {c : Char} (h : ¬ closing <+: c :: text) :
    untilClosing (c :: text) = (untilClosing text).map fun cut => (c :: cut.1, cut.2) := by
  rw [untilClosing, if_neg h]

/-- An opening does not close anything. -/
lemma untilClosing_opening :
    untilClosing (opening ++ text) = (untilClosing text).map fun cut =>
      (opening ++ cut.1, cut.2) := by
  simp [untilClosing, opening, closing, Function.comp_def]

/-- A text begins with a closing, or its first character comes before the first closing. -/
lemma untilClosing_cons_eq_some {c : Char} (h : untilClosing (c :: text) = some (inside, after)) :
    c :: text = closing ++ after ∧ inside = [] ∨
      ¬ closing <+: c :: text ∧ ∃ inside', inside = c :: inside' ∧
        untilClosing text = some (inside', after) := by
  by_cases hclosing : closing <+: c :: text
  · obtain ⟨rest, hrest⟩ := hclosing
    rw [← hrest, untilClosing_closing] at h
    cases h
    exact .inl ⟨hrest.symm, rfl⟩
  · rw [untilClosing_cons hclosing, Option.map_eq_some_iff] at h
    obtain ⟨⟨inside', after'⟩, h, hcons⟩ := h
    cases hcons
    exact .inr ⟨hclosing, inside', rfl, h⟩

/-- The text is what stands inside, the closing braces and the rest. -/
lemma eq_of_untilClosing (h : untilClosing text = some (inside, after)) :
    text = inside ++ (closing ++ after) := by
  induction text generalizing inside with
  | nil => cases h
  | cons c text ih =>
      obtain ⟨htext, rfl⟩ | ⟨_, inside', rfl, hrest⟩ := untilClosing_cons_eq_some h
      · exact htext
      · exact congrArg (c :: ·) (ih hrest)

/-- The closing braces take two characters. -/
lemma length_of_untilClosing (h : untilClosing text = some (inside, after)) :
    text.length = inside.length + after.length + 2 := by
  rw [eq_of_untilClosing h]
  simp [closing, Nat.add_assoc]

/-- More text behind does not move the first closing. -/
lemma untilClosing_append (h : untilClosing text = some (inside, after)) (more : List Char) :
    untilClosing (text ++ more) = some (inside, after ++ more) := by
  induction text generalizing inside with
  | nil => cases h
  | cons c text ih =>
      obtain ⟨htext, rfl⟩ | ⟨hclosing, inside', rfl, hrest⟩ := untilClosing_cons_eq_some h
      · rw [htext, List.append_assoc, untilClosing_closing]
      · have hlen : closing.length ≤ (c :: text).length := by
          rw [length_of_untilClosing h]
          exact Nat.le_add_left _ _
        have hmore : ¬ closing <+: c :: (text ++ more) := fun hmore =>
          hclosing (List.prefix_of_prefix_length_le hmore (List.prefix_append (c :: text) more)
            hlen)
        rw [List.cons_append, untilClosing_cons hmore, ih hrest, Option.map_some]

/-- Text and an opening before do not move the first closing, unless that text closes earlier. -/
lemma untilClosing_append_opening (h : untilClosing text = some (inside, after)) (u : List Char) :
    untilClosing (u ++ (opening ++ text)) = some (u ++ (opening ++ inside), after) ∨
      ∃ u' u'', u = u' ++ (closing ++ u'') ∧
        untilClosing (u ++ (opening ++ text)) = some (u', u'' ++ (opening ++ text)) := by
  induction u with
  | nil => exact .inl (by rw [List.nil_append, untilClosing_opening, h]; rfl)
  | cons c u ih =>
      by_cases hclosing : closing <+: c :: (u ++ (opening ++ text))
      · refine .inr ?_
        cases u with
        | nil => simp [closing, opening] at hclosing
        | cons c' u =>
            simp only [closing, List.cons_append, List.cons_prefix_cons, List.nil_prefix,
              and_true] at hclosing
            obtain ⟨rfl, rfl⟩ := hclosing
            exact ⟨[], u, rfl, untilClosing_closing⟩
      · rw [List.cons_append, untilClosing_cons hclosing]
        rcases ih with ih | ⟨u', u'', rfl, ih⟩
        · exact .inl (by rw [ih]; rfl)
        · exact .inr ⟨c :: u', u'', rfl, by rw [ih]; rfl⟩

/-- The insides of the expressions of a text, from left to right. -/
def insides : List Char → List (List Char)
  | [] => []
  | c :: text =>
    if opening <+: c :: text then
      match hclosing : untilClosing (text.drop 2) with
      | some (inside, after) =>
        have : after.length < (text.drop 2).length := by
          rw [length_of_untilClosing hclosing]
          omega
        inside :: insides after
      | none => insides text
    else insides text
  termination_by text => text.length
  decreasing_by
  · rw [List.length_drop] at this
    exact Nat.lt_succ_of_lt (Nat.lt_of_lt_of_le this (Nat.sub_le _ _))
  all_goals exact Nat.lt_succ_self _

/-- Every inside stands between an opening and the first closing behind it. -/
lemma exists_opening_of_mem_insides (h : inside ∈ insides text) :
    ∃ u v after, text = u ++ (opening ++ v) ∧ untilClosing v = some (inside, after) := by
  fun_induction insides text with
  | case1 => cases h
  | case2 c text hopening inside' after' hinside _ ih =>
      obtain ⟨v, hv⟩ := hopening
      obtain ⟨rfl, rfl⟩ := List.cons.inj hv
      rcases List.mem_cons.mp h with rfl | h
      · exact ⟨[], v, after', rfl, hinside⟩
      · obtain ⟨u, w, after, rfl, hw⟩ := ih h
        obtain rfl : v = inside' ++ (closing ++ (u ++ (opening ++ w))) := eq_of_untilClosing hinside
        exact ⟨opening ++ (inside' ++ (closing ++ u)), w, after, by simp [opening], hw⟩
  | case3 c text _ _ ih | case4 c text _ ih =>
      obtain ⟨u, v, after, rfl, hv⟩ := ih h
      exact ⟨c :: u, v, after, rfl, hv⟩

/-- An opening before another one does not overlap it. -/
lemma eq_nil_or_opening_append_of_prefix (h : opening <+: u ++ (opening ++ text)) :
    u = [] ∨ ∃ u', u = opening ++ u' := by
  match u with
  | [] => exact .inl rfl
  | [_] | [_, _] => simp [opening] at h
  | a :: b :: c :: u =>
      simp only [opening, List.cons_append, List.cons_prefix_cons] at h
      obtain ⟨rfl, rfl, rfl, _⟩ := h
      exact .inr ⟨u, rfl⟩

/-- What stands between an opening and the first closing behind it ends an inside, whatever stands
before. -/
lemma exists_append_mem_insides_opening (h : untilClosing text = some (inside, after))
    (u : List Char) : ∃ w, w ++ inside ∈ insides (u ++ (opening ++ text)) := by
  generalize hwhole : u ++ (opening ++ text) = whole
  fun_induction insides whole generalizing u with
  | case1 => simp [opening] at hwhole
  | case2 c rest hopening inside' after' hinside _ ih =>
      obtain rfl | ⟨u, rfl⟩ := eq_nil_or_opening_append_of_prefix (hwhole ▸ hopening)
      · obtain ⟨rfl, rfl⟩ := List.cons.inj hwhole
        cases hinside.symm.trans h
        exact ⟨[], List.mem_cons_self⟩
      · obtain ⟨rfl, rfl⟩ := List.cons.inj hwhole
        -- The earlier expression ends where the one in question does, or before that one begins.
        rcases untilClosing_append_opening h u with hsame | ⟨u', u'', rfl, hearlier⟩
        · cases hinside.symm.trans hsame
          exact ⟨u ++ opening, by simp⟩
        · cases hinside.symm.trans hearlier
          obtain ⟨w, hw⟩ := ih u'' rfl
          exact ⟨w, List.mem_cons_of_mem _ hw⟩
  | case3 c rest hopening hnone ih =>
      obtain rfl | ⟨u, rfl⟩ := eq_nil_or_opening_append_of_prefix (hwhole ▸ hopening)
      · obtain ⟨rfl, rfl⟩ := List.cons.inj hwhole
        cases hnone.symm.trans h
      · obtain ⟨rfl, rfl⟩ := List.cons.inj hwhole
        rcases untilClosing_append_opening h u with hsame | ⟨u', u'', rfl, hearlier⟩
        · cases hnone.symm.trans hsame
        · cases hnone.symm.trans hearlier
  | case4 c rest hopening ih =>
      cases u with
      | nil => exact absurd ⟨text, hwhole⟩ hopening
      | cons c' u => exact ih u (List.cons.inj hwhole).2

/-- An inside of a text ends an inside of every text that contains it. -/
theorem exists_append_mem_insides (h : inside ∈ insides text) (before after : List Char) :
    ∃ w, w ++ inside ∈ insides (before ++ (text ++ after)) := by
  obtain ⟨u, v, rest, rfl, hv⟩ := exists_opening_of_mem_insides h
  have := exists_append_mem_insides_opening (untilClosing_append hv after) (before ++ u)
  simpa only [List.append_assoc] using this

end Expression

/-! ## Searching for expressions -/

namespace Regex

variable {β : Type} {r : Regex} {cs rest whole : List Char} {before : Option Char}
    {offset fuel : Nat}
  {groups : Groups} {next : Next β} {cur cur' : Cursor} {m : Match}

/-- How a character is read. -/
lemma run_char_cons {s : CharSet} {c : Char} :
    (char s).run ⟨before, c :: rest, offset⟩ groups next =
    if s.contains c then next ⟨some c, rest, offset + 1⟩ groups else none := rfl

/-- A literal text is passed one character after the other. -/
lemma run_ofChars_cons {c : Char} : (ofChars (c :: cs)).run cur groups next =
    (char (.oneOf [c])).run cur groups fun cur groups => (ofChars cs).run cur groups next := by
  cases cs <;> rfl

/-- A literal text is passed where it stands. -/
lemma run_ofChars (hrest : cur.rest = cs ++ rest) :
    (ofChars cs).run cur groups next = next (cur.skip cs rest) groups := by
  induction cs generalizing cur with
  | nil =>
      obtain rfl : cur.rest = rest := hrest
      rfl
  | cons c cs ih =>
      obtain ⟨before, _, offset⟩ := cur
      obtain rfl : _ = c :: (cs ++ rest) := hrest
      rw [run_ofChars_cons, run_char_cons, if_pos (by simp [CharSet.contains]), ih rfl,
        Cursor.skip_cons before]

/-- Where a literal text does not stand, nothing is found. -/
lemma run_ofChars_eq_none (hrest : ¬ cs <+: cur.rest) :
    (ofChars cs).run cur groups next = none := by
  induction cs generalizing cur with
  | nil => exact absurd List.nil_prefix hrest
  | cons c cs ih =>
      obtain ⟨before, text, offset⟩ := cur
      rw [run_ofChars_cons]
      cases text with
      | nil => rfl
      | cons d text =>
          rw [run_char_cons]
          split_ifs with hd
          · obtain rfl : d = c := by simpa [CharSet.contains] using hd
            exact ih fun h => hrest (List.cons_prefix_cons.mpr ⟨rfl, h⟩)
          · rfl

/-- What a search keeps of a match that begins at an offset. -/
def kept (whole : List Char) (first : Nat) : Next (Match × Cursor) :=
  fun cur groups => some (⟨whole, first, cur.offset, groups⟩, cur)

/-- Where no match begins, a search goes on with the next character, if there is one. -/
lemma searchFrom_of_none (h : r.run cur [] (kept whole cur.offset) = none) (more : Nat) :
    r.searchFrom whole (more + 1) cur = cur.next?.bind fun next =>
      r.searchFrom whole more next.2 := by
  unfold kept at h
  rw [searchFrom, h]
  cases cur.next? <;> rfl

/-- Where no match begins at the end of a text, none is listed. -/
lemma findAllFrom_nil (h : r.run ⟨before, [], offset⟩ [] (kept whole offset) = none) :
    r.findAllFrom whole fuel ⟨before, [], offset⟩ = [] := by
  cases fuel with
  | zero => rfl
  | succ fuel => rw [findAllFrom, searchFrom_of_none h]; rfl

/-- Where no match begins, those are listed that begin later. -/
lemma findAllFrom_cons {c : Char}
    (h : r.run ⟨before, c :: rest, offset⟩ [] (kept whole offset) = none) :
    r.findAllFrom whole fuel ⟨before, c :: rest, offset⟩ =
      r.findAllFrom whole fuel ⟨some c, rest, offset + 1⟩ := by
  cases fuel with
  | zero => rfl
  | succ fuel => rw [findAllFrom, findAllFrom, searchFrom_of_none h]; rfl

/-- A match is listed, and a search goes on behind it. -/
lemma findAllFrom_succ (h : r.run cur [] (kept whole cur.offset) = some (m, cur'))
    (hm : m.first < m.last) :
    r.findAllFrom whole (fuel + 1) cur = m :: r.findAllFrom whole fuel cur' := by
  unfold kept at h
  rw [findAllFrom, searchFrom, h]
  exact if_pos hm

end Regex

namespace Untrusted

open Regex Expression

variable {β : Type} {whole text inside after rest : List Char} {before : Option Char}
    {offset fuel : Nat}
  {groups : Groups} {cur : Cursor}

/-- The closing braces are read as these characters. -/
lemma exprClose_eq : exprClose = ofChars closing := rfl

/-- The inside of an expression is passed character by character up to the first closing. -/
lemma repeatStep_untilClosing (mark : Cursor → Groups → Groups) (last : Cursor → Groups → β)
    (hfuel : cur.rest.length < fuel) :
    repeatStep (fun c g k => (char .any).run c g k) true
        (fun c g => exprClose.run c (mark c g) fun c g => some (last c g)) fuel 0 none cur groups =
      (untilClosing cur.rest).map fun cut =>
        last (cur.skip (cut.1 ++ closing) cut.2)
          (mark (cur.skip cut.1 (closing ++ cut.2)) groups) := by
  induction fuel generalizing cur with
  | zero => omega
  | succ fuel ih =>
      obtain ⟨before, text, offset⟩ := cur
      rw [repeatStep, if_pos rfl]
      by_cases hclosing : closing <+: text
      · obtain ⟨after, rfl⟩ := hclosing
        rw [exprClose_eq, run_ofChars rfl, untilClosing_closing]
        rfl
      · rw [exprClose_eq, run_ofChars_eq_none hclosing, Option.none_or]
        cases text with
        | nil => rfl
        | cons c text =>
            have hrest : (⟨some c, text, offset + 1⟩ : Cursor).rest.length < fuel :=
              Nat.lt_of_succ_lt_succ hfuel
            rw [exprClose_eq] at ih
            refine (if_neg (Option.some_ne_none 0).symm).trans
              (run_char_cons.trans ((if_pos rfl).trans
              ((if_pos (Nat.lt_succ_self offset)).trans ((ih hrest).trans ?_))))
            rw [untilClosing_cons hclosing, Option.map_map]
            exact congrArg (Option.map · _) (funext fun cut => by
              simp only [Function.comp_apply, List.cons_append, Cursor.skip_cons before])

/-- An expression is found at an opening that is closed. -/
lemma run_expression (before : Option Char) (text : List Char) (offset : Nat)
    (last : Cursor → Groups → β) :
    expression.run ⟨before, opening ++ text, offset⟩ [] (fun c g => some (last c g)) =
      (untilClosing text).map fun cut =>
        last ⟨charAfter before (opening ++ (cut.1 ++ closing)), cut.2,
          offset + 3 + cut.1.length + 2⟩ [(1, offset + 3, offset + 3 + cut.1.length)] := by
  have hopen (next : Next β) : (ofChars opening).run ⟨before, opening ++ text, offset⟩ [] next =
      next (Cursor.skip ⟨before, opening ++ text, offset⟩ opening text) [] := run_ofChars rfl
  refine (hopen _).trans ((repeatStep_untilClosing
    (fun c g => (1, offset + 3, c.offset) :: g) last (Nat.lt_succ_self _)).trans ?_)
  exact congrArg (Option.map · _) (funext fun cut => by
    have hopening : opening.length = 3 := rfl
    have hclosing : closing.length = 2 := rfl
    simp only [Cursor.skip, charAfter_append, List.length_append, hopening, hclosing,
      Nat.add_assoc])

/-- An expression is listed, and the search goes on behind it. -/
lemma findAllFrom_expression (h : untilClosing text = some (inside, after)) :
    expression.findAllFrom whole (fuel + 1) ⟨before, opening ++ text, offset⟩ =
      ⟨whole, offset, offset + 3 + inside.length + 2,
        [(1, offset + 3, offset + 3 + inside.length)]⟩ :: expression.findAllFrom whole fuel
          ⟨charAfter before (opening ++ (inside ++ closing)), after,
            offset + 3 + inside.length + 2⟩ := by
  have hrun := run_expression before text offset fun c g => (Match.mk whole offset c.offset g, c)
  rw [h, Option.map_some] at hrun
  refine findAllFrom_succ hrun ?_
  simp only
  omega

/-- The groups of the expressions that are found from a position on are the insides of what follows
it. -/
lemma filterMap_findAllFrom (hrest : whole.drop offset = rest) (hfuel : rest.length < fuel) :
    (expression.findAllFrom whole fuel ⟨before, rest, offset⟩).filterMap (fun m => m.group? 1) =
      (insides rest).map String.ofList := by
  fun_induction insides rest generalizing before offset fuel with
  | case1 =>
      rw [findAllFrom_nil rfl]
      rfl
  | case2 c text hopening inside after hinside _ ih =>
      obtain ⟨v, hv⟩ := hopening
      obtain rfl : text.drop 2 = v := by rw [← (List.cons.inj hv).2]; rfl
      rw [← hv] at hrest hfuel ⊢
      cases fuel with
      | zero => cases hfuel
      | succ fuel =>
          rw [eq_of_untilClosing hinside] at hrest hfuel
          have hdrop : whole.drop (offset + 3) = inside ++ (closing ++ after) := by
            rw [← List.drop_drop, hrest]
            rfl
          have hafter : whole.drop (offset + 3 + inside.length + 2) = after := by
            rw [← List.drop_drop, ← List.drop_drop, hdrop, List.drop_left]
            rfl
          have hgroup : slice whole (offset + 3) (offset + 3 + inside.length) =
              String.ofList inside := by
            rw [slice, hdrop, Nat.add_sub_cancel_left, List.take_left]
          have hfuel' : after.length < fuel := by
            simp only [opening, List.length_append, List.length_cons] at hfuel
            omega
          rw [findAllFrom_expression hinside, List.map_cons, ← hgroup, ← ih hafter hfuel']
          exact List.filterMap_cons_some rfl
  | case3 c text hopening hnone ih =>
      obtain ⟨v, hv⟩ := hopening
      obtain rfl : text.drop 2 = v := by rw [← (List.cons.inj hv).2]; rfl
      have hrun := run_expression before (text.drop 2) offset fun c g =>
        (Match.mk whole offset c.offset g, c)
      rw [hnone, hv] at hrun
      rw [findAllFrom_cons hrun]
      refine ih ?_ (Nat.lt_of_succ_lt hfuel)
      rw [← List.drop_drop, hrest]
      rfl
  | case4 c text hopening ih =>
      have hrun : expression.run ⟨before, c :: text, offset⟩ [] (kept whole offset) = none :=
        run_ofChars_eq_none hopening
      rw [findAllFrom_cons hrun]
      refine ih ?_ (Nat.lt_of_succ_lt hfuel)
      rw [← List.drop_drop, hrest]
      rfl

/-- The expressions of a text are the insides that are cut out of it. -/
theorem expressions_eq (text : String) :
    expressions text = (insides text.toList).map String.ofList :=
  filterMap_findAllFrom rfl (Nat.lt_succ_self _)

/-! ## Untrusted inputs of expressions -/

/-- The entries for untrusted inputs begin with a character. -/
lemma opensWithChar_of_mem_patterns : ∀ p ∈ patterns, p.regex.opensWithChar = true := by
  decide +kernel

/-- No two patterns have the same identifier. -/
lemma nodup_id_patterns : (patterns.map (·.id)).Nodup := by
  decide +kernel

/-- Each entry that is met is kept once. -/
lemma mem_foldl_iff {ps found : List NamedPattern} {p : NamedPattern} (hps : ps ⊆ patterns)
    (hfound : found ⊆ patterns) :
    p ∈ ps.foldl (fun found p => if found.any (·.id == p.id) then found else found ++ [p]) found ↔
      p ∈ found ∨ p ∈ ps := by
  induction ps generalizing found with
  | nil => simp
  | cons q ps ih =>
      obtain ⟨hq, hps⟩ := List.cons_subset.mp hps
      rw [List.foldl_cons]
      split_ifs with hany
      · have hmem : q ∈ found := by
          obtain ⟨q', hq', hid⟩ := List.any_eq_true.mp hany
          rwa [← List.inj_on_of_nodup_map nodup_id_patterns (hfound hq') hq (by simpa using hid)]
        rw [ih hps hfound, List.mem_cons]
        refine ⟨Or.imp_right .inr, ?_⟩
        rintro (hp | rfl | hp)
        exacts [.inl hp, .inl hmem, .inr hp]
      · rw [ih hps (List.append_subset.mpr ⟨hfound, by simpa using hq⟩)]
        simp [or_assoc]

/-- The untrusted inputs of the expressions of a text are those that are found inside one of
them. -/
theorem mem_inExpressions_iff {text : String} {p : NamedPattern} :
    p ∈ inExpressions text ↔ p ∈ patterns ∧ ∃ inside ∈ expressions text,
      p.found .github inside = true := by
  have hsub : (expressions text).flatMap (inText · .github) ⊆ patterns := by
    intro p hp
    obtain ⟨inside, _, hp⟩ := List.mem_flatMap.mp hp
    exact (List.mem_filter.mp hp).1
  rw [inExpressions, ← List.foldl_flatMap, mem_foldl_iff hsub (List.nil_subset _)]
  simp only [List.not_mem_nil, false_or, List.mem_flatMap, inText, List.mem_filter]
  exact ⟨fun ⟨inside, hinside, hp, hfound⟩ => ⟨hp, inside, hinside, hfound⟩,
    fun ⟨hp, inside, hinside, hfound⟩ => ⟨inside, hinside, hp, hfound⟩⟩

/-- An untrusted input that is found in a text is found in every text that contains it. -/
theorem mem_inExpressions_append {text : String} {p : NamedPattern} (h : p ∈ inExpressions text)
    (before after : String) : p ∈ inExpressions (before ++ text ++ after) := by
  rw [mem_inExpressions_iff] at h ⊢
  obtain ⟨hp, inside, hinside, hfound⟩ := h
  rw [expressions_eq, List.mem_map] at hinside
  obtain ⟨inside, hinside, rfl⟩ := hinside
  obtain ⟨w, hw⟩ := exists_append_mem_insides hinside before.toList after.toList
  refine ⟨hp, String.ofList (w ++ inside), ?_, ?_⟩
  · rw [expressions_eq]
    refine List.mem_map_of_mem ?_
    simpa using hw
  · rw [NamedPattern.found, Bool.and_eq_true, occursIn_iff, String.toList_ofList] at hfound ⊢
    exact ⟨hfound.1, hfound.2.append_left (opensWithChar_of_mem_patterns p hp) none w⟩

end Untrusted

end PipelineAudit
