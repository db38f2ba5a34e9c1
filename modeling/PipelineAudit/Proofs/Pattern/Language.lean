import Mathlib.Data.List.Basic
import PipelineAudit.Pattern.Regex

/-!
# What patterns read

`Regex.Reads` says of a pattern which texts it reads at a place, without saying how they are found:
by recursion on the pattern, with what stands before and behind the text, since borders and
neighbours are asked for them. `Regex.run` tries the alternatives of a pattern and goes on with a
continuation. It succeeds exactly if the pattern reads some text after which the continuation
succeeds (`Regex.run_isSome_iff`): no alternative is lost to an earlier one, and the bound on
repetitions is never met before the text ends (`Regex.repeatStep_isSome_iff`). So a pattern occurs
in a text exactly if the text has a part that the pattern reads where it stands
(`Regex.occursIn_iff`).

A pattern that begins with a character does not ask what stands before it, and is therefore found
again in every text that ends as the one where it was found (`Regex.Occurs.append_left`).
-/

namespace PipelineAudit

namespace Regex

/-! ## Reading -/

/-- The character before a place, once a text has been read up to it. -/
def charAfter : Option Char → List Char → Option Char
  | before, [] => before
  | _, c :: text => charAfter (some c) text

/-- Reading again and again: `least` times, and then as often as `most` allows and something is
read. -/
inductive Repeats (reads : Option Char → List Char → List Char → Prop) :
    Nat → Option Nat → Option Char → List Char → List Char → Prop where
  | done {most : Option Nat} {before : Option Char} {rest : List Char} :
      Repeats reads 0 most before [] rest
  | required {least : Nat} {most : Option Nat} {before : Option Char} {u v rest : List Char} :
      reads before u (v ++ rest) →
      Repeats reads least (most.map (· - 1)) (charAfter before u) v rest →
      Repeats reads (least + 1) most before (u ++ v) rest
  | more {most : Option Nat} {before : Option Char} {u v rest : List Char} :
      most ≠ some 0 → u ≠ [] → reads before u (v ++ rest) →
      Repeats reads 0 (most.map (· - 1)) (charAfter before u) v rest →
      Repeats reads 0 most before (u ++ v) rest

/-- A pattern reads a text between a character and the rest. -/
def Reads : Regex → Option Char → List Char → List Char → Prop
  | empty, _, text, _ => text = []
  | char s, _, text, _ => ∃ c, text = [c] ∧ s.contains c = true
  | seq a b, before, text, rest =>
    ∃ u v, text = u ++ v ∧ a.Reads before u (v ++ rest) ∧ b.Reads (charAfter before u) v rest
  | alt a b, before, text, rest => a.Reads before text rest ∨ b.Reads before text rest
  | many least most _ a, before, text, rest =>
    Repeats (fun before text rest => a.Reads before text rest) least most before text rest
  | group _ a, before, text, rest => a.Reads before text rest
  | boundary, before, text, rest => text = [] ∧ atBoundary ⟨before, rest, 0⟩ = true
  | start, before, text, _ => text = [] ∧ before = none
  | finish, _, text, rest => text = [] ∧ (rest = [] ∨ rest = ['\n'])
  | lineEnd, _, text, rest => text = [] ∧ (rest = [] ∨ rest.head? = some '\n')
  | notAfter s, before, text, _ => text = [] ∧ (before.map s.contains).getD false = false
  | notBefore s, _, text, rest => text = [] ∧ (rest.head?.map s.contains).getD false = false

variable {before : Option Char} {u v text rest : List Char}

/-- The character behind two texts. -/
lemma charAfter_append : charAfter before (u ++ v) = charAfter (charAfter before u) v := by
  induction u generalizing before with
  | nil => rfl
  | cons c u ih => exact ih

/-- What was read hides what stood before it. -/
lemma charAfter_of_ne_nil (h : text ≠ []) (before before' : Option Char) :
    charAfter before text = charAfter before' text := by
  cases text with
  | nil => exact absurd rfl h
  | cons c text => rfl

end Regex

/-- The position after a text that is read, with the rest before it. -/
def Cursor.skip (cur : Cursor) (text rest : List Char) : Cursor :=
  ⟨Regex.charAfter cur.before text, rest, cur.offset + text.length⟩

/-- Skipping a character and what follows it. -/
lemma Cursor.skip_cons (before : Option Char) {c : Char} {text u rest : List Char} {offset : Nat} :
    skip ⟨some c, text, offset + 1⟩ u rest = skip ⟨before, c :: text, offset⟩ (c :: u) rest := by
  simp only [skip, Regex.charAfter, List.length_cons, Nat.add_assoc, Nat.add_comm 1]

/-- Skipping twice is skipping both. -/
lemma Cursor.skip_skip (cur : Cursor) (u v rest : List Char) {between : List Char} :
    (cur.skip u between).skip v rest = cur.skip (u ++ v) rest := by
  simp only [skip, Regex.charAfter_append, List.length_append, Nat.add_assoc]

namespace Regex

variable {r : Regex} {before : Option Char} {u v text rest : List Char}

/-! ## Running -/

section running

variable {β : Type} {next : Next β} {cur : Cursor} {groups : Groups} {P : Cursor → Prop}

/-- From a position on, a continuation succeeds at the positions with a property, whatever is
remembered. -/
def Accepts (cur : Cursor) (next : Next β) (P : Cursor → Prop) : Prop :=
  ∀ text rest groups, cur.rest = text ++ rest →
    ((next (cur.skip text rest) groups).isSome = true ↔ P (cur.skip text rest))

/-- A continuation that accepts a property succeeds exactly where it holds. -/
lemma Accepts.now (h : Accepts cur next P) (groups : Groups) :
    (next cur groups).isSome = true ↔ P cur :=
  h [] cur.rest groups rfl

/-- It does so behind a text that is skipped. -/
lemma Accepts.skip (h : Accepts cur next P) (hrest : cur.rest = u ++ rest) :
    Accepts (cur.skip u rest) next P := by
  rintro v rest' groups rfl
  rw [Cursor.skip_skip]
  exact h (u ++ v) rest' groups (by rw [hrest, List.append_assoc])

/-- A position with a property is reached by reading a text in some way. -/
def Reaches (cur : Cursor) (reads : Option Char → List Char → List Char → Prop)
    (P : Cursor → Prop) : Prop :=
  ∃ text rest, cur.rest = text ++ rest ∧ reads cur.before text rest ∧ P (cur.skip text rest)

/-- Reading nothing reaches the position itself. -/
lemma reaches_nil_iff {p : Option Char → List Char → Prop} :
    Reaches cur (fun before text rest => text = [] ∧ p before rest) P ↔
      p cur.before cur.rest ∧ P cur := by
  constructor
  · rintro ⟨text, rest, hrest, ⟨rfl, hp⟩, hP⟩
    obtain rfl : rest = cur.rest := hrest.symm
    exact ⟨hp, hP⟩
  · rintro ⟨hp, hP⟩
    exact ⟨[], cur.rest, rfl, ⟨rfl, hp⟩, hP⟩

/-- What is read first leads to what is read next. -/
lemma reaches_reaches_iff {first second : Option Char → List Char → List Char → Prop} :
    Reaches cur first (fun c => Reaches c second P) ↔
      Reaches cur (fun before text rest => ∃ u v, text = u ++ v ∧ first before u (v ++ rest) ∧
        second (charAfter before u) v rest) P := by
  constructor
  · rintro ⟨u, _, hrest, hu, v, rest, rfl, hv, hP⟩
    exact ⟨u ++ v, rest, by rw [hrest, List.append_assoc], ⟨u, v, rfl, hu, hv⟩,
      Cursor.skip_skip cur u v rest ▸ hP⟩
  · rintro ⟨_, rest, hrest, ⟨u, v, rfl, hu, hv⟩, hP⟩
    exact ⟨u, v ++ rest, by rw [hrest, List.append_assoc], hu, v, rest, rfl, hv,
      (Cursor.skip_skip cur u v rest).symm ▸ hP⟩

/-- Reading again at least once more reads once and then again. -/
lemma reaches_repeats_succ_iff {reads : Option Char → List Char → List Char → Prop} {least : Nat}
    {most : Option Nat} :
    Reaches cur (Repeats reads (least + 1) most) P ↔
      Reaches cur reads fun c => Reaches c (Repeats reads least (most.map (· - 1))) P := by
  rw [reaches_reaches_iff]
  constructor
  · rintro ⟨_, rest, hrest, hrepeats, hP⟩
    cases hrepeats with
    | required hu hv => exact ⟨_, rest, hrest, ⟨_, _, rfl, hu, hv⟩, hP⟩
  · rintro ⟨_, rest, hrest, ⟨u, v, rfl, hu, hv⟩, hP⟩
    exact ⟨_, rest, hrest, .required hu hv, hP⟩

/-- Reading as often as one likes stops, or it reads something and goes on. -/
lemma reaches_repeats_zero_iff {reads : Option Char → List Char → List Char → Prop}
    {most : Option Nat} : Reaches cur (Repeats reads 0 most) P ↔
      P cur ∨ most ≠ some 0 ∧ Reaches cur reads fun c =>
        cur.offset < c.offset ∧ Reaches c (Repeats reads 0 (most.map (· - 1))) P := by
  constructor
  · rintro ⟨_, rest, hrest, hrepeats, hP⟩
    cases hrepeats with
    | done =>
        obtain rfl : rest = cur.rest := hrest.symm
        exact .inl hP
    | @more _ _ u v _ hmost hne hu hv =>
        have hlt : cur.offset < (cur.skip u (v ++ rest)).offset :=
          Nat.lt_add_of_pos_right (List.length_pos_of_ne_nil hne)
        exact .inr
          ⟨hmost, u, v ++ rest, by rw [hrest, List.append_assoc], hu, hlt, v, rest, rfl, hv,
          (Cursor.skip_skip cur u v rest).symm ▸ hP⟩
  · rintro (hP | ⟨hmost, u, _, hrest, hu, hlt, v, rest, rfl, hv, hP⟩)
    · exact ⟨[], cur.rest, rfl, .done, hP⟩
    · have hne : u ≠ [] := by
        rintro rfl
        simp [Cursor.skip] at hlt
      exact ⟨u ++ v, rest, by rw [hrest, List.append_assoc], .more hmost hne hu hv,
        Cursor.skip_skip cur u v rest ▸ hP⟩

/-- A loop finds what can be read again and again, if its bound leaves room for the required rounds
and for all characters that follow. -/
lemma repeatStep_isSome_iff {step : Cursor → Groups → Next β → Option β}
    {reads : Option Char → List Char → List Char → Prop}
    (hstep : ∀ {cur : Cursor} {groups : Groups} {next : Next β} {P : Cursor → Prop},
    Accepts cur next P → ((step cur groups next).isSome = true ↔ Reaches cur reads P))
      (isLazy : Bool) (fuel : Nat) {least : Nat} {most : Option Nat} {cur : Cursor}
        {groups : Groups} (hfuel : cur.rest.length + least < fuel) (hnext : Accepts cur next P) :
    (repeatStep step isLazy next fuel least most cur groups).isSome = true ↔
      Reaches cur (Repeats reads least most) P := by
  induction fuel generalizing least most cur groups with
  | zero => omega
  | succ fuel ih =>
      cases least with
      | succ least =>
          rw [repeatStep, reaches_repeats_succ_iff]
          refine hstep fun text rest groups hrest => ih ?_ (hnext.skip hrest)
          have := congrArg List.length hrest
          rw [List.length_append] at this
          simp only [Cursor.skip]
          omega
      | zero =>
          have hmore : (if most = some 0 then none else step cur groups fun cur' groups' =>
              if cur.offset < cur'.offset then
                repeatStep step isLazy next fuel 0 (most.map (· - 1)) cur' groups'
              else none).isSome = true ↔
              most ≠ some 0 ∧ Reaches cur reads fun c =>
                cur.offset < c.offset ∧ Reaches c (Repeats reads 0 (most.map (· - 1))) P := by
            split_ifs with hmost
            · simp [hmost]
            · rw [and_iff_right hmost]
              refine hstep fun text rest groups hrest => ?_
              split_ifs with hlt
              · rw [and_iff_right hlt]
                refine ih ?_ (hnext.skip hrest)
                have := congrArg List.length hrest
                rw [List.length_append] at this
                simp only [Cursor.skip] at hlt ⊢
                omega
              · simp [hlt]
          rw [reaches_repeats_zero_iff, ← hnext.now groups, ← hmore]
          cases isLazy <;> simp [repeatStep, or_comm]

/-- A condition on the neighbours of a position reads nothing there. -/
lemma isSome_condition_iff {p : Option Char → List Char → Prop} {c : Prop} [Decidable c]
    (hc : c ↔ p cur.before cur.rest) (hnext : Accepts cur next P) :
    (if c then next cur groups else none).isSome = true ↔
      Reaches cur (fun before text rest => text = [] ∧ p before rest) P := by
  rw [reaches_nil_iff, ← hc, ← hnext.now groups]
  split_ifs with h <;> simp [h]

/-- One character of a class is read exactly if it comes next. -/
lemma reaches_char_iff {s : CharSet} {before : Option Char} {c : Char} {rest : List Char}
    {offset : Nat} : Reaches ⟨before, c :: rest, offset⟩ (char s).Reads P ↔
      s.contains c = true ∧ P (Cursor.skip ⟨before, c :: rest, offset⟩ [c] rest) := by
  constructor
  · rintro ⟨_, rest', hrest, ⟨c', rfl, hc⟩, hP⟩
    obtain ⟨rfl, rfl⟩ := List.cons.inj hrest
    exact ⟨hc, hP⟩
  · rintro ⟨hc, hP⟩
    exact ⟨[c], rest, rfl, ⟨c, rfl, hc⟩, hP⟩

/-- A run succeeds exactly if the pattern reads some text after which its continuation succeeds. -/
theorem run_isSome_iff (r : Regex) (groups : Groups) (hnext : Accepts cur next P) :
    (r.run cur groups next).isSome = true ↔ Reaches cur r.Reads P := by
  induction r generalizing cur groups next P with
  | empty =>
      have : Reaches cur (fun _ text _ => text = []) P ↔ P cur := by
        simpa only [and_true, true_and] using reaches_nil_iff (P := P) (p := fun _ _ => True)
      exact (hnext.now groups).trans this.symm
  | char s =>
      obtain ⟨before, rest, offset⟩ := cur
      cases rest with
      | nil => simp [run, Cursor.next?, Reaches, Reads]
      | cons c rest =>
          have := hnext [c] rest groups rfl
          simp only [reaches_char_iff, ← this, run, Cursor.next?]
          cases hs : s.contains c <;> simp [Cursor.skip, charAfter]
  | seq a b iha ihb =>
      exact (iha groups fun text rest groups hrest => ihb groups (hnext.skip hrest)).trans
        reaches_reaches_iff
  | alt a b iha ihb =>
      have hor : Reaches cur (alt a b).Reads P ↔ Reaches cur a.Reads P ∨ Reaches cur b.Reads P := by
        simp only [Reaches, Reads, or_and_right, and_or_left, exists_or]
      rw [hor, ← iha groups hnext, ← ihb groups hnext, run]
      cases a.run cur groups next <;> simp
  | many least most isLazy a ih =>
      exact repeatStep_isSome_iff (fun h => ih _ h) isLazy _ (Nat.lt_succ_self _) hnext
  | group n a ih =>
      exact ih groups fun text rest groups hrest => hnext text rest _ hrest
  | boundary => exact isSome_condition_iff Iff.rfl hnext
  | start => exact isSome_condition_iff Option.isNone_iff_eq_none hnext
  | finish => exact isSome_condition_iff (by simp) hnext
  | lineEnd => exact isSome_condition_iff (by simp) hnext
  | notAfter s =>
      rw [run, ← ite_not]
      exact isSome_condition_iff (by simp) hnext
  | notBefore s =>
      rw [run, ← ite_not]
      exact isSome_condition_iff (by simp) hnext

end running

/-! ## Occurring -/

/-- A pattern reads a part of what follows a character. -/
def Occurs (r : Regex) (before : Option Char) (text : List Char) : Prop :=
  ∃ u v w, text = u ++ (v ++ w) ∧ r.Reads (charAfter before u) v w

/-- A pattern occurs at the beginning of a text or behind its first character. -/
lemma occurs_iff : r.Occurs before text ↔
    (∃ v w, text = v ++ w ∧ r.Reads before v w) ∨ ∃ c rest, text = c :: rest ∧
      r.Occurs (some c) rest := by
  constructor
  · rintro ⟨u, v, w, rfl, hr⟩
    cases u with
    | nil => exact .inl ⟨v, w, rfl, hr⟩
    | cons c u => exact .inr ⟨c, u ++ (v ++ w), rfl, u, v, w, rfl, hr⟩
  · rintro (⟨v, w, rfl, hr⟩ | ⟨c, _, rfl, u, v, w, rfl, hr⟩)
    · exact ⟨[], v, w, rfl, hr⟩
    · exact ⟨c :: u, v, w, rfl, hr⟩

/-- A search tries all positions that follow. -/
lemma searchFrom_isSome_iff {whole : List Char} (more : Nat) {cur : Cursor}
    (hmore : cur.rest.length < more) :
    (r.searchFrom whole more cur).isSome = true ↔ r.Occurs cur.before cur.rest := by
  induction more generalizing cur with
  | zero => omega
  | succ more ih =>
      obtain ⟨before, rest, offset⟩ := cur
      let next : Next (Match × Cursor) :=
        fun cur' groups => some (⟨whole, offset, cur'.offset, groups⟩, cur')
      have hnext : Accepts ⟨before, rest, offset⟩ next fun _ => True :=
        fun _ _ _ _ => by simp [next]
      have hhere := run_isSome_iff r [] hnext
      simp only [Reaches, and_true] at hhere
      rw [occurs_iff, ← hhere, searchFrom]
      cases hrun : r.run ⟨before, rest, offset⟩ [] next with
      | some found => simp
      | none =>
          cases rest with
          | nil => simp [Cursor.next?]
          | cons c rest =>
              exact (ih (Nat.lt_of_succ_lt_succ hmore)).trans (by simp)

/-- A pattern is found in a text exactly if it reads a part of it. -/
theorem occursIn_iff {s : String} : r.occursIn s = true ↔ r.Occurs none s.toList := by
  rw [occursIn, search, Option.isSome_map]
  exact searchFrom_isSome_iff _ (Nat.lt_succ_self _)

/-- A pattern matches at the start of a text exactly if it reads what the text begins with. -/
theorem matchesStart_iff {s : String} :
    r.matchesStart s = true ↔ ∃ text rest, s.toList = text ++ rest ∧ r.Reads none text rest := by
  have hnext : Accepts (.ofChars s.toList)
      (fun cur groups => some (Match.mk s.toList 0 cur.offset groups))
      fun _ => True := fun _ _ _ _ => by simp
  have hrun := run_isSome_iff r [] hnext
  simp only [Reaches, and_true] at hrun
  exact hrun

/-! ## Texts and sets -/

/-- A literal text reads itself. -/
lemma reads_ofChars {cs : List Char} : (ofChars cs).Reads before text rest ↔ text = cs := by
  induction cs generalizing before text with
  | nil => rfl
  | cons c cs ih =>
      cases cs with
      | nil => simp [ofChars, Reads, CharSet.contains]
      | cons c' cs =>
          simp only [ofChars, Reads, ih]
          simp [CharSet.contains]

/-- A literal reads exactly its characters. -/
lemma reads_lit {s : String} : (lit s).Reads before text rest ↔ text = s.toList := reads_ofChars

/-- What is read again and again consists of the characters that are read each time. -/
lemma Repeats.forall {reads : Option Char → List Char → List Char → Prop}
    {p : Char → Prop} {least : Nat}
    {most : Option Nat} (h : Repeats reads least most before text rest)
    (hreads : ∀ {before text rest}, reads before text rest → ∀ c ∈ text, p c) :
    ∀ c ∈ text, p c := by
  induction h with
  | done => simp
  | required hu _ ih => exact fun c hc => (List.mem_append.mp hc).elim (hreads hu c) (ih c)
  | more _ _ hu _ ih => exact fun c hc => (List.mem_append.mp hc).elim (hreads hu c) (ih c)

/-- A repetition of a set reads what consists of its characters. -/
lemma reads_star_char {s : CharSet} :
    (star (char s)).Reads before text rest ↔ ∀ c ∈ text, s.contains c = true := by
  constructor
  · intro h
    refine Repeats.forall h ?_
    rintro _ _ _ ⟨c, rfl, hc⟩
    simpa using hc
  · intro h
    induction text generalizing before with
    | nil => exact .done
    | cons c text ih =>
        rw [List.forall_mem_cons] at h
        exact .more (u := [c]) nofun (List.cons_ne_nil _ _) ⟨c, rfl, h.1⟩ (ih h.2)

/-- A repetition that is made at least once reads at least one character. -/
lemma reads_plus_char {s : CharSet} :
    (plus (char s)).Reads before text rest ↔ text ≠ [] ∧ ∀ c ∈ text, s.contains c = true := by
  constructor
  · intro h
    cases h with
    | required hu hv =>
        obtain ⟨c, rfl, hc⟩ := hu
        exact ⟨by simp, List.forall_mem_cons.mpr ⟨hc, reads_star_char.mp hv⟩⟩
  · rintro ⟨hne, h⟩
    cases text with
    | nil => exact absurd rfl hne
    | cons c text =>
        rw [List.forall_mem_cons] at h
        exact .required (u := [c]) ⟨c, rfl, h.1⟩ (reads_star_char.mpr h.2)

/-- A repetition that is made a number of times reads that number of characters. -/
lemma reads_exactly_char {s : CharSet} {n : Nat} :
    (exactly n (char s)).Reads before text rest ↔ text.length = n ∧
      ∀ c ∈ text, s.contains c = true := by
  change Repeats _ n (some n) before text rest ↔ _
  induction n generalizing before text with
  | zero =>
      rw [List.length_eq_zero_iff]
      constructor
      · intro h
        cases h with
        | done => simp
        | more hmost => exact absurd rfl hmost
      · rintro ⟨rfl, -⟩
        exact .done
  | succ n ih =>
      constructor
      · intro h
        cases h with
        | required hu hv =>
            obtain ⟨c, rfl, hc⟩ := hu
            obtain ⟨hlen, hall⟩ := ih.mp hv
            exact ⟨by simpa using hlen, List.forall_mem_cons.mpr ⟨hc, hall⟩⟩
      · rintro ⟨hlen, hall⟩
        cases text with
        | nil => cases hlen
        | cons c text =>
            rw [List.forall_mem_cons] at hall
            exact .required (u := [c]) ⟨c, rfl, hall.1⟩ (ih.mpr ⟨Nat.succ.inj hlen, hall.2⟩)

/-! ## Characters that a pattern does not read -/

/-- Whether a character lies in no set of a pattern. -/
def avoids (c : Char) : Regex → Bool
  | char s => !s.contains c
  | seq a b | alt a b => a.avoids c && b.avoids c
  | many _ _ _ a | group _ a => a.avoids c
  | empty | boundary | start | finish | lineEnd | notAfter _ | notBefore _ => true

/-- A pattern reads no text with a character that lies in none of its sets. -/
lemma Reads.notMem_of_avoids {c : Char} (h : r.Reads before text rest)
    (havoids : r.avoids c = true) : c ∉ text := by
  induction r generalizing before text rest with
  | char s =>
      obtain ⟨c', rfl, hc'⟩ := h
      rw [avoids, Bool.not_eq_true'] at havoids
      rintro hc
      obtain rfl := List.mem_singleton.mp hc
      rw [hc'] at havoids
      cases havoids
  | seq a b iha ihb =>
      obtain ⟨u, v, rfl, hu, hv⟩ := h
      rw [avoids, Bool.and_eq_true] at havoids
      exact fun hc => (List.mem_append.mp hc).elim (iha hu havoids.1) (ihb hv havoids.2)
  | alt a b iha ihb =>
      rw [avoids, Bool.and_eq_true] at havoids
      exact h.elim (iha · havoids.1) (ihb · havoids.2)
  | many least most isLazy a ih =>
      have hall : ∀ c' ∈ text, c' ≠ c :=
        Repeats.forall h fun hreads c' hc' heq => ih hreads havoids (heq ▸ hc')
      exact fun hc => hall c hc rfl
  | group n a ih => exact ih h havoids
  | empty =>
      obtain rfl := h
      exact List.not_mem_nil
  | boundary | start | finish | lineEnd | notAfter s | notBefore s =>
      obtain ⟨rfl, -⟩ := h
      exact List.not_mem_nil

/-! ## Patterns that begin with a character -/

/-- Whether a pattern begins with a character and so does not ask for what stands before it. -/
def opensWithChar : Regex → Bool
  | char _ => true
  | seq a _ => a.opensWithChar
  | alt a b => a.opensWithChar && b.opensWithChar
  | group _ a => a.opensWithChar
  | _ => false

/-- A pattern that begins with a character reads a text whatever stands before, and reads no empty
text. -/
lemma Reads.of_opensWithChar (h : r.Reads before text rest) (hopens : r.opensWithChar = true)
    (before' : Option Char) : text ≠ [] ∧ r.Reads before' text rest := by
  induction r generalizing text rest with
  | char s =>
      obtain ⟨c, rfl, hc⟩ := h
      exact ⟨List.cons_ne_nil _ _, c, rfl, hc⟩
  | seq a b iha _ =>
      obtain ⟨u, v, rfl, hu, hv⟩ := h
      obtain ⟨hne, hu'⟩ := iha hu hopens
      exact ⟨by simp [hne], u, v, rfl, hu', charAfter_of_ne_nil hne before before' ▸ hv⟩
  | alt a b iha ihb =>
      rw [opensWithChar, Bool.and_eq_true] at hopens
      rcases h with h | h
      · exact (iha h hopens.1).imp id .inl
      · exact (ihb h hopens.2).imp id .inr
  | group n a ih => exact ih h hopens
  | _ => cases hopens

/-- A pattern that begins with a character occurs wherever the text ends with one in which it
occurs. -/
theorem Occurs.append_left (h : r.Occurs before text) (hopens : r.opensWithChar = true)
    (before' : Option Char) (u : List Char) : r.Occurs before' (u ++ text) := by
  obtain ⟨u', v, w, rfl, hr⟩ := h
  exact ⟨u ++ u', v, w, by rw [List.append_assoc], (hr.of_opensWithChar hopens _).2⟩

end Regex

end PipelineAudit
