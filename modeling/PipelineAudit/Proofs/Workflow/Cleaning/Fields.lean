import PipelineAudit.Proofs.Value.CleanText
import PipelineAudit.Proofs.Workflow.Writable

/-!
# Reading a clean tree

What the readings of fields make of a clean value: the value under a key is the clean value under
that key, and readings that clean what they read do not see a difference. Documents are compared
apart from the lines of their jobs and steps (`Document.withoutLines`), and two readings follow each
other (`Follows`) if the second one gives or rejects what the first one does.
-/

namespace PipelineAudit

namespace Value

/-! ## Fields -/

variable {name : String} (v : Value)

/-- The entries of a clean value are the clean entries. -/
lemma entries_clean : v.clean.entries = cleanEntries v.entries := by
  cases v <;> rfl

/-- Cleaning keeps what is a mapping. -/
@[simp] lemma isMap_clean : v.clean.isMap = v.isMap := by
  cases v <;> rfl

/-- Cleaning keeps what is null. -/
@[simp] lemma isNull_clean : v.clean.isNull = v.isNull := by
  cases v <;> rfl

/-- The value under a key, other than that of a position, is the clean value under it. -/
lemma get?_clean (hname : name ∉ Yaml.positionKeys) :
    v.clean.get? name = (v.get? name).map clean := by
  rw [get?, get?, entries_clean]
  induction v.entries with
  | nil => rfl
  | cons e rest ih =>
      obtain ⟨k, w⟩ := e
      rw [cleanEntries, cleanEntry]
      by_cases hkey : k.isPositionKey = true
      · have hother : hasName name (k, w) = false := by
          cases k with
          | str s =>
              have hposition : s ∈ Yaml.positionKeys := by simpa [isPositionKey] using hkey
              simp only [hasName, beq_eq_false_iff_ne]
              rintro rfl
              exact hname hposition
          | _ => rfl
        rw [if_pos hkey, ih, List.find?_cons_of_neg (by simp [hother])]
      · have hsame : hasName name (k, w.clean) = hasName name (k, w) := by cases k <;> rfl
        rw [if_neg hkey]
        by_cases hfound : hasName name (k, w) = true
        · rw [List.find?_cons_of_pos (hsame ▸ hfound), List.find?_cons_of_pos hfound]
          rfl
        · rw [List.find?_cons_of_neg (hsame ▸ hfound), List.find?_cons_of_neg hfound, ih]

/-- The field of a clean value is the clean field, if its name is no position key. -/
lemma get_clean (hname : name ∉ Yaml.positionKeys) : v.clean.get name = (v.get name).clean := by
  rw [get, get, get?_clean v hname]
  cases v.get? name <;> rfl

/-- Cleaning keeps which fields there are, position keys apart. -/
lemma has_clean (hname : name ∉ Yaml.positionKeys) : v.clean.has name = v.has name := by
  rw [has, has, get?_clean v hname, Option.isSome_map]

/-- A clean tree records no lines of keys. -/
lemma keyLine_clean (key : String) : v.clean.keyLine key = .null := by
  have hnone : v.clean.get? Yaml.keyLinesKey = none := by
    rw [get?, entries_clean, Option.map_eq_none_iff, List.find?_eq_none]
    intro e he
    obtain ⟨e', -, hkey, rfl⟩ := mem_cleanEntries.mp he
    cases hname : e'.1 with
    | str s =>
        rw [hname] at hkey
        simp only [hasName, beq_iff_eq]
        rintro rfl
        exact absurd hkey (by decide)
    | _ => simp [hasName]
  rw [keyLine, hnone]

/-- The items of a clean value, or the value itself, are clean. -/
lemma itemsOrSelf_clean : v.clean.itemsOrSelf = v.itemsOrSelf.map clean := by
  cases v with
  | seq items => rw [clean_seq, itemsOrSelf, itemsOrSelf]
  | _ => rfl

/-- The truth value as a key is not that of a position. -/
lemma lookup_bool_clean (b : Bool) :
    lookup v.clean.entries (.bool b) = (lookup v.entries (.bool b)).map clean := by
  rw [entries_clean]
  induction v.entries with
  | nil => rfl
  | cons e rest ih =>
      obtain ⟨k, w⟩ := e
      rw [cleanEntries, cleanEntry]
      by_cases hkey : k.isPositionKey = true
      · have hother : sameKey k (.bool b) = false := by
          cases k with
          | str s => rfl
          | _ => cases hkey
        rw [if_pos hkey, ih, lookup, if_neg (by simp [hother])]
      · rw [if_neg hkey, lookup, lookup, ih]
        split_ifs <;> rfl

/-- Cleaning keeps the keys of fields. -/
lemma fieldKeys_clean : v.clean.fieldKeys = v.fieldKeys := by
  have hkeys : ∀ es : List (Value × Value),
      ((cleanEntries es).map Prod.fst).filter (fun k => !k.isPositionKey) =
      (es.map Prod.fst).filter fun k => !k.isPositionKey := by
    intro es
    induction es with
    | nil => rfl
    | cons e rest ih =>
        obtain ⟨k, w⟩ := e
        rw [cleanEntries, List.map_cons, List.filter_cons]
        by_cases hkey : k.isPositionKey = true
        · rw [if_pos hkey, ih, if_neg (by simp [hkey])]
        · rw [if_neg hkey, cleanEntry, List.map_cons, List.filter_cons, ih]
  rw [fieldKeys, fieldKeys, entries_clean, hkeys]

/-- Cleaning a value keeps its fields, which are clean already. -/
lemma asFields_clean : v.clean.asFields = v.asFields := by
  cases v with
  | map es =>
      have hclean : cleanEntries (cleanEntries es) = cleanEntries es :=
        map.inj (clean_clean (map es))
      rw [clean, asFields, asFields, hclean]
  | _ => rfl

end Value

/-! ## Apart from lines -/

/-- A step without its line. -/
def Step.withoutLine (s : Step) : Step := { s with line := none }

/-- A job without its line and those of its steps. -/
def Job.withoutLines (j : Job) : Job :=
  { j with line := .null, steps := j.steps.map Step.withoutLine }

/-- A document without the lines of its jobs and steps. -/
def Document.withoutLines (d : Document) : Document :=
  { d with jobs := d.jobs.map Job.withoutLines }

/-- Putting a job among others is writing its pair, if a job has its id from its pair. -/
lemma Document.map_withoutLines_putJob {F : String × Value → Job} {pairs : Assoc String Value}
    {jobs : List Job} {j : Job} {p : String × Value} (hid : ∀ p, (F p).id = p.1)
    (hjobs : jobs.map Job.withoutLines = pairs.map F) (hj : j.withoutLines = F p) :
    (putJob jobs j).map Job.withoutLines = (pairs.insert p.1 p.2).map F := by
  have hjid : j.id = p.1 := by rw [← hid p, ← hj]; rfl
  induction pairs generalizing jobs with
  | nil =>
      obtain rfl : jobs = [] := List.map_eq_nil_iff.mp hjobs
      exact congrArg (fun j => [j]) hj
  | cons q rest ih =>
      cases jobs with
      | nil => cases hjobs
      | cons j' jobs =>
          obtain ⟨hj', hrest⟩ := List.cons.inj hjobs
          have hqid : j'.id = q.1 := by rw [← hid q, ← hj']; rfl
          obtain ⟨k, w⟩ := q
          rw [putJob, Assoc.insert, hjid, hqid]
          split_ifs with hsame
          · rw [List.map_cons, List.map_cons, hrest, hj]
            have hk : k = p.1 := by simpa using hsame
            rw [hk]
          · rw [List.map_cons, List.map_cons, ih hrest, hj']

/-- The jobs of pairs of an id and a value; of several with one id the last one counts. -/
lemma Document.map_withoutLines_foldl_putJob {F : String × Value → Job} {read : List Job}
    {pairs : List (String × Value)} (hid : ∀ p, (F p).id = p.1)
    (h : List.Forall₂ (fun j p => j.withoutLines = F p) read pairs) :
    (read.foldl putJob []).map Job.withoutLines = (Assoc.ofList pairs).map F := by
  have hfold : ∀ (m : Assoc String Value) (jobs : List Job), jobs.map Job.withoutLines = m.map F →
      (read.foldl putJob jobs).map Job.withoutLines =
        (pairs.foldl (fun m p => m.insert p.1 p.2) m).map F := by
    induction h with
    | nil => exact fun m jobs hjobs => hjobs
    | cons hj _ ih => exact fun m jobs hjobs => ih _ _ (map_withoutLines_putJob hid hjobs hj)
  exact hfold [] [] rfl

/-! ## Readings that follow each other -/

/-- A reading follows another one: where that gives a result, this gives a related one, and where
that rejects, this rejects with the same message. -/
structure Follows {α β : Type} (R : α → β → Prop) (x : Except ParseFailure α)
    (y : Except ParseFailure β) : Prop where
  ok : ∀ {a}, x = .ok a → ∃ b, y = .ok b ∧ R a b
  rejected : ∀ {e}, x = .error (.rejected e) → ∃ e', y = .error (.rejected e') ∧
    e'.message = e.message

namespace Follows

variable {α β γ δ : Type} {R : α → β → Prop} {S : γ → δ → Prop}

/-- Results follow each other if they are related. -/
lemma pure {a : α} {b : β} (h : R a b) : Follows R (.ok a) (.ok b) where
  ok := by
    rintro _ ⟨⟩
    exact ⟨b, rfl, h⟩
  rejected := nofun

/-- What follows in one relation follows in a wider one. -/
lemma imp {R' : α → β → Prop} {x : Except ParseFailure α} {y : Except ParseFailure β}
    (h : Follows R x y) (himp : ∀ a b, R a b → R' a b) : Follows R' x y where
  ok ha := (h.ok ha).imp fun b hb => ⟨hb.1, himp _ b hb.2⟩
  rejected := h.rejected

/-- A rejection follows one with the same message. -/
lemma reject {e e' : DocumentError} (h : e'.message = e.message) :
    Follows R (.error (.rejected e)) (.error (.rejected e')) where
  ok := nofun
  rejected := by
    rintro _ ⟨⟩
    exact ⟨e', rfl, h⟩

/-- What is made of results that follow each other follows. -/
lemma bind {x : Except ParseFailure α} {y : Except ParseFailure β} {f : α → Except ParseFailure γ}
    {g : β → Except ParseFailure δ} (hxy : Follows R x y)
    (hfg : ∀ a b, R a b → Follows S (f a) (g b)) : Follows S (x >>= f) (y >>= g) where
  ok := by
    intro c hc
    obtain ⟨a, ha, hc⟩ := bind_eq_ok.mp hc
    obtain ⟨b, hb, hR⟩ := hxy.ok ha
    obtain ⟨d, hd, hS⟩ := (hfg a b hR).ok hc
    exact ⟨d, bind_eq_ok.mpr ⟨b, hb, hd⟩, hS⟩
  rejected := by
    intro e he
    cases hx : x with
    | error why =>
        rw [hx] at he
        cases he
        obtain ⟨e', hy, hmessage⟩ := hxy.rejected hx
        rw [hy]
        exact ⟨e', rfl, hmessage⟩
    | ok a =>
        rw [hx] at he
        obtain ⟨b, hb, hR⟩ := hxy.ok hx
        rw [hb]
        exact (hfg a b hR).rejected he

/-- Values with texts can be checked wherever those before them could. -/
lemma checkWritten {values others : List Value}
    (h : (∀ v ∈ values, v.isWritable = true) → ∀ v ∈ others, v.isWritable = true) :
    Follows (fun _ _ => True) (checkWritten values) (checkWritten others) where
  ok := by
    intro u hu
    unfold PipelineAudit.checkWritten at hu ⊢
    split_ifs at hu with hall
    rw [if_pos (List.all_eq_true.mpr (h (List.all_eq_true.mp hall)))]
    exact ⟨(), rfl, trivial⟩
  rejected := by
    intro e he
    unfold PipelineAudit.checkWritten at he
    split_ifs at he
    cases he

/-- Readings of items that follow each other, one by one. -/
lemma mapM {ι κ : Type} {f : ι → Except ParseFailure α} {g : κ → Except ParseFailure β}
    {change : ι → κ} {P : α → ι → Prop} {Q : β → ι → Prop} {items : List ι}
    (h : ∀ i ∈ items, Follows (fun a b => P a i ∧ Q b i) (f i) (g (change i))) :
    Follows (fun as bs => List.Forall₂ P as items ∧ List.Forall₂ Q bs items) (items.mapM f)
      ((items.map change).mapM g) := by
  induction items with
  | nil => exact Follows.pure ⟨.nil, .nil⟩
  | cons i rest ih =>
      obtain ⟨hfirst, hrest⟩ := List.forall_mem_cons.mp h
      rw [List.map_cons, List.mapM_cons, List.mapM_cons]
      refine hfirst.bind ?_
      rintro a b ⟨ha, hb⟩
      refine (ih hrest).bind ?_
      rintro as bs ⟨has, hbs⟩
      exact Follows.pure ⟨.cons ha has, .cons hb hbs⟩

end Follows

end PipelineAudit
