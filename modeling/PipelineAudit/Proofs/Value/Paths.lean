import Mathlib.Data.List.Infix
import PipelineAudit.Proofs.Value.Keys
import PipelineAudit.Proofs.Value.Names
import PipelineAudit.Value.Equality

/-!
# Values at paths

A path of keys leads through nested mappings to a value (`Value.valueAt`); what is no mapping there
is held at the path (`Value.scalarAt`). The mappings of a file that was read are keyed: none of
their keys is a collection, and no two are the same (`Value.IsKeyed`). In such a mapping every entry
is found under its key (`Value.AreKeyed.lookup_of_mem`), and two of them with the same keys in order
are equal if they hold the same under each (`Value.AreKeyed.ext`).
-/

namespace PipelineAudit.Value

variable {es es' : List (Value × Value)} {e : Value × Value} {v w key k : Value} {path : List Value}

/-! ## Entries with different keys -/

/-- All keys of entries can be keys, and no two are the same. -/
structure AreKeyed (es : List (Value × Value)) : Prop where
  isKey : ∀ e ∈ es, e.1.isKey = true
  apart : es.Pairwise fun d e => d.1.sameKey e.1 = false

/-- Of no entries, all have keys of their own. -/
lemma areKeyed_nil : AreKeyed [] := ⟨nofun, .nil⟩

/-- Entries have keys of their own if the first has a key that no other has, and the others do too.
-/
lemma areKeyed_cons_iff : AreKeyed (e :: es) ↔
    e.1.isKey = true ∧ (∀ d ∈ es, e.1.sameKey d.1 = false) ∧ AreKeyed es := by
  constructor
  · rintro ⟨hkey, hapart⟩
    obtain ⟨he, hes⟩ := List.forall_mem_cons.mp hkey
    obtain ⟨hfirst, hrest⟩ := List.pairwise_cons.mp hapart
    exact ⟨he, hfirst, hes, hrest⟩
  · rintro ⟨he, hfirst, hes, hrest⟩
    exact ⟨List.forall_mem_cons.mpr ⟨he, hes⟩, List.pairwise_cons.mpr ⟨hfirst, hrest⟩⟩

/-- A key is not found exactly if no entry has it. -/
lemma lookup_eq_none_iff : lookup es k = none ↔ ∀ e ∈ es, e.1.sameKey k = false := by
  induction es with
  | nil => simp [lookup]
  | cons e rest ih =>
      obtain ⟨key, v⟩ := e
      rw [lookup, List.forall_mem_cons, ← ih]
      split_ifs with hsame <;> simp [hsame]

/-- Nothing is found under what cannot be a key. -/
lemma lookup_of_not_isKey (hes : ∀ e ∈ es, e.1.isKey = true) (hk : k.isKey = false) :
    lookup es k = none :=
  lookup_eq_none_iff.mpr fun e he => by
    rw [Bool.eq_false_iff]
    intro h
    rw [isKey_of_sameKey (hes e he) h] at hk
    cases hk

/-- Only the keys decide whether something is found. -/
lemma isSome_lookup_congr (h : es.map Prod.fst = es'.map Prod.fst) (k : Value) :
    (lookup es k).isSome = (lookup es' k).isSome := by
  have hnone : ∀ ds : List (Value × Value), lookup ds k = none ↔
      ∀ key ∈ ds.map Prod.fst, key.sameKey k = false :=
    fun ds => by rw [lookup_eq_none_iff, List.forall_mem_map]
  rw [Bool.eq_iff_iff, Option.isSome_iff_ne_none, Option.isSome_iff_ne_none, Ne, hnone, h, ← hnone]

/-- Under keys that are the same there is the same. -/
lemma lookup_congr (hes : ∀ e ∈ es, e.1.isKey = true) (hkey : key.isKey = true)
    (hk : k.isKey = true) (h : key.sameKey k = true) : lookup es key = lookup es k := by
  induction es with
  | nil => rfl
  | cons e rest ih =>
      obtain ⟨k₀, w⟩ := e
      obtain ⟨hk₀, hrest⟩ := List.forall_mem_cons.mp hes
      have hsame : k₀.sameKey key = true ↔ k₀.sameKey k = true :=
        ⟨fun h₀ => sameKey_trans_of_isKey hk₀ hkey hk h₀ h,
          fun h₀ => sameKey_trans_of_isKey hk₀ hk hkey h₀ (sameKey_symm_of_isKey hkey hk h)⟩
      simp only [lookup, hsame, ih hrest]

/-- What is there already is written without a change. -/
lemma insertEntry_of_lookup (h : lookup es key = some v) : insertEntry es key v = es := by
  induction es with
  | nil => cases h
  | cons e rest ih =>
      obtain ⟨k, w⟩ := e
      rw [lookup] at h
      rw [insertEntry]
      split_ifs at h ⊢ with hsame
      · cases h
        rfl
      · rw [ih h]

/-- Writing an entry brings in its key, if it is new. -/
lemma map_fst_insertEntry (es : List (Value × Value)) (key v : Value) :
    (insertEntry es key v).map Prod.fst =
    es.map Prod.fst ++ if (lookup es key).isNone then [key] else [] := by
  induction es with
  | nil => rfl
  | cons e rest ih =>
      obtain ⟨k, w⟩ := e
      rw [insertEntry, lookup]
      by_cases hsame : k.sameKey key = true
      · simp [hsame]
      · rw [if_neg hsame, if_neg hsame, List.map_cons, ih, List.map_cons, List.cons_append]

namespace AreKeyed

/-- Every entry is found under its key. -/
lemma lookup_of_mem (hes : AreKeyed es) (h : (key, v) ∈ es) : lookup es key = some v := by
  induction es with
  | nil => cases h
  | cons e rest ih =>
      obtain ⟨k, w⟩ := e
      obtain ⟨-, hfirst, hrest⟩ := areKeyed_cons_iff.mp hes
      rw [lookup]
      rcases List.mem_cons.mp h with heq | h
      · cases heq
        rw [if_pos (sameKey_self key)]
      · have hapart : k.sameKey key = false := hfirst _ h
        rw [if_neg (by simp [hapart]), ih hrest h]

/-- Entries with the same key are one. -/
lemma eq_of_sameKey {d : Value × Value} (hes : AreKeyed es) (hd : d ∈ es) (he : e ∈ es)
    (h : d.1.sameKey e.1 = true) : d = e := by
  induction es with
  | nil => cases hd
  | cons a rest ih =>
      obtain ⟨ha, hfirst, hrest⟩ := areKeyed_cons_iff.mp hes
      rcases List.mem_cons.mp hd with rfl | hd' <;> rcases List.mem_cons.mp he with rfl | he'
      · rfl
      · rw [hfirst e he'] at h
        cases h
      · have hback := sameKey_symm_of_isKey (hrest.isKey d hd') ha h
        rw [hfirst d hd'] at hback
        cases hback
      · exact ih hrest hd' he'

/-- Only the keys matter. -/
lemma of_map_fst_eq (hes : AreKeyed es) (hkeys : es.map Prod.fst = es'.map Prod.fst) :
    AreKeyed es' := by
  refine ⟨fun e he => ?_, ?_⟩
  · have hmem : e.1 ∈ es.map Prod.fst := hkeys ▸ List.mem_map_of_mem he
    obtain ⟨d, hd, heq⟩ := List.mem_map.mp hmem
    exact heq ▸ hes.isKey d hd
  · have hapart : (es.map Prod.fst).Pairwise fun a b => a.sameKey b = false :=
      List.pairwise_map.mpr hes.apart
    exact List.pairwise_map.mp (hkeys ▸ hapart)

/-- Two lists of entries with the same keys in order are equal if every key has the same value in
both. -/
lemma ext (hes : AreKeyed es) (hkeys : es.map Prod.fst = es'.map Prod.fst)
    (hvalues : ∀ e ∈ es, lookup es' e.1 = some e.2) : es = es' := by
  have hlength : es.length = es'.length := by simpa using congrArg List.length hkeys
  refine List.ext_getElem hlength fun i hi hi' => ?_
  have hfst : es[i].1 = es'[i].1 := by simpa [hi, hi'] using congrArg (·[i]?) hkeys
  have hfound : lookup es' es[i].1 = some es'[i].2 :=
    hfst ▸ (hes.of_map_fst_eq hkeys).lookup_of_mem (List.getElem_mem hi')
  exact Prod.ext hfst (Option.some.inj ((hvalues _ (List.getElem_mem hi)).symm.trans hfound))

/-- Entries with keys of their own keep them when some are taken out. -/
lemma filter (hes : AreKeyed es) (p : Value × Value → Bool) : AreKeyed (es.filter p) :=
  ⟨fun e he => hes.isKey e (List.mem_of_mem_filter he), hes.apart.filter p⟩

/-- Of some entries, those are found that were kept. -/
lemma lookup_filter_of_mem (hes : AreKeyed es) (p : Value × Value → Bool) (he : e ∈ es) :
    lookup (es.filter p) e.1 = if p e = true then some e.2 else none := by
  split_ifs with hp
  · exact (hes.filter p).lookup_of_mem (List.mem_filter.mpr ⟨he, hp⟩)
  · refine lookup_eq_none_iff.mpr fun d hd => ?_
    obtain ⟨hd, hpd⟩ := List.mem_filter.mp hd
    rw [Bool.eq_false_iff]
    intro hsame
    rw [hes.eq_of_sameKey hd he hsame] at hpd
    exact hp hpd

/-- Writing an entry keeps the keys different. -/
lemma insertEntry (hes : AreKeyed es) (hkey : key.isKey = true) (v : Value) :
    AreKeyed (insertEntry es key v) := by
  by_cases hold : ∃ e ∈ es, e.1.sameKey key = true
  · obtain ⟨e, he, hsame⟩ := hold
    exact hes.of_map_fst_eq (map_fst_insertEntry_of_mem he hsame).symm
  · have hnew : ∀ e ∈ es, e.1.sameKey key = false := by simpa using hold
    rw [insertEntry_eq_append hnew]
    refine ⟨fun e he => ?_, List.pairwise_append.mpr ⟨hes.apart, by simp, by simpa using hnew⟩⟩
    rcases List.mem_append.mp he with he | he
    · exact hes.isKey e he
    · rw [List.mem_singleton.mp he]
      exact hkey

end AreKeyed

/-! ## Nested mappings -/

/-- The keys of every mapping that is reached through mappings can be keys, and no two of them are
the same. -/
inductive IsKeyed : Value → Prop
  | other {v : Value} : v.isMap = false → IsKeyed v
  | map {es : List (Value × Value)} : AreKeyed es → (∀ e ∈ es, IsKeyed e.2) → IsKeyed (.map es)

/-- A mapping is keyed if its entries have keys of their own and their values are keyed. -/
lemma isKeyed_map_iff : (map es).IsKeyed ↔ AreKeyed es ∧ ∀ e ∈ es, e.2.IsKeyed := by
  constructor
  · intro h
    cases h with
    | other hmap => cases hmap
    | map hkeys hvalues => exact ⟨hkeys, hvalues⟩
  · exact fun ⟨hkeys, hvalues⟩ => .map hkeys hvalues

/-- A value that counts as a mapping is one. -/
lemma exists_of_isMap (h : v.isMap = true) : ∃ es, v = map es := by
  cases v with
  | map es => exact ⟨es, rfl⟩
  | _ => cases h

/-- What is found in a keyed mapping is keyed. -/
lemma isKeyed_of_lookup (h : (map es).IsKeyed) (hk : lookup es k = some v) : v.IsKeyed := by
  obtain ⟨e, he, rfl⟩ := exists_mem_of_lookup hk
  exact (isKeyed_map_iff.mp h).2 e he

/-- Text keys that differ are different keys. -/
lemma areKeyed_ofFields {fields : Assoc String Value} (h : fields.keys.Nodup) :
    AreKeyed (ofFields fields).entries := by
  refine ⟨fun e he => ?_, List.pairwise_map.mpr ?_⟩
  · obtain ⟨p, -, rfl⟩ := List.mem_map.mp he
    rfl
  · refine (List.pairwise_map.mp h).imp fun {p q} hne => ?_
    rw [sameKey_str_str]
    exact beq_false_of_ne hne

/-- A mapping made of named fields is keyed if no name stands twice and the values are keyed. -/
lemma isKeyed_ofFields {fields : Assoc String Value} (h : fields.keys.Nodup)
    (hvalues : ∀ p ∈ fields, p.2.IsKeyed) : (ofFields fields).IsKeyed := by
  refine .map (areKeyed_ofFields h) fun e he => ?_
  obtain ⟨p, hp, rfl⟩ := List.mem_map.mp he
  exact hvalues p hp

/-- A text among the keys of fields is found. -/
lemma isSome_lookup_ofFields {fields : Assoc String Value} {name : String}
    (h : name ∈ fields.keys) : (lookup (ofFields fields).entries (.str name)).isSome = true := by
  obtain ⟨p, hp, rfl⟩ := List.mem_map.mp h
  rw [Option.isSome_iff_ne_none]
  intro hnone
  have hapart := lookup_eq_none_iff.mp hnone (.str p.1, p.2) (List.mem_map_of_mem hp)
  rw [sameKey_self] at hapart
  cases hapart

/-! ## Paths -/

/-- The value to which a path of keys leads. -/
def valueAt : Value → List Value → Option Value
  | v, [] => some v
  | map es, key :: path => (lookup es key).bind fun w => w.valueAt path
  | _, _ :: _ => none
termination_by structural _ path => path

/-- What is held at a path: the value there, if it is no mapping. -/
def scalarAt (v : Value) (path : List Value) : Option Value :=
  (v.valueAt path).filter fun w => !w.isMap

/-- Nothing is at a path, and nothing is held on the way that would be in the place of a mapping. -/
def LeavesOpen (v : Value) (path : List Value) : Prop :=
  v.valueAt path = none ∧ ∀ way ∈ path.inits, v.scalarAt way = none

instance : Decidable (LeavesOpen v path) := inferInstanceAs (Decidable (_ ∧ _))

/-- At the end of a path, a mapping is no scalar. -/
lemma scalarAt_nil_of_isMap (h : v.isMap = true) : v.scalarAt [] = none := by
  simp [scalarAt, valueAt, h]

/-- At the end of a path, anything else is. -/
lemma scalarAt_nil_of_not_isMap (h : v.isMap = false) : v.scalarAt [] = some v := by
  simp [scalarAt, valueAt, h]

/-- A path does not go on below what is no mapping. -/
lemma valueAt_cons_of_not_isMap (h : v.isMap = false) (key : Value) (path : List Value) :
    v.valueAt (key :: path) = none := by
  cases v with
  | map es => cases h
  | _ => rfl

/-- Nor is there a scalar below it. -/
lemma scalarAt_cons_of_not_isMap (h : v.isMap = false) (key : Value) (path : List Value) :
    v.scalarAt (key :: path) = none := by
  rw [scalarAt, valueAt_cons_of_not_isMap h, Option.filter_none]

/-- Below a mapping, a path goes on at the entry with its first key. -/
lemma valueAt_map_cons (es : List (Value × Value)) (key : Value) (path : List Value) :
    (map es).valueAt (key :: path) = (lookup es key).bind fun w => w.valueAt path := rfl

/-- So it does for scalars. -/
lemma scalarAt_map_cons (es : List (Value × Value)) (key : Value) (path : List Value) :
    (map es).scalarAt (key :: path) = (lookup es key).bind fun w => w.scalarAt path := by
  rw [scalarAt, valueAt_map_cons]
  cases lookup es key <;> rfl

/-- What is no mapping leaves nothing open. -/
lemma not_leavesOpen_of_not_isMap (h : v.isMap = false) (path : List Value) : ¬v.LeavesOpen path :=
  fun hopen => by
  have hroot := hopen.2 [] ((List.mem_inits _ _).mpr List.nil_prefix)
  rw [scalarAt_nil_of_not_isMap h] at hroot
  cases hroot

/-- A mapping leaves open what is below a key that it lacks, and what the value under a key leaves
open. -/
lemma leavesOpen_map_cons_iff :
    (map es).LeavesOpen (key :: path) ↔ ∀ w, lookup es key = some w → w.LeavesOpen path := by
  have hinits : ∀ {p : List Value → Prop}, (∀ way ∈ (key :: path).inits, p way) ↔
      p [] ∧ ∀ way ∈ path.inits, p (key :: way) := by
    intro p
    simp only [List.inits, List.forall_mem_cons, List.forall_mem_map]
  rw [LeavesOpen, hinits, valueAt_map_cons]
  simp only [scalarAt_map_cons, scalarAt_nil_of_isMap (v := map es) rfl, true_and]
  cases lookup es key with
  | none => simp
  | some w => simp [LeavesOpen]

end PipelineAudit.Value
