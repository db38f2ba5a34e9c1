import PipelineAudit.Proofs.Config.Merging
import PipelineAudit.Proofs.Value.Paths

/-!
# Configurations laid over others

Under a key a merged mapping has the value of the one laid over, merged with what was there
(`Config.lookup_mergeEntries`). So at every path of keys it holds what the one laid over holds, and
what the one below holds where that leaves the path open; its keys are those of the one below, and
then the new ones (`Config.overlays_merge`). Laying the same mapping over a second time changes
nothing, since each of its values is there already (`Config.mergeEntries_eq_self`).
-/

namespace PipelineAudit.Config

open Value

variable {base es : List (Value × Value)} {old : Option Value} {v w key k : Value}
    {path : List Value}

/-! ## One level -/

/-- An entry is merged in by merging its value with the one that is there. -/
lemma mergeEntry_eq (base : List (Value × Value)) (e : Value × Value) :
    mergeEntry base e = insertEntry base e.1 (mergeValue (lookup base e.1) e.2) := by
  cases e
  rfl

/-- Mappings are merged entry by entry. -/
lemma mergeValue_map_map (bs es : List (Value × Value)) :
    mergeValue (some (map bs)) (map es) = map (mergeEntries bs es) := rfl

/-- What was no mapping is replaced. -/
lemma mergeValue_of_old (h : ∀ bs, old ≠ some (map bs)) (v : Value) : mergeValue old v = v := by
  cases v with
  | map es =>
      unfold mergeValue
      split
      · rename_i bs
        exact absurd rfl (h bs)
      · rfl
  | _ => rfl

/-- Where there is no value, the new one comes in. -/
lemma mergeValue_none (v : Value) : mergeValue none v = v :=
  mergeValue_of_old (fun _ h => by cases h) v

/-- Entries with keys of their own keep them when entries are merged in. -/
lemma areKeyed_mergeEntries (hbase : AreKeyed base) (hes : ∀ e ∈ es, e.1.isKey = true) :
    AreKeyed (mergeEntries base es) := by
  induction es generalizing base with
  | nil => exact hbase
  | cons e rest ih =>
      obtain ⟨he, hrest⟩ := List.forall_mem_cons.mp hes
      exact ih (mergeEntry_eq base e ▸ hbase.insertEntry he _) hrest

/-- Under a key, a merged mapping has the value laid over, merged with what was there. -/
lemma lookup_mergeEntries (hbase : AreKeyed base) (hes : AreKeyed es) (k : Value) :
    lookup (mergeEntries base es) k = match lookup es k with
      | none => lookup base k
      | some v => some (mergeValue (lookup base k) v) := by
  by_cases hk : k.isKey = true
  · induction es generalizing base with
    | nil => rfl
    | cons e rest ih =>
        obtain ⟨key, v⟩ := e
        obtain ⟨hkey, hfirst, hrest⟩ := areKeyed_cons_iff.mp hes
        rw [mergeEntries, mergeEntry_eq, ih (hbase.insertEntry hkey _) hrest,
          lookup_insertEntry hbase.isKey hkey hk, lookup]
        by_cases hsame : key.sameKey k = true
        · have hnone : lookup rest k = none := lookup_eq_none_iff.mpr fun d hd => by
            rw [Bool.eq_false_iff]
            intro hd'
            have hback := sameKey_symm_of_isKey (hrest.isKey d hd) hk hd'
            have hagain := sameKey_trans_of_isKey hkey hk (hrest.isKey d hd) hsame hback
            rw [hfirst d hd] at hagain
            cases hagain
          rw [if_pos hsame, if_pos hsame, hnone, lookup_congr hbase.isKey hkey hk hsame]
        · rw [if_neg hsame, if_neg hsame]
  · -- nothing is found under what cannot be a key
    have hnone : ∀ {ds : List (Value × Value)}, AreKeyed ds → lookup ds k = none := fun hds =>
      lookup_of_not_isKey hds.isKey (Bool.not_eq_true _ ▸ hk)
    rw [hnone (areKeyed_mergeEntries hbase hes.isKey), hnone hes, hnone hbase]

/-- The keys of a merged mapping are those that were there, and then the new ones. -/
lemma map_fst_mergeEntries (hbase : AreKeyed base) (hes : AreKeyed es) :
    (mergeEntries base es).map Prod.fst =
    base.map Prod.fst ++ (es.map Prod.fst).filter fun key => (lookup base key).isNone := by
  induction es generalizing base with
  | nil => simp [mergeEntries]
  | cons e rest ih =>
      obtain ⟨hkey, hfirst, hrest⟩ := areKeyed_cons_iff.mp hes
      have hlater : ∀ key ∈ rest.map Prod.fst,
          (lookup (mergeEntry base e) key).isNone = (lookup base key).isNone := by
        intro key hmem
        obtain ⟨d, hd, rfl⟩ := List.mem_map.mp hmem
        rw [mergeEntry_eq, lookup_insertEntry hbase.isKey hkey (hrest.isKey d hd), hfirst d hd,
          if_neg Bool.false_ne_true]
      rw [mergeEntries, ih (mergeEntry_eq base e ▸ hbase.insertEntry hkey _) hrest,
        List.filter_congr hlater, mergeEntry_eq, map_fst_insertEntry, List.map_cons,
        List.filter_cons]
      split_ifs <;> simp

/-- Laying entries over a mapping changes nothing, if each value is there already. -/
lemma mergeEntries_eq_self
    (h : ∀ e ∈ es, ∃ w, lookup base e.1 = some w ∧ mergeValue (some w) e.2 = w) :
    mergeEntries base es = base := by
  induction es with
  | nil => rfl
  | cons e rest ih =>
      obtain ⟨⟨w, hw, hmerge⟩, hrest⟩ := List.forall_mem_cons.mp h
      rw [mergeEntries, mergeEntry_eq, hw, hmerge, insertEntry_of_lookup hw, ih hrest]

/-- Entries with new keys go to the end. -/
lemma mergeEntries_eq_append (hes : AreKeyed es)
    (hnew : ∀ b ∈ base, ∀ e ∈ es, b.1.sameKey e.1 = false) : mergeEntries base es = base ++ es := by
  induction es generalizing base with
  | nil => simp [mergeEntries]
  | cons e rest ih =>
      obtain ⟨hkey, hfirst, hrest⟩ := areKeyed_cons_iff.mp hes
      have he : ∀ b ∈ base, b.1.sameKey e.1 = false := fun b hb => hnew b hb e List.mem_cons_self
      have hlater : ∀ b ∈ base ++ [e], ∀ d ∈ rest, b.1.sameKey d.1 = false := by
        intro b hb d hd
        rcases List.mem_append.mp hb with hb | hb
        · exact hnew b hb d (List.mem_cons_of_mem e hd)
        · rw [List.mem_singleton.mp hb]
          exact hfirst d hd
      have hvalue : mergeValue none e.2 = e.2 := mergeValue_none e.2
      rw [mergeEntries, mergeEntry_eq, lookup_eq_none_iff.mpr he, hvalue, insertEntry_eq_append he,
        ih hrest hlater]
      simp

/-! ## All levels -/

/-- A value that is laid over twice changes nothing the second time. -/
lemma mergeValue_again (hold : ∀ w, old = some w → w.IsKeyed) (hv : v.IsKeyed) :
    mergeValue (some (mergeValue old v)) v = mergeValue old v := by
  induction hv generalizing old with
  | other hmap => rw [mergeValue_of_not_isMap hmap, mergeValue_of_not_isMap hmap]
  | @map es hkeys hvalues ih =>
      by_cases hmap : ∃ bs, old = some (map bs)
      · obtain ⟨bs, rfl⟩ := hmap
        have hbs := isKeyed_map_iff.mp (hold _ rfl)
        rw [mergeValue_map_map, mergeValue_map_map, mergeEntries_eq_self]
        intro e he
        refine ⟨mergeValue (lookup bs e.1) e.2, ?_,
          ih e he fun w hw => isKeyed_of_lookup (hold _ rfl) hw⟩
        rw [lookup_mergeEntries hbs.1 hkeys, hkeys.lookup_of_mem he]
      · have hother : ∀ bs, old ≠ some (map bs) := by simpa using hmap
        rw [mergeValue_of_old hother, mergeValue_map_map, mergeEntries_eq_self]
        intro e he
        refine ⟨e.2, hkeys.lookup_of_mem he, ?_⟩
        have hagain := @ih e he none nofun
        rwa [mergeValue_none] at hagain

/-- What is held at a path of a merged value. -/
lemma scalarAt_mergeValue (hold : ∀ w, old = some w → w.IsKeyed) (hv : v.IsKeyed)
    (path : List Value) : (mergeValue old v).scalarAt path =
      (v.scalarAt path).or
        (if v.LeavesOpen path then old.bind fun w => w.scalarAt path else none) := by
  induction path generalizing old v with
  | nil =>
      have hclosed : ¬v.LeavesOpen [] := fun hopen => by cases hopen.1
      rw [if_neg hclosed, Option.or_none]
      cases hmap : v.isMap with
      | true =>
          rw [scalarAt_nil_of_isMap hmap,
          scalarAt_nil_of_isMap ((isMap_mergeValue old v).trans hmap)]
      | false => rw [mergeValue_of_not_isMap hmap]
  | cons k path ih =>
      cases hv with
      | other hmap =>
          rw [mergeValue_of_not_isMap hmap, if_neg (not_leavesOpen_of_not_isMap hmap _),
            Option.or_none]
      | @map es hkeys hvalues =>
          by_cases hmap : ∃ bs, old = some (map bs)
          · obtain ⟨bs, rfl⟩ := hmap
            have hbs := isKeyed_map_iff.mp (hold _ rfl)
            rw [mergeValue_map_map, scalarAt_map_cons, scalarAt_map_cons,
              lookup_mergeEntries hbs.1 hkeys, Option.bind_some, scalarAt_map_cons]
            simp only [leavesOpen_map_cons_iff]
            cases hk : lookup es k with
            | none => simp
            | some w =>
                have hw := isKeyed_of_lookup (.map hkeys hvalues) hk
                simpa using ih (fun u hu => isKeyed_of_lookup (hold _ rfl) hu) hw
          · -- what was there is no mapping, so that nothing is below it
            have hnone : (old.bind fun w => w.scalarAt (k :: path)) = none := by
              cases old with
              | none => rfl
              | some w =>
                  refine scalarAt_cons_of_not_isMap ?_ k path
                  cases w with
                  | map bs => exact absurd ⟨bs, rfl⟩ hmap
                  | _ => rfl
            rw [mergeValue_of_old (by simpa using hmap), hnone, ite_self, Option.or_none]

/-- Where both lead to mappings, these are merged. -/
lemma valueAt_mergeEntries {path : List Value} {bs os : List (Value × Value)}
    (hbase : (map base).IsKeyed) (hes : (map es).IsKeyed)
    (hbs : (map base).valueAt path = some (map bs)) (hos : (map es).valueAt path = some (map os)) :
    (map (mergeEntries base es)).valueAt path = some (map (mergeEntries bs os)) ∧ AreKeyed bs ∧
      AreKeyed os := by
  induction path generalizing base es with
  | nil =>
      cases hbs
      cases hos
      exact ⟨rfl, (isKeyed_map_iff.mp hbase).1, (isKeyed_map_iff.mp hes).1⟩
  | cons k path ih =>
      rw [valueAt_map_cons] at hbs hos ⊢
      obtain ⟨v, hv, hbs⟩ := Option.bind_eq_some_iff.mp hbs
      obtain ⟨w, hw, hos⟩ := Option.bind_eq_some_iff.mp hos
      rw [lookup_mergeEntries (isKeyed_map_iff.mp hbase).1 (isKeyed_map_iff.mp hes).1, hv, hw]
      -- what leads to a mapping is one itself
      have hmap : ∀ {u : Value} {ds : List (Value × Value)}, u.valueAt path = some (map ds) →
          ∃ cs, u = map cs := by
        intro u ds hu
        cases u with
        | map cs => exact ⟨cs, rfl⟩
        | _ => cases path <;> cases hu
      obtain ⟨cs, rfl⟩ := hmap hbs
      obtain ⟨ds, rfl⟩ := hmap hos
      exact ih (isKeyed_of_lookup hbase hv) (isKeyed_of_lookup hes hw) hbs hos

/-! ## Configurations -/

/-- A mapping is one laid over another. -/
structure Overlays (base override merged : Value) : Prop where
  /-- It holds at a path what the one laid over holds there, or else what the one below holds, where
  the one laid over leaves the path open. -/
  held : ∀ path, merged.scalarAt path =
    (override.scalarAt path).or (if override.LeavesOpen path then base.scalarAt path else none)
  /-- On every level the keys of the one below come first, and then the new ones. -/
  order : ∀ path bs os, base.valueAt path = some (.map bs) →
  override.valueAt path = some (.map os) → ∃ es, merged.valueAt path = some (.map es) ∧
      es.map Prod.fst = bs.map Prod.fst ++ (os.map Prod.fst).filter fun key =>
        (lookup bs key).isNone
  /-- Laying it over once more changes nothing. -/
  again : merge merged override = .ok merged

/-- **A configuration laid over another** keeps what it holds at every path, lets through what it
leaves open, and adds its new keys at the end. It does so once and for all, and an empty mapping on
either side is neutral. -/
theorem overlays_merge {base override : Value} (hbase : base.isMap = true)
    (hoverride : override.isMap = true) (hbase' : base.IsKeyed) (hoverride' : override.IsKeyed) :
    (∃ merged, merge base override = .ok merged ∧ Overlays base override merged) ∧
      merge base (.map []) = .ok base ∧ merge (.map []) override = .ok override := by
  obtain ⟨bs, rfl⟩ := exists_of_isMap hbase
  obtain ⟨os, rfl⟩ := exists_of_isMap hoverride
  have hos := (isKeyed_map_iff.mp hoverride').1
  refine ⟨⟨_, rfl, ?_, ?_, ?_⟩, rfl, ?_⟩
  · intro path
    rw [← mergeValue_map_map,
      scalarAt_mergeValue (fun w hw => Option.some.inj hw ▸ hbase') hoverride', Option.bind_some]
  · intro path bs' os' hbs' hos'
    obtain ⟨hmerged, hkeyed, hkeyed'⟩ := valueAt_mergeEntries hbase' hoverride' hbs' hos'
    exact ⟨_, hmerged, map_fst_mergeEntries hkeyed hkeyed'⟩
  · have hagain := mergeValue_again (fun w hw => Option.some.inj hw ▸ hbase') hoverride'
    exact congrArg Except.ok hagain
  · exact congrArg (Except.ok ∘ map) (mergeEntries_eq_append hos nofun)

/-- The default configuration is keyed. -/
lemma isKeyed_default : default.IsKeyed := by
  have hscalars : ∀ fields : Assoc String Value, fields.keys.Nodup →
      (∀ p ∈ fields, p.2.isMap = false) →
      (Value.ofFields fields).IsKeyed := fun fields hkeys hmap => isKeyed_ofFields hkeys fun p hp =>
        .other (hmap p hp)
  refine isKeyed_ofFields (by decide) ?_
  simp only [defaultFields, List.forall_mem_cons, List.not_mem_nil, false_imp_iff,
    implies_true, and_true]
  exact ⟨.other rfl, hscalars [] (by decide) (by simp),
    hscalars _ (by decide) (by decide), .other rfl,
    hscalars [] (by decide) (by simp), .other rfl, hscalars _ (by decide) (by decide)⟩

/-- A scalar in the place of a mapping, a mapping in the place of a scalar, and a mapping over a
mapping. -/
def sampleOverride : Value := .ofFields [
  ("rules", .null),
  ("max_workers", .ofFields [("limit", .int 2)]),
  ("report", .ofFields [("verbose", .bool true), ("width", .int 80)])]

theorem overlays_merge_sampleOverride : default.IsKeyed ∧ sampleOverride.IsKeyed ∧
    (∃ merged, merge default sampleOverride = .ok merged ∧ Overlays default sampleOverride merged) ∧
      merge default (.map []) = .ok default ∧
        merge (.map []) sampleOverride = .ok sampleOverride := by
  have hsample : sampleOverride.IsKeyed := by
    refine isKeyed_ofFields (by decide) ?_
    simp only [List.forall_mem_cons, List.not_mem_nil, false_imp_iff, implies_true, and_true]
    refine ⟨.other rfl, isKeyed_ofFields (by decide) ?_, isKeyed_ofFields (by decide) ?_⟩
    · simpa using IsKeyed.other rfl
    · simpa using ⟨IsKeyed.other rfl, IsKeyed.other rfl⟩
  exact ⟨isKeyed_default, hsample, overlays_merge rfl rfl isKeyed_default hsample⟩

end PipelineAudit.Config
