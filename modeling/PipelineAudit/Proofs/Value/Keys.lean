import Mathlib.Data.List.Induction
import PipelineAudit.Proofs.Number.Binary64
import PipelineAudit.Proofs.Yaml.Duplicates

/-!
# Keys that are the same

Every value is the same key as itself (`Value.sameKey_self`). Of values that are no collections, as
the keys of a mapping in a text are, those are the same that are equal, one number or one instant
(`Value.sameKey_iff_of_isLeaf`), so being the same can be turned around and handed on, and so it can
for pairs of such values (`Value.sameKey_symm_of_isKey`, `Value.sameKey_trans_of_isKey`). A mapping
then holds under a key the value of the last pair with this key that was written
(`Value.lookup_entriesOf`).
-/

namespace PipelineAudit.Value

/-! ## Values that equal themselves -/

mutual

/-- Every value is the same key as itself. -/
theorem sameKey_self : (v : Value) → v.sameKey v = true
  | null => by simp [sameKey, same]
  | bool b => by simp [sameKey, same, number?]
  | int n => by simp [sameKey, same, number?]
  | float x => by simp [sameKey, isOne]
  | str s => by simp [sameKey, same]
  | bytes bs => by simp [sameKey, same]
  | date d => by simp [sameKey, same]
  | moment t => by
      have hsame : t.same t = true := by simp [Moment.same]
      simp [sameKey, same, hsame]
  | seq items => by simp [sameKey, same, sameItems_self items]
  | pair a b => by
      have ha := sameKey_self a
      have hb := sameKey_self b
      rw [sameKey] at ha hb
      simp [sameKey, same, ha, hb]
  | map es => by simp [sameKey, same, sameEntries_of_subset es es (List.Subset.refl es)]
termination_by structural v => v

/-- Items are the same as themselves. -/
theorem sameItems_self : (vs : List Value) → sameItems vs vs = true
  | [] => rfl
  | v :: rest => by
      have hv := sameKey_self v
      rw [sameKey] at hv
      simp [sameItems, hv, sameItems_self rest]
termination_by structural vs => vs

/-- Entries are the same as entries that they are among. -/
theorem sameEntries_of_subset : (es all : List (Value × Value)) → es ⊆ all →
    sameEntries es all = true
  | [], _, _ => rfl
  | e :: rest, all, h => by
      have hrest := sameEntries_of_subset rest all fun _ he => h (List.mem_cons_of_mem e he)
      have hfirst : all.any (sameEntry e) = true :=
        List.any_eq_true.mpr ⟨e, h List.mem_cons_self, sameEntry_self e⟩
      simp [sameEntries, hfirst, hrest]
termination_by structural es => es

/-- An entry is the same as itself. -/
theorem sameEntry_self : (e : Value × Value) → sameEntry e e = true
  | (k, v) => by
      have hk := sameKey_self k
      have hv := sameKey_self v
      rw [sameKey] at hk hv
      simp [sameEntry, hk, hv]
termination_by structural e => e

end

/-! ## Numbers -/

variable {u v w : Value}

/-- A value is a number, truth values included. -/
def IsNumber (v : Value) : Prop := (∃ n, v = .int n) ∨ (∃ b, v = .bool b) ∨ ∃ x, v = .float x

/-- A number is a leaf. -/
lemma IsNumber.isLeaf (h : v.IsNumber) : v.isLeaf = true := by
  obtain ⟨n, rfl⟩ | ⟨b, rfl⟩ | ⟨x, rfl⟩ := h <;> rfl

/-- Two decimals are the same if they have the same bits, or are zeros of either sign. -/
lemma sameKey_float (x y : Binary64) :
    sameKey (.float x) (.float y) = (x == y || (x.isZero && y.isZero)) := by
  have hzero : x.isZero = true → x.isNaN = false := by
    simp only [Binary64.isZero, Binary64.isNaN, Bool.and_eq_true, beq_iff_eq]
    rintro ⟨hexp, -⟩
    simp [hexp]
  cases hx : x.isZero with
  | false => cases hxy : x == y <;> simp [sameKey, isOne, same, hx, hxy]
  | true => cases hxy : x == y <;> simp [sameKey, isOne, same, hx, hxy, hzero hx]

/-- Whether two numbers equal one integer. -/
def sameInt (v w : Value) : Bool :=
  match v.number?, w.number? with
  | some m, some n => m == n
  | _, _ => false

/-- The integer of either zero is zero. -/
lemma toInt?_of_isZero {x : Binary64} (h : x.isZero = true) : x.toInt? = some 0 := by
  simp only [Binary64.isZero, Bool.and_eq_true, beq_iff_eq] at h
  obtain ⟨hexponent, hfraction⟩ := h
  simp [Binary64.toInt?, Binary64.isNaN, Binary64.isInfinite, Binary64.significand,
    Binary64.exponent, hexponent, hfraction]

/-- Values are the same integer exactly if both stand for it. -/
lemma sameInt_iff : sameInt v w = true ↔ ∃ n, v.number? = some n ∧ w.number? = some n := by
  unfold sameInt
  cases v.number? with
  | none => simp
  | some m =>
      cases w.number? with
      | none => simp
      | some n => simpa using eq_comm

/-! ## Keys that are no collections -/

/-- Moments are the same exactly if both or neither have an offset and they are the same instant. -/
lemma moment_same_iff {s t : Moment} :
    s.same t = true ↔ s.offset.isSome = t.offset.isSome ∧ s.instant = t.instant := by
  simp [Moment.same]

/-- What is no collection is the same key as another such value if the two are equal, one number or
one instant. -/
lemma sameKey_iff_of_isLeaf (hv : v.isLeaf = true) (hw : w.isLeaf = true) : v.sameKey w = true ↔
    v = w ∨ (∃ n, v.number? = some n ∧ w.number? = some n) ∨
      ∃ s t, v = .moment s ∧ w = .moment t ∧ s.same t = true := by
  by_cases hfloats : ∃ x y, v = .float x ∧ w = .float y
  · obtain ⟨x, y, rfl, rfl⟩ := hfloats
    rw [sameKey_float]
    simp only [Bool.or_eq_true, Bool.and_eq_true, beq_iff_eq, float.injEq, number?]
    constructor
    · rintro (heq | ⟨hx, hy⟩)
      · exact Or.inl heq
      · exact Or.inr (Or.inl ⟨0, toInt?_of_isZero hx, toInt?_of_isZero hy⟩)
    · rintro (heq | ⟨n, hx, hy⟩ | ⟨s, t, hs, -⟩)
      · exact Or.inl heq
      · exact Binary64.eq_or_isZero_of_toInt? hx hy
      · cases hs
  · by_cases hnumbers : v.IsNumber ∧ w.IsNumber
    · -- numbers of two kinds are compared as integers
      have hint : v.sameKey w = sameInt v w := by
        obtain ⟨⟨n, rfl⟩ | ⟨b, rfl⟩ | ⟨x, rfl⟩, ⟨m, rfl⟩ | ⟨c, rfl⟩ | ⟨y, rfl⟩⟩ := hnumbers
        case inr.inr.inr.inr => exact absurd ⟨x, y, rfl, rfl⟩ hfloats
        all_goals rfl
      rw [hint, sameInt_iff]
      constructor
      · exact fun h => Or.inr (Or.inl h)
      · rintro (rfl | h | ⟨s, t, rfl, -, -⟩)
        · obtain ⟨n, rfl⟩ | ⟨b, rfl⟩ | ⟨x, rfl⟩ := hnumbers.1
          · exact ⟨n, rfl, rfl⟩
          · exact ⟨_, rfl, rfl⟩
          · exact absurd ⟨x, x, rfl, rfl⟩ hfloats
        · exact h
        · rcases hnumbers.1 with ⟨n, h⟩ | ⟨b, h⟩ | ⟨x, h⟩ <;> cases h
    · cases v <;> cases w <;> simp_all [isLeaf, sameKey, isOne, same, number?, IsNumber]
      -- two moments are left, and a moment is the same as itself
      rintro rfl
      exact moment_same_iff.mpr ⟨rfl, rfl⟩

/-- It does not matter which of two such keys is compared with the other. -/
lemma sameKey_symm (hv : v.isLeaf = true) (hw : w.isLeaf = true) (h : v.sameKey w = true) :
    w.sameKey v = true := by
  rcases (sameKey_iff_of_isLeaf hv hw).mp h with rfl | ⟨n, hn, hn'⟩ | ⟨s, t, rfl, rfl, hst⟩
  · exact h
  · exact (sameKey_iff_of_isLeaf hw hv).mpr (Or.inr (Or.inl ⟨n, hn', hn⟩))
  · exact (sameKey_iff_of_isLeaf hw hv).mpr (Or.inr (Or.inr ⟨t, s, rfl, rfl,
      moment_same_iff.mpr ((moment_same_iff.mp hst).imp Eq.symm Eq.symm)⟩))

/-- Keys that are the same as one key are the same. -/
lemma sameKey_trans (hu : u.isLeaf = true) (hv : v.isLeaf = true) (hw : w.isLeaf = true)
    (huv : u.sameKey v = true) (hvw : v.sameKey w = true) : u.sameKey w = true := by
  rcases (sameKey_iff_of_isLeaf hu hv).mp huv with rfl | ⟨n, hn, hn'⟩ | ⟨s, t, rfl, rfl, hst⟩
  · exact hvw
  · rcases (sameKey_iff_of_isLeaf hv hw).mp hvw with rfl | ⟨m, hm, hm'⟩ | ⟨s, t, rfl, -, -⟩
    · exact huv
    · obtain rfl : n = m := Option.some.inj (hn'.symm.trans hm)
      exact (sameKey_iff_of_isLeaf hu hw).mpr (Or.inr (Or.inl ⟨n, hn, hm'⟩))
    · cases hn'
  · rcases (sameKey_iff_of_isLeaf hv hw).mp hvw with rfl | ⟨m, hm, -⟩ | ⟨t', r, ht, rfl, htr⟩
    · exact huv
    · cases hm
    · cases ht
      refine (sameKey_iff_of_isLeaf hu hw).mpr (Or.inr (Or.inr ⟨s, r, rfl, rfl, ?_⟩))
      rw [moment_same_iff] at hst htr ⊢
      exact ⟨hst.1.trans htr.1, hst.2.trans htr.2⟩

/-! ## Keys of any kind -/

/-- A key is no collection, or a pair. -/
lemma isKey_cases (h : v.isKey = true) : v.isLeaf = true ∨ ∃ a b, v = pair a b := by
  cases v with
  | pair a b => exact Or.inr ⟨a, b, rfl⟩
  | seq items => cases h
  | map es => cases h
  | _ => exact Or.inl rfl

/-- A leaf can be a key. -/
lemma isKey_of_isLeaf (h : v.isLeaf = true) : v.isKey = true := by
  cases v <;> first | rfl | cases h

/-- A key is no collection, or a pair of keys. -/
theorem isKey_induction {p : (v : Value) → v.isKey = true → Prop}
    (hleaf : ∀ v (hkey : v.isKey = true), v.isLeaf = true → p v hkey)
    (hpair : ∀ a b (ha : a.isKey = true) (hb : b.isKey = true) (hkey : (pair a b).isKey = true),
      p a ha → p b hb → p (pair a b) hkey) : (v : Value) → (hkey : v.isKey = true) → p v hkey
  | pair a b, hkey =>
      have hparts := Bool.and_eq_true_iff.mp hkey
      hpair a b hparts.1 hparts.2 hkey (isKey_induction hleaf hpair a _)
        (isKey_induction hleaf hpair b _)
  | seq _, hkey | map _, hkey => by cases hkey
  | null, hkey | bool _, hkey | int _, hkey | float _, hkey | str _, hkey
  | bytes _, hkey | date _, hkey
  | moment _, hkey => hleaf _ hkey rfl
termination_by structural v => v

/-- Pairs are the same key if their parts are. -/
lemma sameKey_pair_pair (a b c d : Value) :
    (pair a b).sameKey (pair c d) = (a.sameKey c && b.sameKey d) := by
  simp [sameKey, isOne, same]

/-- Only a pair is the same key as a pair. -/
lemma sameKey_pair_iff (a b : Value) :
    (w.sameKey (pair a b) = true ↔ ∃ c d, w = pair c d ∧ c.sameKey a = true ∧ d.sameKey b = true) ∧
      ((pair a b).sameKey w = true ↔ ∃ c d, w = pair c d ∧ a.sameKey c = true ∧
        b.sameKey d = true) := by
  cases w with
  | pair c d => simp [sameKey_pair_pair]
  | _ => simp [sameKey, isOne, same, number?]

/-- Only a key is the same as a key. -/
lemma isKey_of_sameKey (hv : v.isKey = true) (h : v.sameKey w = true) : w.isKey = true := by
  induction v, hv using isKey_induction generalizing w with
  | hleaf v _ hv =>
      cases w with
      | seq items =>
          cases v <;> first | (cases hv; done) | simp [sameKey, isOne, same, number?] at h
      | map es => cases v <;> first | (cases hv; done) | simp [sameKey, isOne, same, number?] at h
      | pair a b =>
          obtain ⟨_, _, rfl, -⟩ := (sameKey_pair_iff a b).1.mp h
          cases hv
      | _ => rfl
  | hpair a b _ _ _ iha ihb =>
      obtain ⟨c, d, rfl, hac, hbd⟩ := (sameKey_pair_iff a b).2.mp h
      exact Bool.and_eq_true_iff.mpr ⟨iha hac, ihb hbd⟩

/-- It does not matter which of two keys is compared with the other. -/
theorem sameKey_symm_of_isKey (hv : v.isKey = true) (hw : w.isKey = true) (h : v.sameKey w = true) :
    w.sameKey v = true := by
  induction v, hv using isKey_induction generalizing w with
  | hleaf v _ hv =>
      rcases isKey_cases hw with hw' | ⟨c, d, rfl⟩
      · exact sameKey_symm hv hw' h
      · obtain ⟨_, _, rfl, -⟩ := (sameKey_pair_iff c d).1.mp h
        cases hv
  | hpair a b _ _ _ iha ihb =>
      obtain ⟨c, d, rfl, hac, hbd⟩ := (sameKey_pair_iff a b).2.mp h
      obtain ⟨hc, hd⟩ := Bool.and_eq_true_iff.mp hw
      exact (sameKey_pair_iff a b).1.mpr ⟨c, d, rfl, iha hc hac, ihb hd hbd⟩

/-- Keys that are the same as one key are the same. -/
theorem sameKey_trans_of_isKey (hu : u.isKey = true) (hv : v.isKey = true) (hw : w.isKey = true)
    (huv : u.sameKey v = true) (hvw : v.sameKey w = true) : u.sameKey w = true := by
  induction v, hv using isKey_induction generalizing u w with
  | hleaf v _ hv =>
      rcases isKey_cases hu with hu' | ⟨a, b, rfl⟩
      · rcases isKey_cases hw with hw' | ⟨a, b, rfl⟩
        · exact sameKey_trans hu' hv hw' huv hvw
        · obtain ⟨_, _, rfl, -⟩ := (sameKey_pair_iff a b).1.mp hvw
          cases hv
      · obtain ⟨_, _, rfl, -⟩ := (sameKey_pair_iff a b).2.mp huv
        cases hv
  | hpair c d _ _ _ ihc ihd =>
      obtain ⟨a, b, rfl, hac, hbd⟩ := (sameKey_pair_iff c d).1.mp huv
      obtain ⟨e, f, rfl, hce, hdf⟩ := (sameKey_pair_iff c d).2.mp hvw
      obtain ⟨ha, hb⟩ := Bool.and_eq_true_iff.mp hu
      obtain ⟨he, hf⟩ := Bool.and_eq_true_iff.mp hw
      exact (sameKey_pair_iff a b).2.mpr ⟨e, f, rfl, ihc ha he hac hce, ihd hb hf hbd hdf⟩

/-! ## Writing and looking up -/

variable {es pairs : List (Value × Value)} {key value k : Value}

/-- The value under a text is what is looked up. -/
lemma get?_eq_lookup (es : List (Value × Value)) (name : String) :
    (map es).get? name = lookup es (.str name) := by
  rw [get?, entries]
  induction es with
  | nil => rfl
  | cons e rest ih =>
      obtain ⟨k, v⟩ := e
      rw [lookup, ← ih]
      have hname := sameKey_str name (k, v)
      dsimp only at hname
      rw [hname]
      split_ifs with hfound
      · rw [List.find?_cons_of_pos hfound, Option.map_some]
      · rw [List.find?_cons_of_neg hfound]

/-- What is looked up after an entry was written is its value, or what was there. -/
lemma lookup_insertEntry (hes : ∀ e ∈ es, e.1.isKey = true) (hkey : key.isKey = true)
    (hk : k.isKey = true) :
    lookup (insertEntry es key value) k = if key.sameKey k = true then some value
      else lookup es k := by
  induction es with
  | nil => rfl
  | cons e rest ih =>
      obtain ⟨k₀, v₀⟩ := e
      obtain ⟨hk₀, hrest⟩ := List.forall_mem_cons.mp hes
      by_cases hold : k₀.sameKey key = true
      · have hsame : k₀.sameKey k = true ↔ key.sameKey k = true :=
          ⟨sameKey_trans_of_isKey hkey hk₀ hk (sameKey_symm_of_isKey hk₀ hkey hold),
            sameKey_trans_of_isKey hk₀ hkey hk hold⟩
        rw [insertEntry, if_pos hold, lookup, lookup]
        simp only [hsame]
        split_ifs <;> rfl
      · have hapart : key.sameKey k = true → ¬k₀.sameKey k = true := fun hnew hfound =>
          hold (sameKey_trans_of_isKey hk₀ hk hkey hfound (sameKey_symm_of_isKey hkey hk hnew))
        rw [insertEntry, if_neg hold, lookup, lookup, ih hrest]
        split_ifs with hfound hnew
        · exact absurd hfound (hapart hnew)
        · rfl
        · rfl
        · rfl

/-- Under a key there is the value of the last pair with the key. -/
theorem lookup_entriesOf (hpairs : ∀ p ∈ pairs, p.1.isLeaf = true) (hk : k.isLeaf = true) :
    lookup (entriesOf pairs) k = (pairs.reverse.find? fun p => p.1.sameKey k).map Prod.snd := by
  induction pairs using List.reverseRecOn with
  | nil => rfl
  | append_singleton init p ih =>
      have hinit : ∀ q ∈ init, q.1.isLeaf = true := fun q hq => hpairs q (List.mem_append_left _ hq)
      have hp : p.1.isLeaf = true := hpairs p (by simp)
      have hentries : ∀ e ∈ entriesOf init, e.1.isLeaf = true := fun e he => by
        obtain ⟨q, hq, hkey⟩ := exists_fst_of_mem_entriesOf he
        rw [hkey]
        exact hinit q hq
      have hlast : entriesOf (init ++ [p]) = insertEntry (entriesOf init) p.1 p.2 := by
        rw [entriesOf, List.foldl_append]
        rfl
      have hkeys : ∀ e ∈ entriesOf init, e.1.isKey = true :=
        fun e he => isKey_of_isLeaf (hentries e he)
      rw [hlast, lookup_insertEntry hkeys (isKey_of_isLeaf hp) (isKey_of_isLeaf hk), ih hinit,
        List.reverse_append, List.reverse_singleton, List.singleton_append, List.find?_cons]
      split_ifs with hsame <;> simp [hsame]

end PipelineAudit.Value
