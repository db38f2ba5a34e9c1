import Mathlib.Data.List.Forall2
import PipelineAudit.Proofs.Yaml.Position

/-!
# Values without positions

Cleaning a value takes the position entries out of all mappings that lists and mappings lead to. It
does so once and for all (`Value.clean_clean`), it changes nothing where there is no position key
(`Value.clean_of_not_holdsPositionKey`), and it leaves none at any depth
(`Value.IsTree.not_holdsPositionKey_clean`), unless the value holds pairs, into which it does not
look.

Entries are written by key alone, so two lists of pairs with the same keys whose values are the same
when cleaned still are so after their pairs have been written one after another
(`Value.AreAlike.entriesOf`).
-/

namespace PipelineAudit.Value

/-- A property holds of all values if it passes from the parts of a value to the value. -/
lemma induction_parts {motive : Value → Prop} (leaf : ∀ v, v.isLeaf = true → motive v)
    (seq : ∀ items, (∀ item ∈ items, motive item) → motive (.seq items))
    (pair : ∀ k v, motive k → motive v → motive (.pair k v))
    (map : ∀ es, (∀ e ∈ es, motive e.1 ∧ motive e.2) → motive (.map es)) (v : Value) :
    motive v := by
  apply @Value.rec motive (fun items => ∀ item ∈ items, motive item)
    (fun es => ∀ e ∈ es, motive e.1 ∧ motive e.2) (fun e => motive e.1 ∧ motive e.2)
  case null => exact leaf .null rfl
  case bool => exact fun b => leaf (.bool b) rfl
  case int => exact fun n => leaf (.int n) rfl
  case float => exact fun x => leaf (.float x) rfl
  case str => exact fun s => leaf (.str s) rfl
  case bytes => exact fun bs => leaf (.bytes bs) rfl
  case date => exact fun d => leaf (.date d) rfl
  case moment => exact fun t => leaf (.moment t) rfl
  case seq => exact seq
  case pair => exact pair
  case map => exact map
  case nil => exact fun item hitem => absurd hitem List.not_mem_nil
  case cons => exact fun item items hitem hitems => List.forall_mem_cons.mpr ⟨hitem, hitems⟩
  case nil => exact fun e he => absurd he List.not_mem_nil
  case cons => exact fun e es he hes => List.forall_mem_cons.mpr ⟨he, hes⟩
  case mk => exact fun k v hk hv => ⟨hk, hv⟩

/-! ## Cleaning, list by list -/

/-- Items are cleaned one by one. -/
lemma cleanItems_eq_map (items : List Value) : cleanItems items = items.map clean := by
  induction items with
  | nil => rfl
  | cons v rest ih => rw [cleanItems, ih, List.map_cons]

/-- The entries of a mapping that are no position entries. -/
def properEntries (es : List (Value × Value)) : List (Value × Value) :=
  es.filter fun e => !e.1.isPositionKey

/-- Entries are cleaned one by one, position keys left out. -/
lemma cleanEntries_eq_map (es : List (Value × Value)) :
    cleanEntries es = (properEntries es).map fun e => (e.1, e.2.clean) := by
  unfold properEntries
  induction es with
  | nil => rfl
  | cons e rest ih =>
      rw [cleanEntries, ih]
      by_cases hkey : e.1.isPositionKey = true
      · rw [if_pos hkey, List.filter_cons_of_neg (by simpa using hkey)]
      · rw [if_neg hkey, List.filter_cons_of_pos (by simpa using hkey), List.map_cons, cleanEntry]

/-- A sequence is cleaned item by item. -/
@[simp] lemma clean_seq (items : List Value) : (seq items).clean = seq (items.map clean) := by
  rw [clean, cleanItems_eq_map]

/-- A leaf is clean. -/
lemma clean_of_isLeaf {v : Value} (h : v.isLeaf = true) : v.clean = v := by
  cases v with
  | seq items => cases h
  | map es => cases h
  | _ => rfl

/-- An entry of a clean mapping comes from one of the mapping. -/
lemma mem_cleanEntries {es : List (Value × Value)} {e : Value × Value} :
    e ∈ cleanEntries es ↔ ∃ e' ∈ es, e'.1.isPositionKey = false ∧ (e'.1, e'.2.clean) = e := by
  simp [cleanEntries_eq_map, properEntries, and_assoc]

/-- Cleaning twice is cleaning once. -/
lemma clean_clean (v : Value) : v.clean.clean = v.clean := by
  induction v using induction_parts with
  | leaf v hleaf => rw [clean_of_isLeaf hleaf, clean_of_isLeaf hleaf]
  | pair k v hk hv => rfl
  | seq items ih =>
      rw [clean_seq, clean_seq, List.map_map]
      exact congrArg seq (List.map_congr_left ih)
  | map es ih =>
      rw [clean, clean, cleanEntries_eq_map (cleanEntries es)]
      refine congrArg map ?_
      have hkeys : properEntries (cleanEntries es) = cleanEntries es := by
        refine List.filter_eq_self.mpr fun e he => ?_
        obtain ⟨e', -, hkey, rfl⟩ := mem_cleanEntries.mp he
        rw [hkey]
        rfl
      rw [hkeys]
      refine (List.map_congr_left fun e he => ?_).trans (List.map_id _)
      obtain ⟨e', he', -, rfl⟩ := mem_cleanEntries.mp he
      exact congrArg (Prod.mk e'.1) (ih e' he').2

/-! ## Position keys -/

mutual

/-- Whether a mapping at any depth of a value has the key of a position. -/
def holdsPositionKey : Value → Bool
  | seq items => itemsHoldPositionKey items
  | pair k v => holdsPositionKey k || holdsPositionKey v
  | map es => entriesHoldPositionKey es
  | _ => false
termination_by structural v => v

/-- Whether an item of a list holds the key of a position. -/
def itemsHoldPositionKey : List Value → Bool
  | [] => false
  | v :: rest => holdsPositionKey v || itemsHoldPositionKey rest
termination_by structural vs => vs

/-- Whether an entry of a mapping has or holds the key of a position. -/
def entriesHoldPositionKey : List (Value × Value) → Bool
  | [] => false
  | e :: rest => entryHoldsPositionKey e || entriesHoldPositionKey rest
termination_by structural es => es

/-- Whether an entry has or holds the key of a position. -/
def entryHoldsPositionKey : Value × Value → Bool
  | (k, v) => isPositionKey k || holdsPositionKey k || holdsPositionKey v
termination_by structural e => e

end

/-- A sequence holds no position key exactly if no item does. -/
lemma holdsPositionKey_seq_eq_false {items : List Value} :
    (seq items).holdsPositionKey = false ↔ ∀ item ∈ items, item.holdsPositionKey = false := by
  rw [holdsPositionKey]
  induction items with
  | nil => simp [itemsHoldPositionKey]
  | cons v rest ih => rw [itemsHoldPositionKey, Bool.or_eq_false_iff, ih, List.forall_mem_cons]

/-- A mapping holds no position key exactly if no key is one and neither keys nor values hold one.
-/
lemma holdsPositionKey_map_eq_false {es : List (Value × Value)} :
    (map es).holdsPositionKey = false ↔ ∀ e ∈ es, e.1.isPositionKey = false ∧
      e.1.holdsPositionKey = false ∧ e.2.holdsPositionKey = false := by
  rw [holdsPositionKey]
  induction es with
  | nil => simp [entriesHoldPositionKey]
  | cons e rest ih =>
      rw [entriesHoldPositionKey, Bool.or_eq_false_iff, ih, List.forall_mem_cons,
        entryHoldsPositionKey]
      simp only [Bool.or_eq_false_iff, and_assoc]

/-- A leaf holds no position key. -/
lemma holdsPositionKey_of_isLeaf {v : Value} (h : v.isLeaf = true) :
    v.holdsPositionKey = false := by
  cases v with
  | seq items => cases h
  | pair k v => cases h
  | map es => cases h
  | _ => rfl

/-- Without position keys there is nothing to clean. -/
lemma clean_of_not_holdsPositionKey {v : Value} (h : v.holdsPositionKey = false) : v.clean = v := by
  induction v using induction_parts with
  | leaf v hleaf => exact clean_of_isLeaf hleaf
  | pair k v hk hv => rfl
  | seq items ih =>
      have hitems := holdsPositionKey_seq_eq_false.mp h
      rw [clean_seq]
      refine congrArg seq ((List.map_congr_left fun item hitem => ?_).trans (List.map_id _))
      exact ih item hitem (hitems item hitem)
  | map es ih =>
      have hentries := holdsPositionKey_map_eq_false.mp h
      rw [clean, cleanEntries_eq_map]
      have hkeys : properEntries es = es :=
        List.filter_eq_self.mpr fun e he => by simp [(hentries e he).1]
      rw [hkeys]
      refine congrArg map ((List.map_congr_left fun e he => ?_).trans (List.map_id _))
      exact congrArg (Prod.mk e.1) ((ih e he).2 (hentries e he).2.2)

/-- A value is made of leaves, lists and mappings whose keys are leaves. -/
inductive IsTree : Value → Prop
  | leaf {v : Value} (isLeaf : v.isLeaf = true) : IsTree v
  | seq {items : List Value} (items_tree : ∀ item ∈ items, IsTree item) : IsTree (.seq items)
  | map {es : List (Value × Value)} (keys : ∀ e ∈ es, e.1.isLeaf = true)
      (values : ∀ e ∈ es, IsTree e.2) : IsTree (.map es)

/-- **Cleaning leaves no position key at any depth**, if there are no pairs. -/
lemma IsTree.not_holdsPositionKey_clean {v : Value} (h : v.IsTree) :
    v.clean.holdsPositionKey = false := by
  induction h with
  | leaf isLeaf =>
      rw [clean_of_isLeaf isLeaf]
      exact holdsPositionKey_of_isLeaf isLeaf
  | @seq items _ ih =>
      rw [clean_seq, holdsPositionKey_seq_eq_false]
      exact List.forall_mem_map.mpr ih
  | @map es keys _ ih =>
      rw [clean, holdsPositionKey_map_eq_false]
      intro e he
      obtain ⟨e', he', hkey, rfl⟩ := mem_cleanEntries.mp he
      exact ⟨hkey, holdsPositionKey_of_isLeaf (keys e' he'), ih e' he'⟩

/-! ## Writing entries -/

/-- Writing an entry brings in its key and no other. -/
lemma fst_mem_insertEntry {es : List (Value × Value)} {key value : Value} {e : Value × Value}
    (h : e ∈ insertEntry es key value) : e.1 = key ∨ ∃ e' ∈ es, e'.1 = e.1 := by
  rcases mem_insertEntry_cases h with h | ⟨-, hkey | ⟨-, old, hold⟩⟩
  · exact Or.inr ⟨e, h, rfl⟩
  · exact Or.inl hkey
  · exact Or.inr ⟨_, hold, rfl⟩

/-- Writing an entry whose key is a leaf keeps a tree. -/
lemma IsTree.insertEntry {es : List (Value × Value)} {key value : Value} (h : (Value.map es).IsTree)
    (hkey : key.isLeaf = true) (hvalue : value.IsTree) :
    (Value.map (Value.insertEntry es key value)).IsTree := by
  obtain ⟨⟨⟩⟩ | - | ⟨keys, values⟩ := h
  refine .map (fun e he => ?_) fun e he => ?_
  · rcases fst_mem_insertEntry he with heq | ⟨e', he', heq⟩
    · exact heq ▸ hkey
    · exact heq ▸ keys e' he'
  · rcases mem_insertEntry he with he | heq
    · exact values e he
    · exact heq ▸ hvalue

/-- A mapping of pairs whose keys are leaves and whose values are trees is a tree. -/
lemma isTree_entriesOf {pairs : List (Value × Value)}
    (h : ∀ p ∈ pairs, p.1.isLeaf = true ∧ p.2.IsTree) : (map (entriesOf pairs)).IsTree := by
  have hfold : ∀ {es : List (Value × Value)}, (map es).IsTree →
      (map (pairs.foldl (fun es p => Value.insertEntry es p.1 p.2) es)).IsTree := by
    induction pairs with
    | nil => exact fun hes => hes
    | cons p rest ih =>
        obtain ⟨⟨hkey, hvalue⟩, hrest⟩ := List.forall_mem_cons.mp h
        exact fun hes => ih hrest (hes.insertEntry hkey hvalue)
  exact hfold (.map (fun _ he => absurd he List.not_mem_nil) fun _ he => absurd he List.not_mem_nil)

/-- Writing a position entry changes no other entry. -/
lemma properEntries_insertEntry {name : String} (hname : name ∈ Yaml.positionKeys)
    (es : List (Value × Value)) (v : Value) :
    properEntries (insertEntry es (.str name) v) = properEntries es := by
  have hposition : (Value.str name).isPositionKey = true := by
    rw [isPositionKey]
    exact List.contains_iff_mem.mpr hname
  unfold properEntries
  induction es with
  | nil => simp [insertEntry, hposition]
  | cons e rest ih =>
      obtain ⟨k, w⟩ := e
      rw [insertEntry]
      split_ifs with hsame
      · -- the key that is there is the position key as well
        have hk : k.isPositionKey = true := by
          rw [sameKey_str name (k, w)] at hsame
          cases k with
          | str s =>
              obtain rfl : s = name := by simpa [hasName] using hsame
              exact hposition
          | _ => cases hsame
        rw [List.filter_cons_of_neg (by simpa using hk),
          List.filter_cons_of_neg (by simpa using hk)]
      · rw [List.filter_cons, List.filter_cons, ih]

/-- Two lists of entries have the same keys, and values that are the same when cleaned. -/
def AreAlike (es es' : List (Value × Value)) : Prop :=
  List.Forall₂ (fun e e' => e.1 = e'.1 ∧ e.2.clean = e'.2.clean) es es'

/-- Entries that are alike are the same when cleaned. -/
lemma AreAlike.cleanEntries_eq {es es' : List (Value × Value)} (h : AreAlike es es') :
    cleanEntries es = cleanEntries es' := by
  induction h with
  | nil => rfl
  | @cons e e' rest rest' hentry _ ih =>
      obtain ⟨k, v⟩ := e
      obtain ⟨k', v'⟩ := e'
      obtain ⟨rfl, hvalue⟩ := hentry
      rw [cleanEntries, cleanEntries, ih, cleanEntry, cleanEntry, hvalue]

/-- Entries stay alike when values are put in that are. -/
lemma AreAlike.insertEntry {es es' : List (Value × Value)} (h : AreAlike es es') (key : Value)
    {v v' : Value} (hvalue : v.clean = v'.clean) :
    AreAlike (insertEntry es key v) (insertEntry es' key v') := by
  induction h with
  | nil => exact .cons ⟨rfl, hvalue⟩ .nil
  | @cons e e' rest rest' hentry hrest ih =>
      obtain ⟨k, w⟩ := e
      obtain ⟨k', w'⟩ := e'
      obtain ⟨rfl, hsame⟩ := hentry
      rw [Value.insertEntry, Value.insertEntry]
      split_ifs
      · exact .cons ⟨rfl, hvalue⟩ hrest
      · exact .cons ⟨rfl, hsame⟩ ih

/-- Pairs that are alike give entries that are alike. -/
lemma AreAlike.entriesOf {pairs pairs' : List (Value × Value)} (h : AreAlike pairs pairs') :
    AreAlike (entriesOf pairs) (entriesOf pairs') := by
  have hfold : ∀ {es es' : List (Value × Value)}, AreAlike es es' →
      AreAlike (pairs.foldl (fun es p => Value.insertEntry es p.1 p.2) es)
        (pairs'.foldl (fun es p => Value.insertEntry es p.1 p.2) es') := by
    induction h with
    | nil => exact fun hes => hes
    | @cons p p' rest rest' hpair _ ih =>
        intro es es' hes
        obtain ⟨k, v⟩ := p
        obtain ⟨k', v'⟩ := p'
        obtain ⟨rfl, hvalue⟩ := hpair
        exact ih (hes.insertEntry k hvalue)
  exact hfold .nil

end PipelineAudit.Value
