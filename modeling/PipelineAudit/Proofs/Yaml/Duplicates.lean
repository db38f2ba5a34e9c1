import PipelineAudit.Proofs.Yaml.Reading

/-!
# Entries that replace others

A mapping refuses a key whose text it has met before. Its entries, though, are written by the values
of the keys, and different texts can stand for one value: `10` and `0xa`, `1` and `true`, `null` and
`~`. Such keys pass, and the later entry replaces the value of the earlier one.

The main result is `Yaml.entries_of_loads`: apart from positions, a mapping without merge keys is
read as the entries that are written in it, in order, exactly if no two of its keys are the same
value. Scalar keys that are read as texts are never the same, since their texts have been compared;
so no entry is lost in a mapping whose keys are such texts.
-/

namespace PipelineAudit

namespace Value

/-! ## Writing pairs under different keys -/

variable {es pairs : List (Value × Value)} {key value : Value}

/-- A new key goes to the end. -/
lemma insertEntry_eq_append (h : ∀ e ∈ es, e.1.sameKey key = false) :
    insertEntry es key value = es ++ [(key, value)] := by
  induction es with
  | nil => rfl
  | cons e rest ih =>
      obtain ⟨hfirst, hrest⟩ := List.forall_mem_cons.mp h
      obtain ⟨k, v⟩ := e
      rw [insertEntry, if_neg (by simp [hfirst]), ih hrest, List.cons_append]

/-- Under a key that is there already, writing an entry changes no key. -/
lemma map_fst_insertEntry_of_mem {e : Value × Value} (he : e ∈ es) (h : e.1.sameKey key = true) :
    (insertEntry es key value).map Prod.fst = es.map Prod.fst := by
  induction es with
  | nil => cases he
  | cons a rest ih =>
      obtain ⟨k, w⟩ := a
      rw [insertEntry]
      split_ifs with hsame
      · rfl
      · rcases List.mem_cons.mp he with rfl | he
        · exact absurd h hsame
        · rw [List.map_cons, List.map_cons, ih he]

/-- A key that is present takes no room. -/
lemma length_insertEntry_of_mem {e : Value × Value} (he : e ∈ es) (h : e.1.sameKey key = true) :
    (insertEntry es key value).length = es.length := by
  have hkeys : ((insertEntry es key value).map Prod.fst).length = (es.map Prod.fst).length :=
    congrArg List.length (map_fst_insertEntry_of_mem he h)
  rwa [List.length_map, List.length_map] at hkeys

/-- An entry that is put in adds one at most. -/
lemma length_insertEntry_le : (insertEntry es key value).length ≤ es.length + 1 := by
  by_cases h : ∃ e ∈ es, e.1.sameKey key = true
  · obtain ⟨e, he, hsame⟩ := h
    rw [length_insertEntry_of_mem he hsame]
    omega
  · rw [insertEntry_eq_append (by simpa using h), List.length_append, List.length_singleton]

/-- Entries that are put in add as many as they are, at most. -/
lemma length_foldl_insertEntry_le :
    (pairs.foldl (fun es p => insertEntry es p.1 p.2) es).length ≤ es.length + pairs.length := by
  induction pairs generalizing es with
  | nil => exact Nat.le_refl _
  | cons p rest ih =>
      rw [List.foldl_cons, List.length_cons]
      have hrest := @ih (insertEntry es p.1 p.2)
      have hfirst := @length_insertEntry_le es p.1 p.2
      omega

/-- Each pair gets an entry exactly if all keys are different. -/
lemma length_foldl_insertEntry_eq_iff :
    (pairs.foldl (fun es p => insertEntry es p.1 p.2) es).length = es.length + pairs.length ↔
      (∀ e ∈ es, ∀ p ∈ pairs, e.1.sameKey p.1 = false) ∧
        pairs.Pairwise fun p q => p.1.sameKey q.1 = false := by
  induction pairs generalizing es with
  | nil => simp
  | cons p rest ih =>
      rw [List.foldl_cons, List.length_cons]
      by_cases hnew : ∀ e ∈ es, e.1.sameKey p.1 = false
      · have hlength : (es ++ [(p.1, p.2)]).length = es.length + 1 := by simp
        rw [insertEntry_eq_append hnew, show es.length + (rest.length + 1) =
          (es ++ [(p.1, p.2)]).length + rest.length by omega, ih]
        rw [List.forall_mem_append, List.forall_mem_singleton, List.pairwise_cons]
        constructor
        · rintro ⟨⟨hothers, hfirst⟩, hrest⟩
          exact ⟨fun e he => List.forall_mem_cons.mpr ⟨hnew e he, hothers e he⟩, hfirst, hrest⟩
        · rintro ⟨hothers, hfirst, hrest⟩
          exact ⟨⟨fun e he => (List.forall_mem_cons.mp (hothers e he)).2, hfirst⟩, hrest⟩
      · have hle := @length_foldl_insertEntry_le (insertEntry es p.1 p.2) rest
        obtain ⟨e, he, hsame⟩ : ∃ e ∈ es, e.1.sameKey p.1 = true := by simpa using hnew
        rw [length_insertEntry_of_mem he hsame] at hle
        constructor
        · intro hlength
          omega
        · rintro ⟨hothers, -⟩
          exact absurd (fun e he => hothers e he p List.mem_cons_self) hnew

/-- Entries with new keys of their own are put in behind the others. -/
lemma foldl_insertEntry_eq_append (hnew : ∀ e ∈ es, ∀ p ∈ pairs, e.1.sameKey p.1 = false)
    (hdistinct : pairs.Pairwise fun p q => p.1.sameKey q.1 = false) :
    pairs.foldl (fun es p => insertEntry es p.1 p.2) es = es ++ pairs := by
  induction pairs generalizing es with
  | nil => simp
  | cons p rest ih =>
      obtain ⟨hfirst, hrest⟩ := List.pairwise_cons.mp hdistinct
      have hlater : ∀ e ∈ es ++ [p], ∀ q ∈ rest, e.1.sameKey q.1 = false := by
        rw [List.forall_mem_append, List.forall_mem_singleton]
        exact ⟨fun e he => (List.forall_mem_cons.mp (hnew e he)).2, hfirst⟩
      rw [List.foldl_cons, insertEntry_eq_append fun e he => hnew e he p List.mem_cons_self,
        ih hlater hrest, List.append_assoc, List.singleton_append]

/-- Pairs make as many entries as they are exactly if their keys are different. -/
lemma length_entriesOf_eq_iff :
    (entriesOf pairs).length = pairs.length ↔
      pairs.Pairwise fun p q => p.1.sameKey q.1 = false := by
  have h := @length_foldl_insertEntry_eq_iff [] pairs
  rw [List.length_nil, Nat.zero_add] at h
  rw [entriesOf, h]
  simp

/-- Pairs are the entries that they make exactly if their keys are different. -/
lemma entriesOf_eq_self_iff :
    entriesOf pairs = pairs ↔ pairs.Pairwise fun p q => p.1.sameKey q.1 = false := by
  refine ⟨fun h => length_entriesOf_eq_iff.mp (by rw [h]), fun h => ?_⟩
  rw [entriesOf, foldl_insertEntry_eq_append (fun e he => absurd he List.not_mem_nil) h,
    List.nil_append]

/-- Writing pairs brings in their keys and no others. -/
lemma exists_fst_of_mem_entriesOf {e : Value × Value} (h : e ∈ entriesOf pairs) :
    ∃ p ∈ pairs, e.1 = p.1 := by
  have hfold : ∀ {es : List (Value × Value)},
      e ∈ pairs.foldl (fun es p => insertEntry es p.1 p.2) es →
      (∃ p ∈ pairs, e.1 = p.1) ∨ ∃ e' ∈ es, e'.1 = e.1 := by
    clear h
    intro es h
    induction pairs generalizing es with
    | nil => exact Or.inr ⟨e, h, rfl⟩
    | cons p rest ih =>
        rcases ih h with ⟨q, hq, heq⟩ | ⟨e', he', heq⟩
        · exact Or.inl ⟨q, List.mem_cons_of_mem p hq, heq⟩
        · rcases fst_mem_insertEntry he' with hkey | ⟨e'', he'', hkey⟩
          · exact Or.inl ⟨p, List.mem_cons_self, heq ▸ hkey⟩
          · exact Or.inr ⟨e'', he'', hkey.trans heq⟩
  rcases hfold h with hp | ⟨e', he', -⟩
  · exact hp
  · cases he'

/-- Texts are the same key if they are equal. -/
lemma sameKey_str_str (s t : String) : (str s).sameKey (str t) = (s == t) :=
  sameKey_str t (str s, null)

end Value

namespace Yaml

variable {text : String} {n : Node} {tree v w : Value}

/-! ## What the nodes of a text are read as -/

/-- A node of the tree of a text has a value of its own there. -/
def Loads (text : String) (n : Node) : Prop :=
  ∃ root, Node.parse .pipeline (Passage.ofText text) = .ok (some root) ∧ n.IsLoaded root

/-- A node of the tree of a text is read as a value. -/
def ReadsAs (text : String) (n : Node) (v : Value) : Prop :=
  ∃ root b, Node.parse .pipeline (Passage.ofText text) = .ok (some root) ∧ n.IsLoaded root ∧
    Builder.ofRoot .pipeline root = .ok b ∧ b.Gives .pipeline n v

/-- A node is read as one value. -/
lemma ReadsAs.unique (hv : ReadsAs text n v) (hw : ReadsAs text n w) : v = w := by
  obtain ⟨root, b, hparse, -, hb, hv⟩ := hv
  obtain ⟨root', b', hparse', -, hb', hw⟩ := hw
  obtain rfl : root = root' := Option.some.inj (Except.ok.inj (hparse.symm.trans hparse'))
  obtain rfl : b = b' := Except.ok.inj (hb.symm.trans hb')
  exact hv.unique hw

/-- The root is read as what the text is read as. -/
lemma readsAs_root {root : Node} (h : load .pipeline text = .ok tree)
    (hparse : Node.parse .pipeline (Passage.ofText text) = .ok (some root)) :
    ReadsAs text root tree := by
  rcases load_cases h with ⟨hnone, -⟩ | ⟨root', b, hparse', -, hb, -, hv⟩
  · cases hparse.symm.trans hnone
  · obtain rfl : root = root' := Option.some.inj (Except.ok.inj (hparse.symm.trans hparse'))
    exact ⟨root, b, hparse, .refl, hb, root.reach, hv⟩

/-- Where a node is read as a value, what makes up the value is read as values. -/
lemma ReadsAs.part (h : ReadsAs text n v) {m : Node} (hm : m ∈ n.loadedParts) :
    ∃ w, ReadsAs text m w := by
  obtain ⟨root, b, hparse, hn, hb, fuel, hv⟩ := h
  have hroot := Node.isNumbered_of_parse hparse
  cases fuel with
  | zero => cases hv
  | succ fuel =>
      obtain ⟨w, hw⟩ := (Builder.isComplete_of_ofRoot hroot hb).exists_value_of_part hroot hn hv hm
      exact ⟨w, root, b, hparse, hn.part hm, hb, fuel, hw⟩

/-- In a text that can be read, all nodes that have values of their own are read as values. -/
lemma Loads.exists_readsAs (hn : Loads text n) (h : load .pipeline text = .ok tree) :
    ∃ v, ReadsAs text n v := by
  obtain ⟨root, hparse, hn⟩ := hn
  induction hn using Relation.ReflTransGen.head_induction_on with
  | refl => exact ⟨tree, readsAs_root h hparse⟩
  | head hpart _ ih =>
      obtain ⟨v, hv⟩ := ih
      exact hv.part hpart

/-- A scalar is read as a text only if it is that text. -/
lemma ReadsAs.str_eq {info : NodeInfo} {written s : String}
    (h : ReadsAs text (.scalar info written) (.str s)) : s = written := by
  obtain ⟨root, b, hparse, hn, hb, fuel, hv⟩ := h
  have hroot := Node.isNumbered_of_parse hparse
  have hcomplete := Builder.isComplete_of_ofRoot hroot hb
  have htag : (Node.scalar info written).tag ∉ collectionTags := fun htag => by
    cases hcomplete.filled_of_isLoaded hroot hn htag
  exact (hcomplete.readsLeaf_of_plain hroot hn htag hv).admits.text rfl rfl

/-! ## Entries of a mapping -/

section entries

variable {info : NodeInfo} {own : List (Node × Node)} {es pairs : List (Value × Value)}

/-- A list of pairs holds what a list of entries is read as. -/
def AreReadAs (text : String) (own : List (Node × Node)) (pairs : List (Value × Value)) : Prop :=
  List.Forall₂ (fun e p => ReadsAs text e.1 p.1 ∧ ReadsAs text e.2 p.2) own pairs

/-- A mapping is read as the pairs that it offers, written one after another, with positions. None
of its keys is a collection, and the texts of the keys that are written in it differ. -/
lemma exists_addPositions_of_readsAs (h : ReadsAs text (.mapping info own) v)
    (htag : info.tag = Tag.map) : (keyTexts (Node.mapping info own).written).Nodup ∧ ∃ b pairs,
      v =
        .map (Builder.addPositions b info (Node.mapping info own).offers (Value.entriesOf pairs)) ∧
        AreReadAs text (Node.mapping info own).offers pairs ∧ ∀ p ∈ pairs, p.1.isLeaf = true := by
  obtain ⟨root, b, hparse, hn, hb, fuel, hv⟩ := h
  have hroot := Node.isNumbered_of_parse hparse
  have hcomplete := Builder.isComplete_of_ofRoot hroot hb
  cases hcomplete.filled_of_isLoaded hroot hn (Node.tag_mapping_mem htag) with
  | mapping tag expanded entries keys =>
      refine ⟨keys rfl, ?_⟩
      cases fuel with
      | zero => cases hv
      | succ fuel =>
          obtain ⟨pairs, hpairs, rfl⟩ := (hcomplete.value_mapping_iff hroot hn tag).mp hv
          have hread := hcomplete.forall₂_readsLeaf hroot hn tag hpairs
          refine ⟨b, pairs, rfl, hread.imp ?_, fun p hp => ?_⟩
          · rintro e p ⟨hkey, hvalue, hleaf, hv⟩
            exact ⟨⟨root, b, hparse, hkey, hb, fuel, hleaf.read _⟩,
              ⟨root, b, hparse, hvalue, hb, fuel, hv⟩⟩
          · obtain ⟨e, -, -, -, hleaf, -⟩ := exists_left_of_forall₂ hread hp
            exact hleaf.isLeaf

/-- What a mapping without merge keys is read as, and that the texts of its keys differ. -/
lemma exists_pairs_of_readsAs (h : ReadsAs text (.mapping info own) v) (htag : info.tag = Tag.map)
    (hmerge : ∀ e ∈ own, e.1.tag ≠ Tag.merge) :
    (keyTexts own).Nodup ∧ ∃ es pairs, v = .map es ∧ AreReadAs text own pairs ∧
      Value.properEntries es = Value.properEntries (Value.entriesOf pairs) := by
  obtain ⟨hkeys, b, pairs, rfl, hpairs, -⟩ := exists_addPositions_of_readsAs h htag
  rw [Node.offers_of_forall_ne hmerge] at hpairs
  rw [Node.written_of_forall_ne hmerge] at hkeys
  exact ⟨hkeys, _, pairs, rfl, hpairs, b.properEntries_addPositions info _ _⟩

/-- Scalar keys that are read as texts are read as the texts that are written. -/
lemma AreReadAs.map_fst_eq (h : AreReadAs text own pairs) (hscalar : ∀ e ∈ own, e.1.kind = .scalar)
    (hstr : ∀ p ∈ pairs, p.1.isStr = true) : pairs.map Prod.fst = (keyTexts own).map Value.str := by
  induction h with
  | nil => rfl
  | @cons e p own pairs hfirst _ ih =>
      obtain ⟨hkind, hkinds⟩ := List.forall_mem_cons.mp hscalar
      obtain ⟨hp, hps⟩ := List.forall_mem_cons.mp hstr
      obtain ⟨key, value⟩ := e
      obtain ⟨k, x⟩ := p
      cases key with
      | sequence info items => cases hkind
      | mapping info entries => cases hkind
      | scalar info written =>
          cases k with
          | str s =>
              obtain rfl : s = written := hfirst.1.str_eq
              have hkeys : keyTexts ((.scalar info s, value) :: own) = s :: keyTexts own := rfl
              rw [hkeys, List.map_cons, List.map_cons, ih hkinds hps]
          | _ => cases hp

/-- Keys that are different texts are different keys. -/
lemma AreReadAs.pairwise (h : AreReadAs text own pairs) (hkeys : (keyTexts own).Nodup)
    (hscalar : ∀ e ∈ own, e.1.kind = .scalar) (hstr : ∀ p ∈ pairs, p.1.isStr = true) :
    pairs.Pairwise fun p q => p.1.sameKey q.1 = false := by
  have htexts : (pairs.map Prod.fst).Pairwise fun k l => k.sameKey l = false := by
    rw [h.map_fst_eq hscalar hstr, List.pairwise_map]
    refine hkeys.imp fun hne => ?_
    rw [Value.sameKey_str_str]
    simpa using hne
  exact List.pairwise_map.mp htexts

/-- **The entries of a mapping.** In a text that is read with positions, let a mapping have neither
merge keys nor position keys, and let `pairs` be what its keys and values are read as, in the order
in which they are written. The mapping is read as the entries that result from writing these pairs
one after another, apart from its positions. These are the pairs themselves, or as many as them,
exactly if no two keys are the same. That is so if all keys are scalars that are read as texts;
other keys, whose texts differ as well, can be the same, and then the later entry replaces the
earlier one. -/
theorem entries_of_loads {text : String} {tree : Value} {info : NodeInfo} {own : List (Node × Node)}
    (h : load .pipeline text = .ok tree) (hn : Loads text (.mapping info own))
    (htag : info.tag = Tag.map) (hmerge : ∀ e ∈ own, e.1.tag ≠ Tag.merge)
    (hposition : ∀ e ∈ own, ∀ k, ReadsAs text e.1 k → k.isPositionKey = false) :
    ∃ es pairs, (∀ v, ReadsAs text (.mapping info own) v ↔ v = .map es) ∧ AreReadAs text own pairs ∧
      Value.properEntries es = Value.entriesOf pairs ∧
      (Value.properEntries es = pairs ↔ pairs.Pairwise fun p q => p.1.sameKey q.1 = false) ∧
      ((Value.properEntries es).length = own.length ↔
        pairs.Pairwise fun p q => p.1.sameKey q.1 = false) ∧
      (keyTexts own).Nodup ∧
      ((∀ e ∈ own, e.1.kind = .scalar) → (∀ p ∈ pairs, p.1.isStr = true) →
        Value.properEntries es = pairs) := by
  obtain ⟨v, hv⟩ := hn.exists_readsAs h
  obtain ⟨hkeys, es, pairs, rfl, hpairs, hproper⟩ := exists_pairs_of_readsAs hv htag hmerge
  -- none of the keys is that of a position, so only positions are left out
  have hentries : Value.properEntries es = Value.entriesOf pairs := by
    rw [hproper]
    refine List.filter_eq_self.mpr fun e he => ?_
    obtain ⟨p, hp, hkey⟩ := Value.exists_fst_of_mem_entriesOf he
    obtain ⟨e', he', hread⟩ := exists_left_of_forall₂ hpairs hp
    rw [hkey, hposition e' he' p.1 hread.1]
    rfl
  have hlength : own.length = pairs.length := hpairs.length_eq
  refine ⟨es, pairs, fun v => ⟨fun h => h.unique hv, fun h => h ▸ hv⟩, hpairs, hentries,
    ?_, ?_, hkeys, ?_⟩
  · rw [hentries]
    exact Value.entriesOf_eq_self_iff
  · rw [hentries, hlength]
    exact Value.length_entriesOf_eq_iff
  · intro hscalar hstr
    rw [hentries]
    exact Value.entriesOf_eq_self_iff.mpr (hpairs.pairwise hkeys hscalar hstr)

end entries

/-- A scalar that is not written as a position key is not read as one. -/
lemma ReadsAs.isPositionKey_eq_false {info : NodeInfo} {written : String}
    (h : ReadsAs text (.scalar info written) v) (hwritten : written ∉ positionKeys) :
    v.isPositionKey = false := by
  cases v with
  | str s =>
      obtain rfl := h.str_eq
      rw [Value.isPositionKey]
      simpa using hwritten
  | _ => rfl

/-- Whether a key is a scalar that is neither a merge key nor written as a position key. -/
def Node.isOrdinaryKey : Node → Bool
  | .scalar info written => info.tag ≠ Tag.merge && !positionKeys.contains written
  | _ => false

/-- Whether a node is a mapping of a given size with ordinary keys. -/
def Node.isOrdinaryMapping (size : Nat) : Node → Bool
  | .mapping info own =>
    info.tag = Tag.map && own.length == size && own.all fun e => e.1.isOrdinaryKey
  | _ => false

/-- What an ordinary mapping is. -/
lemma Node.exists_of_isOrdinaryMapping {size : Nat} (h : n.isOrdinaryMapping size = true) :
    ∃ info own, n = .mapping info own ∧ info.tag = Tag.map ∧ own.length = size ∧
      (∀ e ∈ own, e.1.tag ≠ Tag.merge) ∧
      ∀ e ∈ own, ∀ k, ReadsAs text e.1 k → k.isPositionKey = false := by
  cases n with
  | scalar info written => cases h
  | sequence info items => cases h
  | mapping info own =>
      simp only [isOrdinaryMapping, Bool.and_eq_true, decide_eq_true_eq, beq_iff_eq,
        List.all_eq_true] at h
      obtain ⟨⟨htag, hlength⟩, hkeys⟩ := h
      have hordinary : ∀ e ∈ own, ∃ info written, e.1 = .scalar info written ∧
          info.tag ≠ Tag.merge ∧ written ∉ positionKeys := by
        intro e he
        have hkey := hkeys e he
        cases hscalar : e.1 with
        | scalar info written =>
            exact ⟨info, written, rfl, by simpa [hscalar, isOrdinaryKey] using hkey⟩
        | sequence info items => simp [hscalar, isOrdinaryKey] at hkey
        | mapping info entries => simp [hscalar, isOrdinaryKey] at hkey
      refine ⟨info, own, rfl, htag, hlength, fun e he => ?_, fun e he k hk => ?_⟩
      · obtain ⟨info, written, heq, hmerge, -⟩ := hordinary e he
        rw [heq]
        exact hmerge
      · obtain ⟨info, written, heq, -, hwritten⟩ := hordinary e he
        rw [heq] at hk
        exact hk.isPositionKey_eq_false hwritten

/-- A text whose root is found to be an ordinary mapping, with the number of its entries as written
and as read. -/
lemma exists_ordinary_root (text : String) (size count : Nat)
    (hparse : ((Node.parse .pipeline (Passage.ofText text)).toOption.any fun root? =>
      decide (root?.any (Node.isOrdinaryMapping size) = true)) = true)
    (hload : ((load .pipeline text).toOption.any fun v =>
      decide (v.isMap = true ∧ (Value.properEntries v.entries).length = count)) = true) :
    ∃ tree info own es, load .pipeline text = .ok tree ∧ Loads text (.mapping info own) ∧
      info.tag = Tag.map ∧ (∀ e ∈ own, e.1.tag ≠ Tag.merge) ∧
      (∀ e ∈ own, ∀ k, ReadsAs text e.1 k → k.isPositionKey = false) ∧
      ReadsAs text (.mapping info own) (.map es) ∧
      own.length = size ∧ (Value.properEntries es).length = count := by
  obtain ⟨root?, hparse, hroot⟩ := exists_ok_of_any hparse
  obtain ⟨tree, hload, hmap, hcount⟩ := exists_ok_of_any hload
  cases root? with
  | none => cases hroot
  | some root =>
      obtain ⟨info, own, rfl, htag, hlength, hmerge, hposition⟩ :=
        Node.exists_of_isOrdinaryMapping hroot
      cases tree with
      | map es => exact ⟨_, info, own, es, hload, ⟨_, hparse, .refl⟩, htag, hmerge, hposition,
          readsAs_root hload hparse, hlength, hcount⟩
      | _ => cases hmap

/-- The keys `10` and `0xb` are different numbers, and both entries are kept as they are written. -/
theorem entries_of_loads_numbers :
    let text := "10: a\n0xb: b\n"
    ∃ info own es, Loads text (.mapping info own) ∧ own.length = 2 ∧
      ReadsAs text (.mapping info own) (.map es) ∧ AreReadAs text own (Value.properEntries es) := by
  intro text
  obtain ⟨tree, info, own, es, hload, hn, htag, hmerge, hposition, hread, hsize, hcount⟩ :=
    exists_ordinary_root text 2 2 (by decide +kernel) (by decide +kernel)
  obtain ⟨es', pairs, hunique, hpairs, -, hkept, hlength, -⟩ :=
    entries_of_loads hload hn htag hmerge hposition
  obtain rfl : es = es' := by simpa using (hunique (.map es)).mp hread
  have hdistinct := hlength.mp (hcount.trans hsize.symm)
  exact ⟨info, own, es, hn, hsize, hread, (hkept.mpr hdistinct).symm ▸ hpairs⟩

/-- The keys `10` and `0xa` are one number: two entries are written, and one is left. -/
theorem exists_replaced_entry :
    let text := "10: a\n0xa: b\n"
    ∃ tree info own es, load .pipeline text = .ok tree ∧ Loads text (.mapping info own) ∧
      info.tag = Tag.map ∧ (∀ e ∈ own, e.1.tag ≠ Tag.merge) ∧
      (∀ e ∈ own, ∀ k, ReadsAs text e.1 k → k.isPositionKey = false) ∧
      ReadsAs text (.mapping info own) (.map es) ∧
      own.length = 2 ∧ (Value.properEntries es).length = 1 :=
  exists_ordinary_root _ 2 1 (by decide +kernel) (by decide +kernel)

end Yaml

end PipelineAudit
