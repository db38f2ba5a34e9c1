import PipelineAudit.Proofs.Yaml.Filling

/-!
# Reading off values

Not every node of a tree gets a value of its own: a mapping that is only merged into others has
none. Those that do are the root and, from there on, the items of sequences, the keys and values
that mappings offer, and those of pairs (`Yaml.Node.IsLoaded`). A complete builder has met all of
them (`Yaml.Builder.IsComplete.hasMet`), which makes the reading of values plain: one statement for
each kind of node, with no case left over (`Yaml.Builder.IsComplete.value_scalar`,
`value_mapping_iff`, `value_sequence_iff` and `exists_values_of_pairs`). What is to be shown of all
values is shown by induction over what they are read from
(`Yaml.Builder.IsComplete.value_induction`). Where the tree as a whole gets a value, so does each of
its nodes with a value of its own, and only one (`Yaml.Builder.Gives.unique`). A text is read as the
value of its root, if it has one (`Yaml.load_cases`).
-/

namespace PipelineAudit

/-- Going through a list succeeds exactly if every item does. -/
lemma mapM_eq_ok_iff {ε α β : Type} {f : α → Except ε β} {items : List α} {results : List β} :
    items.mapM f = .ok results ↔ List.Forall₂ (fun a b => f a = .ok b) items results := by
  induction items generalizing results with
  | nil =>
      rw [List.mapM_nil, List.forall₂_nil_left_iff]
      exact ⟨fun h => (Except.ok.inj h).symm, fun h => h ▸ rfl⟩
  | cons a rest ih =>
      rw [List.mapM_cons, List.forall₂_cons_left_iff]
      constructor
      · intro h
        obtain ⟨b, hb, h⟩ := bind_eq_ok.mp h
        obtain ⟨bs, hbs, h⟩ := bind_eq_ok.mp h
        cases h
        exact ⟨b, bs, hb, ih.mp hbs, rfl⟩
      · rintro ⟨b, bs, hb, hbs, rfl⟩
        exact bind_eq_ok.mpr ⟨b, hb, bind_eq_ok.mpr ⟨bs, ih.mpr hbs, rfl⟩⟩

/-- If one step succeeds where another one does, then so does going through a list. -/
lemma exists_mapM_of_mapM {ε α β γ : Type} {f : α → Except ε β} {g : α → Except ε γ}
    {items : List α} {results : List β} (h : items.mapM f = .ok results)
    (hstep : ∀ a b, f a = .ok b → ∃ c, g a = .ok c) : ∃ others, items.mapM g = .ok others := by
  refine exists_mapM_iff.mpr fun a ha => ?_
  obtain ⟨b, hb⟩ := exists_mapM_iff.mp ⟨results, h⟩ a ha
  exact hstep a b hb

/-- What is made from the result of a step that succeeds can be made. -/
lemma exists_bind_pure {ε α β : Type} {x : Except ε α} {f : α → β} (h : ∃ a, x = .ok a) :
    ∃ b, (do return f (← x) : Except ε β) = .ok b := by
  obtain ⟨a, ha⟩ := h
  exact ⟨f a, bind_eq_ok.mpr ⟨a, ha, rfl⟩⟩

section forall₂

variable {α β γ : Type} {R : α → β → Prop} {as : List α} {bs : List β}

/-- What stands on the left has a partner on the right. -/
lemma exists_right_of_forall₂ (h : List.Forall₂ R as bs) {a : α} (ha : a ∈ as) :
    ∃ b ∈ bs, R a b := by
  induction h with
  | nil => cases ha
  | @cons a' b as bs hab _ ih =>
      rcases List.mem_cons.mp ha with rfl | ha
      · exact ⟨b, List.mem_cons_self, hab⟩
      · obtain ⟨b', hb', hab'⟩ := ih ha
        exact ⟨b', List.mem_cons_of_mem b hb', hab'⟩

/-- What stands on the right has a partner on the left. -/
lemma exists_left_of_forall₂ (h : List.Forall₂ R as bs) {b : β} (hb : b ∈ bs) : ∃ a ∈ as, R a b :=
  exists_right_of_forall₂ h.flip hb

/-- If related items are related to others, then so are lists of them. -/
lemma exists_forall₂ {S : α → γ → Prop} {T : β → γ → Prop} (h : List.Forall₂ R as bs)
    (hothers : ∀ a ∈ as, ∀ {b}, R a b → ∃ c, S a c ∧ T b c) :
    ∃ cs, List.Forall₂ S as cs ∧ List.Forall₂ T bs cs := by
  induction h with
  | nil => exact ⟨[], .nil, .nil⟩
  | @cons a b as bs hab _ ih =>
      obtain ⟨c, hac, hbc⟩ := hothers a List.mem_cons_self hab
      obtain ⟨cs, hacs, hbcs⟩ := ih fun a' ha' => hothers a' (List.mem_cons_of_mem a ha')
      exact ⟨c :: cs, .cons hac hacs, .cons hbc hbcs⟩

end forall₂

namespace Yaml

/-! ## Nodes with values -/

namespace Node

/-- The keys and values of entries. -/
def ofEntries (entries : List (Node × Node)) : List Node := entries.flatMap fun e => [e.1, e.2]

/-- The nodes of entries are their keys and their values. -/
lemma mem_ofEntries {m : Node} {entries : List (Node × Node)} :
    m ∈ ofEntries entries ↔ ∃ e ∈ entries, m = e.1 ∨ m = e.2 := by
  simp [ofEntries]

/-- The nodes whose values make up the value of a node. -/
def loadedParts (n : Node) : List Node :=
  if n.tag ∈ collectionTags then
    match n with
    | .scalar _ _ => []
    | .mapping info own => ofEntries (Node.mapping info own).offers
    | .sequence info items =>
        if info.tag = Tag.seq then items else items.flatMap fun i => ofEntries i.offers
  else []

/-- A node has a value of its own in the value of a tree. -/
def IsLoaded (n root : Node) : Prop := Relation.ReflTransGen (fun m n => m ∈ n.loadedParts) n root

/-- What makes up the value of a node has a value of its own. -/
lemma IsLoaded.part {m n root : Node} (hn : n.IsLoaded root) (hm : m ∈ n.loadedParts) :
    m.IsLoaded root :=
  Relation.ReflTransGen.head hm hn

/-- What makes up the value of a node of a tree is in the tree. -/
lemma Within.loadedPart {m n root : Node} (hn : n.Within root) (hm : m ∈ n.loadedParts) :
    m.Within root := by
  have hoffered : ∀ {k : Node}, k.Within root → m ∈ ofEntries k.offers → m.Within root := by
    intro k hk hm
    obtain ⟨e, he, rfl | rfl⟩ := mem_ofEntries.mp hm
    · exact (hk.of_mem_offers he).1
    · exact (hk.of_mem_offers he).2
  unfold loadedParts at hm
  split_ifs at hm with htag
  · cases n with
    | scalar info text => cases hm
    | mapping info own => exact hoffered hn hm
    | sequence info items =>
        dsimp only at hm
        split_ifs at hm
        · exact hn.part hm
        · obtain ⟨item, hitem, hm⟩ := List.mem_flatMap.mp hm
          exact hoffered (hn.part hitem) hm
  · cases hm

/-- A node that is loaded lies within the root. -/
lemma IsLoaded.within {n root : Node} (h : n.IsLoaded root) : n.Within root := by
  induction h using Relation.ReflTransGen.head_induction_on with
  | refl => exact Within.refl root
  | head hpart _ ih => exact ih.loadedPart hpart

section collections

variable {info : NodeInfo} {own : List (Node × Node)} {items : List Node}

/-- A mapping that is one by its tag has the tag of a collection. -/
lemma tag_mapping_mem (htag : info.tag = Tag.map) : (mapping info own).tag ∈ collectionTags := by
  change info.tag ∈ collectionTags
  rw [htag]
  decide

/-- So has a sequence that is one by its tag. -/
lemma tag_sequence_mem (htag : info.tag = Tag.seq) :
    (sequence info items).tag ∈ collectionTags := by
  change info.tag ∈ collectionTags
  rw [htag]
  decide

/-- So has a list of pairs. -/
lemma tag_pairs_mem (htag : info.tag = Tag.omap ∨ info.tag = Tag.pairs) :
    (sequence info items).tag ∈ collectionTags := by
  change info.tag ∈ collectionTags
  rcases htag with htag | htag <;> rw [htag] <;> decide

/-- A list of pairs is no plain sequence. -/
lemma ne_seq_of_pairs (htag : info.tag = Tag.omap ∨ info.tag = Tag.pairs) : info.tag ≠ Tag.seq := by
  rcases htag with htag | htag <;> rw [htag] <;> decide

/-- The value of a mapping is made from what the mapping offers. -/
lemma loadedParts_mapping (htag : info.tag = Tag.map) :
    (mapping info own).loadedParts = ofEntries (mapping info own).offers := by
  rw [loadedParts, if_pos (tag_mapping_mem htag)]

/-- The keys and values of a mapping have values of their own. -/
lemma mem_loadedParts_of_mem_offers {e : Node × Node} (htag : info.tag = Tag.map)
    (he : e ∈ (mapping info own).offers) :
    e.1 ∈ (mapping info own).loadedParts ∧ e.2 ∈ (mapping info own).loadedParts := by
  rw [loadedParts_mapping htag, mem_ofEntries, mem_ofEntries]
  exact ⟨⟨e, he, Or.inl rfl⟩, ⟨e, he, Or.inr rfl⟩⟩

/-- The items of a sequence have values of their own. -/
lemma loadedParts_sequence (htag : info.tag = Tag.seq) :
    (sequence info items).loadedParts = items := by
  rw [loadedParts, if_pos (tag_sequence_mem htag)]
  exact if_pos htag

/-- The value of a list of pairs is made from what its items offer. -/
lemma loadedParts_pairs (htag : info.tag = Tag.omap ∨ info.tag = Tag.pairs) :
    (sequence info items).loadedParts = items.flatMap fun i => ofEntries i.offers := by
  rw [loadedParts, if_pos (tag_pairs_mem htag)]
  exact if_neg (ne_seq_of_pairs htag)

end collections

end Node

/-- The key and the value of an entry are read as those of a pair. -/
def Builder.ReadsEntry (b : Builder) (schema : Schema) (fuel : Nat) (e : Node × Node)
    (p : Value × Value) : Prop :=
  b.value schema fuel e.1 = .ok p.1 ∧ b.value schema fuel e.2 = .ok p.2

/-- An entry is read by reading its key and its value. -/
lemma Builder.readsEntry_iff {b : Builder} {schema : Schema} {fuel : Nat} {e : Node × Node}
    {p : Value × Value} :
    (do return (← b.value schema fuel e.1, ← b.value schema fuel e.2) : Except Error
      (Value × Value)) = .ok p ↔ b.ReadsEntry schema fuel e p := by
  constructor
  · intro h
    obtain ⟨k, hk, h⟩ := bind_eq_ok.mp h
    obtain ⟨v, hv, h⟩ := bind_eq_ok.mp h
    cases h
    exact ⟨hk, hv⟩
  · rintro ⟨hk, hv⟩
    exact bind_eq_ok.mpr ⟨p.1, hk, bind_eq_ok.mpr ⟨p.2, hv, rfl⟩⟩

/-- A node is read as a leaf that its tag allows, under every schema the same. -/
structure Builder.ReadsLeaf (b : Builder) (fuel : Nat) (n : Node) (v : Value) : Prop where
  admits : n.Admits v
  read : ∀ schema, b.value schema fuel n = .ok v

/-- What is read of a leaf is a leaf. -/
lemma Builder.ReadsLeaf.isLeaf {b : Builder} {fuel : Nat} {n : Node} {v : Value}
    (h : b.ReadsLeaf fuel n v) : v.isLeaf = true :=
  h.admits.isLeaf

namespace Builder.IsComplete

variable {b : Builder} {schema schema' : Schema} {root n : Node} {info : NodeInfo}

/-! ## What has been met -/

/-- A collection that has been met is filled. -/
lemma filled_of_hasMet (hb : b.IsComplete schema root) (hroot : root.IsNumbered)
    (hn : n.Within root)
    (hmet : b.HasMet n) (htag : n.tag ∈ collectionTags) : b.Filled schema n := by
  rcases hb.of_hasMet hroot hn hmet with ⟨hid, -⟩ | ⟨v, -, hadmits⟩
  · exact hb.filled n hn hid
  · exact absurd htag hadmits.not_collection

/-- All nodes with values of their own have been met. -/
lemma hasMet (hb : b.IsComplete schema root) (hroot : root.IsNumbered) (h : n.IsLoaded root) :
    b.HasMet n := by
  induction h using Relation.ReflTransGen.head_induction_on with
  | refl => exact hb.root_met
  | @head m n hpart hn ih =>
      have htag : n.tag ∈ collectionTags := by
        by_contra htag
        unfold Node.loadedParts at hpart
        rw [if_neg htag] at hpart
        cases hpart
      cases hb.filled_of_hasMet hroot (Node.IsLoaded.within hn) ih htag with
      | mapping tag expanded entries keys =>
          rw [Node.loadedParts_mapping tag] at hpart
          obtain ⟨e, he, rfl | rfl⟩ := Node.mem_ofEntries.mp hpart
          · exact (entries e he).1
          · exact (entries e he).2.1
      | sequence tag items_met =>
          rw [Node.loadedParts_sequence tag] at hpart
          exact items_met m hpart
      | pairs tag items_met =>
          rw [Node.loadedParts_pairs tag] at hpart
          obtain ⟨item, hitem, hpart⟩ := List.mem_flatMap.mp hpart
          obtain ⟨iinfo, own, k, v, rfl, hoffers, -, hk, hv⟩ := items_met item hitem
          rw [hoffers] at hpart
          obtain ⟨e, he, heq⟩ := Node.mem_ofEntries.mp hpart
          rw [List.mem_singleton.mp he] at heq
          rcases heq with rfl | rfl
          · exact hk
          · exact hv

/-- A collection with a value of its own is filled. -/
lemma filled_of_isLoaded (hb : b.IsComplete schema root) (hroot : root.IsNumbered)
    (h : n.IsLoaded root) (htag : n.tag ∈ collectionTags) : b.Filled schema n :=
  hb.filled_of_hasMet hroot h.within (hb.hasMet hroot h) htag

/-! ## Values by kind of node -/

/-- The value of a node that is no collection does not depend on the schema. -/
lemma value_scalar (hb : b.IsComplete schema root) (hroot : root.IsNumbered) (h : n.IsLoaded root)
    (htag : n.tag ∉ collectionTags) :
    ∃ v, n.Admits v ∧ ∀ schema' fuel, b.value schema' (fuel + 1) n = .ok v := by
  rcases hb.of_hasMet hroot h.within (hb.hasMet hroot h) with ⟨-, hcollection⟩ | ⟨v, hv, hadmits⟩
  · exact absurd hcollection htag
  · refine ⟨v, hadmits, fun schema' fuel => ?_⟩
    have hplain : ¬collectionTags.contains (b.tagOf n) = true := fun hc =>
      htag ((hb.contains_tagOf hroot h.within).mp hc)
    unfold Builder.value
    dsimp only
    rw [if_neg hplain, hv]
    rfl

/-- The value of a node that is no collection is a leaf. -/
lemma readsLeaf_of_plain (hb : b.IsComplete schema root) (hroot : root.IsNumbered)
    (h : n.IsLoaded root) (htag : n.tag ∉ collectionTags) {fuel : Nat} {v : Value}
    (hv : b.value schema' fuel n = .ok v) : b.ReadsLeaf fuel n v := by
  cases fuel with
  | zero => cases hv
  | succ fuel =>
      obtain ⟨w, hadmits, hw⟩ := hb.value_scalar hroot h htag
      rw [hw] at hv
      cases hv
      exact ⟨hadmits, fun schema'' => hw schema'' fuel⟩

/-- The value of a mapping is made from the pairs that the entries are read as that it offers. -/
lemma value_mapping_iff (hb : b.IsComplete schema root) (hroot : root.IsNumbered)
    {own : List (Node × Node)} (h : (Node.mapping info own).IsLoaded root)
    (htag : info.tag = Tag.map) {fuel : Nat} {v : Value} :
    b.value schema' (fuel + 1) (.mapping info own) = .ok v ↔ ∃ pairs,
      List.Forall₂ (b.ReadsEntry schema' fuel) (Node.mapping info own).offers pairs ∧
        v = .map (if schema'.positions
          then b.addPositions info (Node.mapping info own).offers (Value.entriesOf pairs)
          else Value.entriesOf pairs) := by
  have hcollection : (Node.mapping info own).tag ∈ collectionTags := Node.tag_mapping_mem htag
  have hentries : b.entriesOf info.id own = (Node.mapping info own).offers := by
    have hfilled := hb.filled_of_isLoaded hroot h hcollection
    cases hfilled with
    | mapping tag expanded entries keys =>
        rw [entriesOf, expanded]
        rfl
  rw [Builder.value, if_pos ((hb.contains_tagOf hroot h.within).mpr hcollection), hentries]
  refine bind_eq_ok.trans (exists_congr fun pairs => and_congr ?_ ?_)
  · exact mapM_eq_ok_iff.trans (Iff.of_eq (congrArg (List.Forall₂ · _ pairs)
      (funext fun e => funext fun p => propext readsEntry_iff)))
  · exact ⟨fun hv => (Except.ok.inj hv).symm, fun hv => congrArg Except.ok hv.symm⟩

/-- What the entries of a mapping are read as: their keys are leaves. -/
lemma forall₂_readsLeaf (hb : b.IsComplete schema root) (hroot : root.IsNumbered)
    {own : List (Node × Node)} (h : (Node.mapping info own).IsLoaded root)
    (htag : info.tag = Tag.map) {fuel : Nat} {pairs : List (Value × Value)}
    (hpairs : List.Forall₂ (b.ReadsEntry schema' fuel) (Node.mapping info own).offers pairs) :
    List.Forall₂ (fun e p => e.1.IsLoaded root ∧ e.2.IsLoaded root ∧ b.ReadsLeaf fuel e.1 p.1 ∧
      b.value schema' fuel e.2 = .ok p.2) (Node.mapping info own).offers pairs := by
  have hcollection : (Node.mapping info own).tag ∈ collectionTags := Node.tag_mapping_mem htag
  have hentries : ∀ e ∈ (Node.mapping info own).offers,
      e.1.IsLoaded root ∧ e.2.IsLoaded root ∧ e.1.tag ∉ collectionTags := by
    intro e he
    obtain ⟨hkey, hvalue⟩ := Node.mem_loadedParts_of_mem_offers htag he
    cases hb.filled_of_isLoaded hroot h hcollection with
    | mapping tag expanded entries keys => exact ⟨h.part hkey, h.part hvalue, (entries e he).2.2⟩
  refine ((List.forall₂_and_left _ pairs).mpr ⟨hentries, hpairs⟩).imp ?_
  rintro e p ⟨⟨hkey, hvalue, hplain⟩, hk, hv⟩
  exact ⟨hkey, hvalue, hb.readsLeaf_of_plain hroot hkey hplain hk, hv⟩

/-- The value of a sequence is made from its items. -/
lemma value_sequence_iff (hb : b.IsComplete schema root) (hroot : root.IsNumbered)
    {items : List Node} (h : (Node.sequence info items).IsLoaded root) (htag : info.tag = Tag.seq)
    {fuel : Nat} {v : Value} : b.value schema' (fuel + 1) (.sequence info items) = .ok v ↔ ∃ values,
      List.Forall₂ (fun item w => b.value schema' fuel item = .ok w) items values ∧
        v = .seq values := by
  have hseq : b.tagOf (.sequence info items) = Tag.seq :=
    (hb.tagOf_eq_iff hroot h.within Tag.seq (by decide) (by decide)).mpr htag
  rw [Builder.value, if_pos ((hb.contains_tagOf hroot h.within).mpr (Node.tag_sequence_mem htag)),
    if_pos hseq]
  refine bind_eq_ok.trans (exists_congr fun values => and_congr mapM_eq_ok_iff ?_)
  exact ⟨fun hv => (Except.ok.inj hv).symm, fun hv => congrArg Except.ok hv.symm⟩

/-- The value of a list of pairs is made from the one entry that each of its items offers. -/
lemma exists_values_of_pairs (hb : b.IsComplete schema root) (hroot : root.IsNumbered)
    {items : List Node} (h : (Node.sequence info items).IsLoaded root)
    (htag : info.tag = Tag.omap ∨ info.tag = Tag.pairs) {fuel : Nat} {v : Value}
    (hv : b.value schema' (fuel + 1) (.sequence info items) = .ok v) :
    ∃ values, List.Forall₂ (fun item w => ∃ e p, item.offers = [e] ∧ b.ReadsEntry schema' fuel e p ∧
      w = .pair p.1 p.2) items values ∧ v = .seq values := by
  have hcollection : (Node.sequence info items).tag ∈ collectionTags := Node.tag_pairs_mem htag
  have hseq : ¬b.tagOf (.sequence info items) = Tag.seq := fun hseq =>
    Node.ne_seq_of_pairs htag
      ((hb.tagOf_eq_iff hroot h.within Tag.seq (by decide) (by decide)).mp hseq)
  have hitems : ∀ item ∈ items, b.HasMetPair item := by
    cases hb.filled_of_isLoaded hroot h hcollection with
    | sequence tag items_met => exact absurd tag (Node.ne_seq_of_pairs htag)
    | pairs tag items_met => exact items_met
  rw [Builder.value, if_pos ((hb.contains_tagOf hroot h.within).mpr hcollection), if_neg hseq] at hv
  obtain ⟨values, hvalues, hv⟩ := bind_eq_ok.mp hv
  cases hv
  refine ⟨values, ((List.forall₂_and_left _ values).mpr ⟨hitems, mapM_eq_ok_iff.mp hvalues⟩).imp ?_,
    rfl⟩
  rintro item w ⟨⟨iinfo, own, k, v, rfl, hoffers, hentries, -, -⟩, hread⟩
  dsimp only at hread
  rw [hentries] at hread
  obtain ⟨kv, hkv, hread⟩ := bind_eq_ok.mp hread
  obtain ⟨wv, hwv, hread⟩ := bind_eq_ok.mp hread
  cases hread
  exact ⟨(k, v), (kv, wv), hoffers, ⟨hkv, hwv⟩, rfl⟩

/-- Where a value can be read, the values that make it up can be read. -/
lemma exists_value_of_part (hb : b.IsComplete schema root) (hroot : root.IsNumbered)
    (h : n.IsLoaded root)
    {fuel : Nat} {v : Value} (hv : b.value schema' (fuel + 1) n = .ok v) {m : Node}
    (hm : m ∈ n.loadedParts) : ∃ w, b.value schema' fuel m = .ok w := by
  have htag : n.tag ∈ collectionTags := by
    by_contra htag
    rw [Node.loadedParts.eq_def, if_neg htag] at hm
    cases hm
  cases hb.filled_of_isLoaded hroot h htag with
  | @mapping info own tag expanded entries keys =>
      obtain ⟨pairs, hpairs, -⟩ := (hb.value_mapping_iff hroot h tag).mp hv
      rw [Node.loadedParts_mapping tag] at hm
      obtain ⟨e, he, heq⟩ := Node.mem_ofEntries.mp hm
      obtain ⟨p, -, hkey, hvalue⟩ := exists_right_of_forall₂ hpairs he
      rcases heq with rfl | rfl
      · exact ⟨p.1, hkey⟩
      · exact ⟨p.2, hvalue⟩
  | @sequence info items tag items_met =>
      obtain ⟨values, hvalues, -⟩ := (hb.value_sequence_iff hroot h tag).mp hv
      rw [Node.loadedParts_sequence tag] at hm
      obtain ⟨w, -, hw⟩ := exists_right_of_forall₂ hvalues hm
      exact ⟨w, hw⟩
  | @pairs info items tag items_met =>
      obtain ⟨values, hvalues, -⟩ := hb.exists_values_of_pairs hroot h tag hv
      rw [Node.loadedParts_pairs tag] at hm
      obtain ⟨item, hitem, hm⟩ := List.mem_flatMap.mp hm
      obtain ⟨w, -, e, p, hoffers, ⟨hkey, hvalue⟩, -⟩ := exists_right_of_forall₂ hvalues hitem
      rw [hoffers] at hm
      obtain ⟨e', he, heq⟩ := Node.mem_ofEntries.mp hm
      rw [List.mem_singleton.mp he] at heq
      rcases heq with rfl | rfl
      · exact ⟨p.1, hkey⟩
      · exact ⟨p.2, hvalue⟩

/-- **Induction over what a value is read from.** The keys of mappings are leaves, and lists of
pairs hold nothing but pairs. -/
lemma value_induction (hb : b.IsComplete schema root) (hroot : root.IsNumbered)
    {motive : Nat → Node → Value → Prop}
    (leaf : ∀ {fuel n v}, b.ReadsLeaf fuel n v → motive fuel n v)
    (mapping : ∀ {fuel info own pairs}, (Node.mapping info own).IsLoaded root → info.tag = Tag.map →
      List.Forall₂ (fun e p => b.ReadsLeaf fuel e.1 p.1 ∧ motive fuel e.2 p.2)
      (Node.mapping info own).offers pairs →
      motive (fuel + 1) (.mapping info own) (.map (if schema'.positions
        then b.addPositions info (Node.mapping info own).offers (Value.entriesOf pairs)
        else Value.entriesOf pairs)))
    (sequence : ∀ {fuel info items values}, (Node.sequence info items).IsLoaded root →
      info.tag = Tag.seq →
      List.Forall₂ (motive fuel) items values → motive (fuel + 1) (.sequence info items)
      (.seq values))
    (pairs : ∀ {fuel info items values}, (Node.sequence info items).IsLoaded root →
      info.tag = Tag.omap ∨ info.tag = Tag.pairs → (∀ w ∈ values, ∃ k v, w = Value.pair k v) →
      motive (fuel + 1) (.sequence info items) (.seq values))
    (h : n.IsLoaded root) {fuel : Nat} {v : Value} (hv : b.value schema' fuel n = .ok v) :
    motive fuel n v := by
  induction fuel generalizing n v with
  | zero => cases hv
  | succ fuel ih =>
      by_cases htag : n.tag ∈ collectionTags
      · cases hb.filled_of_isLoaded hroot h htag with
        | @mapping info own tag expanded entries keys =>
            obtain ⟨read, hread, rfl⟩ := (hb.value_mapping_iff hroot h tag).mp hv
            refine mapping h tag ((hb.forall₂_readsLeaf hroot h tag hread).imp ?_)
            rintro e p ⟨-, hvalue, hkey, hv⟩
            exact ⟨hkey, ih hvalue hv⟩
        | @sequence info items tag items_met =>
            obtain ⟨values, hvalues, rfl⟩ := (hb.value_sequence_iff hroot h tag).mp hv
            have hloaded : ∀ item ∈ items, item.IsLoaded root := fun item hitem =>
              h.part ((Node.loadedParts_sequence tag).symm ▸ hitem)
            exact sequence h tag
                (((List.forall₂_and_left _ values).mpr ⟨hloaded, hvalues⟩).imp fun _ _ hread =>
              ih hread.1 hread.2)
        | @pairs info items tag items_met =>
            obtain ⟨values, hvalues, rfl⟩ := hb.exists_values_of_pairs hroot h tag hv
            refine pairs h tag fun w hw => ?_
            obtain ⟨item, -, e, p, -, -, rfl⟩ := exists_left_of_forall₂ hvalues hw
            exact ⟨p.1, p.2, rfl⟩
      · exact leaf (hb.readsLeaf_of_plain hroot h htag hv)

end Builder.IsComplete

namespace Builder

variable {b : Builder} {schema : Schema} {n : Node}

/-- More fuel does not change a value. -/
lemma value_succ {fuel : Nat} {v : Value} (h : b.value schema fuel n = .ok v) :
    b.value schema (fuel + 1) n = .ok v := by
  induction fuel generalizing n v with
  | zero => cases h
  | succ fuel ih =>
      unfold Builder.value at h ⊢
      dsimp only at h ⊢
      by_cases htag : collectionTags.contains (b.tagOf n) = true
      · rw [if_pos htag] at h ⊢
        cases n with
        | scalar info text => exact h
        | mapping info own =>
            obtain ⟨pairs, hpairs, h⟩ := bind_eq_ok.mp h
            refine bind_eq_ok.mpr ⟨pairs, ?_, h⟩
            refine mapM_eq_ok_iff.mpr ((mapM_eq_ok_iff.mp hpairs).imp fun e p hp => ?_)
            obtain ⟨hkey, hvalue⟩ := readsEntry_iff.mp hp
            exact readsEntry_iff.mpr ⟨ih hkey, ih hvalue⟩
        | sequence info items =>
            dsimp only at h ⊢
            split_ifs at h ⊢
            · obtain ⟨values, hvalues, h⟩ := bind_eq_ok.mp h
              refine bind_eq_ok.mpr ⟨values, ?_, h⟩
              exact mapM_eq_ok_iff.mpr ((mapM_eq_ok_iff.mp hvalues).imp fun _ _ => ih)
            · obtain ⟨values, hvalues, h⟩ := bind_eq_ok.mp h
              refine bind_eq_ok.mpr ⟨values, ?_, h⟩
              refine mapM_eq_ok_iff.mpr ((mapM_eq_ok_iff.mp hvalues).imp fun item p hp => ?_)
              split at hp
              · split at hp
                · obtain ⟨k, hk, hp⟩ := bind_eq_ok.mp hp
                  obtain ⟨w, hw, hp⟩ := bind_eq_ok.mp hp
                  exact bind_eq_ok.mpr ⟨k, ih hk, bind_eq_ok.mpr ⟨w, ih hw, hp⟩⟩
                · exact hp
              · exact hp
      · rw [if_neg htag] at h ⊢
        exact h

/-- Whether a value can be read does not depend on positions. -/
lemma exists_value_of_value {schema' : Schema} {fuel : Nat} {v : Value}
    (h : b.value schema fuel n = .ok v) : ∃ w, b.value schema' fuel n = .ok w := by
  induction fuel generalizing n v with
  | zero => cases h
  | succ fuel ih =>
      unfold Builder.value at h ⊢
      dsimp only at h ⊢
      by_cases htag : collectionTags.contains (b.tagOf n) = true
      · rw [if_pos htag] at h ⊢
        cases n with
        | scalar info text => exact ⟨v, h⟩
        | mapping info own =>
            obtain ⟨pairs, hpairs, -⟩ := bind_eq_ok.mp h
            refine exists_bind_pure (exists_mapM_of_mapM hpairs fun e p hp => ?_)
            obtain ⟨hkey, hvalue⟩ := readsEntry_iff.mp hp
            obtain ⟨k, hk⟩ := ih hkey
            obtain ⟨w, hw⟩ := ih hvalue
            exact ⟨(k, w), readsEntry_iff.mpr ⟨hk, hw⟩⟩
        | sequence info items =>
            dsimp only at h ⊢
            split_ifs at h ⊢
            · obtain ⟨values, hvalues, -⟩ := bind_eq_ok.mp h
              exact exists_bind_pure (exists_mapM_of_mapM hvalues fun _ _ => ih)
            · obtain ⟨values, hvalues, -⟩ := bind_eq_ok.mp h
              refine exists_bind_pure (exists_mapM_of_mapM hvalues fun item p hp => ?_)
              split at hp
              · split at hp
                · obtain ⟨k, hk, hp⟩ := bind_eq_ok.mp hp
                  obtain ⟨w, hw, -⟩ := bind_eq_ok.mp hp
                  obtain ⟨k', hk'⟩ := ih hk
                  obtain ⟨w', hw'⟩ := ih hw
                  exact ⟨_, bind_eq_ok.mpr ⟨k', hk', bind_eq_ok.mpr ⟨w', hw', rfl⟩⟩⟩
                · exact ⟨p, hp⟩
              · exact ⟨p, hp⟩
      · rw [if_neg htag] at h ⊢
        exact ⟨v, h⟩

/-- A node gets a value, with some fuel. -/
def Gives (b : Builder) (schema : Schema) (n : Node) (v : Value) : Prop :=
  ∃ fuel, b.value schema fuel n = .ok v

/-- More fuel does not change a value. -/
lemma value_add {fuel : Nat} {v : Value} (h : b.value schema fuel n = .ok v) (more : Nat) :
    b.value schema (fuel + more) n = .ok v := by
  induction more with
  | zero => exact h
  | succ more ih => exact value_succ ih

/-- A node gets one value. -/
lemma Gives.unique {v w : Value} (hv : b.Gives schema n v) (hw : b.Gives schema n w) : v = w := by
  obtain ⟨fuel, hv⟩ := hv
  obtain ⟨fuel', hw⟩ := hw
  have hv' := value_add hv fuel'
  have hw' := value_add hw fuel
  rw [Nat.add_comm, hv'] at hw'
  exact Except.ok.inj hw'

/-- Adding positions to a mapping changes no other entry. -/
lemma properEntries_addPositions (b : Builder) (info : NodeInfo) (expanded : List (Node × Node))
    (es : List (Value × Value)) :
    Value.properEntries (b.addPositions info expanded es) = Value.properEntries es := by
  unfold addPositions
  rw [Value.properEntries_insertEntry (by decide), Value.properEntries_insertEntry (by decide),
    Value.properEntries_insertEntry (by decide)]

end Builder

/-! ## Reading a text -/

/-- What a passage is read as: null, or the value of the root of its tree. -/
lemma Passage.load_cases {schema : Schema} {passage : Passage} {v : Value}
    (h : passage.load schema = .ok v) : Node.parse schema passage = .ok none ∧ v = .null ∨
      ∃ root b, Node.parse schema passage = .ok (some root) ∧ root.IsNumbered ∧
        Builder.ofRoot schema root = .ok b ∧ b.IsComplete schema root ∧
        b.value schema root.reach root = .ok v := by
  obtain ⟨root?, hparse, h⟩ := bind_eq_ok.mp h
  cases root? with
  | none =>
      cases h
      exact Or.inl ⟨hparse, rfl⟩
  | some root =>
      obtain ⟨b, hb, h⟩ := bind_eq_ok.mp h
      have hroot := Node.isNumbered_of_parse hparse
      exact Or.inr ⟨root, b, hparse, hroot, hb, Builder.isComplete_of_ofRoot hroot hb, h⟩

/-- What a text is read as: null, or the value of the root of its tree. -/
lemma load_cases {schema : Schema} {text : String} {v : Value} (h : load schema text = .ok v) :
    Node.parse schema (Passage.ofText text) = .ok none ∧ v = .null ∨
      ∃ root b, Node.parse schema (Passage.ofText text) = .ok (some root) ∧ root.IsNumbered ∧
        Builder.ofRoot schema root = .ok b ∧ b.IsComplete schema root ∧
        b.value schema root.reach root = .ok v :=
  Passage.load_cases h

end Yaml

end PipelineAudit
