import PipelineAudit.Proofs.Workflow.Document

/-!
# Lines that a tree records

A tree may record any value as the line of a key, and one that was read from a text records a number
or nothing (`Yaml.recordsLines_of_load`): whatever keys the text itself uses, the entries for
positions are written last (`Yaml.Builder.recordsLines_addPositions`). It has to be seen that every
mapping of such a tree has got these entries. Mappings that did not come from one in the text would
not have them, and there are none, since the values of scalars are no mappings; that is kept by
every step of filling collections (`Yaml.Builder.IsPlain`, `Yaml.Build.keeps_fillAll`).
-/

namespace PipelineAudit

namespace Value

/-- A value tells a place: the number of a line, or nothing. -/
inductive IsPlace : Value → Prop
  | null : IsPlace .null
  | int (n : Int) : IsPlace (.int n)
  | bool (b : Bool) : IsPlace (.bool b)

/-- The lines that a value records for keys tell places. -/
def RecordsLines (v : Value) : Prop := ∀ key, (v.keyLine key).IsPlace

/-- A value is no collection and no pair. -/
def isLeaf : Value → Bool
  | seq _ | pair _ _ | map _ => false
  | _ => true

/-- What is no collection is no mapping. -/
lemma isMap_of_isLeaf {v : Value} (h : v.isLeaf = true) : v.isMap = false := by
  cases v with
  | map es => cases h
  | _ => rfl

/-! ## Writing entries -/

/-- A key is the same as a text if it is that text. -/
lemma sameKey_str (name : String) (e : Value × Value) :
    e.1.sameKey (.str name) = hasName name e := by
  obtain ⟨k, v⟩ := e
  cases k <;> simp [sameKey, isOne, same, number?, hasName]

/-- What is written under a text is read there. -/
lemma get?_insertEntry (es : List (Value × Value)) (name : String) (v : Value) :
    (map (insertEntry es (.str name) v)).get? name = some v := by
  have hown : ∀ k, sameKey k (.str name) = true → hasName name (k, v) = true := fun k hk =>
    (sameKey_str name (k, v)).symm.trans hk
  rw [get?, entries]
  induction es with
  | nil => simp [insertEntry, hasName]
  | cons e rest ih =>
      obtain ⟨k, w⟩ := e
      rw [insertEntry]
      split_ifs with hk
      · rw [List.find?_cons_of_pos (hown k hk), Option.map_some]
      · rw [List.find?_cons_of_neg, ih]
        rwa [← sameKey_str name (k, w)]

/-- Writing an entry keeps the others, and puts the value under its key or under the same one that
was there. -/
lemma mem_insertEntry_cases {es : List (Value × Value)} {key v : Value} {e : Value × Value}
    (h : e ∈ insertEntry es key v) : e ∈ es ∨
    e.2 = v ∧ (e.1 = key ∨ e.1.sameKey key = true ∧ ∃ old, (e.1, old) ∈ es) := by
  induction es with
  | nil =>
      obtain rfl := List.mem_singleton.mp h
      exact Or.inr ⟨rfl, Or.inl rfl⟩
  | cons a rest ih =>
      obtain ⟨k, w⟩ := a
      rw [insertEntry] at h
      split_ifs at h with hsame
      · rcases List.mem_cons.mp h with rfl | h
        · exact Or.inr ⟨rfl, Or.inr ⟨hsame, w, List.mem_cons_self⟩⟩
        · exact Or.inl (List.mem_cons_of_mem _ h)
      · rcases List.mem_cons.mp h with rfl | h
        · exact Or.inl List.mem_cons_self
        · rcases ih h with h | ⟨hv, hkey | ⟨hkey, old, hold⟩⟩
          · exact Or.inl (List.mem_cons_of_mem _ h)
          · exact Or.inr ⟨hv, Or.inl hkey⟩
          · exact Or.inr ⟨hv, Or.inr ⟨hkey, old, List.mem_cons_of_mem _ hold⟩⟩

/-- Writing an entry brings in its value and no other. -/
lemma mem_insertEntry {es : List (Value × Value)} {key value : Value} {e : Value × Value}
    (h : e ∈ insertEntry es key value) : e ∈ es ∨ e.2 = value :=
  (mem_insertEntry_cases h).imp_right And.left

/-- Writing pairs one after another brings in their values and no others. -/
lemma mem_foldl_insertEntry {pairs es : List (Value × Value)} {e : Value × Value}
    (h : e ∈ pairs.foldl (fun es p => insertEntry es p.1 p.2) es) :
    e ∈ es ∨ ∃ p ∈ pairs, e.2 = p.2 := by
  induction pairs generalizing es with
  | nil => exact Or.inl h
  | cons p rest ih =>
      rcases ih h with h | ⟨q, hq, heq⟩
      · exact (mem_insertEntry h).imp_right fun heq => ⟨p, List.mem_cons_self, heq⟩
      · exact Or.inr ⟨q, List.mem_cons_of_mem p hq, heq⟩

/-! ## Recorded lines -/

/-- Under a text, a mapping holds the value of one of its entries, or nothing. -/
lemma get?_eq_some {v w : Value} {name : String} (h : v.get? name = some w) :
    ∃ e ∈ v.entries, e.2 = w := by
  obtain ⟨e, he, rfl⟩ := Option.map_eq_some_iff.mp h
  exact ⟨e, List.mem_of_find?_eq_some he, rfl⟩

/-- What is no mapping has no entries. -/
lemma entries_of_not_isMap {v : Value} (h : v.isMap = false) : v.entries = [] := by
  cases v with
  | map es => cases h
  | _ => rfl

/-- What is no mapping records no lines. -/
lemma recordsLines_of_not_isMap {v : Value} (h : v.isMap = false) : v.RecordsLines := by
  intro key
  rw [keyLine, get?, entries_of_not_isMap h]
  exact .null

/-- A mapping to numbers tells places. -/
lemma isPlace_get_of_int {lines : List (Value × Value)} (h : ∀ e ∈ lines, ∃ n, e.2 = .int n)
    (name : String) : ((map lines).get name).IsPlace := by
  rw [get]
  cases hget : (map lines).get? name with
  | none => exact .null
  | some w =>
      obtain ⟨e, he, rfl⟩ := get?_eq_some hget
      obtain ⟨n, hn⟩ := h e he
      exact hn ▸ .int n

/-- A mapping to numbers records no lines of keys, also if one of its keys is that of a position. -/
lemma keyLine_of_int {lines : List (Value × Value)} (h : ∀ e ∈ lines, ∃ n, e.2 = .int n)
    (key : String) : (map lines).keyLine key = .null := by
  rw [keyLine]
  split
  · rename_i inner hget
    obtain ⟨e, he, hinner⟩ := get?_eq_some hget
    obtain ⟨n, hn⟩ := h e he
    rw [hn] at hinner
    cases hinner
  · rfl

/-- A mapping to numbers records lines. -/
lemma recordsLines_of_int {lines : List (Value × Value)} (h : ∀ e ∈ lines, ∃ n, e.2 = .int n) :
    (map lines).RecordsLines :=
  fun key => keyLine_of_int h key ▸ .null

end Value

namespace Yaml

/-! ## Steps of filling -/

/-- The values of scalars are no mappings. -/
def Builder.IsPlain (b : Builder) : Prop := ∀ p ∈ b.scalars, p.2.isMap = false

/-- A tag of a scalar gives a leaf, and a text only as it is written. -/
lemma Scalar.leaf_of_construct {tag text : String} {id : Nat} {mark : Mark} {v : Value}
    (h : construct tag text id mark = .ok v) : v.isLeaf = true ∧ ∀ s, v = .str s → s = text := by
  have hother : v.isLeaf = true → v.isStr = false → v.isLeaf = true ∧
      ∀ s, v = .str s → s = text := by
    intro hleaf hstr
    refine ⟨hleaf, ?_⟩
    rintro s rfl
    cases hstr
  have hmap : ∀ {ε δ α : Type} {x : Except ε α} {g : ε → δ} {f : α → Value},
      (∀ a, (f a).isLeaf = true) → (∀ a, (f a).isStr = false) → (x.map f).mapError g = .ok v →
        v.isLeaf = true ∧ ∀ s, v = .str s → s = text := by
    intro ε δ α x g f hleaf hstr hx
    cases x with
    | error e => cases hx
    | ok a =>
        cases hx
        exact hother (hleaf a) (hstr a)
  unfold construct at h
  split_ifs at h
  · cases h
    exact hother rfl rfl
  · exact hmap (fun _ => rfl) (fun _ => rfl) h
  · exact hmap (fun _ => rfl) (fun _ => rfl) h
  · exact hmap (fun _ => rfl) (fun _ => rfl) h
  · exact hmap (fun _ => rfl) (fun _ => rfl) h
  · have h := mapError_eq_ok.mp h
    unfold timestamp at h
    split at h
    · cases h
    · dsimp only at h
      split at h
      · exact hmap (fun _ => rfl) (fun _ => rfl) h
      · exact hmap (fun _ => rfl) (fun _ => rfl) h
  · cases h
    refine ⟨rfl, ?_⟩
    rintro s ⟨⟩
    rfl

/-- The value of a node with a scalar tag is no mapping. -/
lemma Builder.isMap_of_scalarValue {b : Builder} {n : Node} {v : Value}
    (h : b.scalarValue n = .ok v) : v.isMap = false := by
  obtain ⟨text, -, h⟩ := bind_eq_ok.mp h
  split_ifs at h
  · cases h
  · exact Value.isMap_of_isLeaf (Scalar.leaf_of_construct h).1

namespace Build

/-- A computation keeps a property of the builder. -/
def Keeps {α : Type} (p : Builder → Prop) (x : Build α) : Prop :=
  ∀ b a b', p b → x.run b = .ok (a, b') → p b'

variable {α β : Type} {p : Builder → Prop}

/-- A step that does nothing keeps what holds. -/
lemma Keeps.pure (a : α) : Keeps p (Pure.pure a) := by
  intro b a' b' hb h
  cases h
  exact hb

/-- So does one that only looks. -/
lemma Keeps.get : Keeps p MonadState.get := by
  intro b a b' hb h
  cases h
  exact hb

/-- So does one that fails. -/
lemma Keeps.throw (e : Error) : Keeps p (throw e : Build α) := by
  intro b a b' hb h
  cases h

/-- So does a change that does. -/
lemma Keeps.modify {f : Builder → Builder} (h : ∀ b, p b → p (f b)) : Keeps p (modify f) := by
  intro b a b' hb heq
  cases heq
  exact h b hb

/-- So do two steps, one after the other. -/
lemma Keeps.bind {x : Build α} {f : α → Build β} (hx : Keeps p x) (hf : ∀ a, Keeps p (f a)) :
    Keeps p (x >>= f) := by
  intro b c b' hb h
  obtain ⟨⟨a, b₁⟩, hfirst, h⟩ := bind_eq_ok.mp h
  exact hf a b₁ c b' (hx b a b₁ hb hfirst) h

/-- So do steps over items that pass something on. -/
lemma Keeps.foldlM {f : β → α → Build β} (h : ∀ c a, Keeps p (f c a)) (items : List α) (c : β) :
    Keeps p (items.foldlM f c) := by
  induction items generalizing c with
  | nil => exact Keeps.pure c
  | cons a rest ih =>
      rw [List.foldlM_cons]
      exact (h c a).bind ih

/-- So do steps over items. -/
lemma Keeps.forM {f : α → Build Unit} (h : ∀ a, Keeps p (f a)) (items : List α) :
    Keeps p (items.forM f) := by
  induction items with
  | nil => exact Keeps.pure ()
  | cons a rest ih => exact (h a).bind fun _ => ih

/-- Merging entries keeps what expanding a mapping keeps. -/
lemma keeps_mergedEntries {expandOne : NodeInfo → List (Node × Node) → Build (List (Node × Node))}
    (h : ∀ info own, Keeps p (expandOne info own)) (info : NodeInfo) (n : Node) :
    Keeps p (mergedEntries expandOne info n) := by
  cases n with
  | mapping vinfo ventries => exact h vinfo ventries
  | sequence vinfo items =>
      refine Keeps.foldlM (fun merged item => ?_) items []
      split
      · exact (h _ _).bind fun _ => Keeps.pure _
      · exact Keeps.throw _
  | scalar vinfo text => exact Keeps.throw _

/-- Expanding merge keys keeps what depends neither on the expanded mappings nor on the keys `=`. -/
lemma keeps_expandWithin
    (h : ∀ b expanded retagged, p b → p { b with expanded := expanded, retagged := retagged })
    (fuel : Nat) (info : NodeInfo) (own : List (Node × Node)) : Keeps p
      (expandWithin fuel info own) := by
  induction fuel generalizing info own with
  | zero => exact Keeps.throw _
  | succ fuel ih =>
      unfold expandWithin
      refine Keeps.get.bind fun b => (Keeps.foldlM (fun state entry => ?_) _ _).bind fun state => ?_
      · refine Keeps.get.bind fun b => ?_
        dsimp only
        split_ifs
        · exact (keeps_mergedEntries ih _ _).bind fun _ => Keeps.pure _
        · exact (Keeps.modify fun b => h b _ _).bind fun _ => Keeps.pure _
        · exact Keeps.pure _
      · exact (Keeps.modify fun b => h b _ _).bind fun _ => Keeps.pure _

section meeting

variable (hmeet : ∀ n, Keeps p (meetNode n))

include hmeet

/-- Meeting the entries of a mapping meets their keys and values. -/
lemma keeps_meetEntries (info : NodeInfo) (entries : List (Node × Node)) :
    Keeps p (meetEntries info entries) := by
  induction entries with
  | nil => exact Keeps.pure ()
  | cons entry rest ih =>
      unfold meetEntries
      refine (hmeet _).bind fun _ => Keeps.get.bind fun b => ?_
      split_ifs
      · exact (Keeps.throw _).bind fun _ => (hmeet _).bind fun _ => ih
      · exact (hmeet _).bind fun _ => ih

/-- Filling a sequence keeps what holds. -/
lemma keeps_fillSequence (n : Node) : Keeps p (fillSequence n) := by
  unfold fillSequence
  split
  · exact Keeps.forM hmeet _
  · exact Keeps.throw _

/-- Filling a list of pairs keeps what holds. -/
lemma keeps_fillPairs (ordered : Bool) (n : Node) : Keeps p (fillPairs ordered n) := by
  unfold fillPairs
  split
  · refine Keeps.forM (fun item => ?_) _
    split
    · refine Keeps.get.bind fun b => ?_
      split
      · exact (hmeet _).bind fun _ => hmeet _
      · exact Keeps.throw _
    · exact Keeps.throw _
  · exact Keeps.throw _

end meeting

/-! ### Values of scalars -/

/-- Meeting a node adds the value of a scalar at most. -/
lemma keeps_meetNode (n : Node) : Keeps Builder.IsPlain (meetNode n) := by
  intro b u b' hb h
  rw [meetNode, StateT.run_bind] at h
  obtain ⟨⟨_, _⟩, hget, h⟩ := bind_eq_ok.mp h
  cases hget
  dsimp only at h
  split_ifs at h
  · cases h
    exact hb
  · cases h
    exact hb
  · obtain ⟨⟨v, b₁⟩, hvalue, h⟩ := bind_eq_ok.mp h
    obtain ⟨v', hscalar, hvalue⟩ := bind_eq_ok.mp hvalue
    cases hvalue
    cases h
    intro p hp
    rcases List.mem_cons.mp hp with rfl | hp
    · exact Builder.isMap_of_scalarValue hscalar
    · exact hb p hp
  · cases h

/-- Filling a mapping keeps builders plain. -/
lemma keeps_fillMapping (schema : Schema) (n : Node) :
    Keeps Builder.IsPlain (fillMapping schema n) := by
  have hrest : ∀ info own, Keeps Builder.IsPlain (do meetEntries info (← expand info own)) :=
    fun info own =>
    (keeps_expandWithin (fun _ _ _ hb => hb) _ info own).bind fun entries =>
      keeps_meetEntries keeps_meetNode info entries
  cases n with
  | mapping info own =>
      unfold fillMapping
      refine Keeps.get.bind fun b => ?_
      split_ifs
      · split
        · exact (Keeps.throw _).bind fun _ => hrest info own
        · exact hrest info own
      · exact hrest info own
  | scalar info text =>
      unfold fillMapping
      dsimp only
      split_ifs
      · exact (Keeps.throw _).bind fun _ => Keeps.throw _
      · exact Keeps.throw _
  | sequence info items =>
      unfold fillMapping
      dsimp only
      split_ifs
      · exact (Keeps.throw _).bind fun _ => Keeps.throw _
      · exact Keeps.throw _

/-- Filling a collection meets what is in it. -/
lemma keeps_fill (schema : Schema) (n : Node) : Keeps Builder.IsPlain (fill schema n) := by
  refine Keeps.get.bind fun b => ?_
  dsimp only
  split_ifs
  · exact keeps_fillMapping schema n
  · exact keeps_fillSequence keeps_meetNode n
  · exact keeps_fillPairs keeps_meetNode _ n

/-- **Filling all collections** leaves the values of scalars no mappings. -/
lemma keeps_fillAll (schema : Schema) (rounds : Nat) :
    Keeps Builder.IsPlain (fillAll schema rounds) := by
  induction rounds with
  | zero => exact Keeps.pure ()
  | succ rounds ih =>
      refine Keeps.get.bind fun b => ?_
      split
      · exact Keeps.pure ()
      · refine Keeps.bind (Keeps.modify ?_) fun _ => (keeps_fill schema _).bind fun _ => ih
        exact fun _ hb => hb

end Build

/-- The builder of a node has scalars that are no mappings. -/
lemma Builder.isPlain_ofRoot {schema : Schema} {root : Node} {b : Builder}
    (h : ofRoot schema root = .ok b) : b.IsPlain := by
  obtain ⟨⟨u, b'⟩, hrun, h⟩ := bind_eq_ok.mp h
  cases h
  have hkeeps := (Build.keeps_meetNode root).bind fun _ => Build.keeps_fillAll schema root.reach
  exact hkeeps {} u _ (fun p hp => absurd hp List.not_mem_nil) hrun

namespace Builder

variable {b : Builder} {n : Node} {v : Value}

/-! ## Reading off the values -/

/-- The entries for positions are written last, so they are what is read. -/
lemma recordsLines_addPositions (b : Builder) (info : NodeInfo) (expanded : List (Node × Node))
    (entries : List (Value × Value)) :
    (Value.map (b.addPositions info expanded entries)).RecordsLines := by
  intro key
  rw [Value.keyLine, addPositions, Value.get?_insertEntry]
  refine Value.isPlace_get_of_int (fun e he => ?_) key
  obtain ⟨p, -, rfl⟩ := List.mem_map.mp he
  exact ⟨_, rfl⟩

/-- The entries for positions have numbers and the lines of keys as their values. -/
lemma mem_addPositions {info : NodeInfo} {expanded : List (Node × Node)}
    {entries : List (Value × Value)} {e : Value × Value}
    (he : e ∈ b.addPositions info expanded entries) : e ∈ entries ∨ (∃ n : Int, e.2 = .int n) ∨
      e.2 = .map ((b.keyLines expanded).map fun (k, n) => (Value.str k, Value.int n)) := by
  rcases Value.mem_insertEntry he with he | heq
  · rcases Value.mem_insertEntry he with he | heq
    · exact (Value.mem_insertEntry he).imp_right fun heq => Or.inl ⟨_, heq⟩
    · exact Or.inr (Or.inl ⟨_, heq⟩)
  · exact Or.inr (Or.inr heq)

/-- The entries for positions record no lines themselves. -/
lemma recordsLines_of_mem_addPositions {info : NodeInfo} {expanded : List (Node × Node)}
    {entries : List (Value × Value)} (h : ∀ e ∈ entries, e.2.RecordsLines) :
    ∀ e ∈ b.addPositions info expanded entries, e.2.RecordsLines := by
  intro e he
  rcases mem_addPositions he with he | ⟨n, heq⟩ | heq
  · exact h e he
  · exact heq ▸ Value.recordsLines_of_not_isMap rfl
  · rw [heq]
    refine Value.recordsLines_of_int fun e he => ?_
    obtain ⟨p, -, rfl⟩ := List.mem_map.mp he
    exact ⟨_, rfl⟩

/-- A value that is read off is no mapping, or one of pairs that have been written one after
another, with entries for positions if the schema asks for them; the values of the pairs have been
read off with less fuel. -/
lemma value_cases (hb : b.IsPlain) {schema : Schema} {fuel : Nat}
    (h : b.value schema (fuel + 1) n = .ok v) : v.isMap = false ∨ ∃ info expanded pairs,
      v = .map (if schema.positions then b.addPositions info expanded (Value.entriesOf pairs)
        else Value.entriesOf pairs) ∧
      ∀ p ∈ pairs, ∃ n', b.value schema fuel n' = .ok p.2 := by
  unfold value at h
  by_cases htag : collectionTags.contains (b.tagOf n) = true
  · rw [if_pos htag] at h
    cases n with
    | mapping info own =>
        obtain ⟨pairs, hpairs, h⟩ := bind_eq_ok.mp h
        cases h
        refine Or.inr ⟨info, _, pairs, rfl, fun p hp => ?_⟩
        obtain ⟨⟨k, w⟩, -, hread⟩ := exists_of_mem_mapM hpairs hp
        obtain ⟨_, -, hread⟩ := bind_eq_ok.mp hread
        obtain ⟨v', hv', hread⟩ := bind_eq_ok.mp hread
        cases hread
        exact ⟨w, hv'⟩
    | sequence info items =>
        dsimp only at h
        split_ifs at h
        · obtain ⟨_, -, h⟩ := bind_eq_ok.mp h
          cases h
          exact Or.inl rfl
        · obtain ⟨_, -, h⟩ := bind_eq_ok.mp h
          cases h
          exact Or.inl rfl
    | scalar info text =>
        cases h
        exact Or.inl rfl
  · rw [if_neg htag] at h
    cases h
    left
    cases hscalar : b.scalars.lookup n.id with
    | none => rfl
    | some w =>
        obtain ⟨before, after, hsplit, -⟩ := List.lookup_eq_some_iff.mp hscalar
        exact hb (n.id, w) (hsplit ▸ by simp)

/-- A value that is read off records lines. -/
lemma recordsLines_value (hb : b.IsPlain) {fuel : Nat} (h : b.value .pipeline fuel n = .ok v) :
    v.RecordsLines := by
  cases fuel with
  | zero => cases h
  | succ fuel =>
      rcases value_cases hb h with hmap | ⟨info, expanded, pairs, rfl, -⟩
      · exact Value.recordsLines_of_not_isMap hmap
      · exact b.recordsLines_addPositions info expanded _

/-- The values of a mapping that is read off record lines. -/
lemma recordsLines_of_mem_value (hb : b.IsPlain) {fuel : Nat}
    (h : b.value .pipeline fuel n = .ok v) : ∀ e ∈ v.entries, e.2.RecordsLines := by
  cases fuel with
  | zero => cases h
  | succ fuel =>
      rcases value_cases hb h with hmap | ⟨info, expanded, pairs, rfl, hpairs⟩
      · rw [Value.entries_of_not_isMap hmap]
        exact nofun
      · refine recordsLines_of_mem_addPositions fun e he => ?_
        rcases Value.mem_foldl_insertEntry he with he | ⟨p, hp, heq⟩
        · cases he
        · obtain ⟨n', hn'⟩ := hpairs p hp
          exact heq ▸ recordsLines_value hb hn'

end Builder

/-- **A tree that was read from a text records lines**, for its own keys and for those of the
mappings in it. -/
theorem recordsLines_of_load {source : String} {tree : Value}
    (h : load .pipeline source = .ok tree) :
    tree.RecordsLines ∧ ∀ name, (tree.get name).RecordsLines := by
  obtain ⟨root, -, h⟩ := bind_eq_ok.mp h
  have hboth : tree.RecordsLines ∧ ∀ e ∈ tree.entries, e.2.RecordsLines := by
    cases root with
    | none =>
        cases h
        exact ⟨Value.recordsLines_of_not_isMap rfl, nofun⟩
    | some root =>
        obtain ⟨b, hb, h⟩ := bind_eq_ok.mp h
        have hplain := Builder.isPlain_ofRoot hb
        exact ⟨Builder.recordsLines_value hplain h, Builder.recordsLines_of_mem_value hplain h⟩
  refine ⟨hboth.1, fun name => ?_⟩
  rw [Value.get]
  cases hget : tree.get? name with
  | none => exact Value.recordsLines_of_not_isMap rfl
  | some w =>
      obtain ⟨e, he, rfl⟩ := Value.get?_eq_some hget
      exact hboth.2 e he

end Yaml

end PipelineAudit
