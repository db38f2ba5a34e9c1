import PipelineAudit.Proofs.Value.Keys

/-!
# The lines of keys

A mapping that is read with positions records where it starts, and the lines of the keys that it
offers, those of merged mappings before its own. It keeps the line of the first entry in which a key
is written, but the value of the last one (`Yaml.tellsLines_of_loads`). So the line is that of the
entry whose value the mapping holds if there is one entry only; where an own key overrides a merged
one, the line is that of the entry that is overridden (`Yaml.exists_misplaced_key`).
-/

namespace PipelineAudit

/-! ## Entries for positions -/

namespace Value

/-- A text is the same key as itself only. -/
lemma eq_str_of_str_sameKey {s : String} {k : Value} (hk : k.isLeaf = true)
    (h : (str s).sameKey k = true) : k = str s := by
  rcases (sameKey_iff_of_isLeaf rfl hk).mp h with heq | ⟨n, hn, -⟩ | ⟨t, t', ht, -⟩
  · exact heq.symm
  · cases hn
  · cases ht

/-- Writing an entry under a key that is no collection brings in no collection as a key. -/
lemma isLeaf_of_mem_insertEntry {es : List (Value × Value)} {key : Value} (value : Value)
    (hkey : key.isLeaf = true) (hes : ∀ e ∈ es, e.1.isLeaf = true) :
    ∀ e ∈ insertEntry es key value, e.1.isLeaf = true := by
  intro e he
  rcases fst_mem_insertEntry he with heq | ⟨e', he', heq⟩
  · rw [heq]
    exact hkey
  · rw [← heq]
    exact hes e' he'

end Value

namespace Yaml

/-- A key is a scalar that is written as a text. -/
def Node.isWritten (written : String) : Node → Bool
  | .scalar _ text => text == written
  | _ => false

/-- The number of the line on which a node starts. -/
def Node.line (n : Node) : Nat := n.start.line + 1

namespace Builder

variable {b : Builder} {entries : List (Node × Node)} {info : NodeInfo}
    {pairs : List (Value × Value)}

/-- Records the line of a key, unless one is recorded already. -/
def recordLine (b : Builder) (lines : Assoc String Nat) (entry : Node × Node) : Assoc String Nat :=
  match entry.1 with
  | .scalar info text =>
    if b.tagOf entry.1 = Tag.merge || lines.has text then
      lines else lines.insert text (info.start.line + 1)
  | _ => lines

/-- The line of a key is recorded where none is. -/
lemma get?_recordLine {e : Node × Node} (hmerge : e.1.tag ≠ Tag.merge) (lines : Assoc String Nat)
    (written : String) : (b.recordLine lines e).get? written =
      (lines.get? written).or (if e.1.isWritten written then some e.1.line else none) := by
  obtain ⟨key, value⟩ := e
  cases key with
  | sequence info items => simp [recordLine, Node.isWritten]
  | mapping info own => simp [recordLine, Node.isWritten]
  | scalar info text =>
      have htag : b.tagOf (.scalar info text) ≠ Tag.merge := by
        rw [tagOf]
        split_ifs
        · decide
        · exact hmerge
      cases hold : lines.get? text with
      | some n =>
          have hhas : lines.has text = true := by rw [Assoc.has, hold, Option.isSome_some]
          by_cases htext : text = written
          · subst htext
            simp [recordLine, hhas, hold]
          · simp [recordLine, hhas, Node.isWritten, htext]
      | none =>
          have hhas : lines.has text = false := by rw [Assoc.has, hold, Option.isSome_none]
          by_cases htext : text = written
          · subst htext
            simp [recordLine, hhas, htag, hold, Assoc.get?_insert, Node.isWritten, Node.line,
              Node.start, Node.info]
          · simp [recordLine, hhas, htag, Assoc.get?_insert, Node.isWritten, htext]

/-- Of the entries in which a key is written, the first one gives the line. -/
lemma get?_keyLines (hmerge : ∀ e ∈ entries, e.1.tag ≠ Tag.merge) (written : String) :
    (b.keyLines entries).get? written =
      (entries.find? fun e => e.1.isWritten written).map fun e => e.1.line := by
  have hfold : ∀ lines : Assoc String Nat, (entries.foldl b.recordLine lines).get? written =
      (lines.get? written).or
        ((entries.find? fun e => e.1.isWritten written).map fun e => e.1.line) := by
    induction entries with
    | nil => simp
    | cons e rest ih =>
        obtain ⟨hfirst, hrest⟩ := List.forall_mem_cons.mp hmerge
        intro lines
        rw [List.foldl_cons, ih hrest, get?_recordLine hfirst, Option.or_assoc, List.find?_cons]
        cases e.1.isWritten written <;> simp
  exact hfold []

/-- The recorded lines are read as they are written. -/
lemma get_lines (lines : Assoc String Nat) (written : String) :
    (Value.map (lines.map fun (k, n) => (Value.str k, Value.int n))).get written =
      ((lines.get? written).map fun n : Nat => Value.int n).getD .null := by
  rw [Value.get, Value.get?_eq_lookup]
  induction lines with
  | nil => rfl
  | cons p rest ih =>
      obtain ⟨k, n⟩ := p
      rw [List.map_cons, Value.lookup, Assoc.get?, Value.sameKey_str_str]
      split_ifs
      · rfl
      · exact ih

section positions

variable {info : NodeInfo} {pairs : List (Value × Value)}

/-- The recorded line of a key is that of the first entry in which it is written. -/
lemma keyLine_addPositions (hmerge : ∀ e ∈ entries, e.1.tag ≠ Tag.merge) (es : List (Value × Value))
    (written : String) : (Value.map (b.addPositions info entries es)).keyLine written =
      ((entries.find? fun e => e.1.isWritten written).map fun e => Value.int e.1.line).getD
        .null := by
  rw [Value.keyLine, addPositions, Value.get?_insertEntry]
  dsimp only
  rw [get_lines, get?_keyLines hmerge, Option.map_map]
  rfl

/-- What is looked up is one of the three entries for positions, or was there before. -/
lemma lookup_addPositions {es : List (Value × Value)} (hes : ∀ e ∈ es, e.1.isLeaf = true)
    {k : Value} (hk : k.isLeaf = true) : Value.lookup (b.addPositions info entries es) k =
      if (Value.str keyLinesKey).sameKey k = true then
        some (.map ((b.keyLines entries).map fun (k, n) => (Value.str k, Value.int n)))
      else if (Value.str columnKey).sameKey k = true then some (.int info.start.column)
      else if (Value.str lineKey).sameKey k = true then some (.int (info.start.line + 1))
      else Value.lookup es k := by
  have hkey : ∀ name : String, (Value.str name).isLeaf = true := fun _ => rfl
  have hline := Value.isLeaf_of_mem_insertEntry (.int (info.start.line + 1)) (hkey lineKey) hes
  have hcolumn := Value.isLeaf_of_mem_insertEntry (.int info.start.column) (hkey columnKey) hline
  have hkeys : ∀ {es : List (Value × Value)}, (∀ e ∈ es, e.1.isLeaf = true) →
      ∀ e ∈ es, e.1.isKey = true :=
    fun hes e he => Value.isKey_of_isLeaf (hes e he)
  have hk' := Value.isKey_of_isLeaf hk
  rw [addPositions, Value.lookup_insertEntry (hkeys hcolumn) rfl hk',
    Value.lookup_insertEntry (hkeys hline) rfl hk', Value.lookup_insertEntry (hkeys hes) rfl hk']

/-- Under a key that is not one of a position, a mapping holds what it held before. -/
lemma lookup_addPositions_of_ne {es : List (Value × Value)} (hes : ∀ e ∈ es, e.1.isLeaf = true)
    {k : Value} (hk : k.isLeaf = true) (hposition : k.isPositionKey = false) :
    Value.lookup (b.addPositions info entries es) k = Value.lookup es k := by
  have hapart : ∀ name ∈ positionKeys, (Value.str name).sameKey k = false := by
    intro name hname
    rw [Bool.eq_false_iff]
    intro hsame
    rw [Value.eq_str_of_str_sameKey hk hsame, Value.isPositionKey, List.contains_iff_mem.mpr hname]
      at hposition
    cases hposition
  rw [lookup_addPositions hes hk, hapart keyLinesKey (by decide), hapart columnKey (by decide),
    hapart lineKey (by decide)]
  rfl

/-- The recorded line of a mapping is that where it starts, from one. -/
lemma startLine_addPositions {es : List (Value × Value)} (hes : ∀ e ∈ es, e.1.isLeaf = true) :
    (Value.map (b.addPositions info entries es)).startLine = .int (info.start.line + 1) := by
  rw [Value.startLine, Value.get?_eq_lookup, lookup_addPositions hes rfl]
  rfl

end positions

end Builder

/-! ## Mappings of a text -/

/-- What a mapping of a text tells about lines. Of the entries that it offers, the first one whose
key is written in some way gives the line for that text, and the last one with some key gives the
value. -/
structure TellsLines (text : String) (info : NodeInfo) (own : List (Node × Node)) (v : Value) :
    Prop where
  start : v.startLine = .int (info.start.line + 1)
  recorded (written : String) : v.keyLine written =
    (((Node.mapping info own).offers.find? fun e => e.1.isWritten written).map fun e =>
      Value.int e.1.line).getD .null
  held {before after e k w} : (Node.mapping info own).offers = before ++ e :: after →
    ReadsAs text e.1 k → ReadsAs text e.2 w → k.isPositionKey = false →
    (∀ e' ∈ after, ∀ k', ReadsAs text e'.1 k' → k'.sameKey k = false) →
      Value.lookup v.entries k = some w
  /-- The line is that of an entry exactly if the first entry with its text starts on the same
  line. -/
  right {written e} : e ∈ (Node.mapping info own).offers → e.1.isWritten written = true →
    (v.keyLine written = .int e.1.line ↔
      ∀ e', (Node.mapping info own).offers.find? (fun e => e.1.isWritten written) = some e' →
        e'.1.line = e.1.line)
  /-- What is written in the mapping has its own line if it overrides nothing. -/
  own_line {written e} : e ∈ (Node.mapping info own).written → e.1.isWritten written = true →
    (∀ e' ∈ Node.offersOfMerged own, e'.1.isWritten written = false) →
      v.keyLine written = .int e.1.line
  /-- What is merged gives the line, whether it is overridden or not. -/
  merged_line {written e} : e ∈ Node.offersOfMerged own → e.1.isWritten written = true →
    ∃ e' ∈ Node.offersOfMerged own, e'.1.isWritten written = true ∧
      v.keyLine written = .int e'.1.line

section tells

variable {text written : String} {info : NodeInfo} {own before after : List (Node × Node)}
    {e : Node × Node}
  {pairs : List (Value × Value)} {v k w : Value}

/-- Pairs that entries are read as part where the entries do. -/
lemma AreReadAs.exists_append (h : AreReadAs text (before ++ e :: after) pairs) : ∃ front p back,
    pairs = front ++ p :: back ∧ ReadsAs text e.1 p.1 ∧ ReadsAs text e.2 p.2 ∧
      AreReadAs text after back := by
  induction before generalizing pairs with
  | nil =>
      obtain ⟨p, back, hfirst, hback, rfl⟩ := List.forall₂_cons_left_iff.mp h
      exact ⟨[], p, back, rfl, hfirst.1, hfirst.2, hback⟩
  | cons e' rest ih =>
      obtain ⟨p', pairs, -, hrest, rfl⟩ := List.forall₂_cons_left_iff.mp h
      obtain ⟨front, p, back, rfl, hp⟩ := ih hrest
      exact ⟨p' :: front, p, back, rfl, hp⟩

/-- Of the entries with one key, the last one gives the value. -/
lemma AreReadAs.lookup_entriesOf (h : AreReadAs text (before ++ e :: after) pairs)
    (hleaf : ∀ p ∈ pairs, p.1.isLeaf = true) (hk : ReadsAs text e.1 k) (hw : ReadsAs text e.2 w)
    (hlast : ∀ e' ∈ after, ∀ k', ReadsAs text e'.1 k' → k'.sameKey k = false) :
    k.isLeaf = true ∧ Value.lookup (Value.entriesOf pairs) k = some w := by
  obtain ⟨front, p, back, rfl, hkey, hvalue, hback⟩ := h.exists_append
  obtain rfl := hkey.unique hk
  obtain rfl := hvalue.unique hw
  have hp : p.1.isLeaf = true := hleaf p (by simp)
  have hnone : back.reverse.find? (fun q => q.1.sameKey p.1) = none := by
    rw [List.find?_eq_none]
    intro q hq
    obtain ⟨e', he', hread⟩ := exists_left_of_forall₂ hback (List.mem_reverse.mp hq)
    simp [hlast e' he' q.1 hread.1]
  refine ⟨hp, ?_⟩
  rw [Value.lookup_entriesOf hleaf hp, List.reverse_append, List.reverse_cons, List.append_assoc,
    List.find?_append, hnone, Option.none_or, List.singleton_append, List.find?_cons,
    Value.sameKey_self]
  rfl

/-- Among entries whose texts differ, one is found by its text. -/
lemma find?_isWritten {entries : List (Node × Node)} (hkeys : (keyTexts entries).Nodup)
    (he : e ∈ entries) (hwritten : e.1.isWritten written = true) :
    entries.find? (fun e => e.1.isWritten written) = some e := by
  have hmem : ∀ {es : List (Node × Node)} {e' : Node × Node}, e' ∈ es →
      e'.1.isWritten written = true → written ∈ keyTexts es := by
    intro es e' he' hw
    refine List.mem_filterMap.mpr ⟨e', he', ?_⟩
    obtain ⟨key, value⟩ := e'
    cases key with
    | scalar info text => exact congrArg some (beq_iff_eq.mp hw)
    | _ => cases hw
  induction entries with
  | nil => cases he
  | cons e' rest ih =>
      have hrest := hkeys.sublist (keyTexts_sublist (List.sublist_cons_self e' rest))
      rcases List.mem_cons.mp he with rfl | he
      · exact List.find?_cons_of_pos hwritten
      · by_cases hfirst : e'.1.isWritten written = true
        · -- the text would occur twice
          have htexts : keyTexts (e' :: rest) = keyTexts [e'] ++ keyTexts rest := by
            rw [keyTexts, keyTexts, keyTexts, ← List.filterMap_append, List.singleton_append]
          rw [htexts] at hkeys
          exact absurd (hmem he hwritten)
            (List.disjoint_of_nodup_append hkeys (hmem List.mem_cons_self hfirst))
        · rw [List.find?_cons, Bool.eq_false_iff.mpr hfirst]
          exact ih hrest he

/-- **The lines of keys.** In a text that is read with positions, every mapping is read as one
value, which tells the line where the mapping starts. For a key it keeps the line of the first entry
that is written so, merged entries before its own, and the value of the last one. So the line is the
one of the entry whose value is held if this entry overrides nothing; if it does, the line is that
of an entry that is merged. -/
theorem tellsLines_of_loads {text : String} {tree : Value} {info : NodeInfo}
    {own : List (Node × Node)} (h : load .pipeline text = .ok tree)
    (hn : Loads text (.mapping info own)) (htag : info.tag = Tag.map) :
    ∃ v, (∀ w, ReadsAs text (.mapping info own) w ↔ w = v) ∧ TellsLines text info own v := by
  obtain ⟨v, hv⟩ := hn.exists_readsAs h
  obtain ⟨hkeys, b, pairs, rfl, hpairs, hleaf⟩ := exists_addPositions_of_readsAs hv htag
  have hentries : ∀ e ∈ Value.entriesOf pairs, e.1.isLeaf = true := fun e he => by
    obtain ⟨p, hp, hkey⟩ := Value.exists_fst_of_mem_entriesOf he
    rw [hkey]
    exact hleaf p hp
  have hmerge : ∀ e ∈ (Node.mapping info own).offers, e.1.tag ≠ Tag.merge :=
    fun e he => Node.tag_ne_merge_of_mem_offers he
  have hrecorded := @Builder.keyLine_addPositions b _ info hmerge (Value.entriesOf pairs)
  have hoffers : (Node.mapping info own).offers = Node.offersOfMerged own
      ++ (Node.mapping info own).written := rfl
  refine ⟨_, fun w => ⟨fun hw => hw.unique hv, fun hw => hw ▸ hv⟩, ?_⟩
  constructor
  case start => exact Builder.startLine_addPositions hentries
  case recorded => exact hrecorded
  case held =>
    intro before after e k w hsplit hk hw hposition hlast
    rw [hsplit] at hpairs
    obtain ⟨hkleaf, hlookup⟩ := hpairs.lookup_entriesOf hleaf hk hw hlast
    exact (Builder.lookup_addPositions_of_ne hentries hkleaf hposition).trans hlookup
  case right =>
    intro written e he hwritten
    rw [hrecorded]
    cases hfind : (Node.mapping info own).offers.find? fun e => e.1.isWritten written with
    | none => exact absurd hwritten (List.find?_eq_none.mp hfind e he)
    | some e' => simp
  case own_line =>
    intro written e he hwritten hmerged
    have hnone : (Node.offersOfMerged own).find? (fun e => e.1.isWritten written) = none :=
      List.find?_eq_none.mpr fun e' he' => by simp [hmerged e' he']
    rw [hrecorded, hoffers, List.find?_append, hnone, Option.none_or,
      find?_isWritten hkeys he hwritten]
    rfl
  case merged_line =>
    intro written e he hwritten
    cases hfind : (Node.offersOfMerged own).find? fun e => e.1.isWritten written with
    | none => exact absurd hwritten (List.find?_eq_none.mp hfind e he)
    | some e' =>
        have hfound : e'.1.isWritten written = true := by simpa using List.find?_some hfind
        refine ⟨e', List.mem_of_find?_eq_some hfind, hfound, ?_⟩
        rw [hrecorded, hoffers, List.find?_append, hfind]
        rfl

/-- A mapping that overrides the key `x` of one that it merges. -/
def overridingSource : String := "a: &a \x7bx: 1\x7d\nb:\n  <<: *a\n  x: 2\n"

/-- The mapping starts on the third line, and takes the line of `x` from the first one. -/
theorem tellsLines_overridingSource : ∃ info own v, Loads overridingSource (.mapping info own) ∧
    ReadsAs overridingSource (.mapping info own) v ∧ v.startLine = .int 3 ∧
      v.keyLine "x" = .int 1 := by
  obtain ⟨root?, hparse, hroot⟩ : ∃ root?,
      Node.parse .pipeline (Passage.ofText overridingSource) = .ok root? ∧
      root?.any (fun root => root.loadedParts.any fun n => n.kind = .mapping && n.tag = Tag.map &&
        n.start.line == 2 && (n.offers.find? fun e => e.1.isWritten "x").map (fun e => e.1.line) ==
          some 1) = true :=
    exists_ok_of_any (by decide +kernel)
  obtain ⟨tree, hload, -⟩ : ∃ tree, load .pipeline overridingSource = .ok tree ∧
      tree.isMap = true :=
    exists_ok_of_any (by decide +kernel)
  cases root? with
  | none => cases hroot
  | some root =>
      obtain ⟨n, hn, hchecks⟩ := List.any_eq_true.mp hroot
      simp only [Bool.and_eq_true, decide_eq_true_eq, beq_iff_eq] at hchecks
      obtain ⟨⟨⟨hkind, htag⟩, hline⟩, hfirst⟩ := hchecks
      cases n with
      | scalar info text => cases hkind
      | sequence info items => cases hkind
      | mapping info own =>
          have hloads : Loads overridingSource (.mapping info own) := ⟨root, hparse, .single hn⟩
          obtain ⟨v, hv, htells⟩ := tellsLines_of_loads hload hloads htag
          obtain ⟨e, hfind, he⟩ := Option.map_eq_some_iff.mp hfirst
          refine ⟨info, own, v, hloads, (hv v).mpr rfl, ?_, ?_⟩
          · rw [htells.start, show info.start.line = 2 from hline]
            rfl
          · rw [htells.recorded, hfind, Option.map_some, he]
            rfl

/-- The value of `x` is on the fourth line, and its line is that of the value which it overrides. -/
theorem exists_misplaced_key : ∃ tree, load .pipeline overridingSource = .ok tree ∧
    (tree.get "b").get "x" = .int 2 ∧ (Text.lines overridingSource)[3]? = some "  x: 2" ∧
    (tree.get "b").keyLine "x" = .int 1 := by
  obtain ⟨tree, hload, hvalue, hline⟩ : ∃ tree, load .pipeline overridingSource = .ok tree ∧
      (tree.get "b").get "x" = .int 2 ∧ (tree.get "b").keyLine "x" = .int 1 :=
    exists_ok_of_any (by decide +kernel)
  exact ⟨tree, hload, hvalue, by decide +kernel, hline⟩

end tells

end Yaml

end PipelineAudit
