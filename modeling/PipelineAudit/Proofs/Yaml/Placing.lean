import PipelineAudit.Proofs.Yaml.Reading
import PipelineAudit.Proofs.Yaml.Scanning

/-!
# Nodes on the lines of a text

The tokens of a text are on its lines (`Yaml.Token.fits_of_mem_scan`), and so are the nodes that are
made from them, with one exception: an item or a value that is not written stands where it would
start, which may be behind the last line. So collections and keys are on the lines of the text
(`Yaml.Node.liesWithin_of_parse`). All readers of nested nodes keep that (`Yaml.Compose.Placed`),
since an anchor stands at a node that starts with a token.
-/

namespace PipelineAudit.Yaml

namespace Node

/-- In a tree, collections and keys start on one of so many lines. -/
structure LiesWithin (count : Nat) (root : Node) : Prop where
  collection : ∀ {n : Node}, n.Within root → n.kind ≠ .scalar → n.start.line < count
  key : ∀ {info : NodeInfo} {entries : List (Node × Node)}, (mapping info entries).Within root →
    ∀ e ∈ entries, e.1.start.line < count

/-- A node starts on one of so many lines, and so do the collections and keys in it. -/
def IsPlaced (count : Nat) (n : Node) : Prop := n.start.line < count ∧ n.LiesWithin count

/-- Items whose collections and keys start on so many lines. -/
def ItemsWithin (count : Nat) (items : List Node) : Prop := ∀ n ∈ items, n.LiesWithin count

/-- Entries whose keys start on so many lines, and the collections and keys in them. -/
def EntriesWithin (count : Nat) (entries : List (Node × Node)) : Prop :=
  ∀ e ∈ entries, e.1.IsPlaced count ∧ e.2.LiesWithin count

variable {count : Nat} {info : NodeInfo}

/-- What lies on some lines lies on more of them. -/
lemma LiesWithin.mono {root : Node} (h : root.LiesWithin count) {count' : Nat}
    (hle : count ≤ count') : root.LiesWithin count' :=
  ⟨fun hn hkind => Nat.lt_of_lt_of_le (h.collection hn hkind) hle,
    fun hn e he => Nat.lt_of_lt_of_le (h.key hn e he) hle⟩

/-- A scalar alone has no keys and opens nothing. -/
lemma liesWithin_scalar (info : NodeInfo) (text : String) :
    (scalar info text).LiesWithin count := by
  have hself : ∀ {n : Node}, n.Within (scalar info text) → n = scalar info text := by
    intro n hn
    rcases Relation.ReflTransGen.cases_tail hn with heq | ⟨m, -, hm⟩
    · exact heq.symm
    · cases hm
  refine ⟨fun hn hkind => absurd (congrArg Node.kind (hself hn)) hkind, fun hn => ?_⟩
  cases hself hn

/-- A node in a tree is the root, or it is in one of the parts of the root. -/
lemma Within.cases {n root : Node} (h : n.Within root) :
    n = root ∨ ∃ m ∈ root.parts, n.Within m := by
  rcases Relation.ReflTransGen.cases_tail h with heq | ⟨m, hn, hm⟩
  · exact Or.inl heq.symm
  · exact Or.inr ⟨m, hm, hn⟩

/-- A sequence lies on lines if it starts on one and its items lie there. -/
lemma liesWithin_sequence (hstart : info.start.line < count) {items : List Node}
    (h : ItemsWithin count items) : (sequence info items).LiesWithin count := by
  constructor
  case collection =>
    intro n hn hkind
    rcases hn.cases with rfl | ⟨m, hm, hn⟩
    · exact hstart
    · exact (h m hm).collection hn hkind
  case key =>
    intro minfo entries hn
    rcases hn.cases with heq | ⟨m, hm, hn⟩
    · cases heq
    · exact (h m hm).key hn

/-- A mapping lies on lines if it starts on one and its keys and values lie there. -/
lemma liesWithin_mapping (hstart : info.start.line < count) {entries : List (Node × Node)}
    (h : EntriesWithin count entries) : (mapping info entries).LiesWithin count := by
  have hparts : ∀ m ∈ (mapping info entries).parts, m.LiesWithin count := by
    intro m hm
    obtain ⟨e, he, hm⟩ := List.mem_flatMap.mp hm
    rcases List.mem_pair.mp hm with rfl | rfl
    · exact (h e he).1.2
    · exact (h e he).2
  constructor
  case collection =>
    intro n hn hkind
    rcases hn.cases with rfl | ⟨m, hm, hn⟩
    · exact hstart
    · exact (hparts m hm).collection hn hkind
  case key =>
    intro minfo own hn
    rcases hn.cases with heq | ⟨m, hm, hn⟩
    · cases heq
      exact fun e he => (h e he).1.1
    · exact (hparts m hm).key hn

end Node

/-- The tokens that are left, and the nodes of anchors, are on so many lines. -/
structure Composer.Fits (count : Nat) (st : Composer) : Prop where
  tokens : ∀ t ∈ st.tokens, t.Fits count
  anchors : ∀ {name mark n}, st.anchors.get? name = some (mark, some n) → n.IsPlaced count

namespace Compose

variable {α β : Type} {count : Nat} {good : α → Prop} {good' : β → Prop} {t : Token}
    {schema : Schema}

/-! ## Readers -/

/-- A reader leaves tokens and anchors on so many lines, and what it returns is good. -/
def Yields (count : Nat) (x : Compose α) (good : α → Prop) : Prop :=
  ∀ st a st', st.Fits count → x.run st = .ok (a, st') → st'.Fits count ∧ good a

/-- A reader does so if it is before a token. -/
def YieldsAt (count : Nat) (t : Token) (x : Compose α) (good : α → Prop) : Prop :=
  ∀ st a st', st.Fits count → st.tokens.head? = some t → x.run st = .ok (a, st') →
    st'.Fits count ∧ good a

/-- A good result may be returned. -/
lemma Yields.pure {a : α} (h : good a) : Yields count (Pure.pure a) good := by
  intro st a' st' hst heq
  cases heq
  exact ⟨hst, h⟩

/-- Of reading that fails nothing is asked. -/
lemma Yields.throw (e : Error) : Yields count (throw e : Compose α) good := by
  intro st a st' _ heq
  cases heq

/-- Nothing comes after a failure. -/
lemma Yields.throw_bind (e : Error) {f : α → Compose β} :
    Yields count (MonadExcept.throw e >>= f) good' := .throw e

/-- Reading goes on with what was read. -/
lemma Yields.bind {x : Compose α} {f : α → Compose β} (hx : Yields count x good)
    (hf : ∀ a, good a → Yields count (f a) good') : Yields count (x >>= f) good' := by
  intro st b st' hst h
  obtain ⟨⟨a, st₁⟩, hfirst, h⟩ := bind_eq_ok.mp h
  obtain ⟨hst₁, ha⟩ := hx st a st₁ hst hfirst
  exact hf a ha st₁ b st' hst₁ h

/-- It goes on with what is returned. -/
lemma Yields.pure_bind {a : α} {f : α → Compose β} (h : ∀ a, Yields count (f a) good') :
    Yields count (Pure.pure a >>= f) good' := h a

/-- What is good enough is good. -/
lemma Yields.mono {p : α → Prop} {x : Compose α} (hx : Yields count x good)
    (h : ∀ a, good a → p a) : Yields count x p :=
  fun st a st' hst heq => (hx st a st' hst heq).imp_right (h a)

/-- What holds before any token holds before this one. -/
lemma Yields.yieldsAt {x : Compose α} (hx : Yields count x good) : YieldsAt count t x good :=
  fun st a st' hst _ heq => hx st a st' hst heq

/-- Reading goes on with what was read from the token. -/
lemma YieldsAt.bind {x : Compose α} {f : α → Compose β} (hx : YieldsAt count t x good)
    (hf : ∀ a, good a → Yields count (f a) good') : YieldsAt count t (x >>= f) good' := by
  intro st b st' hst hhead h
  obtain ⟨⟨a, st₁⟩, hfirst, h⟩ := bind_eq_ok.mp h
  obtain ⟨hst₁, ha⟩ := hx st a st₁ hst hhead hfirst
  exact hf a ha st₁ b st' hst₁ h

/-- A change of the state that keeps it in place. -/
lemma Yields.modify {f : Composer → Composer} (h : ∀ st, st.Fits count → (f st).Fits count) :
    Yields count (modify f : Compose Unit) fun _ => True := by
  intro st a st' hst heq
  cases heq
  exact ⟨h st hst, trivial⟩

/-- What is looked up in the state changes nothing. -/
lemma Yields.get_bind {f : Composer → Compose β}
    (hf : ∀ st, st.Fits count → Yields count (f st) good') :
    Yields count (MonadState.get >>= f) good' :=
  fun st b st' hst h => hf st hst st b st' hst h

/-! ### Tokens -/

/-- Looking at the next token changes nothing. -/
lemma peek_eq_ok {st st' : Composer} (h : peek.run st = .ok (t, st')) :
    st' = st ∧ st.tokens.head? = some t := by
  unfold peek at h
  rw [StateT.run_bind] at h
  obtain ⟨⟨st₁, st₂⟩, hget, h⟩ := bind_eq_ok.mp h
  cases hget
  dsimp only at h
  split at h
  · rename_i htokens
    cases h
    exact ⟨rfl, by rw [htokens, List.head?_cons]⟩
  · cases h

/-- What is done with the next token is done before it. -/
lemma yields_peek_bind {f : Token → Compose β}
    (hf : ∀ t, t.Fits count → YieldsAt count t (f t) good') : Yields count (peek >>= f) good' := by
  intro st b st' hst h
  obtain ⟨⟨t, st₁⟩, hpeek, hrun⟩ := bind_eq_ok.mp h
  obtain ⟨rfl, hhead⟩ := peek_eq_ok hpeek
  exact hf t (hst.tokens t (List.mem_of_mem_head? hhead)) st₁ b st' hst hhead hrun

/-- The next token is the one that a reader is before. -/
lemma yieldsAt_peek_bind {f : Token → Compose β} (hf : YieldsAt count t (f t) good') :
    YieldsAt count t (peek >>= f) good' := by
  intro st b st' hst hhead h
  obtain ⟨⟨t', st₁⟩, hpeek, hrun⟩ := bind_eq_ok.mp h
  obtain ⟨rfl, hhead'⟩ := peek_eq_ok hpeek
  obtain rfl : t = t' := Option.some.inj (hhead.symm.trans hhead')
  exact hf st₁ b st' hst hhead hrun

/-- The next token fits. -/
lemma yields_peek : Yields count peek (Token.Fits count) := by
  rw [← bind_pure peek]
  exact yields_peek_bind fun t ht => (Yields.pure ht).yieldsAt

/-- Moving past it keeps the others. -/
lemma yields_advance : Yields count advance fun _ => True :=
  Yields.modify fun _ hst => ⟨fun t ht => hst.tokens t (List.mem_of_mem_drop ht), hst.anchors⟩

/-- Taking the token that stands there goes on with it. -/
lemma yieldsAt_next_bind {f : Token → Compose β} (hf : Yields count (f t) good') :
    YieldsAt count t (next >>= f) good' := by
  unfold next
  rw [bind_assoc]
  refine yieldsAt_peek_bind ?_
  rw [bind_assoc]
  refine (yields_advance.bind fun _ _ => ?_).yieldsAt
  rwa [pure_bind]

/-- A token that is taken fits. -/
lemma yields_next : Yields count next (Token.Fits count) :=
  yields_peek.bind fun _ ht => yields_advance.bind fun _ _ => .pure ht

/-- A token that is taken on a condition. -/
lemma yields_nextIf (kind : TokenKind) : Yields count (nextIf kind) fun _ => True := by
  refine yields_peek.bind fun t _ => ?_
  split_ifs
  · exact yields_advance.bind fun _ _ => .pure trivial
  · exact .pure trivial

/-- Looking at the next token changes nothing. -/
lemma yields_atAny (kinds : List TokenKind) : Yields count (atAny kinds) fun _ => True :=
  yields_peek.bind fun _ _ => .pure trivial

/-! ### Properties and anchors -/

/-- A tag is resolved where its properties start. -/
lemma yields_resolvedTag {start : Mark} (hstart : start.line < count)
    (x : Option String × Option (Option String × String) × Mark) :
    Yields count (resolvedTag start x) fun p => p.start.line < count := by
  obtain ⟨anchor, rawTag, tagMark⟩ := x
  dsimp only [resolvedTag]
  split
  · exact .pure hstart
  · exact .pure hstart
  · refine .get_bind fun st _ => ?_
    split
    · exact .pure hstart
    · exact .throw _

/-- Properties that are given start on a line. Without them, the next token is still the next
one. -/
lemma yieldsAt_properties_bind (ht : t.Fits count) {f : Properties → Compose β}
    (hgiven : ∀ p, p.start.line < count → Yields count (f p) good')
    (hbare : YieldsAt count t (f ⟨none, none, t.start⟩) good') :
    YieldsAt count t (properties >>= f) good' := by
  unfold properties
  rw [bind_assoc]
  refine yieldsAt_peek_bind ?_
  have hline : t.kind.isEnd = false → t.start.line < count := ht.start
  split
  · rename_i hkind
    rw [hkind] at hline
    refine (Yields.bind ?_ hgiven).yieldsAt
    refine yields_advance.bind fun _ _ => yields_peek.bind fun t' _ => ?_
    split
    · exact yields_advance.bind fun _ _ => .pure_bind (yields_resolvedTag (hline rfl))
    · exact .pure_bind (yields_resolvedTag (hline rfl))
  · rename_i hkind
    rw [hkind] at hline
    refine (Yields.bind ?_ hgiven).yieldsAt
    refine yields_advance.bind fun _ _ => yields_peek.bind fun t' _ => ?_
    split
    · exact yields_advance.bind fun _ _ => .pure_bind (yields_resolvedTag (hline rfl))
    · exact .pure_bind (yields_resolvedTag (hline rfl))
  · exact hbare

/-- Opening an anchor leaves it without a node. -/
lemma yields_openAnchor (p : Properties) : Yields count (openAnchor p) fun _ => True := by
  unfold openAnchor
  split
  · exact .pure trivial
  · rename_i name hname
    refine .get_bind fun st _ => ?_
    split
    · exact .throw _
    · refine .modify fun st hst => ⟨hst.tokens, fun hget => ?_⟩
      rw [Assoc.get?_insert] at hget
      split_ifs at hget
      · cases hget
      · exact hst.anchors hget

/-- A new number changes no place. -/
lemma yields_freshId : Yields count freshId fun _ => True := by
  refine .get_bind fun st hst => ?_
  intro st' a st'' _ heq
  cases heq
  exact ⟨⟨hst.tokens, hst.anchors⟩, trivial⟩

/-- A node is made, and its anchor is set to it. -/
lemma yields_close {p : Properties} {f : Nat → Node} {good : Node → Prop} (hgood : ∀ i, good (f i))
    (hanchor : p.anchor.isSome = true → ∀ i, (f i).IsPlaced count) :
    Yields count (do closeAnchor p (f (← freshId))) good := by
  refine yields_freshId.bind fun i _ => ?_
  unfold closeAnchor
  split
  · exact .pure (hgood i)
  · rename_i name hname
    refine Yields.bind (.modify fun st hst => ⟨hst.tokens, fun hget => ?_⟩) fun _ _ =>
      .pure (hgood i)
    rw [Assoc.get?_insert] at hget
    split_ifs at hget
    · cases hget
      exact hanchor (by rw [hname, Option.isSome_some]) i
    · exact hst.anchors hget

/-- A scalar with a place for its properties. -/
lemma yields_scalar {p : Properties} (hstart : p.start.line < count) (text : String)
    (isPlain : Bool) : Yields count (scalar schema p text isPlain) (Node.IsPlaced count) :=
  (yields_openAnchor p).bind fun _ _ => yields_close (fun _ => ⟨hstart, Node.liesWithin_scalar _ _⟩)
    fun _ _ => ⟨hstart, Node.liesWithin_scalar _ _⟩

/-- A scalar that is not written is where it would start. -/
lemma yields_emptyScalar (mark : Mark) :
    Yields count (emptyScalar schema mark) fun n => n.LiesWithin count ∧ n.start = mark :=
  (yields_openAnchor _).bind fun _ _ =>
    yields_close (fun _ => ⟨Node.liesWithin_scalar _ _, rfl⟩) nofun

/-! ## Readers that call each other -/

/-- A sequence is made after its items. -/
lemma yields_sequence {p : Properties} (hstart : p.start.line < count) {x : Compose (List Node)}
    (hx : Yields count x (Node.ItemsWithin count)) : Yields count (do
      let items ← x
      closeAnchor p (.sequence ⟨← freshId, p.explicitTag?.getD Tag.seq, p.start⟩ items))
        (Node.IsPlaced count) :=
  hx.bind fun _ hitems => yields_close (fun _ => ⟨hstart, Node.liesWithin_sequence hstart hitems⟩)
    fun _ _ => ⟨hstart, Node.liesWithin_sequence hstart hitems⟩

/-- A mapping is made after its entries. -/
lemma yields_mapping {p : Properties} (hstart : p.start.line < count)
    {x : Compose (List (Node × Node))} (hx : Yields count x (Node.EntriesWithin count)) :
    Yields count (do
      let entries ← x
      closeAnchor p (.mapping ⟨← freshId, p.explicitTag?.getD Tag.map, p.start⟩ entries))
        (Node.IsPlaced count) :=
  hx.bind fun _ hentries =>
    yields_close (fun _ => ⟨hstart, Node.liesWithin_mapping hstart hentries⟩)
    fun _ _ => ⟨hstart, Node.liesWithin_mapping hstart hentries⟩

/-- Items after a first one. -/
lemma yields_consItem {n : Node} {x : Compose (List Node)} (hn : n.LiesWithin count)
    (hx : Yields count x (Node.ItemsWithin count)) :
    Yields count (do return n :: (← x)) (Node.ItemsWithin count) :=
  hx.bind fun _ hitems => .pure (List.forall_mem_cons.mpr ⟨hn, hitems⟩)

/-- Entries after a first one. -/
lemma yields_consEntry {key value : Node} {x : Compose (List (Node × Node))}
    (hkey : key.IsPlaced count) (hvalue : value.LiesWithin count)
    (hx : Yields count x (Node.EntriesWithin count)) :
    Yields count (do return (key, value) :: (← x)) (Node.EntriesWithin count) :=
  hx.bind fun _ hentries => .pure (List.forall_mem_cons.mpr ⟨⟨hkey, hvalue⟩, hentries⟩)

/-- A node that may be left out starts on a line where the place that is left does. -/
lemma yields_orEmpty {x : Compose Node} (hx : Yields count x (Node.IsPlaced count))
    (kinds : List TokenKind) {mark : Mark} {f : Node → Compose β}
    (hf : ∀ n, n.LiesWithin count → (mark.line < count → n.start.line < count) →
    Yields count (f n) good') : Yields count (do
      if ← atAny kinds then f (← emptyScalar schema mark)
      else f (← x)) good' := by
  refine (yields_atAny kinds).bind fun isEmpty _ => ?_
  split_ifs
  · exact (yields_emptyScalar mark).bind fun n hn => hf n hn.1 fun hline => hn.2 ▸ hline
  · exact hx.bind fun n hn => hf n hn.2 fun _ => hn.1

/-- A value that may be left out, with or without its indicator. -/
lemma yields_value {x : Compose Node} (hx : Yields count x (Node.IsPlaced count))
    (kinds : List TokenKind) {f : Node → Compose β}
    (hf : ∀ n, n.LiesWithin count → Yields count (f n) good') : Yields count (do
      match ← nextIf .value with
      | some v => if ← atAny kinds then f (← emptyScalar schema v.stop) else f (← x)
      | none => f (← emptyScalar schema (← peek).start)) good' := by
  refine (yields_nextIf _).bind fun v? _ => ?_
  split
  · exact yields_orEmpty hx kinds fun n hn _ => hf n hn
  · exact yields_peek.bind fun t _ => (yields_emptyScalar t.start).bind fun n hn => hf n hn.1

/-- The readers of nested nodes, with an amount of fuel, return nodes whose collections and keys are
on so many lines. -/
structure Placed (count : Nat) (schema : Schema) (fuel : Nat) : Prop where
  node : ∀ block indentless, Yields count (node schema fuel block indentless) (Node.IsPlaced count)
  blockItems : ∀ opened, Yields count (blockItems schema fuel opened) (Node.ItemsWithin count)
  indentlessItems : Yields count (indentlessItems schema fuel) (Node.ItemsWithin count)
  blockEntries : ∀ opened, Yields count (blockEntries schema fuel opened) (Node.EntriesWithin count)
  flowItems : ∀ opened isFirst,
    Yields count (flowItems schema fuel opened isFirst) (Node.ItemsWithin count)
  flowPair : ∀ t, t.Fits count → t.kind = .key →
    YieldsAt count t (flowPair schema fuel) (Node.LiesWithin count)
  flowEntries : ∀ opened isFirst,
    Yields count (flowEntries schema fuel opened isFirst) (Node.EntriesWithin count)

section step

variable {fuel : Nat}

/-- Properties and the token behind them: without properties, it is the same token. -/
lemma yieldsAt_content_bind (ht : t.Fits count) {f : Properties → Token → Compose β}
    (hf : ∀ p t', t'.Fits count → (p.start.line < count ∨ p = ⟨none, none, t'.start⟩) →
      Yields count (f p t') good') : YieldsAt count t (do
      let p ← properties
      let t' ← peek
      f p t') good' :=
  yieldsAt_properties_bind ht (fun p hp => yields_peek.bind fun t' ht' => hf p t' ht' (Or.inl hp))
    (yieldsAt_peek_bind (hf _ t ht (Or.inr rfl)).yieldsAt)

/-- A node is placed if the nodes in it are. -/
lemma yields_node (h : Placed count schema fuel) (block indentless : Bool) :
    Yields count (node schema (fuel + 1) block indentless) (Node.IsPlaced count) := by
  unfold node
  refine yields_peek_bind fun first hfirst => ?_
  split
  · refine (yields_advance.bind fun _ _ => .get_bind fun st hst => ?_).yieldsAt
    split
    · rename_i hanchor
      exact .pure (hst.anchors hanchor)
    · exact .throw _
  · refine yieldsAt_content_bind hfirst fun p t ht hp => ?_
    -- only what ends may be behind the last line
    have hstart : ∀ {k}, t.kind = k → k.isEnd = false → p.start.line < count := by
      rintro k rfl hend
      rcases hp with hp | rfl
      · exact hp
      · exact ht.start hend
    split
    · rename_i hkind
      exact (yields_openAnchor p).bind fun _ _ =>
        yields_sequence (hstart hkind rfl) h.indentlessItems
    · rename_i hkind
      exact yields_advance.bind fun _ _ => yields_scalar (hstart hkind rfl) _ _
    · rename_i hkind
      exact (yields_openAnchor p).bind fun _ _ => yields_advance.bind fun _ _ =>
        yields_sequence (hstart hkind rfl) (h.flowItems _ _)
    · rename_i hkind
      exact (yields_openAnchor p).bind fun _ _ => yields_advance.bind fun _ _ =>
        yields_mapping (hstart hkind rfl) (h.flowEntries _ _)
    · rename_i hkind
      exact (yields_openAnchor p).bind fun _ _ => yields_advance.bind fun _ _ =>
        yields_sequence (hstart hkind rfl) (h.blockItems _)
    · rename_i hkind
      exact (yields_openAnchor p).bind fun _ _ => yields_advance.bind fun _ _ =>
        yields_mapping (hstart hkind rfl) (h.blockEntries _)
    · split_ifs with hgiven
      · rcases hp with hp | rfl
        · exact yields_scalar hp _ _
        · cases hgiven
      · exact .throw _

/-- The items of a block sequence lie on lines. -/
lemma yields_blockItems (h : Placed count schema fuel) (opened : Mark) :
    Yields count (blockItems schema (fuel + 1) opened) (Node.ItemsWithin count) := by
  unfold blockItems
  refine yields_next.bind fun t _ => ?_
  split
  · exact yields_orEmpty (h.node _ _) _ fun n hn _ => yields_consItem hn (h.blockItems opened)
  · exact .pure (List.forall_mem_nil _)
  · exact .throw _

/-- So do those of one that is not indented. -/
lemma yields_indentlessItems (h : Placed count schema fuel) :
    Yields count (indentlessItems schema (fuel + 1)) (Node.ItemsWithin count) := by
  unfold indentlessItems
  refine (yields_nextIf _).bind fun t? _ => ?_
  split
  · exact yields_orEmpty (h.node _ _) _ fun n hn _ => yields_consItem hn h.indentlessItems
  · exact .pure (List.forall_mem_nil _)

/-- So do the entries of a block mapping. -/
lemma yields_blockEntries (h : Placed count schema fuel) (opened : Mark) :
    Yields count (blockEntries schema (fuel + 1) opened) (Node.EntriesWithin count) := by
  unfold blockEntries
  refine yields_next.bind fun t ht => ?_
  split
  · rename_i hkind
    refine yields_orEmpty (h.node _ _) _ fun key hkey hstart => ?_
    refine yields_value (h.node _ _) _ fun value hvalue => ?_
    exact yields_consEntry ⟨hstart (ht.stop hkind), hkey⟩ hvalue (h.blockEntries opened)
  · exact .pure (List.forall_mem_nil _)
  · exact .throw _

/-- So does a single entry in a flow sequence, which starts at its key. -/
lemma yieldsAt_flowPair (h : Placed count schema fuel) (ht : t.Fits count) (hkind : t.kind = .key) :
    YieldsAt count t (flowPair schema (fuel + 1)) (Node.LiesWithin count) := by
  unfold flowPair
  refine yieldsAt_next_bind (yields_orEmpty (h.node _ _) _ fun key hkey hstart => ?_)
  refine yields_value (h.node _ _) _ fun value hvalue => ?_
  have hentry : Node.EntriesWithin count [(key, value)] :=
    List.forall_mem_singleton.mpr ⟨⟨hstart (ht.stop hkind), hkey⟩, hvalue⟩
  have hline : t.start.line < count := ht.start (by rw [hkind]; rfl)
  exact yields_freshId.bind fun _ _ => .pure (Node.liesWithin_mapping hline hentry)

/-- So does an item of a flow sequence, with those behind it. -/
lemma yields_flowItem (h : Placed count schema fuel) (opened : Mark) :
    Yields count (flowItem schema fuel opened) (Node.ItemsWithin count) := by
  refine yields_peek_bind fun t ht => ?_
  split
  · rename_i hkind
    exact (h.flowPair t ht hkind).bind fun n hn => yields_consItem hn (h.flowItems opened false)
  · exact (yields_advance.bind fun _ _ => .pure (List.forall_mem_nil _)).yieldsAt
  · exact ((h.node _ _).bind fun n hn => yields_consItem hn.2 (h.flowItems opened false)).yieldsAt

/-- So do all items of a flow sequence. -/
lemma yields_flowItems (h : Placed count schema fuel) (opened : Mark) (isFirst : Bool) :
    Yields count (flowItems schema (fuel + 1) opened isFirst) (Node.ItemsWithin count) := by
  unfold flowItems
  refine (yields_nextIf _).bind fun ended _ => ?_
  split_ifs
  · exact .pure (List.forall_mem_nil _)
  · refine yields_next.bind fun t _ => ?_
    split_ifs
    · exact .throw_bind _
    · exact yields_flowItem h opened
  · exact yields_flowItem h opened

/-- So does an entry of a flow mapping, with those behind it. -/
lemma yields_flowEntry (h : Placed count schema fuel) (opened : Mark) :
    Yields count (flowEntry schema fuel opened) (Node.EntriesWithin count) := by
  refine yields_peek.bind fun t ht => ?_
  split
  · rename_i hkind
    refine yields_advance.bind fun _ _ => yields_orEmpty (h.node _ _) _ fun key hkey hstart => ?_
    refine yields_value (h.node _ _) _ fun value hvalue => ?_
    exact yields_consEntry ⟨hstart (ht.stop hkind), hkey⟩ hvalue (h.flowEntries opened false)
  · exact yields_advance.bind fun _ _ => .pure (List.forall_mem_nil _)
  · refine (h.node _ _).bind fun key hkey => yields_peek.bind fun t _ => ?_
    refine (yields_emptyScalar t.start).bind fun value hvalue => ?_
    exact yields_consEntry hkey hvalue.1 (h.flowEntries opened false)

/-- So do all entries of a flow mapping. -/
lemma yields_flowEntries (h : Placed count schema fuel) (opened : Mark) (isFirst : Bool) :
    Yields count (flowEntries schema (fuel + 1) opened isFirst) (Node.EntriesWithin count) := by
  unfold flowEntries
  refine (yields_nextIf _).bind fun ended _ => ?_
  split_ifs
  · exact .pure (List.forall_mem_nil _)
  · refine yields_next.bind fun t _ => ?_
    split_ifs
    · exact .throw_bind _
    · exact yields_flowEntry h opened
  · exact yields_flowEntry h opened

end step

/-- **The readers of nested nodes** place collections and keys on lines of the text, whatever the
fuel. -/
lemma placed (count : Nat) (schema : Schema) (fuel : Nat) : Placed count schema fuel := by
  induction fuel with
  | zero =>
      exact ⟨fun _ _ => .throw _, fun _ => .throw _, .throw _, fun _ => .throw _,
        fun _ _ => .throw _, fun _ _ _ => (Yields.throw _).yieldsAt, fun _ _ => .throw _⟩
  | succ fuel ih =>
      exact ⟨yields_node ih, yields_blockItems ih, yields_indentlessItems ih,
        yields_blockEntries ih,
        yields_flowItems ih, fun _ => yieldsAt_flowPair ih, yields_flowEntries ih⟩

/-! ## Documents -/

variable {fuel : Nat}

/-- Looking for a directive changes nothing. -/
lemma yields_atDirective : Yields count atDirective fun _ => True := by
  refine yields_peek.bind fun t _ => ?_
  split
  · exact .pure trivial
  · exact .pure trivial

/-- Ends of documents are passed. -/
lemma yields_skipDocumentEnds (fuel : Nat) :
    Yields count (skipDocumentEnds fuel) fun _ => True := by
  induction fuel with
  | zero => exact .pure trivial
  | succ fuel ih =>
      refine (yields_nextIf _).bind fun t? _ => ?_
      split_ifs
      · exact ih
      · exact .pure trivial

/-- Handles are no places. -/
lemma yields_setHandles (f : Composer → Assoc String String) :
    Yields count (modify fun st => { st with handles := f st } : Compose Unit) fun _ => True :=
  .modify fun _ hst => ⟨hst.tokens, hst.anchors⟩

/-- Directives are passed. -/
lemma yields_directives (fuel : Nat) (versioned : Bool) :
    Yields count (directives fuel versioned) fun _ => True := by
  induction fuel generalizing versioned with
  | zero => exact .pure trivial
  | succ fuel ih =>
      refine yields_peek.bind fun t _ => ?_
      split
      · refine yields_advance.bind fun _ _ => ?_
        split
        · split_ifs
          · exact .throw_bind _
          · exact .throw_bind _
          · exact .throw_bind _
          · exact ih true
        · refine .get_bind fun st _ => ?_
          split_ifs
          · exact .throw_bind _
          · exact (yields_setHandles _).bind fun _ _ => ih _
        · exact ih _
      · exact .pure trivial

/-- The content of an announced document has its collections and keys on so many lines. -/
lemma yields_announcedDocument? (schema : Schema) (fuel : Nat) :
    Yields count (announcedDocument? schema fuel) fun found => ∀ mark content,
      found = some (mark, content) → Yields count content (Node.LiesWithin count) := by
  refine (yields_skipDocumentEnds fuel).bind fun _ _ => yields_peek.bind fun first _ => ?_
  split_ifs
  · exact .pure nofun
  · refine (yields_setHandles _).bind fun _ _ => (yields_directives fuel false).bind fun _ _ =>
      (yields_setHandles _).bind fun _ _ => yields_next.bind fun t _ => ?_
    split_ifs
    · exact .throw_bind _
    · refine .pure ?_
      rintro mark content ⟨⟩
      refine yields_atDirective.bind fun directed _ => (yields_atAny _).bind fun ended _ => ?_
      split_ifs
      · exact yields_peek.bind fun t _ => (yields_emptyScalar t.start).mono fun _ => And.left
      · exact ((placed count schema fuel).node true false).mono fun _ => And.right

/-- What comes after a document does not change it. -/
lemma yields_documentEnd {root : Node} (schema : Schema) (fuel : Nat)
    (hroot : root.LiesWithin count) :
    Yields count (documentEnd schema fuel root) fun root? => ∀ root, root? = some root →
      root.LiesWithin count := by
  refine (yields_nextIf _).bind fun _ _ =>
    (yields_announcedDocument? schema fuel).bind fun found _ => ?_
  split
  · refine .pure ?_
    rintro _ ⟨⟩
    exact hroot
  · exact .throw _

/-- The document of a text lies on lines. -/
lemma yields_document (schema : Schema) (fuel : Nat) :
    Yields count (document schema fuel) fun root? =>
    ∀ root, root? = some root → root.LiesWithin count := by
  unfold document
  refine yields_atDirective.bind fun directed _ => (yields_atAny _).bind fun ended _ => ?_
  dsimp only
  split_ifs
  · refine (yields_setHandles _).bind fun _ _ =>
      ((placed count schema fuel).node true false).bind fun root hroot => ?_
    rw [pure_bind]
    exact yields_documentEnd schema fuel hroot.2
  · refine (yields_announcedDocument? schema fuel).bind fun found hfound => ?_
    split
    · rw [pure_bind]
      exact .pure nofun
    · refine (hfound _ _ rfl).bind fun root hroot => ?_
      rw [pure_bind]
      exact yields_documentEnd schema fuel hroot

end Compose

/-- **A tree that was composed** has its collections and keys on the lines of the text. -/
theorem Node.liesWithin_of_parse {schema : Schema} {passage : Passage} {root : Node}
    (h : Node.parse schema passage = .ok (some root)) :
    root.LiesWithin (Text.lines passage.text).length := by
  have htokens := Token.fits_of_mem_scan passage
  obtain ⟨fuel, st, hrun⟩ := exists_run_of_parse h
  generalize Token.scan passage = stream at hrun htokens
  have hstart : (⟨stream.tokens, stream.failure, [], [], 0⟩ : Composer).Fits
      (Text.lines passage.text).length :=
    ⟨htokens, nofun⟩
  exact (Compose.yields_document schema fuel _ _ st hstart hrun).2 root rfl

end PipelineAudit.Yaml
