import PipelineAudit.Proofs.Yaml.Transparency
import PipelineAudit.Proofs.Yaml.Turns

/-!
# Texts that positions refuse

Recording positions goes along with a look at the keys of each mapping, and a mapping with a
repeated key is refused. The look comes at the turn of the mapping, before its own merge keys are
expanded, so that a key which overrides a merged one should not count as a repetition. If the
mapping was merged into another one whose turn came before, though, it has been expanded by then,
and the key does count.

The main result is `Yaml.exists_load_iff_repeatsNoKey`: of the texts that can be read without
positions, those can be read with positions whose mappings repeat no key in this sense
(`Yaml.Node.RepeatsNoKey`), and all others are refused because of a key that a mapping offers twice.
It follows the filling turn by turn (`Yaml.Build.fillAll_cases`). `Yaml.exists_refused_override` is
a text where no mapping is written with a repeated key, and that is refused for an overridden one.
-/

namespace PipelineAudit

namespace Yaml

namespace Node

/-- Whether a node and all nodes in it pass a test; `depth` bounds the nesting. -/
def all (p : Node → Bool) : Nat → Node → Bool
  | 0, _ => false
  | depth + 1, n => p n && n.parts.all (all p depth)

/-- What holds of all nodes holds of those within. -/
lemma Within.of_all {p : Node → Bool} {depth : Nat} {m root : Node} (hm : m.Within root)
    (h : root.all p depth = true) : p m = true := by
  induction depth generalizing root with
  | zero => cases h
  | succ depth ih =>
      rw [all, Bool.and_eq_true, List.all_eq_true] at h
      rcases Relation.ReflTransGen.cases_tail hm with rfl | ⟨k, hk, hpart⟩
      · exact h.1
      · exact ih hk (h.2 k hpart)

/-- A mapping repeats no key when its turn has come after some others: none that is written in it,
and none that it offers if it has been merged before. -/
structure IsFineAfter (m : Node) (earlier : List Node) : Prop where
  written : (keyTexts m.written).Nodup
  offered : m.IsMergedBefore earlier → (keyTexts m.offers).Nodup

/-- A mapping is refused after some turns: it repeats a key, and the error names a key that the
mapping offers twice. -/
structure IsRefusedAfter (m : Node) (earlier : List Node) (e : Error) : Prop where
  tag : m.tag = Tag.map
  not_fine : ¬m.IsFineAfter earlier
  error : ∃ key mark, List.Duplicate key (keyTexts m.offers) ∧
    e = .within (.duplicateKey key) m.start mark

/-- The mappings of a tree repeat no key when their turns come. -/
def RepeatsNoKey (root : Node) : Prop :=
  ∀ earlier m later, root.turns = earlier ++ m :: later → m.tag = Tag.map → m.IsFineAfter earlier

end Node

namespace Builder

variable {b : Builder} {root : Node} {done rest : List Node} {info : NodeInfo}
    {own : List (Node × Node)}

/-- The merge keys of a mapping are told by the tags that are written, also when its turn has
begun. -/
lemma IsSound.tagOf_eq_merge_iff (hb : b.IsSound root) (hroot : root.IsNumbered)
    (hn : (Node.mapping info own).Within root) :
    ∀ e ∈ b.entriesOf info.id own, tagOf { b with waiting := rest } e.1 = Tag.merge ↔
      e.1.tag = Tag.merge :=
  fun _ he =>
    hb.tagOf_eq_iff hroot (hb.within_of_mem_entriesOf hroot hn he).1 Tag.merge
      (by decide) (by decide)

/-- **The look at the keys of a mapping** finds none that is repeated exactly if the mapping is fine
after the turns that came before. -/
lemma Follows.repeatedKey?_eq_none_iff (h : b.Follows root done) (hroot : root.IsNumbered)
    (hwaiting : b.waiting = .mapping info own :: rest) :
    Build.repeatedKey? { b with waiting := rest } [] (b.entriesOf info.id own) = none ↔
      (Node.mapping info own).IsFineAfter done := by
  have hn := (h.waiting _ (hwaiting ▸ List.mem_cons_self)).1
  obtain ⟨hmerged, hplain⟩ := h.entriesOf_eq hroot hwaiting
  rw [Build.repeatedKey?_eq_none_iff info (h.tagOf_eq_merge_iff hroot hn)]
  by_cases hbefore : Node.IsMergedBefore done (.mapping info own)
  · rw [hmerged hbefore, Node.written_offers]
    have hsublist := keyTexts_sublist (Node.mapping info own).written_sublist_offers
    exact ⟨fun hkeys => ⟨hkeys.1.sublist hsublist, fun _ => hkeys.1⟩,
      fun hfine => ⟨hfine.offered hbefore, nofun⟩⟩
  · rw [hplain hbefore]
    exact ⟨fun hkeys => ⟨hkeys.1, fun hmerged => absurd hmerged hbefore⟩,
      fun hfine => ⟨hfine.written, nofun⟩⟩

/-- A key that the look at a mapping finds is one that the mapping offers twice. -/
lemma Follows.duplicate_of_repeatedKey? (h : b.Follows root done) (hroot : root.IsNumbered)
    (hwaiting : b.waiting = .mapping info own :: rest) {key : String} {mark : Mark}
    (hlook : Build.repeatedKey? { b with waiting := rest } [] (b.entriesOf info.id own) =
      some (key, mark)) :
    List.Duplicate key (keyTexts (Node.mapping info own).offers) := by
  have hn := (h.waiting _ (hwaiting ▸ List.mem_cons_self)).1
  have hsublist := keyTexts_sublist (Node.mapping info own).written_sublist_offers
  rcases Build.duplicate_of_repeatedKey? info (h.tagOf_eq_merge_iff hroot hn)
      hlook with ⟨hseen, -⟩ | hdup
  · cases hseen
  · rcases h.entriesOf_cases hroot hn with heq | heq
    · rw [heq] at hdup
      exact hdup.mono_sublist hsublist
    · rwa [heq, Node.written_offers] at hdup

end Builder

/-! ## Filling with a look at the keys -/

namespace Build

variable {schema : Schema} {b b' : Builder} {root n : Node} {u : Unit}

/-- A mapping that has no repeated key is filled as it is without positions. -/
lemma run_fill_of_look {r : Unit × Builder} (h : (fill schema.withoutPositions n).run b = .ok r)
    (hlook : ∀ info own, n = .mapping info own → b.tagOf n = Tag.map →
      repeatedKey? b [] (b.entriesOf info.id own) = none) : (fill schema n).run b = .ok r := by
  by_cases hmap : b.tagOf n = Tag.map
  · rw [run_fill_of_map hmap] at h ⊢
    cases n with
    | scalar info text => cases h
    | sequence info items => cases h
    | mapping info own =>
        unfold fillMapping at h ⊢
        rw [StateT.run_bind] at h ⊢
        obtain ⟨⟨_, _⟩, hget, h⟩ := bind_eq_ok.mp h
        cases hget
        refine bind_eq_ok.mpr ⟨(b, b), rfl, ?_⟩
        dsimp only at h ⊢
        rw [hlook info own rfl hmap]
        split_ifs
        · exact h
        · exact h
  · exact (run_fill_of_not_map hmap).symm.trans h

/-- A mapping that has a repeated key is refused. -/
lemma run_fill_of_repeatedKey? (hpositions : schema.positions = true) {info : NodeInfo}
    {own : List (Node × Node)} {key : String} {mark : Mark}
    (hmap : b.tagOf (.mapping info own) = Tag.map)
    (hlook : repeatedKey? b [] (b.entriesOf info.id own) = some (key, mark)) :
    (fill schema (.mapping info own)).run b =
      .error (.within (.duplicateKey key) info.start mark) := by
  rw [run_fill_of_map hmap, fillMapping]
  change (if schema.positions = true then _ else _ : Build Unit).run b = _
  rw [if_pos hpositions, hlook]
  rfl

/-- **One turn with and without a look at the keys.** -/
lemma fill_cases (hroot : root.IsNumbered) (hpositions : schema.positions = true)
    {done rest : List Node} (h : b.Follows root done) (hwaiting : b.waiting = n :: rest)
    (hrun : (fill schema.withoutPositions n).run { b with waiting := rest } = .ok (u, b')) :
    (n.tag = Tag.map → n.IsFineAfter done) ∧
      (fill schema n).run { b with waiting := rest } = .ok (u, b') ∨
      ∃ e, n.IsRefusedAfter done e ∧ (fill schema n).run { b with waiting := rest } = .error e := by
  have hn := (h.toIsSound.waiting n (hwaiting ▸ List.mem_cons_self)).1
  have hmap : Builder.tagOf { b with waiting := rest } n = Tag.map ↔ n.tag = Tag.map :=
    h.tagOf_eq_iff hroot hn Tag.map (by decide) (by decide)
  by_cases htag : n.tag = Tag.map
  · cases n with
    | scalar info text =>
        rw [run_fill_of_map (hmap.mpr htag)] at hrun
        cases hrun
    | sequence info items =>
        rw [run_fill_of_map (hmap.mpr htag)] at hrun
        cases hrun
    | mapping info own =>
        cases hlook : repeatedKey? { b with waiting := rest } [] (b.entriesOf info.id own) with
        | none =>
            have hfine := (h.repeatedKey?_eq_none_iff hroot hwaiting).mp hlook
            refine Or.inl ⟨fun _ => hfine, run_fill_of_look hrun ?_⟩
            rintro _ _ ⟨⟩ -
            exact hlook
        | some found =>
            have hrefused := run_fill_of_repeatedKey? hpositions (hmap.mpr htag) hlook
            refine Or.inr ⟨_, ⟨htag, fun hfine => ?_, found.1, found.2, ?_, rfl⟩, hrefused⟩
            · rw [(h.repeatedKey?_eq_none_iff hroot hwaiting).mpr hfine] at hlook
              cases hlook
            · exact h.duplicate_of_repeatedKey? hroot hwaiting hlook
  · refine Or.inl ⟨fun h => absurd h htag, run_fill_of_look hrun fun _ _ _ hmap' => ?_⟩
    exact absurd (hmap.mp hmap') htag

/-- **Filling with and without a look at the keys.** What can be filled without positions is filled
in the same way with them, if all mappings are fine when their turns come; or one is not, and it is
refused. -/
lemma fillAll_cases (hroot : root.IsNumbered) (hpositions : schema.positions = true)
    {done : List Node} {rounds : Nat} (h : b.Follows root done)
    (hrun : (fillAll schema.withoutPositions rounds).run b = .ok (u, b')) :
    (∀ earlier m later, Node.turnsFrom rounds b.queue = earlier ++ m :: later → m.tag = Tag.map →
        m.IsFineAfter (done ++ earlier)) ∧ (fillAll schema rounds).run b = .ok (u, b') ∨
      ∃ earlier m later e, Node.turnsFrom rounds b.queue = earlier ++ m :: later ∧
        m.IsRefusedAfter (done ++ earlier) e ∧ (fillAll schema rounds).run b = .error e := by
  induction rounds generalizing b done with
  | zero => exact Or.inl ⟨by simp [Node.turnsFrom], hrun⟩
  | succ rounds ih =>
      cases hwaiting : b.waiting with
      | nil =>
          have hturns : Node.turnsFrom (rounds + 1) b.queue = [] := by
            rw [Builder.queue, hwaiting, Node.turnsFrom]
          rw [run_fillAll_of_nil hwaiting] at hrun ⊢
          exact Or.inl ⟨by simp [hturns], hrun⟩
      | cons n rest =>
          rw [run_fillAll_of_cons hwaiting] at hrun
          obtain ⟨⟨_, b₁⟩, hfill, hlater⟩ := bind_eq_ok.mp hrun
          obtain ⟨h₁, hqueue⟩ := h.of_fill hroot hwaiting hfill
          have hturns : Node.turnsFrom (rounds + 1) b.queue = n ::
              Node.turnsFrom rounds b₁.queue := by
            rw [hqueue, Builder.queue, hwaiting, Node.turnsFrom]
          rw [hturns, run_fillAll_of_cons hwaiting]
          rcases fill_cases hroot hpositions h hwaiting hfill with ⟨hfine, hok⟩ | ⟨e,
              hrefused, herror⟩
          · rcases ih h₁ hlater with ⟨hall, hok'⟩ | ⟨earlier, m, later, e, hsplit, hrefused, herror⟩
            · refine Or.inl ⟨fun earlier m later hsplit htag => ?_, bind_eq_ok.mpr ⟨_, hok, hok'⟩⟩
              rcases List.cons_eq_append_iff.mp hsplit with ⟨rfl, heq⟩ | ⟨before, rfl, htail⟩
              · cases heq
                rw [List.append_nil]
                exact hfine htag
              · have hm := hall before m later htail htag
                rwa [List.append_assoc, List.singleton_append] at hm
            · refine Or.inr ⟨n :: earlier, m, later, e, ?_, ?_, ?_⟩
              · rw [hsplit, List.cons_append]
              · rwa [List.append_assoc, List.singleton_append] at hrefused
              · rw [hok]
                exact herror
          · rw [herror]
            exact Or.inr ⟨[], n, _, e, rfl, by rwa [List.append_nil], rfl⟩

end Build

/-- A tree that can be filled without positions is filled in the same way with them if its mappings
repeat no key, and otherwise one of them is refused. -/
lemma Builder.ofRoot_cases {schema : Schema} {root : Node} {b : Builder} (hroot : root.IsNumbered)
    (hpositions : schema.positions = true) (h : ofRoot schema.withoutPositions root = .ok b) :
    root.RepeatsNoKey ∧ ofRoot schema root = .ok b ∨
      ∃ earlier m later e, root.turns = earlier ++ m :: later ∧ m.IsRefusedAfter earlier e ∧
        ofRoot schema root = .error e := by
  obtain ⟨b₁, hmeet, hrun⟩ := exists_of_ofRoot h
  obtain ⟨hfollows, hqueue⟩ := follows_of_meetNode hroot hmeet
  have hturns : Node.turnsFrom root.reach b₁.queue = root.turns := by rw [hqueue, Node.turns]
  rw [ofRoot_of_meetNode hmeet]
  unfold Node.RepeatsNoKey
  rw [← hturns]
  rcases Build.fillAll_cases hroot hpositions hfollows hrun with
    ⟨hfine, hok⟩ | ⟨earlier, m, later, e, hsplit, hrefused, herror⟩
  · exact Or.inl ⟨hfine, bind_eq_ok.mpr ⟨_, hok, rfl⟩⟩
  · refine Or.inr ⟨earlier, m, later, e, hsplit, hrefused, ?_⟩
    rw [herror]
    rfl

/-! ## Reading a text -/

/-- **The texts that positions refuse.** Of the texts that can be read without positions, those can
be read with them whose mappings repeat no key when their turns come. A key counts if it is written
in a mapping, and if it is merged into it when the mapping has itself been merged before its turn.
All other texts are refused for a key that a mapping offers twice. -/
theorem exists_load_iff_repeatsNoKey {text : String} {w : Value}
    (h : load Schema.pipeline.withoutPositions text = .ok w) :
    ((∃ v, load .pipeline text = .ok v) ↔
      ∀ root, Node.parse .pipeline (Passage.ofText text) = .ok (some root) → root.RepeatsNoKey) ∧
    ∀ e, load .pipeline text = .error e →
      ∃ root earlier m later, Node.parse .pipeline (Passage.ofText text) = .ok (some root) ∧
        root.turns = earlier ++ m :: later ∧ m.IsRefusedAfter earlier e := by
  rcases load_cases h with ⟨hparse, rfl⟩ | ⟨root, b, hparse, hroot, hb, -, hv⟩
  · rw [Node.parse_withoutPositions] at hparse
    have hload : load .pipeline text = .ok .null := bind_eq_ok.mpr ⟨none, hparse, rfl⟩
    refine ⟨⟨fun _ root hroot => ?_, fun _ => ⟨.null, hload⟩⟩, fun e he => ?_⟩
    · cases hparse.symm.trans hroot
    · cases hload.symm.trans he
  · rw [Node.parse_withoutPositions] at hparse
    have hunique : ∀ root', Node.parse .pipeline (Passage.ofText text) = .ok (some root') →
        root' = root :=
      fun root' hparse' => Option.some.inj (Except.ok.inj (hparse'.symm.trans hparse))
    have hpositions : Schema.pipeline.positions = true := rfl
    rcases Builder.ofRoot_cases hroot hpositions hb with
      ⟨hfine, hok⟩ | ⟨earlier, m, later, e, hsplit, hrefused, herror⟩
    · obtain ⟨v, hv⟩ : ∃ v, b.value .pipeline root.reach root = .ok v :=
        Builder.exists_value_of_value hv
      have hload : load .pipeline text = .ok v :=
        bind_eq_ok.mpr ⟨some root, hparse, bind_eq_ok.mpr ⟨b, hok, hv⟩⟩
      refine ⟨⟨fun _ root' hparse' => hunique root' hparse' ▸ hfine, fun _ => ⟨v, hload⟩⟩,
        fun e he => ?_⟩
      cases hload.symm.trans he
    · have hload : load .pipeline text = .error e := by
        unfold load Passage.load
        rw [hparse]
        change (Builder.ofRoot .pipeline root >>= _) = _
        rw [herror]
        rfl
      refine ⟨⟨?_, fun hfine => ?_⟩, fun e' he' => ?_⟩
      · rintro ⟨v, hv⟩
        cases hload.symm.trans hv
      · exact absurd (hfine root hparse earlier m later hsplit hrefused.tag) hrefused.not_fine
      · cases hload.symm.trans he'
        exact ⟨root, earlier, m, later, hparse, hsplit, hrefused⟩

/-- A mapping in a list overrides the key `stage` of one that it merges, and is merged into another
one. -/
def nestedSource : String :=
  "a: &a \x7bstage: build\x7d\nb:\n- &b \x7b<<: *a, stage: test\x7d\nc:\n  <<: *b\n"

/-- The same mappings, with none of them in a list. -/
def flatSource : String :=
  "a: &a \x7bstage: build\x7d\nb: &b \x7b<<: *a, stage: test\x7d\nc:\n  <<: *b\n"

/-- The key `stage` of the merged mapping counts where this mapping is in a list. -/
lemma load_nestedSource :
    load .pipeline nestedSource =
      .error (.within (.duplicateKey "stage") ⟨26, 2, 2⟩ ⟨38, 2, 14⟩) := by
  have hload : ((load .pipeline nestedSource).map fun _ => ()) =
      .error (.within (.duplicateKey "stage") ⟨26, 2, 2⟩ ⟨38, 2, 14⟩) := by
    decide +kernel
  exact map_eq_error.mp hload

/-- This text is loaded. -/
lemma exists_load_nestedSource :
    ∃ w, load Schema.pipeline.withoutPositions nestedSource = .ok w := by
  obtain ⟨w, hw, -⟩ : ∃ w, load Schema.pipeline.withoutPositions nestedSource = .ok w ∧ True :=
    exists_ok_of_any (by decide +kernel)
  exact ⟨w, hw⟩

/-- Where no mapping is in a list, none repeats a key, and the text can be read; where one is, its
turn comes after that of the mapping into which it is merged, and it does repeat a key. -/
theorem repeatsNoKey_flatSource :
    (∃ w v root, load Schema.pipeline.withoutPositions flatSource = .ok w ∧
      load .pipeline flatSource = .ok v ∧
        Node.parse .pipeline (Passage.ofText flatSource) = .ok (some root) ∧ root.RepeatsNoKey) ∧
      ∃ w root, load Schema.pipeline.withoutPositions nestedSource = .ok w ∧
        Node.parse .pipeline (Passage.ofText nestedSource) = .ok (some root) ∧
          ¬root.RepeatsNoKey := by
  constructor
  · obtain ⟨v, hv, hmap⟩ : ∃ v, load .pipeline flatSource = .ok v ∧ v.isMap = true :=
      exists_ok_of_any (by decide +kernel)
    obtain ⟨w, hw⟩ := exists_load_of_load hv
    rcases load_cases hv with ⟨-, rfl⟩ | ⟨root, -, hroot, -⟩
    · cases hmap
    · exact ⟨w, v, root, hw, hv, hroot, (exists_load_iff_repeatsNoKey hw).1.mp ⟨v, hv⟩ root hroot⟩
  · obtain ⟨w, hw⟩ := exists_load_nestedSource
    obtain ⟨-, hrefused⟩ := exists_load_iff_repeatsNoKey hw
    obtain ⟨root, earlier, m, later, hroot, hsplit, hm⟩ := hrefused _ load_nestedSource
    exact ⟨w, root, hw, hroot, fun hfine => hm.not_fine (hfine earlier m later hsplit hm.tag)⟩

/-- The key is overridden, and no key is written twice in a mapping; this text is refused all the
same, though it can be read without positions. -/
theorem exists_refused_override :
    ∃ root w, Node.parse .pipeline (Passage.ofText nestedSource) = .ok (some root) ∧
    (∀ n : Node, n.Within root → (keyTexts n.written).Nodup) ∧
    load Schema.pipeline.withoutPositions nestedSource = .ok w ∧
    load .pipeline nestedSource =
      .error (.within (.duplicateKey "stage") ⟨26, 2, 2⟩ ⟨38, 2, 14⟩) := by
  obtain ⟨root?, hparse, hall⟩ : ∃ root?,
      Node.parse .pipeline (Passage.ofText nestedSource) = .ok root? ∧
      root?.any (fun root => root.all (fun n => decide (keyTexts n.written).Nodup) root.reach) =
        true :=
    exists_ok_of_any (by decide +kernel)
  obtain ⟨w, hw⟩ := exists_load_nestedSource
  cases root? with
  | none => cases hall
  | some root =>
      exact ⟨root, w, hparse, fun n hn => of_decide_eq_true (hn.of_all hall), hw, load_nestedSource⟩

end Yaml

end PipelineAudit
