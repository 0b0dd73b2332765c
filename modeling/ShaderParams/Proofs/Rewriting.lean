import ShaderParams.Proofs.Run

/-!
This module contains the text that an extraction writes: the words of the document with the edits of
the params block and of what is found behind it.
-/

namespace ShaderParams

/--
The edits of a document with a params block `b` at the place `c`.
-/
def script (o : Options) (sliders : List Slider) (c : Context) (b : Node) : List Edit :=
  .keep (Node.listWords c.earlier) ::
    (Node.blockEdits o.layout b ++ (c.survey o sliders b).map Finding.edit)

/-- Whether an edit changes anything. -/
def Edit.changes : Edit → Bool
  | keep _ => false
  | drop _ | swap .. => true

/-!
A script is about all words of a document, in their order.
-/

namespace Node

variable (new : Node)

mutual

theorem old_layoutEdits : (q : Node) → (layoutEdits new q).flatMap Edit.old = q.words
  | mk l cs => by
    rw [layoutEdits]
    by_cases hlayout : l.isLayout
    · simp [hlayout, Edit.old]
    · by_cases hwrapper : l.isWrapper && !l.isToken
      · have hl : ¬ l.isToken := by simp_all
        rw [if_neg hlayout, if_pos hwrapper, words_mk, if_neg hl, old_firstLayoutEdits]
      · rw [if_neg hlayout, if_neg hwrapper]
        simp [Edit.old]

theorem old_firstLayoutEdits :
    (cs : List Node) → (firstLayoutEdits new cs).flatMap Edit.old = listWords cs
  | [] => rfl
  | c :: cs => by
    rw [firstLayoutEdits]
    split
    · rw [List.flatMap_cons, old_firstLayoutEdits cs, listWords_cons]
      rfl
    · rw [List.flatMap_append, old_layoutEdits c, listWords_cons]
      simp [Edit.old]

end

theorem old_qualifierEdits (cs : List Node) :
    (qualifierEdits new cs).flatMap Edit.old = listWords cs := by
  induction cs with
  | nil => rfl
  | cons c cs ih =>
    have hkeep : (Edit.keep c.words :: qualifierEdits new cs).flatMap Edit.old =
        listWords (c :: cs) := by
      rw [List.flatMap_cons, ih, listWords_cons]
      rfl
    rw [qualifierEdits]
    split
    · exact hkeep
    · split
      · simp [Edit.old]
      · split
        · simp [old_layoutEdits, Edit.old]
        · exact hkeep

theorem listWords_eq_flatMap (cs : List Node) : listWords cs = cs.flatMap words := by
  induction cs with
  | nil => rfl
  | cons c cs ih => rw [listWords_cons, ih, List.flatMap_cons]

theorem old_fieldEdits (n : Node) : n.fieldEdits.flatMap Edit.old = n.words := by
  cases n with
  | mk l cs =>
    rw [fieldEdits, words_mk]
    split
    · simp [Edit.old]
    · have hold : ∀ m : Node × Bool,
          (if m.2 then Edit.drop m.1.words else Edit.keep m.1.words).old = m.1.words := by
        intro m
        split <;> rfl
      rw [List.flatMap_map]
      simp only [hold]
      rw [listWords_eq_flatMap, ← map_fst_markQualifiers label cs, List.flatMap_map,
        map_fst_markQualifiers]

theorem old_memberEdits (cs : List Node) : (memberEdits cs).flatMap Edit.old = listWords cs := by
  induction cs with
  | nil => rfl
  | cons c cs ih =>
    rw [memberEdits, List.flatMap_cons, List.flatMap_append, ← memberEdits, ih, listWords_cons]
    congr 1
    split
    · apply old_fieldEdits
    · simp [Edit.old]

theorem old_fieldListEdits (n : Node) : n.fieldListEdits.flatMap Edit.old = n.words := by
  cases n with
  | mk l cs =>
    rw [fieldListEdits, words_mk]
    split
    · simp [Edit.old]
    · apply old_memberEdits

theorem old_blockEdits {n : Node} (hwf : n.WellFormed) (hblock : n.isBlock) :
    (blockEdits new n).flatMap Edit.old = n.words := by
  obtain ⟨front, list, behind, hsplit, hfront, hlist⟩ := exists_fieldList hblock
  cases n with
  | mk l cs =>
    rw [children] at hsplit
    subst hsplit
    have hl := hwf.not_isToken (by simp)
    rw [blockEdits_append new l hfront hlist, words_mk, if_neg hl, List.flatMap_append,
      List.flatMap_append, old_qualifierEdits, old_fieldListEdits]
    simp [Edit.old]

end Node

mutual

theorem old_survey (o : Options) (sliders : List Slider) :
    (n : Node) → (outer : List Node) → n.WellFormed →
      ((survey o sliders outer n).map Finding.edit).flatMap Edit.old = n.words
  | .mk l cs, outer => by
    intro hwf
    rw [survey]
    split
    · simp [Finding.edit, Edit.old]
    · split
      · simp [Finding.edit, Edit.old]
      · have hcs := old_surveyAmong o sliders cs [] fun c hc => hwf.of_mem hc
        rw [List.map_append, List.flatMap_append, hcs, Node.words_mk]
        by_cases hl : l.isToken
        · cases hwf.children_eq_nil hl
          simp [hl, Finding.edit, Edit.old]
        · simp [hl]

theorem old_surveyAmong (o : Options) (sliders : List Slider) :
    (cs left : List Node) → (∀ c ∈ cs, c.WellFormed) →
      ((surveyAmong o sliders left cs).map Finding.edit).flatMap Edit.old = Node.listWords cs
  | [], left => by
    intro _
    rfl
  | c :: cs, left => by
    intro hwf
    rw [surveyAmong, List.map_append, List.flatMap_append, Node.listWords_cons,
      old_survey o sliders c left (hwf c List.mem_cons_self),
      old_surveyAmong o sliders cs _ fun d hd => hwf d (List.mem_cons_of_mem _ hd)]

end

theorem Context.words_plug (o : Options) (sliders : List Slider) (c : Context) {n : Node}
    (hwf : (c.plug n).WellFormed) :
    (c.plug n).words = Node.listWords c.earlier ++
      (n.words ++ ((c.survey o sliders n).map Finding.edit).flatMap Edit.old) := by
  induction c with
  | root => simp [plug, earlier, survey]
  | child l left right c ih =>
    have hl : ¬ l.isToken := hwf.not_isToken (by simp)
    have hright := old_surveyAmong o sliders right (left ++ [c.plug n])
      fun d hd => hwf.of_mem (by simp [plug, Node.children, hd])
    rw [plug, Node.words_mk, if_neg hl, Node.listWords_append, Node.listWords_cons,
      ih (hwf.of_mem (by simp [plug, Node.children])), survey, List.map_append,
      List.flatMap_append, hright]
    simp [earlier]

/-!
Of a params block the layout is replaced, and the qualifiers of its fields are removed.
-/

namespace Node

variable (new : Node)

mutual

theorem changes_layoutEdits : (q : Node) → q.WellFormed →
    (layoutEdits new q).filter Edit.changes =
      q.layout?.toList.map fun layout => .swap layout.words new.words
  | mk l cs => by
    intro hwf
    rw [layoutEdits, layout?]
    by_cases hlayout : l.isLayout
    · simp [hlayout, Edit.changes]
    · rw [if_neg hlayout, if_neg hlayout]
      by_cases hwrapper : l.isWrapper
      · by_cases hl : l.isToken
        · cases hwf.children_eq_nil hl
          simp [hwrapper, hl, firstLayout?, Edit.changes]
        · simp only [hwrapper, hl, Bool.not_false, Bool.and_self, ↓reduceIte]
          apply changes_firstLayoutEdits cs fun c hc => hwf.of_mem hc
      · simp [hwrapper, Edit.changes]

theorem changes_firstLayoutEdits : (cs : List Node) → (∀ c ∈ cs, c.WellFormed) →
    (firstLayoutEdits new cs).filter Edit.changes =
      (firstLayout? cs).toList.map fun layout => .swap layout.words new.words
  | [] => by
    intro _
    rfl
  | c :: cs => by
    intro hwf
    rw [firstLayoutEdits, firstLayout?]
    split
    · apply changes_firstLayoutEdits cs fun d hd => hwf d (List.mem_cons_of_mem _ hd)
    · rw [List.filter_append, changes_layoutEdits c (hwf c List.mem_cons_self)]
      simp [Edit.changes]

end

theorem changes_qualifierEdits {cs : List Node} {q : Node}
    (h : (qualifiers label cs).head? = some q) :
    (qualifierEdits new cs).filter Edit.changes = (layoutEdits new q).filter Edit.changes := by
  induction cs with
  | nil => cases h
  | cons c cs ih =>
    rw [qualifiers_cons] at h
    rw [qualifierEdits]
    split
    · next hcomment =>
      rw [if_pos hcomment] at h
      exact ih h
    · next hcomment =>
      rw [if_neg hcomment] at h
      split
      · next hends =>
        rw [if_pos hends] at h
        cases h
      · next hends =>
        rw [if_neg hends] at h
        split
        · next hc =>
          rw [if_pos hc] at h
          cases h
          simp [Edit.changes]
        · next hc =>
          rw [if_neg hc] at h
          exact ih h

/-- The removals of the qualifiers of a field. -/
def removals (field : Node) : List Edit :=
  field.fieldQualifiers.map fun q => .drop q.words

theorem changes_fieldEdits {n : Node} (hwf : n.WellFormed) :
    n.fieldEdits.filter Edit.changes = n.removals := by
  cases n with
  | mk l cs =>
    rw [fieldEdits, removals, fieldQualifiers, children]
    by_cases hl : l.isToken
    · cases hwf.children_eq_nil hl
      rw [if_pos hl]
      rfl
    · rw [if_neg hl, qualifiers]
      generalize markQualifiers label cs = ms
      induction ms with
      | nil => rfl
      | cons m ms ih =>
        rcases m with ⟨c, _ | _⟩
        · exact ih
        · exact congrArg (.drop c.words :: ·) ih

theorem changes_memberEdits {cs : List Node} (hwf : ∀ c ∈ cs, c.WellFormed) :
    (memberEdits cs).filter Edit.changes = (cs.filter isField).flatMap removals := by
  induction cs with
  | nil => rfl
  | cons c cs ih =>
    rw [memberEdits, List.flatMap_cons, List.filter_append, ← memberEdits,
      ih fun d hd => hwf d (List.mem_cons_of_mem _ hd), List.filter_cons]
    by_cases hc : c.isField
    · rw [if_pos hc, if_pos hc, changes_fieldEdits (hwf c List.mem_cons_self), List.flatMap_cons]
    · rw [if_neg hc, if_neg hc]
      rfl

theorem changes_fieldListEdits {n : Node} (hwf : n.WellFormed) :
    n.fieldListEdits.filter Edit.changes = (n.children.filter isField).flatMap removals := by
  cases n with
  | mk l cs =>
    rw [fieldListEdits, children]
    by_cases hl : l.isToken
    · cases hwf.children_eq_nil hl
      rw [if_pos hl]
      rfl
    · rw [if_neg hl]
      apply changes_memberEdits fun c hc => hwf.of_mem hc

theorem qualifiers_append_of_ends {c : Node} (cs ds : List Node)
    (hcomment : c.label.isComment = false) (hends : c.label.endsQualifiers) :
    qualifiers label (cs ++ c :: ds) = qualifiers label cs := by
  induction cs with
  | nil =>
    rw [List.nil_append, qualifiers_cons, if_neg (by simp [hcomment]), if_pos hends]
    rfl
  | cons d cs ih => rw [List.cons_append, qualifiers_cons, qualifiers_cons, ih]

theorem changes_blockEdits {n q : Node} (hwf : n.WellFormed) (hblock : n.isBlock)
    (hq : (qualifiers label n.children).head? = some q) :
    (blockEdits new n).filter Edit.changes =
      (q.layout?.toList.map fun layout => .swap layout.words new.words) ++
        n.fields.flatMap removals := by
  obtain ⟨front, list, behind, hsplit, hfront, hlist⟩ := exists_fieldList hblock
  cases n with
  | mk l cs =>
    rw [children] at hsplit
    subst hsplit
    obtain ⟨hends, hcomment⟩ := endsQualifiers_of_isFieldList hlist
    have hmem := mem_of_mem_qualifiers label (List.mem_of_head? hq)
    rw [children, qualifiers_append_of_ends _ _ hcomment hends] at hq
    have hfields : (mk l (front ++ list :: behind)).fields = list.children.filter isField :=
      fields_eq (memberList?_append l hfront hlist)
    rw [blockEdits_append new l hfront hlist, List.filter_append, List.filter_append,
      changes_qualifierEdits new hq, changes_layoutEdits new q (hwf.of_mem hmem),
      changes_fieldListEdits (hwf.of_mem (by simp [children])), hfields]
    simp [Edit.changes]

end Node

/--
A block has qualifiers of its own, or there are none in front of it.
-/
def SelfQualified (preceding : List Node) (n : Node) : Prop :=
  n.isBlock → qualifiers Node.label n.children ≠ [] ∨ qualifiers Node.label preceding = []

instance (preceding : List Node) (n : Node) : Decidable (SelfQualified preceding n) :=
  inferInstanceAs (Decidable (n.isBlock → _ ∨ _))

theorem SelfQualified.settled {preceding : List Node} {n : Node} (h : SelfQualified preceding n) :
    Settled preceding n := by
  intro hblock hown q hq
  rcases h hblock with h | h
  · exact absurd hown h
  · rw [h] at hq
    cases hq

theorem SelfQualified.own {o : Options} {preceding : List Node} {n layout : Node}
    {place : QualifierPlace} (h : SelfQualified preceding n)
    (hlayout : paramsLayout? o preceding n = .ok (some (place, layout))) :
    place = .own ∧ ∃ q, (qualifiers Node.label n.children).head? = some q ∧
      q.layout? = some layout := by
  obtain ⟨hblock, q, hq, hqlayout⟩ := paramsLayout?_eq_some hlayout
  cases place with
  | own => exact ⟨rfl, q, firstQualifier?_eq_own hq, hqlayout⟩
  | preceding =>
    obtain ⟨hown, hq⟩ := firstQualifier?_eq_preceding hq
    rcases h hblock with h | h
    · exact absurd hown h
    · rw [h] at hq
      cases hq

theorem run_script {o : Options} (sliders : List Slider) (c : Context) {b : Node}
    (hwf : b.WellFormed) (hblock : b.isBlock) :
    (Edit.run none (script o sliders c b)).1 =
      Node.listWords c.earlier ++ ((b.convertBlock o .own none).1.words ++
        (Edit.run (b.convertBlock o .own none).2
          ((c.survey o sliders b).map Finding.edit)).1) := by
  have hwords := Node.words_convertBlock o hwf hblock
  rw [script, Edit.run_cons, Edit.apply, receiveWords_none, Edit.run_append, ← hwords]

/--
The text that is written has the words of the document after its edits. Of the params block these
are the replacement of its layout and the removal of all qualifiers of its fields. Behind it the
bounds of the sliders that its fields describe are replaced, each by the literal of its number.
-/
theorem extract_source_eq {o : Options} {source : String} {d : Document} {e : Extraction}
    {c : Context} {b : Node} (hwf : d.root.WellFormed) (hown : Everywhere SelfQualified [] d.root)
    (he : (extract o source d).result = .ok e) (hb : firstBlock? o [] d.root = some (c, b)) :
    (script o e.panel.sliders c b).flatMap Edit.old = d.root.words ∧
      e.source =
        renderWords (Edit.run none (script o e.panel.sliders c b)).1 ++ d.trailing ∧
      ∃ layout, paramsLayout? o (c.preceding []) b = .ok (some (.own, layout)) ∧
        (Node.blockEdits o.layout b).filter Edit.changes =
          .swap layout.words o.layout.words :: b.fields.flatMap Node.removals ∧
        (b.fields.mapM Slider.ofField).result = .ok e.panel.sliders ∧
        ∀ n x, boundAt? e.panel.sliders n = .ok (some x) ↔ NamesBound e.panel.sliders n x := by
  obtain ⟨place, v, -, hrun, hsource⟩ := extract_found he hb
  obtain ⟨hroot, -⟩ := plug_of_firstBlock? c hb
  rw [← hroot] at hwf hown ⊢
  have hwf' : b.WellFormed := fun m hm => hwf m (c.walk_subset_plug hm)
  obtain ⟨layout, hlayout⟩ := hrun.layout
  obtain ⟨hblock, -⟩ := paramsLayout?_eq_some hlayout
  -- The layout is among the block's own qualifiers, so nothing in front of it is replaced.
  obtain ⟨rfl, q, hq, hqlayout⟩ := (hown.at_hole c b).own hlayout
  refine ⟨?_, ?_, layout, hlayout, ?_, hrun.fields, fun n x => boundAt?_eq_some⟩
  · rw [script, List.flatMap_cons, List.flatMap_append, Node.old_blockEdits o.layout hwf' hblock,
      c.words_plug o e.panel.sliders hwf]
    rfl
  · have hbehind := Everywhere.behind c b (hown.imp (fun _ _ h => h.settled) _ _)
    rw [← c.relaid_own o] at hbehind
    obtain ⟨hwords, -⟩ :=
      Prod.mk.inj (hrun.words hblock (.convertBlock o .own hblock) hbehind hwf)
    rw [c.relaid_own o] at hwords
    rw [hsource, Node.render_eq_renderWords, hwords, run_script e.panel.sliders c hwf' hblock]
  · rw [Node.changes_blockEdits o.layout hwf' hblock hq, hqlayout]
    rfl

/--
The tree of a text with a params block, whose field has two qualifiers with a comment between them,
another one, and bounds inside and behind it.
-/
def qualifiedTree : Node :=
  .branch "translation_unit" [
    block "P" [
      .branch "field_declaration" [
        .branch "layout_specification" [
          .symbol "layout" " ", .symbol "(", .token "identifier" "max", .symbol "=" " ",
          .token "number_literal" "2" " ", .symbol ")"],
        .token "comment" "/**/" " ",
        .branch "type_qualifier" [.symbol "flat" " "],
        .token "primitive_type" "float" " ",
        .token "field_identifier" "a" " ",
        .symbol ";"]],
    block "Q" [bound],
    bound]
where
  block (name : String) (members : List Node) : Node :=
    .mk { type := "declaration", start := some ⟨0, 0⟩ } [
      .branch "layout_specification" [
        .symbol "layout", .symbol "(", .token "identifier" "params", .symbol ")"],
      .token "identifier" name " ",
      .branch "field_declaration_list" (.symbol "\x7b" " " :: (members ++ [.symbol "\x7d" " "])),
      .symbol ";"]
  bound : Node :=
    .branch "field_expression" [
      .token "identifier" "a" " " (some "argument"),
      .symbol ".",
      .token "field_identifier" "max" "" (some "field")]

theorem extract_source_eq_qualifiedTree :
    qualifiedTree.WellFormed ∧ Everywhere SelfQualified [] qualifiedTree ∧
      ∃ e c b, (extract {} "" ⟨qualifiedTree, "\n"⟩).result = .ok e ∧
        firstBlock? {} [] qualifiedTree = some (c, b) ∧
        (script {} e.panel.sliders c b).flatMap Edit.old = qualifiedTree.words ∧
        e.source = renderWords (Edit.run none (script {} e.panel.sliders c b)).1 ++ "\n" ∧
        ∃ layout, paramsLayout? {} (c.preceding []) b = .ok (some (.own, layout)) ∧
          (Node.blockEdits (Options.layout {}) b).filter Edit.changes =
            .swap layout.words (Options.layout {}).words :: b.fields.flatMap Node.removals ∧
          (b.fields.mapM Slider.ofField).result = .ok e.panel.sliders ∧
          ∀ n x, boundAt? e.panel.sliders n = .ok (some x) ↔ NamesBound e.panel.sliders n x := by
  have hwf : qualifiedTree.WellFormed := by decide +kernel
  have hown : Everywhere SelfQualified [] qualifiedTree := by decide +kernel
  have hsome : (firstBlock? {} [] qualifiedTree).isSome := by decide +kernel
  have hok : (extract {} "" ⟨qualifiedTree, "\n"⟩).result.isOk := by decide +kernel
  obtain ⟨⟨c, b⟩, hb⟩ := Option.isSome_iff_exists.mp hsome
  obtain ⟨e, he⟩ := Logged.exists_of_isOk hok
  exact ⟨hwf, hown, e, c, b, he, hb, extract_source_eq (d := ⟨qualifiedTree, "\n"⟩) hwf hown he hb⟩

end ShaderParams
