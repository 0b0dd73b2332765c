import ShaderParams.Proofs.Complete

/-!
This module contains the outcome of an extraction: what a document without a params block gives, and
that otherwise the fields of the first params block alone decide between success and failure.
-/

namespace ShaderParams

open List (Forall₂)

/-!
The warnings behind the first params block are one for each further block.
-/

/-- The further params block that was met, if it was one. -/
def Finding.extraBlock? : Finding → Option Node
  | extraBlock n => some n
  | word _ | bound .. => none

/-- The row that a node starts in. -/
def Node.row (n : Node) : Nat :=
  (n.label.start.map Point.row).getD 0

theorem isBlock_of_isParams {o : Options} {preceding : List Node} {n : Node}
    (h : isParams o preceding n = true) : n.isBlock := by
  obtain ⟨layout, hlayout⟩ := exists_layout_of_isParams h
  exact (paramsLayout?_eq_some hlayout).1

mutual

theorem mem_survey (o : Options) (sliders : List Slider) {m : Node} :
    (n : Node) → (outer : List Node) → .extraBlock m ∈ survey o sliders outer n →
      m ∈ n.walk ∧ m.isBlock
  | .mk l cs, outer => by
    intro h
    rw [survey] at h
    rw [Node.walk_mk]
    split at h
    · next hparams =>
      cases List.mem_singleton.mp h
      exact ⟨List.mem_cons_self, isBlock_of_isParams hparams⟩
    · split at h
      · simp at h
      · rcases List.mem_append.mp h with h | h
        · split at h <;> simp at h
        · obtain ⟨hmem, hblock⟩ := mem_surveyAmong o sliders cs [] h
          exact ⟨List.mem_cons_of_mem _ hmem, hblock⟩

theorem mem_surveyAmong (o : Options) (sliders : List Slider) {m : Node} :
    (cs left : List Node) → .extraBlock m ∈ surveyAmong o sliders left cs →
      m ∈ Node.listWalk cs ∧ m.isBlock
  | [], left => by
    intro h
    simp [surveyAmong] at h
  | c :: cs, left => by
    intro h
    rw [surveyAmong] at h
    rw [Node.listWalk]
    rcases List.mem_append.mp h with h | h
    · obtain ⟨hmem, hblock⟩ := mem_survey o sliders c left h
      exact ⟨List.mem_append_left _ hmem, hblock⟩
    · obtain ⟨hmem, hblock⟩ := mem_surveyAmong o sliders cs _ h
      exact ⟨List.mem_append_right _ hmem, hblock⟩

end

theorem mem_survey_relaid {o : Options} {place : QualifierPlace} {sliders : List Slider}
    {b m : Node} (c : Context) (h : .extraBlock m ∈ (c.relaid o place).survey o sliders b) :
    m ∈ (c.plug b).walk ∧ m.isBlock := by
  induction c with
  | root => simp [Context.relaid, Context.survey] at h
  | child l left right c ih =>
    rw [Context.relaid, Context.survey] at h
    rcases List.mem_append.mp h with h | h
    · obtain ⟨hmem, hblock⟩ := ih h
      exact ⟨Node.walk_subset_of_mem (by simp [Context.plug, Node.children]) hmem, hblock⟩
    · obtain ⟨hmem, hblock⟩ := mem_surveyAmong o sliders right _ h
      obtain ⟨d, hd, hmem⟩ := Node.mem_listWalk.mp hmem
      exact ⟨Node.walk_subset_of_mem (by simp [Context.plug, Node.children, hd]) hmem, hblock⟩

theorem warnings_eq_rows {fs : List Finding}
    (h : ∀ n, .extraBlock n ∈ fs → n.label.start.isSome) :
    fs.flatMap Finding.warnings =
      (fs.filterMap Finding.extraBlock?).map fun n => .extraBlock n.row := by
  induction fs with
  | nil => rfl
  | cons f fs ih =>
    have hfs := ih fun n hn => h n (List.mem_cons_of_mem _ hn)
    cases f with
    | word w => exact hfs
    | bound n x => exact hfs
    | extraBlock n =>
      obtain ⟨start, hstart⟩ := Option.isSome_iff_exists.mp (h n List.mem_cons_self)
      rw [List.flatMap_cons, hfs]
      simp [Finding.warnings, Finding.extraBlock?, Node.row, hstart]

theorem Run.relayout_of_nil {o : Options} {b : Node} {place : QualifierPlace}
    {sliders : List Slider} {k : Context} {v : Visited} {ws : List Warning}
    (h : Run o b place sliders [] k v ws) : v.relayout = false := by
  cases h with
  | child _ _ => rfl
  | block hlayout _ =>
    obtain ⟨-, q, hq, -⟩ := paramsLayout?_eq_some hlayout
    cases place with
    | own => rfl
    | preceding =>
      obtain ⟨-, hq⟩ := firstQualifier?_eq_preceding hq
      cases hq

/-- The first of the fields that cannot be turned into sliders fails with an error. -/
def FirstFailure (fields : List Node) (e : Error) : Prop :=
  ∃ before f behind, fields = before ++ f :: behind ∧
    (∀ g ∈ before, (Slider.ofField g).result.isOk) ∧ (Slider.ofField f).result = .error e

theorem extract_unmarked {o : Options} {d : Document} (source : String)
    (hcomplete : d.root.Complete) (h : firstBlock? o [] d.root = none) :
    extract o source d =
      ⟨[], .ok ⟨{ stillImage := d.root.walk.any fun m => m.defines o.stillImageMacro }, source⟩⟩ := by
  have hunmarked := firstBlock?_eq_none o d.root [] h
  obtain ⟨v, hv⟩ := visit_unmarked_ok o d.root [] false hunmarked hcomplete (by simp)
  have hvisit := visit_unmarked o d.root [] false hunmarked hv
  rw [extract, show visit o [] {} d.root = _ from hvisit, pure_bind]
  rfl

section

variable {o : Options} {d : Document} {c : Context} {b layout : Node} {place : QualifierPlace}

theorem extract_error_iff (source : String) (hcomplete : d.root.Complete)
    (hb : firstBlock? o [] d.root = some (c, b))
    (hlayout : paramsLayout? o (c.preceding []) b = .ok (some (place, layout)))
    (hsettled : (c.relaid o place).Behind Settled b) (e : Error) :
    (extract o source d).result = .error e ↔ FirstFailure b.fields e := by
  obtain ⟨herror, hok⟩ := visit_outcome c false hb hlayout hcomplete (by simp) hsettled
  have hfields : (extract o source d).result = .error e ↔
      (b.fields.mapM Slider.ofField).result = .error e := by
    cases hmap : (b.fields.mapM Slider.ofField).result with
    | error e' =>
      rw [extract, Logged.bind_of_error (herror e' hmap)]
      simp
    | ok sliders =>
      obtain ⟨v, hv⟩ := hok sliders hmap
      rw [extract, Logged.bind_of_ok (show (visit o [] {} d.root).result = .ok v from hv)]
      constructor
      · intro h
        cases h
      · intro h
        cases h
  rw [hfields]
  constructor
  · exact Logged.exists_of_mapM_error
  · rintro ⟨before, f, behind, hsplit, hbefore, hf⟩
    rw [hsplit]
    apply Logged.mapM_error hbefore hf

theorem extract_warnings {source : String} {e : Extraction} (hcomplete : d.root.Complete)
    (he : (extract o source d).result = .ok e) (hb : firstBlock? o [] d.root = some (c, b))
    (hlayout : paramsLayout? o (c.preceding []) b = .ok (some (place, layout)))
    (hsettled : (c.relaid o place).Behind Settled b) :
    (extract o source d).warnings =
      (b.fields.flatMap fun f => (Slider.ofField f).warnings) ++
        (((c.relaid o place).survey o e.panel.sliders b).filterMap Finding.extraBlock?).map
          fun n => .extraBlock n.row := by
  obtain ⟨place', v, hv, hrun, -⟩ := extract_found he hb
  obtain ⟨layout', hlayout'⟩ := hrun.layout
  cases hlayout.symm.trans hlayout'
  obtain ⟨hblock, -⟩ := paramsLayout?_eq_some hlayout
  obtain ⟨hroot, -⟩ := plug_of_firstBlock? c hb
  have hstart : ∀ n, .extraBlock n ∈ (c.relaid o place).survey o e.panel.sliders b →
      n.label.start.isSome := by
    intro n hn
    obtain ⟨hmem, hn⟩ := mem_survey_relaid c hn
    rw [hroot] at hmem
    exact (hcomplete n hmem).start hn
  rw [← warnings_eq_rows hstart, ← Logged.warnings_mapM hrun.fields,
    ← hrun.warnings hblock (.convertBlock o place hblock) hsettled, extract,
    Logged.bind_of_ok hv, Logged.pure_def, List.append_nil]

end

/--
A document without a params block is returned as it was given. Otherwise the extraction fails if one
of the fields of the first block cannot be turned into a slider, and with the error of the first
such field. All blocks behind it only give warnings, and the root of the tree stays.
-/
theorem extract_outcome (o : Options) (source : String) {d : Document}
    (hcomplete : d.root.Complete) :
    (firstBlock? o [] d.root = none →
      extract o source d =
        ⟨[], .ok ⟨{ stillImage := d.root.walk.any fun m => m.defines o.stillImageMacro },
          source⟩⟩) ∧
    ∀ c b place layout, firstBlock? o [] d.root = some (c, b) →
      paramsLayout? o (c.preceding []) b = .ok (some (place, layout)) →
      (c.relaid o place).Behind Settled b →
      (∀ e, (extract o source d).result = .error e ↔ FirstFailure b.fields e) ∧
      (∀ e, (extract o source d).result = .ok e →
        Forall₂ (fun f s => (Slider.ofField f).result = .ok s) b.fields e.panel.sliders ∧
        (extract o source d).warnings =
          (b.fields.flatMap fun f => (Slider.ofField f).warnings) ++
            (((c.relaid o place).survey o e.panel.sliders b).filterMap Finding.extraBlock?).map
              fun n => .extraBlock n.row) ∧
      ∀ v, (visit o [] {} d.root).result = .ok v →
        v.relayout = false ∧ v.node.label = d.root.label := by
  refine ⟨extract_unmarked source hcomplete, ?_⟩
  intro c b place layout hb hlayout hsettled
  refine ⟨extract_error_iff source hcomplete hb hlayout hsettled, ?_, ?_⟩
  · intro e he
    obtain ⟨place', v, -, hrun, -⟩ := extract_found he hb
    exact ⟨Logged.mapM_eq_ok hrun.fields, extract_warnings hcomplete he hb hlayout hsettled⟩
  · intro v hv
    obtain ⟨place', sliders, hrun⟩ := run_of_visit c (s := false) hb hv
    obtain ⟨hroot, -⟩ := plug_of_firstBlock? c hb
    exact ⟨hrun.relayout_of_nil, by rw [hrun.label_node, hroot]⟩

/--
The tree of a declaration with one layout in front of two blocks, and a third block that has its
own.
-/
def sharedTree : Node :=
  .branch "declaration" [
    layout,
    block 0 [.token "identifier" "A" " "] "a",
    block 1 [.token "identifier" "B" " "] "b",
    block 2 [layout, .token "identifier" "C" " "] "c"]
where
  layout : Node :=
    .branch "layout_specification" [
      .symbol "layout", .symbol "(", .token "identifier" "params", .symbol ")"]
  block (row : Nat) (front : List Node) (name : String) : Node :=
    .mk { type := "specifier", start := some ⟨row, 0⟩ } (front ++ [
      .branch "field_declaration_list" [
        .symbol "\x7b" " ",
        .branch "field_declaration" [
          .token "primitive_type" "float" " ",
          .token "field_identifier" name " ",
          .symbol ";"],
        .symbol "\x7d" " "]])

theorem extract_outcome_sharedTree :
    sharedTree.Complete ∧ ∃ c b place layout e, firstBlock? {} [] sharedTree = some (c, b) ∧
      paramsLayout? {} (c.preceding []) b = .ok (some (place, layout)) ∧
      (c.relaid {} place).Behind Settled b ∧
      (extract {} "" ⟨sharedTree, ""⟩).result = .ok e ∧
      Forall₂ (fun f s => (Slider.ofField f).result = .ok s) b.fields e.panel.sliders ∧
      (extract {} "" ⟨sharedTree, ""⟩).warnings =
        (b.fields.flatMap fun f => (Slider.ofField f).warnings) ++
          (((c.relaid {} place).survey {} e.panel.sliders b).filterMap Finding.extraBlock?).map
            fun n => .extraBlock n.row := by
  have hcomplete : sharedTree.Complete := by decide +kernel
  have hsettled : ∀ x ∈ firstBlock? {} [] sharedTree,
      ∀ y ∈ (paramsLayout? {} (x.1.preceding []) x.2).toOption.join,
        (x.1.relaid {} y.1).Behind Settled x.2 := by
    decide +kernel
  have hsome : (firstBlock? {} [] sharedTree).isSome := by decide +kernel
  have hok : (extract {} "" ⟨sharedTree, ""⟩).result.isOk := by decide +kernel
  obtain ⟨⟨c, b⟩, hb⟩ := Option.isSome_iff_exists.mp hsome
  obtain ⟨e, he⟩ := Logged.exists_of_isOk hok
  obtain ⟨place, v, -, hrun, -⟩ := extract_found he hb
  obtain ⟨layout, hlayout⟩ := hrun.layout
  have hbehind := hsettled _ hb (place, layout) (by rw [hlayout]; rfl)
  obtain ⟨hsliders, hwarnings⟩ :=
    ((extract_outcome {} "" (d := ⟨sharedTree, ""⟩) hcomplete).2 c b place layout hb hlayout
      hbehind).2.1 e he
  exact ⟨hcomplete, c, b, place, layout, e, hb, hlayout, hbehind, he, hsliders, hwarnings⟩

/--
The tree of a layout that holds the params block, in front of a block without qualifiers. The name
in its entry is a qualifier of the field of the params block.
-/
def enclosedTree : Node :=
  .branch "translation_unit" [
    .branch "layout_specification" [
      .mk { type := "declaration", start := some ⟨0, 0⟩ } [
        .branch "layout_specification" [
          .symbol "layout", .symbol "(", .token "identifier" "params", .symbol ")"],
        .branch "field_declaration_list" [
          .symbol "\x7b",
          .branch "field_declaration" [
            .symbol "(",
            .branch "type_qualifier" [.symbol "flat"],
            .branch "group" [.token "comment" "/* */" " "],
            .symbol ")",
            .token "primitive_type" "float" " ",
            .token "field_identifier" "a" " ",
            .symbol ";"],
          .symbol "\x7d"]]],
    .mk { type := "declaration", start := some ⟨1, 0⟩ } [
      .token "identifier" "X",
      .branch "field_declaration_list" [.symbol "\x7b", .symbol "\x7d"]]]

/-- The extraction fails although the field can be turned into a slider. -/
theorem extract_enclosedTree :
    enclosedTree.Complete ∧
      (firstBlock? {} [] enclosedTree).any
        (fun x => x.2.fields.all fun f => (Slider.ofField f).result.isOk) ∧
      (extract {} "" ⟨enclosedTree, ""⟩).result = .error .missingChild := by
  decide +kernel

end ShaderParams
