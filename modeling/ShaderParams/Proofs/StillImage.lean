import ShaderParams.Proofs.Run

/-!
This module contains the notice of a still image: which nodes the pass goes into, which trees it
passes by, and that it notices the macro exactly in the nodes that it goes into.
-/

namespace ShaderParams

open List (Forall₂)

/--
A stop of the pass: it goes into a node, or passes by everything below it.
-/
inductive Stop where
  | into (n : Node)
  | past (n : Node)

namespace Stop

/-- The nodes that are dealt with at a stop. -/
def nodes : Stop → List Node
  | into n => [n]
  | past n => n.walk

/-- The tree that is passed by. -/
def past? : Stop → Option Node
  | into _ => none
  | past n => some n

def notices (macroName : String) : Stop → Bool
  | into n => n.defines macroName
  | past _ => false

theorem exists_into_iff {stops : List Stop} {q : Node → Bool}
    (h : ∀ n ∈ stops.filterMap past?, ∀ m ∈ n.walk, ¬ q m) :
    (∃ m, .into m ∈ stops ∧ q m) ↔ ∃ m ∈ stops.flatMap nodes, q m := by
  constructor
  · rintro ⟨m, hm, hq⟩
    exact ⟨m, List.mem_flatMap.mpr ⟨.into m, hm, List.mem_singleton_self m⟩, hq⟩
  · rintro ⟨m, hm, hq⟩
    obtain ⟨stop, hstop, hm⟩ := List.mem_flatMap.mp hm
    cases stop with
    | into n =>
      cases List.mem_singleton.mp hm
      exact ⟨m, hstop, hq⟩
    | past n => exact absurd hq (h n (List.mem_filterMap.mpr ⟨.past n, hstop, rfl⟩) m hm)

end Stop

mutual

/--
The stops of the pass in a tree, in the order of the source. It passes by params blocks, the first
one as well as others, and by bounds of sliders.
-/
def trail (o : Options) (preceding : List Node) (p : Progress) : Node → List Stop
  | .mk l cs =>
    if isParams o preceding (.mk l cs) then
      [.past (.mk l cs)]
    else
      match boundAt? p.sliders (.mk l cs) with
      | .ok (some _) => [.past (.mk l cs)]
      | _ => .into (.mk l cs) :: trailAmong o [] (p.enter o (.mk l cs)) cs

/-- The stops among the nodes behind `done`, which are those of the parent already converted. -/
def trailAmong (o : Options) (done : List Node) (p : Progress) : List Node → List Stop
  | [] => []
  | c :: cs =>
    trail o done p c ++
      match (visit o done p c).result with
      | .ok v =>
        trailAmong o
          ((if v.relayout then Node.replaceQualifierLayout o.layout done else done) ++ [v.node])
          v.progress cs
      | .error _ => []

end

section

variable {o : Options} {preceding : List Node} {p : Progress} {n : Node}

theorem trail_of_layout {layout : QualifierPlace × Node}
    (h : paramsLayout? o preceding n = .ok (some layout)) : trail o preceding p n = [.past n] := by
  cases n with
  | mk l cs => rw [trail, if_pos (isParams_of_layout h)]

theorem trail_of_bound {x : Double} (h : paramsLayout? o preceding n = .ok none)
    (hb : boundAt? p.sliders n = .ok (some x)) : trail o preceding p n = [.past n] := by
  cases n with
  | mk l cs => rw [trail, if_neg (by simp [isParams_of_none h]), hb]

theorem trail_of_children (h : paramsLayout? o preceding n = .ok none)
    (hb : boundAt? p.sliders n = .ok none) :
    trail o preceding p n = .into n :: trailAmong o [] (p.enter o n) n.children := by
  cases n with
  | mk l cs =>
    rw [trail, if_neg (by simp [isParams_of_none h]), hb]
    rfl

theorem trailAmong_cons {done : List Node} {v : Visited}
    (h : (visit o done p n).result = .ok v) (cs : List Node) :
    trailAmong o done p (n :: cs) =
      trail o done p n ++
        trailAmong o
          ((if v.relayout then Node.replaceQualifierLayout o.layout done else done) ++ [v.node])
          v.progress cs := by
  rw [trailAmong, h]

theorem trailAmong_append {done cs : List Node} {r : List Node × Progress}
    (h : (visitAll o done p cs).result = .ok r) (ds : List Node) :
    trailAmong o done p (cs ++ ds) = trailAmong o done p cs ++ trailAmong o r.1 r.2 ds := by
  induction cs generalizing done p with
  | nil =>
    rw [visitAll_nil] at h
    cases h
    rw [List.nil_append, trailAmong, List.nil_append]
  | cons c cs ih =>
    rw [visitAll_cons] at h
    obtain ⟨v, hv, h⟩ := Logged.result_bind_eq_ok h
    rw [List.cons_append, trailAmong_cons hv, trailAmong_cons hv, ih h, List.append_assoc]

end

/-!
The stops deal with every node of a tree, and the pass notices what it goes into.
-/

mutual

theorem visit_trail (o : Options) :
    (n : Node) → (outer : List Node) → (p : Progress) → {v : Visited} →
      (visit o outer p n).result = .ok v →
      (trail o outer p n).flatMap Stop.nodes = n.walk ∧
        v.progress.stillImage =
          (p.stillImage || (trail o outer p n).any (Stop.notices o.stillImageMacro))
  | .mk l cs, outer, p, v => by
    intro hv
    obtain ⟨⟨place, layout⟩, hlayout⟩ | ⟨hlayout, x, hx⟩ | ⟨hlayout, hbound⟩ := visit_cases hv
    · rw [trail_of_layout hlayout]
      refine ⟨by simp [Stop.nodes], ?_⟩
      cases hp : p.found with
      | true =>
        rw [visit_of_extraBlock hlayout hp] at hv
        obtain ⟨start, hstart⟩ := exists_start_of_skipBlock hv
        rw [skipBlock_of_start hstart] at hv
        cases hv
        simp [leaveNode, Stop.notices]
      | false =>
        rw [visit_of_block hlayout hp] at hv
        obtain ⟨sliders, -, hv⟩ := Logged.result_bind_eq_ok hv
        cases hv
        simp [Stop.notices]
    · rw [trail_of_bound hlayout hx]
      rw [visit_of_bound hlayout hx] at hv
      cases hv
      simp [putLiteral, leaveNode, Stop.nodes, Stop.notices]
    · rw [trail_of_children hlayout hbound]
      rw [visit_of_children hlayout hbound] at hv
      obtain ⟨r, hr, hv⟩ := Logged.result_bind_eq_ok hv
      cases hv
      obtain ⟨hnodes, hstill⟩ := visitAll_trail o cs [] (p.enter o (.mk l cs)) hr
      rw [List.flatMap_cons, Node.children, hnodes, hstill, Node.walk_mk]
      simp [Stop.nodes, Stop.notices, Progress.enter, Bool.or_assoc]

theorem visitAll_trail (o : Options) :
    (cs left : List Node) → (p : Progress) → {r : List Node × Progress} →
      (visitAll o left p cs).result = .ok r →
      (trailAmong o left p cs).flatMap Stop.nodes = Node.listWalk cs ∧
        r.2.stillImage =
          (p.stillImage || (trailAmong o left p cs).any (Stop.notices o.stillImageMacro))
  | [], left, p, r => by
    intro hr
    rw [visitAll_nil] at hr
    cases hr
    simp [trailAmong, Node.listWalk]
  | c :: cs, left, p, r => by
    intro hr
    rw [visitAll_cons] at hr
    obtain ⟨v, hv, hr⟩ := Logged.result_bind_eq_ok hr
    obtain ⟨hnodes, hstill⟩ := visit_trail o c left p hv
    obtain ⟨hnodes', hstill'⟩ := visitAll_trail o cs _ v.progress hr
    rw [trailAmong_cons hv, List.flatMap_append, hnodes, hnodes', Node.listWalk]
    simp [hstill', hstill, Bool.or_assoc]

end

/-!
The trees that are passed by: none in front of the first params block, this block itself, and behind
it the other blocks and the bounds that the survey of the document finds.
-/

mutual

theorem past_trail_unmarked (o : Options) :
    (n : Node) → (outer : List Node) → (s : Bool) → Unmarked o outer n →
      (trail o outer { stillImage := s } n).filterMap Stop.past? = []
  | .mk l cs, outer, s => by
    rintro ⟨hn, hcs⟩
    rw [trail, if_neg (by simp [hn])]
    split
    · next x hx => exact absurd hx (boundAt?_nil _ x)
    · exact past_trailAmong_unmarked o cs [] _ hcs

theorem past_trailAmong_unmarked (o : Options) :
    (cs left : List Node) → (s : Bool) → UnmarkedAmong o left cs →
      (trailAmong o left { stillImage := s } cs).filterMap Stop.past? = []
  | [], left, s => by
    intro _
    rfl
  | c :: cs, left, s => by
    rintro ⟨hc, hcs⟩
    rw [trailAmong, List.filterMap_append, past_trail_unmarked o c left s hc, List.nil_append]
    split
    · next v hv =>
      rw [visit_unmarked o c left s hc hv] at hv
      cases hv
      exact past_trailAmong_unmarked o cs (left ++ [c]) _ hcs
    · rfl

end

/-- The tree that a finding is about, if nothing is looked for below it. -/
def Finding.past? : Finding → Option Node
  | word _ => none
  | extraBlock n | bound n _ => some n

mutual

theorem past_trail_found (o : Options) :
    (n : Node) → (outer : List Node) → {outer' : List Node} → (p : Progress) → p.found = true →
      Everywhere Settled outer n → Forall₂ (Successor Alike) outer outer' → {v : Visited} →
      (visit o outer' p n).result = .ok v →
      (trail o outer' p n).filterMap Stop.past? =
        (survey o p.sliders outer n).filterMap Finding.past?
  | .mk l cs, outer, outer', p => by
    rintro hp ⟨hn, hcs⟩ houter v hv
    have hparams : isParams o outer (.mk l cs) = isParams o outer' (.mk l cs) := by
      rw [isParams_eq, isParams_eq, paramsLayout?_congr o hn houter]
    rw [survey, hparams]
    obtain ⟨layout, hlayout⟩ | ⟨hlayout, x, hx⟩ | ⟨hlayout, hbound⟩ := visit_cases hv
    · rw [trail_of_layout hlayout, isParams_of_layout hlayout]
      rfl
    · rw [trail_of_bound hlayout hx, isParams_of_none hlayout, hx]
      rfl
    · rw [trail_of_children hlayout hbound, isParams_of_none hlayout, hbound]
      rw [visit_of_children hlayout hbound] at hv
      obtain ⟨r, hr, -⟩ := Logged.result_bind_eq_ok hv
      have hcs := past_trailAmong_found o cs [] (p.enter o (.mk l cs)) hp hcs .nil hr
      have hword :
          (if l.isToken then [Finding.word l.word] else []).filterMap Finding.past? = [] := by
        split <;> rfl
      rw [if_neg (by simp), List.filterMap_append, hword, List.nil_append]
      exact hcs

theorem past_trailAmong_found (o : Options) :
    (cs left : List Node) → {left' : List Node} → (p : Progress) → p.found = true →
      EverywhereAmong Settled left cs → Forall₂ (Successor Alike) left left' →
      {r : List Node × Progress} → (visitAll o left' p cs).result = .ok r →
      (trailAmong o left' p cs).filterMap Stop.past? =
        (surveyAmong o p.sliders left cs).filterMap Finding.past?
  | [], left, left', p => by
    intro _ _ _ r _
    rfl
  | c :: cs, left, left', p => by
    rintro hp ⟨hc, hcs⟩ hleft r hr
    rw [visitAll_cons] at hr
    obtain ⟨v, hv, hr⟩ := Logged.result_bind_eq_ok hr
    obtain ⟨hrelayout, hfound, hsliders⟩ := visit_found o c left' p hp hv
    have hleft' := List.rel_append hleft (visit_follows o c left p hp hc hleft hv).successors
    rw [trailAmong_cons hv]
    rw [hrelayout, if_neg (by simp)] at hr ⊢
    have hbehind := past_trailAmong_found o cs _ v.progress hfound hcs hleft' hr
    rw [surveyAmong, List.filterMap_append, List.filterMap_append, hbehind, hsliders,
      past_trail_found o c left p hp hc hleft hv]

end

theorem trail_toward {o : Options} {outer left right : List Node} {l : Label} {x : Node}
    {s s' : Bool} {w : Visited}
    (hlayout : paramsLayout? o outer (.mk l (left ++ x :: right)) = .ok none)
    (hbound : boundAt? [] (.mk l (left ++ x :: right)) = .ok none)
    (hleft : visitAll o []
      { stillImage := s || (Node.mk l (left ++ x :: right)).defines o.stillImageMacro } left =
        pure (left, { stillImage := s' }))
    (hw : (visit o left { stillImage := s' } x).result = .ok w) :
    trail o outer { stillImage := s } (.mk l (left ++ x :: right)) =
      .into (.mk l (left ++ x :: right)) ::
        (trailAmong o []
          { stillImage := s || (Node.mk l (left ++ x :: right)).defines o.stillImageMacro } left ++
          (trail o left { stillImage := s' } x ++
            trailAmong o
              ((if w.relayout then Node.replaceQualifierLayout o.layout left else left) ++ [w.node])
              w.progress right)) := by
  rw [trail_of_children hlayout hbound]
  simp only [Progress.enter, Node.children, Label.receive]
  rw [trailAmong_append (congrArg Logged.result hleft), trailAmong_cons hw]

theorem past_trail {o : Options} (k : Context) {outer : List Node} {n b layout : Node} {s : Bool}
    {place : QualifierPlace} {v : Visited} (hk : firstBlock? o outer n = some (k, b))
    (hlayout : paramsLayout? o (k.preceding outer) b = .ok (some (place, layout)))
    (hv : (visit o outer { stillImage := s } n).result = .ok v) :
    ∃ rest, (trail o outer { stillImage := s } n).filterMap Stop.past? = b :: rest ∧
      ((k.relaid o place).Behind Settled b →
        rest = ((k.relaid o place).survey o v.progress.sliders b).filterMap Finding.past?) := by
  induction k generalizing outer n s v with
  | root =>
    obtain ⟨-, -, rfl⟩ | ⟨-, l, left, x, right, c, -, hk, -⟩ := firstBlock?_eq_some hk
    · rw [Context.preceding] at hlayout
      rw [trail_of_layout hlayout]
      exact ⟨[], rfl, fun _ => rfl⟩
    · cases hk
  | child l left right k ih =>
    obtain ⟨-, hk, -⟩ | ⟨hn, l', left', x, right', k', rfl, hk, hleft, hx⟩ :=
      firstBlock?_eq_some hk
    · cases hk
    · cases hk
      obtain ⟨s', hnone, hbound, hpure⟩ := toward_of_visit hn hleft hv
      rw [visit_toward hnone hbound hpure] at hv
      obtain ⟨w, hw, hv⟩ := Logged.result_bind_eq_ok hv
      obtain ⟨r, hr, hv⟩ := Logged.result_bind_eq_ok hv
      cases hv
      obtain ⟨rest, hrest, hsurvey⟩ := ih hx hlayout hw
      obtain ⟨place', sliders, hrun⟩ := run_of_visit k hx hw
      obtain ⟨layout', hlayout'⟩ := hrun.layout
      cases hlayout.symm.trans hlayout'
      obtain ⟨hblock, -⟩ := paramsLayout?_eq_some hlayout
      obtain ⟨hfound, -⟩ := hrun.progress
      obtain ⟨-, -, hsliders⟩ := visitAll_found o right _ w.progress hfound hr
      rw [trail_toward hnone hbound hpure hw, List.filterMap_cons_none rfl, List.filterMap_append,
        past_trailAmong_unmarked o left [] _ hleft, List.nil_append, List.filterMap_append, hrest,
        List.cons_append]
      refine ⟨_, rfl, ?_⟩
      intro hsettled
      rw [Context.relaid, ← hrun.relayout] at hsettled ⊢
      rw [hsurvey hsettled.1, Context.survey, List.filterMap_append, hsliders,
        past_trailAmong_found o right _ w.progress hfound hsettled.2
          (hrun.successors hblock (.convertBlock o place hblock) _) hr]

/--
An image is still if the macro is defined in a node that the pass goes into, which is anywhere in
the tree if it is not in a tree that is passed by. The first of those is the params block. Where the
pass cannot change the layouts of blocks behind it, the others are the other params blocks and the
bounds that the document has there.
-/
theorem extract_stillImage_iff {o : Options} {source : String} {d : Document} {e : Extraction}
    (he : (extract o source d).result = .ok e) :
    (e.panel.stillImage = true ↔
      ∃ m, .into m ∈ trail o [] {} d.root ∧ m.defines o.stillImageMacro) ∧
    (trail o [] {} d.root).flatMap Stop.nodes = d.root.walk ∧
    ((∀ n ∈ (trail o [] {} d.root).filterMap Stop.past?,
        ∀ m ∈ n.walk, ¬ m.defines o.stillImageMacro) →
      (e.panel.stillImage = true ↔ ∃ m ∈ d.root.walk, m.defines o.stillImageMacro)) ∧
    (firstBlock? o [] d.root = none → (trail o [] {} d.root).filterMap Stop.past? = []) ∧
    ∀ c b place layout, firstBlock? o [] d.root = some (c, b) →
      paramsLayout? o (c.preceding []) b = .ok (some (place, layout)) →
      ∃ rest, (trail o [] {} d.root).filterMap Stop.past? = b :: rest ∧
        ((c.relaid o place).Behind Settled b →
          rest = ((c.relaid o place).survey o e.panel.sliders b).filterMap Finding.past?) := by
  obtain ⟨v, hv, he⟩ := Logged.result_bind_eq_ok he
  cases he
  obtain ⟨hnodes, hstill⟩ := visit_trail o d.root [] {} hv
  have hinto : v.progress.stillImage = true ↔
      ∃ m, .into m ∈ trail o [] {} d.root ∧ m.defines o.stillImageMacro := by
    rw [hstill, Bool.false_or, List.any_eq_true]
    constructor
    · rintro ⟨_ | _, hmem, hnotices⟩
      · exact ⟨_, hmem, hnotices⟩
      · cases hnotices
    · rintro ⟨m, hmem, hdefines⟩
      exact ⟨.into m, hmem, hdefines⟩
  refine ⟨hinto, hnodes, ?_, ?_, ?_⟩
  · intro hpast
    rw [hinto, Stop.exists_into_iff hpast, hnodes]
  · intro hnone
    exact past_trail_unmarked o d.root [] false (firstBlock?_eq_none o d.root [] hnone)
  · intro c b place layout hb hlayout
    exact past_trail c hb hlayout hv

/--
The tree of a text that defines the macro of a still image between the members of its params block,
with other trees behind the block.
-/
def definingTree (behind : List Node) : Node :=
  .branch "translation_unit" (block "P" [
    .branch "field_declaration" [
      .token "primitive_type" "float" " ", .token "field_identifier" "a" " ", .symbol ";"],
    define] :: behind)
where
  define : Node :=
    .branch "preproc_def" [
      .symbol "#define" "\n",
      .token "identifier" "NUANCE_STILL_IMAGE" " " (some "name")]
  block (name : String) (members : List Node) : Node :=
    .mk { type := "declaration", start := some ⟨0, 0⟩ } [
      .branch "layout_specification" [
        .symbol "layout", .symbol "(", .token "identifier" "params", .symbol ")"],
      .token "identifier" name " ",
      .branch "field_declaration_list" (.symbol "\x7b" " " :: (members ++ [.symbol "\x7d" "\n"])),
      .symbol ";"]
  bound : Node :=
    .branch "field_expression" [
      .token "identifier" "a" " " (some "argument"),
      .symbol ".",
      .token "field_identifier" "max" "" (some "field")]

/-- The macro is not noticed where it is defined only between the members of the params block. -/
theorem extract_definingTree :
    (∃ m ∈ (definingTree []).walk, m.defines "NUANCE_STILL_IMAGE") ∧
      ((extract {} "" ⟨definingTree [], ""⟩).result.toOption.map fun e => e.panel.stillImage) =
        some false := by
  decide +kernel

/-- Such a tree with another block, a bound and a second definition. -/
def noticedTree : Node :=
  definingTree [definingTree.block "Q" [], definingTree.bound, definingTree.define]

theorem extract_stillImage_iff_noticedTree :
    ∃ e c b place layout,
      (extract {} "" ⟨noticedTree, ""⟩).result = .ok e ∧
      firstBlock? {} [] noticedTree = some (c, b) ∧
      paramsLayout? {} (c.preceding []) b = .ok (some (place, layout)) ∧
      (c.relaid {} place).Behind Settled b ∧
      e.panel.stillImage = true ∧
      (∃ m, .into m ∈ trail {} [] {} noticedTree ∧ m.defines "NUANCE_STILL_IMAGE") ∧
      (trail {} [] {} noticedTree).flatMap Stop.nodes = noticedTree.walk ∧
      (trail {} [] {} noticedTree).filterMap Stop.past? =
        b :: ((c.relaid {} place).survey {} e.panel.sliders b).filterMap Finding.past? := by
  have hsettled : ∀ x ∈ firstBlock? {} [] noticedTree,
      ∀ y ∈ (paramsLayout? {} (x.1.preceding []) x.2).toOption.join,
        (x.1.relaid {} y.1).Behind Settled x.2 := by
    decide +kernel
  have hstill : ∀ e ∈ (extract {} "" ⟨noticedTree, ""⟩).result.toOption,
      e.panel.stillImage = true := by
    decide +kernel
  have hsome : (firstBlock? {} [] noticedTree).isSome := by decide +kernel
  have hok : (extract {} "" ⟨noticedTree, ""⟩).result.isOk := by decide +kernel
  obtain ⟨⟨c, b⟩, hb⟩ := Option.isSome_iff_exists.mp hsome
  obtain ⟨e, he⟩ := Logged.exists_of_isOk hok
  obtain ⟨place, v, -, hrun, -⟩ := extract_found he hb
  obtain ⟨layout, hlayout⟩ := hrun.layout
  have hbehind := hsettled _ hb (place, layout) (by rw [hlayout]; rfl)
  have hstill := hstill e (by rw [he]; rfl)
  obtain ⟨hinto, hnodes, -, -, hpast⟩ := extract_stillImage_iff he
  obtain ⟨rest, hrest, hsurvey⟩ := hpast c b place layout hb hlayout
  refine ⟨e, c, b, place, layout, he, hb, hlayout, hbehind, hstill, hinto.mp hstill, hnodes, ?_⟩
  rw [hrest, hsurvey hbehind]

end ShaderParams
