import ShaderParams.Proofs.Block
import ShaderParams.Proofs.Logged
import ShaderParams.Proofs.Recognition

/-!
This module contains what the pass of an extraction does in its three stages: nothing in front of
the first params block, its conversion, and behind it what the survey of the document says.
-/

namespace ShaderParams

open List (Forall₂)

/-- What the pass knows when it goes into a node. -/
def Progress.enter (o : Options) (n : Node) (p : Progress) : Progress :=
  { p with
    stillImage := p.stillImage || n.defines o.stillImageMacro
    pending := (n.label.receive p.pending).2 }

/-- A node with the children that the pass left. -/
def Node.reenter (n : Node) (pending : Option String) (cs : List Node) : Node :=
  .mk (n.label.receive pending).1 cs

section

variable {o : Options} {preceding : List Node} {p : Progress} {n : Node}

theorem visit_eq (o : Options) (preceding : List Node) (p : Progress) (n : Node) :
    visit o preceding p n =
      Logged.lift (paramsLayout? o preceding n) >>= fun layout =>
        match layout with
        | some (place, _) => if p.found then skipBlock n p else takeBlock o place n p
        | none =>
          Logged.lift (boundAt? p.sliders n) >>= fun bound =>
            match bound with
            | some x => pure (putLiteral x n p)
            | none =>
              visitAll o [] (p.enter o n) n.children >>= fun r =>
                pure { node := n.reenter p.pending r.1, progress := r.2 } := by
  cases n with
  | mk l cs =>
    rw [visit]
    rfl

theorem visit_of_layout_error {e : Error} (h : paramsLayout? o preceding n = .error e) :
    visit o preceding p n = Logged.throw e := by
  rw [visit_eq, h, Logged.lift_error_bind]

theorem visit_of_extraBlock {layout : QualifierPlace × Node}
    (h : paramsLayout? o preceding n = .ok (some layout)) (hp : p.found = true) :
    visit o preceding p n = skipBlock n p := by
  rw [visit_eq, h, Logged.lift_ok_bind]
  simp only [hp, ↓reduceIte]

theorem visit_of_block {place : QualifierPlace} {layout : Node}
    (h : paramsLayout? o preceding n = .ok (some (place, layout))) (hp : p.found = false) :
    visit o preceding p n = takeBlock o place n p := by
  rw [visit_eq, h, Logged.lift_ok_bind]
  simp only [hp, Bool.false_eq_true, ↓reduceIte]

theorem visit_of_bound_error {e : Error} (h : paramsLayout? o preceding n = .ok none)
    (hb : boundAt? p.sliders n = .error e) : visit o preceding p n = Logged.throw e := by
  rw [visit_eq, h, Logged.lift_ok_bind]
  simp only [hb, Logged.lift_error_bind]

theorem visit_of_bound {x : Double} (h : paramsLayout? o preceding n = .ok none)
    (hb : boundAt? p.sliders n = .ok (some x)) :
    visit o preceding p n = pure (putLiteral x n p) := by
  rw [visit_eq, h, Logged.lift_ok_bind]
  simp only [hb, Logged.lift_ok_bind]

theorem visit_of_children (h : paramsLayout? o preceding n = .ok none)
    (hb : boundAt? p.sliders n = .ok none) :
    visit o preceding p n =
      visitAll o [] (p.enter o n) n.children >>= fun r =>
        pure { node := n.reenter p.pending r.1, progress := r.2 } := by
  rw [visit_eq, h, Logged.lift_ok_bind]
  simp only [hb, Logged.lift_ok_bind]

/-- What the pass can do at a node where it does not fail. -/
theorem visit_cases {v : Visited} (h : (visit o preceding p n).result = .ok v) :
    (∃ layout, paramsLayout? o preceding n = .ok (some layout)) ∨
    (paramsLayout? o preceding n = .ok none ∧ ∃ x, boundAt? p.sliders n = .ok (some x)) ∨
    (paramsLayout? o preceding n = .ok none ∧ boundAt? p.sliders n = .ok none) := by
  cases hlayout : paramsLayout? o preceding n with
  | error e =>
    rw [visit_of_layout_error hlayout] at h
    cases h
  | ok layout =>
    cases layout with
    | some layout => exact .inl ⟨layout, rfl⟩
    | none =>
      cases hbound : boundAt? p.sliders n with
      | error e =>
        rw [visit_of_bound_error hlayout hbound] at h
        cases h
      | ok bound =>
        cases bound with
        | some x => exact .inr (.inl ⟨rfl, x, rfl⟩)
        | none => exact .inr (.inr ⟨rfl, rfl⟩)

theorem visitAll_nil (o : Options) (done : List Node) (p : Progress) :
    visitAll o done p [] = pure (done, p) := by
  rw [visitAll]

theorem visitAll_cons (o : Options) (done : List Node) (p : Progress) (c : Node) (cs : List Node) :
    visitAll o done p (c :: cs) =
      visit o done p c >>= fun v =>
        visitAll o
          ((if v.relayout then Node.replaceQualifierLayout o.layout done else done) ++ [v.node])
          v.progress cs := by
  rw [visitAll]

theorem visitAll_append (o : Options) (done : List Node) (p : Progress) (cs ds : List Node) :
    visitAll o done p (cs ++ ds) =
      visitAll o done p cs >>= fun r => visitAll o r.1 r.2 ds := by
  induction cs generalizing done p with
  | nil => rw [visitAll_nil, List.nil_append, pure_bind]
  | cons c cs ih =>
    rw [List.cons_append, visitAll_cons, visitAll_cons, bind_assoc]
    congr 1
    funext v
    rw [ih]

end

/-!
In front of the first params block there are no sliders and no trivia is on its way, so that nothing
changes.
-/

theorem boundAt?_nil (n : Node) (x : Double) : boundAt? [] n ≠ .ok (some x) := by
  intro h
  obtain ⟨-, -, -, -, hsplit, -, -⟩ := boundAt?_eq_some.mp h
  simp at hsplit

theorem isParams_of_layout {o : Options} {preceding : List Node} {n : Node}
    {layout : QualifierPlace × Node} (h : paramsLayout? o preceding n = .ok (some layout)) :
    isParams o preceding n = true := by
  rw [isParams, h]

theorem exists_layout_of_isParams {o : Options} {preceding : List Node} {n : Node}
    (h : isParams o preceding n = true) :
    ∃ layout, paramsLayout? o preceding n = .ok (some layout) := by
  rw [isParams] at h
  split at h
  · next layout hlayout => exact ⟨layout, hlayout⟩
  · cases h

theorem isParams_of_none {o : Options} {preceding : List Node} {n : Node}
    (h : paramsLayout? o preceding n = .ok none) : isParams o preceding n = false := by
  rw [isParams, h]

/-- A node at which a pass without sliders changes nothing and fails in nothing. -/
structure Idle (o : Options) (preceding : List Node) (n : Node) : Prop where
  layout : paramsLayout? o preceding n = .ok none
  bound : boundAt? [] n = .ok none

mutual

theorem visit_idle (o : Options) :
    (n : Node) → (outer : List Node) → (b : Bool) → Everywhere (Idle o) outer n →
      visit o outer { stillImage := b } n =
        pure {
          node := n
          progress := { stillImage := b || n.walk.any fun m => m.defines o.stillImageMacro } }
  | .mk l cs, outer, b => by
    rintro ⟨hn, hcs⟩
    have hcs := visitAll_idle o cs [] (b || (Node.mk l cs).defines o.stillImageMacro) hcs
    rw [visit_of_children hn.layout hn.bound]
    simp only [Progress.enter, Node.reenter, Node.children, Node.label, Label.receive]
    rw [hcs, pure_bind]
    simp [Node.walk_mk, Bool.or_assoc]

theorem visitAll_idle (o : Options) :
    (cs left : List Node) → (b : Bool) → EverywhereAmong (Idle o) left cs →
      visitAll o left { stillImage := b } cs =
        pure (left ++ cs,
          { stillImage := b || (Node.listWalk cs).any fun m => m.defines o.stillImageMacro })
  | [], left, b => by
    intro _
    rw [visitAll_nil]
    simp [Node.listWalk]
  | c :: cs, left, b => by
    rintro ⟨hc, hcs⟩
    rw [visitAll_cons, visit_idle o c left b hc, pure_bind]
    simp only [Bool.false_eq_true, ↓reduceIte]
    rw [visitAll_idle o cs (left ++ [c]) _ hcs]
    simp [Node.listWalk, Bool.or_assoc]

end

mutual

theorem idle_of_visit (o : Options) :
    (n : Node) → (outer : List Node) → (b : Bool) → Unmarked o outer n → {v : Visited} →
      (visit o outer { stillImage := b } n).result = .ok v → Everywhere (Idle o) outer n
  | .mk l cs, outer, b => by
    rintro ⟨hn, hcs⟩ v hv
    obtain ⟨layout, hlayout⟩ | ⟨-, x, hx⟩ | ⟨hlayout, hbound⟩ := visit_cases hv
    · rw [isParams_of_layout hlayout] at hn
      cases hn
    · exact absurd hx (boundAt?_nil _ x)
    · rw [visit_of_children hlayout hbound] at hv
      obtain ⟨r, hr, -⟩ := Logged.result_bind_eq_ok hv
      exact ⟨⟨hlayout, hbound⟩, idle_of_visitAll o cs [] _ hcs hr⟩

theorem idle_of_visitAll (o : Options) :
    (cs left : List Node) → (b : Bool) → UnmarkedAmong o left cs → {r : List Node × Progress} →
      (visitAll o left { stillImage := b } cs).result = .ok r → EverywhereAmong (Idle o) left cs
  | [], left, b => by
    intro _ r _
    trivial
  | c :: cs, left, b => by
    rintro ⟨hc, hcs⟩ r hr
    rw [visitAll_cons] at hr
    obtain ⟨v, hv, -⟩ := Logged.result_bind_eq_ok hr
    have hc := idle_of_visit o c left b hc hv
    rw [visit_idle o c left b hc, pure_bind] at hr
    exact ⟨hc, idle_of_visitAll o cs (left ++ [c]) _ hcs hr⟩

end

theorem visit_unmarked (o : Options) (n : Node) (outer : List Node) (b : Bool)
    (hn : Unmarked o outer n) {v : Visited}
    (hv : (visit o outer { stillImage := b } n).result = .ok v) :
    visit o outer { stillImage := b } n =
      pure {
        node := n
        progress := { stillImage := b || n.walk.any fun m => m.defines o.stillImageMacro } } :=
  visit_idle o n outer b (idle_of_visit o n outer b hn hv)

theorem visitAll_unmarked (o : Options) (cs left : List Node) (b : Bool)
    (hcs : UnmarkedAmong o left cs) {r : List Node × Progress}
    (hr : (visitAll o left { stillImage := b } cs).result = .ok r) :
    visitAll o left { stillImage := b } cs =
      pure (left ++ cs,
        { stillImage := b || (Node.listWalk cs).any fun m => m.defines o.stillImageMacro }) :=
  visitAll_idle o cs left b (idle_of_visitAll o cs left b hcs hr)

/-!
Behind the first params block the sliders stay as they are, and no layout is replaced.
-/

theorem exists_start_of_skipBlock {n : Node} {p : Progress} {v : Visited}
    (h : (skipBlock n p).result = .ok v) : ∃ start, n.label.start = some start := by
  cases hstart : n.label.start with
  | none =>
    rw [skipBlock, hstart] at h
    cases h
  | some start => exact ⟨start, rfl⟩

theorem skipBlock_of_start {n : Node} {start : Point} (h : n.label.start = some start)
    (p : Progress) : skipBlock n p = ⟨[.extraBlock start.row], .ok (leaveNode n p)⟩ := by
  rw [skipBlock, h]
  rfl

mutual

theorem visit_found (o : Options) :
    (n : Node) → (outer : List Node) → (p : Progress) → p.found = true → {v : Visited} →
      (visit o outer p n).result = .ok v →
      v.relayout = false ∧ v.progress.found = true ∧ v.progress.sliders = p.sliders
  | .mk l cs, outer, p => by
    intro hp v hv
    obtain ⟨layout, hlayout⟩ | ⟨hlayout, x, hx⟩ | ⟨hlayout, hbound⟩ := visit_cases hv
    · rw [visit_of_extraBlock hlayout hp] at hv
      obtain ⟨start, hstart⟩ := exists_start_of_skipBlock hv
      rw [skipBlock_of_start hstart] at hv
      cases hv
      exact ⟨rfl, hp, rfl⟩
    · rw [visit_of_bound hlayout hx] at hv
      cases hv
      exact ⟨rfl, hp, rfl⟩
    · rw [visit_of_children hlayout hbound] at hv
      obtain ⟨r, hr, hv⟩ := Logged.result_bind_eq_ok hv
      cases hv
      obtain ⟨-, hfound, hsliders⟩ := visitAll_found o cs [] (p.enter o (.mk l cs)) hp hr
      exact ⟨rfl, hfound, hsliders⟩

theorem visitAll_found (o : Options) :
    (cs left : List Node) → (p : Progress) → p.found = true → {r : List Node × Progress} →
      (visitAll o left p cs).result = .ok r →
      (∃ ds, r.1 = left ++ ds) ∧ r.2.found = true ∧ r.2.sliders = p.sliders
  | [], left, p => by
    intro hp r hr
    rw [visitAll_nil] at hr
    cases hr
    exact ⟨⟨[], by simp⟩, hp, rfl⟩
  | c :: cs, left, p => by
    intro hp r hr
    rw [visitAll_cons] at hr
    obtain ⟨v, hv, hr⟩ := Logged.result_bind_eq_ok hr
    obtain ⟨hrelayout, hfound, hsliders⟩ := visit_found o c left p hp hv
    rw [hrelayout, if_neg (by simp)] at hr
    obtain ⟨⟨ds, hds⟩, hfound', hsliders'⟩ := visitAll_found o cs _ _ hfound hr
    exact ⟨⟨v.node :: ds, by simp [hds]⟩, hfound', by rw [hsliders', hsliders]⟩

end

theorem paramsLayout?_of_not_isBlock (o : Options) (preceding : List Node) {n : Node}
    (h : n.isBlock = false) : paramsLayout? o preceding n = .ok none := by
  rw [paramsLayout?, h]
  rfl

theorem boundAt?_of_type_ne (sliders : List Slider) {n : Node} (h : n.type ≠ "field_expression") :
    boundAt? sliders n = .ok none := by
  rw [boundAt?, if_neg (by simpa using h)]
  rfl

/-!
Trees without member accesses and without a block to take only receive trivia that is on its way.
-/

mutual

theorem visit_receives (o : Options) :
    (n : Node) → (outer : List Node) → (p : Progress) →
      (∀ m ∈ n.walk, m.type ≠ "field_expression") →
      (p.found = true ∨ ∀ m ∈ n.walk, m.isBlock = false) → {v : Visited} →
      (visit o outer p n).result = .ok v →
      v.relayout = false ∧ (v.node, v.progress.pending) = n.receive p.pending
  | .mk l cs, outer, p => by
    intro htype hblock v hv
    have hbound := boundAt?_of_type_ne p.sliders (htype _ (Node.self_mem_walk _))
    obtain ⟨⟨place, layout⟩, hlayout⟩ | ⟨-, x, hx⟩ | ⟨hlayout, -⟩ := visit_cases hv
    · rcases hblock with hp | hblock
      · rw [visit_of_extraBlock hlayout hp] at hv
        obtain ⟨start, hstart⟩ := exists_start_of_skipBlock hv
        rw [skipBlock_of_start hstart] at hv
        cases hv
        exact ⟨rfl, rfl⟩
      · obtain ⟨hn, -⟩ := paramsLayout?_eq_some hlayout
        rw [hblock _ (Node.self_mem_walk _)] at hn
        cases hn
    · rw [hbound] at hx
      cases hx
    · rw [visit_of_children hlayout hbound] at hv
      obtain ⟨r, hr, hv⟩ := Logged.result_bind_eq_ok hv
      cases hv
      have hcs := visitAll_receives o cs [] (p.enter o (.mk l cs))
        (fun m hm => htype m (List.mem_cons_of_mem _ hm))
        (hblock.imp_right fun hblock m hm => hblock m (List.mem_cons_of_mem _ hm)) hr
      rw [List.nil_append] at hcs
      rw [Node.receive_mk]
      refine ⟨rfl, ?_⟩
      simp only [Node.reenter, Node.label, hcs, Progress.enter]

theorem visitAll_receives (o : Options) :
    (cs left : List Node) → (p : Progress) →
      (∀ m ∈ Node.listWalk cs, m.type ≠ "field_expression") →
      (p.found = true ∨ ∀ m ∈ Node.listWalk cs, m.isBlock = false) →
      {r : List Node × Progress} → (visitAll o left p cs).result = .ok r →
      r.1 = left ++ (Node.stripFirstFieldList.receiveAll p.pending cs).1 ∧
        r.2.pending = (Node.stripFirstFieldList.receiveAll p.pending cs).2
  | [], left, p => by
    intro _ _ r hr
    rw [visitAll_nil] at hr
    cases hr
    exact ⟨by simp [Node.stripFirstFieldList.receiveAll], rfl⟩
  | c :: cs, left, p => by
    intro htype hblock r hr
    rw [Node.listWalk, List.forall_mem_append] at htype hblock
    rw [visitAll_cons] at hr
    obtain ⟨v, hv, hr⟩ := Logged.result_bind_eq_ok hr
    obtain ⟨hrelayout, hnode⟩ :=
      visit_receives o c left p htype.1 (hblock.imp_right And.left) hv
    have hblock' : v.progress.found = true ∨ ∀ m ∈ Node.listWalk cs, m.isBlock = false := by
      rcases hblock with hp | hblock
      · exact .inl (visit_found o c left p hp hv).2.1
      · exact .inr hblock.2
    obtain ⟨hnodes, hpending⟩ := visitAll_receives o cs _ v.progress htype.2 hblock' hr
    rw [Node.receiveAll_cons, ← hnode, hnodes, hpending, hrelayout]
    simp

end

/-!
Behind the first params block the survey says what becomes of the words and of which blocks the pass
warns.
-/

/--
What holds when the pass has gone from `p` to `p'` behind the first params block, through trees in
which the survey found `fs`, and left others in their place.
-/
structure Follows (p p' : Progress) (fs : List Finding) (cs ds : List Node) (ws : List Warning) :
    Prop where
  successors : Forall₂ (Successor Alike) cs ds
  warnings : ws = fs.flatMap Finding.warnings
  words : (∀ c ∈ cs, c.WellFormed) →
    (Node.listWords ds, p'.pending) = Edit.run p.pending (fs.map Finding.edit)

namespace Follows

theorem nil (p : Progress) : Follows p p [] [] [] [] where
  successors := .nil
  warnings := rfl
  words := fun _ => rfl

theorem append {p p' p'' : Progress} {fs gs : List Finding} {cs cs' ds ds' : List Node}
    {ws vs : List Warning} (h : Follows p p' fs cs cs' ws) (h' : Follows p' p'' gs ds ds' vs) :
    Follows p p'' (fs ++ gs) (cs ++ ds) (cs' ++ ds') (ws ++ vs) where
  successors := List.rel_append h.successors h'.successors
  warnings := by rw [h.warnings, h'.warnings, List.flatMap_append]
  words := by
    intro hwf
    rw [List.map_append, Edit.run_append, ← h.words fun c hc => hwf c (List.mem_append_left _ hc),
      ← h'.words fun c hc => hwf c (List.mem_append_right _ hc), Node.listWords_append]

theorem leaveNode (p : Progress) {n : Node} {start : Point}
    (hstart : n.label.start = some start) :
    Follows p (ShaderParams.leaveNode n p).progress [.extraBlock n] [n]
      [(ShaderParams.leaveNode n p).node] [.extraBlock start.row] where
  successors := .cons (.of_alike (.receive _ _)) .nil
  warnings := by simp [Finding.warnings, hstart]
  words := by
    intro _
    rw [Node.listWords_cons, Node.listWords_nil, List.append_nil]
    simp only [List.map_cons, List.map_nil, Edit.run_singleton, Finding.edit, Edit.apply]
    apply Node.words_receive p.pending n

theorem putLiteral {p : Progress} {n : Node} {x : Double}
    (hx : boundAt? p.sliders n = .ok (some x)) :
    Follows p (ShaderParams.putLiteral x n p).progress [.bound n x] [n]
      [(ShaderParams.putLiteral x n p).node] [] where
  successors := by
    have htype : n.type = "field_expression" := by
      by_contra htype
      rw [boundAt?_of_type_ne _ htype] at hx
      cases hx
    obtain ⟨hnew, htext⟩ :=
      Node.label_inPlaceOf (.ofDouble x) (ShaderParams.leaveNode n p).node
    obtain ⟨hcomment, hends⟩ := Label.endsQualifiers_congr hnew
    obtain ⟨hcomment', hends', hqualifier⟩ := Node.ofDouble_label x
    refine .cons ⟨?_, ?_, ?_, ?_⟩ .nil
    · rw [ShaderParams.putLiteral, hcomment, hcomment', Label.isComment,
        show n.label.type = _ from htype]
      rfl
    · rw [ShaderParams.putLiteral, hends, hends', Label.endsQualifiers, Label.isTypeSpecifier,
        Label.isFieldList, show n.label.type = _ from htype]
      rfl
    · rw [ShaderParams.putLiteral, Label.isQualifier_congr hnew htext, hqualifier]
      intro h
      cases h
    · intro hplain
      exact absurd htype (hplain n (Node.self_mem_walk n)).1
  warnings := rfl
  words := by
    intro hwf
    have hn := (hwf n List.mem_cons_self).words_ne_nil
    have hliteral := Node.words_inPlaceOf (.ofDouble x) (n.receive p.pending).1
      (Node.ofDouble_words_ne_nil x)
    simp only [Node.listWords_cons, Node.listWords_nil, List.append_nil, List.map_cons,
      List.map_nil, Edit.run_singleton, Finding.edit, Edit.apply, ShaderParams.putLiteral,
      ShaderParams.leaveNode, Node.receive_snd hn]
    rw [hliteral, Edit.apply, Option.getD_none, ← Node.leading_eq, Node.leading_receive _ hn]

theorem enter {o : Options} {p p' : Progress} {gs : List Finding} {l : Label}
    {cs ds : List Node} {ws : List Warning}
    (h : Follows (p.enter o (.mk l cs)) p' gs cs ds ws)
    (halike : (Node.mk l cs).Plain → Alike (.mk l cs) ((Node.mk l cs).reenter p.pending ds)) :
    Follows p p' ((if l.isToken then [.word l.word] else []) ++ gs) [.mk l cs]
      [(Node.mk l cs).reenter p.pending ds] ws where
  successors := by
    refine .cons ⟨?_, ?_, ?_, ?_⟩ .nil
    · apply Label.read_receive Label.isComment (fun _ => rfl) p.pending l
    · apply Label.read_receive Label.endsQualifiers (fun _ => rfl) p.pending l
    · have hlabel := Label.read_receive Label.isQualifier (fun _ => rfl) p.pending l
      intro hq
      exact hlabel ▸ hq
    · intro hplain hq
      exact ⟨(halike hplain).isQualifier_eq ▸ hq, halike hplain⟩
  warnings := by
    rw [h.warnings, List.flatMap_append]
    split <;> simp [Finding.warnings]
  words := by
    intro hwf
    have hwf := hwf _ List.mem_cons_self
    have hwords := h.words fun c hc => hwf.of_mem hc
    simp only [Node.listWords_cons, Node.listWords_nil, List.append_nil, Node.reenter, Node.label]
    by_cases hl : l.isToken
    · cases hwf.children_eq_nil hl
      cases h.successors
      have hl' := Label.word_receive p.pending l hl
      simp only [Progress.enter, Node.label] at hwords
      rw [if_pos hl, List.singleton_append, List.map_cons, Edit.run_cons, Finding.edit, Edit.apply,
        ← hl', ← hwords, Node.words_mk, Label.isToken_receive, if_pos hl, Node.listWords_nil,
        List.append_nil]
    · simp only [Progress.enter, Node.label, Label.receive_of_not_isToken _ l hl] at hwords ⊢
      rw [if_neg hl, List.nil_append, ← hwords, Node.words_mk, if_neg hl]

end Follows

mutual

theorem visit_follows (o : Options) :
    (n : Node) → (outer : List Node) → {outer' : List Node} → (p : Progress) → p.found = true →
      Everywhere Settled outer n → Forall₂ (Successor Alike) outer outer' → {v : Visited} →
      (visit o outer' p n).result = .ok v →
      Follows p v.progress (survey o p.sliders outer n) [n] [v.node] (visit o outer' p n).warnings
  | .mk l cs, outer, outer', p => by
    rintro hp ⟨hn, hcs⟩ houter v hv
    -- The survey looks at the nodes in front as they were given, the pass at their successors.
    have hparams : isParams o outer (.mk l cs) = isParams o outer' (.mk l cs) := by
      rw [isParams_eq, isParams_eq, paramsLayout?_congr o hn houter]
    rw [survey, hparams]
    obtain ⟨layout, hlayout⟩ | ⟨hlayout, x, hx⟩ | ⟨hlayout, hbound⟩ := visit_cases hv
    · rw [isParams_of_layout hlayout, if_pos rfl]
      rw [visit_of_extraBlock hlayout hp] at hv ⊢
      obtain ⟨start, hstart⟩ := exists_start_of_skipBlock hv
      rw [skipBlock_of_start hstart] at hv ⊢
      cases hv
      exact .leaveNode p hstart
    · rw [isParams_of_none hlayout, if_neg (by simp), hx]
      rw [visit_of_bound hlayout hx] at hv ⊢
      cases hv
      exact .putLiteral hx
    · -- This is the node that blocks behind it may take their layout from.
      have hplain : (Node.mk l cs).Plain → Alike (.mk l cs) v.node := by
        intro hplain
        obtain ⟨-, hnode⟩ := visit_receives o (.mk l cs) outer' p (fun m hm => (hplain m hm).1)
          (.inr fun m hm => (hplain m hm).2) hv
        rw [show v.node = ((Node.mk l cs).receive p.pending).1 from congrArg Prod.fst hnode]
        apply Alike.receive
      rw [isParams_of_none hlayout, if_neg (by simp), hbound]
      rw [visit_of_children hlayout hbound] at hv ⊢
      obtain ⟨r, hr, hv⟩ := Logged.result_bind_eq_ok hv
      cases hv
      obtain ⟨ds, hds, hfollows⟩ :=
        visitAll_follows o cs [] (p.enter o (.mk l cs)) hp hcs .nil hr
      rw [List.nil_append] at hds
      subst hds
      rw [Logged.bind_of_ok hr, Logged.pure_def, List.append_nil]
      exact hfollows.enter hplain

theorem visitAll_follows (o : Options) :
    (cs left : List Node) → {left' : List Node} → (p : Progress) → p.found = true →
      EverywhereAmong Settled left cs → Forall₂ (Successor Alike) left left' →
      {r : List Node × Progress} → (visitAll o left' p cs).result = .ok r →
      ∃ ds, r.1 = left' ++ ds ∧
        Follows p r.2 (surveyAmong o p.sliders left cs) cs ds (visitAll o left' p cs).warnings
  | [], left, left', p => by
    intro hp _ _ r hr
    rw [visitAll_nil] at hr ⊢
    cases hr
    exact ⟨[], by simp, .nil p⟩
  | c :: cs, left, left', p => by
    rintro hp ⟨hc, hcs⟩ hleft r hr
    rw [visitAll_cons] at hr ⊢
    obtain ⟨v, hv, hr⟩ := Logged.result_bind_eq_ok hr
    obtain ⟨hrelayout, hfound, hsliders⟩ := visit_found o c left' p hp hv
    have hfollows := visit_follows o c left p hp hc hleft hv
    rw [hrelayout, if_neg (by simp)] at hr
    have hleft' := List.rel_append hleft hfollows.successors
    obtain ⟨ds, hds, hfollows'⟩ := visitAll_follows o cs _ _ hfound hcs hleft' hr
    refine ⟨v.node :: ds, by simp [hds], ?_⟩
    rw [Logged.bind_of_ok hv, hrelayout, if_neg (by simp), surveyAmong]
    rw [hsliders] at hfollows'
    exact hfollows.append hfollows'

end

end ShaderParams
