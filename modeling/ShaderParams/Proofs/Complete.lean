import ShaderParams.Proofs.Run

/-!
This module contains the trees from which everything can be read that an extraction looks for: in
them the pass fails nowhere but in the fields of the first params block.
-/

namespace ShaderParams

open List (Forall₂)

namespace Node

/--
A node from which everything can be read that an extraction looks for: the parts of a member access,
the names of layout entries, and where a block starts.
-/
structure Readable (n : Node) : Prop where
  parts : n.type = "field_expression" →
    (n.childByField? "argument").isSome ∧ (n.childByField? "field").isSome
  entries : n.label.isLayout → n.layoutEntries.isOk
  start : n.isBlock → n.label.start.isSome

instance (n : Node) : Decidable n.Readable :=
  decidable_of_iff
    ((n.type = "field_expression" →
        (n.childByField? "argument").isSome ∧ (n.childByField? "field").isSome) ∧
      (n.label.isLayout → n.layoutEntries.isOk) ∧ (n.isBlock → n.label.start.isSome))
    ⟨fun h => ⟨h.1, h.2.1, h.2.2⟩, fun h => ⟨h.parts, h.entries, h.start⟩⟩

/-- A tree of such nodes. -/
def Complete (n : Node) : Prop :=
  ∀ m ∈ n.walk, m.Readable

instance (n : Node) : Decidable n.Complete :=
  inferInstanceAs (Decidable (∀ m ∈ n.walk, m.Readable))

theorem Complete.of_mem {n c : Node} (h : n.Complete) (hc : c ∈ n.children) : c.Complete :=
  fun m hm => h m (walk_subset_of_mem hc hm)

theorem Complete.readable {n : Node} (h : n.Complete) : n.Readable :=
  h n (self_mem_walk n)

/-- A qualifier that stands for no layout, or for one with names in all entries. -/
def Legible (q : Node) : Prop :=
  ∀ layout, q.layout? = some layout → layout.entryNames.isOk

mutual

theorem layout?_mem_walk : (q : Node) → {layout : Node} → q.layout? = some layout →
    layout ∈ q.walk ∧ layout.label.isLayout
  | mk l cs, layout => by
    intro h
    rw [layout?] at h
    rw [walk_mk]
    split at h
    · next hl =>
      cases h
      exact ⟨List.mem_cons_self, hl⟩
    · split at h
      · obtain ⟨hmem, hl⟩ := firstLayout?_mem_listWalk cs h
        exact ⟨List.mem_cons_of_mem _ hmem, hl⟩
      · cases h

theorem firstLayout?_mem_listWalk : (cs : List Node) → {layout : Node} →
    firstLayout? cs = some layout → layout ∈ listWalk cs ∧ layout.label.isLayout
  | [], layout => by
    intro h
    cases h
  | c :: cs, layout => by
    intro h
    rw [firstLayout?] at h
    rw [listWalk]
    split at h
    · obtain ⟨hmem, hl⟩ := firstLayout?_mem_listWalk cs h
      exact ⟨List.mem_append_right _ hmem, hl⟩
    · obtain ⟨hmem, hl⟩ := layout?_mem_walk c h
      exact ⟨List.mem_append_left _ hmem, hl⟩

end

theorem Complete.legible {q : Node} (h : q.Complete) : q.Legible := by
  intro layout hlayout
  obtain ⟨hmem, hl⟩ := layout?_mem_walk q hlayout
  have hentries := (h layout hmem).entries hl
  rw [entryNames]
  cases hes : layout.layoutEntries with
  | error e =>
    rw [hes] at hentries
    cases hentries
  | ok es => rfl

end Node

theorem boundAt?_of_readable {n : Node} (h : n.Readable) (sliders : List Slider) :
    ∃ bound, boundAt? sliders n = .ok bound := by
  by_cases htype : n.type = "field_expression"
  · obtain ⟨hargument, hmember⟩ := h.parts htype
    obtain ⟨argument, hargument⟩ := Option.isSome_iff_exists.mp hargument
    obtain ⟨member, hmember⟩ := Option.isSome_iff_exists.mp hmember
    rw [boundAt?, if_pos (by simpa using htype), hargument, hmember]
    refine ⟨if argument.type == "identifier" then namedBound? sliders argument.text member.text
      else none, ?_⟩
    show (if argument.type == "identifier" then _ else _) = _
    split <;> rfl
  · exact ⟨none, boundAt?_of_type_ne sliders htype⟩

theorem marks_of_legible (o : Options) {q : Option Node} (h : ∀ r, q = some r → r.Legible) :
    ∃ b, marks o q = .ok b := by
  rw [marks]
  cases hlayout : q.bind Node.layout? with
  | none => exact ⟨false, rfl⟩
  | some layout =>
    obtain ⟨r, hr, hlayout⟩ := Option.bind_eq_some_iff.mp hlayout
    have hnames := h r hr layout hlayout
    simp only
    cases hes : layout.entryNames with
    | error e =>
      rw [hes] at hnames
      cases hnames
    | ok names => exact ⟨_, rfl⟩

theorem paramsLayout?_of_complete (o : Options) {preceding : List Node} {n : Node}
    (hn : n.Complete)
    (h : n.isBlock → qualifiers Node.label n.children = [] →
      ∀ q, (qualifiers Node.label preceding).head? = some q → q.Legible) :
    ∃ layout, paramsLayout? o preceding n = .ok layout := by
  have hmarks : ∃ b, (paramsLayout? o preceding n).map Option.isSome = .ok b := by
    rw [paramsLayout?_isSome]
    split
    · next hblock =>
      apply marks_of_legible
      by_cases hown : qualifiers Node.label n.children = []
      · rw [firstQualifier?_preceding hown]
        exact h hblock hown
      · rw [firstQualifier?_own hown]
        intro q hq
        exact (hn.of_mem (mem_of_mem_qualifiers _ (List.mem_of_head? hq))).legible
    · exact ⟨false, rfl⟩
  obtain ⟨b, hmarks⟩ := hmarks
  cases hlayout : paramsLayout? o preceding n with
  | error e =>
    rw [hlayout] at hmarks
    cases hmarks
  | ok layout => exact ⟨layout, rfl⟩

/-!
The layout of the converted block can be read where it replaces another one.
-/

namespace Node

theorem layout?_of_isLayout {n : Node} (h : n.label.isLayout) : n.layout? = some n := by
  cases n with
  | mk l cs => rw [layout?, if_pos (by exact h)]

section

variable {new : Node} (hnew : new.label.isLayout)

include hnew

theorem isLayout_inPlaceOf (old : Node) : (inPlaceOf old new).label.isLayout := by
  rw [Label.isLayout, (label_inPlaceOf new old).1]
  exact hnew

theorem isComment_replaceLayout {c : Node} (hc : c.label.isComment = false) :
    (replaceLayout new c).label.isComment = false := by
  cases c with
  | mk l cs =>
    rw [replaceLayout]
    split
    · have hlayout := isLayout_inPlaceOf hnew (mk l cs)
      rw [Label.isLayout, beq_iff_eq] at hlayout
      simp [Label.isComment, hlayout]
    · split <;> exact hc

mutual

theorem layout?_replaceLayout : (q : Node) →
    (replaceLayout new q).layout? = q.layout?.map fun old => inPlaceOf old new
  | mk l cs => by
    rw [replaceLayout, layout?]
    by_cases hlayout : l.isLayout
    · rw [if_pos hlayout, if_pos hlayout, layout?_of_isLayout (isLayout_inPlaceOf hnew _)]
      rfl
    · rw [if_neg hlayout, if_neg hlayout]
      by_cases hwrapper : l.isWrapper
      · rw [if_pos hwrapper, if_pos hwrapper, layout?, if_neg hlayout, if_pos hwrapper,
          firstLayout?_replaceFirstLayout cs]
      · rw [if_neg hwrapper, if_neg hwrapper, layout?, if_neg hlayout, if_neg hwrapper]
        rfl

theorem firstLayout?_replaceFirstLayout : (cs : List Node) →
    firstLayout? (replaceFirstLayout new cs) = (firstLayout? cs).map fun old => inPlaceOf old new
  | [] => rfl
  | c :: cs => by
    rw [replaceFirstLayout, firstLayout?]
    by_cases hc : c.label.isComment
    · rw [if_pos hc, if_pos hc, firstLayout?, if_pos hc, firstLayout?_replaceFirstLayout cs]
    · have hc' := isComment_replaceLayout hnew (by simpa using hc)
      rw [if_neg hc, if_neg hc, firstLayout?, if_neg (by simp [hc']), layout?_replaceLayout c]

end

end

theorem children_defaultField (field : Option String) (n : Node) :
    (n.defaultField field).children = n.children := by
  cases n with
  | mk l cs => rfl

theorem entryNames_inPlaceOf (old new : Node) :
    (inPlaceOf old new).entryNames = new.entryNames := by
  refine (Alike.entryNames_eq ?_).symm
  rw [inPlaceOf, children_defaultField, setLeading_eq_receive]
  exact (Alike.receive _ new).children_alike

theorem entryNames_layout (o : Options) : o.layout.entryNames = .ok ["set", "binding"] := by
  rfl

theorem legible_replaceLayout (o : Options) (q : Node) : (replaceLayout o.layout q).Legible := by
  intro layout hlayout
  rw [layout?_replaceLayout (show o.layout.label.isLayout from rfl)] at hlayout
  obtain ⟨old, -, rfl⟩ := Option.map_eq_some_iff.mp hlayout
  rw [entryNames_inPlaceOf, entryNames_layout]
  rfl

end Node

/-!
The pass gets through the nodes in front of the first params block, and through those behind it.
-/

theorem enters_of_complete {o : Options} {outer : List Node} {n : Node}
    (hn : isParams o outer n = false) (hcomplete : n.Complete) (houter : ∀ c ∈ outer, c.Complete) :
    paramsLayout? o outer n = .ok none ∧ boundAt? [] n = .ok none := by
  obtain ⟨layout, hlayout⟩ := paramsLayout?_of_complete o hcomplete fun _ _ q hq =>
    (houter q (mem_of_mem_qualifiers _ (List.mem_of_head? hq))).legible
  obtain ⟨bound, hbound⟩ := boundAt?_of_readable hcomplete.readable []
  cases layout with
  | some layout =>
    rw [isParams_of_layout hlayout] at hn
    cases hn
  | none =>
    cases bound with
    | some x => exact absurd hbound (boundAt?_nil n x)
    | none => exact ⟨hlayout, hbound⟩

theorem visit_of_children_ok {o : Options} {preceding : List Node} {p : Progress} {n : Node}
    {r : List Node × Progress} (hlayout : paramsLayout? o preceding n = .ok none)
    (hbound : boundAt? p.sliders n = .ok none)
    (hr : (visitAll o [] (p.enter o n) n.children).result = .ok r) :
    ∃ v, (visit o preceding p n).result = .ok v := by
  rw [visit_of_children hlayout hbound, Logged.bind_of_ok hr]
  exact ⟨_, rfl⟩

mutual

theorem visit_unmarked_ok (o : Options) :
    (n : Node) → (outer : List Node) → (s : Bool) → Unmarked o outer n → n.Complete →
      (∀ c ∈ outer, c.Complete) → ∃ v, (visit o outer { stillImage := s } n).result = .ok v
  | .mk l cs, outer, s => by
    rintro ⟨hn, hcs⟩ hcomplete houter
    obtain ⟨hlayout, hbound⟩ := enters_of_complete hn hcomplete houter
    obtain ⟨r, hr⟩ := visitAll_unmarked_ok o cs []
      (s || (Node.mk l cs).defines o.stillImageMacro) hcs (fun c hc => hcomplete.of_mem hc)
      (by simp)
    exact visit_of_children_ok hlayout hbound hr

theorem visitAll_unmarked_ok (o : Options) :
    (cs left : List Node) → (s : Bool) → UnmarkedAmong o left cs → (∀ c ∈ cs, c.Complete) →
      (∀ c ∈ left, c.Complete) → ∃ r, (visitAll o left { stillImage := s } cs).result = .ok r
  | [], left, s => by
    intro _ _ _
    exact ⟨_, rfl⟩
  | c :: cs, left, s => by
    rintro ⟨hc, hcs⟩ hcomplete hleft
    obtain ⟨hcomplete, hcompletes⟩ := List.forall_mem_cons.mp hcomplete
    obtain ⟨v, hv⟩ := visit_unmarked_ok o c left s hc hcomplete hleft
    rw [visitAll_cons, visit_unmarked o c left s hc hv, pure_bind]
    apply visitAll_unmarked_ok o cs (left ++ [c]) _ hcs hcompletes
    simpa [or_imp, forall_and] using ⟨hleft, hcomplete⟩

end

mutual

theorem visit_ok (o : Options) :
    (n : Node) → (outer : List Node) → {outer' : List Node} → (p : Progress) → p.found = true →
      Everywhere Settled outer n → Forall₂ (Successor Alike) outer outer' → n.Complete →
      (∀ c ∈ outer, c.Plain → c.Legible) → ∃ v, (visit o outer' p n).result = .ok v
  | .mk l cs, outer, outer', p => by
    rintro hp ⟨hn, hcs⟩ houter hcomplete hlegible
    -- The pass may have emptied entries of a qualifier, but not of one that is looked at here.
    have hlayout : ∃ layout, paramsLayout? o outer' (.mk l cs) = .ok layout := by
      obtain ⟨layout, hlayout⟩ := paramsLayout?_of_complete o hcomplete fun hblock hown q hq =>
        hlegible q (mem_of_mem_qualifiers _ (List.mem_of_head? hq)) (hn hblock hown q hq)
      have hcongr := paramsLayout?_congr o hn houter
      rw [hlayout] at hcongr
      cases hlayout' : paramsLayout? o outer' (.mk l cs) with
      | error e =>
        rw [hlayout'] at hcongr
        cases hcongr
      | ok layout => exact ⟨layout, rfl⟩
    obtain ⟨layout, hlayout⟩ := hlayout
    obtain ⟨bound, hbound⟩ := boundAt?_of_readable hcomplete.readable p.sliders
    cases layout with
    | some layout =>
      obtain ⟨hblock, -⟩ := paramsLayout?_eq_some hlayout
      obtain ⟨start, hstart⟩ := Option.isSome_iff_exists.mp (hcomplete.readable.start hblock)
      rw [visit_of_extraBlock hlayout hp, skipBlock_of_start hstart]
      exact ⟨_, rfl⟩
    | none =>
      cases bound with
      | some x =>
        rw [visit_of_bound hlayout hbound]
        exact ⟨_, rfl⟩
      | none =>
        obtain ⟨r, hr⟩ := visitAll_ok o cs [] (p.enter o (.mk l cs)) hp hcs .nil
          (fun c hc => hcomplete.of_mem hc) (by simp)
        exact visit_of_children_ok hlayout hbound hr

theorem visitAll_ok (o : Options) :
    (cs left : List Node) → {left' : List Node} → (p : Progress) → p.found = true →
      EverywhereAmong Settled left cs → Forall₂ (Successor Alike) left left' →
      (∀ c ∈ cs, c.Complete) → (∀ c ∈ left, c.Plain → c.Legible) →
      ∃ r, (visitAll o left' p cs).result = .ok r
  | [], left, left', p => by
    intro _ _ _ _ _
    exact ⟨_, rfl⟩
  | c :: cs, left, left', p => by
    rintro hp ⟨hc, hcs⟩ hleft hcomplete hlegible
    obtain ⟨hcomplete, hcompletes⟩ := List.forall_mem_cons.mp hcomplete
    obtain ⟨v, hv⟩ := visit_ok o c left p hp hc hleft hcomplete hlegible
    obtain ⟨hrelayout, hfound, -⟩ := visit_found o c left' p hp hv
    have hleft' := List.rel_append hleft (visit_follows o c left p hp hc hleft hv).successors
    rw [visitAll_cons, Logged.bind_of_ok hv, hrelayout, if_neg (by simp)]
    apply visitAll_ok o cs (left ++ [c]) v.progress hfound hcs hleft' hcompletes
    simpa [or_imp, forall_and] using ⟨hlegible, fun _ => hcomplete.legible⟩

end

theorem visit_toward_of_complete {o : Options} {outer left right : List Node} {l : Label} {x : Node}
    (s : Bool) (hn : isParams o outer (.mk l (left ++ x :: right)) = false)
    (hleft : UnmarkedAmong o [] left) (hcomplete : (Node.mk l (left ++ x :: right)).Complete)
    (houter : ∀ c ∈ outer, c.Complete) :
    ∃ s', visit o outer { stillImage := s } (.mk l (left ++ x :: right)) =
      visit o left { stillImage := s' } x >>= fun v =>
        visitAll o
          ((if v.relayout then Node.replaceQualifierLayout o.layout left else left) ++ [v.node])
          v.progress right >>= fun r =>
          pure { node := .mk l r.1, progress := r.2 } := by
  obtain ⟨hlayout, hbound⟩ := enters_of_complete hn hcomplete houter
  obtain ⟨r, hr⟩ := visitAll_unmarked_ok o left []
    (s || (Node.mk l (left ++ x :: right)).defines o.stillImageMacro) hleft
    (fun c hc => hcomplete.of_mem (by simp [Node.children, hc])) (by simp)
  exact ⟨_, visit_toward hlayout hbound (visitAll_unmarked o left [] _ hleft hr)⟩

theorem Run.behind_ok {o : Options} {b : Node} {place : QualifierPlace} {sliders : List Slider}
    {k : Context} {v : Visited} {ws : List Warning} {l : Label} {left right : List Node}
    (h : Run o b place sliders left k v ws) (hleft : ∀ c ∈ left, c.Complete)
    (hright : ∀ c ∈ right, c.Complete)
    (hsettled : (Context.relaid o place (.child l left right k)).Behind Settled b) :
    ∃ r, (visitAll o
      ((if v.relayout then Node.replaceQualifierLayout o.layout left else left) ++ [v.node])
      v.progress right).result = .ok r := by
  obtain ⟨layout, hlayout⟩ := h.layout
  obtain ⟨hblock, -⟩ := paramsLayout?_eq_some hlayout
  rw [Context.relaid, ← h.relayout] at hsettled
  have hlegible : ∀ c ∈ (if v.relayout then Node.replaceQualifierLayout o.layout left else left),
      c.Legible := by
    split
    · apply Node.forall_mem_replaceQualifierLayout o.layout (fun c hc => (hleft c hc).legible)
        fun c _ => Node.legible_replaceLayout o c
    · exact fun c hc => (hleft c hc).legible
  generalize (if v.relayout then Node.replaceQualifierLayout o.layout left else left) = left'
    at hsettled hlegible ⊢
  apply visitAll_ok o right _ v.progress h.progress.1 hsettled.2
    (h.successors hblock (.convertBlock o place hblock) left') hright
  intro c hc hplain
  rcases List.mem_append.mp hc with hc | hc
  · exact hlegible c hc
  · rw [List.mem_singleton.mp hc] at hplain
    exact absurd hplain (Context.not_plain_plug _ hblock)

theorem visit_outcome {o : Options} (k : Context) {outer : List Node} {n b layout : Node}
    {place : QualifierPlace} (s : Bool) (hk : firstBlock? o outer n = some (k, b))
    (hlayout : paramsLayout? o (k.preceding outer) b = .ok (some (place, layout)))
    (hcomplete : n.Complete) (houter : ∀ c ∈ outer, c.Complete)
    (hsettled : (k.relaid o place).Behind Settled b) :
    (∀ e, (b.fields.mapM Slider.ofField).result = .error e →
        (visit o outer { stillImage := s } n).result = .error e) ∧
      (∀ sliders, (b.fields.mapM Slider.ofField).result = .ok sliders →
        ∃ v, (visit o outer { stillImage := s } n).result = .ok v) := by
  induction k generalizing outer n s with
  | root =>
    obtain ⟨-, -, rfl⟩ | ⟨-, l, left, x, right, c, -, hk, -⟩ := firstBlock?_eq_some hk
    · rw [Context.preceding] at hlayout
      rw [visit_of_block hlayout rfl]
      constructor
      · intro e he
        rw [takeBlock, Logged.bind_of_error he]
      · intro sliders hsliders
        rw [takeBlock_of_ok hsliders]
        exact ⟨_, rfl⟩
    · cases hk
  | child l left right k ih =>
    obtain ⟨-, hk, -⟩ | ⟨hn, l', left', x, right', k', rfl, hk, hleft, hx⟩ :=
      firstBlock?_eq_some hk
    · cases hk
    · cases hk
      obtain ⟨s', htoward⟩ := visit_toward_of_complete s hn hleft hcomplete houter
      have hleft' : ∀ c ∈ left, c.Complete :=
        fun c hc => hcomplete.of_mem (by simp [Node.children, hc])
      obtain ⟨herror, hok⟩ := ih s' hx hlayout (hcomplete.of_mem (by simp [Node.children])) hleft'
        hsettled.1
      rw [htoward]
      constructor
      · intro e he
        rw [Logged.bind_of_error (herror e he)]
      · intro sliders hsliders
        obtain ⟨v, hv⟩ := hok sliders hsliders
        -- The run up to the block tells what stands in front of the nodes that are left.
        obtain ⟨place', sliders', hrun⟩ := run_of_visit k hx hv
        obtain ⟨layout', hlayout'⟩ := hrun.layout
        cases hlayout.symm.trans hlayout'
        obtain ⟨r, hr⟩ := hrun.behind_ok hleft'
          (fun c hc => hcomplete.of_mem (by simp [Node.children, hc])) hsettled
        rw [Logged.bind_of_ok hv, Logged.bind_of_ok hr]
        exact ⟨_, rfl⟩

end ShaderParams
