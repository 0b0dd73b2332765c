import ShaderParams.Proofs.Members
import ShaderParams.Proofs.Remnant

/-!
This module contains the stability of an extraction: a second pass over the tree that the first one
left finds no params block and changes nothing.
-/

namespace ShaderParams

open List (Forall₂)

/-!
Below the converted block nothing is left to recognise.
-/

/-- A tree without lists of members, and with the parts of all member accesses. -/
def Node.Flat (n : Node) : Prop :=
  ∀ m ∈ n.walk, m.label.isFieldList = false ∧ m.Accessible

namespace Node.Flat

variable {n m : Node} {l : Label} {cs : List Node}

theorem mk (hl : l.isFieldList = false) (hn : (Node.mk l cs).Accessible) (h : ∀ c ∈ cs, c.Flat) :
    (Node.mk l cs).Flat := by
  intro m hm
  rw [walk_mk] at hm
  rcases List.mem_cons.mp hm with rfl | hm
  · exact ⟨hl, hn⟩
  · obtain ⟨c, hc, hm⟩ := mem_listWalk.mp hm
    exact h c hc m hm

theorem of_mem (h : (Node.mk l cs).Flat) {c : Node} (hc : c ∈ cs) : c.Flat :=
  fun m hm => h m (walk_subset_of_mem hc hm)

theorem self (h : n.Flat) : n.label.isFieldList = false ∧ n.Accessible :=
  h n (self_mem_walk n)

theorem of_alike (h : n.Flat) (hnm : Alike n m) : m.Flat := by
  intro y hy
  obtain ⟨x, hx, (hxy : Alike x y)⟩ := exists_mem_of_forall₂ (Alike.walk n hnm).flip hy
  obtain ⟨hlist, haccessible⟩ := h x hx
  refine ⟨(Remnant.of_alike hxy).isFieldList_eq.trans hlist, ?_⟩
  cases x with
  | mk l cs =>
    cases y with
    | mk l' ds =>
      exact Remnant.accessible (hxy.children_alike.imp fun _ _ => .of_alike) hxy.bare_label.symm
        haccessible

theorem defaultField (h : n.Flat) (field : Option String) : (n.defaultField field).Flat := by
  cases n with
  | mk l cs => exact .mk h.self.1 h.self.2 fun c hc => h.of_mem hc

theorem inPlaceOf (h : m.Flat) (old : Node) : (Node.inPlaceOf old m).Flat := by
  rw [Node.inPlaceOf, setLeading_eq_receive]
  exact (h.of_alike (.receive _ m)).defaultField _

theorem stripMember (h : n.Flat) (pending : Option String) : (n.stripMember pending).1.Flat := by
  unfold Node.stripMember
  split
  · next hfield =>
    cases n with
    | mk l cs =>
      have htype : l.type = "field_declaration" := beq_iff_eq.mp hfield
      have htype' : (l.receive pending).1.type = "field_declaration" :=
        (Label.read_receive Label.type (fun _ => rfl) pending l).trans htype
      rw [stripField]
      refine .mk ?_ ?_ ?_
      · rw [Label.isFieldList, htype']
        rfl
      · apply accessible_of_type_ne
        show (l.receive pending).1.type ≠ _
        rw [htype']
        decide
      · intro d hd
        obtain ⟨c, hc, (hcd : Alike c d)⟩ :=
          exists_mem_of_forall₂ (forall₂_dropMarked _ (markQualifiers label cs)).flip hd
        obtain ⟨m, hm, rfl⟩ := List.mem_map.mp hc
        have hmem := mem_of_mem_markQualifiers label (List.mem_of_mem_filter hm)
        exact (h.of_mem hmem).of_alike hcd
  · exact h.of_alike (.receive pending n)

theorem branch_iff {type : String} (h : type ∉ ["field_expression", "field_declaration_list"])
    (field : Option String) : (Node.branch type cs field).Flat ↔ ∀ c ∈ cs, c.Flat := by
  simp only [List.mem_cons, List.not_mem_nil, or_false, not_or] at h
  constructor
  · intro hn c hc
    exact hn.of_mem hc
  · exact .mk (beq_eq_false_iff_ne.mpr h.2) (accessible_of_type_ne h.1)

theorem token {type : String} (h : type ∉ ["field_expression", "field_declaration_list"])
    (text leading : String) (field : Option String) : (Node.token type text leading field).Flat := by
  simp only [List.mem_cons, List.not_mem_nil, or_false, not_or] at h
  exact .mk (beq_eq_false_iff_ne.mpr h.2) (accessible_of_type_ne h.1) (by simp)

theorem layout (o : Options) : o.layout.Flat := by
  simp [Options.layout, bindingLayout, bindingLayout.entry, symbol, Flat.branch_iff, Flat.token]

theorem ofDouble (x : Double) : (Node.ofDouble x).Flat := by
  rw [Node.ofDouble]
  split
  · simp [symbol, Flat.branch_iff, Flat.token]
  · simp [Flat.token]

mutual

theorem replaceLayout (o : Options) : (q : Node) → q.Flat → (Node.replaceLayout o.layout q).Flat
  | .mk l cs => by
    intro h
    rw [Node.replaceLayout]
    split
    · exact (layout o).inPlaceOf _
    · split
      · next hw =>
        refine .mk h.self.1 (accessible_of_type_ne ?_)
          (replaceFirstLayout o cs fun c hc => h.of_mem hc)
        intro htype
        rw [Label.isWrapper, show l.type = _ from htype] at hw
        cases hw
      · exact h

theorem replaceFirstLayout (o : Options) : (cs : List Node) → (∀ c ∈ cs, c.Flat) →
    ∀ c ∈ Node.replaceFirstLayout o.layout cs, c.Flat
  | [] => by
    intro h
    exact h
  | c :: cs => by
    intro h
    obtain ⟨hc, hcs⟩ := List.forall_mem_cons.mp h
    rw [Node.replaceFirstLayout]
    split
    · exact List.forall_mem_cons.mpr ⟨hc, replaceFirstLayout o cs hcs⟩
    · exact List.forall_mem_cons.mpr ⟨replaceLayout o c hc, hcs⟩

end

end Node.Flat

theorem idle_of_accessible {n : Node} (o : Options) (outer : List Node) (h : n.Accessible)
    (hcs : ∀ c ∈ n.children, c.label.isFieldList = false) : Idle o outer n where
  layout := by
    apply paramsLayout?_of_not_isBlock
    rw [Node.isBlock, Bool.and_eq_false_iff]
    exact .inl (List.any_eq_false.mpr fun c hc => by simp [hcs c hc])
  bound := boundAt?_nil_of_accessible h

mutual

theorem Node.Flat.idle (o : Options) : (n : Node) → n.Flat → ∀ outer, Everywhere (Idle o) outer n
  | .mk l cs => by
    intro h outer
    refine ⟨idle_of_accessible o outer h.self.2 fun c hc => (h.of_mem hc).self.1, ?_⟩
    exact flat_idleAmong o cs (fun c hc => h.of_mem hc) []

theorem flat_idleAmong (o : Options) :
    (cs : List Node) → (∀ c ∈ cs, c.Flat) → ∀ left, EverywhereAmong (Idle o) left cs
  | [] => by
    intro _ _
    trivial
  | c :: cs => by
    intro h left
    obtain ⟨hc, hcs⟩ := List.forall_mem_cons.mp h
    exact ⟨Node.Flat.idle o c hc left, flat_idleAmong o cs hcs _⟩

end

namespace Node

theorem flat_stripMembers (pending : Option String) {cs : List Node} (h : ∀ c ∈ cs, c.Flat) :
    ∀ c ∈ (stripMembers pending cs).1, c.Flat := by
  induction cs generalizing pending with
  | nil => exact h
  | cons c cs ih =>
    obtain ⟨hc, hcs⟩ := List.forall_mem_cons.mp h
    rw [stripMembers_cons]
    exact List.forall_mem_cons.mpr ⟨hc.stripMember pending, ih _ hcs⟩

theorem flat_receiveAll (pending : Option String) {cs : List Node} (h : ∀ c ∈ cs, c.Flat) :
    ∀ c ∈ (stripFirstFieldList.receiveAll pending cs).1, c.Flat := by
  induction cs generalizing pending with
  | nil => exact h
  | cons c cs ih =>
    obtain ⟨hc, hcs⟩ := List.forall_mem_cons.mp h
    rw [receiveAll_cons]
    exact List.forall_mem_cons.mpr ⟨hc.of_alike (.receive pending c), ih _ hcs⟩

theorem listWalk_append (cs ds : List Node) :
    listWalk (cs ++ ds) = listWalk cs ++ listWalk ds := by
  rw [listWalk_eq_flatMap, listWalk_eq_flatMap, listWalk_eq_flatMap, List.flatMap_append]

/-- Around the only list of members of a block, and in it, all trees are flat. -/
theorem flat_of_countP {l : Label} {front behind : List Node} {list : Node}
    (hlist : list.label.isFieldList)
    (hcount : (mk l (front ++ list :: behind)).walk.countP (fun m => m.label.isFieldList) = 1)
    (hn : ∀ m ∈ (mk l (front ++ list :: behind)).walk, m.Accessible) :
    (∀ c ∈ front, c.Flat) ∧ (∀ c ∈ list.children, c.Flat) ∧ ∀ c ∈ behind, c.Flat := by
  have hflat : ∀ cs : List Node, (listWalk cs).countP (fun m => m.label.isFieldList) = 0 →
      (∀ m ∈ listWalk cs, m.Accessible) → ∀ c ∈ cs, c.Flat := by
    intro cs hzero hcs c hc m hm
    have hmem := mem_listWalk.mpr ⟨c, hc, hm⟩
    exact ⟨by simpa using List.countP_eq_zero.mp hzero m hmem, hcs m hmem⟩
  cases list with
  | mk l' cs =>
    rw [walk_mk, listWalk_append, listWalk, walk_mk] at hcount hn
    simp only [List.countP_cons, List.countP_append, List.cons_append, hlist, ↓reduceIte] at hcount
    simp only [List.mem_cons, List.mem_append, List.cons_append, or_imp, forall_and] at hn
    obtain ⟨-, hfront, -, hcs, hbehind⟩ := hn
    exact ⟨hflat front (by omega) hfront, hflat cs (by omega) hcs, hflat behind (by omega) hbehind⟩

end Node

theorem idle_stripFieldList (o : Options) (outer : List Node) {list : Node}
    (hlist : list.label.isFieldList) (h : ∀ c ∈ list.children, c.Flat) :
    Everywhere (Idle o) outer (list.stripFieldList none).1 := by
  cases list with
  | mk l cs =>
    have htype : l.type = "field_declaration_list" := beq_iff_eq.mp hlist
    have hcs : ∀ c ∈ (Node.stripMembers none cs).1, c.Flat := Node.flat_stripMembers none h
    refine ⟨idle_of_accessible o outer ?_ fun c hc => (hcs c hc).self.1, ?_⟩
    · apply Node.accessible_of_type_ne
      show l.type ≠ _
      rw [htype]
      decide
    · exact flat_idleAmong o _ hcs []

theorem idle_convertBlock {o : Options} (hmarker : o.marker ≠ "set") {preceding outer : List Node}
    {n layout : Node} (h : paramsLayout? o preceding n = .ok (some (.own, layout)))
    (hcount : n.walk.countP (fun m => m.label.isFieldList) = 1)
    (hn : ∀ m ∈ n.walk, m.Accessible) :
    Everywhere (Idle o) outer (n.convertBlock o .own none).1 := by
  obtain ⟨hblock, -⟩ := paramsLayout?_eq_some h
  have hnone := Node.paramsLayout?_convertBlock o hmarker h outer
  have hremnants := Node.remnants_convertBlock o hblock
  obtain ⟨front, list, behind, hsplit, hfront, hlist⟩ := Node.exists_fieldList hblock
  cases n with
  | mk l cs =>
    rw [Node.children] at hsplit
    subst hsplit
    obtain ⟨hflat, hmembers, hflat'⟩ := Node.flat_of_countP hlist hcount hn
    rw [Node.convertBlock_append o .own l hfront hlist, if_pos rfl] at hnone hremnants ⊢
    have hbound := Remnant.accessible hremnants rfl (hn _ (Node.self_mem_walk _))
    refine ⟨⟨hnone, boundAt?_nil_of_accessible hbound⟩, ?_⟩
    rw [EverywhereAmong.append]
    refine ⟨flat_idleAmong o _ ?_ [], idle_stripFieldList o _ hlist hmembers, ?_⟩
    · exact Node.forall_mem_replaceQualifierLayout o.layout hflat fun c hc =>
        .replaceLayout o c (hflat c hc)
    · exact flat_idleAmong o _ (Node.flat_receiveAll _ hflat') _

/-!
The whole tree that the pass leaves.
-/

/-- Member accesses are no tokens, and none stands inside a layout specification. -/
structure Node.Ordinary (n : Node) : Prop where
  tokens : ∀ m ∈ n.walk, m.type = "field_expression" → m.isToken = false
  layouts : ∀ m ∈ n.walk, m.label.isLayout → ∀ x ∈ m.walk, x.type ≠ "field_expression"

theorem Node.Ordinary.of_mem {n c : Node} (h : n.Ordinary) (hc : c ∈ n.children) : c.Ordinary where
  tokens := fun m hm => h.tokens m (walk_subset_of_mem hc hm)
  layouts := fun m hm => h.layouts m (walk_subset_of_mem hc hm)

def Warning.isExtraBlock : Warning → Bool
  | extraBlock _ => true
  | _ => false

mutual

theorem visit_remnant {o : Options} (hmarker : o.marker ≠ "set") :
    (n : Node) → (outer : List Node) → (p : Progress) → p.found = true → n.Ordinary →
      {v : Visited} → (visit o outer p n).result = .ok v →
      (∀ w ∈ (visit o outer p n).warnings, ¬ w.isExtraBlock) →
      Remnant n v.node ∧ Everywhere (Idle o) outer v.node
  | .mk l cs, outer, p => by
    intro hp hn v hv hwarnings
    -- The names in a layout are read off texts, so that here nothing but trivia may have changed.
    have halike : l.isLayout → Alike (.mk l cs) v.node := by
      intro hl
      obtain ⟨-, hnode⟩ := visit_receives o (.mk l cs) outer p
        (hn.layouts _ (Node.self_mem_walk _) hl) (.inl hp) hv
      rw [show v.node = ((Node.mk l cs).receive p.pending).1 from congrArg Prod.fst hnode]
      apply Alike.receive
    obtain ⟨layout, hlayout⟩ | ⟨hlayout, x, hx⟩ | ⟨hlayout, hbound⟩ := visit_cases hv
    · rw [visit_of_extraBlock hlayout hp] at hv hwarnings
      obtain ⟨start, hstart⟩ := exists_start_of_skipBlock hv
      rw [skipBlock_of_start hstart] at hwarnings
      exact absurd rfl (hwarnings _ List.mem_cons_self)
    · have htype : (Node.mk l cs).type = "field_expression" := by
        by_contra htype
        rw [boundAt?_of_type_ne _ htype] at hx
        cases hx
      rw [visit_of_bound hlayout hx] at hv
      cases hv
      exact ⟨.putLiteral p htype (hn.tokens _ (Node.self_mem_walk _) htype),
        ((Node.Flat.ofDouble x).inPlaceOf _).idle o _ outer⟩
    · rw [visit_of_children hlayout hbound] at hv hwarnings
      obtain ⟨r, hr, hv⟩ := Logged.result_bind_eq_ok hv
      rw [Logged.bind_of_ok hr] at hwarnings
      cases hv
      obtain ⟨ds, hds, hremnants, hidle⟩ := visitAll_remnant hmarker cs [] (p.enter o (.mk l cs)) hp
        (fun c hc => hn.of_mem hc) hr (List.forall_mem_append.mp hwarnings).1
      rw [List.nil_append] at hds
      subst hds
      have hlabel := Label.bare_receive p.pending l
      exact ⟨.of_children hremnants hlabel halike,
        Remnant.idle hmarker hremnants hlabel hlayout hbound, hidle⟩

theorem visitAll_remnant {o : Options} (hmarker : o.marker ≠ "set") :
    (cs left : List Node) → (p : Progress) → p.found = true → (∀ c ∈ cs, c.Ordinary) →
      {r : List Node × Progress} → (visitAll o left p cs).result = .ok r →
      (∀ w ∈ (visitAll o left p cs).warnings, ¬ w.isExtraBlock) →
      ∃ ds, r.1 = left ++ ds ∧ Forall₂ Remnant cs ds ∧ EverywhereAmong (Idle o) left ds
  | [], left, p => by
    intro _ _ r hr _
    rw [visitAll_nil] at hr
    cases hr
    exact ⟨[], by simp, .nil, trivial⟩
  | c :: cs, left, p => by
    intro hp hcs r hr hwarnings
    obtain ⟨hc, hcs⟩ := List.forall_mem_cons.mp hcs
    rw [visitAll_cons] at hr hwarnings
    obtain ⟨v, hv, hr⟩ := Logged.result_bind_eq_ok hr
    rw [Logged.bind_of_ok hv] at hwarnings
    obtain ⟨hwarnings, hwarnings'⟩ := List.forall_mem_append.mp hwarnings
    obtain ⟨hrelayout, hfound, -⟩ := visit_found o c left p hp hv
    obtain ⟨hremnant, hidle⟩ := visit_remnant hmarker c left p hp hc hv hwarnings
    rw [hrelayout, if_neg (by simp)] at hr hwarnings'
    obtain ⟨ds, hds, hremnants, hidles⟩ :=
      visitAll_remnant hmarker cs _ v.progress hfound hcs hr hwarnings'
    exact ⟨v.node :: ds, by simp [hds], .cons hremnant hremnants, hidle, hidles⟩

end

/-- The labels of the nodes around the hole of a tree. -/
def Context.around : Context → List Label
  | root => []
  | child l _ _ c => l :: c.around

theorem visit_first_remnant {o : Options} (hmarker : o.marker ≠ "set") (k : Context)
    {outer : List Node} {n b : Node} {s : Bool} {v : Visited}
    (hk : firstBlock? o outer n = some (k, b))
    (hv : (visit o outer { stillImage := s } n).result = .ok v)
    (hwarnings : ∀ w ∈ (visit o outer { stillImage := s } n).warnings, ¬ w.isExtraBlock)
    (hn : n.Ordinary)
    (hown : SelfQualified (k.preceding outer) b)
    (haround : ∀ l ∈ b.label :: k.around, ¬ l.isLayout)
    (hcount : b.walk.countP (fun m => m.label.isFieldList) = 1)
    (hb : ∀ m ∈ b.walk, m.Accessible) :
    v.relayout = false ∧ Remnant n v.node ∧ Everywhere (Idle o) outer v.node := by
  induction k generalizing outer n s v with
  | root =>
    obtain ⟨hn, -, rfl⟩ | ⟨-, l, left, x, right, c, -, hk, -⟩ := firstBlock?_eq_some hk
    · obtain ⟨⟨place, layout⟩, hlayout⟩ := exists_layout_of_isParams hn
      obtain ⟨rfl, -⟩ := hown.own hlayout
      obtain ⟨hblock, -⟩ := paramsLayout?_eq_some hlayout
      rw [visit_of_block hlayout rfl] at hv
      obtain ⟨sliders, hsliders, -⟩ := Logged.result_bind_eq_ok hv
      rw [takeBlock_of_ok hsliders] at hv
      cases hv
      exact ⟨rfl, Node.remnant_convertBlock o hblock (haround _ List.mem_cons_self),
        idle_convertBlock hmarker hlayout hcount hb⟩
    · cases hk
  | child l left right k ih =>
    obtain ⟨-, hk, -⟩ | ⟨hn', l', left', x, right', k', rfl, hk, hleft, hx⟩ :=
      firstBlock?_eq_some hk
    · cases hk
    · cases hk
      obtain ⟨s', hlayout, hbound, hpure⟩ := toward_of_visit hn' hleft hv
      have hidle := idle_of_visitAll o left [] _ hleft (congrArg Logged.result hpure)
      rw [visit_toward hlayout hbound hpure] at hv hwarnings
      obtain ⟨w, hw, hv⟩ := Logged.result_bind_eq_ok hv
      obtain ⟨r, hr, hv⟩ := Logged.result_bind_eq_ok hv
      cases hv
      obtain ⟨place, sliders, hrun⟩ := run_of_visit k hx hw
      rw [Logged.bind_of_ok hw, Logged.bind_of_ok hr] at hwarnings
      obtain ⟨hwarnings, hwarnings'⟩ := List.forall_mem_append.mp hwarnings
      obtain ⟨hrelayout, hremnant, hidle'⟩ := ih hx hw hwarnings
        (hn.of_mem (by simp [Node.children])) hown
        (fun m hm => haround m (by simp at hm ⊢; tauto))
      rw [hrelayout, if_neg (by simp)] at hr hwarnings'
      obtain ⟨ds, hds, hremnants, hidles⟩ := visitAll_remnant hmarker right _ w.progress
        hrun.progress.1 (fun c hc => hn.of_mem (by simp [Node.children, hc])) hr
        (List.forall_mem_append.mp hwarnings').1
      -- In front of the block nothing has changed, and no layout there was replaced.
      have hall : Forall₂ Remnant (left ++ x :: right) (left ++ w.node :: ds) :=
        List.rel_append (List.forall₂_same.mpr fun c _ => .refl c) (.cons hremnant hremnants)
      rw [List.append_assoc, List.singleton_append] at hds
      simp only [hds]
      refine ⟨trivial, ?_, Remnant.idle hmarker hall rfl hlayout hbound, ?_⟩
      · exact .of_children hall rfl fun hl => absurd hl (haround l (by simp [Context.around]))
      · rw [EverywhereAmong.append]
        exact ⟨hidle, hidle', hidles⟩

theorem firstBlock?_of_unmarked {o : Options} {outer : List Node} {n : Node}
    (h : Unmarked o outer n) : firstBlock? o outer n = none := by
  cases hb : firstBlock? o outer n with
  | none => rfl
  | some x =>
    obtain ⟨c, b⟩ := x
    obtain ⟨rfl, hparams⟩ := plug_of_firstBlock? c hb
    rw [Everywhere.at_hole c b h] at hparams
    cases hparams

/--
A second extraction leaves what the first one wrote: in the tree of the text there is no params
block and no bound of a slider any more.
-/
theorem extract_again {o : Options} {source : String} {d : Document} {e : Extraction} {c : Context}
    {b : Node} (hmarker : o.marker ≠ "set") (he : (extract o source d).result = .ok e)
    (hb : firstBlock? o [] d.root = some (c, b))
    (hwarnings : ∀ w ∈ (extract o source d).warnings, ¬ w.isExtraBlock)
    (hown : Everywhere SelfQualified [] d.root)
    (hlayouts : ∀ m ∈ d.root.walk, m.label.isLayout → ∀ x ∈ m.walk, x.type ≠ "field_expression")
    (hlists : b.walk.countP (fun m => m.label.isFieldList) = 1)
    (haccess : ∀ m ∈ b.walk, m.Accessible)
    (haround : ∀ l ∈ b.label :: c.around, ¬ l.isLayout)
    (htokens : ∀ m ∈ d.root.walk, m.type = "field_expression" → m.isToken = false) :
    ∃ v, (visit o [] {} d.root).result = .ok v ∧
      e.source = Document.render ⟨v.node, d.trailing⟩ ∧
      firstBlock? o [] v.node = none ∧
      (visit o [] {} v.node).result.map Visited.node = .ok v.node ∧
      extract o e.source ⟨v.node, d.trailing⟩ =
        ⟨[], .ok ⟨{ stillImage := v.node.walk.any fun m => m.defines o.stillImageMacro },
          e.source⟩⟩ := by
  obtain ⟨place, v, hv, -, hsource⟩ := extract_found he hb
  obtain ⟨hroot, -⟩ := plug_of_firstBlock? c hb
  rw [extract, Logged.bind_of_ok hv] at hwarnings
  obtain ⟨-, -, hidle⟩ := visit_first_remnant hmarker c hb hv (List.forall_mem_append.mp hwarnings).1
    ⟨htokens, hlayouts⟩ (Everywhere.at_hole c b (hroot.symm ▸ hown)) haround hlists haccess
  have hvisit := visit_idle o v.node [] false hidle
  refine ⟨v, hv, hsource, ?_, ?_, ?_⟩
  · apply firstBlock?_of_unmarked
    exact hidle.imp (fun _ _ h => isParams_of_none h.layout) _ _
  · rw [show visit o [] {} v.node = _ from hvisit]
    rfl
  · rw [extract, show visit o [] {} v.node = _ from hvisit, pure_bind]
    rfl

/--
The tree of a text with a params block, a block with another layout, and a member access inside and
behind the params block.
-/
def steadyTree : Node :=
  .branch "translation_unit" [
    .branch "declaration" [
      .branch "type_qualifier" [layout [.token "identifier" "params"]],
      .symbol "uniform" " ",
      .token "identifier" "P" " ",
      .branch "field_declaration_list" [
        .symbol "\x7b" " ",
        .branch "field_declaration" [
          layout [.token "identifier" "max", .symbol "=" " ", .token "number_literal" "2" " "],
          .token "primitive_type" "float" " ",
          .token "field_identifier" "a" " ",
          .symbol ";"],
        access,
        .symbol "\x7d" " "],
      .symbol ";"],
    .branch "declaration" [
      layout [.token "identifier" "std140"],
      .token "identifier" "Q" " ",
      .branch "field_declaration_list" [.symbol "\x7b" " ", access, .symbol "\x7d" " "],
      .symbol ";"],
    access]
where
  layout (entry : List Node) : Node :=
    .branch "layout_specification" (.symbol "layout" :: .symbol "(" :: (entry ++ [.symbol ")"]))
  access : Node :=
    .branch "field_expression" [
      .token "identifier" "a" " " (some "argument"),
      .symbol ".",
      .token "field_identifier" "max" "" (some "field")]

theorem extract_again_steadyTree :
    ∃ e c b v, (extract {} "" ⟨steadyTree, "\n"⟩).result = .ok e ∧
      firstBlock? {} [] steadyTree = some (c, b) ∧
      (∀ w ∈ (extract {} "" ⟨steadyTree, "\n"⟩).warnings, ¬ w.isExtraBlock) ∧
      Everywhere SelfQualified [] steadyTree ∧
      (∀ m ∈ steadyTree.walk, m.label.isLayout → ∀ x ∈ m.walk, x.type ≠ "field_expression") ∧
      b.walk.countP (fun m => m.label.isFieldList) = 1 ∧
      (∀ m ∈ b.walk, m.Accessible) ∧
      (∀ l ∈ b.label :: c.around, ¬ l.isLayout) ∧
      (∀ m ∈ steadyTree.walk, m.type = "field_expression" → m.isToken = false) ∧
      (visit {} [] {} steadyTree).result = .ok v ∧
      firstBlock? {} [] v.node = none ∧
      (extract {} e.source ⟨v.node, "\n"⟩).result.map Extraction.source = .ok e.source := by
  have hwarnings : ∀ w ∈ (extract {} "" ⟨steadyTree, "\n"⟩).warnings, ¬ w.isExtraBlock := by
    decide +kernel
  have hown : Everywhere SelfQualified [] steadyTree := by decide +kernel
  have hlayouts : ∀ m ∈ steadyTree.walk, m.label.isLayout →
      ∀ x ∈ m.walk, x.type ≠ "field_expression" := by
    decide +kernel
  have hblock : ∀ x ∈ firstBlock? {} [] steadyTree,
      x.2.walk.countP (fun m => m.label.isFieldList) = 1 ∧ (∀ m ∈ x.2.walk, m.Accessible) ∧
        ∀ l ∈ x.2.label :: x.1.around, ¬ l.isLayout := by
    decide +kernel
  have htokens : ∀ m ∈ steadyTree.walk, m.type = "field_expression" → m.isToken = false := by
    decide +kernel
  have hsome : (firstBlock? {} [] steadyTree).isSome := by decide +kernel
  have hok : (extract {} "" ⟨steadyTree, "\n"⟩).result.isOk := by decide +kernel
  obtain ⟨⟨c, b⟩, hb⟩ := Option.isSome_iff_exists.mp hsome
  obtain ⟨e, he⟩ := Logged.exists_of_isOk hok
  obtain ⟨hlists, haccess, haround⟩ := hblock _ hb
  obtain ⟨v, hv, -, hnone, -, hagain⟩ := extract_again (o := {}) (d := ⟨steadyTree, "\n"⟩)
    (by decide) he hb hwarnings hown hlayouts hlists haccess haround htokens
  refine ⟨e, c, b, v, he, hb, hwarnings, hown, hlayouts, hlists, haccess, haround, htokens, hv, hnone,
    ?_⟩
  rw [hagain]
  rfl

/-- A tree with one params block of which a second extraction does not leave the text alone. -/
def Restless (t : Node) : Prop :=
  (extract {} "" ⟨t, ""⟩).result.isOk ∧
    (∀ w ∈ (extract {} "" ⟨t, ""⟩).warnings, ¬ w.isExtraBlock) ∧
    Everywhere SelfQualified [] t ∧
    (∀ m ∈ t.walk, m.label.isLayout → ∀ x ∈ m.walk, x.type ≠ "field_expression") ∧
    ((firstBlock? {} [] t).any fun x => x.2.walk.countP (fun m => m.label.isFieldList) == 1) ∧
    ∀ e ∈ (extract {} "" ⟨t, ""⟩).result.toOption, ∀ v ∈ (visit {} [] {} t).result.toOption,
      (extract {} e.source ⟨v.node, ""⟩).result.toOption.map Extraction.source ≠ some e.source

/-- A params block with a member access that has no parts. -/
def partlessTree : Node :=
  .branch "translation_unit" [block [.branch "field_expression" [.symbol "."]]]
where
  layout : Node :=
    .branch "layout_specification" [
      .symbol "layout", .symbol "(", .token "identifier" "params", .symbol ")"]
  members (ms : List Node) : Node :=
    .branch "field_declaration_list" (.symbol "\x7b" :: (ms ++ [.symbol "\x7d"]))
  block (ms : List Node) : Node :=
    .branch "declaration" [layout, members ms]

/-- A params block inside the layout of another block, which takes a name from one of its fields. -/
def nestedTree : Node :=
  .branch "declaration" [
    .branch "layout_specification" [partlessTree.block [
      .branch "field_declaration" [
        .symbol "(", .symbol "flat", .token "identifier" "params" " ", .symbol ")",
        .token "primitive_type" "float" " ", .token "field_identifier" "a" " ", .symbol ";"]]],
    partlessTree.members []]

/-- A member access that is a qualifier in front of the layout of another block. -/
def keywordTree : Node :=
  .branch "translation_unit" [
    partlessTree.block [
      .branch "field_declaration" [
        .token "primitive_type" "float" " ", .token "field_identifier" "a" " ", .symbol ";"]],
    .branch "declaration" [
      .mk { type := "field_expression", text := some "in" } [
        .token "identifier" "a" "" (some "argument"),
        .token "field_identifier" "min" "" (some "field")],
      partlessTree.layout, partlessTree.members []]]

theorem restless_trees : Restless partlessTree ∧ Restless nestedTree ∧ Restless keywordTree := by
  unfold Restless
  decide +kernel

end ShaderParams
