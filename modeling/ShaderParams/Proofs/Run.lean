import ShaderParams.Proofs.Pass

/-!
This module contains the runs of the pass through trees with a params block: what the pass does on
its way to the first one, and what the whole run leaves.
-/

namespace ShaderParams

open List (Forall₂)

namespace Context

def isRoot : Context → Bool
  | root => true
  | child .. => false

/--
The tree around a params block once the block is converted: a layout in front of the block is
replaced.
-/
def relaid (o : Options) (place : QualifierPlace) : Context → Context
  | root => root
  | child l left right c =>
    child l
      (if c.isRoot && place == .preceding then Node.replaceQualifierLayout o.layout left else left)
      right (c.relaid o place)

theorem relaid_own (o : Options) (c : Context) : c.relaid o .own = c := by
  induction c with
  | root => rfl
  | child l left right c ih =>
    rw [relaid, ih, if_neg (by simp)]

theorem walk_subset_plug (c : Context) {n m : Node} (h : m ∈ n.walk) : m ∈ (c.plug n).walk := by
  induction c with
  | root => exact h
  | child l left right c ih => exact Node.walk_subset_of_mem (by simp [plug, Node.children]) ih

theorem not_plain_plug (c : Context) {n : Node} (h : n.isBlock) : ¬ (c.plug n).Plain := by
  intro hplain
  have hn := (hplain n (walk_subset_plug c (Node.self_mem_walk n))).2
  rw [h] at hn
  cases hn

end Context

theorem Successor.of_label {R : Node → Node → Prop} {n m : Node} (h : m.label = n.label)
    (hn : ¬ n.Plain) : Successor R n m where
  isComment_eq := by rw [h]
  endsQualifiers_eq := by rw [h]
  isQualifier_imp := by
    rw [h]
    exact id
  related := fun hplain => absurd hplain hn

/-- The params block after the pass went through it. -/
def taken (o : Options) (place : QualifierPlace) (b : Node) (sliders : List Slider)
    (stillImage : Bool) : Visited where
  node := (b.convertBlock o place none).1
  relayout := place == .preceding
  progress := { sliders, found := true, stillImage, pending := (b.convertBlock o place none).2 }

/--
A run of the pass through the tree `k.plug b`, in which `b` is the first params block, with what the
run leaves and its warnings.
-/
inductive Run (o : Options) (b : Node) (place : QualifierPlace) (sliders : List Slider) :
    List Node → Context → Visited → List Warning → Prop where
  | block {outer : List Node} {layout : Node} {stillImage : Bool}
      (hlayout : paramsLayout? o outer b = .ok (some (place, layout)))
      (hsliders : (b.fields.mapM Slider.ofField).result = .ok sliders) :
      Run o b place sliders outer .root (taken o place b sliders stillImage)
        (b.fields.mapM Slider.ofField).warnings
  | child {outer left right : List Node} {l : Label} {k : Context} {v : Visited}
      {r : List Node × Progress} {ws vs : List Warning}
      (inner : Run o b place sliders left k v ws)
      (behind : visitAll o
        ((if v.relayout then Node.replaceQualifierLayout o.layout left else left) ++ [v.node])
        v.progress right = ⟨vs, .ok r⟩) :
      Run o b place sliders outer (.child l left right k) { node := .mk l r.1, progress := r.2 }
        (ws ++ vs)

theorem takeBlock_of_ok {o : Options} {place : QualifierPlace} {b : Node} {sliders : List Slider}
    {stillImage : Bool} (h : (b.fields.mapM Slider.ofField).result = .ok sliders) :
    takeBlock o place b { stillImage } =
      ⟨(b.fields.mapM Slider.ofField).warnings, .ok (taken o place b sliders stillImage)⟩ := by
  rw [takeBlock, Logged.bind_of_ok h]
  simp [Logged.pure_def, taken]

theorem visit_toward {o : Options} {outer left right : List Node} {l : Label} {x : Node}
    {s s' : Bool} (hlayout : paramsLayout? o outer (.mk l (left ++ x :: right)) = .ok none)
    (hbound : boundAt? [] (.mk l (left ++ x :: right)) = .ok none)
    (hleft : visitAll o []
      { stillImage := s || (Node.mk l (left ++ x :: right)).defines o.stillImageMacro } left =
        pure (left, { stillImage := s' })) :
    visit o outer { stillImage := s } (.mk l (left ++ x :: right)) =
      visit o left { stillImage := s' } x >>= fun v =>
        visitAll o
          ((if v.relayout then Node.replaceQualifierLayout o.layout left else left) ++ [v.node])
          v.progress right >>= fun r =>
          pure { node := .mk l r.1, progress := r.2 } := by
  rw [visit_of_children hlayout hbound]
  simp only [Progress.enter, Node.children, Label.receive, Node.reenter, Node.label]
  rw [visitAll_append, hleft, pure_bind, visitAll_cons, bind_assoc]

/-- Nothing changes up to the child that has the first params block in it. -/
theorem toward_of_visit {o : Options} {outer left right : List Node} {l : Label} {x : Node}
    {s : Bool} {v : Visited} (hn : isParams o outer (.mk l (left ++ x :: right)) = false)
    (hleft : UnmarkedAmong o [] left)
    (hv : (visit o outer { stillImage := s } (.mk l (left ++ x :: right))).result = .ok v) :
    ∃ s', paramsLayout? o outer (.mk l (left ++ x :: right)) = .ok none ∧
      boundAt? [] (.mk l (left ++ x :: right)) = .ok none ∧
      visitAll o []
        { stillImage := s || (Node.mk l (left ++ x :: right)).defines o.stillImageMacro } left =
          pure (left, { stillImage := s' }) := by
  obtain ⟨layout, hlayout⟩ | ⟨-, x, hx⟩ | ⟨hlayout, hbound⟩ := visit_cases hv
  · rw [isParams_of_layout hlayout] at hn
    cases hn
  · exact absurd hx (boundAt?_nil _ x)
  · rw [visit_of_children hlayout hbound] at hv
    obtain ⟨r, hr, -⟩ := Logged.result_bind_eq_ok hv
    rw [Node.children, visitAll_append] at hr
    obtain ⟨r', hr', -⟩ := Logged.result_bind_eq_ok hr
    exact ⟨_, hlayout, hbound, visitAll_unmarked o left [] _ hleft hr'⟩

theorem run_of_visit {o : Options} (k : Context) {outer : List Node} {n b : Node} {s : Bool}
    {v : Visited} (hk : firstBlock? o outer n = some (k, b))
    (hv : (visit o outer { stillImage := s } n).result = .ok v) :
    ∃ place sliders,
      Run o b place sliders outer k v (visit o outer { stillImage := s } n).warnings := by
  induction k generalizing outer n s v with
  | root =>
    obtain ⟨hn, -, rfl⟩ | ⟨-, l, left, x, right, c, -, hk, -⟩ := firstBlock?_eq_some hk
    · obtain ⟨⟨place, layout⟩, hlayout⟩ := exists_layout_of_isParams hn
      rw [visit_of_block hlayout rfl] at hv ⊢
      obtain ⟨sliders, hsliders, -⟩ := Logged.result_bind_eq_ok hv
      rw [takeBlock_of_ok hsliders] at hv ⊢
      cases hv
      exact ⟨place, sliders, .block hlayout hsliders⟩
    · cases hk
  | child l left right k ih =>
    obtain ⟨-, hk, -⟩ | ⟨hn, l', left', x, right', k', rfl, hk, hleft, hx⟩ :=
      firstBlock?_eq_some hk
    · cases hk
    · cases hk
      obtain ⟨s', hlayout, hbound, hpure⟩ := toward_of_visit hn hleft hv
      rw [visit_toward hlayout hbound hpure] at hv ⊢
      obtain ⟨w, hw, hv⟩ := Logged.result_bind_eq_ok hv
      obtain ⟨r, hr, hv⟩ := Logged.result_bind_eq_ok hv
      cases hv
      obtain ⟨place, sliders, hrun⟩ := ih hx hw
      rw [Logged.bind_of_ok hw, Logged.bind_of_ok hr, Logged.pure_def, List.append_nil]
      exact ⟨place, sliders, .child hrun (by rw [← hr])⟩

theorem label_convertBlock (o : Options) (place : QualifierPlace) (n : Node) :
    (n.convertBlock o place none).1.label = n.label := by
  cases n with
  | mk l cs => cases place <;> rfl

theorem Successor.convertBlock (o : Options) (place : QualifierPlace) {n : Node}
    (h : n.isBlock) : Successor Alike n (n.convertBlock o place none).1 :=
  .of_label (label_convertBlock o place n) (Context.not_plain_plug .root h)

theorem length_replaceQualifierLayout (new : Node) (cs : List Node) :
    (Node.replaceQualifierLayout new cs).length = cs.length := by
  induction cs with
  | nil => rfl
  | cons c cs ih =>
    rw [Node.replaceQualifierLayout_cons]
    split
    · simp [ih]
    · split
      · rfl
      · split <;> simp [ih]

namespace Run

variable {o : Options} {b : Node} {place : QualifierPlace} {sliders : List Slider}
  {outer : List Node} {k : Context} {v : Visited} {ws : List Warning}

theorem layout (h : Run o b place sliders outer k v ws) :
    ∃ layout, paramsLayout? o (k.preceding outer) b = .ok (some (place, layout)) := by
  induction h with
  | block hlayout _ => exact ⟨_, hlayout⟩
  | child _ _ ih => exact ih

theorem fields (h : Run o b place sliders outer k v ws) :
    (b.fields.mapM Slider.ofField).result = .ok sliders := by
  induction h with
  | block _ hsliders => exact hsliders
  | child _ _ ih => exact ih

theorem relayout (h : Run o b place sliders outer k v ws) :
    v.relayout = (k.isRoot && place == .preceding) := by
  cases h with
  | block _ _ => rfl
  | child _ _ => rfl

theorem progress (h : Run o b place sliders outer k v ws) :
    v.progress.found = true ∧ v.progress.sliders = sliders := by
  induction h with
  | block _ _ => exact ⟨rfl, rfl⟩
  | child inner behind ih =>
    obtain ⟨-, hfound, hsliders⟩ :=
      visitAll_found o _ _ _ ih.1 (congrArg Logged.result behind)
    exact ⟨hfound, hsliders.trans ih.2⟩

theorem label_node (h : Run o b place sliders outer k v ws) : v.node.label = (k.plug b).label := by
  cases h with
  | block _ _ => exact label_convertBlock o place b
  | child _ _ => rfl

theorem node (h : Run o b place sliders outer k v ws) :
    ∃ k' : Context, k'.address = k.address ∧ v.node = k'.plug (b.convertBlock o place none).1 := by
  induction h with
  | block _ _ => exact ⟨.root, rfl, rfl⟩
  | @child outer left right l k v r ws vs inner behind ih =>
    obtain ⟨k', haddress, hnode⟩ := ih
    obtain ⟨⟨ds, hds⟩, -⟩ :=
      visitAll_found o _ _ _ inner.progress.1 (congrArg Logged.result behind)
    generalize hleft : (if v.relayout then Node.replaceQualifierLayout o.layout left else left)
      = left' at hds
    have hlength : left'.length = left.length := by
      rw [← hleft]
      split
      · apply length_replaceQualifierLayout
      · rfl
    refine ⟨.child l left' ds k', ?_, ?_⟩
    · simp [Context.address, hlength, haddress]
    · simp [Context.plug, hds, hnode]

theorem successor (h : Run o b place sliders outer k v ws) {b' : Node} (hblock : b'.isBlock)
    (hb : Successor Alike b' (b.convertBlock o place none).1) :
    Successor Alike ((k.relaid o place).plug b') v.node := by
  cases h with
  | block _ _ => exact hb
  | child _ _ =>
    -- A node with a block in it is not plain, so that only its label counts.
    exact .of_label rfl (Context.not_plain_plug _ hblock)

theorem successors (h : Run o b place sliders outer k v ws) {b' : Node} (hblock : b'.isBlock)
    (hb : Successor Alike b' (b.convertBlock o place none).1) (left : List Node) :
    Forall₂ (Successor Alike) (left ++ [(k.relaid o place).plug b']) (left ++ [v.node]) :=
  List.rel_append (List.forall₂_same.mpr fun c _ => .of_alike (.refl c))
    (.cons (h.successor hblock hb) .nil)

/--
What the run leaves behind the way to the block, by the survey of the tree in which the nodes up to
the block are as the pass left them. For the block itself any node may stand that counts the same as
a qualifier.
-/
theorem behind (h : Run o b place sliders outer k v ws) {b' : Node} (hblock : b'.isBlock)
    (hb : Successor Alike b' (b.convertBlock o place none).1) {l : Label} {left right : List Node}
    {r : List Node × Progress} {vs : List Warning}
    (hsettled : (Context.relaid o place (.child l left right k)).Behind Settled b')
    (hr : visitAll o
      ((if v.relayout then Node.replaceQualifierLayout o.layout left else left) ++ [v.node])
      v.progress right = ⟨vs, .ok r⟩) :
    ∃ left' ds, Context.relaid o place (.child l left right k) =
        .child l left' right (k.relaid o place) ∧
      r.1 = left' ++ v.node :: ds ∧
      Follows v.progress r.2
        (surveyAmong o sliders (left' ++ [(k.relaid o place).plug b']) right) right ds vs := by
  rw [Context.relaid, ← h.relayout] at hsettled ⊢
  generalize (if v.relayout then Node.replaceQualifierLayout o.layout left else left) = left'
    at hsettled hr ⊢
  obtain ⟨hfound, hsliders⟩ := h.progress
  obtain ⟨ds, hds, hfollows⟩ := visitAll_follows o right _ v.progress hfound hsettled.2
    (h.successors hblock hb left') (congrArg Logged.result hr)
  rw [hr, hsliders] at hfollows
  exact ⟨left', ds, rfl, by simp [hds], hfollows⟩

theorem warnings (h : Run o b place sliders outer k v ws) {b' : Node} (hblock : b'.isBlock)
    (hb : Successor Alike b' (b.convertBlock o place none).1)
    (hsettled : (k.relaid o place).Behind Settled b') :
    ws = (b.fields.mapM Slider.ofField).warnings ++
      ((k.relaid o place).survey o sliders b').flatMap Finding.warnings := by
  induction h with
  | block _ _ => simp [Context.relaid, Context.survey]
  | child inner hr ih =>
    obtain ⟨left', ds, hrelaid, -, hfollows⟩ := inner.behind hblock hb hsettled hr
    rw [hrelaid] at hsettled ⊢
    rw [ih hsettled.1, hfollows.warnings, Context.survey, List.flatMap_append, List.append_assoc]

theorem words (h : Run o b place sliders outer k v ws) {b' : Node} (hblock : b'.isBlock)
    (hb : Successor Alike b' (b.convertBlock o place none).1)
    (hsettled : (k.relaid o place).Behind Settled b') (hwf : (k.plug b).WellFormed) :
    (v.node.words, v.progress.pending) =
      (Node.listWords (k.relaid o place).earlier ++ ((b.convertBlock o place none).1.words ++
          (Edit.run (b.convertBlock o place none).2
            (((k.relaid o place).survey o sliders b').map Finding.edit)).1),
        (Edit.run (b.convertBlock o place none).2
          (((k.relaid o place).survey o sliders b').map Finding.edit)).2) := by
  induction h with
  | block _ _ => simp [Context.relaid, Context.survey, Context.earlier, taken]
  | @child outer left right l k v r ws vs inner hr ih =>
    obtain ⟨left', ds, hrelaid, hnodes, hfollows⟩ := inner.behind hblock hb hsettled hr
    rw [hrelaid] at hsettled ⊢
    have hl : ¬ l.isToken := hwf.not_isToken (by simp)
    have hinner := ih hsettled.1 (hwf.of_mem (by simp [Context.plug, Node.children]))
    have hright := hfollows.words fun c hc => hwf.of_mem (by simp [Context.plug, Node.children, hc])
    rw [show v.progress.pending = _ from congrArg Prod.snd hinner] at hright
    rw [Context.survey, List.map_append, Edit.run_append, ← hright, Node.words_mk, if_neg hl, hnodes,
      Node.listWords_append, Node.listWords_cons, show v.node.words = _ from congrArg Prod.fst hinner,
      Context.earlier, Node.listWords_append]
    simp

end Run

theorem extract_found {o : Options} {source : String} {d : Document} {e : Extraction}
    {c : Context} {b : Node} (he : (extract o source d).result = .ok e)
    (hb : firstBlock? o [] d.root = some (c, b)) :
    ∃ place v, (visit o [] {} d.root).result = .ok v ∧
      Run o b place e.panel.sliders [] c v (visit o [] {} d.root).warnings ∧
      e.source = v.node.render ++ d.trailing := by
  obtain ⟨v, hv, he⟩ := Logged.result_bind_eq_ok he
  cases he
  obtain ⟨place, sliders, hrun⟩ := run_of_visit c (s := false) hb hv
  obtain ⟨hfound, hsliders⟩ := hrun.progress
  cases hsliders
  refine ⟨place, v, hv, hrun, ?_⟩
  simp only [hfound, ↓reduceIte]
  rfl

end ShaderParams
