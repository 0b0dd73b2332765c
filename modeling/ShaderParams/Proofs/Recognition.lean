import ShaderParams.Proofs.Place
import ShaderParams.Proofs.Trivia

/-!
This module contains what the recognition of a params block depends on: not on trivia, and on the
nodes in front of a block only through the first qualifier among them.
-/

namespace ShaderParams

open List (Forall₂)

namespace Alike

variable {n m : Node} {cs ds : List Node}

theorem label_eq {β : Type} (h : Alike n m) (f : Label → β) (hf : ∀ l : Label, f l.bare = f l) :
    f n.label = f m.label := by
  rw [← hf, ← hf m.label, h.bare_label]

theorem type_eq (h : Alike n m) : n.type = m.type := h.label_eq Label.type fun _ => rfl

theorem isToken_eq (h : Alike n m) : n.isToken = m.isToken := h.label_eq Label.isToken fun _ => rfl

theorem isComment_eq (h : Alike n m) : n.label.isComment = m.label.isComment :=
  h.label_eq Label.isComment fun _ => rfl

theorem isLayout_eq (h : Alike n m) : n.label.isLayout = m.label.isLayout :=
  h.label_eq Label.isLayout fun _ => rfl

theorem isWrapper_eq (h : Alike n m) : n.label.isWrapper = m.label.isWrapper :=
  h.label_eq Label.isWrapper fun _ => rfl

theorem endsQualifiers_eq (h : Alike n m) : n.label.endsQualifiers = m.label.endsQualifiers :=
  h.label_eq Label.endsQualifiers fun _ => rfl

theorem isQualifier_eq (h : Alike n m) : n.label.isQualifier = m.label.isQualifier :=
  h.label_eq Label.isQualifier fun _ => rfl

theorem any_eq (h : Forall₂ Alike cs ds) {p : Node → Bool} (hp : ∀ x y, Alike x y → p x = p y) :
    cs.any p = ds.any p := by
  induction h with
  | nil => rfl
  | cons hcd _ ih => simp only [List.any_cons, ih, hp _ _ hcd]

theorem filter (h : Forall₂ Alike cs ds) {p : Node → Bool} (hp : ∀ x y, Alike x y → p x = p y) :
    Forall₂ Alike (cs.filter p) (ds.filter p) := by
  induction h with
  | nil => exact .nil
  | @cons c d cs ds hcd _ ih =>
    rw [List.filter_cons, List.filter_cons, hp c d hcd]
    split
    · exact .cons hcd ih
    · exact ih

mutual

theorem layout? : (n : Node) → {m : Node} → Alike n m →
    Option.Rel Alike n.layout? m.layout?
  | .mk l cs, .mk l' cs' => by
    intro h
    have hlayout : l.isLayout = l'.isLayout := h.isLayout_eq
    have hwrapper : l.isWrapper = l'.isWrapper := h.isWrapper_eq
    rw [Node.layout?, Node.layout?, hlayout, hwrapper]
    split
    · exact .some h
    · split
      · exact firstLayout? cs h.children_alike
      · exact .none

theorem firstLayout? : (cs : List Node) → {ds : List Node} → Forall₂ Alike cs ds →
    Option.Rel Alike (Node.firstLayout? cs) (Node.firstLayout? ds)
  | [], _ => by
    rintro ⟨⟩
    exact .none
  | c :: cs, _ => by
    rintro (_ | ⟨hcd, hcs⟩)
    rw [Node.firstLayout?, Node.firstLayout?, hcd.isComment_eq]
    split
    · exact firstLayout? cs hcs
    · exact layout? c hcd

end

mutual

theorem parenthesized? : (n : Node) → {m : Node} → Forall₂ Alike n.children m.children →
    Option.Rel (Forall₂ Alike) n.parenthesized? m.parenthesized?
  | .mk l cs, .mk l' cs' => by
    intro h
    have hparen := any_eq (p := fun c => c.type == "(") h (fun x y hxy => by rw [hxy.type_eq])
    rw [Node.parenthesized?, Node.parenthesized?]
    simp only [Node.children] at hparen
    rw [hparen]
    split
    · exact .some h
    · exact lastParenthesized? cs h

theorem lastParenthesized? : (cs : List Node) → {ds : List Node} → Forall₂ Alike cs ds →
    Option.Rel (Forall₂ Alike) (Node.lastParenthesized? cs) (Node.lastParenthesized? ds)
  | [], _ => by
    rintro ⟨⟩
    exact .none
  | c :: cs, _ => by
    rintro (_ | ⟨hcd, hcs⟩)
    have hbranch := any_eq (p := fun c => !c.isToken) hcs (fun x y hxy => by rw [hxy.isToken_eq])
    rw [Node.lastParenthesized?, Node.lastParenthesized?, hbranch, hcd.isToken_eq]
    split
    · exact lastParenthesized? cs hcs
    · split
      · exact .none
      · exact parenthesized? c hcd.children_alike

end

theorem splitList {cur cur' : List Node} (inside : Bool) (h : Forall₂ Alike cs ds)
    (hcur : Forall₂ Alike cur cur') :
    Forall₂ (Forall₂ Alike) (Node.splitList inside cur cs) (Node.splitList inside cur' ds) := by
  induction h generalizing inside cur cur' with
  | nil => exact .cons hcur .nil
  | @cons c d cs ds hcd _ ih =>
    rw [Node.splitList, Node.splitList, hcd.type_eq, hcd.isComment_eq]
    split
    · exact ih true hcur
    · split
      · exact .cons hcur .nil
      · split
        · exact .cons hcur (ih inside .nil)
        · split
          · exact ih inside (List.rel_append hcur (.cons hcd .nil))
          · exact ih inside hcur

theorem withoutComments (h : Forall₂ Alike cs ds) :
    Forall₂ Alike (Node.withoutComments cs) (Node.withoutComments ds) :=
  filter h fun x y hxy => by rw [hxy.isComment_eq]

end Alike

theorem mapM_map_eq {α β γ : Type} (f : α → Except Error β) (g : β → γ) (xs : List α) :
    (xs.mapM f).map (List.map g) = xs.mapM fun x => (f x).map g := by
  induction xs with
  | nil => rfl
  | cons x xs ih =>
    rw [List.mapM_cons, List.mapM_cons, ← ih]
    cases f x with
    | error e => rfl
    | ok b => cases xs.mapM f <;> rfl

theorem mapM_congr {α β : Type} {R : α → α → Prop} {f : α → Except Error β} {xs ys : List α}
    (h : Forall₂ R xs ys) (hf : ∀ x y, R x y → f x = f y) : xs.mapM f = ys.mapM f := by
  induction h with
  | nil => rfl
  | cons hxy _ ih => rw [List.mapM_cons, List.mapM_cons, ih, hf _ _ hxy]

namespace Node

/-- The nodes of an entry, out of their wrapping if there is one. -/
def entryNodes : List Node → List Node
  | [n] => if n.isToken then [n] else withoutComments n.children
  | nodes => nodes

theorem layoutEntry_name (nodes : List Node) :
    (layoutEntry nodes).map LayoutEntry.name =
      ((entryNodes nodes).head?.map text).elim (.error .missingChild) .ok := by
  rcases nodes with _ | ⟨n, _ | ⟨m, rest⟩⟩
  · rfl
  · rw [layoutEntry, entryNodes]
    generalize (if n.isToken then [n] else withoutComments n.children) = entry
    rcases entry with _ | ⟨name, _ | ⟨eq, _ | ⟨value, rest⟩⟩⟩ <;> rfl
  · cases rest <;> rfl

/-- The names of the entries of a layout specification. -/
def entryNames (layout : Node) : Except Error (List String) :=
  layout.layoutEntries.map (List.map LayoutEntry.name)

theorem entryNames_eq (layout : Node) :
    layout.entryNames =
      match layout.parenthesized? with
      | none => .ok []
      | some cs =>
        ((splitList false [] cs).filter fun g => !g.isEmpty).mapM fun g =>
          (layoutEntry g).map LayoutEntry.name := by
  rw [entryNames, layoutEntries]
  cases layout.parenthesized? with
  | none => rfl
  | some cs => apply mapM_map_eq

end Node

namespace Alike

variable {n m : Node} {cs ds : List Node}

theorem entryNodes (h : Forall₂ Alike cs ds) :
    Forall₂ Alike (Node.entryNodes cs) (Node.entryNodes ds) := by
  rcases h with _ | ⟨hcd, _ | ⟨hcd', hcs⟩⟩
  · exact .nil
  · rw [Node.entryNodes, Node.entryNodes, hcd.isToken_eq]
    split
    · exact .cons hcd .nil
    · exact withoutComments hcd.children_alike
  · exact .cons hcd (.cons hcd' hcs)

theorem layoutEntry_name (h : Forall₂ Alike cs ds) :
    (Node.layoutEntry cs).map LayoutEntry.name = (Node.layoutEntry ds).map LayoutEntry.name := by
  rw [Node.layoutEntry_name, Node.layoutEntry_name]
  have hnodes := entryNodes h
  generalize Node.entryNodes cs = xs at hnodes ⊢
  generalize Node.entryNodes ds = ys at hnodes ⊢
  cases hnodes with
  | nil => rfl
  | cons hxy _ => rw [List.head?_cons, List.head?_cons, Option.map_some, Option.map_some, hxy.text_eq]

theorem filter_isEmpty {gs hs : List (List Node)} (h : Forall₂ (Forall₂ Alike) gs hs) :
    Forall₂ (Forall₂ Alike) (gs.filter fun g => !g.isEmpty) (hs.filter fun g => !g.isEmpty) := by
  induction h with
  | nil => exact .nil
  | cons hxy _ ih =>
    cases hxy with
    | nil => exact ih
    | cons hcd hcs => exact .cons (.cons hcd hcs) ih

theorem entryNames_eq (h : Forall₂ Alike n.children m.children) : n.entryNames = m.entryNames := by
  rw [Node.entryNames_eq, Node.entryNames_eq]
  have hlist := parenthesized? n h
  generalize n.parenthesized? = xs at hlist ⊢
  generalize m.parenthesized? = ys at hlist ⊢
  cases hlist with
  | none => rfl
  | some hcs =>
    apply mapM_congr (filter_isEmpty (splitList false hcs .nil)) fun x y => layoutEntry_name

end Alike

/-- Whether the layout that a qualifier stands for begins with the marker. -/
def marks (o : Options) (qualifier : Option Node) : Except Error Bool :=
  match qualifier.bind Node.layout? with
  | none => .ok false
  | some layout => layout.entryNames.map fun names => names.head?.any (· == o.marker)

theorem marks_congr (o : Options) {q r : Option Node} (h : Option.Rel Alike q r) :
    marks o q = marks o r := by
  cases h with
  | none => rfl
  | @some q r hqr =>
    rw [marks, marks, Option.bind_some, Option.bind_some]
    have hlayout := Alike.layout? q hqr
    generalize q.layout? = xs at hlayout ⊢
    generalize r.layout? = ys at hlayout ⊢
    cases hlayout with
    | none => rfl
    | some hxy => simp only [Alike.entryNames_eq hxy.children_alike]

theorem paramsLayout?_isSome (o : Options) (preceding : List Node) (n : Node) :
    (paramsLayout? o preceding n).map Option.isSome =
      if n.isBlock then marks o ((firstQualifier? preceding n).map Prod.snd) else .ok false := by
  rw [paramsLayout?]
  split
  · rcases firstQualifier? preceding n with _ | ⟨place, q⟩
    · rfl
    · simp only [Option.map_some, marks, Option.bind_some]
      cases q.layout? with
      | none => rfl
      | some layout =>
        simp only [Node.entryNames]
        cases layout.layoutEntries with
        | error e => rfl
        | ok es =>
          cases es with
          | nil => rfl
          | cons e es =>
            simp only [Except.map, bind, Except.bind, pure, Except.pure, List.head?_cons,
              Option.any_some, List.map_cons]
            by_cases hname : e.name = o.marker <;> simp [hname]
  · rfl

theorem isParams_eq (o : Options) (preceding : List Node) (n : Node) :
    isParams o preceding n =
      match (paramsLayout? o preceding n).map Option.isSome with
      | .ok b => b
      | .error _ => false := by
  rw [isParams]
  rcases paramsLayout? o preceding n with _ | _ | _ <;> rfl

section

variable {α : Type} (label : α → Label)

theorem qualifiers_cons (c : α) (cs : List α) :
    qualifiers label (c :: cs) =
      if (label c).isComment then
        qualifiers label cs
      else if (label c).endsQualifiers then
        []
      else if (label c).isQualifier then
        c :: qualifiers label cs
      else
        qualifiers label cs := by
  rw [qualifiers, markQualifiers]
  split
  · rfl
  · split
    · simp
    · cases (label c).isQualifier <;> rfl

theorem mem_of_mem_markQualifiers {m : α × Bool} {cs : List α} (h : m ∈ markQualifiers label cs) :
    m.1 ∈ cs := by
  rw [← map_fst_markQualifiers label cs]
  apply List.mem_map_of_mem h

theorem mem_of_mem_qualifiers {c : α} {cs : List α} (h : c ∈ qualifiers label cs) : c ∈ cs := by
  rw [qualifiers, List.mem_map] at h
  obtain ⟨m, hm, rfl⟩ := h
  apply mem_of_mem_markQualifiers label (List.mem_of_mem_filter hm)

end

/-!
A literal in the place of a bound is no qualifier, and it is a named node: no keyword and no type of
a node has a point or a sign in it.
-/

theorem Decimal.exists_mem_write (style : DecimalStyle) (d : Decimal) :
    ∃ c ∈ (d.write style).toList, c = '.' ∨ c = '+' ∨ c = '-' := by
  rw [write, String.toList_ofList]
  dsimp only
  split
  · split <;> exact ⟨'.', by simp, .inl rfl⟩
  · generalize d.exp + ((Nat.toDigits 10 d.digits).length - 1 : Nat) = first
    refine ⟨if first < 0 then '-' else '+', ?_, ?_⟩
    · split <;> simp
    · split <;> simp

theorem not_mem_of_mem_qualifierKeywords {s : String}
    (h : s ∈ "number_literal" :: qualifierKeywords) :
    '.' ∉ s.toList ∧ '+' ∉ s.toList ∧ '-' ∉ s.toList := by
  revert s
  decide

theorem Double.write_not_mem (x : Double) : x.write ∉ "number_literal" :: qualifierKeywords := by
  cases x with
  | nan s =>
    show "nan" ∉ "number_literal" :: qualifierKeywords
    decide
  | number s r =>
    intro h
    rw [write] at h
    split at h
    · split at h <;> revert h <;> decide
    · obtain ⟨c, hc, hsign⟩ :=
        Decimal.exists_mem_write .floatLiteral (Decimal.shortest .double r.val)
      obtain ⟨hpoint, hplus, hminus⟩ := not_mem_of_mem_qualifierKeywords h
      simp only [String.toList_append, List.mem_append, not_or] at hpoint hplus hminus
      rcases hsign with rfl | rfl | rfl
      · exact hpoint.2 hc
      · exact hplus.2 hc
      · exact hminus.2 hc

theorem Double.spell_not_mem (x : Double) : x.spell ∉ "number_literal" :: qualifierKeywords := by
  rw [spell]
  split
  · decide
  · split
    · split <;> decide
    · apply write_not_mem _

theorem Node.ofDouble_label (x : Double) :
    (ofDouble x).label.isComment = false ∧ (ofDouble x).label.endsQualifiers = false ∧
      (ofDouble x).label.isQualifier = false := by
  rw [ofDouble]
  split
  · exact ⟨rfl, rfl, rfl⟩
  · have hspell := Double.spell_not_mem x
    rw [List.mem_cons, not_or] at hspell
    refine ⟨rfl, rfl, ?_⟩
    simp [token, label, Label.isQualifier, Label.isLayout, Label.isWrapper, qualifierWrappers,
      hspell]

theorem Node.named_ofDouble (x : Double) : (ofDouble x).label.named = true := by
  rw [ofDouble]
  split
  · rfl
  · have hspell := Double.spell_not_mem x
    rw [List.mem_cons, not_or] at hspell
    simpa [token, label] using Ne.symm hspell.1

/--
A tree in which an extraction has nothing to change: no member access, and no block.
-/
def Node.Plain (n : Node) : Prop :=
  ∀ m ∈ n.walk, m.type ≠ "field_expression" ∧ m.isBlock = false

instance (n : Node) : Decidable n.Plain :=
  inferInstanceAs (Decidable (∀ m ∈ n.walk, m.type ≠ "field_expression" ∧ m.isBlock = false))

theorem Label.isQualifier_congr {l l' : Label} (htype : l.type = l'.type)
    (htext : l.text = l'.text) : l.isQualifier = l'.isQualifier := by
  simp only [Label.isQualifier, Label.isLayout, Label.isWrapper, htype, htext]

theorem Label.endsQualifiers_congr {l l' : Label} (htype : l.type = l'.type) :
    l.isComment = l'.isComment ∧ l.endsQualifiers = l'.endsQualifiers := by
  simp only [Label.isComment, Label.endsQualifiers, Label.isTypeSpecifier, Label.isFieldList, htype,
    and_self]

/--
How a node that took the place of another one counts as a qualifier in front of a declaration: not
unless the old one did, and then it is related to the old one if that was plain.
-/
structure Successor (R : Node → Node → Prop) (n m : Node) : Prop where
  isComment_eq : m.label.isComment = n.label.isComment
  endsQualifiers_eq : m.label.endsQualifiers = n.label.endsQualifiers
  isQualifier_imp : m.label.isQualifier → n.label.isQualifier
  related : n.Plain → n.label.isQualifier → m.label.isQualifier ∧ R n m

theorem Successor.of_alike {n m : Node} (h : Alike n m) : Successor Alike n m where
  isComment_eq := h.isComment_eq.symm
  endsQualifiers_eq := h.endsQualifiers_eq.symm
  isQualifier_imp := by
    rw [h.isQualifier_eq]
    exact id
  related := by
    intro _ hn
    rw [← h.isQualifier_eq]
    exact ⟨hn, h⟩

theorem Successor.head?_qualifiers {R : Node → Node → Prop} {cs ds : List Node}
    (h : Forall₂ (Successor R) cs ds)
    (hplain : ∀ q, (qualifiers Node.label cs).head? = some q → q.Plain) :
    Option.Rel R (qualifiers Node.label cs).head? (qualifiers Node.label ds).head? := by
  induction h with
  | nil => exact .none
  | @cons c d cs ds hcd _ ih =>
    rw [qualifiers_cons] at hplain ⊢
    rw [qualifiers_cons, hcd.isComment_eq, hcd.endsQualifiers_eq]
    split
    · next hcomment =>
      rw [if_pos hcomment] at hplain
      exact ih hplain
    · next hcomment =>
      rw [if_neg hcomment] at hplain
      split
      · exact .none
      · next hends =>
        rw [if_neg hends] at hplain
        split
        · next hc =>
          rw [if_pos hc] at hplain
          obtain ⟨hd, hR⟩ := hcd.related (hplain c rfl) hc
          rw [if_pos hd]
          exact .some hR
        · next hc =>
          rw [if_neg hc] at hplain
          rw [if_neg fun hd => hc (hcd.isQualifier_imp hd)]
          exact ih hplain

/--
A block without qualifiers of its own takes its layout from a plain qualifier in front of it, if it
takes it from any.
-/
def Settled (preceding : List Node) (n : Node) : Prop :=
  n.isBlock → qualifiers Node.label n.children = [] →
    ∀ q, (qualifiers Node.label preceding).head? = some q → q.Plain

instance (preceding : List Node) (n : Node) : Decidable (Settled preceding n) :=
  inferInstanceAs (Decidable (n.isBlock → qualifiers Node.label n.children = [] →
    ∀ q ∈ (qualifiers Node.label preceding).head?, q.Plain))

theorem paramsLayout?_eq_some {o : Options} {preceding : List Node} {n layout : Node}
    {place : QualifierPlace} (h : paramsLayout? o preceding n = .ok (some (place, layout))) :
    n.isBlock ∧ ∃ q, firstQualifier? preceding n = some (place, q) ∧ q.layout? = some layout := by
  rw [paramsLayout?] at h
  split at h
  · next hblock =>
    refine ⟨hblock, ?_⟩
    split at h
    · cases h
    · next place' q hq =>
      split at h
      · cases h
      · next layout' hlayout =>
        cases hentries : layout'.layoutEntries with
        | error e =>
          rw [hentries] at h
          cases h
        | ok es =>
          rw [hentries] at h
          simp only [bind, Except.bind, pure, Except.pure, Except.ok.injEq] at h
          split at h
          · cases h
            exact ⟨q, hq, hlayout⟩
          · cases h
  · cases h

theorem firstQualifier?_eq_own {preceding : List Node} {n q : Node}
    (h : firstQualifier? preceding n = some (.own, q)) :
    (qualifiers Node.label n.children).head? = some q := by
  rw [firstQualifier?] at h
  split at h
  · next q' qs hqs =>
    cases h
    rw [hqs]
    rfl
  · simp at h

theorem firstQualifier?_eq_preceding {preceding : List Node} {n q : Node}
    (h : firstQualifier? preceding n = some (.preceding, q)) :
    qualifiers Node.label n.children = [] ∧
      (qualifiers Node.label preceding).head? = some q := by
  rw [firstQualifier?] at h
  split at h
  · cases h
  · next hown =>
    obtain ⟨q', hq', heq⟩ := Option.map_eq_some_iff.mp h
    cases heq
    exact ⟨hown, hq'⟩

theorem firstQualifier?_own {preceding : List Node} {n : Node}
    (h : qualifiers Node.label n.children ≠ []) :
    (firstQualifier? preceding n).map Prod.snd = (qualifiers Node.label n.children).head? := by
  rw [firstQualifier?]
  cases hq : qualifiers Node.label n.children with
  | nil => exact absurd hq h
  | cons q qs => rfl

theorem firstQualifier?_preceding {preceding : List Node} {n : Node}
    (h : qualifiers Node.label n.children = []) :
    (firstQualifier? preceding n).map Prod.snd = (qualifiers Node.label preceding).head? := by
  rw [firstQualifier?, h]
  cases (qualifiers Node.label preceding).head? <;> rfl

/--
Replacing the nodes in front of a block by successors does not change whether it is recognised.
-/
theorem paramsLayout?_congr (o : Options) {cs ds : List Node} {n : Node} (hn : Settled cs n)
    (h : Forall₂ (Successor Alike) cs ds) :
    (paramsLayout? o ds n).map Option.isSome = (paramsLayout? o cs n).map Option.isSome := by
  rw [paramsLayout?_isSome, paramsLayout?_isSome]
  split
  · next hblock =>
    by_cases hown : qualifiers Node.label n.children = []
    · rw [firstQualifier?_preceding hown, firstQualifier?_preceding hown]
      exact (marks_congr o (Successor.head?_qualifiers h (hn hblock hown))).symm
    · rw [firstQualifier?_own hown, firstQualifier?_own hown]
  · rfl

end ShaderParams
