import ShaderParams.Extract.Block

/-!
This module contains places in a syntax tree: what stands around a node, the properties that hold at
all places of a tree or behind one of them, and the first place of a params block.
-/

namespace ShaderParams

/--
A tree with a hole. The parents of the hole come from the root downwards, each with the children in
front of the way to the hole and behind it.
-/
inductive Context where
  | root
  | child (label : Label) (left right : List Node) (inner : Context)

namespace Context

def plug : Context → Node → Node
  | root, n => n
  | child l left right c, n => .mk l (left ++ c.plug n :: right)

/-- The nodes in front of the hole in its parent. For a hole at the root these are given. -/
def preceding (outer : List Node) : Context → List Node
  | root => outer
  | child _ left _ c => c.preceding left

def earlier : Context → List Node
  | root => []
  | child _ left _ c => left ++ c.earlier

/-- The way to the hole: the number of the child to go to from each parent. -/
def address : Context → List Nat
  | root => []
  | child _ left _ c => left.length :: c.address

end Context

def Node.at? (n : Node) : List Nat → Option Node
  | [] => some n
  | i :: is => n.children[i]?.bind fun c => c.at? is

theorem Context.at?_plug (c : Context) (n : Node) : (c.plug n).at? c.address = some n := by
  induction c with
  | root => rfl
  | child l left right c ih => simp [plug, address, Node.at?, Node.children, ih]

mutual

/--
A property of a node and the nodes in front of it in its parent, at all places of a tree.
-/
def Everywhere (P : List Node → Node → Prop) (outer : List Node) : Node → Prop
  | .mk l cs => P outer (.mk l cs) ∧ EverywhereAmong P [] cs

def EverywhereAmong (P : List Node → Node → Prop) (left : List Node) : List Node → Prop
  | [] => True
  | c :: cs => Everywhere P left c ∧ EverywhereAmong P (left ++ [c]) cs

end

/-- A property of a node and the nodes in front of it in its parent, at all places behind a hole. -/
def Context.Behind (P : List Node → Node → Prop) : Context → Node → Prop
  | root, _ => True
  | child _ left right c, n => c.Behind P n ∧ EverywhereAmong P (left ++ [c.plug n]) right

section

variable {P : List Node → Node → Prop} [∀ outer n, Decidable (P outer n)]

mutual

def decideEverywhere (outer : List Node) : (n : Node) → Decidable (Everywhere P outer n)
  | .mk _ cs => @instDecidableAnd _ _ inferInstance (decideEverywhereAmong [] cs)

def decideEverywhereAmong (left : List Node) :
    (cs : List Node) → Decidable (EverywhereAmong P left cs)
  | [] => inferInstanceAs (Decidable True)
  | c :: cs =>
    @instDecidableAnd _ _ (decideEverywhere left c) (decideEverywhereAmong (left ++ [c]) cs)

end

instance (outer : List Node) (n : Node) : Decidable (Everywhere P outer n) :=
  decideEverywhere outer n

def Context.decideBehind : (c : Context) → (n : Node) → Decidable (c.Behind P n)
  | root, _ => inferInstanceAs (Decidable True)
  | child _ _ right c, n => @instDecidableAnd _ _ (c.decideBehind n) (decideEverywhereAmong _ right)

instance (c : Context) (n : Node) : Decidable (c.Behind P n) :=
  c.decideBehind n

end

section

variable {P Q : List Node → Node → Prop}

theorem EverywhereAmong.append (left cs ds : List Node) :
    EverywhereAmong P left (cs ++ ds) ↔
      EverywhereAmong P left cs ∧ EverywhereAmong P (left ++ cs) ds := by
  induction cs generalizing left with
  | nil => simp [EverywhereAmong]
  | cons c cs ih => simp [EverywhereAmong, ih, and_assoc]

theorem Everywhere.behind (c : Context) (n : Node) {outer : List Node}
    (h : Everywhere P outer (c.plug n)) : c.Behind P n := by
  induction c generalizing outer with
  | root => trivial
  | child l left right c ih =>
    rw [Context.plug, Everywhere, EverywhereAmong.append, EverywhereAmong] at h
    exact ⟨ih h.2.2.1, by simpa using h.2.2.2⟩

theorem Everywhere.at_hole (c : Context) (n : Node) {outer : List Node}
    (h : Everywhere P outer (c.plug n)) : P (c.preceding outer) n := by
  induction c generalizing outer with
  | root =>
    cases n with
    | mk l cs => exact h.1
  | child l left right c ih =>
    rw [Context.plug, Everywhere, EverywhereAmong.append, EverywhereAmong] at h
    exact ih (by simpa using h.2.2.1)

mutual

theorem Everywhere.imp (h : ∀ outer n, P outer n → Q outer n) :
    (n : Node) → (outer : List Node) → Everywhere P outer n → Everywhere Q outer n
  | .mk l cs, outer => by
    intro hn
    rw [Everywhere] at hn ⊢
    exact ⟨h _ _ hn.1, EverywhereAmong.imp h cs [] hn.2⟩

theorem EverywhereAmong.imp (h : ∀ outer n, P outer n → Q outer n) :
    (cs left : List Node) → EverywhereAmong P left cs → EverywhereAmong Q left cs
  | [], left => by
    intro _
    trivial
  | c :: cs, left => by
    intro hcs
    exact ⟨Everywhere.imp h c left hcs.1, EverywhereAmong.imp h cs _ hcs.2⟩

end

end

def isParams (o : Options) (preceding : List Node) (n : Node) : Bool :=
  match paramsLayout? o preceding n with
  | .ok (some _) => true
  | _ => false

mutual

/--
The first params block of a tree and its place, parents before their children.
-/
def firstBlock? (o : Options) (outer : List Node) : Node → Option (Context × Node)
  | .mk l cs =>
    if isParams o outer (.mk l cs) then
      some (.root, .mk l cs)
    else
      firstBlockAmong? o l [] cs

def firstBlockAmong? (o : Options) (l : Label) (left : List Node) :
    List Node → Option (Context × Node)
  | [] => none
  | c :: cs =>
    match firstBlock? o left c with
    | some (k, b) => some (.child l left cs k, b)
    | none => firstBlockAmong? o l (left ++ [c]) cs

end

abbrev Unmarked (o : Options) : List Node → Node → Prop :=
  Everywhere fun preceding n => isParams o preceding n = false

abbrev UnmarkedAmong (o : Options) : List Node → List Node → Prop :=
  EverywhereAmong fun preceding n => isParams o preceding n = false

mutual

theorem firstBlock?_eq_none (o : Options) :
    (n : Node) → (outer : List Node) → firstBlock? o outer n = none → Unmarked o outer n
  | .mk l cs, outer => by
    intro h
    rw [firstBlock?] at h
    split at h
    · cases h
    · next hn => exact ⟨by simpa using hn, firstBlockAmong?_eq_none o l cs [] h⟩

theorem firstBlockAmong?_eq_none (o : Options) (l : Label) :
    (cs left : List Node) → firstBlockAmong? o l left cs = none → UnmarkedAmong o left cs
  | [], left => by
    intro _
    trivial
  | c :: cs, left => by
    intro h
    rw [firstBlockAmong?] at h
    split at h
    · cases h
    · next hc =>
      exact ⟨firstBlock?_eq_none o c left hc, firstBlockAmong?_eq_none o l cs _ h⟩

end

theorem firstBlockAmong?_eq_some {o : Options} {l : Label} {cs left : List Node} {k : Context}
    {b : Node} (h : firstBlockAmong? o l left cs = some (k, b)) :
    ∃ xs x ys c, cs = xs ++ x :: ys ∧ k = .child l (left ++ xs) ys c ∧
      UnmarkedAmong o left xs ∧ firstBlock? o (left ++ xs) x = some (c, b) := by
  induction cs generalizing left with
  | nil => cases h
  | cons x cs ih =>
    rw [firstBlockAmong?] at h
    split at h
    · next c b' hx =>
      cases h
      exact ⟨[], x, cs, c, rfl, by simp, trivial, by simpa using hx⟩
    · next hx =>
      obtain ⟨xs, y, ys, c, rfl, rfl, hxs, hy⟩ := ih h
      refine ⟨x :: xs, y, ys, c, rfl, by simp, ?_, by simpa using hy⟩
      exact ⟨firstBlock?_eq_none o x left hx, hxs⟩

theorem firstBlock?_eq_some {o : Options} {outer : List Node} {n b : Node} {k : Context}
    (h : firstBlock? o outer n = some (k, b)) :
    isParams o outer n = true ∧ k = .root ∧ b = n ∨
      isParams o outer n = false ∧ ∃ l left x right c, n = .mk l (left ++ x :: right) ∧
        k = .child l left right c ∧ UnmarkedAmong o [] left ∧
        firstBlock? o left x = some (c, b) := by
  cases n with
  | mk l cs =>
    rw [firstBlock?] at h
    split at h
    · next hn =>
      cases h
      exact .inl ⟨hn, rfl, rfl⟩
    · next hn =>
      obtain ⟨xs, x, ys, c, rfl, rfl, hxs, hx⟩ := firstBlockAmong?_eq_some h
      exact .inr ⟨by simpa using hn, l, xs, x, ys, c, rfl, by simp, hxs, by simpa using hx⟩

theorem plug_of_firstBlock? {o : Options} (k : Context) {outer : List Node} {n b : Node}
    (h : firstBlock? o outer n = some (k, b)) :
    k.plug b = n ∧ isParams o (k.preceding outer) b = true := by
  induction k generalizing outer n with
  | root =>
    obtain ⟨hn, -, rfl⟩ | ⟨-, l, left, x, right, c, -, hk, -⟩ := firstBlock?_eq_some h
    · exact ⟨rfl, hn⟩
    · cases hk
  | child l left right c ih =>
    obtain ⟨-, hk, -⟩ | ⟨-, l', left', x, right', c', rfl, hk, -, hx⟩ := firstBlock?_eq_some h
    · cases hk
    · cases hk
      obtain ⟨rfl, hb⟩ := ih hx
      exact ⟨rfl, hb⟩

end ShaderParams
