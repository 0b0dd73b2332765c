import Mathlib.Data.List.Forall2
import ShaderParams.Extract.Block

/-!
This module contains the theory of trivia that is handed on: what a change of the trivia in front of
a tree does to its tokens, and that it leaves alone everything else that is read off a tree.
-/

namespace ShaderParams

/--
A token as it is written: the trivia in front of it and its text.
-/
structure Word where
  leading : String
  text : String
deriving DecidableEq, Repr

def Word.render (w : Word) : String :=
  w.leading ++ w.text

/-- The source text of a sequence of words. -/
def renderWords (ws : List Word) : String :=
  String.join (ws.map Word.render)

def Label.word (l : Label) : Word :=
  ⟨l.leading, l.text.getD ""⟩

namespace Node

/-- The words of a tree. -/
def words (n : Node) : List Word :=
  n.tokens.map Label.word

/-- The words of a sequence of trees. -/
def listWords (cs : List Node) : List Word :=
  (listTokens cs).map Label.word

theorem render_eq_renderWords (n : Node) : n.render = renderWords n.words := by
  rw [render, renderTokens, renderWords, words, List.map_map]
  rfl

theorem words_mk (l : Label) (cs : List Node) :
    (mk l cs).words = if l.isToken then [l.word] else listWords cs := by
  rw [words, tokens]
  split <;> rfl

@[simp]
theorem listWords_nil : listWords [] = [] := rfl

@[simp]
theorem listWords_cons (c : Node) (cs : List Node) :
    listWords (c :: cs) = c.words ++ listWords cs := by
  rw [listWords, listTokens, List.map_append]
  rfl

@[simp]
theorem listWords_append (cs ds : List Node) :
    listWords (cs ++ ds) = listWords cs ++ listWords ds := by
  simp [listWords]

end Node

namespace Node

theorem walk_mk (l : Label) (cs : List Node) : (mk l cs).walk = mk l cs :: listWalk cs := by
  rw [walk]

theorem self_mem_walk (n : Node) : n ∈ n.walk := by
  cases n with
  | mk l cs => simp [walk_mk]

theorem listWalk_eq_flatMap (cs : List Node) : listWalk cs = cs.flatMap walk := by
  induction cs with
  | nil => rfl
  | cons c cs ih => rw [listWalk, ih, List.flatMap_cons]

theorem mem_listWalk {m : Node} {cs : List Node} : m ∈ listWalk cs ↔ ∃ c ∈ cs, m ∈ c.walk := by
  rw [listWalk_eq_flatMap, List.mem_flatMap]

theorem walk_subset_of_mem {c m n : Node} (hc : c ∈ n.children) (hm : m ∈ c.walk) : m ∈ n.walk := by
  cases n with
  | mk l cs =>
    rw [walk_mk]
    exact List.mem_cons_of_mem _ (mem_listWalk.mpr ⟨c, hc, hm⟩)

/--
The trees of source texts: tokens have no children, and every node has a token.
-/
def WellFormed (n : Node) : Prop :=
  ∀ m ∈ n.walk, (m.isToken → m.children = []) ∧ m.tokens ≠ []

instance (n : Node) : Decidable n.WellFormed :=
  inferInstanceAs (Decidable (∀ m ∈ n.walk, (m.isToken → m.children = []) ∧ m.tokens ≠ []))

namespace WellFormed

variable {n c : Node}

theorem of_mem (h : n.WellFormed) (hc : c ∈ n.children) : c.WellFormed :=
  fun _ hm => h _ (walk_subset_of_mem hc hm)

theorem children_eq_nil {l : Label} {cs : List Node} (h : (mk l cs).WellFormed) (hl : l.isToken) :
    cs = [] :=
  (h _ (self_mem_walk _)).1 hl

theorem not_isToken {l : Label} {cs : List Node} (h : (mk l cs).WellFormed) (hcs : cs ≠ []) :
    ¬ l.isToken :=
  fun hl => hcs (h.children_eq_nil hl)

theorem words_ne_nil (h : n.WellFormed) : n.words ≠ [] := by
  have htokens := (h n (self_mem_walk n)).2
  rw [words]
  simpa using htokens

end WellFormed
end Node

/--
The first of a sequence of words takes trivia that is on its way.
-/
def receiveWords (pending : Option String) (ws : List Word) : List Word × Option String :=
  match pending, ws with
  | some leading, w :: ws => ({ w with leading } :: ws, none)
  | pending, ws => (ws, pending)

@[simp]
theorem receiveWords_none (ws : List Word) : receiveWords none ws = (ws, none) := by
  cases ws <;> rfl

@[simp]
theorem receiveWords_nil (pending : Option String) : receiveWords pending [] = ([], pending) := by
  cases pending <;> rfl

theorem receiveWords_snd {pending : Option String} {ws : List Word} (h : ws ≠ []) :
    (receiveWords pending ws).2 = none := by
  cases ws with
  | nil => exact absurd rfl h
  | cons w ws => cases pending <;> rfl

theorem receiveWords_append (pending : Option String) (ws vs : List Word) :
    receiveWords pending (ws ++ vs) =
      ((receiveWords pending ws).1 ++ (receiveWords (receiveWords pending ws).2 vs).1,
        (receiveWords (receiveWords pending ws).2 vs).2) := by
  cases pending with
  | none => simp
  | some leading =>
    cases ws with
    | nil => simp
    | cons w ws => simp [receiveWords]

namespace Label

/-- A label without its trivia. -/
def bare (l : Label) : Label :=
  { l with leading := "" }

theorem word_receive (pending : Option String) (l : Label) (h : l.isToken) :
    ([(l.receive pending).1.word], (l.receive pending).2) = receiveWords pending [l.word] := by
  cases pending with
  | none => rfl
  | some leading => simp [receive, h, receiveWords, word]

theorem isToken_receive (pending : Option String) (l : Label) :
    (l.receive pending).1.isToken = l.isToken := by
  unfold receive
  cases pending with
  | none => rfl
  | some leading => cases h : l.isToken <;> exact h

theorem receive_of_not_isToken (pending : Option String) (l : Label) (h : ¬ l.isToken) :
    l.receive pending = (l, pending) := by
  cases pending with
  | none => rfl
  | some leading => simp [receive, h]

theorem bare_receive (pending : Option String) (l : Label) :
    (l.receive pending).1.bare = l.bare := by
  unfold receive
  cases pending with
  | none => rfl
  | some leading => cases l.isToken <;> rfl

theorem read_receive {β : Type} (f : Label → β) (hf : ∀ l : Label, f l.bare = f l)
    (pending : Option String) (l : Label) : f (l.receive pending).1 = f l := by
  rw [← hf, bare_receive, hf]

end Label

namespace Node

mutual

theorem setLeading?_eq_none (leading : String) :
    (n : Node) → n.tokens = [] → n.setLeading? leading = none
  | mk l cs => by
    intro h
    rw [tokens] at h
    rw [setLeading?]
    split at h
    · cases h
    · next hl =>
      rw [if_neg hl, listSetLeading?_eq_none leading cs h]
      rfl

theorem listSetLeading?_eq_none (leading : String) :
    (cs : List Node) → listTokens cs = [] → listSetLeading? leading cs = none
  | [] => by
    intro h
    rfl
  | c :: cs => by
    intro h
    rw [listTokens, List.append_eq_nil_iff] at h
    rw [listSetLeading?, setLeading?_eq_none leading c h.1]
    simp only [listSetLeading?_eq_none leading cs h.2, Option.map_none]

end

mutual

theorem setLeading?_eq_some (leading : String) {t : Label} {ts : List Label} :
    (n : Node) → n.tokens = t :: ts →
      ∃ m, n.setLeading? leading = some m ∧ m.tokens = { t with leading } :: ts
  | mk l cs => by
    intro h
    rw [tokens] at h
    rw [setLeading?]
    split at h
    · next hl =>
      cases h
      rw [if_pos hl]
      refine ⟨_, rfl, ?_⟩
      rw [tokens, if_pos (by exact hl)]
    · next hl =>
      obtain ⟨ds, hds, htokens⟩ := listSetLeading?_eq_some leading cs h
      rw [if_neg hl, hds]
      refine ⟨_, rfl, ?_⟩
      rw [tokens, if_neg hl, htokens]

theorem listSetLeading?_eq_some (leading : String) {t : Label} {ts : List Label} :
    (cs : List Node) → listTokens cs = t :: ts →
      ∃ ds, listSetLeading? leading cs = some ds ∧ listTokens ds = { t with leading } :: ts
  | [] => by
    intro h
    cases h
  | c :: cs => by
    intro h
    rw [listTokens] at h
    rw [listSetLeading?]
    cases hc : c.tokens with
    | nil =>
      rw [hc, List.nil_append] at h
      obtain ⟨ds, hds, htokens⟩ := listSetLeading?_eq_some leading cs h
      rw [setLeading?_eq_none leading c hc, hds]
      refine ⟨_, rfl, ?_⟩
      rw [listTokens, hc, htokens, List.nil_append]
    | cons u us =>
      rw [hc, List.cons_append] at h
      cases h
      obtain ⟨d, hd, htokens⟩ := setLeading?_eq_some leading c hc
      rw [hd]
      refine ⟨_, rfl, ?_⟩
      rw [listTokens, htokens, List.cons_append]

end

theorem words_receive (pending : Option String) (n : Node) :
    ((n.receive pending).1.words, (n.receive pending).2) = receiveWords pending n.words := by
  cases pending with
  | none => simp [receive]
  | some leading =>
    cases hn : n.tokens with
    | nil => simp [receive, setLeading?_eq_none leading n hn, words, hn]
    | cons t ts =>
      obtain ⟨m, hm, htokens⟩ := setLeading?_eq_some leading n hn
      simp [receive, hm, words, hn, htokens, receiveWords, Label.word]

theorem receive_snd {pending : Option String} {n : Node} (h : n.words ≠ []) :
    (n.receive pending).2 = none := by
  have hsnd : (n.receive pending).2 = (receiveWords pending n.words).2 :=
    congrArg Prod.snd (words_receive pending n)
  rw [hsnd, receiveWords_snd h]

theorem words_mk_receive (pending : Option String) {l : Label} (cs : List Node) (h : l.isToken) :
    ((mk (l.receive pending).1 cs).words, (l.receive pending).2) = receiveWords pending [l.word] := by
  rw [words_mk, Label.isToken_receive, if_pos h, Label.word_receive pending l h]

open stripFirstFieldList (receiveAll)

@[simp]
theorem receive_none (n : Node) : n.receive none = (n, none) := rfl

theorem receiveAll_cons (pending : Option String) (c : Node) (cs : List Node) :
    receiveAll pending (c :: cs) =
      ((c.receive pending).1 :: (receiveAll (c.receive pending).2 cs).1,
        (receiveAll (c.receive pending).2 cs).2) := rfl

@[simp]
theorem receiveAll_none (cs : List Node) : receiveAll none cs = (cs, none) := by
  induction cs with
  | nil => rfl
  | cons c cs ih =>
    rw [receiveAll_cons, receive_none, ih]

theorem receiveAll_some (leading : String) (cs : List Node) :
    receiveAll (some leading) cs =
      match listSetLeading? leading cs with
      | some ds => (ds, none)
      | none => (cs, some leading) := by
  induction cs with
  | nil => rfl
  | cons c cs ih =>
    rw [receiveAll, listSetLeading?]
    cases hc : c.setLeading? leading with
    | some d => simp [receive, hc]
    | none =>
      simp only [receive, hc, ih]
      cases listSetLeading? leading cs <;> rfl

theorem receive_mk (pending : Option String) (l : Label) (cs : List Node) :
    (mk l cs).receive pending =
      (mk (l.receive pending).1 (receiveAll (l.receive pending).2 cs).1,
        (receiveAll (l.receive pending).2 cs).2) := by
  cases pending with
  | none => simp [Label.receive]
  | some leading =>
    rw [receive, setLeading?, Label.receive]
    cases l.isToken with
    | true => simp
    | false =>
      simp only [Bool.false_eq_true, ↓reduceIte, receiveAll_some]
      cases listSetLeading? leading cs <;> rfl

end Node

/--
Two trees that differ at most in the trivia in front of their tokens, and in no text that is read
off them.
-/
inductive Alike : Node → Node → Prop where
  | mk {l l' : Label} {cs cs' : List Node} (label : l.bare = l'.bare)
      (text : (Node.mk l cs).text = (Node.mk l' cs').text)
      (children : List.Forall₂ Alike cs cs') : Alike (.mk l cs) (.mk l' cs')

namespace Alike

variable {n m : Node}

theorem bare_label (h : Alike n m) : n.label.bare = m.label.bare := by
  cases h with
  | mk label text children => exact label

theorem text_eq (h : Alike n m) : n.text = m.text := by
  cases h with
  | mk label text children => exact text

theorem children_alike (h : Alike n m) : List.Forall₂ Alike n.children m.children := by
  cases h with
  | mk label text children => exact children

mutual

theorem refl : (n : Node) → Alike n n
  | .mk _ cs => ⟨rfl, rfl, listRefl cs⟩

theorem listRefl : (cs : List Node) → List.Forall₂ Alike cs cs
  | [] => .nil
  | c :: cs => .cons (refl c) (listRefl cs)

end

theorem text_setLeading? {leading : String} (h : n.setLeading? leading = some m) :
    n.text = m.text := by
  cases hn : n.tokens with
  | nil =>
    rw [Node.setLeading?_eq_none leading n hn] at h
    cases h
  | cons t ts =>
    obtain ⟨m', hm', htokens⟩ := Node.setLeading?_eq_some leading n hn
    rw [h] at hm'
    cases hm'
    simp only [Node.text, hn, htokens]

mutual

theorem of_setLeading? (leading : String) :
    (n : Node) → {m : Node} → n.setLeading? leading = some m → Alike n m
  | .mk l cs, m => by
    intro h
    have htext := text_setLeading? h
    rw [Node.setLeading?] at h
    split at h
    · cases h
      exact ⟨rfl, htext, listRefl cs⟩
    · obtain ⟨ds, hds, hm⟩ := Option.map_eq_some_iff.mp h
      cases hm
      exact ⟨rfl, htext, of_listSetLeading? leading cs hds⟩

theorem of_listSetLeading? (leading : String) :
    (cs : List Node) → {ds : List Node} → Node.listSetLeading? leading cs = some ds →
      List.Forall₂ Alike cs ds
  | [], ds => by
    intro h
    cases h
  | c :: cs, ds => by
    intro h
    rw [Node.listSetLeading?] at h
    split at h
    · next d hd =>
      cases h
      exact .cons (of_setLeading? leading c hd) (listRefl cs)
    · obtain ⟨ds', hds, hm⟩ := Option.map_eq_some_iff.mp h
      cases hm
      exact .cons (refl c) (of_listSetLeading? leading cs hds)

end

theorem receive (pending : Option String) (n : Node) : Alike n (n.receive pending).1 := by
  cases pending with
  | none => exact refl n
  | some leading =>
    rw [Node.receive]
    cases hn : n.setLeading? leading with
    | none => exact refl n
    | some m => exact of_setLeading? leading n hn

end Alike
end ShaderParams
