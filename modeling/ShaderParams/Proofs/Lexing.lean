import ShaderParams.Grammar.Token
import ShaderParams.Proofs.RoundTrip

/-!
This module contains where tokens are read: they and the comments between them follow each other in
the source, with boundaries of characters at their ends.
-/

namespace ShaderParams

namespace Place

theorem skip_append (p : Place) (cs ds : List Char) : p.skip (cs ++ ds) = (p.skip cs).skip ds :=
  List.foldl_append

theorem offset_skip (p : Place) (cs : List Char) :
    (p.skip cs).offset = p.offset + (String.ofList cs).utf8ByteSize := by
  induction cs generalizing p with
  | nil => simp [skip]
  | cons c cs ih =>
    have hskip : p.skip (c :: cs) = (p.next c).skip cs := rfl
    rw [hskip, ih, next, String.ofList_cons, String.utf8ByteSize_append,
      String.utf8ByteSize_singleton, Nat.add_assoc]

theorem offset_le_skip (p : Place) (cs : List Char) : p.offset ≤ (p.skip cs).offset := by
  rw [offset_skip]
  exact Nat.le_add_right ..

/-- Whether a place is one of a text: it is reached on the way through its characters. -/
def Of (text : String) (p : Place) : Prop :=
  ∃ cs ds, text.toList = cs ++ ds ∧ p = start.skip cs

variable {text : String} {p : Place}

theorem Of.boundary (h : p.Of text) : Boundary text p.offset := by
  obtain ⟨cs, ds, htext, rfl⟩ := h
  refine String.Pos.Raw.isValid_iff_exists_append.mpr ⟨String.ofList cs, String.ofList ds, ?_, ?_⟩
  · rw [← String.ofList_append, ← htext, String.ofList_toList]
  · rw [offset_skip]
    simp [start, String.rawEndPos]

end Place

/--
Spans that follow each other in a text between two offsets, with boundaries of characters at both
ends.
-/
def LaidTo (text : String) (stop : Nat) : Nat → List Span → Prop
  | start, [] => start ≤ stop
  | start, s :: ss =>
    start ≤ s.start ∧ s.start ≤ s.stop ∧ Boundary text s.start ∧ Boundary text s.stop ∧
      LaidTo text stop s.stop ss

namespace LaidTo

variable {text : String} {start mid stop : Nat} {ss ts : List Span}

theorem laid (h : LaidTo text stop start ss) : Laid text start ss := by
  induction ss generalizing start with
  | nil => trivial
  | cons s ss ih => exact ⟨h.1, h.2.1, h.2.2.1, h.2.2.2.1, ih h.2.2.2.2⟩

theorem le (h : LaidTo text stop start ss) : start ≤ stop := by
  induction ss generalizing start with
  | nil => exact h
  | cons s ss ih => exact Nat.le_trans h.1 (Nat.le_trans h.2.1 (ih h.2.2.2.2))

theorem mono {start' stop' : Nat} (h : LaidTo text stop start ss) (hstart : start' ≤ start)
    (hstop : stop ≤ stop') : LaidTo text stop' start' ss := by
  induction ss generalizing start start' with
  | nil => exact Nat.le_trans hstart (Nat.le_trans h hstop)
  | cons s ss ih =>
    obtain ⟨hle, hspan, hfirst, hlast, hrest⟩ := h
    exact ⟨Nat.le_trans hstart hle, hspan, hfirst, hlast, ih hrest (Nat.le_refl _)⟩

theorem append (h : LaidTo text mid start ss) (h' : LaidTo text stop mid ts) :
    LaidTo text stop start (ss ++ ts) := by
  induction ss generalizing start with
  | nil => exact h'.mono h (Nat.le_refl _)
  | cons s ss ih =>
    obtain ⟨hle, hspan, hfirst, hlast, hrest⟩ := h
    exact ⟨hle, hspan, hfirst, hlast, ih hrest⟩

/-- What spans are about does not matter. -/
theorem congr (h : LaidTo text stop start ss)
    (heq : ts.map (fun s => (s.start, s.stop)) = ss.map fun s => (s.start, s.stop)) :
    LaidTo text stop start ts := by
  induction ss generalizing start ts with
  | nil =>
    rw [List.map_nil, List.map_eq_nil_iff] at heq
    subst heq
    exact h
  | cons s ss ih =>
    cases ts with
    | nil => cases heq
    | cons t ts =>
      obtain ⟨hspan, heq⟩ := List.cons.inj heq
      obtain ⟨hstart, hstop⟩ := Prod.mk.inj hspan
      rw [LaidTo, hstart, hstop]
      exact ⟨h.1, h.2.1, h.2.2.1, h.2.2.2.1, ih h.2.2.2.2 heq⟩

end LaidTo

namespace SpanTree

theorem listLeaves_append (ts us : List SpanTree) :
    listLeaves (ts ++ us) = listLeaves ts ++ listLeaves us := by
  induction ts with
  | nil => rfl
  | cons t ts ih => rw [List.cons_append, listLeaves, listLeaves, ih, List.append_assoc]

/-- Trees whose tokens follow each other in a text between two offsets. -/
def Between (text : String) (start stop : Nat) (ts : List SpanTree) : Prop :=
  LaidTo text stop start (listLeaves ts)

namespace Between

variable {text : String} {start mid stop : Nat} {ts us : List SpanTree}

theorem nil (h : start ≤ stop) : Between text start stop [] := h

theorem append (h : Between text start mid ts) (h' : Between text mid stop us) :
    Between text start stop (ts ++ us) := by
  rw [Between, listLeaves_append]
  exact LaidTo.append h h'

theorem mono {start' stop' : Nat} (h : Between text start stop ts) (hstart : start' ≤ start)
    (hstop : stop ≤ stop') : Between text start' stop' ts :=
  LaidTo.mono h hstart hstop

theorem token {p q : Place} (hp : p.Of text) (hq : q.Of text) (hle : p.offset ≤ q.offset)
    {s : Span} (hstart : s.start = p.offset) (hstop : s.stop = q.offset) :
    Between text p.offset q.offset [.mk s []] := by
  refine ⟨Nat.le_of_eq hstart.symm, ?_, ?_, ?_, Nat.le_of_eq hstop⟩
  · rwa [hstart, hstop]
  · rw [hstart]
    exact hp.boundary
  · rw [hstop]
    exact hq.boundary

end Between

end SpanTree

namespace Grammar

open SpanTree (Between)

variable {text : String}

/-- Whether a cursor is at a place of a text, with the rest of the text in front of it. -/
def Cursor.Of (text : String) (c : Cursor) : Prop :=
  ∃ cs, text.toList = cs ++ c.rest ∧ c.place = Place.start.skip cs

namespace Cursor.Of

variable {c : Cursor}

theorem place (h : c.Of text) : c.place.Of text := by
  obtain ⟨cs, htext, hplace⟩ := h
  exact ⟨cs, _, htext, hplace⟩

theorem advance (h : c.Of text) (n : Nat) : (c.advance n).Of text := by
  obtain ⟨cs, htext, hplace⟩ := h
  refine ⟨cs ++ c.rest.take n, ?_, ?_⟩
  · rw [Cursor.advance, List.append_assoc, List.take_append_drop, htext]
  · rw [Cursor.advance, hplace, Place.skip_append]

end Cursor.Of

theorem Cursor.offset_le_advance (c : Cursor) (n : Nat) :
    c.place.offset ≤ (c.advance n).place.offset :=
  c.place.offset_le_skip _

/-- What is known of a token that was read in a text from an offset on. -/
structure Lexed.ReadFrom (text : String) (offset : Nat) (l : Lexed) : Prop where
  start : l.start.Of text
  stop : l.stop.Of text
  le : l.start.offset ≤ l.stop.offset
  comments : Between text offset l.start.offset l.comments

/-- By induction on the text that is left: blanks and comments are passed by. -/
theorem readToken_readFrom (tokens : List (Nat × Token)) (attached : Bool) (c : Cursor) :
    c.Of text → ∀ l ∈ readToken tokens attached c, l.ReadFrom text c.place.offset := by
  induction attached, c using readToken.induct tokens with
  | case1 attached c number length hfront =>
    intro hc l hl
    rw [readToken, hfront] at hl
    obtain rfl := Option.some.inj hl
    exact ⟨hc.place, (hc.advance length).place, c.offset_le_advance length,
      .nil (Nat.le_refl _)⟩
  | case2 attached c n hfront hnil =>
    intro hc l hl
    rw [readToken, hfront] at hl
    simp [hnil] at hl
  | case3 attached c n hfront hne next ih =>
    intro hc l hl
    rw [readToken, hfront] at hl
    simp only [hne, ↓reduceDIte] at hl
    obtain ⟨l', hl', rfl⟩ := Option.map_eq_some_iff.mp hl
    have hnext : next.Of text := hc.advance (n + 1)
    obtain ⟨hstart, hstop, hle, hcomments⟩ := ih hnext l' hl'
    refine ⟨hstart, hstop, hle, ?_⟩
    have hcomment := Between.token (s := spanBetween "comment" c.place next.place) hc.place
      hnext.place (c.offset_le_advance (n + 1)) rfl rfl
    exact hcomment.append hcomments
  | case4 attached c n hfront hnil =>
    intro hc l hl
    rw [readToken, hfront] at hl
    simp [hnil] at hl
  | case5 attached c n hfront hne ih =>
    intro hc l hl
    rw [readToken, hfront] at hl
    simp only [hne, ↓reduceDIte] at hl
    obtain ⟨hstart, hstop, hle, hcomments⟩ := ih (hc.advance (n + 1)) l hl
    exact ⟨hstart, hstop, hle,
      hcomments.mono (c.offset_le_advance (n + 1)) (Nat.le_refl _)⟩
  | case6 attached c htoken hcomment hblank =>
    intro hc l hl
    rw [readToken] at hl
    split at hl
    · exact absurd ‹_› (htoken _ _)
    · exact absurd ‹_› (hcomment _)
    · exact absurd ‹_› (hblank _)
    · cases hl

end Grammar

end ShaderParams
