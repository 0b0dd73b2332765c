import Mathlib.Tactic.ByContra
import ShaderParams.Syntax.Span

/-!
This module contains the search for the first error in a tree of spans: where the flags of the tree
are right, leaving out what is not flagged finds the same error as going through all of it.
-/

namespace ShaderParams

namespace SpanTree

mutual

/-- A tree of spans and everything below it, parents before their children. -/
def walk : SpanTree → List SpanTree
  | mk span children => mk span children :: listWalk children

/-- The members of a sequence of trees and everything below them. -/
def listWalk : List SpanTree → List SpanTree
  | [] => []
  | c :: cs => c.walk ++ listWalk cs

end

theorem self_mem_walk (t : SpanTree) : t ∈ t.walk := by
  cases t with
  | mk s cs => simp [walk]

/-- Whether a tree has an error in it. -/
def HasError (t : SpanTree) : Prop :=
  ∃ n ∈ t.walk, n.span.isError

instance (t : SpanTree) : Decidable t.HasError :=
  inferInstanceAs (Decidable (∃ n ∈ t.walk, n.span.isError))

/-- Whether exactly those trees are flagged that have an error in them. -/
def Flagged (t : SpanTree) : Prop :=
  ∀ n ∈ t.walk, n.span.hasError ↔ n.HasError

instance (t : SpanTree) : Decidable t.Flagged :=
  inferInstanceAs (Decidable (∀ n ∈ t.walk, n.span.hasError ↔ n.HasError))

/-- The first error of a tree, parents before their children. -/
def firstErrorIn (ts : List SpanTree) : Option SpanTree :=
  ts.find? fun n => n.span.isError

theorem firstErrorIn_cons (s : Span) (cs ts : List SpanTree) :
    firstErrorIn (mk s cs :: ts) = if s.isError then some (mk s cs) else firstErrorIn ts := by
  rw [firstErrorIn, List.find?_cons, span]
  split <;> simp_all [firstErrorIn]

theorem firstErrorIn_append (ts us : List SpanTree) :
    firstErrorIn (ts ++ us) = (firstErrorIn ts).or (firstErrorIn us) :=
  List.find?_append

theorem firstErrorIn_walk_eq_none {t : SpanTree} :
    firstErrorIn t.walk = none ↔ ¬t.HasError := by
  simp [firstErrorIn, HasError]

/-- A tree that the search skips has no error. -/
theorem firstErrorIn_of_not_flagged {t : SpanTree} (h : t.Flagged)
    (hskip : ¬(t.span.hasError || t.span.missing)) : firstErrorIn t.walk = none := by
  rw [firstErrorIn_walk_eq_none, ← h t t.self_mem_walk]
  simp only [Bool.or_eq_true, not_or] at hskip
  exact hskip.1

-- By induction on the tree; flags are right in all children.
mutual

theorem firstError?_eq : (t : SpanTree) → t.Flagged →
    t.firstError? = (firstErrorIn t.walk).map span
  | mk s cs => by
    intro h
    rw [firstError?, walk, firstErrorIn_cons]
    have hcs : ∀ n ∈ listWalk cs, n.span.hasError ↔ n.HasError := by
      intro n hn
      exact h n (by simp [walk, hn])
    split
    · rfl
    · exact listFirstError?_eq cs hcs

theorem listFirstError?_eq : (cs : List SpanTree) →
    (∀ n ∈ listWalk cs, n.span.hasError ↔ n.HasError) →
    listFirstError? cs = (firstErrorIn (listWalk cs)).map span
  | [] => by
    intro _
    rfl
  | c :: cs => by
    intro h
    have hc : c.Flagged := fun n hn => h n (by simp [listWalk, hn])
    have hcs := listFirstError?_eq cs fun n hn => h n (by simp [listWalk, hn])
    rw [listFirstError?, listWalk, firstErrorIn_append, hcs]
    split
    · rw [firstError?_eq c hc]
      cases firstErrorIn c.walk <;> simp
    · next hskip => simp [firstErrorIn_of_not_flagged hc hskip]

end

end SpanTree

/-!
A document that is not rejected can only fail to be decoded.
-/

/-- Whether a computation fails for no other reason than bytes that are no text. -/
def Decodes {α : Type} (x : Except Error α) : Prop :=
  ∀ e, x = .error e → e = .invalidEncoding

namespace Decodes

variable {α β : Type}

theorem pure (a : α) : Decodes (Pure.pure a) := by
  intro e h
  cases h

theorem bind {x : Except Error α} {f : α → Except Error β} (hx : Decodes x)
    (hf : ∀ a, Decodes (f a)) : Decodes (x >>= f) := by
  intro e h
  cases x with
  | error e' =>
    cases h
    exact hx e rfl
  | ok a => exact hf a e h

end Decodes

theorem decodes_decodeRange (data : ByteArray) (start stop : Nat) :
    Decodes (decodeRange data start stop) := by
  intro e h
  rw [decodeRange] at h
  split at h <;> cases h
  rfl

mutual

theorem decodes_toNode (data : ByteArray) :
    (t : SpanTree) → (offset : Nat) → Decodes (t.toNode data offset)
  | .mk s [], offset => by
    rw [SpanTree.toNode]
    refine .bind (decodes_decodeRange _ _ _) fun leading => ?_
    exact .bind (decodes_decodeRange _ _ _) fun text => .pure _
  | .mk s (c :: cs), offset => by
    rw [SpanTree.toNode]
    exact .bind (decodes_toNodes data (c :: cs) offset) fun r => .pure _

theorem decodes_toNodes (data : ByteArray) :
    (cs : List SpanTree) → (offset : Nat) → Decodes (SpanTree.toNodes data offset cs)
  | [], offset => .pure _
  | c :: cs, offset => by
    rw [SpanTree.toNodes]
    refine .bind (decodes_toNode data c offset) fun r => ?_
    exact .bind (decodes_toNodes data cs r.2) fun r' => .pure _

end

theorem decodes_ofSpans {source : String} {t : SpanTree} (h : t.span.hasError = false) :
    Decodes (Document.ofSpans source t) := by
  cases t with
  | mk s cs =>
    rw [Document.ofSpans, if_neg (by simp [h])]
    refine .bind (decodes_toNode _ _ _) fun r => ?_
    exact .bind (decodes_decodeRange _ _ _) fun trailing => .pure _

/-!
The error that a rejected tree reports.
-/

/-- What is wrong at an error: a token is missing, or the text does not fit. -/
def Span.cause (s : Span) : Cause :=
  if s.missing then .missingToken s.type else .unexpectedToken

theorem Span.message_cause (s : Span) :
    s.cause.message =
      if s.missing then "Invalid GLSL source: missing '" ++ s.type ++ "'"
      else "Invalid GLSL source: syntax error" := by
  rw [cause]
  split <;> rfl

theorem Span.errorClass_cause (s : Span) : s.cause.errorClass = .parsing := by
  rw [cause]
  split <;> rfl

theorem ofSpans_of_firstError? {source : String} {t : SpanTree} {s : Span}
    (ht : t.span.hasError) (h : t.firstError? = some s) :
    Document.ofSpans source t =
      .error (.rejected s.cause (some s.point)) := by
  rw [Document.ofSpans, if_pos ht, Document.spanError, h, Span.cause]
  dsimp only
  split <;> rfl

/--
A source is rejected as one that does not parse if and only if its tree has an error, and the
rejection names the first error: where it is, and the missing token if it is one.
-/
theorem ofSpans_rejected_iff (source : String) (t : SpanTree) (h : t.Flagged) :
    ((∃ cause location, cause.errorClass = .parsing ∧
        Document.ofSpans source t = .error (.rejected cause location)) ↔ t.HasError) ∧
      t.firstError? = (t.walk.find? fun n => n.span.isError).map SpanTree.span ∧
      (∀ bad, t.walk.find? (fun n => n.span.isError) = some bad →
        ∃ cause, Document.ofSpans source t = .error (.rejected cause
            (some bad.span.point)) ∧
          cause.errorClass = .parsing ∧
          (cause = .missingToken bad.span.type ↔ bad.span.missing) ∧
          cause.message = if bad.span.missing then
              "Invalid GLSL source: missing '" ++ bad.span.type ++ "'"
            else
              "Invalid GLSL source: syntax error") ∧
      ∀ location, Document.ofSpans source t ≠ .error (.rejected .invalidSource location) := by
  have hroot : t.span.hasError ↔ t.HasError := h t t.self_mem_walk
  have hsearch := SpanTree.firstError?_eq t h
  have hfirst (bad : SpanTree) (hbad : SpanTree.firstErrorIn t.walk = some bad) :
      Document.ofSpans source t = .error (.rejected bad.span.cause
        (some bad.span.point)) := by
    have hflag : t.span.hasError := by
      rw [hroot]
      by_contra hnone
      rw [SpanTree.firstErrorIn_walk_eq_none.mpr hnone] at hbad
      cases hbad
    apply ofSpans_of_firstError? hflag
    rw [hsearch, hbad]
    rfl
  -- Without an error the tree is not flagged, so it can only fail to be decoded.
  have hclean (hnone : ¬t.HasError) : Decodes (Document.ofSpans source t) := by
    apply decodes_ofSpans
    rw [← hroot] at hnone
    simpa using hnone
  refine ⟨⟨?_, fun herror => ?_⟩, hsearch, fun bad hbad => ?_, fun location hsource => ?_⟩
  · rintro ⟨cause, location, -, hrejected⟩
    by_contra hnone
    cases hclean hnone _ hrejected
  · obtain ⟨bad, hbad⟩ : ∃ bad, SpanTree.firstErrorIn t.walk = some bad := by
      rw [← Option.ne_none_iff_exists', ne_eq, SpanTree.firstErrorIn_walk_eq_none]
      exact not_not.mpr herror
    exact ⟨_, _, bad.span.errorClass_cause, hfirst bad hbad⟩
  · refine ⟨_, hfirst bad hbad, bad.span.errorClass_cause, ?_, bad.span.message_cause⟩
    rw [Span.cause]
    split <;> simp_all
  · cases hbad : SpanTree.firstErrorIn t.walk with
    | none => cases hclean (SpanTree.firstErrorIn_walk_eq_none.mp hbad) _ hsource
    | some bad =>
      rw [hfirst bad hbad, Span.cause] at hsource
      split at hsource <;> cases hsource

/--
The tree of a text in which a parenthesis is missing two levels down, in front of a token that does
not fit. The missing token comes first.
-/
def brokenTree : SpanTree :=
  .mk { type := "translation_unit", start := 0, stop := 8, point := ⟨0, 0⟩, hasError := true } [
    .mk { type := "call", start := 0, stop := 4, point := ⟨0, 0⟩, hasError := true } [
      .mk { type := "identifier", start := 0, stop := 1, point := ⟨0, 0⟩ } [],
      .mk { type := "arguments", start := 1, stop := 4, point := ⟨0, 1⟩, hasError := true } [
        .mk { type := "(", start := 1, stop := 2, point := ⟨0, 1⟩, named := false } [],
        .mk { type := "number", start := 3, stop := 4, point := ⟨1, 0⟩ } [],
        .mk { type := ")", start := 4, stop := 4, point := ⟨1, 1⟩, named := false,
              missing := true, hasError := true } []]],
    .mk { type := "ERROR", start := 5, stop := 7, point := ⟨1, 2⟩, hasError := true } []]

theorem ofSpans_rejected_iff_brokenTree :
    brokenTree.Flagged ∧ ∃ cause, Document.ofSpans "f(\n1 ++\n" brokenTree =
      .error (.rejected cause (some ⟨1, 1⟩)) ∧
      cause.message = "Invalid GLSL source: missing ')'" := by
  have hflagged : brokenTree.Flagged := by decide
  obtain ⟨-, -, hfirst, -⟩ := ofSpans_rejected_iff "f(\n1 ++\n" brokenTree hflagged
  obtain ⟨cause, hcause, -, -, hmessage⟩ := hfirst _ rfl
  exact ⟨hflagged, cause, hcause, hmessage⟩

end ShaderParams
