import ShaderParams.Extract.Pass
import ShaderParams.Proofs.Place
import ShaderParams.Proofs.Trivia

/-!
This module contains the changes that an extraction makes to the words of a document, read off the
document as it was given: the edits of the params block, and what is found behind it.
-/

namespace ShaderParams

/--
What becomes of a stretch of words: they stay, they are removed, or others take their place.
-/
inductive Edit where
  | keep (old : List Word)
  | drop (old : List Word)
  | swap (old new : List Word)

namespace Edit

def old : Edit → List Word
  | keep ws | drop ws | swap ws _ => ws

def leading : List Word → String
  | [] => ""
  | w :: _ => w.leading

/--
The words that an edit leaves. While a run of removed words lasts, `pending` is the trivia in front
of the run. The first word that is written again has it.
-/
def apply (pending : Option String) : Edit → List Word × Option String
  | keep ws => receiveWords pending ws
  | drop ws => ([], some (pending.getD (leading ws)))
  | swap ws vs => receiveWords (some (pending.getD (leading ws))) vs

def run (pending : Option String) : List Edit → List Word × Option String
  | [] => ([], pending)
  | e :: es =>
    let (ws, pending) := e.apply pending
    let (vs, pending) := run pending es
    (ws ++ vs, pending)

@[simp]
theorem run_nil (pending : Option String) : run pending [] = ([], pending) := rfl

theorem run_cons (pending : Option String) (e : Edit) (es : List Edit) :
    run pending (e :: es) =
      ((e.apply pending).1 ++ (run (e.apply pending).2 es).1, (run (e.apply pending).2 es).2) := rfl

@[simp]
theorem run_singleton (pending : Option String) (e : Edit) : run pending [e] = e.apply pending := by
  rw [run_cons, run_nil, List.append_nil]

theorem run_append (pending : Option String) (es fs : List Edit) :
    run pending (es ++ fs) =
      ((run pending es).1 ++ (run (run pending es).2 fs).1, (run (run pending es).2 fs).2) := by
  induction es generalizing pending with
  | nil => rfl
  | cons e es ih => simp [run_cons, ih]

end Edit

/-!
The edits of a params block: other words take the place of its layout, and the qualifiers of its
fields are removed.
-/

namespace Node

mutual

/--
The edits of a qualifier whose layout specification is replaced.
-/
def layoutEdits (new : Node) : Node → List Edit
  | mk l cs =>
    if l.isLayout then
      [.swap (mk l cs).words new.words]
    -- What is below a token is not written.
    else if l.isWrapper && !l.isToken then
      firstLayoutEdits new cs
    else
      [.keep (mk l cs).words]

def firstLayoutEdits (new : Node) : List Node → List Edit
  | [] => []
  | c :: cs =>
    if c.label.isComment then
      .keep c.words :: firstLayoutEdits new cs
    else
      layoutEdits new c ++ [.keep (listWords cs)]

end

/--
The edits of the nodes in front of the members of a block: the layout specification of the first
qualifier is replaced.
-/
def qualifierEdits (new : Node) : List Node → List Edit
  | [] => []
  | c :: cs =>
    if c.label.isComment then
      .keep c.words :: qualifierEdits new cs
    else if c.label.endsQualifiers then
      [.keep (listWords (c :: cs))]
    else if c.label.isQualifier then
      layoutEdits new c ++ [.keep (listWords cs)]
    else
      .keep c.words :: qualifierEdits new cs

def fieldEdits : Node → List Edit
  | mk l cs =>
    if l.isToken then
      [.keep [l.word]]
    else
      (markQualifiers label cs).map fun (c, qualifier) =>
        if qualifier then .drop c.words else .keep c.words

def memberEdits (members : List Node) : List Edit :=
  members.flatMap fun m => if m.isField then m.fieldEdits else [.keep m.words]

def fieldListEdits : Node → List Edit
  | mk l cs => if l.isToken then [.keep [l.word]] else memberEdits cs

def blockEdits (new : Node) (block : Node) : List Edit :=
  let inFront := block.children.takeWhile fun c => !c.label.isFieldList
  let rest := block.children.dropWhile fun c => !c.label.isFieldList
  qualifierEdits new inFront ++
    match rest with
    | [] => []
    | list :: behind => list.fieldListEdits ++ [.keep (listWords behind)]

end Node

/-!
The bounds of sliders.
-/

/--
Whether a node is the member `min` or `max` of an identifier, and `x` is this bound of the first
numeric slider that the identifier names.
-/
inductive NamesBound (sliders : List Slider) (n : Node) (x : Double) : Prop where
  | mk {argument member : Node} {before behind : List Slider} {min max value : Double}
      (access : n.type = "field_expression")
      (hargument : (n.childByField? "argument" <|> n.namedChildren.head?) = some argument)
      (hmember : (n.childByField? "field" <|> n.namedChildren.getLast?) = some member)
      (identifier : argument.type = "identifier")
      (split : sliders = before ++ ⟨some argument.text, .float min max value⟩ :: behind)
      (first : ∀ s ∈ before, s.name = some argument.text → ∀ a b c, s.control ≠ .float a b c)
      (bound : member.text = "min" ∧ x = min ∨ member.text = "max" ∧ x = max)

theorem Control.isFloat_eq_false {c : Control} :
    c.isFloat = false ↔ ∀ min max value, c ≠ .float min max value := by
  cases c <;> simp [isFloat]

theorem namedBound?_eq_some {sliders : List Slider} {slider member : String} {x : Double} :
    namedBound? sliders slider member = some x ↔
      ∃ before min max value behind,
        sliders = before ++ ⟨some slider, .float min max value⟩ :: behind ∧
        (∀ s ∈ before, s.name = some slider → ∀ a b c, s.control ≠ .float a b c) ∧
        (member = "min" ∧ x = min ∨ member = "max" ∧ x = max) := by
  have hother (s : Slider) : (!(s.control.isFloat && s.name == some slider)) = true ↔
      (s.name = some slider → ∀ a b c, s.control ≠ .float a b c) := by
    rw [← Control.isFloat_eq_false]
    cases s.control.isFloat <;> simp
  have hmember (min max : Double) :
      (if member = "min" then some min else if member = "max" then some max else none) = some x ↔
        member = "min" ∧ x = min ∨ member = "max" ∧ x = max := by
    split
    · next h => simp [h, eq_comm]
    · next h =>
      split
      · next h' => simp [h', eq_comm]
      · next h' => simp [h, h']
  constructor
  · intro h
    rw [namedBound?] at h
    split at h
    · next name min max value hfound =>
      obtain ⟨hs, before, behind, hsplit, hbefore⟩ := List.find?_eq_some_iff_append.mp hfound
      have hname : name = some slider := by simpa [Control.isFloat] using hs
      rw [hname] at hsplit
      exact ⟨before, min, max, value, behind, hsplit, fun s hs => (hother s).mp (hbefore s hs),
        (hmember min max).mp h⟩
    · cases h
  · rintro ⟨before, min, max, value, behind, hsplit, hbefore, hbound⟩
    have hfound : sliders.find? (fun s => s.control.isFloat && s.name == some slider) =
        some ⟨some slider, .float min max value⟩ :=
      List.find?_eq_some_iff_append.mpr ⟨by simp [Control.isFloat], before, behind, hsplit,
        fun s hs => (hother s).mpr (hbefore s hs)⟩
    rw [namedBound?, hfound]
    exact (hmember min max).mpr hbound

theorem boundAt?_eq_some {sliders : List Slider} {n : Node} {x : Double} :
    boundAt? sliders n = .ok (some x) ↔ NamesBound sliders n x := by
  constructor
  · intro h
    rw [boundAt?] at h
    split at h
    · next haccess =>
      cases hargument : n.childByField? "argument" <|> n.namedChildren.head? with
      | none =>
        rw [hargument] at h
        cases h
      | some argument =>
        cases hmember : n.childByField? "field" <|> n.namedChildren.getLast? with
        | none =>
          rw [hargument, hmember] at h
          cases h
        | some member =>
          rw [hargument, hmember] at h
          dsimp only at h
          split at h
          · next hidentifier =>
            obtain ⟨before, min, max, value, behind, hsplit, hbefore, hbound⟩ :=
              namedBound?_eq_some.mp (Except.ok.inj h)
            exact .mk (eq_of_beq haccess) hargument hmember (eq_of_beq hidentifier) hsplit hbefore
              hbound
          · cases h
    · cases h
  · rintro ⟨haccess, hargument, hmember, hidentifier, hsplit, hbefore, hbound⟩
    have hnamed := namedBound?_eq_some.mpr ⟨_, _, _, _, _, hsplit, hbefore, hbound⟩
    rw [boundAt?, if_pos (beq_iff_eq.mpr haccess), hargument, hmember]
    dsimp only
    rw [if_pos (beq_iff_eq.mpr hidentifier), hnamed]
    rfl

/--
What a pass meets behind the params block: a word, another params block, or the bound of a slider.
-/
inductive Finding where
  | word (w : Word)
  | extraBlock (n : Node)
  | bound (n : Node) (x : Double)

namespace Finding

def edit : Finding → Edit
  | word w => .keep [w]
  | extraBlock n => .keep n.words
  | bound n x => .swap n.words (Node.ofDouble x).words

def warnings : Finding → List Warning
  | extraBlock n => n.label.start.toList.map fun p => .extraBlock p.row
  | word _ | bound .. => []

end Finding

mutual

/--
What is met in a tree behind the params block, in the order of the source. Nothing is looked for in
other params blocks or in the bounds of sliders.
-/
def survey (o : Options) (sliders : List Slider) (preceding : List Node) : Node → List Finding
  | .mk l cs =>
    if isParams o preceding (.mk l cs) then
      [.extraBlock (.mk l cs)]
    else
      match boundAt? sliders (.mk l cs) with
      | .ok (some x) => [.bound (.mk l cs) x]
      | _ => (if l.isToken then [.word l.word] else []) ++ surveyAmong o sliders [] cs

def surveyAmong (o : Options) (sliders : List Slider) (left : List Node) :
    List Node → List Finding
  | [] => []
  | c :: cs => survey o sliders left c ++ surveyAmong o sliders (left ++ [c]) cs

end

def Context.survey (o : Options) (sliders : List Slider) : Context → Node → List Finding
  | root, _ => []
  | child _ left right c, n =>
    c.survey o sliders n ++ surveyAmong o sliders (left ++ [c.plug n]) right

end ShaderParams
