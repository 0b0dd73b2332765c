import ShaderParams.Proofs.Walking
import ShaderParams.Text.Numeral

/-!
This module contains that a text in quotes tells the text, and so the line about a node what the
node is.
-/

namespace ShaderParams

-- Powers of natural numbers are the built-in ones, whatever other instances are in scope.
attribute [local instance (2000)] instPowNat

namespace Text

/-- The number that hexadecimal digits stand for. -/
def hexValue (cs : List Char) : Nat :=
  cs.foldl (fun n c => 16 * n + (Radix.hexadecimal.digit? c).getD 0) 0

theorem digit?_digitChar : ∀ d < 16, Radix.hexadecimal.digit? d.digitChar = some d := by
  decide

theorem hexValue_append_digitChar (cs : List Char) {d : Nat} (hd : d < 16) :
    hexValue (cs ++ [d.digitChar]) = 16 * hexValue cs + d := by
  rw [hexValue, List.foldl_append, List.foldl_cons, List.foldl_nil, digit?_digitChar d hd]
  rfl

theorem hexValue_toDigits (n : Nat) : hexValue (Nat.toDigits 16 n) = n := by
  induction n using Nat.strongRecOn with
  | ind n ih =>
    by_cases hn : n < 16
    · rw [Nat.toDigits_of_lt_base hn]
      exact (hexValue_append_digitChar [] hn).trans (by simp [hexValue])
    · rw [Nat.toDigits_of_base_le (by decide) (by omega),
        hexValue_append_digitChar _ (Nat.mod_lt n (by decide)), ih _ (by omega),
        Nat.div_add_mod]

theorem hexValue_hexDigits (width n : Nat) : hexValue (hexDigits width n) = n := by
  have hzeros (k : Nat) : (List.replicate k '0').foldl
      (fun n c => 16 * n + (Radix.hexadecimal.digit? c).getD 0) 0 = 0 := by
    induction k with
    | zero => rfl
    | succ k ih => exact ih
  rw [hexDigits, hexValue, List.foldl_append, hzeros]
  exact hexValue_toDigits n

theorem length_hexDigits {width n : Nat} (hwidth : 0 < width) (hn : n < 16 ^ width) :
    (hexDigits width n).length = width := by
  have hle := (Nat.length_toDigits_le_iff (by decide) hwidth).mpr hn
  rw [hexDigits, List.length_append, List.length_replicate]
  omega

/-- The first character of a text in quotes, and what stands behind it. -/
def readCharacter? : List Char → Option (Char × List Char)
  | '\\' :: 'n' :: cs => some ('\n', cs)
  | '\\' :: 'r' :: cs => some ('\r', cs)
  | '\\' :: 't' :: cs => some ('\t', cs)
  | '\\' :: 'x' :: cs => some (Char.ofNat (hexValue (cs.take 2)), cs.drop 2)
  | '\\' :: 'u' :: cs => some (Char.ofNat (hexValue (cs.take 4)), cs.drop 4)
  | '\\' :: 'U' :: cs => some (Char.ofNat (hexValue (cs.take 8)), cs.drop 8)
  | '\\' :: c :: cs => some (c, cs)
  | c :: cs => some (c, cs)
  | [] => none

/-- The quotes that are in use. -/
def IsQuote (c : Char) : Prop := c = '\'' ∨ c = '"'

theorem take_hexDigits_append {width n : Nat} (hwidth : 0 < width) (hn : n < 16 ^ width)
    (rest : List Char) :
    hexValue ((hexDigits width n ++ rest).take width) = n ∧
      (hexDigits width n ++ rest).drop width = rest := by
  have hlength := length_hexDigits hwidth hn
  rw [List.take_left' hlength, List.drop_left' hlength]
  exact ⟨hexValue_hexDigits width n, rfl⟩

theorem readCharacter?_cons {c : Char} (hc : c ≠ '\\') (cs : List Char) :
    readCharacter? (c :: cs) = some (c, cs) := by
  rw [readCharacter?]
  all_goals simp [hc]

theorem readCharacter?_escape {quote : Char} (hquote : IsQuote quote) (c : Char)
    (rest : List Char) : readCharacter? (escape quote c ++ rest) = some (c, rest) := by
  have hlt : c.toNat < 16 ^ 8 := c.val.toNat_lt
  have hhex {width : Nat} (hwidth : 0 < width) (hn : c.toNat < 16 ^ width) :
      some (Char.ofNat (hexValue ((hexDigits width c.toNat ++ rest).take width)),
        (hexDigits width c.toNat ++ rest).drop width) = some (c, rest) := by
    obtain ⟨hvalue, hrest⟩ := take_hexDigits_append hwidth hn rest
    rw [hvalue, hrest, c.ofNat_toNat]
  rw [escape]
  split_ifs with hmark hline hreturn htab _ hshort hlong
  · have hc : c = '\'' ∨ c = '"' ∨ c = '\\' := by
      rcases hquote with rfl | rfl
      · simp at hmark
        tauto
      · simp at hmark
        tauto
    rcases hc with rfl | rfl | rfl
    · rfl
    · rfl
    · rfl
  · rw [beq_iff_eq.mp hline]
    rfl
  · rw [beq_iff_eq.mp hreturn]
    rfl
  · rw [beq_iff_eq.mp htab]
    rfl
  · exact hhex (by decide) hshort
  · exact hhex (by decide) hlong
  · exact hhex (by decide) hlt
  · simp only [Bool.or_eq_true, beq_iff_eq, not_or] at hmark
    exact readCharacter?_cons hmark.2 rest

theorem escape_ne_quote {quote : Char} (hquote : IsQuote quote) (c : Char) (cs ds : List Char) :
    escape quote c ++ cs ≠ quote :: ds := by
  intro heq
  have hread := readCharacter?_escape hquote c cs
  have hne : quote ≠ '\\' := by rcases hquote with rfl | rfl <;> decide
  rw [heq, readCharacter?_cons hne] at hread
  obtain ⟨rfl, rfl⟩ := Prod.mk.inj (Option.some.inj hread)
  rw [escape, if_pos (by simp)] at heq
  exact hne (List.cons.inj heq).1.symm

/-- A text ends with the first closing quote, and no two texts are written in the same way. -/
theorem flatMap_escape_inj {quote : Char} (hquote : IsQuote quote) {cs ds rest rest' : List Char}
    (h : cs.flatMap (escape quote) ++ quote :: rest = ds.flatMap (escape quote) ++ quote :: rest') :
    cs = ds ∧ rest = rest' := by
  induction cs generalizing ds with
  | nil =>
    cases ds with
    | nil => exact ⟨rfl, (List.cons.inj h).2⟩
    | cons d ds =>
      rw [List.flatMap_cons, List.append_assoc] at h
      exact absurd h.symm (escape_ne_quote hquote d _ _)
  | cons c cs ih =>
    cases ds with
    | nil =>
      rw [List.flatMap_cons, List.append_assoc] at h
      exact absurd h (escape_ne_quote hquote c _ _)
    | cons d ds =>
      rw [List.flatMap_cons, List.flatMap_cons, List.append_assoc, List.append_assoc] at h
      have hread := congrArg readCharacter? h
      rw [readCharacter?_escape hquote, readCharacter?_escape hquote] at hread
      obtain ⟨rfl, hrest⟩ := Prod.mk.inj (Option.some.inj hread)
      obtain ⟨rfl, hrest'⟩ := ih hrest
      exact ⟨rfl, hrest'⟩

theorem exists_quoted (s : String) : ∃ quote, IsQuote quote ∧
    (quoted s).toList = quote :: s.toList.flatMap (escape quote) ++ [quote] := by
  rw [quoted, String.toList_ofList]
  refine ⟨_, ?_, rfl⟩
  split
  · exact .inr rfl
  · exact .inl rfl

/-- Where a text in quotes starts, the text and what stands behind it can be told. -/
theorem quoted_append_inj {s t : String} {rest rest' : List Char}
    (h : (quoted s).toList ++ rest = (quoted t).toList ++ rest') : s = t ∧ rest = rest' := by
  obtain ⟨quote, hquote, hs⟩ := exists_quoted s
  obtain ⟨quote', -, ht⟩ := exists_quoted t
  rw [hs, ht] at h
  simp only [List.cons_append, List.append_assoc, List.nil_append, List.cons.injEq] at h
  obtain ⟨rfl, h⟩ := h
  obtain ⟨htext, hrest⟩ := flatMap_escape_inj hquote h
  exact ⟨String.toList_inj.mp htext, hrest⟩

end Text

namespace Forest

theorem quoted_ne_children {s t : String} {rest rest' : List Char} :
    (Text.quoted s).toList ++ rest ≠ ("children=" ++ t).toList ++ rest' := by
  intro h
  obtain ⟨quote, hquote, hs⟩ := Text.exists_quoted s
  rw [hs, String.toList_append] at h
  obtain rfl : quote = 'c' := (List.cons.inj h).1
  rcases hquote with hquote | hquote <;> cases hquote

/-- The line about a node tells its type, and its text or how many children it has. -/
theorem describe_inj {f g : Forest} {i j : Nat} (h : f.describe i = g.describe j) :
    (f.label i).type = (g.label j).type ∧ (f.label i).text = (g.label j).text ∧
      ((f.label i).text = none → (f.children i).length = (g.children j).length) := by
  replace h := congrArg String.toList h
  simp only [describe, String.toList_append, List.append_assoc, List.append_cancel_left_eq] at h
  obtain ⟨htype, h⟩ := Text.quoted_append_inj h
  replace h := List.append_cancel_left h
  refine ⟨htype, ?_⟩
  cases hf : (f.label i).text with
  | some s =>
    cases hg : (g.label j).text with
    | some t =>
      rw [hf, hg] at h
      rw [(Text.quoted_append_inj h).1]
      simp
    | none =>
      rw [hf, hg] at h
      exact absurd h quoted_ne_children
  | none =>
    cases hg : (g.label j).text with
    | some t =>
      rw [hf, hg] at h
      exact absurd h.symm quoted_ne_children
    | none =>
      rw [hf, hg] at h
      have hcount := List.append_cancel_right h
      rw [String.toList_append, String.toList_append] at hcount
      have hlength := congrArg (Nat.ofDigitChars 10 · 0) (List.append_cancel_left hcount)
      simp only [Nat.toString_eq_ofList_toDigits, String.toList_ofList,
        Nat.ofDigitChars_ten_toDigits] at hlength
      exact ⟨rfl, fun _ => hlength⟩

end Forest

end ShaderParams
