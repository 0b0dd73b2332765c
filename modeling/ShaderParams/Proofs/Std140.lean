import Mathlib.Order.Bounds.Defs
import ShaderParams.Proofs.Buffer

/-!
This module contains the std140 rules: every member of a buffer stands at the least place that they
allow behind the member in front of it, and the buffer ends at the least multiple of its alignment.
-/

namespace ShaderParams

theorem alignUp_isLeast (n : Nat) {a : Nat} (h : 0 < a) :
    IsLeast {k | a ∣ k ∧ n ≤ k} (alignUp n a) := by
  refine ⟨⟨Nat.dvd_of_mod_eq_zero (alignUp_mod n a), le_alignUp n h⟩, ?_⟩
  rintro k ⟨⟨q, rfl⟩, hk⟩
  have hq : (n + a - 1) / a < q + 1 := by
    rw [Nat.div_lt_iff_lt_mul h, Nat.add_mul, Nat.mul_comm q]
    omega
  rw [alignUp, Nat.mul_comm]
  apply Nat.mul_le_mul_left
  omega

namespace Control

/-- Whether a control feeds a vector. -/
def isVector : Control → Bool
  | .vec3 _ | .color _ => true
  | .float .. | .bool _ | .bare | .foreign => false

theorem extent?_eq_some {c : Control} (h : c.memberType?.isSome) :
    c.extent? = some (if c.isVector then 12 else 4, if c.isVector then 16 else 4) := by
  cases c with
  | float min max value => rfl
  | vec3 value => rfl
  | color value => rfl
  | bool value => rfl
  | bare => cases h
  | foreign => cases h

theorem extent?_eq_none {c : Control} (h : c.memberType? = none) : c.extent? = none := by
  cases c with
  | float min max value => cases h
  | vec3 value => cases h
  | color value => cases h
  | bool value => cases h
  | bare => rfl
  | foreign => rfl

end Control

/-- The member of a slider behind an offset. -/
def nextMember (offset : Nat) (s : Slider) : Member where
  name := s.name
  offset := alignUp offset (if s.control.isVector then 16 else 4)
  size := if s.control.isVector then 12 else 4

section

variable {s : Slider} {ss : List Slider} {offset : Nat} {ms : List Member}

theorem placeMembers_cons_of_isSome (h : s.control.memberType?.isSome) :
    placeMembers offset (s :: ss) =
      (placeMembers (nextMember offset s).stop ss).map (nextMember offset s :: ·) := by
  rw [placeMembers, Control.extent?_eq_some h]
  show placeMembers (nextMember offset s).stop ss >>=
    (fun ms => pure (nextMember offset s :: ms)) = _
  cases placeMembers (nextMember offset s).stop ss <;> rfl

theorem placeMembers_error
    (h : ss.find? (fun s => s.control.memberType?.isNone) = some s) :
    placeMembers offset ss = .error (.noMember s.control) := by
  induction ss generalizing offset with
  | nil => cases h
  | cons t ss ih =>
    cases ht : t.control.memberType? with
    | none =>
      simp only [List.find?_cons, ht, Option.isNone_none] at h
      cases h
      rw [placeMembers, Control.extent?_eq_none ht]
    | some type =>
      simp only [List.find?_cons, ht, Option.isNone_some] at h
      rw [placeMembers_cons_of_isSome (by simp [ht]), ih h]
      rfl

theorem placeMembers_take (h : placeMembers offset ss = .ok ms) (n : Nat) :
    placeMembers offset (ss.take n) = .ok (ms.take n) := by
  induction ss generalizing offset ms n with
  | nil =>
    cases h
    simp [placeMembers]
  | cons s ss ih =>
    cases n with
    | zero => rfl
    | succ n =>
      have hs : s.control.memberType?.isSome := by
        by_contra hs
        rw [placeMembers, Control.extent?_eq_none (by simpa using hs)] at h
        cases h
      rw [placeMembers_cons_of_isSome hs] at h
      rw [List.take_succ_cons, placeMembers_cons_of_isSome hs]
      cases hms : placeMembers (nextMember offset s).stop ss with
      | error e =>
        rw [hms] at h
        cases h
      | ok ms' =>
        rw [hms] at h
        cases h
        rw [ih hms]
        rfl

end

/--
The std140 place of a member behind an offset. A gap is left in front of vectors only.
-/
structure Member.Follows (previous : Nat) (s : Slider) (m : Member) : Prop where
  name_eq : m.name = s.name
  size_eq : m.size = if s.control.isVector then 12 else 4
  isLeast : IsLeast {k | (if s.control.isVector then 16 else 4) ∣ k ∧ previous ≤ k} m.offset
  gap_le : m.offset ≤ previous + 12
  gap_eq : s.control.isVector = false → m.offset = previous

/-- Members that follow each other from an offset on. -/
inductive Placed : Nat → List Slider → List Member → Prop where
  | nil {offset : Nat} : Placed offset [] []
  | cons {offset : Nat} {s : Slider} {m : Member} {ss : List Slider} {ms : List Member}
      (member : m.Follows offset s) (rest : Placed m.stop ss ms) :
      Placed offset (s :: ss) (m :: ms)

namespace Member.Follows

variable {offset : Nat} {s : Slider} {m : Member}

theorem nextMember (h : 4 ∣ offset) (s : Slider) : (nextMember offset s).Follows offset s := by
  unfold ShaderParams.nextMember
  refine ⟨rfl, rfl, ?_, ?_, ?_⟩
  · apply alignUp_isLeast
    split <;> omega
  · simp only [alignUp]
    split <;> omega
  · intro hscalar
    simp only [hscalar, Bool.false_eq_true, ↓reduceIte, alignUp]
    omega

-- This is why a scalar never needs a gap: vectors end at a multiple of four as well.
theorem dvd_stop (h : m.Follows offset s) : 4 ∣ m.stop := by
  have hoffset := h.isLeast.1.1
  rw [Member.stop, h.size_eq]
  split at hoffset
  · next hvector =>
    rw [if_pos hvector]
    omega
  · next hvector =>
    rw [if_neg hvector]
    omega

end Member.Follows

theorem placeMembers_placed {ss : List Slider} (h : ∀ s ∈ ss, s.control.memberType?.isSome)
    {offset : Nat} (hoffset : 4 ∣ offset) :
    ∃ ms, placeMembers offset ss = .ok ms ∧ Placed offset ss ms := by
  induction ss generalizing offset with
  | nil => exact ⟨[], rfl, .nil⟩
  | cons s ss ih =>
    obtain ⟨hs, hss⟩ := List.forall_mem_cons.mp h
    have hfollows := Member.Follows.nextMember hoffset s
    obtain ⟨ms, hms, hplaced⟩ := ih hss hfollows.dvd_stop
    refine ⟨_, ?_, .cons hfollows hplaced⟩
    rw [placeMembers_cons_of_isSome hs, hms]
    rfl

namespace Placed

variable {offset : Nat} {ss : List Slider} {ms : List Member}

theorem le_offset (h : Placed offset ss ms) : ∀ m ∈ ms, offset ≤ m.offset := by
  induction h with
  | nil => simp
  | @cons offset s m ss ms member rest ih =>
    have hm := member.isLeast.1.2
    intro m' hm'
    rcases List.mem_cons.mp hm' with rfl | hm'
    · exact hm
    · have := ih m' hm'
      rw [Member.stop] at this
      omega

theorem length_eq (h : Placed offset ss ms) : ms.length = ss.length := by
  induction h with
  | nil => rfl
  | cons _ _ ih => rw [List.length_cons, List.length_cons, ih]

theorem pairwise (h : Placed offset ss ms) : ms.Pairwise fun m m' => m.stop ≤ m'.offset := by
  induction h with
  | nil => exact .nil
  | cons member rest ih => exact .cons rest.le_offset ih

end Placed

/--
Sliders that feed members are placed by the std140 rules, those in front without a look at the ones
behind them. The first slider that feeds none is an error.
-/
theorem members_std140 (ss : List Slider) :
    ((∀ s ∈ ss, s.control.memberType?.isSome) →
      ∃ ms size, members ss = .ok ms ∧ Placed 0 ss ms ∧
        ms.Pairwise (fun m m' => m.stop ≤ m'.offset) ∧ bufferSize ss = .ok size ∧
        IsLeast {k | 16 ∣ k ∧ endOf 0 ms ≤ k} size ∧ (ss = [] → size = 0) ∧
        ∀ n, members (ss.take n) = .ok (ms.take n)) ∧
    ∀ s, ss.find? (fun s => s.control.memberType?.isNone) = some s →
      members ss = .error (.noMember s.control) ∧ bufferSize ss = .error (.noMember s.control) := by
  constructor
  · intro h
    obtain ⟨ms, hms, hplaced⟩ := placeMembers_placed h (Nat.dvd_zero 4)
    refine ⟨ms, _, hms, hplaced, hplaced.pairwise, bufferSize_eq hms, ?_, ?_, ?_⟩
    · apply alignUp_isLeast
      decide
    · rintro rfl
      cases hplaced
      rfl
    · apply placeMembers_take hms
  · intro s hs
    have hms : members ss = .error (.noMember s.control) := placeMembers_error hs
    refine ⟨hms, ?_⟩
    rw [bufferSize, hms]
    rfl

/-- Sliders of all kinds. The switch fills up the place of the vector in front of it. -/
def mixedSliders : List Slider :=
  [⟨some "speed", .float (.zero false) .one .one⟩, ⟨some "light", .vec3 Control.origin⟩,
    ⟨some "on", .bool 1⟩, ⟨some "tint", .color Control.origin⟩]

theorem members_std140_mixedSliders :
    (∀ s ∈ mixedSliders, s.control.memberType?.isSome) ∧
      ∃ ms size, members mixedSliders = .ok ms ∧ ms.map Member.offset = [0, 16, 28, 32] ∧
        Placed 0 mixedSliders ms ∧ bufferSize mixedSliders = .ok size ∧
        IsLeast {k | 16 ∣ k ∧ endOf 0 ms ≤ k} size ∧
        (∀ n, members (mixedSliders.take n) = .ok (ms.take n)) ∧
        members (mixedSliders ++ [⟨none, .bare⟩]) = .error (.noMember .bare) := by
  have hmixed : ∀ s ∈ mixedSliders, s.control.memberType?.isSome := by decide
  have hoffsets : (members mixedSliders).map (List.map Member.offset) = .ok [0, 16, 28, 32] := by
    decide +kernel
  obtain ⟨ms, size, hms, hplaced, -, hsize, hleast, -, htake⟩ :=
    (members_std140 mixedSliders).1 hmixed
  rw [hms] at hoffsets
  have hbare := (members_std140 (mixedSliders ++ [⟨none, .bare⟩])).2 ⟨none, .bare⟩ rfl
  exact ⟨hmixed, ms, size, hms, Except.ok.inj hoffsets, hplaced, hsize, hleast, htake, hbare.1⟩

end ShaderParams
