import Mathlib.Data.List.Forall2
import ShaderParams.Error

/-!
This module contains the laws of computations that collect warnings: when a sequence of them
succeeds or fails, and which warnings it gives.
-/

namespace ShaderParams
namespace Logged

variable {α β : Type}

theorem bind_def (x : Logged α) (f : α → Logged β) : x >>= f = x.bind f := rfl

theorem pure_def (a : α) : (Pure.pure a : Logged α) = ⟨[], .ok a⟩ := rfl

theorem liftM_def (x : Except Error α) : (liftM x : Logged α) = lift x := rfl

theorem bind_assoc' {γ : Type} (x : Logged α) (f : α → Logged β) (g : β → Logged γ) :
    (x.bind f).bind g = x.bind fun a => (f a).bind g := by
  rcases x with ⟨ws, _ | a⟩
  · rfl
  · rcases h : f a with ⟨vs, _ | b⟩ <;> simp [bind, h]

instance : LawfulMonad Logged :=
  LawfulMonad.mk' Logged
    (by
      intro α x
      rcases x with ⟨ws, _ | a⟩ <;> simp [Functor.map, bind, pure])
    (by
      intro α β a f
      apply pure_bind)
    (by
      intro α β γ x f g
      apply bind_assoc')

theorem bind_of_ok {x : Logged α} {a : α} (h : x.result = .ok a) (f : α → Logged β) :
    x >>= f = ⟨x.warnings ++ (f a).warnings, (f a).result⟩ := by
  rw [bind_def, bind, h]

theorem bind_of_error {x : Logged α} {e : Error} (h : x.result = .error e) (f : α → Logged β) :
    x >>= f = ⟨x.warnings, .error e⟩ := by
  rw [bind_def, bind, h]

theorem result_bind (x : Logged α) (f : α → Logged β) :
    (x >>= f).result = x.result >>= fun a => (f a).result := by
  cases hx : x.result with
  | error e =>
    rw [bind_of_error hx]
    rfl
  | ok a =>
    rw [bind_of_ok hx]
    rfl

theorem result_bind_eq_ok {x : Logged α} {f : α → Logged β} {b : β}
    (h : (x >>= f).result = .ok b) : ∃ a, x.result = .ok a ∧ (f a).result = .ok b := by
  cases hx : x.result with
  | error e =>
    rw [bind_of_error hx] at h
    cases h
  | ok a =>
    rw [bind_of_ok hx] at h
    exact ⟨a, rfl, h⟩

theorem result_bind_eq_error {x : Logged α} {f : α → Logged β} {e : Error}
    (h : (x >>= f).result = .error e) :
    x.result = .error e ∨ ∃ a, x.result = .ok a ∧ (f a).result = .error e := by
  cases hx : x.result with
  | error e' =>
    rw [bind_of_error hx] at h
    cases h
    exact .inl rfl
  | ok a =>
    rw [bind_of_ok hx] at h
    exact .inr ⟨a, rfl, h⟩

@[simp]
theorem lift_ok_bind (a : α) (f : α → Logged β) : lift (.ok a) >>= f = f a := by
  rw [bind_of_ok (x := lift (.ok a)) rfl]
  rfl

@[simp]
theorem lift_error_bind (e : Error) (f : α → Logged β) : lift (.error e) >>= f = throw e := by
  rw [bind_of_error (x := lift (.error e)) rfl]
  rfl

/-- A computation with warnings in front of its own. -/
def after (ws : List Warning) (x : Logged α) : Logged α :=
  ⟨ws ++ x.warnings, x.result⟩

theorem after_ok_bind (ws : List Warning) (a : α) (f : α → β) :
    (after ws (Pure.pure a) >>= fun a => Pure.pure (f a)) = ⟨ws, .ok (f a)⟩ := by
  rw [bind_of_ok (x := after ws (Pure.pure a)) rfl, after]
  simp [pure_def]

theorem after_error_bind (ws : List Warning) (err : Error) (f : α → Logged β) :
    after ws ⟨[], .error err⟩ >>= f = ⟨ws, .error err⟩ := by
  rw [bind_of_error (x := after ws ⟨[], .error err⟩) rfl, after, List.append_nil]

theorem result_mapM (f : α → Logged β) (xs : List α) :
    (xs.mapM f).result = xs.mapM fun x => (f x).result := by
  induction xs with
  | nil => rfl
  | cons x xs ih =>
    rw [List.mapM_cons, List.mapM_cons, result_bind]
    congr 1
    funext y
    rw [result_bind, ih]
    rfl

theorem mapM_eq_ok {f : α → Logged β} {xs : List α} {ys : List β}
    (h : (xs.mapM f).result = .ok ys) : List.Forall₂ (fun x y => (f x).result = .ok y) xs ys := by
  induction xs generalizing ys with
  | nil =>
    rw [List.mapM_nil] at h
    cases h
    exact .nil
  | cons x xs ih =>
    rw [List.mapM_cons] at h
    obtain ⟨y, hy, h⟩ := result_bind_eq_ok h
    obtain ⟨ys', hys, h⟩ := result_bind_eq_ok h
    cases h
    exact .cons hy (ih hys)

theorem warnings_mapM {f : α → Logged β} {xs : List α} {ys : List β}
    (h : (xs.mapM f).result = .ok ys) :
    (xs.mapM f).warnings = xs.flatMap fun x => (f x).warnings := by
  induction xs generalizing ys with
  | nil => rfl
  | cons x xs ih =>
    rw [List.mapM_cons] at h ⊢
    obtain ⟨y, hy, h⟩ := result_bind_eq_ok h
    obtain ⟨ys', hys, h⟩ := result_bind_eq_ok h
    rw [bind_of_ok hy, bind_of_ok hys, pure_def, List.append_nil, List.flatMap_cons, ih hys]

theorem exists_of_isOk {x : Logged α} (h : x.result.isOk) : ∃ a, x.result = .ok a := by
  cases hx : x.result with
  | error e =>
    rw [hx] at h
    cases h
  | ok a => exact ⟨a, rfl⟩

theorem mapM_error {f : α → Logged β} {before behind : List α} {x : α} {e : Error}
    (hbefore : ∀ y ∈ before, (f y).result.isOk) (hx : (f x).result = .error e) :
    ((before ++ x :: behind).mapM f).result = .error e := by
  induction before with
  | nil => rw [List.nil_append, List.mapM_cons, bind_of_error hx]
  | cons y before ih =>
    obtain ⟨hy, hbefore⟩ := List.forall_mem_cons.mp hbefore
    obtain ⟨z, hz⟩ := exists_of_isOk hy
    rw [List.cons_append, List.mapM_cons, bind_of_ok hz, bind_of_error (ih hbefore)]

theorem exists_of_mapM_error {f : α → Logged β} {xs : List α} {e : Error}
    (h : (xs.mapM f).result = .error e) :
    ∃ before x behind, xs = before ++ x :: behind ∧ (∀ y ∈ before, (f y).result.isOk) ∧
      (f x).result = .error e := by
  induction xs with
  | nil => cases h
  | cons x xs ih =>
    rw [List.mapM_cons] at h
    cases hx : (f x).result with
    | error e' =>
      rw [bind_of_error hx] at h
      cases h
      exact ⟨[], x, xs, rfl, by simp, hx⟩
    | ok y =>
      cases hxs : (xs.mapM f).result with
      | ok ys =>
        rw [bind_of_ok hx, bind_of_ok hxs] at h
        cases h
      | error e' =>
        rw [bind_of_ok hx, bind_of_error hxs] at h
        cases h
        obtain ⟨before, z, behind, rfl, hbefore, hz⟩ := ih hxs
        refine ⟨x :: before, z, behind, rfl, List.forall_mem_cons.mpr ⟨?_, hbefore⟩, hz⟩
        rw [hx]
        rfl

end Logged

/-!
The same for computations without warnings.
-/

section

variable {α β : Type} {f : α → Except Error β} {xs : List α}

theorem exists_of_mapM_eq_ok {ys : List β} (h : xs.mapM f = .ok ys) :
    ys.length = xs.length ∧ ∀ y ∈ ys, ∃ x ∈ xs, f x = .ok y := by
  induction xs generalizing ys with
  | nil =>
    cases h
    simp
  | cons x xs ih =>
    rw [List.mapM_cons] at h
    cases hx : f x with
    | error e =>
      rw [hx] at h
      cases h
    | ok y =>
      cases hxs : xs.mapM f with
      | error e =>
        rw [hx, hxs] at h
        cases h
      | ok ys' =>
        rw [hx, hxs] at h
        cases h
        obtain ⟨hlength, hys⟩ := ih hxs
        refine ⟨by simp [hlength], List.forall_mem_cons.mpr ⟨⟨x, List.mem_cons_self, hx⟩, ?_⟩⟩
        intro z hz
        obtain ⟨w, hw, hfw⟩ := hys z hz
        exact ⟨w, List.mem_cons_of_mem x hw, hfw⟩

theorem exists_of_mapM_eq_error {e : Error} (h : xs.mapM f = .error e) :
    ∃ x ∈ xs, f x = .error e := by
  induction xs with
  | nil => cases h
  | cons x xs ih =>
    rw [List.mapM_cons] at h
    cases hx : f x with
    | error e' =>
      rw [hx] at h
      cases h
      exact ⟨x, List.mem_cons_self, hx⟩
    | ok y =>
      cases hxs : xs.mapM f with
      | error e' =>
        rw [hx, hxs] at h
        cases h
        obtain ⟨z, hz, hfz⟩ := ih hxs
        exact ⟨z, List.mem_cons_of_mem x hz, hfz⟩
      | ok ys =>
        rw [hx, hxs] at h
        cases h

end

end ShaderParams
