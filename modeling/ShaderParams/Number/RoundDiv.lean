/-!
This module contains division of natural numbers to the nearest quotient, a tie going to the even
neighbour. Every rounding of the project (decimal to binary, binary to decimal, double to single
precision) is this one division at a scale of its own.
-/

namespace ShaderParams

/--
The integer nearest to `n / d`; of two equally near ones the even one.
-/
def roundDiv (n d : Nat) : Nat :=
  let q := n / d
  let r := n % d
  if 2 * r < d then
    q
  else if d < 2 * r then
    q + 1
  else
    q + q % 2

theorem roundDiv_mul_le (n d : Nat) : 2 * (d * roundDiv n d) ≤ 2 * n + d := by
  have hn := Nat.div_add_mod n d
  have hq : d * (n / d + 1) = d * (n / d) + d := Nat.mul_succ ..
  rw [roundDiv]
  split
  · omega
  · split
    · omega
    · rcases Nat.mod_two_eq_zero_or_one (n / d) with h | h <;> simp only [h, Nat.add_zero] <;> omega

theorem le_roundDiv_mul (n : Nat) {d : Nat} (h : 0 < d) :
    2 * n ≤ 2 * (d * roundDiv n d) + d := by
  have hn := Nat.div_add_mod n d
  have hq : d * (n / d + 1) = d * (n / d) + d := Nat.mul_succ ..
  have hlt := Nat.mod_lt n h
  rw [roundDiv]
  split
  · omega
  · split
    · omega
    · rcases Nat.mod_two_eq_zero_or_one (n / d) with h | h <;> simp only [h, Nat.add_zero] <;> omega

@[simp]
theorem roundDiv_zero {d : Nat} (h : 0 < d) : roundDiv 0 d = 0 := by
  simp [roundDiv, h]

end ShaderParams
