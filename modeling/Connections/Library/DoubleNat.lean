import Connections.Library.Loop
import Mathlib.Algebra.Order.Ring.Nat
import Mathlib.Data.Nat.Notation
import Mathlib.Order.Lattice

/-!
# Counting in doubles

The non-negative integers among the double-precision numbers: every one up to `2 ^ 53`, then those
with 53 significant bits, and infinity, which `2 ^ 1024` stands for.  A sum is rounded to the
nearest of them, a tie to the even one, so that a counter gets stuck at `2 ^ 53`.
-/

namespace DoubleNat

open Loop

/-- The exponents of finite doubles are below this one. -/
def exponentLimit : ℕ := 1024

/-- The value that stands for infinity, the first power of two behind all finite doubles. -/
def infinity : ℕ := 2 ^ exponentLimit

/-- The nearest number with 53 significant bits, of two equally near ones the even one. -/
def roundBits (n : ℕ) : ℕ :=
  if n < 2 ^ 53 then n
  else
    let unit := 2 ^ (n.log2 - 52)
    if 2 * (n % unit) < unit ∨ 2 * (n % unit) = unit ∧ n / unit % 2 = 0 then n / unit * unit
    else (n / unit + 1) * unit

/-- The double nearest to a number. -/
def ofNat (n : ℕ) : ℕ := min infinity (roundBits n)

/-- The sum of two doubles. -/
def add (a b : ℕ) : ℕ := ofNat (a + b)

theorem two_pow_53_le_infinity : 2 ^ 53 ≤ infinity :=
  Nat.pow_le_pow_right Nat.two_pos (by decide : 53 ≤ exponentLimit)

/-- Below `2 ^ 53` every number is a double. -/
theorem ofNat_of_lt {n : ℕ} (h : n < 2 ^ 53) : ofNat n = n := by
  have hinfinity := two_pow_53_le_infinity
  rw [ofNat, roundBits, if_pos h]
  exact min_eq_right (by omega)

/-- And so is `2 ^ 53`, which its successor is rounded down to. -/
theorem ofNat_two_pow_53 : ofNat (2 ^ 53) = 2 ^ 53 ∧ ofNat (2 ^ 53 + 1) = 2 ^ 53 := by
  decide +kernel

/-- Rounding does not go back below `2 ^ 53`. -/
theorem le_ofNat {n : ℕ} (h : 2 ^ 53 ≤ n) : 2 ^ 53 ≤ ofNat n := by
  refine le_min two_pow_53_le_infinity ?_
  have hne : n ≠ 0 := by omega
  have hlog : 53 ≤ n.log2 := (Nat.le_log2 hne).mpr h
  have hself : 2 ^ n.log2 ≤ n := Nat.log2_self_le hne
  obtain ⟨e, he⟩ : ∃ e, n.log2 = 52 + (e + 1) := ⟨n.log2 - 53, by omega⟩
  have hunit : n.log2 - 52 = e + 1 := by omega
  rw [he, pow_add] at hself
  have hquot : 2 ^ 52 ≤ n / 2 ^ (e + 1) :=
    (Nat.le_div_iff_mul_le (Nat.two_pow_pos (e + 1))).mpr hself
  have hpow : 2 ≤ 2 ^ (e + 1) := by
    rw [pow_succ]
    have hpos := Nat.two_pow_pos e
    omega
  have hfloor : 2 ^ 53 ≤ n / 2 ^ (e + 1) * 2 ^ (e + 1) := by
    calc 2 ^ 53 = 2 ^ 52 * 2 := rfl
      _ ≤ n / 2 ^ (e + 1) * 2 ^ (e + 1) := Nat.mul_le_mul hquot hpow
  rw [roundBits, if_neg (Nat.not_lt.mpr h), hunit]
  dsimp only
  split
  · exact hfloor
  · exact hfloor.trans (Nat.mul_le_mul_right _ (Nat.le_succ _))

/-- A number rounds to less than `2 ^ 53` just when it is less. -/
theorem ofNat_lt_iff {n : ℕ} : ofNat n < 2 ^ 53 ↔ n < 2 ^ 53 := by
  constructor
  · intro h
    by_contra hn
    exact absurd (le_ofNat (Nat.not_lt.mp hn)) (Nat.not_le.mpr h)
  · intro h
    rwa [ofNat_of_lt h]

/-- A counter moves on below `2 ^ 53`. -/
theorem add_one_of_lt {n : ℕ} (h : n < 2 ^ 53) : add n 1 = n + 1 := by
  rcases Nat.lt_or_ge (n + 1) (2 ^ 53) with hlt | hge
  · exact ofNat_of_lt hlt
  · have hn : n + 1 = 2 ^ 53 := by omega
    rw [add, hn]
    exact ofNat_two_pow_53.1

/-- A counter never gets beyond `2 ^ 53`. -/
theorem add_one_le {n : ℕ} (h : n ≤ 2 ^ 53) : add n 1 ≤ 2 ^ 53 := by
  rcases Nat.lt_or_ge n (2 ^ 53) with hlt | hge
  · rw [add_one_of_lt hlt]
    exact hlt
  · have hn : n = 2 ^ 53 := by omega
    rw [hn]
    exact ofNat_two_pow_53.2.le

variable {σ : Type*}

/-- One pass of a loop that counts in doubles up to a bound, the bound included. -/
def upTo (bound : ℕ) (visit : ℕ → σ → σ) (p : ℕ × σ) : Pass (ℕ × σ) σ :=
  if p.1 ≤ bound then .next (add p.1 1, visit p.1 p.2) else .leave p.2

variable {bound : ℕ} {visit : ℕ → σ → σ}

/-- Below `2 ^ 53` the loop visits every number from its counter to its bound, in order. -/
theorem run_upTo (hbound : bound < 2 ^ 53) (k c : ℕ) (hk : c + k = bound + 1) (s : σ) :
    run (upTo bound visit) (k + 1) (c, s) =
      some ((List.range' c k).foldl (fun s n => visit n s) s) := by
  induction k generalizing c s with
  | zero =>
    apply run_succ_leave
    exact if_neg (by simp only; omega)
  | succ k ih =>
    have hpass : upTo bound visit (c, s) = .next (c + 1, visit c s) := by
      rw [upTo, if_pos (by simp only; omega), add_one_of_lt (by simp only; omega)]
    rw [run_succ_next hpass, ih (c + 1) (by omega), List.range'_succ, List.foldl_cons]

/-- From `2 ^ 53` on the loop never ends: its counter gets stuck below its bound. -/
theorem not_ends_upTo (hbound : 2 ^ 53 ≤ bound) {c : ℕ} (hc : c ≤ 2 ^ 53) (s : σ) :
    ¬ Ends (upTo bound visit) (c, s) := by
  apply not_ends_of_invariant fun p : ℕ × σ => p.1 ≤ 2 ^ 53
  · rintro ⟨n, s⟩ hn
    exact ⟨(add n 1, visit n s), if_pos (le_trans hn hbound), add_one_le hn⟩
  · exact hc

/-- A loop from 1 in doubles ends just when its bound is below `2 ^ 53`. -/
theorem ends_upTo_iff (visit : ℕ → σ → σ) (s : σ) :
    Ends (upTo bound visit) (1, s) ↔ bound < 2 ^ 53 := by
  constructor
  · intro h
    by_contra hbound
    exact not_ends_upTo (Nat.not_lt.mp hbound) Nat.one_le_two_pow s h
  · intro hbound
    exact ⟨_, bound + 1, run_upTo hbound bound 1 (Nat.add_comm 1 bound) s⟩

/-- What it ends with is what the visits of all numbers up to the bound make of the first state. -/
theorem endsWith_upTo {s r : σ} (h : EndsWith (upTo bound visit) (1, s) r) :
    bound < 2 ^ 53 ∧ r = (List.range' 1 bound).foldl (fun s n => visit n s) s := by
  have hbound := (ends_upTo_iff visit s).mp ⟨r, h⟩
  exact ⟨hbound, h.unique ⟨bound + 1, run_upTo hbound bound 1 (Nat.add_comm 1 bound) s⟩⟩

end DoubleNat
