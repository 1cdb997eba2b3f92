import Mathlib.Data.List.DropRight
import Mathlib.Algebra.Group.Nat.Defs

/-!
# Digits after a point

A list that is padded to a width forgets a final run of the padding. Cutting
digits off at a width is rounding down.
-/

namespace DikeProtocol.Lib

section Padding

variable {α : Type*}

/-- A list padded on the right to a width, and cut there. -/
def padded (width : ℕ) (a : α) (l : List α) : List α := (l.rightpad width a).take width

/-- Enough padding is enough. -/
theorem take_append_replicate (l : List α) (a : α) {width m : ℕ} (h : width - l.length ≤ m) :
    (l ++ List.replicate m a).take width = padded width a l := by
  unfold padded List.rightpad
  rw [List.take_append, List.take_append, List.take_replicate, List.take_replicate,
    Nat.min_eq_left h, Nat.min_self]

/-- A list of the width is neither padded nor cut. -/
theorem padded_of_length {width : ℕ} {a : α} {l : List α} (h : l.length = width) :
    padded width a l = l := by
  unfold padded List.rightpad
  rw [h, Nat.sub_self, List.replicate_zero, List.append_nil, ← h, List.take_length]

/-- A longer one is cut. -/
theorem padded_of_le {width : ℕ} {a : α} {l : List α} (h : width ≤ l.length) :
    padded width a l = l.take width := by
  unfold padded List.rightpad
  rw [Nat.sub_eq_zero_of_le h, List.replicate_zero, List.append_nil]

/-- A shorter one is padded. -/
theorem padded_of_ge {width : ℕ} {a : α} {l : List α} (h : l.length ≤ width) :
    padded width a l = l ++ List.replicate (width - l.length) a := by
  unfold padded
  rw [List.take_of_length_le]
  · rfl
  · rw [List.rightpad, List.length_append, List.length_replicate]
    omega

variable [DecidableEq α]

/-- What is stripped off the end is the padding. -/
theorem strip_append (a : α) (l : List α) :
    l.rdropWhile (· == a) ++
      List.replicate (l.length - (l.rdropWhile (· == a)).length) a = l := by
  have hsplit := l.rdropWhile_append_rtakeWhile (p := (· == a))
  have hlength := congrArg List.length hsplit
  rw [List.length_append] at hlength
  have hrun : l.rtakeWhile (· == a) =
      List.replicate (l.length - (l.rdropWhile (· == a)).length) a := by
    refine List.eq_replicate_iff.mpr ⟨by omega, fun b hb => ?_⟩
    have hstripped := List.mem_rtakeWhile_imp hb
    exact beq_iff_eq.mp hstripped
  rw [← hrun]
  exact hsplit

/-- Stripping the padding off the end does not show in what is padded again. -/
theorem padded_strip (width : ℕ) (a : α) (l : List α) :
    padded width a (l.rdropWhile (· == a)) = padded width a l := by
  conv_rhs => rw [← strip_append a l]
  unfold padded List.rightpad
  rw [List.append_assoc, List.replicate_append_replicate]
  exact (take_append_replicate _ a (by
    rw [List.length_append, List.length_replicate]
    omega)).symm

end Padding

/-- Digits stand for less than the power of their number. -/
theorem ofDigitChars_lt {ds : List Char} (h : ∀ c ∈ ds, c.isDigit = true) :
    Nat.ofDigitChars 10 ds 0 < 10 ^ ds.length := by
  induction ds with
  | nil => rw [Nat.ofDigitChars_nil, List.length_nil, Nat.pow_zero]; exact Nat.one_pos
  | cons c ds ih =>
    have hc : c.toNat - '0'.toNat ≤ 9 := by
      have hdigit := h c List.mem_cons_self
      rw [Char.isDigit, Bool.and_eq_true, decide_eq_true_eq, decide_eq_true_eq] at hdigit
      have hle : c.toNat ≤ 57 := by simpa using UInt32.le_iff_toNat_le.mp hdigit.2
      change c.toNat - 48 ≤ 9
      omega
    have hrest := ih fun d hd => h d (List.mem_cons_of_mem c hd)
    rw [Nat.ofDigitChars_cons, Nat.ofDigitChars_eq_ofDigitChars_zero, List.length_cons,
      Nat.pow_succ]
    generalize c.toNat - '0'.toNat = d at hc ⊢
    have hd : 10 ^ ds.length * (10 * 0 + d) ≤ 10 ^ ds.length * 9 :=
      Nat.mul_le_mul_left _ (by omega)
    omega

/-- Zeros after the digits are factors of ten. -/
theorem ofDigitChars_append_zeros (ds : List Char) (n : ℕ) :
    Nat.ofDigitChars 10 (ds ++ List.replicate n '0') 0 =
      10 ^ n * Nat.ofDigitChars 10 ds 0 := by
  rw [Nat.ofDigitChars_append, Nat.ofDigitChars_replicate_zero]

/-- The digits up to a width are those of the whole fraction at that width, rounded down. -/
theorem ofDigitChars_padded (width : ℕ) {ds : List Char} (h : ∀ c ∈ ds, c.isDigit = true) :
    Nat.ofDigitChars 10 (padded width '0' ds) 0 =
      Nat.ofDigitChars 10 ds 0 * 10 ^ width / 10 ^ ds.length := by
  obtain hle | hle := Nat.le_total ds.length width
  · rw [padded_of_ge hle, ofDigitChars_append_zeros]
    refine (Nat.div_eq_of_eq_mul_left (Nat.pow_pos (by decide)) ?_).symm
    rw [Nat.mul_comm (10 ^ _), Nat.mul_assoc, ← Nat.pow_add, Nat.sub_add_cancel hle]
  · rw [padded_of_le hle]
    have hsplit := congrArg (fun l => Nat.ofDigitChars 10 l 0) (List.take_append_drop width ds)
    rw [Nat.ofDigitChars_append, Nat.ofDigitChars_eq_ofDigitChars_zero, List.length_drop] at hsplit
    have hrest : Nat.ofDigitChars 10 (ds.drop width) 0 < 10 ^ (ds.length - width) := by
      rw [← List.length_drop]
      exact ofDigitChars_lt fun c hc => h c (List.mem_of_mem_drop hc)
    have hpow : 10 ^ ds.length = 10 ^ (ds.length - width) * 10 ^ width := by
      rw [← Nat.pow_add, Nat.sub_add_cancel hle]
    rw [hpow, Nat.mul_div_mul_right _ _ (Nat.pow_pos (by decide)), ← hsplit,
      Nat.mul_add_div (Nat.pow_pos (by decide)), Nat.div_eq_of_lt hrest, Nat.add_zero]

end DikeProtocol.Lib
