import Mathlib.Data.List.TakeWhile
import Mathlib.Data.Nat.Basic

namespace Omission.Lib
set_option autoImplicit true

def decimal (n : Nat) : List Char := Nat.toDigits 10 n

def signedDecimal : Int → List Char
  | .ofNat n => decimal n
  | .negSucc n => '-' :: decimal (n + 1)

def digits (t : List Char) : List Char := t.takeWhile Char.isDigit

/-- The number that the digits at the front of a text spell; 0 where there are none. -/
def leadingNat (t : List Char) : Nat := Nat.ofDigitChars 10 (digits t) 0

/-- A minus or a plus at the front of a text is taken off. -/
def splitSign : List Char → Bool × List Char
  | '-' :: t => (true, t)
  | '+' :: t => (false, t)
  | t => (false, t)

/-- The integer that the front of a text spells. -/
def leadingInt (t : List Char) : Int :=
  if (splitSign t).1 then -(leadingNat (splitSign t).2) else leadingNat (splitSign t).2

theorem decimal_isDigit (h : c ∈ decimal n) : c.isDigit = true :=
  Nat.isDigit_of_mem_toDigits (by decide) (by decide) h

theorem decimal_ne_nil (n : Nat) : decimal n ≠ [] := Nat.toDigits_ne_nil

theorem digits_append (hu : ∀ c ∈ u, Char.isDigit c = true)
    (h : ∀ c ∈ t.head?, Char.isDigit c = false) : digits (u ++ t) = u := by
  rw [digits, List.takeWhile_append_of_pos hu]
  cases t with
  | nil => exact List.append_nil _
  | cons c t =>
    rw [List.takeWhile_cons_of_neg, List.append_nil]
    rw [h c rfl]
    exact Bool.false_ne_true

theorem dropWhile_digits_append {u t : List Char} (hu : ∀ c ∈ u, Char.isDigit c = true)
    (h : ∀ c ∈ t.head?, Char.isDigit c = false) : (u ++ t).dropWhile Char.isDigit = t := by
  rw [List.dropWhile_append_of_pos hu]
  cases t with
  | nil => rfl
  | cons c t =>
    rw [List.dropWhile_cons_of_neg]
    rw [h c rfl]
    exact Bool.false_ne_true

theorem digits_decimal (n : Nat) (h : ∀ c ∈ t.head?, Char.isDigit c = false) :
    digits (decimal n ++ t) = decimal n :=
  digits_append (fun _ => decimal_isDigit) h

theorem leadingNat_decimal (n : Nat) (h : ∀ c ∈ t.head?, Char.isDigit c = false) :
    leadingNat (decimal n ++ t) = n := by
  rw [leadingNat, digits_decimal n h]
  exact Nat.ofDigitChars_toDigits (by decide) (by decide)

theorem decimal_head (n : Nat) : ∃ c t, decimal n = c :: t ∧ c.isDigit = true := by
  cases h : decimal n with
  | nil => exact absurd h (decimal_ne_nil n)
  | cons c t => exact ⟨c, t, rfl, decimal_isDigit (h ▸ List.mem_cons_self)⟩

theorem splitSign_digit (h : Char.isDigit c = true) : splitSign (c :: t) = (false, c :: t) := by
  have hminus : c ≠ '-' := by
    rintro rfl
    exact absurd h (by decide)
  have hplus : c ≠ '+' := by
    rintro rfl
    exact absurd h (by decide)
  unfold splitSign
  split
  · next he => exact absurd (List.cons.inj he).1 hminus
  · next he => exact absurd (List.cons.inj he).1 hplus
  · rfl

/-- Reading back what was printed, whatever follows that is not a digit. -/
theorem leadingInt_signedDecimal (v : Int) (h : ∀ c ∈ t.head?, Char.isDigit c = false) :
    leadingInt (signedDecimal v ++ t) = v := by
  cases v with
  | ofNat n =>
    obtain ⟨c, u, hc, hdigit⟩ := decimal_head n
    have hsplit : splitSign (decimal n ++ t) = (false, decimal n ++ t) := by
      rw [hc]
      exact splitSign_digit hdigit
    rw [leadingInt, signedDecimal, hsplit, leadingNat_decimal n h]
    rfl
  | negSucc n =>
    change (if true then -(leadingNat (decimal (n + 1) ++ t) : Int) else _) = _
    rw [if_pos rfl, leadingNat_decimal _ h]
    rfl

theorem signedDecimal_head (v : Int) : ∃ c t, c.isDigit = true ∧
    (signedDecimal v = c :: t ∨ signedDecimal v = '-' :: c :: t) := by
  cases v with
  | ofNat n =>
    obtain ⟨c, t, hc, hdigit⟩ := decimal_head n
    exact ⟨c, t, hdigit, .inl hc⟩
  | negSucc n =>
    obtain ⟨c, t, hc, hdigit⟩ := decimal_head (n + 1)
    exact ⟨c, t, hdigit, .inr (congrArg _ hc)⟩

/-- The text is a number, with at most a minus in front of its digits. -/
def Spells (t : List Char) (n : Int) : Prop :=
  ∃ u, u ≠ [] ∧ (∀ c ∈ u, Char.isDigit c = true) ∧
    (t = u ∧ n = Nat.ofDigitChars 10 u 0 ∨ t = '-' :: u ∧ n = -(Nat.ofDigitChars 10 u 0 : Int))

theorem Spells.ne_nil (h : Spells t n) : t ≠ [] := by
  obtain ⟨u, hu, -, ⟨rfl, -⟩ | ⟨rfl, -⟩⟩ := h
  · exact hu
  · exact List.cons_ne_nil _ _

end Omission.Lib
