import GameScript.Json.Basic
import GameScript.Proofs.Lua.Token
import Mathlib.Algebra.Group.Nat.Defs
import Mathlib.Tactic.SplitIfs

/-! The texts of numbers. A number is told from every other one by its text: an integer has neither a point nor an
exponent, and a decimal has its digits around a point or in front of an exponent. These digits give back the
significand, and where the point stands gives back the scale, because a decimal is kept in normal form. -/

namespace GameScript
namespace Decimal

open Lua

theorem isDigit_of_mem_digits {n : Nat} {c : Char} (h : c ∈ digits n) : c.isDigit = true :=
  Nat.isDigit_of_mem_toDigits (by decide) (by decide) h

theorem ofDigitChars_digits (n : Nat) : Nat.ofDigitChars 10 (digits n) 0 = n :=
  Nat.ofDigitChars_ten_toDigits

theorem digits_ne_nil (n : Nat) : digits n ≠ [] := Nat.toDigits_ne_nil

theorem digits_injective : Function.Injective digits := fun m n h => by
  rw [← ofDigitChars_digits m, h, ofDigitChars_digits]

/-! ### Digits around a point -/

/-- Digits in front of a point and digits behind it. All of them, scaled by how many stand behind the point, are
the number `significand · 10 ^ exponent`. -/
structure Pointed (significand : Nat) (exponent : Int) (whole decimals : List Char) : Prop where
  ne_nil : whole ≠ []
  isDigit : ∀ c ∈ whole ++ decimals, c.isDigit = true
  scaled : ∃ j : Nat, Nat.ofDigitChars 10 (whole ++ decimals) 0 = significand * 10 ^ j ∧
    (decimals.length : Int) = j - exponent

theorem positional_pointed (n : Nat) (exponent : Int) : ∃ whole decimals,
    positional (digits n) exponent = whole ++ '.' :: decimals ∧ Pointed n exponent whole decimals := by
  have nonempty := digits_ne_nil n
  have each : ∀ c ∈ digits n, c.isDigit = true := fun c => isDigit_of_mem_digits
  unfold positional
  dsimp only
  split_ifs with hexponent hwhole
  · refine ⟨digits n ++ List.replicate exponent.toNat '0', ['0'], by simp, by simp [nonempty], ?_,
      exponent.toNat + 1, ?_, ?_⟩
    · intro c hc
      simp only [List.mem_append, List.mem_replicate, List.mem_singleton] at hc
      rcases hc with (hc | ⟨-, rfl⟩) | rfl
      · exact each c hc
      · rfl
      · rfl
    · have zeros : List.replicate exponent.toNat '0' ++ ['0'] = List.replicate (exponent.toNat + 1) '0' :=
        List.replicate_succ'.symm
      rw [List.append_assoc, zeros, Nat.ofDigitChars_append, ofDigitChars_digits,
        Nat.ofDigitChars_replicate_zero, Nat.mul_comm]
    · simp only [List.length_singleton]
      omega
  · have whole : (digits n).take ((digits n).length + exponent).toNat ++
        (digits n).drop ((digits n).length + exponent).toNat = digits n := List.take_append_drop _ _
    refine ⟨_, _, rfl, ?_, by rwa [whole], 0, by rw [whole, ofDigitChars_digits]; simp, ?_⟩
    · intro h
      rcases List.take_eq_nil_iff.mp h with h | h
      · omega
      · exact nonempty h
    · rw [List.length_drop]
      omega
  · refine ⟨['0'], List.replicate (-((digits n).length + exponent)).toNat '0' ++ digits n, by simp, by simp,
      ?_, 0, ?_, ?_⟩
    · intro c hc
      simp only [List.mem_append, List.mem_replicate, List.mem_singleton] at hc
      rcases hc with rfl | ⟨-, rfl⟩ | hc
      · rfl
      · rfl
      · exact each c hc
    · rw [List.singleton_append, ← List.cons_append, ← List.replicate_succ, Nat.ofDigitChars_append,
        Nat.ofDigitChars_replicate_zero, Nat.mul_zero, ofDigitChars_digits, Nat.pow_zero, Nat.mul_one]
    · rw [List.length_append, List.length_replicate]
      have := List.length_pos_of_ne_nil nonempty
      omega

/-- Where one of two equal values is scaled by more, its significand ends in a zero, so both are zero. -/
theorem scale_le {m n : Nat} {e e' : Int} (normal : m % 10 = 0 → m = 0 ∧ e = 0)
    (normal' : n % 10 = 0 → n = 0 ∧ e' = 0) {j k : Nat} (value : m * 10 ^ j = n * 10 ^ k)
    (scale : (j : Int) - e = k - e') : k ≤ j := by
  by_contra h
  obtain ⟨i, rfl⟩ : ∃ i, k = i + 1 + j := ⟨k - j - 1, by omega⟩
  rw [Nat.pow_add, ← Nat.mul_assoc] at value
  have multiple : m = n * 10 ^ i * 10 := by
    rw [Nat.eq_of_mul_eq_mul_right (Nat.pow_pos (by decide)) value, Nat.pow_succ, ← Nat.mul_assoc]
  obtain ⟨hm, he⟩ := normal (by omega)
  have hn : n = 0 := by
    have product : n * 10 ^ i = 0 := by omega
    exact (Nat.mul_eq_zero.mp product).resolve_right (Nat.pos_iff_ne_zero.mp (Nat.pow_pos (by decide)))
  obtain ⟨-, he'⟩ := normal' (by omega)
  omega

/-- In normal form a number is given by its value. -/
theorem eq_of_scaled {m n : Nat} {e e' : Int} (normal : m % 10 = 0 → m = 0 ∧ e = 0)
    (normal' : n % 10 = 0 → n = 0 ∧ e' = 0) {j k : Nat} (value : m * 10 ^ j = n * 10 ^ k)
    (scale : (j : Int) - e = k - e') : m = n ∧ e = e' := by
  have hjk : j = k := Nat.le_antisymm (scale_le normal' normal value.symm scale.symm)
    (scale_le normal normal' value scale)
  subst hjk
  exact ⟨Nat.eq_of_mul_eq_mul_right (Nat.pow_pos (by decide)) value, by omega⟩

theorem point_not_mem {cs : List Char} (h : ∀ c ∈ cs, c.isDigit = true) : '.' ∉ cs := fun hmem =>
  absurd (h _ hmem) (by decide)

theorem positional_injective {m n : Nat} {e e' : Int} (normal : m % 10 = 0 → m = 0 ∧ e = 0)
    (normal' : n % 10 = 0 → n = 0 ∧ e' = 0)
    (h : positional (digits m) e = positional (digits n) e') : m = n ∧ e = e' := by
  obtain ⟨whole, decimals, hm, pointed⟩ := positional_pointed m e
  obtain ⟨whole', decimals', hn, pointed'⟩ := positional_pointed n e'
  rw [hm, hn] at h
  obtain ⟨rfl, rfl⟩ := before_cancel
    (point_not_mem fun c hc => pointed.isDigit c (List.mem_append_left _ hc))
    (point_not_mem fun c hc => pointed'.isDigit c (List.mem_append_left _ hc)) h
  obtain ⟨j, value, scale⟩ := pointed.scaled
  obtain ⟨k, value', scale'⟩ := pointed'.scaled
  exact eq_of_scaled normal normal' (value.symm.trans value') (scale.symm.trans scale')

/-! ### Digits in front of an exponent -/

/-- The digits are what stays of them when the point is taken out again. -/
theorem filter_pointed : {ds : List Char} → (∀ c ∈ ds, c.isDigit = true) →
    (pointed ds).filter Char.isDigit = ds
  | [], _ => rfl
  | [d], h => by rw [pointed, List.filter_eq_self.mpr h]
  | d :: d' :: ds, h => by
    obtain ⟨hd, hds⟩ := List.forall_mem_cons.mp h
    rw [pointed, List.filter_cons_of_pos hd, List.filter_cons_of_neg (by decide), List.filter_eq_self.mpr hds]
    simp

theorem mem_pointed {ds : List Char} {c : Char} (h : c ∈ pointed ds) : c ∈ ds ∨ c = '.' := by
  fun_cases pointed ds with
  | case1 => exact .inl h
  | case2 d => exact .inl h
  | case3 d ds hne =>
    rw [pointed.eq_3 _ _ hne] at h
    rcases List.mem_cons.mp h with rfl | h
    · exact .inl List.mem_cons_self
    · rcases List.mem_cons.mp h with rfl | h
      · exact .inr rfl
      · exact .inl (List.mem_cons_of_mem _ h)

theorem exponent_not_mem_pointed {ds : List Char} (h : ∀ c ∈ ds, c.isDigit = true) : 'e' ∉ pointed ds := by
  intro hmem
  rcases mem_pointed hmem with hmem | hmem
  · exact absurd (h _ hmem) (by decide)
  · exact absurd hmem (by decide)

/-- The text of an exponent behind the letter that announces it. -/
def scaleText (e : Int) : List Char := (if e < 0 then '-' else '+') :: digits e.natAbs

theorem exponentText_eq (e : Int) : exponentText e = 'e' :: scaleText e := by
  unfold exponentText scaleText
  split_ifs <;> rfl

theorem scaleText_injective : Function.Injective scaleText := by
  intro e e' h
  obtain ⟨hsign, hsize⟩ := List.cons.inj h
  have size := digits_injective hsize
  split_ifs at hsign
  · omega
  · cases hsign
  · cases hsign
  · omega

/-! ### Decimals -/

/-- The power of ten of the first digit. -/
def leading (significand : Nat) (exponent : Int) : Int := ((digits significand).length : Int) + exponent - 1

/-- A magnitude is written with a point among its digits, or with an exponent behind them. -/
theorem magnitudeText_cases (n : Nat) (exponent : Int) :
    magnitudeText n exponent = positional (digits n) exponent ∨
      magnitudeText n exponent = pointed (digits n) ++ 'e' :: scaleText (leading n exponent) := by
  unfold magnitudeText
  dsimp only
  rw [exponentText_eq]
  split_ifs
  · exact .inl rfl
  · exact .inr rfl

theorem exponent_not_mem_positional (n : Nat) (exponent : Int) : 'e' ∉ positional (digits n) exponent := by
  obtain ⟨whole, decimals, h, pointed⟩ := positional_pointed n exponent
  rw [h]
  intro hmem
  rcases List.mem_append.mp hmem with hmem | hmem
  · exact absurd (pointed.isDigit _ (List.mem_append_left _ hmem)) (by decide)
  · rcases List.mem_cons.mp hmem with hmem | hmem
    · exact absurd hmem (by decide)
    · exact absurd (pointed.isDigit _ (List.mem_append_right _ hmem)) (by decide)

theorem magnitudeText_injective {m n : Nat} {e e' : Int} (normal : m % 10 = 0 → m = 0 ∧ e = 0)
    (normal' : n % 10 = 0 → n = 0 ∧ e' = 0) (h : magnitudeText m e = magnitudeText n e') :
    m = n ∧ e = e' := by
  have digit : ∀ {n : Nat}, ∀ c ∈ digits n, c.isDigit = true := fun _ => isDigit_of_mem_digits
  have exponent : ∀ {front back : List Char}, 'e' ∈ front ++ 'e' :: back :=
    List.mem_append_right _ List.mem_cons_self
  rcases magnitudeText_cases m e with hm | hm <;> rcases magnitudeText_cases n e' with hn | hn <;>
    rw [hm, hn] at h
  · exact positional_injective normal normal' h
  · exact absurd (h ▸ exponent) (exponent_not_mem_positional m e)
  · exact absurd (h ▸ exponent) (exponent_not_mem_positional n e')
  · obtain ⟨hdigits, hscale⟩ := before_cancel (exponent_not_mem_pointed digit) (exponent_not_mem_pointed digit) h
    have same := congrArg (List.filter Char.isDigit) hdigits
    rw [filter_pointed digit, filter_pointed digit] at same
    obtain rfl := digits_injective same
    have first := scaleText_injective hscale
    unfold leading at first
    exact ⟨rfl, by omega⟩

end Decimal

/-! ### Numbers -/

namespace Number

open Decimal

def isNegative : Number → Bool
  | .integer n => n < 0
  | .decimal d => d.negative

/-- The text of a number without its sign. -/
def magnitude : Number → List Char
  | .integer n => digits n.natAbs
  | .decimal d => magnitudeText d.significand d.exponent

theorem toList_toString_int (n : Int) :
    (toString n).toList = (if n < 0 then ['-'] else []) ++ digits n.natAbs := by
  cases n with
  | ofNat n =>
    show (toString n).toList = _
    rw [Nat.toString_eq_ofList_toDigits, String.toList_ofList]
    rfl
  | negSucc n =>
    show ("-" ++ toString (n + 1)).toList = _
    rw [String.toList_append, Nat.toString_eq_ofList_toDigits, if_pos (Int.negSucc_lt_zero n),
      Int.natAbs_negSucc]
    simp [digits]

theorem toList_text (n : Number) : n.text.toList = (if n.isNegative then ['-'] else []) ++ n.magnitude := by
  cases n with
  | integer n =>
    rw [text, toList_toString_int]
    simp [isNegative, magnitude]
  | decimal d => rw [text, Decimal.text, String.toList_ofList, isNegative, magnitude]

/-- A character that numbers are written with. -/
def isNumberChar (c : Char) : Bool := c.isDigit || ['.', 'e', '+', '-'].contains c

theorem isNumberChar_of_isDigit {c : Char} (h : c.isDigit = true) : isNumberChar c = true := by
  rw [isNumberChar, h, Bool.true_or]

/-- A magnitude starts with a digit. -/
theorem exists_magnitude (n : Number) : ∃ c cs, n.magnitude = c :: cs ∧ c.isDigit = true := by
  have front : ∀ {ds : List Char} (rest : List Char), ds ≠ [] → (∀ c ∈ ds, c.isDigit = true) →
      ∃ c cs, ds ++ rest = c :: cs ∧ c.isDigit = true := by
    intro ds rest hne hds
    obtain ⟨c, cs, rfl⟩ := List.exists_cons_of_ne_nil hne
    exact ⟨c, cs ++ rest, rfl, hds c List.mem_cons_self⟩
  cases n with
  | integer n =>
    obtain ⟨c, cs, h, hc⟩ := front [] (digits_ne_nil n.natAbs) fun c => isDigit_of_mem_digits
    exact ⟨c, cs, by rwa [List.append_nil] at h, hc⟩
  | decimal d =>
    show ∃ c cs, magnitudeText d.significand d.exponent = c :: cs ∧ _
    rcases magnitudeText_cases d.significand d.exponent with h | h
    · obtain ⟨whole, decimals, hwhole, pointed⟩ := positional_pointed d.significand d.exponent
      rw [h, hwhole]
      exact front _ pointed.ne_nil fun c hc => pointed.isDigit c (List.mem_append_left _ hc)
    · rw [h]
      obtain ⟨c, cs, hcs⟩ := List.exists_cons_of_ne_nil (digits_ne_nil d.significand)
      have digit := isDigit_of_mem_digits (hcs ▸ List.mem_cons_self : c ∈ digits d.significand)
      rw [hcs]
      cases cs with
      | nil => exact ⟨c, _, rfl, digit⟩
      | cons c' cs => exact ⟨c, _, rfl, digit⟩

theorem isNumberChar_of_mem_magnitude {n : Number} {c : Char} (h : c ∈ n.magnitude) :
    isNumberChar c = true := by
  cases n with
  | integer n => exact isNumberChar_of_isDigit (isDigit_of_mem_digits h)
  | decimal d =>
    rw [magnitude] at h
    rcases magnitudeText_cases d.significand d.exponent with heq | heq <;> rw [heq] at h
    · obtain ⟨whole, decimals, hwhole, pointed⟩ := positional_pointed d.significand d.exponent
      rw [hwhole] at h
      rcases List.mem_append.mp h with h | h
      · exact isNumberChar_of_isDigit (pointed.isDigit c (List.mem_append_left _ h))
      · rcases List.mem_cons.mp h with rfl | h
        · rfl
        · exact isNumberChar_of_isDigit (pointed.isDigit c (List.mem_append_right _ h))
    · rcases List.mem_append.mp h with h | h
      · rcases mem_pointed h with h | rfl
        · exact isNumberChar_of_isDigit (isDigit_of_mem_digits h)
        · rfl
      · rcases List.mem_cons.mp h with rfl | h
        · rfl
        · rcases List.mem_cons.mp h with rfl | h
          · split_ifs <;> rfl
          · exact isNumberChar_of_isDigit (isDigit_of_mem_digits h)

theorem isNumberChar_of_mem_text {n : Number} {c : Char} (h : c ∈ n.text.toList) : isNumberChar c = true := by
  rw [toList_text] at h
  rcases List.mem_append.mp h with h | h
  · split_ifs at h
    · rw [List.mem_singleton.mp h]
      rfl
    · cases h
  · exact isNumberChar_of_mem_magnitude h

/-- The text of a number starts with a digit or a sign. -/
theorem exists_text (n : Number) : ∃ c cs, n.text.toList = c :: cs ∧ (c.isDigit = true ∨ c = '-') := by
  obtain ⟨c, cs, h, hc⟩ := n.exists_magnitude
  rw [toList_text, h]
  cases n.isNegative with
  | true => exact ⟨'-', c :: cs, rfl, .inr rfl⟩
  | false => exact ⟨c, cs, rfl, .inl hc⟩

/-- The text of a decimal is told from that of an integer by a point or an exponent. -/
theorem exists_not_isDigit (d : Decimal) : ∃ c ∈ magnitude (.decimal d), c.isDigit = false := by
  rcases magnitudeText_cases d.significand d.exponent with h | h
  · obtain ⟨whole, decimals, hwhole, -⟩ := positional_pointed d.significand d.exponent
    refine ⟨'.', ?_, rfl⟩
    rw [magnitude, h, hwhole]
    exact List.mem_append_right _ List.mem_cons_self
  · refine ⟨'e', ?_, rfl⟩
    rw [magnitude, h]
    exact List.mem_append_right _ List.mem_cons_self

theorem signed_cancel {a b : Bool} {c d : Char} {cs ds : List Char} (hc : c.isDigit = true)
    (hd : d.isDigit = true)
    (h : (if a then ['-'] else []) ++ c :: cs = (if b then ['-'] else []) ++ d :: ds) :
    a = b ∧ c :: cs = d :: ds := by
  have apart : ∀ {c : Char}, c.isDigit = true → '-' ≠ c := by
    rintro c hc rfl
    cases hc
  cases a <;> cases b
  · exact ⟨rfl, h⟩
  · exact absurd (List.cons.inj h).1.symm (apart hc)
  · exact absurd (List.cons.inj h).1 (apart hd)
  · exact ⟨rfl, (List.cons.inj h).2⟩

/-- Different numbers have different texts. -/
theorem text_injective : Function.Injective text := by
  intro m n h
  obtain ⟨c, cs, hm, hc⟩ := m.exists_magnitude
  obtain ⟨d, ds, hn, hd⟩ := n.exists_magnitude
  have texts := congrArg String.toList h
  rw [toList_text, toList_text, hm, hn] at texts
  obtain ⟨sign, size⟩ := signed_cancel hc hd texts
  rw [← hm, ← hn] at size
  have digit : ∀ (n : Int), ∀ c ∈ magnitude (.integer n), c.isDigit = true := fun n c => isDigit_of_mem_digits
  cases m with
  | integer m =>
    cases n with
    | integer n =>
      have size := Decimal.digits_injective size
      simp only [isNegative, decide_eq_decide] at sign
      exact congrArg Number.integer (by omega)
    | decimal e =>
      obtain ⟨c, hc, hdigit⟩ := exists_not_isDigit e
      exact absurd (digit m c (size ▸ hc)) (by simp [hdigit])
  | decimal e =>
    cases n with
    | integer n =>
      obtain ⟨c, hc, hdigit⟩ := exists_not_isDigit e
      exact absurd (digit n c (size ▸ hc)) (by simp [hdigit])
    | decimal e' =>
      obtain ⟨negative, significand, exponent, normal⟩ := e
      obtain ⟨negative', significand', exponent', normal'⟩ := e'
      obtain ⟨rfl, rfl⟩ := magnitudeText_injective normal normal' size
      obtain rfl : negative = negative' := sign
      rfl

end Number
end GameScript
