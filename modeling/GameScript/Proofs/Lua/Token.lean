import GameScript.Lua.Token
import Mathlib.Data.List.Basic

/-! Names and string literals of the output language. A literal ends at the quote that closes it and stays on
its line, so texts with literals in them are told apart by what the literals say. -/

namespace GameScript
namespace Lua

def keywords : List String :=
  ["and", "break", "do", "else", "elseif", "end", "false", "for", "function", "goto", "if", "in",
   "local", "nil", "not", "or", "repeat", "return", "then", "true", "until", "while"]

/-- Letters, digits and underscores, without a digit in front. -/
def IsName (x : String) : Prop :=
  ∃ c cs, x.toList = c :: cs ∧ c.isDigit = false ∧ ∀ d ∈ c :: cs, isIdentifierChar d = true

theorem mem_reservedWords {x : String} : x ∈ reservedWords ↔ x ∈ keywords ∨ x ∈ ["event", "import"] :=
  List.mem_append (s := keywords)

theorem isIdentifier_iff {x : String} :
    isIdentifier x = true ↔ IsName x ∧ x ∉ reservedWords := by
  have chars : ∀ c, isIdentifierChar c = true → c ≠ ' ' ∧ c ≠ '-' := by
    rintro c hc
    constructor <;> rintro rfl <;> revert hc <;> decide
  rw [isIdentifier, isToken, IsName]
  cases x.toList with
  | nil => simp
  | cons c cs =>
    simp only [Bool.and_eq_true, Bool.not_eq_true', List.all_eq_true, List.contains_eq_mem,
      decide_eq_false_iff_not]
    constructor
    · rintro ⟨⟨⟨⟨hdigit, -⟩, -⟩, hall⟩, hreserved⟩
      exact ⟨⟨c, cs, rfl, hdigit, hall⟩, hreserved⟩
    · rintro ⟨⟨c', cs', hx, hdigit, hall⟩, hreserved⟩
      cases hx
      exact ⟨⟨⟨⟨hdigit, fun h => (chars _ (hall _ h)).1 rfl⟩, fun h => (chars _ (hall _ h)).2 rfl⟩,
        hall⟩, hreserved⟩

theorem IsName.not_mem {x : String} {c : Char} (h : IsName x) (hc : isIdentifierChar c = false) :
    c ∉ x.toList := by
  obtain ⟨d, ds, hx, -, hall⟩ := h
  rw [hx]
  intro hmem
  rw [hall c hmem] at hc
  cases hc

/-! ### Texts in front of others -/

/-- Characters of a class are told apart from what follows them, where that does not go on with the class. -/
theorem class_cancel {α : Type} {p : α → Prop} : {l l' r r' : List α} → (∀ c ∈ l, p c) → (∀ c ∈ l', p c) →
    (∀ c ∈ r.head?, ¬ p c) → (∀ c ∈ r'.head?, ¬ p c) → l ++ r = l' ++ r' → l = l' ∧ r = r'
  | [], [], _, _, _, _, _, _, h => ⟨rfl, h⟩
  | [], d :: _, _, _, _, hl', hr, _, h => by
    rw [List.nil_append, List.cons_append] at h
    subst h
    exact absurd (hl' d List.mem_cons_self) (hr d rfl)
  | d :: _, [], _, _, hl, _, _, hr', h => by
    rw [List.nil_append, List.cons_append] at h
    subst h
    exact absurd (hl d List.mem_cons_self) (hr' d rfl)
  | d :: l, d' :: l', _, _, hl, hl', hr, hr', h => by
    obtain ⟨rfl, htail⟩ := List.cons.inj h
    obtain ⟨rfl, hrest⟩ := class_cancel (List.forall_mem_cons.mp hl).2 (List.forall_mem_cons.mp hl').2 hr hr'
      htail
    exact ⟨rfl, hrest⟩

/-- Lists are told apart up to the first place of an element. -/
theorem before_cancel {α : Type} {c : α} {l l' r r' : List α} (hl : c ∉ l) (hl' : c ∉ l')
    (h : l ++ c :: r = l' ++ c :: r') : l = l' ∧ r = r' := by
  have apart : ∀ {l : List α}, c ∉ l → ∀ d ∈ l, d ≠ c := fun hl d hd hdc => hl (hdc ▸ hd)
  obtain ⟨rfl, hrest⟩ := class_cancel (apart hl) (apart hl') (by simp) (by simp) h
  exact ⟨rfl, (List.cons.inj hrest).2⟩

/-! ### Literals -/

theorem escapeChar_cancel {c d : Char} {r r' : List Char}
    (h : escapeChar c ++ r = escapeChar d ++ r') : c = d ∧ r = r' := by
  unfold escapeChar at h
  split_ifs at h <;> grind

theorem quote_ne_head_escapeChar {c : Char} {r r' : List Char} : '"' :: r ≠ escapeChar c ++ r' := by
  intro h
  unfold escapeChar at h
  split_ifs at h <;> grind

/-- What stands in a literal, and what follows the quote that closes it. -/
theorem flatMap_escapeChar_cancel {r r' : List Char} : {s t : List Char} →
    s.flatMap escapeChar ++ '"' :: r = t.flatMap escapeChar ++ '"' :: r' → s = t ∧ r = r'
  | [], [], h => ⟨rfl, (List.cons.inj h).2⟩
  | [], d :: t, h => by
    rw [List.flatMap_cons, List.append_assoc] at h
    exact absurd h quote_ne_head_escapeChar
  | c :: s, [], h => by
    rw [List.flatMap_cons, List.append_assoc] at h
    exact absurd h.symm quote_ne_head_escapeChar
  | c :: s, d :: t, h => by
    rw [List.flatMap_cons, List.flatMap_cons, List.append_assoc, List.append_assoc] at h
    obtain ⟨rfl, hrest⟩ := escapeChar_cancel h
    obtain ⟨rfl, hr⟩ := flatMap_escapeChar_cancel hrest
    exact ⟨rfl, hr⟩

theorem toList_quote (s : String) :
    (quote s).toList = '"' :: (s.toList.flatMap escapeChar ++ ['"']) := by
  simp [quote, escape]

/-- Texts that start with a literal are told apart by it and by what follows. -/
theorem quote_cancel {s t : String} {r r' : List Char}
    (h : (quote s).toList ++ r = (quote t).toList ++ r') : s = t ∧ r = r' := by
  simp only [toList_quote, List.cons_append, List.append_assoc, List.nil_append] at h
  obtain ⟨hst, hr⟩ := flatMap_escapeChar_cancel (List.cons.inj h).2
  exact ⟨String.toList_injective hst, hr⟩

theorem quote_injective : Function.Injective quote := fun _ _ h =>
  (quote_cancel (congrArg (fun q => q.toList ++ []) h)).1

theorem newline_not_mem_quote (s : String) : '\n' ∉ (quote s).toList := by
  have char : ∀ c, '\n' ∉ escapeChar c := by
    intro c h
    unfold escapeChar at h
    split_ifs at h <;> grind
  rw [toList_quote]
  simp [char]

/-! ### Fields -/

/-- What follows an object where one of its fields is meant. -/
def access (key : String) : List Char :=
  if isIdentifier key then '.' :: key.toList else '[' :: ((quote key).toList ++ [']'])

theorem toList_field (object key : String) :
    (field object key).toList = object.toList ++ access key := by
  rw [field, access]
  split <;> simp

theorem access_injective : Function.Injective access := by
  intro key key' h
  unfold access at h
  split_ifs at h
  · exact String.toList_injective (List.cons.inj h).2
  · exact absurd (List.cons.inj h).1 (by decide)
  · exact absurd (List.cons.inj h).1 (by decide)
  · exact quote_injective (String.toList_injective (List.append_cancel_right (List.cons.inj h).2))

/-! ### Texts one after the other -/

theorem join_append (a b : List String) : join (a ++ b) = join a ++ join b := by
  induction a with
  | nil => exact (String.empty_append).symm
  | cons t a ih =>
    show t ++ join (a ++ b) = t ++ join a ++ join b
    rw [ih, String.append_assoc]

theorem join_cons (t : String) (ts : List String) : join (t :: ts) = t ++ join ts := rfl

end Lua
end GameScript
