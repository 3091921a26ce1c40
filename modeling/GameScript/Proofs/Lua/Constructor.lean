import GameScript.Lua.Value
import GameScript.Proofs.Lua.Number

/-! What the constructor of a value says. An empty array and an empty object are the same table; apart from that, a
value is given by the text of its constructor, also where more follows, because every part of a constructor shows
where it ends: a literal at its closing quote, a name at the blank behind it, a number or a word at the next
separator. -/

namespace GameScript
namespace Json

mutual

/-- A value with its empty arrays taken for empty objects. -/
def tabled : Json → Json
  | .array [] => .object []
  | .array (item :: items) => .array (item.tabled :: tabledItems items)
  | .object members => .object (tabledMembers members)
  | v => v

def tabledItems : List Json → List Json
  | [] => []
  | item :: items => item.tabled :: tabledItems items

def tabledMembers : List (String × Json) → List (String × Json)
  | [] => []
  | (key, item) :: members => (key, item.tabled) :: tabledMembers members

end

/-- What the first character of a constructor tells. -/
inductive Kind where
  | null | yes | no | number | string | table
deriving DecidableEq

def kind : Json → Kind
  | .null => .null
  | .bool true => .yes
  | .bool false => .no
  | .number _ => .number
  | .string _ => .string
  | .array _ | .object _ => .table

end Json

namespace Lua

open Json

/-! ### First characters -/

/-- The kind of the value whose constructor starts with a character. -/
def kindOf? (c : Char) : Option Kind :=
  if c.isDigit || c == '-' then some .number
  else [('n', .null), ('t', .yes), ('f', .no), ('"', .string), ('\x7b', .table)].lookup c

theorem exists_value (v : Json) : ∃ c cs, (value v).toList = c :: cs ∧ kindOf? c = some v.kind := by
  cases v with
  | null => exact ⟨'n', ['i', 'l'], by decide +kernel, rfl⟩
  | bool b =>
    cases b with
    | true => exact ⟨'t', ['r', 'u', 'e'], by decide +kernel, rfl⟩
    | false => exact ⟨'f', ['a', 'l', 's', 'e'], by decide +kernel, rfl⟩
  | number n =>
    obtain ⟨c, cs, h, hc⟩ := n.exists_text
    have numeral : (c.isDigit || c == '-') = true := by simpa using hc
    exact ⟨c, cs, by rw [value, h], by rw [kindOf?, if_pos numeral]; rfl⟩
  | string s => exact ⟨'"', _, by rw [value, toList_quote], rfl⟩
  | array items => exact ⟨'\x7b', _, by rw [value, String.toList_append, String.toList_append]; rfl, rfl⟩
  | object members => exact ⟨'\x7b', _, by rw [value, String.toList_append, String.toList_append]; rfl, rfl⟩

/-- Texts with equal constructors at the front start with values of one kind. -/
theorem kind_eq {v w : Json} {r r' : List Char} (h : (value v).toList ++ r = (value w).toList ++ r') :
    v.kind = w.kind := by
  obtain ⟨c, cs, hv, hc⟩ := exists_value v
  obtain ⟨d, ds, hw, hd⟩ := exists_value w
  rw [hv, hw] at h
  obtain rfl := (List.cons.inj h).1
  exact Option.some.inj (hc.symm.trans hd)

theorem value_ne_cons {v : Json} {c : Char} (hc : kindOf? c ≠ some v.kind) (r r' : List Char) :
    (value v).toList ++ r ≠ c :: r' := by
  obtain ⟨d, ds, hv, hd⟩ := exists_value v
  rw [hv]
  intro h
  obtain rfl := (List.cons.inj h).1
  exact hc hd

/-- The kinds of the values that are written as words. -/
theorem kind_of_isIdentifierChar {c : Char} {k : Kind} (hc : isIdentifierChar c = true)
    (hdigit : c.isDigit = false) (h : kindOf? c = some k) : k = .null ∨ k = .yes ∨ k = .no := by
  have other : ∀ {d : Char}, isIdentifierChar d = false → c ≠ d := by
    rintro d hd rfl
    rw [hc] at hd
    cases hd
  have minus : c ≠ '-' := other rfl
  have quote : (c == '"') = false := beq_false_of_ne (other rfl)
  have brace : (c == '\x7b') = false := beq_false_of_ne (other rfl)
  rw [kindOf?, if_neg (by simp [hdigit, minus])] at h
  simp only [List.lookup_cons, List.lookup_nil, quote, brace] at h
  split at h
  · exact .inl (Option.some.inj h).symm
  · split at h
    · exact .inr (.inl (Option.some.inj h).symm)
    · split at h
      · exact .inr (.inr (Option.some.inj h).symm)
      · cases h

/-! ### What follows a value -/

/-- What may follow a value in a constructor: nothing, a separator, or the end of the table. -/
def Ends (r : List Char) : Prop := ∀ c ∈ r.head?, c = ',' ∨ c = '\x7d'

/-- The entries of a table behind its first one. -/
def following (texts : List String) : List Char := texts.flatMap fun t => ',' :: ' ' :: t.toList

theorem toList_listed (t : String) (ts : List String) :
    (", ".intercalate (t :: ts)).toList = t.toList ++ following ts := by
  induction ts generalizing t with
  | nil => simp [following]
  | cons u ts ih =>
    rw [String.intercalate_cons_cons, String.toList_append, String.toList_append, ih, following, following,
      List.flatMap_cons, List.append_assoc]
    rfl

theorem ends_following (ts : List String) (r : List Char) : Ends (following ts ++ '\x7d' :: r) := by
  intro c hc
  cases ts with
  | nil => exact .inr (Option.some.inj hc).symm
  | cons t ts => exact .inl (Option.some.inj hc).symm

theorem toList_array (item : Json) (items : List Json) (r : List Char) :
    (value (.array (item :: items))).toList ++ r =
      '\x7b' :: ((value item).toList ++ (following (values items) ++ '\x7d' :: r)) := by
  rw [value, values, String.toList_append, String.toList_append, toList_listed]
  simp

theorem toList_object (key : String) (item : Json) (members : List (String × Json)) (r : List Char) :
    (value (.object ((key, item) :: members))).toList ++ r = '\x7b' :: ((keyText key).toList ++
      ' ' :: '=' :: ' ' :: ((value item).toList ++ (following (fields members) ++ '\x7d' :: r))) := by
  rw [value, fields, String.toList_append, String.toList_append, toList_listed]
  simp

theorem following_values (item : Json) (items : List Json) (r : List Char) :
    following (values (item :: items)) ++ '\x7d' :: r =
      ',' :: ' ' :: ((value item).toList ++ (following (values items) ++ '\x7d' :: r)) := by
  rw [values, following, List.flatMap_cons, List.append_assoc]
  rfl

theorem following_fields (key : String) (item : Json) (members : List (String × Json)) (r : List Char) :
    following (fields ((key, item) :: members)) ++ '\x7d' :: r = ',' :: ' ' :: ((keyText key).toList ++
      ' ' :: '=' :: ' ' :: ((value item).toList ++ (following (fields members) ++ '\x7d' :: r))) := by
  rw [fields, following, List.flatMap_cons, List.append_assoc]
  simp [following]

/-! ### Keys -/

theorem keyText_cancel {key key' : String} {r r' : List Char}
    (h : (keyText key).toList ++ ' ' :: r = (keyText key').toList ++ ' ' :: r') : key = key' ∧ r = r' := by
  have bracket : ∀ {key : String}, isIdentifier key = false → ∀ r : List Char,
      (keyText key).toList ++ r = '[' :: ((quote key).toList ++ ']' :: r) := by
    intro key hkey r
    rw [keyText, hkey]
    simp
  have blank : ∀ {key : String}, isIdentifier key = true → ' ' ∉ key.toList := fun hkey =>
    (isIdentifier_iff.mp hkey).1.not_mem (by decide)
  have apart : ∀ {key : String}, isIdentifier key = true → ∀ r r' : List Char, key.toList ++ r ≠ '[' :: r' := by
    intro key hkey r r' h
    obtain ⟨⟨c, cs, hcs, -, hall⟩, -⟩ := isIdentifier_iff.mp hkey
    rw [hcs] at h
    have hc := hall c List.mem_cons_self
    rw [(List.cons.inj h).1] at hc
    cases hc
  cases hkey : isIdentifier key <;> cases hkey' : isIdentifier key'
  · rw [bracket hkey, bracket hkey'] at h
    obtain ⟨hq, hr⟩ := quote_cancel (List.cons.inj h).2
    exact ⟨hq, (List.cons.inj (List.cons.inj hr).2).2⟩
  · rw [bracket hkey, keyText, if_pos hkey'] at h
    exact absurd h.symm (apart hkey' _ _)
  · rw [bracket hkey', keyText, if_pos hkey] at h
    exact absurd h (apart hkey _ _)
  · rw [keyText, keyText, if_pos hkey, if_pos hkey'] at h
    obtain ⟨hname, hr⟩ := before_cancel (blank hkey) (blank hkey') h
    exact ⟨String.toList_injective hname, hr⟩

/-- The text of a key ends no table. -/
theorem keyText_ne_closer (key : String) (r r' : List Char) : (keyText key).toList ++ r ≠ '\x7d' :: r' := by
  rw [keyText]
  split_ifs with hkey
  · obtain ⟨⟨c, cs, hcs, -, hall⟩, -⟩ := isIdentifier_iff.mp hkey
    rw [hcs]
    intro h
    have hc := hall c List.mem_cons_self
    rw [(List.cons.inj h).1] at hc
    cases hc
  · intro h
    simp at h

/-- The value is followed by a separator, and a key by a blank. -/
theorem value_ne_field {v : Json} {key : String} {r r' : List Char} (hr : Ends r) :
    (value v).toList ++ r ≠ (keyText key).toList ++ ' ' :: r' := by
  rw [keyText]
  split_ifs with hkey
  · obtain ⟨⟨c, cs, hcs, hdigit, hall⟩, -⟩ := isIdentifier_iff.mp hkey
    obtain ⟨hc, -⟩ := List.forall_mem_cons.mp hall
    have separator : ∀ c ∈ r.head?, ¬ isIdentifierChar c = true := by
      intro c hc h
      rcases hr c hc with rfl | rfl <;> cases h
    have word : ∀ t : List Char, (∀ c ∈ t, isIdentifierChar c = true) → t ++ r ≠ key.toList ++ ' ' :: r' := by
      intro t ht h
      obtain ⟨-, rfl⟩ := class_cancel ht (by rwa [hcs]) separator (by simp [isIdentifierChar]) h
      rcases hr ' ' rfl with h | h <;> cases h
    have other : ¬ (v.kind = .null ∨ v.kind = .yes ∨ v.kind = .no) →
        (value v).toList ++ r ≠ key.toList ++ ' ' :: r' := by
      intro hkind
      rw [hcs]
      exact value_ne_cons (fun h => hkind (kind_of_isIdentifierChar hc hdigit h)) _ _
    cases v with
    | null => exact word _ (List.all_eq_true.mp (by decide +kernel))
    | bool b => cases b <;> exact word _ (List.all_eq_true.mp (by decide +kernel))
    | _ => exact other (by simp [kind])
  · have text : ("[" ++ quote key ++ "]").toList ++ ' ' :: r' = '[' :: ((quote key).toList ++ ']' :: ' ' :: r') := by
      simp
    have none : kindOf? '[' = none := rfl
    rw [text]
    exact value_ne_cons (by rw [none]; exact (Option.some_ne_none _).symm) _ _

/-! ### Values -/

theorem isNumberChar_of_ends {r : List Char} (h : Ends r) : ∀ c ∈ r.head?, ¬ Number.isNumberChar c = true := by
  intro c hc
  rcases h c hc with rfl | rfl <;> decide

/-- The values of a kind. -/
theorem of_kind (w : Json) :
    match w.kind with
    | .null => w = .null
    | .yes => w = .bool true
    | .no => w = .bool false
    | .number => ∃ n, w = .number n
    | .string => ∃ s, w = .string s
    | .table => (∃ items, w = .array items) ∨ ∃ members, w = .object members := by
  cases w with
  | null => rfl
  | bool b => cases b <;> rfl
  | number n => exact ⟨n, rfl⟩
  | string s => exact ⟨s, rfl⟩
  | array items => exact .inl ⟨items, rfl⟩
  | object members => exact .inr ⟨members, rfl⟩

/-- A value that is no table is told apart by its text. -/
theorem leaf_cancel {v w : Json} (leaf : v.kind ≠ .table) {r r' : List Char} (hr : Ends r) (hr' : Ends r')
    (h : (value v).toList ++ r = (value w).toList ++ r') : v = w ∧ r = r' := by
  have hw := of_kind w
  rw [← kind_eq h] at hw
  cases v with
  | null =>
    obtain rfl := hw
    exact ⟨rfl, List.append_cancel_left h⟩
  | bool b =>
    cases b <;>
    · obtain rfl := hw
      exact ⟨rfl, List.append_cancel_left h⟩
  | number n =>
    obtain ⟨m, rfl⟩ := hw
    rw [value, value] at h
    obtain ⟨htext, rfl⟩ := class_cancel (fun _ => Number.isNumberChar_of_mem_text)
      (fun _ => Number.isNumberChar_of_mem_text) (isNumberChar_of_ends hr) (isNumberChar_of_ends hr') h
    rw [Number.text_injective (String.toList_injective htext)]
    exact ⟨rfl, rfl⟩
  | string s =>
    obtain ⟨t, rfl⟩ := hw
    rw [value, value] at h
    obtain ⟨rfl, rfl⟩ := quote_cancel h
    exact ⟨rfl, rfl⟩
  | array _ | object _ => exact absurd rfl leaf

theorem item_ne_closer (v : Json) (r r' : List Char) : (value v).toList ++ r ≠ '\x7d' :: r' := by
  have none : kindOf? '\x7d' = none := rfl
  exact value_ne_cons (by rw [none]; exact (Option.some_ne_none _).symm) _ _

theorem toList_emptyArray (r : List Char) : (value (.array [])).toList ++ r = '\x7b' :: '\x7d' :: r := by
  rw [value, String.toList_append, String.toList_append]
  rfl

theorem toList_emptyObject (r : List Char) : (value (.object [])).toList ++ r = '\x7b' :: '\x7d' :: r := by
  rw [value, String.toList_append, String.toList_append]
  rfl

/-- Only the two empty tables are written without entries. -/
theorem empty_cancel {w : Json} {r r' : List Char} (h : (value w).toList ++ r' = '\x7b' :: '\x7d' :: r) :
    w.tabled = .object [] ∧ r = r' := by
  have hw := of_kind w
  rw [kind_eq (h.trans (toList_emptyObject r).symm)] at hw
  obtain ⟨items, rfl⟩ | ⟨members, rfl⟩ := hw
  · cases items with
    | nil =>
      rw [toList_emptyArray] at h
      exact ⟨rfl, (List.cons.inj (List.cons.inj h).2).2.symm⟩
    | cons item items =>
      rw [toList_array] at h
      exact absurd (List.cons.inj h).2 (item_ne_closer _ _ _)
  · cases members with
    | nil =>
      rw [toList_emptyObject] at h
      exact ⟨rfl, (List.cons.inj (List.cons.inj h).2).2.symm⟩
    | cons member members =>
      rw [toList_object] at h
      exact absurd (List.cons.inj h).2 (keyText_ne_closer _ _ _)

mutual

/-- The text of a constructor tells the value, and what follows it. -/
theorem value_cancel : (v w : Json) → {r r' : List Char} → Ends r → Ends r' →
    (value v).toList ++ r = (value w).toList ++ r' → v.tabled = w.tabled ∧ r = r'
  | .null, _, _, _, hr, hr', h | .bool true, _, _, _, hr, hr', h | .bool false, _, _, _, hr, hr', h
  | .number _, _, _, _, hr, hr', h | .string _, _, _, _, hr, hr', h => by
    obtain ⟨rfl, rfl⟩ := leaf_cancel (by simp [kind]) hr hr' h
    exact ⟨rfl, rfl⟩
  | .array [], w, r, _, _, _, h => by
    obtain ⟨hw, hr⟩ := empty_cancel (h.symm.trans (toList_emptyArray r))
    exact ⟨hw.symm, hr⟩
  | .object [], w, r, _, _, _, h => by
    obtain ⟨hw, hr⟩ := empty_cancel (h.symm.trans (toList_emptyObject r))
    exact ⟨hw.symm, hr⟩
  | .array (item :: items), w, _, r', _, _, h => by
    have hw := of_kind w
    rw [← kind_eq h] at hw
    obtain ⟨_ | ⟨other, others⟩, rfl⟩ | ⟨_ | ⟨member, members⟩, rfl⟩ := hw
    · exact nomatch (empty_cancel (h.trans (toList_emptyArray r'))).1
    · rw [toList_array, toList_array] at h
      obtain ⟨hitem, hrest⟩ := value_cancel item other (ends_following _ _) (ends_following _ _)
        (List.cons.inj h).2
      obtain ⟨hitems, hr⟩ := items_cancel items others hrest
      rw [tabled, tabled, hitem, hitems]
      exact ⟨rfl, hr⟩
    · exact nomatch (empty_cancel (h.trans (toList_emptyObject r'))).1
    · rw [toList_array, toList_object] at h
      exact absurd (List.cons.inj h).2 (value_ne_field (ends_following _ _))
  | .object ((key, item) :: members), w, _, r', _, _, h => by
    have hw := of_kind w
    rw [← kind_eq h] at hw
    obtain ⟨_ | ⟨other, items⟩, rfl⟩ | ⟨_ | ⟨other, others⟩, rfl⟩ := hw
    · exact nomatch (empty_cancel (h.trans (toList_emptyArray r'))).1
    · rw [toList_object, toList_array] at h
      exact absurd (List.cons.inj h).2.symm (value_ne_field (ends_following _ _))
    · exact nomatch (empty_cancel (h.trans (toList_emptyObject r'))).1
    · rw [toList_object, toList_object] at h
      obtain ⟨hkey, hrest⟩ := keyText_cancel (List.cons.inj h).2
      obtain ⟨hitem, hrest⟩ := value_cancel item other.2 (ends_following _ _) (ends_following _ _)
        (List.cons.inj (List.cons.inj hrest).2).2
      obtain ⟨hmembers, hr⟩ := members_cancel members others hrest
      rw [tabled, tabled, tabledMembers, tabledMembers, hkey, hitem, hmembers]
      exact ⟨rfl, hr⟩

theorem items_cancel : (items others : List Json) → {r r' : List Char} →
    following (values items) ++ '\x7d' :: r = following (values others) ++ '\x7d' :: r' →
    tabledItems items = tabledItems others ∧ r = r'
  | [], [], _, _, h => ⟨rfl, (List.cons.inj h).2⟩
  | [], other :: others, _, _, h => absurd (List.cons.inj h).1 (by decide)
  | item :: items, [], _, _, h => absurd (List.cons.inj h).1 (by decide)
  | item :: items, other :: others, _, _, h => by
    rw [following_values, following_values] at h
    obtain ⟨hitem, hrest⟩ := value_cancel item other (ends_following _ _) (ends_following _ _)
      (List.cons.inj (List.cons.inj h).2).2
    obtain ⟨hitems, hr⟩ := items_cancel items others hrest
    rw [tabledItems, tabledItems, hitem, hitems]
    exact ⟨rfl, hr⟩

theorem members_cancel : (members others : List (String × Json)) → {r r' : List Char} →
    following (fields members) ++ '\x7d' :: r = following (fields others) ++ '\x7d' :: r' →
    tabledMembers members = tabledMembers others ∧ r = r'
  | [], [], _, _, h => ⟨rfl, (List.cons.inj h).2⟩
  | [], (_, _) :: others, _, _, h => absurd (List.cons.inj h).1 (by decide)
  | (_, _) :: items, [], _, _, h => absurd (List.cons.inj h).1 (by decide)
  | (key, item) :: members, (key', other) :: others, _, _, h => by
    rw [following_fields, following_fields] at h
    obtain ⟨hkey, hrest⟩ := keyText_cancel (List.cons.inj (List.cons.inj h).2).2
    obtain ⟨hitem, hrest⟩ := value_cancel item other (ends_following _ _) (ends_following _ _)
      (List.cons.inj (List.cons.inj hrest).2).2
    obtain ⟨hmembers, hr⟩ := members_cancel members others hrest
    rw [tabledMembers, tabledMembers, hkey, hitem, hmembers]
    exact ⟨rfl, hr⟩

end

mutual

/-- The two empty tables have one constructor. -/
theorem value_tabled : (v : Json) → value v.tabled = value v
  | .null | .bool true | .bool false | .number _ | .string _ | .array [] => rfl
  | .array (item :: items) => by
    rw [tabled, value, value, values, values, value_tabled item, values_tabledItems items]
  | .object members => by rw [tabled, value, value, fields_tabledMembers members]

theorem values_tabledItems : (items : List Json) → values (tabledItems items) = values items
  | [] => rfl
  | item :: items => by rw [tabledItems, values, values, value_tabled item, values_tabledItems items]

theorem fields_tabledMembers : (members : List (String × Json)) →
    fields (tabledMembers members) = fields members
  | [] => rfl
  | (key, item) :: members => by
    rw [tabledMembers, fields, fields, value_tabled item, fields_tabledMembers members]

end

theorem value_eq_of_tabled {v w : Json} (h : v.tabled = w.tabled) : value v = value w := by
  rw [← value_tabled v, h, value_tabled w]

/-- Two values have one constructor just when they are equal up to exchanging empty arrays and empty objects. Where
the constructors are followed by the end of a text, by a separator or by the end of a table, they are equal as soon
as the texts are, and what follows is the same. -/
theorem value_readable (v w : Json) :
    (value v = value w ↔ v.tabled = w.tabled) ∧
    ∀ r r' : List Char, Ends r → Ends r' →
      ((value v).toList ++ r = (value w).toList ++ r' ↔ v.tabled = w.tabled ∧ r = r') := by
  have reads : ∀ r r' : List Char, Ends r → Ends r' →
      ((value v).toList ++ r = (value w).toList ++ r' ↔ v.tabled = w.tabled ∧ r = r') := by
    intro r r' hr hr'
    constructor
    · exact value_cancel v w hr hr'
    · rintro ⟨hvw, rfl⟩
      rw [value_eq_of_tabled hvw]
  refine ⟨⟨fun h => ?_, value_eq_of_tabled⟩, reads⟩
  exact ((reads [] [] nofun nofun).mp (by rw [h])).1

/-- Words as keys and as values, a closing brace in a string, and empty tables of both forms. -/
theorem value_readable_nested :
    (value (.object [("nil", .null), ("nil_", .array []), ("a", .string "\x7d, ")])).toList ++ [','] =
        (value (.object [("nil", .null), ("nil_", .object []), ("a", .string "\x7d, ")])).toList ++ [','] ∧
      Ends [','] := by
  have ends : Ends [','] := by
    intro c hc
    exact .inl (Option.some.inj hc).symm
  exact ⟨((value_readable _ _).2 [','] [','] ends ends).mpr ⟨rfl, rfl⟩, ends⟩

end Lua
end GameScript
