import GameScript.Proofs.Compile.Body
import GameScript.Proofs.Compile.Legible
import GameScript.Proofs.Compile.Remarks

/-! The texts that expressions are put together from, as a reader of the output finds them: an expression is one
operand, or several operands that are put together into one text. -/

namespace GameScript

open Lua

namespace Lua

/-- Operands that are put together into one text, one more than so many. -/
def concatenated : Nat → List Symbol
  | 0 => [.operand]
  | n + 1 => .operand :: ".." :: concatenated n

variable {ordered : Bool}

theorem derives_concatenated : (n : Nat) → {ts : List Token} → Derives ordered (concatenated n) ts →
    Derives ordered [.exp] ts
  | 0, _, h => h.of_isInstance (by decide)
  | n + 1, _, h => by
    obtain ⟨us, vs, rfl, hus, hvs⟩ := Derives.cons_iff.mp h
    obtain ⟨vs, ws, rfl, hvs, hws⟩ := Derives.cons_iff.mp hvs
    have joined := hus.append (hvs.append (derives_concatenated n hws))
    exact joined.of_isInstance (by decide)

/-- The text of an expression that is put together in so many places, which does not start like a long bracket. -/
structure Phrase (ordered : Bool) (joints : Nat) (t : String) : Prop where
  spelled : Spelled ordered .stop t (concatenated joints)
  starts : Starts .bracket t

/-- The text of an expression. -/
def IsPhrase (ordered : Bool) (t : String) : Prop := ∃ joints, Phrase ordered joints t

theorem Phrase.exp {joints : Nat} {t : String} (h : Phrase ordered joints t) : Spelled ordered .stop t [.exp] :=
  h.spelled.imp fun _ hts => ⟨hts.1, derives_concatenated _ hts.2⟩

theorem IsPhrase.exp {t : String} (h : IsPhrase ordered t) : Spelled ordered .stop t [.exp] :=
  h.elim fun _ => Phrase.exp

theorem IsPhrase.starts {t : String} (h : IsPhrase ordered t) : Starts .bracket t := h.elim fun _ => Phrase.starts

/-- The text is that of an operand, as a check that can be run. -/
def isPhrase (cs : List Char) : Bool := isSpelled .stop cs [.operand] && startsWith .bracket cs

theorem Phrase.checked {t : String} (h : isPhrase t.toList = true) : Phrase ordered 0 t := by
  obtain ⟨hspelled, hstarts⟩ := Bool.and_eq_true_iff.mp h
  exact ⟨.checked hspelled, .checked hstarts⟩

theorem Phrase.fixed {cs : List Char} (h : isPhrase cs = true) : Phrase ordered 0 (String.ofList cs) :=
  .checked (by rwa [String.toList_ofList])

theorem Phrase.ofAny {t : String} {form : List Symbol} (h : Spelled ordered .any t form)
    (hform : isInstance [.operand] form = true) (hstarts : Starts .bracket t) : Phrase ordered 0 t :=
  ⟨(h.as hform).weaken, hstarts⟩

/-! ### Literals and names -/

theorem Phrase.quote {t : String} (h : isLegibleText t = true) : Phrase ordered 0 (quote t) :=
  .ofAny (.quote (by simpa [isLegibleText] using h)) (by decide) (starts_quote t)

theorem Phrase.number (n : Number) : Phrase ordered 0 n.text := ⟨.number n, starts_number n⟩

theorem isPlainName_iff {cs : List Char} : isPlainName cs = true ↔ IsPlainName (String.ofList cs) := by
  rw [IsPlainName, IsName, String.toList_ofList]
  cases cs with
  | nil => simp [isPlainName]
  | cons c cs => simp [isPlainName, and_assoc]

theorem isPlainName_of_isIdentifier {x : String} (h : isIdentifier x = true) : IsPlainName x := by
  obtain ⟨hname, hreserved⟩ := isIdentifier_iff.mp h
  exact ⟨hname, fun hkey => hreserved (mem_reservedWords.mpr (.inl hkey))⟩

/-- The text of a name, where it is written to or read from. -/
structure NameText (ordered : Bool) (t : String) : Prop where
  target : Spelled ordered .stop t [.target]
  phrase : Phrase ordered 0 t

theorem IsPlainName.text {x : String} (h : IsPlainName x) : NameText ordered x :=
  ⟨(Spelled.name h).as (by decide), (Spelled.name h).as (by decide), h.1.starts⟩

theorem variableRef_text {name : String} (h : isLegibleText name = true) : NameText ordered (variableRef name) := by
  unfold variableRef
  dsimp only
  split_ifs with hid
  · exact (isPlainName_of_isIdentifier hid).text
  · have clean : '\r' ∉ (escapeReserved name).toList := by
      have hname : '\r' ∉ name.toList := by simpa [isLegibleText] using h
      unfold escapeReserved
      split_ifs
      · simpa [reservedPrefix] using hname
      · exact hname
    have opener : Spelled ordered .bracket (variableTable ++ "[") [.name, "["] := .checked (by decide)
    have closer : Spelled ordered .any "]" ["]"] := .fixed (by decide)
    have whole := (opener.followed (.quote clean) (starts_quote _)).append closer
    have starts : Starts .bracket (variableTable ++ "[" ++ quote (escapeReserved name) ++ "]") :=
      ((Starts.checked (by decide)).append _).append _
    exact ⟨(whole.as (by decide)).weaken, .ofAny whole (by decide) starts⟩

/-- Names with dots between them, or a single name. -/
def IsPath (t : String) : Prop := ∃ x names, t = x ++ accesses names ∧ ∀ y ∈ x :: names, IsPlainName y

theorem toList_path (x : String) (names : List String) :
    (x ++ accesses names).toList = ['.'].intercalate ((x :: names).map String.toList) := by
  induction names generalizing x with
  | nil => simp [accesses, join]
  | cons y names ih =>
    rw [List.map_cons, List.map_cons, List.intercalate_cons_cons, ← List.map_cons, ← ih y, accesses_cons]
    simp

/-- A path falls into its names at the dots. -/
theorem isPath_iff {t : String} : (t.toList.splitOn '.').all isPlainName = true ↔ IsPath t := by
  constructor
  · intro h
    have whole : ['.'].intercalate (t.toList.splitOn '.') = t.toList := List.intercalate_splitOn '.'
    cases hparts : t.toList.splitOn '.' with
    | nil => exact absurd hparts (List.splitOn_ne_nil _ _)
    | cons cs css =>
      rw [hparts] at whole h
      refine ⟨String.ofList cs, css.map String.ofList, ?_, ?_⟩
      · apply String.toList_injective
        rw [toList_path, ← whole]
        simp [Function.comp_def]
      · rw [← List.map_cons (f := String.ofList)]
        exact List.forall_mem_map.mpr fun l hl => isPlainName_iff.mp (List.all_eq_true.mp h l hl)
  · rintro ⟨x, names, rfl, hall⟩
    have nodot : ∀ l ∈ (x :: names).map String.toList, '.' ∉ l :=
      List.forall_mem_map.mpr fun y hy => (hall y hy).1.not_mem (by decide)
    rw [toList_path, List.splitOn_intercalate '.' nodot (by simp), List.all_eq_true]
    refine List.forall_mem_map.mpr fun y hy => isPlainName_iff.mpr ?_
    rw [String.ofList_toList]
    exact hall y hy

theorem path_text {name : String} (h : (name.toList.splitOn '.').all isPlainName = true) : NameText ordered name := by
  obtain ⟨x, names, rfl, hall⟩ := isPath_iff.mp h
  obtain ⟨hx, hnames⟩ := List.forall_mem_cons.mp hall
  cases names with
  | nil =>
    rw [accesses, List.map_nil, join, List.foldr_nil, String.append_empty]
    exact hx.text
  | cons y names =>
    obtain ⟨haccess, hsuffixes⟩ := @Spelled.access ordered y names hnames
    have more := starts_access y names
    have front : Spelled ordered .word x [.name] := .word hx
    exact ⟨(front.followed haccess more).as (by decide),
      (front.followed hsuffixes more).as (by decide), hx.1.starts.append _⟩

/-! ### Accessors -/

/-- A declaration at the top of a function. -/
def IsDeclaration (ordered : Bool) (d : String) : Prop := Spelled ordered .stop d [.stat]

theorem accessor_phrase {name : String} {a : Accessor} (h : Accessor.ofName? name = some a) :
    Phrase ordered 0 a.text := by
  have each : ∀ p ∈ Accessor.table, isPhrase p.2.text.toList = true := by decide +kernel
  exact .checked (each (name, a) (Compile.mem_table_of_ofName? h))

theorem accessor_declaration {name d : String} {a : Accessor} (h : Accessor.ofName? name = some a)
    (hd : a.declaration? = some d) : IsDeclaration ordered d := by
  have each : ∀ p ∈ Accessor.table, p.2.declaration?.all (isSpelled .stop ·.toList [.stat]) = true := by
    decide +kernel
  have here := each (name, a) (Compile.mem_table_of_ofName? h)
  rw [hd] at here
  exact .checked here

/-! ### Comments at an operand -/

theorem Phrase.tile (id : Int) {name : String} (h : isLegibleTile name = true) :
    Phrase ordered 0 (Compile.tileText id name) := by
  simp only [isLegibleTile, isLegibleText, Bool.and_eq_true, Bool.not_eq_true', List.contains_eq_mem,
    decide_eq_false_iff_not] at h
  have blank : Spelled ordered .any " " [] := .fixed (by decide)
  have comment : Spelled ordered .any (inlineComment name) [] := .inlineComment h.1 h.2
  have starts : Starts .bracket (inlineComment name) := ⟨'-', _, toList_inlineComment name, rfl⟩
  exact ⟨(comment.append blank).append (.number (.integer id)), (starts.append _).append _⟩

theorem Phrase.unknown {tag : String} (h : isLegibleTag tag = true) :
    Phrase ordered 0 s!"nil --[[unknown expression code '{tag}']]" := by
  simp only [isLegibleTag, isLegibleText, Bool.and_eq_true, Bool.not_eq_true', List.contains_eq_mem,
    decide_eq_false_iff_not] at h
  have nothing : Spelled ordered .any "nil " [("nil" : Symbol)] := .fixed (by decide)
  have clean : '\r' ∉ (Compile.unknownRemark tag).toList := by
    have opener : '\r' ∉ "--[[unknown expression code '".toList := by decide
    have closer : '\r' ∉ "']]".toList := by decide
    exact not_mem_append (not_mem_append opener h.1) closer
  have remark : Spelled ordered .any (Compile.unknownRemark tag) [] :=
    .skipped clean ((Compile.isComment_unknownRemark_iff tag).mpr h.2).skipped
  rw [Compile.unknown_text]
  exact .ofAny (nothing.append remark) (by decide) ((Starts.fixed (by decide)).append _)

end Lua
end GameScript
