import GameScript.Proofs.Compile.Compound
import GameScript.Script.Decode

/-! Dotted names. The runtime's are read through its accessors and never written; every other one stands in the text as
it is in the document. So it is a path of names exactly where the document has one, and a path of the program's own
where that does not start with the reserved prefix; whatever else a document has for a name stands there as code. -/

namespace GameScript

open Lua Compile Outcome

namespace Lua

/-! ### Paths -/

/-- A path whose first name does not start with the prefix that the compiler keeps for itself. -/
def IsOwnPath (t : String) : Prop :=
  ∃ x names, t = x ++ accesses names ∧ (∀ y ∈ x :: names, IsPlainName y) ∧ ¬ reservedPrefix <+: x.toList

/-- The name is a path of the program's own, as a check that can be run. -/
def isOwnPath (name : String) : Bool :=
  (name.toList.splitOn '.').all isPlainName && !reservedPrefix.isPrefixOf name.toList

/-- What starts a path starts its first name, unless there is a dot in it. -/
theorem isPrefix_path_iff {l : List Char} (hl : '.' ∉ l) {x : String} {names : List String} :
    l <+: (x ++ accesses names).toList ↔ l <+: x.toList := by
  rw [String.toList_append]
  refine ⟨fun h => ?_, fun h => h.trans (List.prefix_append _ _)⟩
  rcases List.prefix_or_prefix_of_prefix h (List.prefix_append x.toList _) with hlx | ⟨more, rfl⟩
  · exact hlx
  · rw [List.prefix_append_right_inj] at h
    cases more with
    | nil => rw [List.append_nil]
    | cons c more =>
      cases names with
      | nil => exact absurd (List.prefix_nil.mp h) (List.cons_ne_nil c more)
      | cons y names =>
        have behind : (accesses (y :: names)).toList = '.' :: (y ++ accesses names).toList := by
          simp [accesses_cons]
        rw [behind] at h
        obtain ⟨rfl, -⟩ := List.cons_prefix_cons.mp h
        simp at hl

theorem isOwnPath_iff {name : String} : isOwnPath name = true ↔ IsOwnPath name := by
  have nodot : '.' ∉ reservedPrefix := by decide
  rw [isOwnPath, Bool.and_eq_true, isPath_iff, Bool.not_eq_true', Bool.eq_false_iff, ne_eq, List.isPrefixOf_iff_prefix]
  constructor
  · rintro ⟨⟨x, names, rfl, hall⟩, hprefix⟩
    exact ⟨x, names, rfl, hall, fun h => hprefix ((isPrefix_path_iff nodot).mpr h)⟩
  · rintro ⟨x, names, rfl, hall, hprefix⟩
    exact ⟨⟨x, names, rfl, hall⟩, fun h => hprefix ((isPrefix_path_iff nodot).mp h)⟩

def pathTokens (x : String) (names : List String) : List Token :=
  .word x :: names.flatMap fun y => [.symbol ".", .word y]

theorem path_reads {x : String} {names : List String} (h : ∀ y ∈ x :: names, IsPlainName y) :
    Reads .stop (x ++ accesses names) (pathTokens x names) := by
  induction names generalizing x with
  | nil =>
    rw [accesses, List.map_nil, join, List.foldr_nil, String.append_empty]
    exact (reads_word (h x List.mem_cons_self).1).narrow word_of_stop
  | cons y names ih =>
    obtain ⟨hx, hnames⟩ := List.forall_mem_cons.mp h
    have dot : Reads .name "." [.symbol "."] := .checked (by decide)
    have rest := dot.started (ih hnames) ((starts_name (hnames y List.mem_cons_self)).append _)
    have starts : Starts .word ("." ++ (y ++ accesses names)) := (Starts.checked (by decide)).append _
    have whole := (reads_word hx.1).started rest starts
    rw [accesses_cons, String.append_assoc]
    exact whole

/-- A text is read in one way. -/
theorem Reads.unique {F G : Follow} {t : String} {ts us : List Token} (ht : Reads F t ts) (hu : Reads G t us)
    (hF : F.admits none = true) (hG : G.admits none = true) : ts = us :=
  Option.some.inj ((ht.tokens? hF).symm.trans (hu.tokens? hG))

/-- A path is a place that can be assigned to. -/
theorem path_target {x : String} {names : List String} (h : ∀ y ∈ x :: names, IsPlainName y) :
    Derives false [.target] (pathTokens x names) := by
  obtain ⟨ts, hreads, hform⟩ := (path_text (isPath_iff.mpr ⟨x, names, rfl, h⟩)).target
  exact hreads.unique (path_reads h) rfl rfl ▸ hform

end Lua

namespace Compile

variable {s : Scope}

/-! ### Assignments -/

/-- What stands between the place of an assignment and what is stored there. -/
def signs : List String := [" = ", " += ", " -= ", " *= ", " /= "]

/-- The text starts with the name and a sign, and where the name is a place it is read as an assignment to that. -/
def Stores (name value t : String) : Prop :=
  ∃ sign ∈ signs, ∃ rest, t = name ++ sign ++ rest ∧
    ∀ {place vs p}, Reads .stop name place → Derives false [.target] place → Reads .stop value vs →
      operands? vs = some p → ∃ ts o, Reads .stop t ts ∧ assignment? ts = some (place, o)

theorem equals_stores (name v : String) : Stores name v (name ++ " = " ++ v) := by
  refine ⟨" = ", by decide, v, rfl, fun hplace hform hv hp => ?_⟩
  obtain ⟨ts, hts, hstored⟩ := assignment_reads hplace hform equals_reads (.fixed (by decide)) rfl hv hp
  exact ⟨ts, _, hts, hstored⟩

theorem compound_stores {name operator v : String} (hop : operator ∈ arithmetic) :
    Stores name v (compound s name operator v) := by
  have written : ∀ operator ∈ arithmetic, " " ++ operator ++ "= " ∈ signs := by decide
  have same : s.spelling s.options.relativeAssign = s := rfl
  cases hrelative : s.options.relativeAssign with
  | true =>
    rw [hrelative] at same
    have text : compound s name operator v = name ++ (" " ++ operator ++ "= ") ++ v := by
      simp only [compound, hrelative, if_true, ← String.append_assoc]
      rfl
    refine ⟨_, written operator hop, v, text, fun hplace hform hv hp => ?_⟩
    obtain ⟨⟨ts, hts, hstored⟩, -⟩ := compound_assignments (s := s) hplace hform hop hv hp
    rw [same] at hts
    exact ⟨ts, _, hts, hstored⟩
  | false =>
    rw [hrelative] at same
    have text : compound s name operator v = name ++ " = " ++ (name ++ " " ++ operator ++ " " ++ v) := by
      simp only [compound, hrelative, ← String.append_assoc]
      rfl
    refine ⟨" = ", by decide, _, text, fun hplace hform hv hp => ?_⟩
    obtain ⟨-, ts, hts, hstored⟩ := compound_assignments (s := s) hplace hform hop hv hp
    rw [same] at hts
    exact ⟨ts, _, hts, hstored⟩

/-- A command that writes a name is a line that stores a value there, which is an expression if it is legible. -/
theorem command_stores {c : Command} {target t : String} (htarget : c.target? = some target)
    (ht : (command s c).result = .ok t) : ∃ name v l, (writeTarget target).result = .ok name ∧
      t = s.margin ++ l ++ "\n" ∧ Stores name v l ∧
        ∀ known, s.Legible false known → c.isLegible known = true → ∃ joints, Phrase false joints v := by
  obtain ⟨line, hline, ht⟩ := Outcome.result_bind_eq_ok_iff.mp ht
  cases c with
  | assign target op value =>
    obtain rfl := Option.some.inj htarget
    obtain ⟨l, hl, hsome⟩ := Outcome.result_bind_eq_ok_iff.mp hline
    obtain ⟨name, hname, hl⟩ := Outcome.result_bind_eq_ok_iff.mp hl
    obtain ⟨v, hv, hl⟩ := Outcome.result_bind_eq_ok_iff.mp hl
    cases hsome
    cases ht
    have legible : ∀ known, s.Legible false known → (Command.assign target op value).isLegible known = true →
        ∃ joints, Phrase false joints v := fun known hs hc =>
      ⟨_, (expression_yields (bodiesLegal_body hs) value (Bool.and_eq_true_iff.mp hc).2).result v hv⟩
    cases hop : op.operator? with
    | none =>
      simp only [hop] at hl
      cases hl
      exact ⟨name, v, _, hname, rfl, equals_stores name v, legible⟩
    | some operator =>
      simp only [hop] at hl
      cases hl
      exact ⟨name, v, _, hname, rfl, compound_stores (mem_arithmetic hop), legible⟩
  | increment _ | decrement _ =>
    obtain rfl := Option.some.inj htarget
    obtain ⟨l, hl, hsome⟩ := Outcome.result_bind_eq_ok_iff.mp hline
    obtain ⟨name, hname, hl⟩ := Outcome.result_bind_eq_ok_iff.mp hl
    cases hsome
    cases hl
    cases ht
    exact ⟨name, "1", _, hname, rfl, compound_stores (by decide), fun _ _ _ => ⟨0, .fixed (by decide)⟩⟩
  | _ => cases htarget

/-- A write to a name of the runtime is refused before anything else. -/
theorem command_reserved {c : Command} {target : String} (htarget : c.target? = some target)
    (h : isReservedName target = true) : (command s c).result = .error (.reservedName target) := by
  have refused : writeTarget target = Outcome.fail (.reservedName target) := by rw [writeTarget, if_pos h]
  cases c with
  | assign _ op value =>
    obtain rfl := Option.some.inj htarget
    simp only [command, commandWith, line, assignment, refused]
    rfl
  | increment _ | decrement _ =>
    obtain rfl := Option.some.inj htarget
    simp only [command, commandWith, line, step, refused]
    rfl
  | _ => cases htarget

/-- The text of a dotted name where it is read. -/
def dottedText (name : String) : String := ((Accessor.ofName? name).map Accessor.text).getD name

theorem readVariable_dotted {name : String} (hdot : isDotted name = true) :
    (readVariable name).result = .ok (dottedText name) := by
  rw [readVariable_eq, dottedText]
  cases Accessor.ofName? name with
  | some a => rfl
  | none => simp only [hdot, if_true, Option.map_none, Option.getD_none]

theorem writeTarget_dotted {name : String} (hdot : isDotted name = true) :
    (writeTarget name).result = if isReservedName name then .error (.reservedName name) else .ok name := by
  rw [writeTarget_eq]
  split_ifs <;> rfl

/-- A bare operand that looks like a name is read as one. -/
theorem comparison_dotted {name : String} (hdot : isDotted name = true) (htoken : isToken name = true) (op : Compare)
    (right : Expr) : (comparison body s ⟨op, .string name, right⟩).result =
      (expr s right).result.map fun r => dottedText name ++ " " ++ op.symbol ++ " " ++ r := by
  rw [comparison]
  simp only [htoken, if_true]
  rw [bind_of_ok (readVariable_dotted hdot), expr]
  obtain ⟨log, e | r⟩ := expression body s right <;> rfl

/-- What a program may have for a dotted name: an accessor, or a path of its own. -/
def IsTame (name t : String) : Prop :=
  (∃ a, Accessor.ofName? name = some a ∧ t = a.text) ∨ IsOwnPath t

/-- The name is one that is tame, as a check that can be run. -/
def isTame (name : String) : Bool := isReservedName name || isOwnPath name

theorem isTame_read_iff {name : String} : IsTame name (dottedText name) ↔ isTame name = true := by
  rw [isTame, Bool.or_eq_true, isOwnPath_iff, isReservedName, dottedText, IsTame]
  cases Accessor.ofName? name with
  | some a => simp
  | none => simp

/-- Where a write is not refused, what is written is no accessor. -/
theorem isTame_written_iff {name : String} (hdot : isDotted name = true) :
    ((writeTarget name).result = .error (.reservedName name) ∨
      ∃ t, (writeTarget name).result = .ok t ∧ Accessor.ofName? name = none ∧ IsOwnPath t) ↔ isTame name = true := by
  rw [writeTarget_dotted hdot, isTame, Bool.or_eq_true, isOwnPath_iff, isReservedName]
  cases Accessor.ofName? name with
  | some a => simp
  | none => simp

/-- Dotted names of every kind are accepted. They are read as their accessors or as they are, and written as they are
unless the runtime owns them. So what is read and what is written is tame exactly where the name is, and a legible
command that writes a path of the program's own is read as an assignment to it. -/
theorem dotted_names (c : Context) {name : String} (hdot : isDotted name = true) :
    (∀ place, Decode.targetName place (some (.string name)) = .ok name) ∧
    (c.run (expr · (.read name))).1 = .ok (dottedText name) ∧
    (isToken name = true → ∀ op right, (comparison body c.scope ⟨op, .string name, right⟩).result =
      (expr c.scope right).result.map fun r => dottedText name ++ " " ++ op.symbol ++ " " ++ r) ∧
    (writeTarget name).result = (if isReservedName name then .error (.reservedName name) else .ok name) ∧
    (IsTame name (dottedText name) ↔ isTame name = true) ∧
    (((writeTarget name).result = .error (.reservedName name) ∨
      ∃ t, (writeTarget name).result = .ok t ∧ Accessor.ofName? name = none ∧ IsOwnPath t) ↔ isTame name = true) ∧
    ∀ cmd : Command, cmd.target? = some name →
      (isReservedName name = true → (c.run (command · cmd)).1 = .error (.reservedName name)) ∧
      ∀ t, (c.run (command · cmd)).1 = .ok t → isReservedName name = false ∧
        (∃ sign ∈ signs, ∃ rest, t = c.scope.margin ++ (name ++ sign ++ rest) ++ "\n") ∧
        ∀ known, c.scope.Legible false known → cmd.isLegible known = true → isOwnPath name = true →
          ∃ x names o, name = x ++ accesses names ∧ ¬ reservedPrefix <+: x.toList ∧
            (tokens? t.toList).bind assignment? = some (pathTokens x names, o) := by
  refine ⟨fun _ => rfl, readVariable_dotted hdot, comparison_dotted hdot, writeTarget_dotted hdot, isTame_read_iff,
    isTame_written_iff hdot, fun cmd htarget => ⟨command_reserved htarget, fun t ht => ?_⟩⟩
  obtain ⟨name', v, l, hname, rfl, ⟨sign, hsign, rest, hl, hreads⟩, hvalue⟩ := command_stores htarget ht
  rw [writeTarget_dotted hdot] at hname
  split_ifs at hname with hreserved
  obtain rfl := Except.ok.inj hname
  refine ⟨Bool.eq_false_iff.mpr hreserved, ⟨sign, hsign, rest, by rw [hl]⟩, fun known hs hc hown => ?_⟩
  obtain ⟨x, names, rfl, hall, hprefix⟩ := isOwnPath_iff.mp hown
  obtain ⟨joints, phrase⟩ := hvalue known hs hc
  obtain ⟨vs, p, hvs, hp, -⟩ := value_operands phrase
  obtain ⟨ts, o, hts, hstored⟩ := hreads (path_reads hall) (path_target hall) hvs hp
  refine ⟨x, names, o, rfl, hprefix, ?_⟩
  rw [tokens?_line _ hts, Option.bind_some, hstored]

/-- A path of the program's own. -/
theorem dotted_names_door :
    let c := Context.initial .standard
    let name := "door.open"
    let t := "  door.open += 1\n"
    isDotted name = true ∧ IsTame name (dottedText name) ∧ (c.run (command · (.increment name))).1 = .ok t ∧
      c.scope.Legible false [] ∧ ∃ x names o, name = x ++ accesses names ∧ ¬ reservedPrefix <+: x.toList ∧
        (tokens? t.toList).bind assignment? = some (pathTokens x names, o) := by
  intro c name t
  have dotted : isDotted name = true := by decide
  have legible : c.scope.Legible false [] := Scope.legible_of_empty rfl rfl fun _ h => nomatch h
  have compiled : (c.run (command · (.increment name))).1 = .ok t := by decide +kernel
  have own : isOwnPath name = true := by decide +kernel
  have named : (Command.increment name).isLegible [] = true := by decide +kernel
  have tame : isTame name = true := by rw [isTame, own, Bool.or_true]
  obtain ⟨-, -, -, -, safe, -, writes⟩ := dotted_names c dotted
  obtain ⟨-, -, reads⟩ := (writes (.increment name) rfl).2 t compiled
  exact ⟨dotted, safe.mpr tame, compiled, legible, reads [] legible named own⟩

/-- A name with a statement in it is written as it is, and what was to be assigned is a comment; a name that starts like
the compiler's own is one of its objects, also where a comparison reads it. -/
theorem dotted_names_injected :
    let s := Scope.initial .standard
    let code := "a.b = 1 os.exit() --"
    let object := "__pulp.x"
    (isDotted code = true ∧ Decode.targetName "set" (some (.string code)) = .ok code ∧
      (writeTarget code).result = .ok code ∧ (readVariable code).result = .ok code ∧ ¬ IsTame code code ∧
      (command s (.assign code .set (.number (.integer 2)))).result = .ok "  a.b = 1 os.exit() -- = 2\n") ∧
    isDotted object = true ∧ isToken object = true ∧ (writeTarget object).result = .ok object ∧ ¬ IsTame object object ∧
      (comparison body s ⟨.eq, .string object, .nil⟩).result = .ok "__pulp.x == nil" := by
  intro s code object
  have codeText : dottedText code = code := by decide
  have objectText : dottedText object = object := by decide
  have wild : ¬ IsTame code code ∧ ¬ IsTame object object := by
    constructor
    · rw [← congrArg (IsTame code) codeText, isTame_read_iff]
      decide +kernel
    · rw [← congrArg (IsTame object) objectText, isTame_read_iff]
      decide +kernel
  exact ⟨⟨by decide, rfl, by decide, by decide, wild.1, by decide +kernel⟩, by decide, by decide, by decide, wild.2,
    by decide +kernel⟩

end Compile

end GameScript
