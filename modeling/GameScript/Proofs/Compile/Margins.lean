import GameScript.Proofs.Compile.Layout
import GameScript.Proofs.Compile.Operands
import GameScript.Proofs.Compile.Usage
import GameScript.Proofs.Lua.Line

/-! The lines of what is compiled. Every text that goes over several lines does so at a margin, and between its own
lines stand those of the bodies in it, which have wider margins. By induction on the levels of blocks in one another,
a command comes to whole lines at the margin of its scope. -/

namespace GameScript

open Lua Compile Outcome

/-- The line breaks of a tell apart from those at its body. -/
def TellTarget.breaks : TellTarget → Nat
  | place _ _ | room | player | game => 3
  | named _ => 0

/-- The line breaks within a command apart from those at the bodies that it enters. -/
def Command.breaks : Command → Nat
  | .mimic _ => 3
  | .tell target _ => target.breaks
  | _ => 0

/-- The lines of its own that a command has besides one for each body that it enters. -/
def Command.lines : Command → Nat
  | .noop => 0
  | c => c.breaks + 1

namespace Compile

/-! ### Texts with bodies in them -/

/-- A text that starts somewhere in a line: behind each of its line breaks stands the margin, or the text of a body
and then the margin. The bodies are those of these blocks, in order, and there are so many breaks without one. -/
inductive Woven (bodies : BodyCompiler) (s : Scope) : List (Place × Nat) → Nat → String → Prop where
  | nil : Woven bodies s [] 0 ""
  | text {t u : String} {es : List (Place × Nat)} {n : Nat} : Unbroken t → Woven bodies s es n u →
      Woven bodies s es n (t ++ u)
  | next {u : String} {es : List (Place × Nat)} {n : Nat} : Woven bodies s es n u →
      Woven bodies s es (n + 1) ("\n" ++ s.margin ++ u)
  | body {place : Place} {index : Nat} {b u : String} {es : List (Place × Nat)} {n : Nat} :
      (bodies (place.scope s) place.isFunction index).result = .ok b → AreLines (place.scope s).margin b →
      Woven bodies s es n u → Woven bodies s ((place, index) :: es) n ("\n" ++ b ++ s.margin ++ u)

/-- A part of a text of whole lines: a line of its own, without its margin, or a body. -/
inductive Part where
  | line (t : String)
  | body (place : Place) (index : Nat) (t : String)

namespace Part

def text (s : Scope) : Part → String
  | line t => s.margin ++ t ++ "\n"
  | body _ _ t => t

def entry? : Part → Option (Place × Nat)
  | line _ => none
  | body place index _ => some (place, index)

/-- A line is one line, and a body is what its block comes to where it stands, in whole lines at the margin there. -/
def Fits (bodies : BodyCompiler) (s : Scope) : Part → Prop
  | line t => Unbroken t
  | body place index t =>
      (bodies (place.scope s) place.isFunction index).result = .ok t ∧ AreLines (place.scope s).margin t

end Part

variable {bodies : BodyCompiler} {s : Scope} {es es' : List (Place × Nat)} {m n : Nat} {t u : String}

theorem Woven.append (ht : Woven bodies s es n t) (hu : Woven bodies s es' m u) :
    Woven bodies s (es ++ es') (m + n) (t ++ u) := by
  induction ht with
  | nil => rwa [String.empty_append]
  | text h _ ih =>
    rw [String.append_assoc]
    exact .text h ih
  | next _ ih =>
    rw [String.append_assoc]
    exact .next ih
  | body hb hlines _ ih =>
    rw [String.append_assoc]
    exact .body hb hlines ih

/-- Behind a margin and the beginning of a line, the text has the parts that it is woven from: at each break a line
ends, with or without a body behind it. -/
theorem Woven.exists_parts (h : Woven bodies s es n u) : ∀ t, Unbroken t → ∃ parts : List Part,
    s.margin ++ t ++ u ++ "\n" = join (parts.map (Part.text s)) ∧ parts.filterMap Part.entry? = es ∧
      parts.length = n + 1 + 2 * es.length ∧ ∀ p ∈ parts, p.Fits bodies s := by
  induction h with
  | nil =>
    intro t ht
    exact ⟨[.line t], by simp [join, Part.text], rfl, rfl, List.forall_mem_singleton.mpr ht⟩
  | text h _ ih =>
    intro t ht
    obtain ⟨parts, hparts, rest⟩ := ih _ (ht.append h)
    exact ⟨parts, by simpa only [String.append_assoc] using hparts, rest⟩
  | next _ ih =>
    intro t ht
    obtain ⟨parts, hparts, hes, hlength, hfits⟩ := ih "" (by decide)
    refine ⟨.line t :: parts, ?_, hes, ?_, List.forall_mem_cons.mpr ⟨ht, hfits⟩⟩
    · rw [List.map_cons, join_cons, ← hparts]
      simp only [Part.text, String.append_assoc, String.empty_append]
    · rw [List.length_cons, hlength]
      omega
  | @body place index b u es n hb hlines _ ih =>
    intro t ht
    obtain ⟨parts, hparts, hes, hlength, hfits⟩ := ih "" (by decide)
    refine ⟨.line t :: .body place index b :: parts, ?_, ?_, ?_, ?_⟩
    · rw [List.map_cons, List.map_cons, join_cons, join_cons, ← hparts]
      simp only [Part.text, String.append_assoc, String.empty_append]
    · simp only [List.filterMap_cons, Part.entry?, hes]
    · rw [List.length_cons, List.length_cons, List.length_cons, hlength]
      omega
    · exact List.forall_mem_cons.mpr ⟨ht, List.forall_mem_cons.mpr ⟨⟨hb, hlines⟩, hfits⟩⟩

/-- Every place of a body is at least as far in as what is around it. -/
theorem Place.margin_scope (s : Scope) (place : Place) :
    ∃ more, Unbroken more ∧ (place.scope s).margin = s.margin ++ more := by
  have blanks : ∀ n, Unbroken (String.ofList (List.replicate n ' ')) := fun n =>
    .fixed fun h => absurd (List.eq_of_mem_replicate h) (by decide)
  have wider : ∀ levels, (s.indented levels).margin = s.margin ++ String.ofList (List.replicate (2 * levels) ' ') := by
    intro levels
    apply String.toList_injective
    simp [Scope.margin, Scope.indented, Nat.mul_add]
  cases place with
  | branch => exact ⟨_, blanks 2, wider 1⟩
  | callback | told => exact ⟨_, blanks 4, wider 2⟩

theorem Part.areLines {p : Part} (h : p.Fits bodies s) : AreLines s.margin (p.text s) := by
  cases p with
  | line t => exact .line h
  | body place index t =>
    obtain ⟨more, hmore, hmargin⟩ := place.margin_scope s
    have lines := h.2
    rw [hmargin] at lines
    exact lines.narrow hmore

/-! ### Bodies and actions -/

/-- The body that an action enters. -/
def Action.entry? : Action → Option (Place × Nat)
  | enter place index => some (place, index)
  | read _ | write _ | call | unknownExpression _ | unknownCommand _ => none

/-- The bodies apart from those that are handed over, which may be left out, repeated or put into another order. -/
def ownBodies (es : List (Place × Nat)) : List (Place × Nat) := es.filter (·.1 ≠ .callback)

/-- The text is woven from bodies that these actions enter, with so many more breaks. -/
def Laid (bodies : BodyCompiler) (s : Scope) (as : List Action) (n : Nat) (t : String) : Prop :=
  ∃ es, Woven bodies s es n t ∧ (∀ e ∈ es, .enter e.1 e.2 ∈ as) ∧ ownBodies es = ownBodies (as.filterMap Action.entry?)

/-- The text is woven from bodies that are handed over, and has no other breaks. -/
def Inline (bodies : BodyCompiler) (s : Scope) (as : List Action) (t : String) : Prop :=
  ∃ es, Woven bodies s es 0 t ∧ ∀ e ∈ es, e.1 = .callback ∧ .enter .callback e.2 ∈ as

variable {as bs : List Action}

namespace Inline

theorem unbroken (h : Unbroken t) : Inline bodies s as t := by
  have woven : Woven bodies s [] 0 (t ++ "") := .text h .nil
  rw [String.append_empty] at woven
  exact ⟨[], woven, fun _ h => nomatch h⟩

theorem mono (hsub : as ⊆ bs) : Inline bodies s as t → Inline bodies s bs t
  | ⟨es, ht, hes⟩ => ⟨es, ht, fun e he => ⟨(hes e he).1, hsub (hes e he).2⟩⟩

theorem append (ht : Inline bodies s as t) (hu : Inline bodies s as u) : Inline bodies s as (t ++ u) := by
  obtain ⟨es, ht, hes⟩ := ht
  obtain ⟨es', hu, hes'⟩ := hu
  exact ⟨es ++ es', ht.append hu, List.forall_mem_append.mpr ⟨hes, hes'⟩⟩

/-- A text between others. -/
theorem within {front back : String} (ht : Inline bodies s as t) (hfront : Unbroken front) (hback : Unbroken back) :
    Inline bodies s as (front ++ t ++ back) := ((Inline.unbroken hfront).append ht).append (.unbroken hback)

theorem intercalate {sep : String} (hsep : Unbroken sep) : {ts : List String} → (∀ t ∈ ts, Inline bodies s as t) →
    Inline bodies s as (sep.intercalate ts)
  | [], _ => by
    rw [String.intercalate_nil]
    exact .unbroken (by decide)
  | [t], h => by
    rw [String.intercalate_singleton]
    exact h t List.mem_cons_self
  | t :: u :: us, h => by
    obtain ⟨ht, hus⟩ := List.forall_mem_cons.mp h
    rw [String.intercalate_cons_cons]
    exact (ht.append (.unbroken hsep)).append (Inline.intercalate hsep hus)

end Inline

/-! ### Calls -/

/-- A layout is on one line, and its holes are filled with texts that may have bodies in them. -/
theorem render_inline {ts : List String} (hts : ∀ t ∈ ts, Inline bodies s as t) : (pieces : List Call.Piece) →
    .char '\n' ∉ pieces → Inline bodies s as (Call.render pieces ts)
  | [], _ => .unbroken (by decide : Unbroken (String.ofList []))
  | p :: pieces, h => by
    obtain ⟨hp, hpieces⟩ := not_or.mp (fun hmem => h (List.mem_cons.mpr hmem))
    have whole : Call.render (p :: pieces) ts = String.ofList (p.render ts) ++ Call.render pieces ts := by
      rw [Call.render, List.flatMap_cons, String.ofList_append, Call.render]
    rw [whole]
    refine .append ?_ (render_inline hts pieces hpieces)
    cases p with
    | char c =>
      refine .unbroken (.fixed fun hc => hp ?_)
      rw [List.mem_singleton.mp hc]
    | hole position =>
      rw [Call.Piece.render, String.ofList_toList]
      cases ht : ts[position]? with
      | none => exact .unbroken (by decide)
      | some t => exact hts t (List.mem_of_getElem? ht)

theorem assembled_inline {args : List Argument} (h : ∀ a ∈ args, ∀ t ∈ a.texts, Inline bodies s as t) (op : String) :
    ∀ t ∈ Call.assembled op args, Inline bodies s as t := by
  intro t ht
  rcases Call.mem_assembled_cases ht with ⟨slot, rfl⟩ | ⟨a, ha, hmem⟩
  · exact .unbroken (by cases slot <;> decide)
  · exact h a ha t hmem

/-- A call is on one line, apart from the bodies that are handed over. -/
theorem text_inline {kind : CallKind} {op : String} (hop : Unbroken op) {args : List Argument}
    (h : ∀ a ∈ args, ∀ t ∈ a.texts, Inline bodies s as t) : Inline bodies s as (Call.text kind op args) := by
  have texts := assembled_inline h op
  unfold Call.text
  cases htemplate : Call.templateTable.lookup (kind, op) with
  | some template =>
    have flat : ∀ entry ∈ Call.templateTable, .char '\n' ∉ Call.pieces entry.2.toList := by decide +kernel
    obtain ⟨before, after, htable, -⟩ := List.lookup_eq_some_iff.mp htemplate
    have here := flat ((kind, op), template) (by rw [htable]; simp)
    dsimp only
    rw [Call.fill_eq_flatMap]
    exact render_inline texts _ here
  | none =>
    have callee : Unbroken (Call.callee kind op) := by
      unfold Call.callee
      cases hf : Call.functionTable.lookup (kind, op) with
      | some f =>
        have flat : ∀ entry ∈ Call.functionTable, Unbroken entry.2 := by decide +kernel
        obtain ⟨before, after, htable, -⟩ := List.lookup_eq_some_iff.mp hf
        exact flat ((kind, op), f) (by rw [htable]; simp)
      | none => exact Unbroken.append (by cases kind <;> decide) hop
    exact (Inline.intercalate (by decide) texts).within (callee.append (by decide)) (by decide)

/-! ### Names -/

/-- Names and tags that are written as they are have no line break. -/
def Action.IsUnbroken : Action → Prop
  | read name | write name => isDotted name = true → Unbroken name
  | unknownExpression tag | unknownCommand tag => Unbroken tag
  | call | enter _ _ => True

instance : DecidablePred Action.IsUnbroken := fun a => by
  unfold Action.IsUnbroken
  cases a <;> infer_instance

/-- Everything that is reached from a block is so. -/
def Calm (blocks : List Block) (cs : Block) : Prop := ∀ a, Reached blocks cs a → a.IsUnbroken

/-- An action is so, and so is everything that is reached from the block that it enters. -/
structure Action.Safe (blocks : List Block) (a : Action) : Prop where
  here : a.IsUnbroken
  inside : ∀ place i, a = .enter place i → ∀ cs, blocks[i]? = some cs → Calm blocks cs

theorem Calm.safe {blocks : List Block} {cs : Block} (h : Calm blocks cs) {c : Command} (hc : c ∈ cs) :
    ∀ a ∈ c.actions, a.Safe blocks := by
  refine fun a ha => ⟨h a (.here hc ha), ?_⟩
  rintro place i rfl body hbody b hb
  exact h b (.inside hc ha hbody hb)

/-- It is enough to look through all blocks. -/
theorem Calm.of_all {blocks : List Block} {cs : Block}
    (h : ∀ b ∈ cs :: blocks, ∀ c ∈ b, ∀ a ∈ c.actions, a.IsUnbroken) : Calm blocks cs := by
  intro a ha
  obtain ⟨hcs, hblocks⟩ := List.forall_mem_cons.mp h
  induction ha with
  | here hc ha => exact hcs _ hc _ ha
  | inside _ _ hbody _ ih =>
    have body := hblocks _ (List.mem_of_getElem? hbody)
    exact ih (List.forall_mem_cons.mpr ⟨body, hblocks⟩) body

theorem readVariable_unbroken {name : String} (h : isDotted name = true → Unbroken name) :
    Yields Unbroken Unbroken (readVariable name) := by
  rw [readVariable_eq]
  cases ha : Accessor.ofName? name with
  | some a =>
    have each : ∀ p ∈ Accessor.table, Unbroken p.2.text ∧ ∀ d ∈ p.2.declaration?, Unbroken d := by
      decide +kernel
    obtain ⟨htext, hdeclared⟩ := each (name, a) (mem_table_of_ofName? ha)
    refine ⟨fun t ht => Except.ok.inj ht ▸ htext, fun d hd => ?_⟩
    obtain ⟨d', hd', heq⟩ := List.mem_map.mp hd
    obtain rfl := Entry.declare.inj heq
    exact hdeclared _ (Option.mem_toList.mp hd')
  | none =>
    dsimp only
    split_ifs with hdot
    · exact .pure (h hdot)
    · exact (Yields.use name).bind fun _ _ => .pure (.variableRef name)

theorem writeTarget_unbroken {name : String} (h : isDotted name = true → Unbroken name) :
    Yields Unbroken Unbroken (writeTarget name) := by
  rw [writeTarget]
  split_ifs
  · exact .fail _
  · exact readVariable_unbroken h

/-! ### Expressions -/

theorem argumentActions_subset (e : Expr) (args : List Expr) :
    Expr.argumentActions args ⊆ Expr.argumentActions (e :: args) := by
  cases e <;> exact List.subset_append_right _ _

/-- Where calls dispatch on something that is written on one line, the bodies of such blocks are whole lines. -/
def BodiesLined (bodies : BodyCompiler) : Prop :=
  ∀ (s : Scope) (isFunction : Bool) (index : Nat), Unbroken s.target →
    (∀ cs, s.blocks[index]? = some cs → Calm s.blocks cs) →
    Yields Unbroken (AreLines s.margin) (bodies s isFunction index)

theorem Place.unbroken_target {s : Scope} (hs : Unbroken s.target) (place : Place) :
    Unbroken (place.scope s).target := by
  cases place with
  | branch | callback => exact hs
  | told => exact (by decide : Unbroken toldTarget)

/-- A body, with what it is the text of. -/
theorem enter_lined (h : BodiesLined bodies) (hs : Unbroken s.target) (place : Place) {index : Nat}
    (hsafe : (Action.enter place index).Safe s.blocks) :
    Yields Unbroken (fun b => (bodies (place.scope s) place.isFunction index).result = .ok b ∧
      AreLines (place.scope s).margin b) (bodies (place.scope s) place.isFunction index) := by
  have calm : ∀ cs, (place.scope s).blocks[index]? = some cs → Calm (place.scope s).blocks cs := by
    rw [Place.blocks_scope]
    exact hsafe.inside place index rfl
  have lined := h (place.scope s) place.isFunction index (place.unbroken_target hs) calm
  exact ⟨fun b hb => ⟨hb, lined.result b hb⟩, lined.declares⟩

theorem callback_inline (h : BodiesLined bodies) (hs : Unbroken s.target) {index : Nat}
    (hsafe : (Action.enter .callback index).Safe s.blocks) :
    Yields Unbroken (Inline bodies s [.enter .callback index]) (callback bodies s index) := by
  refine (enter_lined h hs _ hsafe).bind fun body hbody => .pure ?_
  have header : Unbroken ("function(" ++ handlerParameters ++ ")") := by decide
  have woven : Woven bodies s [(.callback, index)] 0 ("function(" ++ handlerParameters ++ ")" ++
      ("\n" ++ body ++ s.margin ++ ("  end" ++ ""))) :=
    .text header (.body hbody.1 hbody.2 (.text (by decide) .nil))
  refine ⟨[(.callback, index)], ?_, List.forall_mem_singleton.mpr ⟨rfl, List.mem_singleton_self _⟩⟩
  have opener : ")\n" = ")" ++ "\n" := by decide
  show Woven bodies s _ _ ("function(" ++ handlerParameters ++ ")\n" ++ body ++ s.margin ++ "  end")
  rw [opener]
  simpa only [String.append_assoc, String.append_empty] using woven

theorem tileText_unbroken (id : Int) (name : String) : Unbroken (tileText id name) :=
  ((Unbroken.inlineComment name).append (by decide)).append (.number (.integer id))

theorem concatenation_inline {ts : List String} (h : ∀ t ∈ ts, Inline bodies s as t) :
    Inline bodies s as (concatenation ts) := by
  unfold concatenation
  split_ifs
  · exact .unbroken (by decide)
  · exact .intercalate (by decide) h

mutual

theorem expression_inline (h : BodiesLined bodies) (hs : Unbroken s.target) : (e : Expr) →
    (∀ a ∈ e.actions, a.Safe s.blocks) → Yields Unbroken (Inline bodies s e.actions) (expression bodies s e)
  | .string t, _ => .pure (.unbroken (.quote t))
  | .number n, _ => .pure (.unbroken (.number n))
  | .bool true, _ | .bool false, _ | .nil, _ => .pure (.unbroken (by decide))
  | .read name, he => (readVariable_unbroken (he _ List.mem_cons_self).here).mono fun _ => .unbroken
  | .tile id name, _ => .pure (.unbroken (tileText_unbroken id name))
  | .format parts, he => (pieces_inline h hs parts he).map fun _ => concatenation_inline
  | .embed inner, he => (expression_inline h hs inner he).bind fun _ ht => .pure (ht.within (by decide) (by decide))
  | .nameOf args, he => by
    cases args with
    | nil => exact (arguments_inline h hs [] he).map fun _ => text_inline (by decide)
    | cons e args =>
      cases e with
      | pair x y =>
        obtain ⟨hx, hy⟩ := List.forall_mem_append.mp he
        refine (expression_inline h hs x hx).bind fun tx htx =>
          (expression_inline h hs y hy).bind fun ty hty => .pure ?_
        have row : Inline bodies s (x.actions ++ y.actions) ("__roomtiles[" ++ ty ++ "][") :=
          (hty.mono (List.subset_append_right _ _)).within (by decide) (by decide)
        exact (row.append (htx.mono (List.subset_append_left _ _))).append (.unbroken (by decide))
      | _ => exact (arguments_inline h hs (_ :: args) he).map fun _ => text_inline (by decide)
  | .value op args, he => (arguments_inline h hs args he).map fun _ => text_inline (by cases op <;> decide)
  | .block _, he => callback_inline h hs (he _ List.mem_cons_self)
  | .pair _ _, _ | .rect _, _ => (Yields.note _).bind fun _ _ => .pure (.unbroken (by decide))
  | .unknown tag, he => (Yields.note _).bind fun _ _ => .pure
      ((Inline.unbroken (he _ List.mem_cons_self).here).within (by decide) (by decide))

theorem pieces_inline (h : BodiesLined bodies) (hs : Unbroken s.target) : (es : List Expr) →
    (∀ a ∈ (Expr.eachActions es).flatten, a.Safe s.blocks) →
    Yields Unbroken (fun ts => ∀ t ∈ ts, Inline bodies s (Expr.eachActions es).flatten t) (pieces bodies s es)
  | [], _ => .pure fun _ ht => nomatch ht
  | e :: es, he => by
    obtain ⟨hfirst, hes⟩ := List.forall_mem_append.mp he
    have first := expression_inline h hs e hfirst
    have rest := pieces_inline h hs es hes
    have front : e.actions ⊆ (Expr.eachActions (e :: es)).flatten := List.subset_append_left _ _
    have back : (Expr.eachActions es).flatten ⊆ (Expr.eachActions (e :: es)).flatten := List.subset_append_right _ _
    cases e with
    | string t =>
      exact rest.bind fun ts hts => .pure (List.forall_mem_cons.mpr ⟨.unbroken (.quote t), hts⟩)
    | _ =>
      exact first.bind fun t ht => rest.bind fun ts hts => .pure (List.forall_mem_cons.mpr
        ⟨(ht.mono front).within (by decide) (by decide), fun u hu => (hts u hu).mono back⟩)

theorem arguments_inline (h : BodiesLined bodies) (hs : Unbroken s.target) : (es : List Expr) →
    (∀ a ∈ Expr.argumentActions es, a.Safe s.blocks) →
    Yields Unbroken (fun args => ∀ a ∈ args, ∀ t ∈ a.texts, Inline bodies s (Expr.argumentActions es) t)
      (arguments bodies s es)
  | [], _ => .pure fun _ ha => nomatch ha
  | e :: es, he => by
    have rest : (∀ a ∈ Expr.argumentActions es, a.Safe s.blocks) → Yields Unbroken
        (fun args => ∀ a ∈ args, ∀ t ∈ a.texts, Inline bodies s (Expr.argumentActions (e :: es)) t)
        (arguments bodies s es) := fun hes => (arguments_inline h hs es hes).mono fun args hargs a ha t ht =>
      (hargs a ha t ht).mono (argumentActions_subset e es)
    have first := expression_inline h hs e
    cases e with
    | pair x y =>
      obtain ⟨hpair, hes⟩ := List.forall_mem_append.mp he
      obtain ⟨hx, hy⟩ := List.forall_mem_append.mp hpair
      have front : x.actions ⊆ x.actions ++ y.actions ++ Expr.argumentActions es := by simp
      have middle : y.actions ⊆ x.actions ++ y.actions ++ Expr.argumentActions es := by simp
      refine (expression_inline h hs x hx).bind fun tx htx => (expression_inline h hs y hy).bind fun ty hty =>
        (rest hes).bind fun args hargs => .pure (List.forall_mem_cons.mpr ⟨?_, hargs⟩)
      exact List.forall_mem_cons.mpr ⟨htx.mono front, List.forall_mem_singleton.mpr (hty.mono middle)⟩
    | rect parts =>
      obtain ⟨hparts, hes⟩ := List.forall_mem_append.mp he
      exact (sides_inline h hs _ parts hparts).bind fun ts hts => (rest hes).bind fun args hargs =>
        .pure (List.forall_mem_cons.mpr ⟨fun t ht => (hts t ht).mono (List.subset_append_left _ _), hargs⟩)
    | _ =>
      obtain ⟨hfirst, hes⟩ := List.forall_mem_append.mp he
      exact (first hfirst).bind fun t ht => (rest hes).bind fun args hargs => .pure (List.forall_mem_cons.mpr
        ⟨List.forall_mem_singleton.mpr (ht.mono (List.subset_append_left _ _)), hargs⟩)

theorem sides_inline (h : BodiesLined bodies) (hs : Unbroken s.target) : (n : Nat) → (es : List Expr) →
    (∀ a ∈ ((Expr.eachActions es).take n).flatten, a.Safe s.blocks) →
    Yields Unbroken (fun ts => ∀ t ∈ ts, Inline bodies s ((Expr.eachActions es).take n).flatten t) (sides bodies s n es)
  | 0, [], _ | 0, _ :: _, _ | _ + 1, [], _ => .pure fun _ ht => nomatch ht
  | n + 1, e :: es, he => by
    obtain ⟨hfirst, hes⟩ := List.forall_mem_append.mp he
    exact (expression_inline h hs e hfirst).bind fun t ht => (sides_inline h hs n es hes).bind fun ts hts =>
      .pure (List.forall_mem_cons.mpr ⟨ht.mono (List.subset_append_left _ _),
        fun u hu => (hts u hu).mono (List.subset_append_right _ _)⟩)

end

/-! ### Commands -/

theorem comparison_inline (h : BodiesLined bodies) (hs : Unbroken s.target) {c : Comparison}
    (hc : ∀ a ∈ c.actions, a.Safe s.blocks) :
    Yields Unbroken (Inline bodies s c.actions) (comparison bodies s c) := by
  obtain ⟨op, left, right⟩ := c
  obtain ⟨hleft, hright⟩ := List.forall_mem_append.mp hc
  have operator : Unbroken (" " ++ op.symbol ++ " ") := by cases op <;> decide
  have rest : ∀ {ls : List Action} {l : String}, Inline bodies s ls l →
      Yields Unbroken (Inline bodies s (ls ++ right.actions)) (do
        let right ← expression bodies s right
        return s!"{l} {op.symbol} {right}") := by
    intro ls l hl
    refine (expression_inline h hs right hright).bind fun r hr => .pure ?_
    have front := (hl.mono (List.subset_append_left ls right.actions)).append (.unbroken operator)
    rw [← String.append_assoc, ← String.append_assoc] at front
    exact front.append (hr.mono (List.subset_append_right _ _))
  cases left with
  | string name =>
    rw [comparison, Comparison.actions]
    dsimp only at hleft ⊢
    split_ifs at hleft ⊢
    · exact (readVariable_unbroken (hleft _ List.mem_cons_self).here).bind fun l hl => rest (.unbroken hl)
    · exact rest (.unbroken (.quote name))
  | _ => exact (expression_inline h hs _ hleft).bind fun l hl => rest hl

namespace Laid

/-- Nothing is entered where nothing is laid in. -/
theorem unbroken (h : Unbroken t) (has : as.filterMap Action.entry? = [] := by rfl) : Laid bodies s as 0 t := by
  have woven : Woven bodies s [] 0 (t ++ "") := .text h .nil
  rw [String.append_empty] at woven
  exact ⟨[], woven, (fun _ h => nomatch h), by rw [has]⟩

theorem append (ht : Laid bodies s as n t) (hu : Laid bodies s bs m u) : Laid bodies s (as ++ bs) (m + n) (t ++ u) := by
  obtain ⟨es, ht, hes, hown⟩ := ht
  obtain ⟨es', hu, hes', hown'⟩ := hu
  refine ⟨es ++ es', ht.append hu, ?_, ?_⟩
  · exact List.forall_mem_append.mpr ⟨fun e he => List.mem_append_left _ (hes e he),
      fun e he => List.mem_append_right _ (hes' e he)⟩
  · simp only [ownBodies, List.filter_append, List.filterMap_append] at hown hown' ⊢
    rw [hown, hown']

/-- An action that enters nothing. -/
theorem cons {a : Action} (ha : a.entry? = none) : Laid bodies s as n t → Laid bodies s (a :: as) n t
  | ⟨es, ht, hes, hown⟩ => by
    refine ⟨es, ht, fun e he => List.mem_cons_of_mem _ (hes e he), ?_⟩
    rwa [List.filterMap_cons, ha]

theorem next : Laid bodies s as n u → Laid bodies s as (n + 1) ("\n" ++ s.margin ++ u)
  | ⟨es, hu, rest⟩ => ⟨es, .next hu, rest⟩

/-- A body that is laid in between two lines. -/
theorem entered {place : Place} {index : Nat} {b : String}
    (hb : (bodies (place.scope s) place.isFunction index).result = .ok b ∧ AreLines (place.scope s).margin b)
    (hu : Laid bodies s as n u) : Laid bodies s (.enter place index :: as) n ("\n" ++ b ++ s.margin ++ u) := by
  obtain ⟨es, hu, hes, hown⟩ := hu
  refine ⟨(place, index) :: es, .body hb.1 hb.2 hu, ?_, ?_⟩
  · exact List.forall_mem_cons.mpr ⟨List.mem_cons_self, fun e he => List.mem_cons_of_mem _ (hes e he)⟩
  · simp only [ownBodies, List.filterMap_cons, Action.entry?, List.filter_cons] at hown ⊢
    rw [hown]

end Laid

/-- An expression enters only blocks that are handed over. -/
theorem Inline.laid {refs : List Nat} (has : ∀ a ∈ as, a.OfExpression refs) (h : Inline bodies s as t) :
    Laid bodies s as 0 t := by
  obtain ⟨es, ht, hes⟩ := h
  have handed : ∀ e ∈ as.filterMap Action.entry?, e.1 = .callback := by
    intro e he
    obtain ⟨a, ha, hentry⟩ := List.mem_filterMap.mp he
    cases a with
    | enter place index =>
      obtain rfl := Option.some.inj hentry
      exact (has _ ha).1
    | _ => cases hentry
  have none : ∀ {es : List (Place × Nat)}, (∀ e ∈ es, e.1 = .callback) → ownBodies es = [] := by
    intro es h
    exact List.filter_eq_nil_iff.mpr fun e he => by simp [h e he]
  refine ⟨es, ht, fun e he => ?_, (none fun e he => (hes e he).1).trans (none handed).symm⟩
  obtain ⟨place, index⟩ := e
  obtain ⟨rfl, hmem⟩ := hes _ he
  exact hmem

/-- A body and what is behind it, where that starts with a margin in the end. -/
theorem Laid.before {place : Place} {index : Nat} {b rest : String}
    (hb : (bodies (place.scope s) place.isFunction index).result = .ok b ∧ AreLines (place.scope s).margin b)
    (hrest : rest ++ s.margin = s.margin ++ u) (hu : Laid bodies s as n u) :
    Laid bodies s (.enter place index :: as) n ("\n" ++ b ++ rest ++ s.margin) := by
  rw [String.append_assoc, hrest, ← String.append_assoc]
  exact .entered hb hu

/-- The clauses of a conditional are whole lines: a margin that is behind them can be taken for one in front of a
text that bodies are laid in. -/
theorem branches_laid (h : BodiesLined bodies) (hs : Unbroken s.target) : {clauses : List Clause} →
    (∀ a ∈ clauses.flatMap Clause.actions, a.Safe s.blocks) →
    Yields Unbroken (fun t => ∃ u, t ++ s.margin = s.margin ++ u ∧
      Laid bodies s (clauses.flatMap Clause.actions) 0 u) (branches bodies s clauses)
  | [], _ => .pure ⟨"", by simp, .unbroken (by decide)⟩
  | .elseIf c block :: clauses, hall => by
    obtain ⟨hclause, hclauses⟩ := List.forall_mem_append.mp hall
    obtain ⟨hc, hblock⟩ := List.forall_mem_append.mp hclause
    refine (comparison_inline h hs hc).bind fun head hhead =>
      (enter_lined h hs .branch (hblock _ List.mem_cons_self)).bind fun body hbody =>
        (branches_laid h hs hclauses).bind fun rest hrest => .pure ?_
    obtain ⟨u, hu, laid⟩ := hrest
    have guard : Laid bodies s c.actions 0 ("elseif " ++ head ++ " then") :=
      (hhead.within (by decide) (by decide)).laid c.actions_ofExpression
    have whole := guard.append (.before hbody hu laid)
    rw [List.flatMap_cons, Clause.actions, List.append_assoc]
    refine ⟨_, ?_, whole⟩
    have opener : " then\n" = " then" ++ "\n" := by decide
    show s.margin ++ "elseif " ++ head ++ " then\n" ++ body ++ rest ++ s.margin = _
    rw [opener]
    simp only [String.append_assoc]
  | .otherwise block :: clauses, hall => by
    obtain ⟨hblock, hclauses⟩ := List.forall_mem_append.mp hall
    refine (enter_lined h hs .branch (hblock _ List.mem_cons_self)).bind fun body hbody =>
      (branches_laid h hs hclauses).bind fun rest hrest => .pure ?_
    obtain ⟨u, hu, laid⟩ := hrest
    have guard : Laid bodies s [] 0 "else" := .unbroken (by decide)
    refine ⟨_, ?_, guard.append (.before hbody hu laid)⟩
    have opener : "else\n" = "else" ++ "\n" := by decide
    show s.margin ++ "else\n" ++ body ++ rest ++ s.margin = _
    rw [opener]
    simp only [String.append_assoc]

theorem conditional_laid (h : BodiesLined bodies) (hs : Unbroken s.target) {c : Comparison} {block : Nat}
    {clauses : List Clause} (hc : ∀ a ∈ (Command.cond c block clauses).actions, a.Safe s.blocks) :
    Yields Unbroken (Laid bodies s (Command.cond c block clauses).actions 0)
      (conditional bodies s c block clauses) := by
  obtain ⟨hc, hrest⟩ := List.forall_mem_append.mp hc
  obtain ⟨hblock, hclauses⟩ := List.forall_mem_cons.mp hrest
  refine (comparison_inline h hs hc).bind fun head hhead => (enter_lined h hs _ hblock).bind fun body hbody =>
    (branches_laid h hs hclauses).bind fun rest hrest => .pure ?_
  obtain ⟨u, hu, laid⟩ := hrest
  have guard : Laid bodies s c.actions 0 ("if " ++ head ++ " then") :=
    (hhead.within (by decide) (by decide)).laid c.actions_ofExpression
  have last : Laid bodies s [] 0 "end" := .unbroken (by decide)
  have whole := (guard.append (.before hbody hu laid)).append last
  have opener : " then\n" = " then" ++ "\n" := by decide
  show Laid bodies s (c.actions ++ .enter .branch block :: clauses.flatMap Clause.actions) 0
    ("if " ++ head ++ " then\n" ++ body ++ rest ++ s.margin ++ "end")
  rw [opener]
  rw [List.append_nil] at whole
  simpa only [String.append_assoc] using whole

theorem loop_laid (h : BodiesLined bodies) (hs : Unbroken s.target) {c : Comparison} {block : Nat}
    (hc : ∀ a ∈ (Command.loop c block).actions, a.Safe s.blocks) :
    Yields Unbroken (Laid bodies s (Command.loop c block).actions 0) (loop bodies s c block) := by
  obtain ⟨hc, hblock⟩ := List.forall_mem_append.mp hc
  refine (comparison_inline h hs hc).bind fun head hhead =>
    (enter_lined h hs .branch (hblock _ List.mem_cons_self)).bind fun body hbody => .pure ?_
  have guard : Laid bodies s c.actions 0 ("while " ++ head ++ " do") :=
    (hhead.within (by decide) (by decide)).laid c.actions_ofExpression
  have last : Laid bodies s [] 0 "end" := .unbroken (by decide)
  have whole := guard.append (.entered hbody last)
  have opener : " do\n" = " do" ++ "\n" := by decide
  show Laid bodies s (c.actions ++ [.enter .branch block]) 0 ("while " ++ head ++ " do\n" ++ body ++ s.margin ++ "end")
  rw [opener]
  simpa only [String.append_assoc] using whole

/-- A body that is run as an actor stands two levels further in, behind two lines that look for the actor. -/
theorem told_laid (h : BodiesLined bodies) (hs : Unbroken s.target) {label actor guard : String} {block : Nat}
    {refs : List Nat} (has : ∀ a ∈ as, a.OfExpression refs) (hlabel : Unbroken label)
    (hactor : Inline bodies s as actor) (hguard : Unbroken guard) (hblock : (Action.enter .told block).Safe s.blocks) :
    Yields Unbroken (Laid bodies s (as ++ [.enter .told block]) 3) (told bodies s label actor guard block) := by
  refine (enter_lined h hs _ hblock).bind fun body hbody => .pure ?_
  have title : Laid bodies s [] 0 ("do --tell " ++ label ++ " to") :=
    .unbroken (((by decide : Unbroken "do --tell ").append hlabel).append (by decide))
  have found : Laid bodies s as 0 ("  local __actor = " ++ actor) :=
    ((Inline.unbroken (by decide)).append hactor).laid has
  have guarded : Laid bodies s [] 0 ("  if " ++ guard ++ " then") :=
    .unbroken (((by decide : Unbroken "  if ").append hguard).append (by decide))
  have inner : Laid bodies s [] 0 "  end" := .unbroken (by decide)
  have last : Laid bodies s [] 1 ("  end" ++ ("\n" ++ s.margin ++ "end")) :=
    inner.append (.next (.unbroken (by decide)))
  have whole := (title.append (.next found)).append (.next (guarded.append (.entered hbody last)))
  have opener : " then\n" = " then" ++ "\n" := by decide
  have titled : " to\n" = " to" ++ "\n" := by decide
  have ended : "  end\n" = "  end" ++ "\n" := by decide
  show Laid bodies s _ 3 ("do --tell " ++ label ++ " to\n" ++ s.margin ++ "  local __actor = " ++ actor ++ "\n" ++
    s.margin ++ "  if " ++ guard ++ " then\n" ++ (body ++ s.margin ++ "  end\n" ++ s.margin ++ "end"))
  rw [opener, titled, ended]
  simpa only [String.append_assoc, List.nil_append] using whole

theorem tell_laid (h : BodiesLined bodies) (hs : Unbroken s.target) {target : TellTarget} {block : Nat}
    (ht : ∀ a ∈ target.actions block, a.Safe s.blocks) :
    Yields Unbroken (Laid bodies s (target.actions block) target.breaks) (tell bodies s target block) := by
  have none : ∀ a ∈ ([] : List Action), a.OfExpression [] := fun _ h => nomatch h
  have fixed : ∀ {label actor guard : String}, Unbroken label → Unbroken actor → Unbroken guard →
      (Action.enter .told block).Safe s.blocks →
      Yields Unbroken (Laid bodies s [.enter .told block] 3) (told bodies s label actor guard block) :=
    fun hlabel hactor hguard hblock =>
      told_laid h hs none hlabel (.unbroken hactor) hguard hblock
  cases target with
  | place x y =>
    obtain ⟨hxy, hblock⟩ := List.forall_mem_append.mp ht
    obtain ⟨hy, hx⟩ := List.forall_mem_append.mp hxy
    refine (expression_inline h hs y hy).bind fun ty hty => (expression_inline h hs x hx).bind fun tx htx => ?_
    have row : Inline bodies s (y.actions ++ x.actions) ("__roomtiles[" ++ ty ++ "][") :=
      (hty.mono (List.subset_append_left _ _)).within (by decide) (by decide)
    have found := (row.append (htx.mono (List.subset_append_right _ _))).append (.unbroken (t := "]") (by decide))
    have only : ∀ a ∈ y.actions ++ x.actions, a.OfExpression (y.refs ++ x.refs) := by
      refine List.forall_mem_append.mpr ⟨fun a ha => ?_, fun a ha => ?_⟩
      · exact (y.actions_ofExpression a ha).mono (List.subset_append_left _ _)
      · exact (x.actions_ofExpression a ha).mono (List.subset_append_right _ _)
    exact told_laid h hs only (by decide) found (by decide) (hblock _ List.mem_cons_self)
  | named name =>
    rw [TellTarget.actions, ← argumentActions_foldTile?] at ht ⊢
    refine (arguments_inline h hs _ ht).map fun args hargs => ?_
    exact (text_inline (by decide) hargs).laid (Expr.argumentActions_ofExpression _)
  | room | player | game => exact fixed (by decide) (by decide) (by decide) (ht _ List.mem_cons_self)

/-- A known tile is written on one line. -/
theorem foldTile?_unbroken {e tile : Expr} (h : s.foldTile? e = some tile) :
    Yields Unbroken Unbroken (expression bodies s tile) := by
  have tiles : ∀ id name, Yields Unbroken Unbroken (expression bodies s (.tile id name)) :=
    fun id name => .pure (tileText_unbroken id name)
  cases e with
  | string name =>
    obtain ⟨id, -, rfl⟩ := Option.map_eq_some_iff.mp h
    exact tiles id name
  | number n =>
    obtain ⟨id, -, rfl⟩ := Option.map_eq_some_iff.mp h
    exact tiles id _
  | tile id name =>
    obtain rfl := Option.some.inj h
    exact tiles id name
  | _ => cases h

theorem mimic_laid (h : BodiesLined bodies) (hs : Unbroken s.target) {target : Expr}
    (ht : ∀ a ∈ target.actions, a.Safe s.blocks) :
    Yields Unbroken (Laid bodies s target.actions 3) (mimic bodies s target) := by
  have lookup : Yields Unbroken (Inline bodies s target.actions) (mimicLookup bodies s target) := by
    rw [mimicLookup]
    cases hfold : s.foldTile? target with
    | none => exact (expression_inline h hs target ht).bind fun t ht => .pure (ht.within (by decide) (by decide))
    | some tile =>
      exact (foldTile?_unbroken hfold).bind fun t ht => .pure ((Inline.unbroken ht).within (by decide) (by decide))
  refine lookup.bind fun t ht => .pure ?_
  have title : Laid bodies s [] 0 "do -- (mimic)" := .unbroken (by decide)
  have found : Laid bodies s target.actions 0 ("  local __mimic_target__ = " ++ t) :=
    ((Inline.unbroken (by decide)).append ht).laid target.actions_ofExpression
  have called : Laid bodies s [] 0 ("  ;(__mimic_target__[__evname] or __mimic_target__.any)" ++
      "(__mimic_target__, __actor, event, __evname)") := .unbroken (.append (.fixed (by decide)) (.fixed (by decide)))
  have last : Laid bodies s [] 1 ("\n" ++ s.margin ++ "end") := .next (.unbroken (by decide))
  have whole := (title.append (.next found)).append (.next (called.append last))
  have titled : "do -- (mimic)\n" = "do -- (mimic)" ++ "\n" := by decide
  have ended : "(__mimic_target__, __actor, event, __evname)\n" =
    "(__mimic_target__, __actor, event, __evname)" ++ "\n" := by decide
  show Laid bodies s _ 3 ("do -- (mimic)\n" ++ s.margin ++ "  local __mimic_target__ = " ++ t ++ "\n" ++
    (s.margin ++ "  ;(__mimic_target__[__evname] or __mimic_target__.any)") ++
    ("(__mimic_target__, __actor, event, __evname)\n" ++ s.margin ++ "end"))
  rw [titled, ended]
  simpa only [String.append_assoc, List.nil_append, List.append_nil] using whole

theorem call_laid (h : BodiesLined bodies) (hs : Unbroken s.target) {name : Expr}
    (hname : ∀ a ∈ name.actions, a.Safe s.blocks) :
    Yields Unbroken (Laid bodies s (.call :: name.actions) 0) (call bodies s name) := by
  have declared : Unbroken ("local __evobj = " ++ s.target) := (by decide : Unbroken "local __evobj = ").append hs
  have slot : Yields Unbroken (fun p => Inline bodies s name.actions p.1 ∧ Inline bodies s name.actions p.2)
      (callSlot bodies s name) := by
    cases name with
    | string t =>
      have quoted : Inline bodies s (Expr.string t).actions (quote t) := .unbroken (.quote t)
      rw [callSlot]
      split_ifs
      · exact .pure ⟨.unbroken (.field (by decide) t), quoted⟩
      · exact .pure ⟨quoted.within (by decide) (by decide), quoted⟩
    | _ =>
      exact (expression_inline h hs _ hname).bind fun t ht => .pure ⟨ht.within (by decide) (by decide), ht⟩
  refine (Yields.declare declared).bind fun _ _ => slot.bind fun p hp => .pure ?_
  have front : Inline bodies s name.actions
      (";(" ++ p.1 ++ " or __evobj.any)(__evobj, __actor, event, " ++ p.2) :=
    (hp.1.within (by decide) (.fixed (by decide))).append hp.2
  have comment : Unbroken (") -- call " ++ oneLine p.2) := (by decide : Unbroken ") -- call ").append (.oneLine _)
  have whole := (front.append (.unbroken comment)).laid name.actions_ofExpression
  rw [← String.append_assoc] at whole
  exact .cons rfl whole

theorem compound_inline {target value : String} {operator : String} (ht : Unbroken target)
    (hv : Inline bodies s as value) (hop : Unbroken operator) :
    Inline bodies s as (compound s target operator value) := by
  have blank : Unbroken " " := by decide
  unfold compound
  split_ifs
  · exact (Inline.unbroken (((ht.append blank).append hop).append (by decide))).append hv
  · exact (Inline.unbroken (((((ht.append (by decide)).append ht).append blank).append hop).append blank)).append hv

theorem assignment_laid (h : BodiesLined bodies) (hs : Unbroken s.target) {target : String} {op : AssignOp}
    {value : Expr} (htarget : (Action.write target).IsUnbroken) (hvalue : ∀ a ∈ value.actions, a.Safe s.blocks) :
    Yields Unbroken (Laid bodies s (.write target :: value.actions) 0) (assignment bodies s target op value) := by
  refine (writeTarget_unbroken htarget).bind fun t ht => (expression_inline h hs value hvalue).bind fun v hv => ?_
  have operators : ∀ operator ∈ op.operator?, Unbroken operator := by cases op <;> decide
  cases hop : op.operator? with
  | none =>
    have equals := (Inline.unbroken (ht.append (by decide : Unbroken " = "))).append hv
    exact .pure (.cons rfl (equals.laid value.actions_ofExpression))
  | some operator =>
    have combined := compound_inline (s := s) ht hv (operators operator hop)
    exact .pure (.cons rfl (combined.laid value.actions_ofExpression))

theorem step_laid {target operator : String} (htarget : (Action.write target).IsUnbroken) (hop : Unbroken operator) :
    Yields Unbroken (Laid bodies s [.write target] 0) (step s target operator) := by
  refine (writeTarget_unbroken htarget).bind fun t ht => .pure ?_
  have one : Inline bodies s [] "1" := .unbroken (by decide)
  have none : ∀ a ∈ ([] : List Action), a.OfExpression [] := fun _ h => nomatch h
  exact .cons rfl ((compound_inline ht one hop).laid none)

/-- Only a command that does nothing has no line, and every other one has lines that bodies are laid in. -/
theorem line_laid (h : BodiesLined bodies) (hs : Unbroken s.target) {c : Command}
    (hc : ∀ a ∈ c.actions, a.Safe s.blocks) :
    Yields Unbroken (fun t? => (t? = none ↔ c = .noop) ∧ ∀ t ∈ t?, Laid bodies s c.actions c.breaks t)
      (line bodies s c) := by
  have written : c ≠ .noop → ∀ t, Laid bodies s c.actions c.breaks t →
      ((some t = none ↔ c = .noop) ∧ ∀ u ∈ some t, Laid bodies s c.actions c.breaks u) :=
    fun hne t ht => ⟨by simp [hne], fun u hu => Option.some.inj hu ▸ ht⟩
  cases c with
  | noop => exact .pure ⟨by simp, fun _ h => nomatch h⟩
  | comment | continuedComment | done => exact .pure (written nofun _ (.unbroken (by decide)))
  | assign target op value =>
    obtain ⟨htarget, hvalue⟩ := List.forall_mem_cons.mp hc
    exact (assignment_laid h hs htarget.here hvalue).map (written nofun)
  | increment target | decrement target =>
    exact (step_laid (hc _ List.mem_cons_self).here (by decide)).map (written nofun)
  | cond c block clauses => exact (conditional_laid h hs hc).map (written nofun)
  | loop c block => exact (loop_laid h hs hc).map (written nofun)
  | call name => exact (call_laid h hs (List.forall_mem_cons.mp hc).2).map (written nofun)
  | emit name =>
    exact (expression_inline h hs name hc).bind fun t ht => .pure (written nofun _
      ((ht.within (by decide) (by decide)).laid name.actions_ofExpression))
  | mimic target => exact (mimic_laid h hs hc).map (written nofun)
  | tell target block => exact (tell_laid h hs hc).map (written nofun)
  | effect op args =>
    exact (arguments_inline h hs args hc).bind fun compiled hcompiled => .pure (written nofun _
      ((text_inline (by cases op <;> decide) hcompiled).laid (Expr.argumentActions_ofExpression args)))
  | unknown tag =>
    have report : Unbroken ("--unknown command code '" ++ tag ++ "'") :=
      ((by decide : Unbroken "--unknown command code '").append (hc _ List.mem_cons_self).here).append (by decide)
    exact (Yields.note _).bind fun _ _ => .pure (written nofun _ (.unbroken report))

/-- So many lines at the margin, one more for each body, and bodies that these actions enter. -/
def Lined (bodies : BodyCompiler) (s : Scope) (as : List Action) (n : Nat) (t : String) : Prop :=
  ∃ parts : List Part, t = join (parts.map (Part.text s)) ∧ (∀ p ∈ parts, p.Fits bodies s) ∧
    parts.length = n + 2 * (parts.filterMap Part.entry?).length ∧
    (∀ e ∈ parts.filterMap Part.entry?, .enter e.1 e.2 ∈ as) ∧
    ownBodies (parts.filterMap Part.entry?) = ownBodies (as.filterMap Action.entry?)

theorem Lined.areLines : Lined bodies s as n t → AreLines s.margin t
  | ⟨parts, ht, hfits, _⟩ => by
    rw [ht]
    exact .join (List.forall_mem_map.mpr fun p hp => Part.areLines (hfits p hp))

/-- A text that bodies are laid in, as the lines of a command. -/
theorem Laid.lined (h : Laid bodies s as n t) : Lined bodies s as (n + 1) (s.margin ++ t ++ "\n") := by
  obtain ⟨es, woven, hes, hown⟩ := h
  obtain ⟨parts, hparts, rfl, hlength, hfits⟩ := woven.exists_parts "" (by decide)
  rw [String.append_empty] at hparts
  exact ⟨parts, hparts, hfits, hlength, hes, hown⟩

theorem commandWith_lined (h : BodiesLined bodies) (hs : Unbroken s.target) {c : Command}
    (hc : ∀ a ∈ c.actions, a.Safe s.blocks) :
    Yields Unbroken (fun t => (t = "" ↔ c = .noop) ∧ Lined bodies s c.actions c.lines t) (commandWith bodies s c) := by
  refine (line_laid h hs hc).bind fun t? ht => ?_
  obtain ⟨hnoop, hlaid⟩ := ht
  cases t? with
  | none =>
    obtain rfl := hnoop.mp rfl
    exact .pure ⟨by simp, [], rfl, (fun _ h => nomatch h), rfl, (fun _ h => nomatch h), rfl⟩
  | some t =>
    have filled : s.margin ++ t ++ "\n" ≠ "" := by simp
    have hne : c ≠ .noop := fun h => nomatch hnoop.mpr h
    have lines : c.lines = c.breaks + 1 := by cases c <;> first | rfl | exact absurd rfl hne
    rw [lines]
    exact .pure ⟨⟨fun h => absurd h filled, fun h => absurd h hne⟩, (hlaid t rfl).lined⟩

/-! ### Blocks -/

theorem commandsWith_lines (h : BodiesLined bodies) (hs : Unbroken s.target) : {cs : Block} →
    (∀ c ∈ cs, ∀ a ∈ c.actions, a.Safe s.blocks) → Yields Unbroken (AreLines s.margin) (commandsWith bodies s cs)
  | [], _ => .pure .nil
  | c :: cs, hall => by
    obtain ⟨hc, hcs⟩ := List.forall_mem_cons.mp hall
    exact (commandWith_lined h hs hc).bind fun t ht => (commandsWith_lines h hs hcs).bind fun u hu =>
      .pure (ht.2.areLines.append hu)

/-- A function starts with its declarations, each of which is a line. -/
theorem blockWith_lines (h : BodiesLined bodies) (hs : Unbroken s.target) {isFunction : Bool} {cs : Block}
    (hcs : Calm s.blocks cs) : Yields Unbroken (AreLines s.margin) (blockWith bodies s isFunction cs) := by
  have lines := commandsWith_lines h hs fun c hc => hcs.safe hc
  unfold blockWith
  split_ifs
  · refine lines.functionScope.bind fun p hp => .pure (AreLines.append (.join ?_) hp.1)
    exact List.forall_mem_map.mpr fun d hd => .line (hp.2 d hd)
  · exact lines

/-- By induction on the levels of blocks in one another, all bodies are whole lines. -/
theorem bodiesLined_bodyWithin : (levels : Nat) → BodiesLined (bodyWithin levels)
  | levels, s, isFunction, index, hs, hcalm => by
    cases hblock : s.blocks[index]? with
    | none =>
      rw [bodyWithin_missing hblock]
      exact .fail _
    | some cs =>
      cases levels with
      | zero =>
        rw [bodyWithin, Scope.blockAt, hblock]
        exact .fail _
      | succ levels =>
        rw [bodyWithin_succ hblock]
        exact blockWith_lines (bodiesLined_bodyWithin levels) hs (hcalm cs hblock)

theorem bodiesLined_body : BodiesLined body :=
  fun s isFunction index => bodiesLined_bodyWithin s.blocks.length s isFunction index

/-- A command that compiles comes to whole lines at the margin of its scope, and to none only if it does nothing. They
are lines of its own, as many as it always has and one more for each body that it enters, and the bodies, each in whole
lines at the margin of its place: those of branches, loops and tells in order, and of those that are handed over those
that its calls have a place for. -/
theorem command_lines (c : Context) (htarget : Unbroken c.scope.target) {cmd : Command}
    (hcalm : Calm c.scope.blocks [cmd]) {t : String} (h : (c.run (command · cmd)).1 = .ok t) :
    (t = "" ↔ cmd = .noop) ∧ AreLines c.scope.margin t ∧ Lined body c.scope cmd.actions cmd.lines t := by
  have lined := commandWith_lined bodiesLined_body htarget (hcalm.safe List.mem_cons_self)
  obtain ⟨hnoop, parts⟩ := lined.result t h
  exact ⟨hnoop, parts.areLines, parts⟩

/-- A tell that waits, with a text that has a line break in it, and hands over what is done then. -/
theorem command_lines_told :
    let blocks : List Block := [[.effect .wait [.string "a\nb", .block 1]], [.done]]
    let c : Context := ⟨(Scope.initial .standard).withBlocks blocks, .empty⟩
    let t := "  do --tell event.room to\n    local __actor = event.room\n    if __actor then\n" ++
      "      __pulp.__fn_wait(__self, __actor, event, __evname, function(__self, __actor, event, __evname)\n" ++
      "          do return end\n        end, \"a\\nb\")\n    end\n  end\n"
    Unbroken c.scope.target ∧ Calm c.scope.blocks [.tell .room 0] ∧
      (c.run (command · (.tell .room 0))).1 = .ok t ∧ t ≠ "" ∧ AreLines "  " t ∧
        Lined body c.scope [.enter .told 0] 4 t := by
  intro blocks c t
  have target : Unbroken c.scope.target := by decide
  have calm : Calm c.scope.blocks [.tell .room 0] := .of_all (by decide)
  have compiled : (c.run (command · (.tell .room 0))).1 = .ok t := by decide +kernel
  obtain ⟨empty, lines, lined⟩ := command_lines c target calm compiled
  have filled : t ≠ "" := fun h => nomatch empty.mp h
  exact ⟨target, calm, compiled, filled, lines, lined⟩

end Compile
end GameScript
