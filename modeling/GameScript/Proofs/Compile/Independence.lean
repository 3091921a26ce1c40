import GameScript.Proofs.Compile.Failure
import GameScript.Proofs.Mimic.Candidates
import GameScript.Proofs.Compile.Threaded

/-! Compiling does not depend on what was compiled before. From two contexts with the same scope, however
different their ledgers are, a compile gives the same result and adds the same to both; scripts that are
compiled one after the other only leave each other their blocks, which are replaced. Hence the order of a
game's scripts changes neither the text of a script nor how often a variable is used. -/

namespace GameScript

open Compile Lua

/-! ### Scripts on a context -/

namespace Threaded

def event (script event : String) (index : Nat) : Threaded String := do
  let s ← scope
  let cs ← MonadExcept.ofExcept (s.blockAt index)
  let body ← withTarget (scriptObject script) (body true index)
  match pureMimic? s cs with
  | some tile => entry (.candidate ⟨script, event, tile⟩)
  | none => pure ()
  return s!"{field (scriptObject script) event} = function({handlerParameters})\n{body}end\n"

def events (script : String) : List (String × Nat) → Threaded String
  | [] => return ""
  | (name, index) :: rest => do
      let t ← event script name index
      let ts ← events script rest
      return s!"\n{t}{ts}"

/-- A script, whose blocks replace those of the script before it. -/
def script (r : Registry) (x : Script) : Threaded String :=
  match r.nameOf? x.key with
  | none => return ""
  | some name => do
      modify fun c => { c with scope := c.scope.withBlocks x.blocks }
      let t ← events name x.events
      return registration name x.key ++ t

variable {s : Scope}

theorem Carries.ofExcept {α : Type} (result : Except CompileError α) :
    Carries s (MonadExcept.ofExcept result) (Outcome.ofExcept result) := by
  cases result with
  | error e => exact .fail e
  | ok a => exact .pure a

theorem event_carries (script name : String) (index : Nat) :
    Carries s (event script name index) (Compile.event s script name index) := by
  refine .read <| (Carries.ofExcept _).bind fun cs =>
    (body_carry _ true index).withTarget.bind fun t => ?_
  simp only
  cases pureMimic? s cs with
  | none => exact .pure _
  | some tile => exact (Carries.entry _).bind fun _ => .pure _

theorem events_carries (script : String) : (es : List (String × Nat)) →
    Carries s (events script es) (Compile.events s script es)
  | [] => .pure _
  | (name, index) :: es => (event_carries script name index).bind fun _ =>
      (events_carries script es).bind fun _ => .pure _

/-- A script gives the result and records the log of its outcome, and leaves its blocks behind. -/
theorem exec_script (r : Registry) (x : Script) (c : Context) : ∃ blocks,
    (script r x).exec c = ((Compile.script r c.scope x).result,
      { c.record (Compile.script r c.scope x).log with scope := c.scope.withBlocks blocks }) := by
  rw [script, Compile.script]
  cases hname : r.nameOf? x.key with
  | none => exact ⟨c.scope.blocks, rfl⟩
  | some name =>
    exact ⟨x.blocks, ((events_carries name x.events).bind fun _ => .pure _)
      { c with scope := c.scope.withBlocks x.blocks } rfl⟩

end Threaded

/-! ### Two contexts -/

/-- From two contexts a compile gives the same result, counts the same uses of every variable, and adds
the same candidates. -/
structure Alike (c c' : Context) (x : Threaded String) : Prop where
  result : (x.exec c).1 = (x.exec c').1
  uses : ∀ v, ∃ n, (x.exec c).2.ledger.uses v = c.ledger.uses v + n ∧
    (x.exec c').2.ledger.uses v = c'.ledger.uses v + n
  candidates : ∃ cs, (x.exec c).2.ledger.candidates = c.ledger.candidates ++ cs ∧
    (x.exec c').2.ledger.candidates = c'.ledger.candidates ++ cs

/-- What records the same log in both contexts is alike. -/
theorem Alike.of_log {c c' d d' : Context} {x : Threaded String}
    {result : Except CompileError String} {log : List Entry} (h : x.exec c = (result, d))
    (hd : d.ledger = c.ledger.recordAll log) (h' : x.exec c' = (result, d'))
    (hd' : d'.ledger = c'.ledger.recordAll log) : Alike c c' x := by
  refine ⟨by rw [h, h'], fun v => ⟨log.count (.use v), ?_⟩, log.filterMap Entry.candidate?, ?_⟩
  · rw [h, h', hd, hd']
    exact ⟨Ledger.uses_recordAll v log _, Ledger.uses_recordAll v log _⟩
  · rw [h, h', hd, hd']
    exact ⟨Ledger.candidates_recordAll _ log, Ledger.candidates_recordAll _ log⟩

theorem Threaded.Carries.alike {c c' : Context} {x : Threaded String} {y : Outcome String}
    (hx : Carries c.scope x y) (h : c.scope = c'.scope) : Alike c c' x :=
  .of_log (hx c rfl) rfl (hx c' h.symm) rfl

/-! ### The order of scripts -/

theorem firstScripts_perm {xs ys : List Script}
    (h : ∀ x, x ∈ firstScripts [] xs ↔ x ∈ firstScripts [] ys) :
    (firstScripts [] xs).Perm (firstScripts [] ys) :=
  (List.perm_ext_iff_of_nodup (nodup_keys_firstScripts [] xs).of_map
    (nodup_keys_firstScripts [] ys).of_map).mpr h

namespace Compile

variable {r r' : Registry} {s s' : Scope}

/-- A script looks at the registry for its own name only, and at none of the blocks that it finds. -/
theorem script_congr {x : Script} (hname : r.nameOf? x.key = r'.nameOf? x.key)
    (hscope : s.withBlocks x.blocks = s'.withBlocks x.blocks) : script r s x = script r' s' x := by
  rw [script, script, hname, hscope]

theorem script_eq_ok_of_scriptList : {xs : List Script} → {t : String} →
    (scriptList r s xs).result = .ok t → ∀ x ∈ xs, ∃ t, (script r s x).result = .ok t
  | [], _, _ => by simp
  | x :: xs, _, h => by
    obtain ⟨t, hx, h⟩ := Outcome.result_bind_eq_ok_iff.mp h
    obtain ⟨ts, hxs, -⟩ := Outcome.result_bind_eq_ok_iff.mp h
    exact List.forall_mem_cons.mpr ⟨⟨t, hx⟩, script_eq_ok_of_scriptList hxs⟩

/-- Scripts that all compile become their texts one after the other. -/
theorem scriptList_of_ok {emitted : Script → String} : {xs : List Script} →
    (∀ x ∈ xs, (script r s x).result = .ok (emitted x)) →
      scriptList r s xs = ⟨xs.flatMap fun x => (script r s x).log, .ok (join (xs.map emitted))⟩
  | [], _ => rfl
  | x :: xs, h => by
    obtain ⟨hx, hxs⟩ := List.forall_mem_cons.mp h
    rw [scriptList, Outcome.bind_of_ok hx, scriptList_of_ok hxs]
    simp [join]

end Compile

namespace Game

variable {g g' : Game} {options : Options} {r : Registry} {v : String}

theorem exists_tileTable (g : Game) (atlas : Atlas) :
    ∃ tiles, (Assembly.tileTable g atlas).result = .ok tiles := by
  cases h : (Assembly.tileTable g atlas).result with
  | error e => exact absurd h (Assembly.tileTable_succeeds g atlas e)
  | ok tiles => exact ⟨tiles, rfl⟩

theorem exists_registry (g : Game) : ∃ r, (Registry.build g).result = .ok r :=
  ⟨_, Registry.build_result g⟩

/-- Only the scripts of a game can fail. -/
theorem outcome_eq {tiles : String}
    (htiles : (Assembly.tileTable g (Atlas.build g.frames)).result = .ok tiles)
    (hr : (Registry.build g).result = .ok r) :
    let compiled := Compile.scripts r (Assembly.tileScope options g) g.scripts
    g.outcome options = ⟨(Assembly.tileTable g (Atlas.build g.frames)).log ++
        ((Registry.build g).log ++ compiled.log), compiled.result.map fun t => ⟨tiles, r, t⟩⟩ := by
  rw [outcome, Assembly.parts, Outcome.bind_of_ok htiles, Outcome.bind_of_ok hr]
  cases h : (Compile.scripts r (Assembly.tileScope options g) g.scripts).result with
  | error e =>
    rw [Outcome.bind_of_error h]
    simp [h, Except.map]
  | ok t =>
    rw [Outcome.bind_of_ok h]
    simp [h, Except.map]

/-- The variables of a game are those that its scripts use. -/
theorem uses_ledger (hr : (Registry.build g).result = .ok r) : (g.ledger options).uses v =
    (Compile.scripts r (Assembly.tileScope options g) g.scripts).log.count (.use v) := by
  obtain ⟨tiles, htiles⟩ := exists_tileTable g (Atlas.build g.frames)
  have noTile : .use v ∉ (Assembly.tileTable g (Atlas.build g.frames)).log :=
    fun h => Assembly.tileTable_records g _ _ h
  have noName : .use v ∉ (Registry.build g).log := fun h => Registry.build_records g _ h
  rw [ledger, Ledger.uses_recordAll, outcome_eq htiles hr, List.count_append, List.count_append,
    List.count_eq_zero.mpr noTile, List.count_eq_zero.mpr noName, Nat.zero_add, Nat.zero_add]
  exact Nat.zero_add _

/-- The same game with its scripts in another order, in which every script keeps its name and the same
script comes first for every kind and id. -/
structure Reordered (g g' : Game) : Prop where
  rest : g' = { g with scripts := g'.scripts }
  scripts : g'.scripts.Perm g.scripts
  names : ∀ r r', (Registry.build g).result = .ok r → (Registry.build g').result = .ok r' →
    ∀ key, r'.nameOf? key = r.nameOf? key
  first : ∀ x, x ∈ firstScripts [] g'.scripts ↔ x ∈ firstScripts [] g.scripts

/-- The texts that the scripts of a game come to, one after the other, in what it is compiled to. -/
structure Emits (options : Options) (g : Game) (product : Product) (emitted : Script → String) :
    Prop where
  compiled : g.compile options = .ok product
  text : ∃ p, (g.outcome options).result = .ok p ∧
    product.text = Assembly.unitText options g p (g.ledger options) ∧
    p.scripts = join ((firstScripts [] g.scripts).map emitted) ∧
    ∀ x ∈ firstScripts [] g.scripts,
      (script p.registry (Assembly.tileScope options g) x).result = .ok (emitted x)

theorem emits_of_each {emitted : Script → String} (hr : (Registry.build g).result = .ok r)
    (each : ∀ x ∈ firstScripts [] g.scripts,
      (script r (Assembly.tileScope options g) x).result = .ok (emitted x)) :
    ∃ product, g.Emits options product emitted := by
  obtain ⟨tiles, htiles⟩ := exists_tileTable g (Atlas.build g.frames)
  have hp : (g.outcome options).result =
      .ok ⟨tiles, r, join ((firstScripts [] g.scripts).map emitted)⟩ := by
    rw [outcome_eq htiles hr, Compile.scripts, scriptList_of_ok each]
    rfl
  have compiled := compile_eq options g
  rw [hp] at compiled
  exact ⟨_, compiled, _, hp, rfl, rfl, each⟩

/-- A game that compiles emits the texts of its scripts. -/
theorem exists_emits {product : Product} (h : g.compile options = .ok product)
    (hr : (Registry.build g).result = .ok r) : ∃ emitted, g.Emits options product emitted ∧
      ∀ x ∈ firstScripts [] g.scripts,
        (script r (Assembly.tileScope options g) x).result = .ok (emitted x) := by
  obtain ⟨p, hp⟩ := outcome_of_compile h
  obtain rfl : p.registry = r := Except.ok.inj ((registry_of_outcome hp).symm.trans hr)
  have compiles := script_eq_ok_of_scriptList (scripts_of_outcome hp)
  have each : ∀ x ∈ firstScripts [] g.scripts,
      (script p.registry (Assembly.tileScope options g) x).result =
        .ok ((script p.registry (Assembly.tileScope options g) x).result.toOption.getD "") := by
    intro x hx
    obtain ⟨t, ht⟩ := compiles x hx
    rw [ht]
    rfl
  obtain ⟨product', emits⟩ := emits_of_each hr each
  obtain rfl : product' = product := Except.ok.inj (emits.compiled.symm.trans h)
  exact ⟨_, emits, each⟩

/-- Scripts that keep their names come to the same texts in another order, and to as many uses. -/
theorem Reordered.emits (h : Reordered g g') {emitted : Script → String}
    (hr : (Registry.build g).result = .ok r) (each : ∀ x ∈ firstScripts [] g.scripts,
      (script r (Assembly.tileScope options g) x).result = .ok (emitted x)) :
    (∃ product', g'.Emits options product' emitted) ∧
      ∀ v, (g'.ledger options).uses v = (g.ledger options).uses v := by
  obtain ⟨r', hr'⟩ := exists_registry g'
  have scope : Assembly.tileScope options g' = Assembly.tileScope options g := by
    rw [h.rest]
    rfl
  have same : ∀ x, script r' (Assembly.tileScope options g') x =
      script r (Assembly.tileScope options g) x :=
    fun x => script_congr (h.names r r' hr hr' x.key) (by rw [scope])
  have each' : ∀ x ∈ firstScripts [] g'.scripts,
      (script r' (Assembly.tileScope options g') x).result = .ok (emitted x) := by
    intro x hx
    rw [same]
    exact each x ((h.first x).mp hx)
  refine ⟨emits_of_each hr' each', fun v => ?_⟩
  rw [uses_ledger hr', uses_ledger hr, Compile.scripts, Compile.scripts, scriptList_of_ok each',
    scriptList_of_ok each]
  simp only [same]
  exact ((firstScripts_perm h.first).flatMap_right _).count_eq _

end Game

/-- Whatever two contexts have recorded, if they agree in what a compile may look at, commands, blocks,
expressions and calls give the same in both, and so do scripts, which bring their own blocks. So a game that
compiles does so with its scripts in another order: every script comes to the same text, and every variable
is used as often. -/
theorem compile_independent :
    (∀ c c' : Context, c.scope = c'.scope →
      (∀ x, Alike c c' (Threaded.command x)) ∧
      (∀ isFunction cs, Alike c c' (Threaded.block isFunction cs)) ∧
      (∀ e, Alike c c' (Threaded.expr e)) ∧
      ∀ kind op args, Alike c c' (Threaded.callOf kind op args)) ∧
    (∀ (r : Registry) (x : Script) (c c' : Context),
      c.scope.withBlocks x.blocks = c'.scope.withBlocks x.blocks → Alike c c' (Threaded.script r x)) ∧
    ∀ (options : Options) (g g' : Game) (product : Product), g.compile options = .ok product →
      g.Reordered g' → ∃ product' emitted, g.Emits options product emitted ∧
        g'.Emits options product' emitted ∧
        ∀ v, (g'.ledger options).uses v = (g.ledger options).uses v := by
  refine ⟨fun c c' h => ⟨fun x => ?_, fun isFunction cs => ?_, fun e => ?_, fun kind op args => ?_⟩,
    fun r x c c' h => ?_, fun options g g' product h reordered => ?_⟩
  · exact (Threaded.command_carries x).alike h
  · exact (Threaded.block_carries isFunction cs).alike h
  · exact (Threaded.expr_carries e).alike h
  · exact (Threaded.callOf_carries kind op args).alike h
  · obtain ⟨blocks, hc⟩ := Threaded.exec_script r x c
    obtain ⟨blocks', hc'⟩ := Threaded.exec_script r x c'
    rw [← script_congr rfl h] at hc'
    exact .of_log hc rfl hc' rfl
  · obtain ⟨r, hr⟩ := Game.exists_registry g
    obtain ⟨emitted, emits, each⟩ := Game.exists_emits h hr
    obtain ⟨⟨product', emits'⟩, uses⟩ := reordered.emits hr each
    exact ⟨product', emitted, emits, emits', uses⟩

/-- A script that comes before another one or after it, and one that is left out in either order. -/
theorem compile_independent_swapped :
    let x : Script := ⟨.global, 0, [("load", 0)], [[.increment "score", .call (.read "next")]]⟩
    let y : Script := ⟨.global, 1, [("any", 0)], [[.assign "next" .set (.read "score")]]⟩
    let g : Game := { (default : Game) with scripts := [x, y, { x with events := [] }] }
    let g' : Game := { g with scripts := [y, x, { x with events := [] }] }
    ∃ product product' emitted, g.compile .standard = .ok product ∧ g.Reordered g' ∧
      g.Emits .standard product emitted ∧ g'.Emits .standard product' emitted ∧
      ∀ v, (g'.ledger .standard).uses v = (g.ledger .standard).uses v := by
  intro x y g g'
  have compiles : (g.compile .standard).toOption.isSome = true := by decide +kernel
  have registry : (Registry.build g).result = .ok ⟨[((.global, 0), "game"),
      ((.global, 1), "__UNKNOWN_SCRIPT_0_1")],
      [("game", ["load"]), ("__UNKNOWN_SCRIPT_0_1", ["any"])]⟩ := by decide +kernel
  have registry' : (Registry.build g').result = .ok ⟨[((.global, 1), "__UNKNOWN_SCRIPT_0_1"),
      ((.global, 0), "game")],
      [("__UNKNOWN_SCRIPT_0_1", ["any"]), ("game", ["load"])]⟩ := by decide +kernel
  have reordered : g.Reordered g' := by
    refine ⟨rfl, List.Perm.swap _ _ _, ?_, fun z => ?_⟩
    · intro r r' hr hr' key
      obtain rfl := Except.ok.inj (registry.symm.trans hr)
      obtain rfl := Except.ok.inj (registry'.symm.trans hr')
      simp only [Registry.nameOf?, Table.get?]
      split_ifs with h h' h'
      · rw [← h] at h'
        cases h'
      · rfl
      · rfl
      · rfl
    · change z ∈ [y, x] ↔ z ∈ [x, y]
      simp [or_comm]
  cases h : g.compile .standard with
  | error e =>
    rw [h] at compiles
    cases compiles
  | ok product =>
    obtain ⟨product', emitted, emits, emits', uses⟩ :=
      compile_independent.2.2 .standard g g' product h reordered
    exact ⟨product, product', emitted, rfl, reordered, emits, emits', uses⟩

end GameScript
