import GameScript.Proofs.Lua.Token
import GameScript.Proofs.Mimic.Folding

/-! The handlers that a unit defines. The scripts of a game become statements, which make a script known or give
it the handler of an event. The events that the registry knows, the handlers that are emitted, and the handlers
that the folded mimics read are the same. -/

namespace GameScript

open Lua

namespace Compile

/-- A statement of the part of a unit that holds the scripts. -/
inductive Statement where
  /-- Makes a script known under a name. -/
  | newScript (name : String) (key : ScriptKey)
  /-- Gives a script the handler of an event. -/
  | handler (script event body : String)
deriving DecidableEq, Repr

namespace Statement

def text : Statement → String
  | newScript name key => registration name key
  | handler script event body =>
      s!"\n{field (scriptObject script) event} = function({handlerParameters})\n{body}end\n"

/-- The slot that a handler is put into. -/
def slot? : Statement → Option Mimic.Slot
  | newScript _ _ => none
  | handler script event _ => some (script, event)

end Statement

/-- The handler of an event. -/
def eventStatement (s : Scope) (script : String) (e : String × Nat) : Outcome Statement := do
  let cs ← Outcome.ofExcept (s.blockAt e.2)
  let body ← body (s.withTarget (scriptObject script)) true e.2
  match pureMimic? s cs with
  | some tile => Outcome.entry (.candidate ⟨script, e.1, tile⟩)
  | none => pure ()
  return .handler script e.1 body

/-- A script that has a name: it is made known and gets its handlers. -/
def scriptStatements (r : Registry) (s : Scope) (x : Script) : Outcome (List Statement) :=
  match r.nameOf? x.key with
  | none => return []
  | some name => do
      let handlers ← x.events.mapM (eventStatement (s.withBlocks x.blocks) name)
      return .newScript name x.key :: handlers

/-- All scripts of a game that are the first ones of their key. -/
def statements (r : Registry) (s : Scope) (xs : List Script) : Outcome (List Statement) := do
  let sts ← (firstScripts [] xs).mapM (scriptStatements r s)
  return sts.flatten

variable {r : Registry} {s : Scope}

theorem event_eq (script : String) (e : String × Nat) :
    (fun t => s!"\n{t}") <$> event s script e.1 e.2 = Statement.text <$> eventStatement s script e := by
  rw [event, eventStatement, map_bind, map_bind]
  refine bind_congr fun cs => ?_
  rw [map_bind, map_bind]
  refine bind_congr fun body => ?_
  cases pureMimic? s cs <;> rfl

theorem events_eq (script : String) : (es : List (String × Nat)) → events s script es =
    (fun sts => join (sts.map Statement.text)) <$> es.mapM (eventStatement s script)
  | [] => rfl
  | (name, index) :: es => by
    have first : events s script ((name, index) :: es) =
        ((fun t => s!"\n{t}") <$> event s script name index) >>= fun t =>
          (fun ts => t ++ ts) <$> events s script es := by
      rw [bind_map_left]
      rfl
    rw [first, event_eq script (name, index), bind_map_left, events_eq script es, List.mapM_cons, map_bind]
    refine bind_congr fun st => ?_
    rw [map_bind, Functor.map_map]
    rfl

theorem script_eq (x : Script) : script r s x =
    (fun sts => join (sts.map Statement.text)) <$> scriptStatements r s x := by
  rw [script, scriptStatements]
  cases r.nameOf? x.key with
  | none => rfl
  | some name =>
    dsimp only
    rw [events_eq, bind_map_left, map_bind]
    rfl

theorem scriptList_eq : (xs : List Script) → scriptList r s xs =
    (fun sts => join (sts.flatten.map Statement.text)) <$> xs.mapM (scriptStatements r s)
  | [] => rfl
  | x :: xs => by
    have first : scriptList r s (x :: xs) =
        script r s x >>= fun t => (fun ts => t ++ ts) <$> scriptList r s xs := rfl
    rw [first, script_eq, bind_map_left, scriptList_eq xs, List.mapM_cons, map_bind]
    refine bind_congr fun sts => ?_
    have split (rest : List (List Statement)) : join (((sts :: rest).flatten).map Statement.text) =
        join (sts.map Statement.text) ++ join (rest.flatten.map Statement.text) := by
      rw [List.flatten_cons, List.map_append, join_append]
    simp only [split, Functor.map_map, bind_pure_comp]

/-- The scripts of a unit are its statements one after the other. -/
theorem scripts_eq (xs : List Script) :
    scripts r s xs = (fun sts => join (sts.map Statement.text)) <$> statements r s xs := by
  rw [scripts, scriptList_eq, statements, map_bind]
  rfl

/-! ### The handlers among the statements -/

theorem eventStatement_eq_ok {script : String} {e : String × Nat} {st : Statement}
    (h : (eventStatement s script e).result = .ok st) :
    ∃ body, (Compile.body (s.withTarget (scriptObject script)) true e.2).result = .ok body ∧
      st = .handler script e.1 body := by
  obtain ⟨cs, -, h⟩ := Outcome.result_bind_eq_ok_iff.mp h
  obtain ⟨body, hbody, h⟩ := Outcome.result_bind_eq_ok_iff.mp h
  refine ⟨body, hbody, ?_⟩
  cases hmimic : pureMimic? s cs with
  | none =>
    rw [hmimic] at h
    cases h
    rfl
  | some tile =>
    rw [hmimic] at h
    cases h
    rfl

theorem slots_of_mapM {script : String} : {es : List (String × Nat)} → {sts : List Statement} →
    (es.mapM (eventStatement s script)).result = .ok sts →
      sts.map Statement.slot? = es.map fun e => some (script, e.1)
  | [], _, h => by
    cases h
    rfl
  | e :: es, sts, h => by
    rw [List.mapM_cons] at h
    obtain ⟨st, hst, h⟩ := Outcome.result_bind_eq_ok_iff.mp h
    obtain ⟨rest, hrest, h⟩ := Outcome.result_bind_eq_ok_iff.mp h
    cases h
    obtain ⟨body, -, rfl⟩ := eventStatement_eq_ok hst
    rw [List.map_cons, slots_of_mapM hrest]
    rfl

/-- Statements for scripts with names: they hold a handler for every event of the scripts, in order, and each of
them comes after its script is known. -/
structure Lists (named : List (Script × String)) (sts : List Statement) : Prop where
  slots : sts.filterMap Statement.slot? = named.flatMap fun p => p.1.events.map fun e => (p.2, e.1)
  known : ∀ name event body, .handler name event body ∈ sts →
    ∃ x, (x, name) ∈ named ∧ [.newScript name x.key, .handler name event body].Sublist sts

namespace Lists

theorem nil : Lists [] [] := ⟨rfl, fun _ _ _ h => nomatch h⟩

theorem append {named named' : List (Script × String)} {sts sts' : List Statement}
    (h : Lists named sts) (h' : Lists named' sts') : Lists (named ++ named') (sts ++ sts') := by
  refine ⟨by rw [List.filterMap_append, h.slots, h'.slots, List.flatMap_append], ?_⟩
  intro name event body hmem
  rcases List.mem_append.mp hmem with hmem | hmem
  · obtain ⟨x, hx, hknown⟩ := h.known name event body hmem
    exact ⟨x, List.mem_append_left _ hx, hknown.trans (List.sublist_append_left _ _)⟩
  · obtain ⟨x, hx, hknown⟩ := h'.known name event body hmem
    exact ⟨x, List.mem_append_right _ hx, hknown.trans (List.sublist_append_right _ _)⟩

theorem script {x : Script} {name : String} {sts : List Statement} (hname : r.nameOf? x.key = some name)
    (h : (scriptStatements r s x).result = .ok sts) : Lists [(x, name)] sts := by
  rw [scriptStatements, hname] at h
  obtain ⟨handlers, hhandlers, h⟩ := Outcome.result_bind_eq_ok_iff.mp h
  cases h
  have hslots := slots_of_mapM hhandlers
  have own : ∀ st ∈ handlers, ∃ event, st.slot? = some (name, event) := by
    intro st hst
    have := List.mem_map_of_mem (f := Statement.slot?) hst
    rw [hslots] at this
    obtain ⟨e, -, he⟩ := List.mem_map.mp this
    exact ⟨e.1, he.symm⟩
  refine ⟨?_, fun name' event body hmem => ?_⟩
  · have slots : handlers.filterMap Statement.slot? = x.events.map fun e => (name, e.1) := by
      have := congrArg (List.filterMap id) hslots
      rwa [List.filterMap_map, List.filterMap_map, Function.id_comp, Function.id_comp,
        List.filterMap_eq_map'] at this
    rw [List.flatMap_singleton, ← slots]
    rfl
  · have hhandler : .handler name' event body ∈ handlers := (List.mem_cons.mp hmem).resolve_left nofun
    obtain ⟨_, hslot⟩ := own _ hhandler
    obtain rfl : name' = name := congrArg Prod.fst (Option.some.inj hslot)
    exact ⟨x, List.mem_cons_self, (List.singleton_sublist.mpr hhandler).cons_cons _⟩

theorem scripts : {named : List (Script × String)} → (∀ p ∈ named, r.nameOf? p.1.key = some p.2) →
    {lists : List (List Statement)} →
    ((named.map Prod.fst).mapM (scriptStatements r s)).result = .ok lists → Lists named lists.flatten
  | [], _, _, h => by
    cases h
    exact nil
  | (x, name) :: named, hnames, lists, h => by
    obtain ⟨hname, hnames⟩ := List.forall_mem_cons.mp hnames
    rw [List.map_cons, List.mapM_cons] at h
    obtain ⟨sts, hsts, h⟩ := Outcome.result_bind_eq_ok_iff.mp h
    obtain ⟨rest, hrest, h⟩ := Outcome.result_bind_eq_ok_iff.mp h
    cases h
    exact (script hname hsts).append (scripts hnames hrest)

end Lists

end Compile

namespace Mimic

theorem toList_slotText (slot : Mimic.Slot) : (slotText slot).toList =
    "__pulp:getScript(".toList ++ ((quote slot.1).toList ++ (")".toList ++ access slot.2)) := by
  have object : Compile.scriptObject slot.1 = "__pulp:getScript(" ++ quote slot.1 ++ ")" := rfl
  rw [slotText, toList_field, object]
  simp only [String.toList_append, List.append_assoc]

/-- Different slots have different texts. -/
theorem slotText_injective : Function.Injective slotText := by
  intro slot slot' h
  have h := congrArg String.toList h
  rw [toList_slotText, toList_slotText] at h
  -- what the fixed parts are is of no matter
  generalize "__pulp:getScript(".toList = object, ")".toList = closer at h
  obtain ⟨hname, h⟩ := quote_cancel (List.append_cancel_left h)
  exact Prod.ext hname (access_injective (List.append_cancel_left h))

variable {r : Registry} {cs : List Candidate} {s : Slots}

/-- Folding only writes handlers that the scripts define. -/
theorem Folded.defines (hs : Folded r cs s) {a : Slot × Binding} (ha : a ∈ s.written) :
    r.defines a.2.1 a.2.2 = true := by
  have hget : s.get? a.1.1 a.1.2 = some a.2 := by
    rw [hs.slots, Table.get?_of_mem hs.once ha]
    rfl
  have hdefined := (hs.passes hget).defined
  rw [defined] at hdefined
  split_ifs at hdefined with h
  exact h

end Mimic

namespace Game

variable {g : Game} {options : Options} {name event : String}

/-- The slots of the handlers of a game: the events of the named scripts. -/
def slots (g : Game) : List Mimic.Slot := g.named.flatMap fun p => p.1.events.map fun e => (p.2, e.1)

/-- Where every script has each event once, no slot is given two handlers. -/
theorem nodup_slots (h : ∀ x ∈ g.scripts, (x.events.map Prod.fst).Nodup) : g.slots.Nodup := by
  rw [slots, List.nodup_flatMap]
  refine ⟨fun p hp => ?_, ?_⟩
  · have hx := mem_of_mem_firstScripts (mem_firstScripts_of_mem_named hp)
    have := (h p.1 hx).map (f := fun event => (p.2, event)) fun _ _ heq => (Prod.mk.inj heq).2
    rwa [List.map_map] at this
  · have names : g.named.Pairwise fun p q => p.2 ≠ q.2 :=
      List.pairwise_map.mp (Registry.nodup_naming _ _)
    refine names.imp fun hne => List.disjoint_left.mpr fun slot hp hq => hne ?_
    obtain ⟨e, -, rfl⟩ := List.mem_map.mp hp
    obtain ⟨e', -, heq⟩ := List.mem_map.mp hq
    exact (Prod.mk.inj heq).1.symm

/-- The statements of a game's scripts hold the handlers of its slots, each behind the statement that makes its
script known. -/
theorem lists_of_statements {s : Scope} {sts : List Compile.Statement}
    (h : (Compile.statements (Registry.ofNamed g.named) s g.scripts).result = .ok sts) :
    Compile.Lists g.named sts := by
  obtain ⟨lists, hlists, h⟩ := Outcome.result_bind_eq_ok_iff.mp h
  cases h
  rw [← map_fst_named] at hlists
  exact .scripts (fun p hp => Registry.nameOf?_eq_some_iff.mpr ⟨p.1, hp, rfl⟩) hlists

theorem exists_product {text : String} {options : Options}
    (h : ((Game.load text).toOption.bind fun g => (g.compile options).toOption).isSome = true) :
    ∃ g product, Game.load text = .ok g ∧ g.compile options = .ok product := by
  cases hg : Game.load text with
  | error e =>
    rw [hg] at h
    cases h
  | ok g =>
    rw [hg] at h
    change (g.compile options).toOption.isSome = true at h
    cases hproduct : g.compile options with
    | error e =>
      rw [hproduct] at h
      cases h
    | ok product => exact ⟨g, product, rfl, hproduct⟩

end Game
end GameScript
