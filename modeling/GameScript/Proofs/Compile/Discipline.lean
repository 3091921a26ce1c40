import GameScript.Proofs.Compile.Body
import GameScript.Proofs.Compile.Threaded

/-! What a compile leaves of the context that it works on. Whatever is compiled and however it ends, the
scope is the one that was found, no function is left open or closed, and the ledger only grows. -/

namespace GameScript

open Compile Outcome

/-- What a compile leaves of a context: all that it may look at, and the candidates, are as they were,
and the rest of the ledger only grows. -/
structure Kept (c c' : Context) : Prop where
  options : c'.scope.options = c.scope.options
  indent : c'.scope.indent = c.scope.indent
  targets : c'.scope.targets = c.scope.targets
  blocks : c'.scope.blocks = c.scope.blocks
  tiles : c'.scope.tiles = c.scope.tiles
  candidates : c'.ledger.candidates = c.ledger.candidates
  ledger : c.ledger.Grows c'.ledger

/-- The log of a body changes a context as little as that. -/
theorem Kept.record (c : Context) {log : List Entry} (h : ∀ e ∈ log, e.OfBody) :
    Kept c (c.record log) := by
  refine ⟨rfl, rfl, rfl, rfl, rfl, ?_, c.ledger.grows_recordAll log⟩
  have none : log.filterMap Entry.candidate? = [] := filterMap_candidate?_eq_nil fun c hc => h _ hc
  rw [Context.record, Ledger.candidates_recordAll, none, List.append_nil]

/-- A compile on a context is what the outcomes in its scope say, and keeps the context. -/
structure Balanced (c : Context) (x : Threaded String) (f : Scope → Outcome String) : Prop where
  run : x.exec c = c.run f
  kept : Kept c (x.exec c).2

theorem Threaded.Carries.balanced {c : Context} {x : Threaded String} {f : Scope → Outcome String}
    (h : Carries c.scope x (f c.scope)) (hlog : Records Entry.OfBody (f c.scope)) :
    Balanced c x f := by
  have run : x.exec c = c.run f := h c rfl
  refine ⟨run, ?_⟩
  rw [run]
  exact .record c hlog

namespace Compile

theorem body_records (s : Scope) (isFunction : Bool) (index : Nat) :
    Records Entry.OfBody (body s isFunction index) := bodyWithin_records _ s isFunction index

/-- Whether it succeeds or fails, compiling a command, a block, an expression or a call on a context takes
back every change of indentation, dispatch target and open function that it made on the way, and only adds
to the ledger. -/
theorem context_kept (c : Context) :
    (∀ x, Balanced c (Threaded.command x) fun s => command s x) ∧
    (∀ isFunction cs, Balanced c (Threaded.block isFunction cs) fun s => block s isFunction cs) ∧
    (∀ e, Balanced c (Threaded.expr e) fun s => expr s e) ∧
    ∀ kind op args, Balanced c (Threaded.callOf kind op args) fun s => callOf s kind op args := by
  refine ⟨fun x => ?_, fun isFunction cs => ?_, fun e => ?_, fun kind op args => ?_⟩
  · exact (Threaded.command_carries x).balanced ((commandWith_performs x).records body_records)
  · exact (Threaded.block_carries isFunction cs).balanced
      (blockWith_records body_records isFunction cs)
  · exact (Threaded.expr_carries e).balanced ((expression_performs e).records body_records)
  · exact (Threaded.callOf_carries kind op args).balanced
      (((arguments_performs args).map _).records body_records)

end Compile
end GameScript
