import GameScript.Proofs.Lua.Semantics

/-! What the statements of a function write. A traced run is a run that also lists its writes in order, so
without the list it is the run itself. A function that calls no other one changes the store by its writes and
by nothing else. -/

namespace GameScript
namespace Lua

/-- A value that is put in a storage. -/
abbrev Write := Storage × Value

abbrev Traced := List Write × Flow × Store

/-- What goes on after a part that gave no value, with the writes of both. -/
def Traced.andThen : Traced → (Activation → Store → Option Traced) → Option Traced
  | (ws, .next frame, σ), rest => (rest frame σ).map fun t => (ws ++ t.1, t.2)
  | (ws, .gave value, σ), _ => some (ws, .gave value, σ)

def repeatedTraced (body : Nat → Activation → Store → Option Traced) :
    Nat → Nat → Activation → Store → Option Traced
  | 0, _, frame, σ => some ([], .next frame, σ)
  | n + 1, i, frame, σ => do
      let t ← body i frame σ
      t.andThen (repeatedTraced body n (i + 1))

def Stat.traced (call : Caller) (scope : List String) : Stat → Activation → Store → Option Traced
  | .bind x value, frame, σ => do
      let (v, σ) ← value.eval call scope frame σ
      return ([], .next ((x, v) :: frame), σ)
  | .assign target value, frame, σ => do
      let (storage, σ) ← target.storage call scope frame σ
      let (v, σ) ← value.eval call scope frame σ
      let (frame, σ) := σ.write frame v storage
      return ([(storage, v)], .next frame, σ)
  | .when condition body, frame, σ => do
      let (c, σ) ← condition.eval call scope frame σ
      if c.holds then
        let (ws, flow, σ) ← body.traced call scope frame σ
        return (ws, flow.leave frame.length, σ)
      else return ([], .next frame, σ)
  | .give value, frame, σ => do
      let (v, σ) ← value.eval call scope frame σ
      return ([], .gave v, σ)
  | .count x last body, frame, σ => do
      let (v, σ) ← last.eval call scope frame σ
      match v with
      | .number n => repeatedTraced (fun i frame σ => do
          let (ws, flow, σ) ← body.traced call scope ((x, .number i) :: frame) σ
          return (ws, flow.leave frame.length, σ)) n 1 frame σ
      | _ => none

def Stat.tracedAll (call : Caller) (scope : List String) :
    List Stat → Activation → Store → Option Traced
  | [], frame, σ => some ([], .next frame, σ)
  | s :: ss, frame, σ => do
      let t ← s.traced call scope frame σ
      t.andThen (Stat.tracedAll call scope ss)

/-- What a call gives and writes that runs no other function. -/
def tracedCall : Value → List Value → Store → Option (List Write × Value × Store)
  | .function address, args, σ => do
      let c ← σ.functions address
      let (ws, flow, σ) ← Stat.tracedAll (callWithin 0) c.scope c.code.body (c.code.activation args) σ
      match flow with
      | .next _ => return (ws, .nil, σ)
      | .gave value => return (ws, value, σ)
  | _, _, _ => none

/-! ### Without the writes -/

section

variable (call : Caller) (scope : List String)

theorem repeatedTraced_run {traced : Nat → Activation → Store → Option Traced}
    {body : Nat → Activation → Store → Option (Flow × Store)}
    (h : ∀ i frame σ, (traced i frame σ).map Prod.snd = body i frame σ) (n i : Nat)
    (frame : Activation) (σ : Store) :
    (repeatedTraced traced n i frame σ).map Prod.snd = repeated body n i frame σ := by
  induction n generalizing i frame σ with
  | zero => rfl
  | succ n ih =>
    rw [repeatedTraced, repeated, ← h]
    obtain _ | ⟨ws, flow, σ'⟩ := traced i frame σ
    · rfl
    · cases flow with
      | next frame' => simp [Traced.andThen, Function.comp_def, ← ih]
      | gave value => rfl

theorem Stat.traced_run (s : Stat) (frame : Activation) (σ : Store) :
    (s.traced call scope frame σ).map Prod.snd = s.exec call scope frame σ := by
  induction s generalizing frame σ with
  | bind x value =>
    rw [traced, exec]
    cases value.eval call scope frame σ <;> rfl
  | assign target value =>
    rw [traced, exec]
    obtain _ | ⟨storage, σ⟩ := target.storage call scope frame σ
    · rfl
    · simp only [Option.bind_eq_bind, Option.bind_some]
      cases value.eval call scope frame σ <;> rfl
  | when condition body ih =>
    rw [traced, exec]
    obtain _ | ⟨c, σ⟩ := condition.eval call scope frame σ
    · rfl
    · simp only [Option.bind_eq_bind, Option.bind_some]
      split_ifs
      · rw [← ih]
        cases body.traced call scope frame σ <;> rfl
      · rfl
  | give value =>
    rw [traced, exec]
    cases value.eval call scope frame σ <;> rfl
  | count x last body ih =>
    rw [traced, exec]
    obtain _ | ⟨v, σ⟩ := last.eval call scope frame σ
    · rfl
    · simp only [Option.bind_eq_bind, Option.bind_some]
      cases v with
      | number n =>
        refine repeatedTraced_run (fun i frame σ => ?_) n 1 frame σ
        rw [← ih]
        cases body.traced call scope ((x, .number i) :: frame) σ <;> rfl
      | _ => rfl

theorem Stat.tracedAll_run (ss : List Stat) (frame : Activation) (σ : Store) :
    (Stat.tracedAll call scope ss frame σ).map Prod.snd = Stat.execAll call scope ss frame σ := by
  induction ss generalizing frame σ with
  | nil => rfl
  | cons s ss ih =>
    rw [tracedAll, execAll, ← s.traced_run]
    obtain _ | ⟨ws, flow, σ'⟩ := s.traced call scope frame σ
    · rfl
    · cases flow with
      | next frame' => simp [Traced.andThen, Function.comp_def, ← ih]
      | gave value => rfl

end

section

variable {call : Caller} {scope : List String} {frame frame' : Activation} {σ σ' : Store} {s : Stat}
  {ws : List Write}

theorem Stat.tracedAll_next (h : s.traced call scope frame σ = some (ws, .next frame', σ'))
    (ss : List Stat) : Stat.tracedAll call scope (s :: ss) frame σ =
      (Stat.tracedAll call scope ss frame' σ').map fun t => (ws ++ t.1, t.2) := by
  rw [tracedAll, h]
  rfl

end

/-! ### The store after some writes -/

namespace Store

/-- The store after the writes, one after the other. -/
def carryOut (ws : List Write) (σ : Store) : Store := ws.foldl (fun σ w => (σ.write [] w.2 w.1).2) σ

variable {σ : Store} {s : Storage} {v : Value}

theorem carryOut_cons (w : Write) (ws : List Write) (σ : Store) :
    σ.carryOut (w :: ws) = (σ.write [] w.2 w.1).2.carryOut ws := rfl

theorem carryOut_append (ws ws' : List Write) (σ : Store) :
    σ.carryOut (ws ++ ws') = (σ.carryOut ws).carryOut ws' := List.foldl_append

/-- What is not written stays. -/
theorem read_carryOut_of_not_mem {ws : List Write} (h : s ∉ ws.map Prod.fst) :
    (σ.carryOut ws).read [] s = σ.read [] s := by
  induction ws generalizing σ with
  | nil => rfl
  | cons w ws ih =>
    obtain ⟨hne, hws⟩ := not_or.mp (List.mem_cons.not.mp h)
    rw [carryOut_cons, ih hws, read_write_of_ne (Ne.symm hne)]

/-- What is written once holds the value that is written. -/
theorem read_carryOut_of_mem {ws : List Write} (once : (ws.map Prod.fst).Nodup)
    (h : (s, v) ∈ ws) (hs : ∀ x, s ≠ .own x) : (σ.carryOut ws).read [] s = v := by
  induction ws generalizing σ with
  | nil => cases h
  | cons w ws ih =>
    obtain ⟨fresh, once⟩ := List.nodup_cons.mp once
    rw [carryOut_cons]
    rcases List.mem_cons.mp h with rfl | h
    · rw [read_carryOut_of_not_mem fresh, read_write_self hs]
    · exact ih once h

end Store

/-! ### Nothing else is written -/

/-- Calls leave the store as it is. -/
def Quiet (call : Caller) : Prop := ∀ f args σ v σ', call f args σ = some (v, σ') → σ' = σ

theorem quiet_callWithin_zero : Quiet (callWithin 0) := by
  intro f args σ v σ' h
  unfold callWithin at h
  split at h
  · cases h
    rfl
  · contradiction
  · cases h

section

variable {call : Caller} {scope : List String} {frame : Activation} {σ σ' : Store} {v : Value}
  {flow : Flow} {ws : List Write}

mutual

theorem Quiet.eval (h : Quiet call) : {t : Term} → {σ σ' : Store} → {v : Value} →
    t.eval call scope frame σ = some (v, σ') → σ' = σ
  | .name _, _, _, _, ht => by
    obtain ⟨_, -, hvalue⟩ := Option.map_eq_some_iff.mp ht
    cases hvalue
    rfl
  | .text _, _, _, _, ht | .number _, _, _, _, ht => by
    cases ht
    rfl
  | .item table key, _, _, _, ht => by
    obtain ⟨⟨t, _⟩, htable, hrest⟩ := Option.bind_eq_some_iff.mp ht
    obtain ⟨⟨k, _⟩, hkey, hvalue⟩ := Option.bind_eq_some_iff.mp hrest
    cases t <;> cases hvalue
    exact (h.eval hkey).trans (h.eval htable)
  | .length table, _, _, _, ht => by
    obtain ⟨⟨t, _⟩, htable, hvalue⟩ := Option.bind_eq_some_iff.mp ht
    cases t <;> cases hvalue <;> exact h.eval htable
  | .concat first second, _, _, _, ht => by
    obtain ⟨⟨a, _⟩, hfirst, hrest⟩ := Option.bind_eq_some_iff.mp ht
    obtain ⟨⟨b, _⟩, hsecond, hvalue⟩ := Option.bind_eq_some_iff.mp hrest
    cases a <;> cases b <;> cases hvalue
    exact (h.eval hsecond).trans (h.eval hfirst)
  | .equal first second, _, _, _, ht => by
    obtain ⟨_, hfirst, hrest⟩ := Option.bind_eq_some_iff.mp ht
    obtain ⟨_, hsecond, hvalue⟩ := Option.bind_eq_some_iff.mp hrest
    cases hvalue
    exact (h.eval hsecond).trans (h.eval hfirst)
  | .call function args, _, _, _, ht => by
    obtain ⟨_, hfunction, hrest⟩ := Option.bind_eq_some_iff.mp ht
    obtain ⟨_, hargs, hcall⟩ := Option.bind_eq_some_iff.mp hrest
    exact ((h _ _ _ _ _ hcall).trans (h.evalAll hargs)).trans (h.eval hfunction)

theorem Quiet.evalAll (h : Quiet call) : {ts : List Term} → {σ σ' : Store} → {vs : List Value} →
    Term.evalAll call scope frame ts σ = some (vs, σ') → σ' = σ
  | [], _, _, _, hts => by
    cases hts
    rfl
  | t :: ts, _, _, _, hts => by
    obtain ⟨_, hfirst, hrest⟩ := Option.bind_eq_some_iff.mp hts
    obtain ⟨_, hothers, hvalues⟩ := Option.bind_eq_some_iff.mp hrest
    cases hvalues
    exact (h.evalAll hothers).trans (h.eval hfirst)

end

theorem Quiet.storage (h : Quiet call) {t : Term} {s : Storage}
    (ht : t.storage call scope frame σ = some (s, σ')) : σ' = σ := by
  cases t with
  | name x =>
    obtain ⟨_, -, hstorage⟩ := Option.map_eq_some_iff.mp ht
    cases hstorage
    rfl
  | item table key =>
    obtain ⟨⟨t, _⟩, htable, hrest⟩ := Option.bind_eq_some_iff.mp ht
    obtain ⟨_, hkey, hstorage⟩ := Option.bind_eq_some_iff.mp hrest
    cases t <;> cases hstorage
    exact (h.eval hkey).trans (h.eval htable)
  | _ => cases ht

/-- The store after a traced part is the store after its writes. -/
def Faithful (run : Activation → Store → Option Traced) : Prop :=
  ∀ frame σ ws flow σ', run frame σ = some (ws, flow, σ') → σ' = σ.carryOut ws

theorem Faithful.andThen {rest : Activation → Store → Option Traced} (hrest : Faithful rest)
    {ws' : List Write} {flow' : Flow} {σ₁ : Store} (h₁ : σ₁ = σ.carryOut ws)
    (h : Traced.andThen (ws, flow, σ₁) rest = some (ws', flow', σ')) : σ' = σ.carryOut ws' := by
  cases flow with
  | next frame =>
    obtain ⟨⟨ws₂, flow₂, σ₂⟩, hrun, h⟩ := Option.map_eq_some_iff.mp h
    obtain ⟨rfl, rfl, rfl⟩ : ws ++ ws₂ = ws' ∧ flow₂ = flow' ∧ σ₂ = σ' := by simpa using h
    rw [Store.carryOut_append, ← h₁]
    exact hrest _ _ _ _ _ hrun
  | gave value =>
    cases h
    exact h₁

theorem faithful_repeatedTraced {body : Nat → Activation → Store → Option Traced}
    (h : ∀ i, Faithful (body i)) : (n i : Nat) → Faithful (repeatedTraced body n i)
  | 0, _, _, _, _, _, _, hrun => by
    cases hrun
    rfl
  | n + 1, i, _, _, _, _, _, hrun => by
    obtain ⟨⟨ws, flow, σ₁⟩, hbody, hrun⟩ := Option.bind_eq_some_iff.mp hrun
    exact (faithful_repeatedTraced h n (i + 1)).andThen (h i _ _ _ _ _ hbody) hrun

theorem Quiet.traced (h : Quiet call) : (s : Stat) → Faithful (s.traced call scope)
  | .bind x value, _, _, _, _, _, hrun | .give value, _, _, _, _, _, hrun => by
    obtain ⟨_, hvalue, hrest⟩ := Option.bind_eq_some_iff.mp hrun
    cases hrest
    exact h.eval hvalue
  | .assign target value, _, _, _, _, _, hrun => by
    obtain ⟨⟨s, σ₁⟩, htarget, hrest⟩ := Option.bind_eq_some_iff.mp hrun
    obtain ⟨⟨v, σ₂⟩, hvalue, hwrite⟩ := Option.bind_eq_some_iff.mp hrest
    have same : σ₂ = _ := (h.eval hvalue).trans (h.storage htarget)
    cases hwrite
    rw [same]
    exact Store.snd_write ..
  | .when condition body, _, _, _, _, _, hrun => by
    obtain ⟨⟨c, σ₁⟩, hcondition, hrest⟩ := Option.bind_eq_some_iff.mp hrun
    have same := h.eval hcondition
    subst same
    by_cases holds : c.holds = true
    · obtain ⟨⟨ws, flow, σ₂⟩, hbody, hleave⟩ :=
        Option.bind_eq_some_iff.mp ((if_pos holds).symm.trans hrest)
      cases hleave
      exact h.traced body _ _ _ _ _ hbody
    · cases (if_neg holds).symm.trans hrest
      rfl
  | .count x last body, _, _, _, _, _, hrun => by
    obtain ⟨⟨v, σ₁⟩, hlast, hrest⟩ := Option.bind_eq_some_iff.mp hrun
    have same := h.eval hlast
    subst same
    cases v with
    | number n =>
      refine faithful_repeatedTraced (fun i frame σ ws flow σ' hstep => ?_) n 1 _ _ _ _ _ hrest
      obtain ⟨⟨ws, flow, σ₂⟩, hbody, hleave⟩ := Option.bind_eq_some_iff.mp hstep
      cases hleave
      exact h.traced body _ _ _ _ _ hbody
    | _ => cases hrest

theorem Quiet.tracedAll (h : Quiet call) : (ss : List Stat) → Faithful (Stat.tracedAll call scope ss)
  | [], _, _, _, _, _, hrun => by
    cases hrun
    rfl
  | s :: ss, _, _, _, _, _, hrun => by
    obtain ⟨⟨ws, flow, σ₁⟩, hfirst, hrest⟩ := Option.bind_eq_some_iff.mp hrun
    exact (h.tracedAll ss).andThen (h.traced s _ _ _ _ _ hfirst) hrest

/-- A function that runs no other one changes the store by its writes only. -/
theorem tracedCall_writes {f : Value} {args : List Value}
    (h : tracedCall f args σ = some (ws, v, σ')) : σ' = σ.carryOut ws := by
  cases f with
  | function address =>
    obtain ⟨c, -, hcall⟩ := Option.bind_eq_some_iff.mp h
    obtain ⟨⟨ws₁, flow, σ₁⟩, hrun, hgiven⟩ := Option.bind_eq_some_iff.mp hcall
    have writes := quiet_callWithin_zero.tracedAll _ _ _ _ _ _ hrun
    cases flow <;> cases hgiven <;> exact writes
  | _ => cases h

end

end Lua
end GameScript
