import GameScript.Ledger
import GameScript.Proofs.Table

/-! What a ledger says about a log. Each part of the ledger of a log is read off the entries of one
kind: the variables, the messages and the candidates of the unit, and the declarations of the function
that was opened last. -/

namespace GameScript

/-! ### The frames of open functions -/

namespace Ledger

/-- The ledger inside one more function, which has scheduled some declarations. -/
def framed (l : Ledger) (ds : List String) : Ledger := { l with functions := ds :: l.functions }

theorem functions_record (l : Ledger) {e : Entry} (h : e.declaration? = none) :
    (l.record e).functions = l.functions := by
  cases e with
  | declare d => cases h
  | note d =>
    rw [record, note]
    split <;> rfl
  | _ => rfl

theorem record_framed (l : Ledger) (ds : List String) {e : Entry} (h : e.declaration? = none) :
    (l.framed ds).record e = (l.record e).framed ds := by
  cases e with
  | declare d => cases h
  | note d =>
    rw [record, record, note, note, framed]
    split <;> rfl
  | _ => rfl

theorem functions_recordAll : (l : Ledger) → (log : List Entry) →
    (∀ e ∈ log, e.declaration? = none) → (l.recordAll log).functions = l.functions
  | _, [], _ => rfl
  | l, e :: log, h => (functions_recordAll (l.record e) log fun e' he =>
      h e' (List.mem_cons_of_mem e he)).trans (functions_record l (h e List.mem_cons_self))

/-- What is recorded while a function is open schedules its declarations and is otherwise the same
as outside. -/
theorem recordAll_framed : (l : Ledger) → (ds : List String) → (log : List Entry) →
    (l.framed ds).recordAll log =
      (l.recordAll (log.filter fun e => e.declaration?.isNone)).framed
        ((log.filterMap Entry.declaration?).foldl (fun ds d => insertAscending d ds) ds)
  | _, _, [] => rfl
  | l, ds, e :: log => by
    cases h : e.declaration? with
    | none =>
      rw [List.filter_cons_of_pos (by simp [h]), List.filterMap_cons_none h]
      have := recordAll_framed (l.record e) ds log
      rw [← record_framed l ds h] at this
      exact this
    | some d =>
      obtain rfl : e = .declare d := by
        cases e <;> simp [Entry.declaration?] at h
        rw [h]
      rw [List.filter_cons_of_neg (by simp [h]), List.filterMap_cons_some h]
      exact recordAll_framed l (insertAscending d ds) log

/-- Closing a function gives the declarations that were recorded since it was opened, and leaves what
the rest of the log records. -/
theorem closeFunction_recordAll_openFunction (l : Ledger) (log : List Entry) :
    (l.openFunction.recordAll log).closeFunction =
      (declarations log, l.recordAll (log.filter fun e => e.declaration?.isNone)) := by
  have := recordAll_framed l [] log
  rw [openFunction, ← framed, this]
  rfl

end Ledger

/-! ### The parts of a ledger -/

def Entry.candidate? : Entry → Option Candidate
  | .candidate c => some c
  | _ => none

theorem filterMap_candidate?_eq_nil {log : List Entry} (h : ∀ c, .candidate c ∉ log) :
    log.filterMap Entry.candidate? = [] := by
  refine List.filterMap_eq_nil_iff.mpr fun e he => ?_
  cases e with
  | candidate c => exact absurd he (h c)
  | _ => rfl

/-- The message that an entry may add to the diagnostics. -/
def Entry.message? : Entry → Option String
  | .note d => some d.message
  | .declare declaration => some (Diagnostic.strayAlias declaration).message
  | .use _ | .candidate _ => none

namespace Ledger

theorem candidates_note (l : Ledger) (m : String) : (l.note m).candidates = l.candidates := by
  rw [note]
  split <;> rfl

theorem usage_note (l : Ledger) (m : String) : (l.note m).usage = l.usage := by
  rw [note]
  split <;> rfl

theorem mem_diagnostics_note {l : Ledger} {m m' : String} (h : m ∈ (l.note m').diagnostics) :
    m ∈ l.diagnostics ∨ m = m' := by
  rw [note] at h
  split at h
  · exact .inl h
  · simpa using h

/-- Variables that are used once each are recorded in order. -/
theorem usage_recordAll_once {l : Ledger} {names : List String}
    (h : (Table.keys l.usage ++ names).Nodup) :
    (l.recordAll (names.map .use)).usage = l.usage ++ names.map fun v => (v, 1) := by
  induction names generalizing l with
  | nil => simp [recordAll]
  | cons v names ih =>
    have new : v ∉ Table.keys l.usage := fun hv =>
      (List.nodup_append'.mp h).2.2 hv List.mem_cons_self
    have used : (l.record (.use v)).usage = l.usage ++ [(v, 1)] := by
      rw [record, uses, Table.get?_eq_none_iff.mpr new]
      exact Table.put_of_not_mem new 1
    have next := ih (l := l.record (.use v)) (by rw [used]; simpa [Table.keys] using h)
    rw [List.map_cons, List.map_cons, List.append_cons, ← used]
    exact next

/-- A variable is recorded under its name once, however often it is used. -/
theorem nodup_usage_recordAll : {l : Ledger} → (log : List Entry) → (Table.keys l.usage).Nodup →
    (Table.keys (l.recordAll log).usage).Nodup
  | _, [], h => h
  | l, e :: log, h => by
    refine nodup_usage_recordAll (l := l.record e) log ?_
    cases e with
    | use name => exact Table.nodup_keys_put h name _
    | note d =>
      rw [record, usage_note]
      exact h
    | declare d =>
      rw [record]
      split
      · exact h
      · rw [usage_note]
        exact h
    | candidate c => exact h

theorem candidates_record (l : Ledger) (e : Entry) :
    (l.record e).candidates = l.candidates ++ e.candidate?.toList := by
  cases e with
  | use name => simp [record, Entry.candidate?]
  | note d => simp [record, Entry.candidate?, candidates_note]
  | declare d =>
    rw [record]
    split <;> simp [Entry.candidate?, candidates_note]
  | candidate c => rfl

theorem candidates_recordAll : (l : Ledger) → (log : List Entry) →
    (l.recordAll log).candidates = l.candidates ++ log.filterMap Entry.candidate?
  | l, [] => (List.append_nil _).symm
  | l, e :: log => by
    have ih := candidates_recordAll (l.record e) log
    rw [candidates_record, List.append_assoc] at ih
    refine ih.trans (congrArg (l.candidates ++ ·) ?_)
    cases h : e.candidate? <;> simp [h]

theorem mem_diagnostics_record {l : Ledger} {e : Entry} {m : String}
    (h : m ∈ (l.record e).diagnostics) : m ∈ l.diagnostics ∨ e.message? = some m := by
  cases e with
  | use name | candidate c => exact .inl h
  | note d => exact (mem_diagnostics_note h).imp_right fun h => congrArg some h.symm
  | declare d =>
    rw [record] at h
    split at h
    · exact .inl h
    · exact (mem_diagnostics_note h).imp_right fun h => congrArg some h.symm

theorem mem_diagnostics_recordAll {m : String} : {l : Ledger} → {log : List Entry} →
    m ∈ (l.recordAll log).diagnostics → m ∈ l.diagnostics ∨ ∃ e ∈ log, e.message? = some m
  | _, [], h => .inl h
  | l, e :: log, h => by
    rcases mem_diagnostics_recordAll (l := l.record e) h with h | ⟨e', he, h⟩
    · exact (mem_diagnostics_record h).imp_right fun h => ⟨e, List.mem_cons_self, h⟩
    · exact .inr ⟨e', List.mem_cons_of_mem e he, h⟩

/-! ### Growth -/

theorem uses_record (l : Ledger) (e : Entry) (v : String) :
    (l.record e).uses v = l.uses v + if e = .use v then 1 else 0 := by
  cases e with
  | use name =>
    rw [record, uses, Table.get?_put]
    by_cases h : name = v
    · simp [h]
    · simp [h, uses]
  | note d => simp [record, uses, usage_note]
  | declare d =>
    rw [record]
    split <;> simp [uses, usage_note]
  | candidate c => simp [record, uses]

/-- A variable is used as often as a log says that it is. -/
theorem uses_recordAll (v : String) : (log : List Entry) → (l : Ledger) →
    (l.recordAll log).uses v = l.uses v + log.count (.use v)
  | [], _ => rfl
  | e :: log, l => by
    have ih := uses_recordAll v log (l.record e)
    rw [uses_record, Nat.add_assoc] at ih
    refine ih.trans (congrArg (l.uses v + ·) ?_)
    rw [List.count_cons, Nat.add_comm]
    simp only [beq_iff_eq]

end Ledger

theorem sublist_insertAscending (x : String) : (ds : List String) →
    ds.Sublist (insertAscending x ds)
  | [] => List.nil_sublist _
  | d :: ds => by
    rw [insertAscending]
    split
    · exact List.sublist_cons_self x (d :: ds)
    · split
      · exact .refl _
      · exact (sublist_insertAscending x ds).cons_cons d

/-- As many functions are open as before: the innermost one may have more declarations, and those of the
functions around it are the same. -/
inductive FramesGrow : List (List String) → List (List String) → Prop where
  | none : FramesGrow [] []
  | innermost {ds ds' : List String} (outer : List (List String)) : ds.Sublist ds' →
      FramesGrow (ds :: outer) (ds' :: outer)

namespace FramesGrow

theorem refl : (frames : List (List String)) → FramesGrow frames frames
  | [] => none
  | ds :: outer => innermost outer (.refl ds)

theorem trans {frames frames' frames'' : List (List String)} (h : FramesGrow frames frames')
    (h' : FramesGrow frames' frames'') : FramesGrow frames frames'' := by
  cases h with
  | none => exact h'
  | innermost outer hsub =>
    cases h' with
    | innermost outer hsub' => exact innermost outer (hsub.trans hsub')

end FramesGrow

namespace Ledger

/-- What a ledger only gains: variables at the end and no lower counts, messages at the end, and
declarations of the innermost function. -/
structure Grows (l l' : Ledger) : Prop where
  names : Table.keys l.usage <+: Table.keys l'.usage
  uses : ∀ v, l.uses v ≤ l'.uses v
  diagnostics : l.diagnostics <+: l'.diagnostics
  functions : FramesGrow l.functions l'.functions

theorem Grows.refl (l : Ledger) : Grows l l :=
  ⟨List.prefix_rfl, fun _ => Nat.le_refl _, List.prefix_rfl, .refl _⟩

theorem Grows.trans {l l' l'' : Ledger} (h : Grows l l') (h' : Grows l' l'') : Grows l l'' :=
  ⟨h.names.trans h'.names, fun v => Nat.le_trans (h.uses v) (h'.uses v),
    h.diagnostics.trans h'.diagnostics, h.functions.trans h'.functions⟩

theorem grows_note (l : Ledger) (m : String) : Grows l (l.note m) := by
  rw [note]
  split
  · exact .refl l
  · exact { Grows.refl l with diagnostics := List.prefix_append _ _ }

theorem grows_record (l : Ledger) (e : Entry) : Grows l (l.record e) := by
  cases e with
  | use name =>
    refine { Grows.refl l with names := ?_, uses := fun v => ?_ }
    · rw [record, Table.keys_put]
      split
      · exact List.prefix_rfl
      · exact List.prefix_append _ _
    · rw [uses_record]
      exact Nat.le_add_right _ _
  | note d => exact grows_note l d.message
  | declare d =>
    rw [record]
    split
    · next ds outer hframes =>
      refine { Grows.refl l with functions := ?_ }
      rw [hframes]
      exact .innermost outer (sublist_insertAscending d ds)
    · exact grows_note l _
  | candidate c => exact { Grows.refl l with }

theorem grows_recordAll (l : Ledger) : (log : List Entry) → Grows l (l.recordAll log)
  | [] => .refl l
  | e :: log => (grows_record l e).trans (grows_recordAll (l.record e) log)

end Ledger
end GameScript
