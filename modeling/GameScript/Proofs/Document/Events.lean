import GameScript.Game
import GameScript.Proofs.Json.Record
import GameScript.Proofs.Script.Reference
import GameScript.Proofs.Table

/-! The events of a game that is loaded. A script is stored as an object, and an object that is read has
every key once, so no script of a loaded game defines an event twice. -/

namespace GameScript

open Json.Reader (Yields)

namespace Json.Field

variable {σ α : Type} {P : σ → Prop} {Q : α → Prop} {name : String} {read : Nat → Reader α}
  {put : α → σ → σ}

theorem must_keeps (h : ∀ a s, P s → P (put a s)) : (must name read put).Keeps P :=
  fun _ => .map put fun _ a _ _ => h a

theorem may_keeps_of (hread : ∀ depth, Yields Q (read depth)) (h : ∀ a, Q a → ∀ s, P s → P (put a s)) :
    (may name read put).Keeps P :=
  fun depth => .map put fun cs a rest ha => h a (hread depth cs a rest ha)

theorem may_keeps (h : ∀ a s, P s → P (put a s)) : (may name read put).Keeps P :=
  fun _ => .map put fun _ a _ _ => h a

end Json.Field

open Json.Field

/-- The keys of a stored script are distinct. -/
def ScriptRecord.Distinct (r : ScriptRecord) : Prop := (Table.keys r.data).Nodup

theorem ScriptRecord.read_distinct (depth : Nat) :
    Yields ScriptRecord.Distinct (ScriptRecord.record.read depth) := by
  refine Json.Record.read_yields List.nodup_nil ?_ depth
  simp only [record, List.forall_mem_cons, List.not_mem_nil, false_implies, implies_true, and_true]
  refine ⟨must_keeps fun _ _ h => h, must_keeps fun _ _ h => h, ?_⟩
  exact may_keeps_of (Q := fun data => (Table.keys data).Nodup)
    (Yields.mapValue Table.nodup_keys_ofEntries) fun _ h _ _ => h

theorem Document.read_distinct (depth : Nat) :
    Yields (fun d => ∀ r ∈ d.scripts, r.Distinct) (Document.record.read depth) := by
  refine Json.Record.read_yields (by simp [record]) ?_ depth
  simp only [record, List.forall_mem_cons, List.not_mem_nil, false_implies, implies_true, and_true]
  refine ⟨must_keeps ?_, may_keeps ?_, must_keeps ?_, may_keeps ?_, may_keeps ?_, may_keeps ?_,
    may_keeps ?_, may_keeps ?_, may_keeps_of (.listOf ScriptRecord.read_distinct) fun _ h _ _ => h⟩
  all_goals exact fun _ _ h => h

/-- A traversal that leaves a part of every value alone. -/
theorem Decode.map_of_mapM_eq_ok {ε α β γ : Type} {f : α → Except ε β} {p : α → γ} {q : β → γ}
    (hf : ∀ a b, f a = .ok b → q b = p a) {as : List α} {bs : List β} (h : as.mapM f = .ok bs) :
    bs.map q = as.map p := by
  have each := mapM_eq_ok h
  clear h
  induction each with
  | nil => rfl
  | cons hab _ ih => rw [List.map_cons, List.map_cons, hf _ _ hab, ih]

theorem Decode.events_keys {count : Nat} {data : Table String Json} {events : List (String × Nat)}
    (h : Decode.events count data = .ok events) :
    events.map Prod.fst = (data.filter fun e => isEvent e.1).map Prod.fst := by
  refine map_of_mapM_eq_ok (fun entry e he => ?_) h
  obtain ⟨index, -, he⟩ := bind_eq_ok he
  cases he
  rfl

/-- A script that is decoded from distinct keys has distinct events. -/
theorem ScriptRecord.Distinct.events_nodup {r : ScriptRecord} {x : Script} (hr : r.Distinct)
    (h : Script.decode r = .ok x) : (x.events.map Prod.fst).Nodup := by
  obtain ⟨values, -, hevents⟩ := Script.decode_eq_ok h
  rw [Decode.events_keys hevents]
  exact hr.sublist (List.filter_sublist.map _)

/-- The scripts of a loaded game are decoded from the records of its document. -/
theorem Game.load_decoded {text : String} {g : Game} (h : Game.load text = .ok g) :
    ∃ d, Document.parse text = .ok d ∧ ∀ x ∈ g.scripts, ∃ r ∈ d.scripts, Script.decode r = .ok x := by
  rw [load] at h
  split at h
  · cases h
  · next d hd =>
    obtain ⟨scripts, hscripts, h⟩ := Decode.bind_eq_ok h
    cases h
    refine ⟨d, hd, fun x hx => ?_⟩
    obtain ⟨r, hr, hrx⟩ := Decode.exists_of_mapM_eq_ok hscripts hx
    refine ⟨r, hr, ?_⟩
    cases hdecode : Script.decode r with
    | error e =>
      rw [hdecode] at hrx
      cases hrx
    | ok y =>
      rw [hdecode] at hrx
      cases hrx
      rfl

/-- No script of a loaded game defines an event twice. -/
theorem Game.load_events_nodup {text : String} {g : Game} (h : Game.load text = .ok g) :
    ∀ x ∈ g.scripts, (x.events.map Prod.fst).Nodup := by
  intro x hx
  obtain ⟨d, hd, hdecoded⟩ := load_decoded h
  obtain ⟨r, hr, hdecode⟩ := hdecoded x hx
  exact (Yields.of_run Document.read_distinct hd r hr).events_nodup hdecode

end GameScript
