import MonkeyLanguage.Proofs.Eval.Invariant
import MonkeyLanguage.Session

/-!
# Texts run one after another

`Session.after` runs texts in a row, each with a front end of its own; `Session.outcomes` is what becomes of
them, and `Session.logs` the log of all that they evaluate.  An invariant that holds of the programs among the
texts holds of all that is bound afterwards and of the value of each run (`Invariant.of_texts`), and at every entry of
the logs (`Invariant.of_logs`).
-/

namespace MonkeyLanguage

namespace Session

variable (table : BuiltinTable)

/-- The session after some texts have been run. -/
def after (s : Session) : List (FrontEnd × String) → Session
  | [] => s
  | (frontEnd, source) :: texts => after (s.run frontEnd table source).session texts

def outcomes (s : Session) : List (FrontEnd × String) → List Outcome
  | [] => []
  | (frontEnd, source) :: texts =>
    (s.run frontEnd table source).outcome :: outcomes (s.run frontEnd table source).session texts

/-- The log of a run, which is empty if the text is no program. -/
def log (s : Session) (frontEnd : FrontEnd) (source : String) : List Entry :=
  match frontEnd.parse source with
  | (statements, []) => trace table (s.limit + 1) (.program statements) s.scope { s.world with output := "" }
  | _ => []

def logs (s : Session) : List (FrontEnd × String) → List Entry
  | [] => []
  | (frontEnd, source) :: texts =>
    s.log table frontEnd source ++ logs (s.run frontEnd table source).session texts

variable {table} {s : Session} {frontEnd : FrontEnd} {source : String} {statements : List Node}

theorem limit_run (s : Session) (frontEnd : FrontEnd) (table : BuiltinTable) (source : String) :
    (s.run frontEnd table source).session.limit = s.limit := by
  unfold run
  split
  · rw [evaluate]
    split <;> rfl
  · rfl

theorem limit_after (s : Session) (table : BuiltinTable) (texts : List (FrontEnd × String)) :
    (s.after table texts).limit = s.limit := by
  induction texts generalizing s with
  | nil => rfl
  | cons text texts ih => exact (ih _).trans (limit_run ..)

theorem after_append (s : Session) (texts texts' : List (FrontEnd × String)) :
    s.after table (texts ++ texts') = (s.after table texts).after table texts' := by
  induction texts generalizing s with
  | nil => rfl
  | cons text texts ih => exact ih _

theorem run_of_parse (h : frontEnd.parse source = (statements, [])) :
    s.run frontEnd table source = s.evaluate table (.program statements) := by
  rw [run, h]

theorem log_of_parse (h : frontEnd.parse source = (statements, [])) :
    s.log table frontEnd source =
      trace table (s.limit + 1) (.program statements) s.scope { s.world with output := "" } := by
  rw [log, h]

theorem run_of_messages (h : (frontEnd.parse source).2 ≠ []) :
    s.run frontEnd table source = ⟨.rejected (frontEnd.parse source).2, "", s⟩ := by
  unfold run
  split
  · next hparse => exact absurd (congrArg Prod.snd hparse) h
  · next hparse => rw [hparse]

theorem log_of_messages (h : (frontEnd.parse source).2 ≠ []) : s.log table frontEnd source = [] := by
  unfold log
  split
  · next hparse => exact absurd (congrArg Prod.snd hparse) h
  · rfl

end Session

namespace Invariant

open Session

variable (inv : Invariant) {table : BuiltinTable} {s : Session}

theorem holds_empty {limit : Nat} : inv.Holds (Session.empty limit).world := by
  intro id scope hscope binding hbinding
  cases id with
  | zero =>
    obtain rfl := Option.some.inj hscope
    cases hbinding
  | succ id => cases hscope

theorem of_run {frontEnd : FrontEnd} {source : String}
    (htree : ∀ statements, frontEnd.parse source = (statements, []) → inv.tree (.program statements))
    (hs : inv.Holds s.world) (hlog : ∀ entry ∈ s.log table frontEnd source, inv.Admits entry.event) :
    inv.Holds (s.run frontEnd table source).session.world ∧
      ∀ v, (s.run frontEnd table source).outcome = .finished v → inv.Gives false v := by
  cases hparse : frontEnd.parse source with
  | mk statements messages =>
    cases messages with
    | cons message messages =>
      rw [run_of_messages (by rw [hparse]; exact List.cons_ne_nil _ _)]
      exact ⟨hs, nofun⟩
    | nil =>
      rw [log_of_parse hparse] at hlog
      have heval := inv.of_eval (htree statements hparse) (w := { s.world with output := "" }) hs hlog
      rw [run_of_parse hparse, evaluate]
      cases hresult : eval table (s.limit + 1) (.program statements) s.scope { s.world with output := "" } with
      | ok v w =>
        rw [hresult] at heval
        refine ⟨heval.1, fun u hu => ?_⟩
        obtain rfl := Outcome.finished.inj hu
        exact heval.2
      | error reason w =>
        rw [hresult] at heval
        exact ⟨heval, nofun⟩

/-- An invariant that holds of the programs of texts holds of all that is bound after they have been run, and of
the values of all runs. -/
theorem of_texts {texts : List (FrontEnd × String)}
    (htree : ∀ text ∈ texts, ∀ statements, text.1.parse text.2 = (statements, []) →
      inv.tree (.program statements))
    (hs : inv.Holds s.world) (hlog : ∀ entry ∈ s.logs table texts, inv.Admits entry.event) :
    inv.Holds (s.after table texts).world ∧
      ∀ v, .finished v ∈ s.outcomes table texts → inv.Gives false v := by
  induction texts generalizing s with
  | nil => exact ⟨hs, nofun⟩
  | cons text texts ih =>
    rw [List.forall_mem_cons] at htree
    rw [logs, List.forall_mem_append] at hlog
    obtain ⟨hworld, hvalue⟩ := inv.of_run htree.1 hs hlog.1
    obtain ⟨hworlds, hvalues⟩ := ih htree.2 hworld hlog.2
    refine ⟨hworlds, fun v hv => ?_⟩
    rcases List.mem_cons.1 hv with hv | hv
    · exact hvalue v hv.symm
    · exact hvalues v hv

theorem of_log {frontEnd : FrontEnd} {source : String}
    (htree : ∀ statements, frontEnd.parse source = (statements, []) → inv.tree (.program statements))
    (hs : inv.Holds s.world) (hlog : ∀ entry ∈ s.log table frontEnd source, inv.Admits entry.event) :
    ∀ entry ∈ s.log table frontEnd source, inv.Sees entry := by
  cases hparse : frontEnd.parse source with
  | mk statements messages =>
    cases messages with
    | cons message messages =>
      rw [log_of_messages (by rw [hparse]; exact List.cons_ne_nil _ _)]
      exact nofun
    | nil =>
      rw [log_of_parse hparse] at hlog ⊢
      exact inv.of_trace (htree statements hparse) hs hlog

theorem of_logs {texts : List (FrontEnd × String)}
    (htree : ∀ text ∈ texts, ∀ statements, text.1.parse text.2 = (statements, []) →
      inv.tree (.program statements))
    (hs : inv.Holds s.world) (hlog : ∀ entry ∈ s.logs table texts, inv.Admits entry.event) :
    ∀ entry ∈ s.logs table texts, inv.Sees entry := by
  induction texts generalizing s with
  | nil => exact nofun
  | cons text texts ih =>
    rw [List.forall_mem_cons] at htree
    rw [logs, List.forall_mem_append] at hlog
    rw [logs, List.forall_mem_append]
    exact ⟨inv.of_log htree.1 hs hlog.1, ih htree.2 (inv.of_run htree.1 hs hlog.1).1 hlog.2⟩

end Invariant

end MonkeyLanguage
