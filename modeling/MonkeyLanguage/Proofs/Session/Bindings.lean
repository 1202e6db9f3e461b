import MonkeyLanguage.Proofs.Eval.Bindings
import MonkeyLanguage.Proofs.Session.Sequence

/-!
# Bindings of a session

A session has the bindings that the logs of its runs say (`bindings_after`).  The log of a text that is no program is
empty, and that of an aborted program goes as far as the program came.
-/

namespace MonkeyLanguage.Session

variable {table : BuiltinTable} {s : Session}

def bindings (s : Session) : OrderedMap String Value :=
  s.world.bindings s.scope

/-- The session is in a scope that there is, and has the bindings of the account. -/
structure Has (s : Session) (own : ScopeId) (account : Account) : Prop where
  scope_eq : s.scope = own
  scope_lt : own < s.world.scopes.size
  bindings_eq : s.world.bindings own = account.bindings

theorem Has.evaluate {own : ScopeId} {account : Account} (h : s.Has own account) (node : Node) :
    (s.evaluate table node).session.Has own ((trace table (s.limit + 1) node s.scope
      { s.world with output := "" }).foldl (Account.read own) account) := by
  have htracks := (accountable_traced table own account (s.limit + 1)).tracks node s.scope
    ⟨{ s.world with output := "" }, []⟩ ⟨h.scope_lt, h.bindings_eq⟩
  rw [Session.evaluate, ← erases_traced table (s.limit + 1) node s.scope ⟨{ s.world with output := "" }, []⟩, trace]
  cases hresult : traced table (s.limit + 1) node s.scope ⟨{ s.world with output := "" }, []⟩ with
  | ok v t =>
    rw [hresult] at htracks
    exact ⟨h.scope_eq, htracks.1, htracks.2⟩
  | error reason t =>
    rw [hresult] at htracks
    exact ⟨h.scope_eq, htracks.1, htracks.2⟩

theorem Has.run {own : ScopeId} {account : Account} (h : s.Has own account) (frontEnd : FrontEnd) (source : String) :
    (s.run frontEnd table source).session.Has own
      ((s.log table frontEnd source).foldl (Account.read own) account) := by
  by_cases hmessages : (frontEnd.parse source).2 = []
  · have hparse : frontEnd.parse source = ((frontEnd.parse source).1, []) := Prod.ext rfl hmessages
    rw [run_of_parse hparse, log_of_parse hparse]
    exact h.evaluate _
  · rw [run_of_messages hmessages, log_of_messages hmessages]
    exact h

theorem Has.after {own : ScopeId} {account : Account} (h : s.Has own account) (texts : List (FrontEnd × String)) :
    (s.after table texts).Has own ((s.logs table texts).foldl (Account.read own) account) := by
  induction texts generalizing s account with
  | nil => exact h
  | cons text texts ih =>
    rw [logs, List.foldl_append]
    exact ih (h.run text.1 text.2)

theorem bindings_after (hscope : s.scope < s.world.scopes.size) (texts : List (FrontEnd × String)) :
    (s.after table texts).bindings = boundBy s.scope s.bindings (s.logs table texts) := by
  have hhas : s.Has s.scope ⟨.null, s.bindings⟩ := ⟨rfl, hscope, rfl⟩
  have hafter := @Has.after table s s.scope _ hhas texts
  rw [bindings, hafter.scope_eq]
  exact hafter.bindings_eq

example : ((Session.empty 1000).run .descent .default "let a = 1; b; let c = 2;").session.bindings.keys = ["a"] := by
  decide +kernel

end MonkeyLanguage.Session
