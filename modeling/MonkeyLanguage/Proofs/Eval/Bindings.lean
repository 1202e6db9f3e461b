import MonkeyLanguage.Proofs.Eval.Frame
import MonkeyLanguage.Proofs.Eval.Trace

/-!
# Bindings in logs

The bindings of a scope can be read off the log of an evaluation, which need not have come to an end
(`accountable_traced`): a `let` statement that ends without a failure binds its name to the value with which an
activity ended last, and that is the value of its expression.  Nothing else binds a name in a scope that there was.
-/

namespace MonkeyLanguage

def World.bindings (w : World) (id : ScopeId) : OrderedMap String Value :=
  (w.scopes[id]?.map Scope.bindings).getD []

/-- What a log says: the value with which an activity ended last, and the bindings of a scope. -/
structure Account where
  last : Value
  bindings : OrderedMap String Value

def Account.read (own : ScopeId) (account : Account) (entry : Entry) : Account :=
  match entry.event with
  | .begins _ => account
  | .ends (.evaluation (.letStatement name _) scope) .null =>
    ⟨.null, if scope = own then account.bindings.insert name account.last else account.bindings⟩
  | .ends _ v => { account with last := v }

theorem Account.last_read_ends (own : ScopeId) (account : Account) (activity : Activity) (v : Value) (w : World) :
    (account.read own ⟨.ends activity v, w⟩).last = v := by
  unfold Account.read
  split
  · next hevent => cases hevent
  · next hevent =>
    injection hevent with hactivity hv
    exact hv.symm
  · next hevent =>
    injection hevent with hactivity hv
    exact hv.symm

/-- The bindings of a scope after a log, given those before. -/
def boundBy (own : ScopeId) (bindings : OrderedMap String Value) (log : List Entry) : OrderedMap String Value :=
  (log.foldl (Account.read own) ⟨.null, bindings⟩).bindings

/-! ## Computations that keep the account -/

variable {own scope : ScopeId} {start : Account} {w : World} {s : Traced} {activity : Activity} {v : Value}

/-- The scope is there, and has the bindings that the log says, given an account before the log. -/
def Accounts (own : ScopeId) (start : Account) (s : Traced) : Prop :=
  own < s.world.scopes.size ∧ s.world.bindings own = (s.log.foldl (Account.read own) start).bindings

/-- The computation keeps the account, whether it gives a value or is aborted. -/
def Tracks {α : Type} (own : ScopeId) (start : Account) (m : TraceM α) : Prop :=
  ∀ s, Accounts own start s → match m s with
    | .ok _ s' => Accounts own start s'
    | .error _ s' => Accounts own start s'

theorem World.Keeps.bindings {w' : World} (h : w.Keeps w') (hown : own < w.scopes.size) :
    w'.bindings own = w.bindings own := by
  rw [World.bindings, World.bindings, h.same own hown]

theorem World.bindings_set (hown : own < w.scopes.size) (id : ScopeId) (name : String) (v : Value) :
    (w.set id name v).bindings own = if id = own then (w.bindings own).insert name v else w.bindings own := by
  simp only [World.bindings, World.set, Array.getElem?_modify]
  split
  · simp [Array.getElem?_eq_getElem hown]
  · rfl

theorem Accounts.begins (h : Accounts own start s) :
    Accounts own start { s with log := s.log ++ [⟨.begins activity, s.world⟩] } := by
  rw [Accounts, List.foldl_append]
  exact h

theorem Accounts.ends (h : Accounts own start s)
    (hactivity : ∀ name e scope, activity = .evaluation (.letStatement name e) scope → v ≠ .null) :
    Accounts own start { s with log := s.log ++ [⟨.ends activity v, s.world⟩] } := by
  have hread : ∀ account, (Account.read own account ⟨.ends activity v, s.world⟩).bindings = account.bindings := by
    intro account
    unfold Account.read
    split
    · rfl
    · next hevent =>
      injection hevent with hlet hnull
      exact absurd hnull (hactivity _ _ _ hlet)
    · rfl
  refine ⟨h.1, ?_⟩
  rw [List.foldl_append, List.foldl_cons, List.foldl_nil, hread]
  exact h.2

theorem Accounts.binds (h : Accounts own start s) (hlast : (s.log.foldl (Account.read own) start).last = v)
    (name : String) (e : Node) (scope : ScopeId) :
    Accounts own start ⟨s.world.set scope name v,
      s.log ++ [⟨.ends (.evaluation (.letStatement name e) scope) .null, s.world.set scope name v⟩]⟩ := by
  refine ⟨Nat.lt_of_lt_of_eq h.1 (Array.size_modify ..).symm, ?_⟩
  rw [World.bindings_set h.1, List.foldl_append, h.2, ← hlast]
  rfl

namespace Tracks

variable {α β : Type} {m : TraceM α} {f : α → TraceM β}

theorem pure (a : α) : Tracks own start (Pure.pure a) :=
  fun _ h => h

theorem throw (reason : Abort) : Tracks own start (MonadExcept.throw reason : TraceM α) :=
  fun _ h => h

theorem bind (hm : Tracks own start m) (hf : ∀ a, Tracks own start (f a)) : Tracks own start (m >>= f) := by
  intro s h
  have hs := hm s h
  change match EStateM.bind m f s with
    | .ok _ s' => _
    | .error _ s' => _
  rw [EStateM.bind]
  cases hresult : m s with
  | ok a s' =>
    rw [hresult] at hs
    exact hf a s' hs
  | error reason s' =>
    rw [hresult] at hs
    exact hs

theorem lift {m : EvalM α} (h : ∀ w : World, w.Keeps (w.after m)) : Tracks own start (TraceM.lift m) := by
  intro s hs
  have hkeeps := h s.world
  rw [World.after] at hkeeps
  rw [TraceM.lift]
  cases hresult : m s.world <;> rw [hresult] at hkeeps <;>
    exact ⟨Nat.lt_of_lt_of_le hs.1 hkeeps.size_le, (hkeeps.bindings hs.1).trans hs.2⟩

theorem during {m : TraceM Value} (hm : Tracks own start m)
    (hactivity : ∀ name e scope, activity ≠ .evaluation (.letStatement name e) scope) :
    Tracks own start (TraceM.during activity m) := by
  intro s h
  have hs := hm ⟨s.world, s.log ++ [⟨.begins activity, s.world⟩]⟩ h.begins
  rw [TraceM.during_apply]
  cases hresult : m ⟨s.world, s.log ++ [⟨.begins activity, s.world⟩]⟩ with
  | ok v s' =>
    rw [hresult] at hs
    exact hs.ends fun name e scope hlet => absurd hlet (hactivity name e scope)
  | error reason s' =>
    rw [hresult] at hs
    exact hs

end Tracks

/-! ## The forms of the evaluator -/

open TraceM

/-- An evaluation keeps the account, and its value is that with which an activity ended last. -/
structure TracedEvaluator.Accountable (own : ScopeId) (start : Account) (eval : TracedEvaluator) : Prop where
  tracks : ∀ node scope, Tracks own start (eval node scope)
  last : ∀ {node scope s v s'}, eval node scope s = .ok v s' → (s'.log.foldl (Account.read own) start).last = v

namespace TracedEvaluator

variable {eval : TracedEvaluator} {node : Node} {nodes : List Node}

section

variable (heval : ∀ node scope, Tracks own start (eval node scope))
include heval

theorem withValue_tracks {next : Value → TraceM Value} (hnext : ∀ v, Tracks own start (next v)) :
    Tracks own start (withValue eval scope node next) := by
  refine (heval node scope).bind fun v => ?_
  cases v with
  | error e => exact .pure _
  | _ => exact hnext _

theorem withValues_tracks {next : List Value → TraceM Value} (hnext : ∀ vs, Tracks own start (next vs))
    (before : List Value) : Tracks own start (withValues eval scope next before nodes) := by
  induction nodes generalizing before with
  | nil => exact hnext _
  | cons node nodes ih => exact withValue_tracks heval fun v => ih (v :: before)

theorem entries_tracks {pairs : List (Node × Node)} (before : List (HashKey × Value)) :
    Tracks own start (entries eval scope before pairs) := by
  induction pairs generalizing before with
  | nil => exact .pure _
  | cons pair pairs ih =>
    refine withValue_tracks heval fun k => ?_
    cases k.hashKey? with
    | none => exact .pure _
    | some key => exact withValue_tracks heval fun v => ih _

theorem statements_tracks (last : Value) : Tracks own start (statements eval scope last nodes) := by
  induction nodes generalizing last with
  | nil => exact .pure _
  | cons node nodes ih =>
    refine (heval node scope).bind fun v => ?_
    cases v with
    | returned v => exact .pure _
    | error e => exact .pure _
    | _ => exact ih _

theorem call_tracks (function : Value) (arguments : List Value) : Tracks own start (call eval function arguments) := by
  refine .during ?_ nofun
  cases function with
  | function identity parameters body outer =>
    by_cases hlength : arguments.length = parameters.length
    · simp only [if_neg (not_not_intro hlength)]
      exact (Tracks.lift fun w => .addScope ..).bind fun scope => (heval body scope).bind fun _ => .pure _
    · simp only [if_pos hlength]
      exact .pure _
  | builtin b => exact .during ((Tracks.lift fun w => ⟨Nat.le_refl _, fun _ _ => rfl⟩).bind fun _ => .pure _) nofun
  | _ => exact .pure _

theorem step_tracks (table : BuiltinTable) (scope : ScopeId) (hlet : ∀ name e, node ≠ .letStatement name e) :
    Tracks own start (step eval table node scope) := by
  cases node with
  | absent => exact .throw _
  | program nodes => exact (statements_tracks heval _).bind fun _ => .pure _
  | block nodes => exact statements_tracks heval _
  | expressionStatement e => exact heval e scope
  | returnStatement e => exact withValue_tracks heval fun _ => .pure _
  | letStatement name e => exact absurd rfl (hlet name e)
  | integer n => exact .pure _
  | string s => exact .pure _
  | boolean b => exact .pure _
  | array nodes => exact withValues_tracks heval (fun _ => .pure _) _
  | hash pairs => exact entries_tracks heval _
  | function parameters body =>
    exact (Tracks.lift fun w => ⟨Nat.le_refl _, fun _ _ => rfl⟩).bind fun _ => .pure _
  | identifier name =>
    refine .lift fun w => ?_
    rw [World.after, Evaluator.lookUp_apply]
    exact .refl
  | unary operator e => exact withValue_tracks heval fun _ => .pure _
  | binary left operator right =>
    exact withValue_tracks heval fun _ => withValue_tracks heval fun _ => .pure _
  | ifElse condition consequence alternative =>
    refine withValue_tracks heval fun v => ?_
    by_cases hv : v.isTruthy = true
    · simp only [if_pos hv]
      exact heval consequence scope
    · simp only [if_neg hv]
      cases alternative with
      | absent => exact .pure _
      | _ => exact heval _ scope
  | call callee arguments =>
    refine withValue_tracks heval fun f => ?_
    exact withValues_tracks heval (fun vs => call_tracks heval f vs) _
  | index left position =>
    exact withValue_tracks heval fun _ => withValue_tracks heval fun _ => .pure _

end

theorem step_letStatement_apply (table : BuiltinTable) (name : String) (e : Node) (scope : ScopeId) (s : Traced) :
    step eval table (.letStatement name e) scope s =
      match eval e scope s with
      | .ok (.error failure) s' => .ok (.error failure) s'
      | .ok v s' => .ok .null { s' with world := s'.world.set scope name v }
      | .error reason s' => .error reason s' := by
  change EStateM.bind (eval e scope) _ s = _
  rw [EStateM.bind]
  cases eval e scope s with
  | error reason s' => rfl
  | ok v s' => cases v <;> rfl

/-- A `let` statement binds its name before its end is in the log, so that the account is wrong in between. -/
theorem letStatement_tracks (heval : Accountable own start eval) (table : BuiltinTable) (name : String) (e : Node)
    (scope : ScopeId) :
    Tracks own start (during (.evaluation (.letStatement name e) scope)
      (step eval table (.letStatement name e) scope)) := by
  intro s h
  have hs := heval.tracks e scope _ (@Accounts.begins _ _ _ (.evaluation (.letStatement name e) scope) h)
  rw [during_apply, step_letStatement_apply]
  cases hresult : eval e scope ⟨s.world, s.log ++ [⟨.begins (.evaluation (.letStatement name e) scope), s.world⟩]⟩ with
  | error reason s' =>
    rw [hresult] at hs
    exact hs
  | ok v s' =>
    rw [hresult] at hs
    have hlast := heval.last hresult
    cases v with
    | error e => exact hs.ends fun _ _ _ _ => nofun
    | _ => exact hs.binds hlast name e scope

theorem accountable_step (heval : Accountable own start eval) (table : BuiltinTable) :
    Accountable own start fun node scope => during (.evaluation node scope) (step eval table node scope) where
  tracks node scope := by
    -- only `let` statements change the scope by themselves, and they need the value that was there last
    by_cases hlet : ∃ name e, node = .letStatement name e
    · obtain ⟨name, e, rfl⟩ := hlet
      exact letStatement_tracks heval table name e scope
    · have hnode : ∀ name e, node ≠ .letStatement name e := fun name e h => hlet ⟨name, e, h⟩
      refine .during (step_tracks heval.tracks table scope hnode) fun name e place h => ?_
      injection h with h
      exact hnode name e h
  last := by
    intro node scope s v s' h
    rw [during_apply] at h
    split at h
    · cases h
      rw [List.foldl_append, List.foldl_cons, List.foldl_nil]
      exact Account.last_read_ends ..
    · cases h

end TracedEvaluator

/-- The bindings of a scope that there is are read off the log of any evaluation, as far as it has come. -/
theorem accountable_traced (table : BuiltinTable) (own : ScopeId) (start : Account) (depth : Nat) :
    TracedEvaluator.Accountable own start (traced table depth) := by
  induction depth with
  | zero => exact ⟨fun _ _ => .throw _, nofun⟩
  | succ depth ih => exact TracedEvaluator.accountable_step ih table

end MonkeyLanguage
