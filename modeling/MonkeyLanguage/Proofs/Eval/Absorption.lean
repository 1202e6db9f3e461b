import MonkeyLanguage.Proofs.Eval.Trace

/-!
# Failures are absorbing

Once an activity ends with a failure, all that happens is that the activities around it end with the same
failure: nothing begins any more, and the world stays as it is (`failures_are_absorbing`).  So the log of a run is
free of failures up to some entry, and the rest of it is fixed by the activities under way there.

`Absorbed` says this of the log that a part of a run adds.  The parts of a run are put together in two ways,
one after the other (`Absorbed.append`) and inside an activity (`Absorbed.within`).
-/

namespace MonkeyLanguage

/-- The entry with which an activity ends with a failure. -/
def Activity.fails (e : RuntimeError) (w : World) (activity : Activity) : Entry :=
  ⟨.ends activity (.error e), w⟩

/-- The activities under way after a log that starts with those of `stack` under way. -/
def pendingFrom (stack : List Activity) (log : List Entry) : List Activity :=
  log.foldl Entry.read stack

/-- A log without failures that ends no activity but those it begins. -/
structure Sober (log : List Entry) : Prop where
  failure?_eq_none : ∀ entry ∈ log, entry.failure? = none
  nested : ∀ stack, pendingFrom stack log = pending log ++ stack

/-- The log of a part of a run with the value and the world at its end. -/
inductive Absorbed : List Entry → Value → World → Prop where
  | value {log : List Entry} {v : Value} {w : World} (hsober : Sober log) (hpending : pending log = [])
    (hv : v.failure? = none) : Absorbed log v w
  | failure {before : List Entry} {e : RuntimeError} {w : World} (hsober : Sober before) :
    Absorbed (before ++ (pending before).map (Activity.fails e w)) (.error e) w

variable {log log' before after : List Entry} {v v' : Value} {w : World} {e : RuntimeError}
  {activity : Activity} {stack : List Activity}

/-! ## Logs -/

theorem pendingFrom_append : pendingFrom stack (log ++ log') = pendingFrom (pendingFrom stack log) log' :=
  List.foldl_append

theorem pendingFrom_fails (activities : List Activity) :
    pendingFrom (activities ++ stack) (activities.map (Activity.fails e w)) = stack := by
  induction activities with
  | nil => rfl
  | cons activity activities ih => exact ih

namespace Sober

theorem nil : Sober [] :=
  ⟨nofun, fun _ => rfl⟩

theorem begins (activity : Activity) (w : World) : Sober [⟨.begins activity, w⟩] := by
  refine ⟨fun entry hentry => ?_, fun _ => rfl⟩
  rw [List.mem_singleton.1 hentry]
  rfl

theorem pending_append (h' : Sober log') : pending (log ++ log') = pending log' ++ pending log :=
  pendingFrom_append.trans (h'.nested _)

theorem append (h : Sober log) (h' : Sober log') : Sober (log ++ log') := by
  refine ⟨fun entry hentry => ?_, fun stack => ?_⟩
  · rcases List.mem_append.1 hentry with hentry | hentry
    · exact h.failure?_eq_none entry hentry
    · exact h'.failure?_eq_none entry hentry
  · rw [pendingFrom_append, h.nested, h'.nested, h'.pending_append, List.append_assoc]

theorem within (h : Sober log) (hpending : pending log = []) (activity : Activity) (w w' : World)
    (hv : v.failure? = none) : Sober (⟨.begins activity, w⟩ :: log ++ [⟨.ends activity v, w'⟩]) := by
  have hbegun : Sober (⟨.begins activity, w⟩ :: log) := (begins activity w).append h
  have hopen : pending (⟨.begins activity, w⟩ :: log) = [activity] := by
    have hopen := @pending_append [⟨.begins activity, w⟩] _ h
    rw [hpending] at hopen
    exact hopen
  refine ⟨fun entry hentry => ?_, fun stack => ?_⟩
  · rcases List.mem_append.1 hentry with hentry | hentry
    · exact hbegun.failure?_eq_none entry hentry
    · rw [List.mem_singleton.1 hentry]
      exact hv
  · rw [pendingFrom_append, hbegun.nested, hopen, pending, List.foldl_append]
    change stack = (pending (⟨.begins activity, w⟩ :: log)).tail ++ stack
    rw [hopen]
    rfl

theorem pending_within (h : Sober log) (hpending : pending log = []) (activity : Activity) (w w' : World) :
    pending (⟨.begins activity, w⟩ :: log ++ [⟨.ends activity v, w'⟩]) = [] := by
  have hopen := @pending_append [⟨.begins activity, w⟩] _ h
  rw [hpending] at hopen
  rw [pending, List.foldl_append]
  change (pending (⟨.begins activity, w⟩ :: log)).tail = []
  exact congrArg List.tail hopen

end Sober

namespace Absorbed

theorem of_sober (h : Sober log) (hpending : pending log = []) : Absorbed log v w := by
  cases v with
  | error e =>
    have habsorbed := @Absorbed.failure _ e w h
    rw [hpending, List.map_nil, List.append_nil] at habsorbed
    exact habsorbed
  | _ => exact .value h hpending rfl

theorem sober (h : Absorbed log v w) (hv : v.failure? = none) : Sober log ∧ pending log = [] := by
  cases h with
  | value hsober hpending => exact ⟨hsober, hpending⟩
  | failure => cases hv

theorem append (h : Absorbed log v w) (hv : v.failure? = none) {w' : World} (h' : Absorbed log' v' w') :
    Absorbed (log ++ log') v' w' := by
  obtain ⟨hsober, hpending⟩ := h.sober hv
  cases h' with
  | value hsober' hpending' hv' =>
    refine .value (hsober.append hsober') ?_ hv'
    rw [hsober'.pending_append, hpending, hpending']
    rfl
  | @failure before e _ hsober' =>
    have habsorbed := @Absorbed.failure _ e w' (hsober.append hsober')
    rw [hsober'.pending_append, hpending, List.append_nil, List.append_assoc] at habsorbed
    exact habsorbed

theorem within (h : Absorbed log v w) (activity : Activity) (w₀ : World) :
    Absorbed (⟨.begins activity, w₀⟩ :: log ++ [⟨.ends activity v, w⟩]) v w := by
  cases h with
  | value hsober hpending hv =>
    exact .value (hsober.within hpending activity w₀ w hv) (hsober.pending_within hpending activity w₀ w) hv
  | @failure before e _ hsober =>
    have hbegun : Sober (⟨.begins activity, w₀⟩ :: before) := (Sober.begins activity w₀).append hsober
    have hopen : pending (⟨.begins activity, w₀⟩ :: before) = pending before ++ [activity] :=
      @Sober.pending_append [⟨.begins activity, w₀⟩] _ hsober
    have habsorbed := @Absorbed.failure _ e w hbegun
    rw [hopen, List.map_append, ← List.append_assoc] at habsorbed
    exact habsorbed

/-- From an entry with a failure on, the log is fixed by the activities under way before it. -/
theorem entry_eq {entry : Entry} (h : Absorbed log v w) (hlog : log = before ++ entry :: after)
    (hentry : entry.failure? = some e) :
    v = .error e ∧ w = entry.world ∧ entry :: after = (pending before).map (Activity.fails e entry.world) := by
  have hnot {quiet : List Entry} (hsober : Sober quiet) : entry ∉ quiet := fun hmem => by
    rw [hsober.failure?_eq_none entry hmem] at hentry
    cases hentry
  cases h with
  | value hsober => exact absurd (hlog ▸ by simp) (hnot hsober)
  | @failure quiet e' _ hsober =>
    rcases List.append_eq_append_iff.1 hlog with ⟨ended, rfl, hrest⟩ | ⟨open', rfl, hrest⟩
    · obtain ⟨left, right, hpending, rfl, hright⟩ := List.map_eq_append_iff.1 hrest
      obtain ⟨activity, others, rfl, rfl, rfl⟩ := List.map_eq_cons_iff.1 hright
      obtain rfl : e' = e := Option.some.inj hentry
      have hopen : pending (quiet ++ left.map (Activity.fails e' w)) = activity :: others := by
        change pendingFrom [] _ = _
        rw [pendingFrom_append]
        change pendingFrom (pending quiet) _ = _
        rw [hpending, pendingFrom_fails]
      exact ⟨rfl, rfl, by rw [hopen]; rfl⟩
    · cases open' with
      | nil =>
        obtain ⟨activity, others, hpending, rfl, rfl⟩ := List.map_eq_cons_iff.1 hrest.symm
        obtain rfl : e' = e := Option.some.inj hentry
        rw [List.append_nil] at hpending
        exact ⟨rfl, rfl, by rw [hpending]; rfl⟩
      | cons first others =>
        obtain ⟨rfl, -⟩ := List.cons.inj hrest
        exact absurd (by simp) (hnot hsober)

/-- The first failure of a log comes behind entries without one. -/
theorem exists_first (h : Absorbed log (.error e) w) (hfails : ∃ entry ∈ log, entry.failure? ≠ none) :
    ∃ before entry after, log = before ++ entry :: after ∧ entry.failure? = some e ∧
      ∀ earlier ∈ before, earlier.failure? = none := by
  cases h with
  | value _ _ hv => cases hv
  | @failure quiet _ _ hsober =>
    cases hpending : pending quiet with
    | nil =>
      obtain ⟨entry, hentry, hne⟩ := hfails
      rw [hpending, List.map_nil, List.append_nil] at hentry
      exact absurd (hsober.failure?_eq_none entry hentry) hne
    | cons activity activities => exact ⟨quiet, _, _, rfl, rfl, hsober.failure?_eq_none⟩

end Absorbed

/-! ## Computations -/

/-- The computation adds a log in which failures are absorbing. -/
def Absorbs (m : TraceM Value) : Prop :=
  ∀ s, match m s with
    | .ok v s' => ∃ log, s'.log = s.log ++ log ∧ Absorbed log v s'.world
    | .error _ s' => ∃ log, s'.log = s.log ++ log ∧ Sober log

namespace Absorbs

variable {m : TraceM Value} {f : Value → TraceM Value}

theorem pure (v : Value) : Absorbs (Pure.pure v) :=
  fun _ => ⟨[], (List.append_nil _).symm, .of_sober .nil rfl⟩

theorem throw (reason : Abort) : Absorbs (MonadExcept.throw reason) :=
  fun _ => ⟨[], (List.append_nil _).symm, .nil⟩

theorem lift_bind {α : Type} (m : EvalM α) {f : α → TraceM Value} (hf : ∀ a, Absorbs (f a)) :
    Absorbs (TraceM.lift m >>= f) := by
  intro s
  change match EStateM.bind (TraceM.lift m) f s with
    | .ok v s' => ∃ log, s'.log = s.log ++ log ∧ Absorbed log v s'.world
    | .error _ s' => ∃ log, s'.log = s.log ++ log ∧ Sober log
  rw [EStateM.bind, TraceM.lift]
  cases m s.world with
  | ok a w' => exact hf a ⟨w', s.log⟩
  | error reason w' => exact ⟨[], (List.append_nil _).symm, .nil⟩

theorem bind (hm : Absorbs m) (hf : ∀ v, v.failure? = none → Absorbs (f v))
    (hfailure : ∀ e, f (.error e) = Pure.pure (.error e)) : Absorbs (m >>= f) := by
  intro s
  have hs := hm s
  change match EStateM.bind m f s with
    | .ok v s' => ∃ log, s'.log = s.log ++ log ∧ Absorbed log v s'.world
    | .error _ s' => ∃ log, s'.log = s.log ++ log ∧ Sober log
  rw [EStateM.bind]
  cases hresult : m s with
  | error reason s' =>
    rw [hresult] at hs
    exact hs
  | ok v s' =>
    rw [hresult] at hs
    obtain ⟨log, hlog, habsorbed⟩ := hs
    cases hv : v.failure? with
    | some e =>
      obtain rfl : v = .error e := by
        cases v with
        | error e' => exact congrArg Value.error (Option.some.inj hv)
        | _ => cases hv
      simp only [hfailure]
      exact ⟨log, hlog, habsorbed⟩
    | none =>
      have hnext := hf v hv s'
      simp only
      cases hfs : f v s' with
      | ok v' s₂ =>
        rw [hfs] at hnext
        obtain ⟨log', hlog', habsorbed'⟩ := hnext
        exact ⟨log ++ log', by rw [hlog', hlog, List.append_assoc], habsorbed.append hv habsorbed'⟩
      | error reason s₂ =>
        rw [hfs] at hnext
        obtain ⟨log', hlog', hsober'⟩ := hnext
        exact ⟨log ++ log', by rw [hlog', hlog, List.append_assoc], (habsorbed.sober hv).1.append hsober'⟩

theorem unwrap (hm : Absorbs m) : Absorbs (m >>= fun v => Pure.pure v.unwrapReturned) :=
  hm.bind (fun _ _ => .pure _) fun _ => rfl

theorem during (activity : Activity) (hm : Absorbs m) : Absorbs (TraceM.during activity m) := by
  intro s
  have hs := hm ⟨s.world, s.log ++ [⟨.begins activity, s.world⟩]⟩
  rw [TraceM.during_apply]
  cases hresult : m ⟨s.world, s.log ++ [⟨.begins activity, s.world⟩]⟩ with
  | ok v s' =>
    rw [hresult] at hs
    obtain ⟨log, hlog, habsorbed⟩ := hs
    refine ⟨⟨.begins activity, s.world⟩ :: log ++ [⟨.ends activity v, s'.world⟩], ?_,
      habsorbed.within activity s.world⟩
    rw [hlog]
    simp
  | error reason s' =>
    rw [hresult] at hs
    obtain ⟨log, hlog, hsober⟩ := hs
    exact ⟨⟨.begins activity, s.world⟩ :: log, by rw [hlog]; simp, (Sober.begins activity s.world).append hsober⟩

end Absorbs

/-! ## The forms of the evaluator -/

namespace TracedEvaluator

variable {eval : TracedEvaluator} {scope : ScopeId} {node : Node} {nodes : List Node}

theorem withValue_absorbs {next : Value → TraceM Value} (heval : ∀ node scope, Absorbs (eval node scope))
    (hnext : ∀ v, Absorbs (next v)) : Absorbs (withValue eval scope node next) := by
  refine (heval node scope).bind (fun v hv => ?_) fun _ => rfl
  cases v with
  | error e => cases hv
  | _ => exact hnext _

section

variable (heval : ∀ node scope, Absorbs (eval node scope))
include heval

theorem withValues_absorbs {next : List Value → TraceM Value} (hnext : ∀ vs, Absorbs (next vs))
    (before : List Value) : Absorbs (withValues eval scope next before nodes) := by
  induction nodes generalizing before with
  | nil => exact hnext _
  | cons node nodes ih => exact withValue_absorbs heval fun v => ih (v :: before)

theorem entries_absorbs {pairs : List (Node × Node)} (before : List (HashKey × Value)) :
    Absorbs (entries eval scope before pairs) := by
  induction pairs generalizing before with
  | nil => exact .pure _
  | cons pair pairs ih =>
    refine withValue_absorbs heval fun k => ?_
    cases k.hashKey? with
    | none => exact .pure _
    | some key => exact withValue_absorbs heval fun v => ih _

theorem statements_absorbs (last : Value) : Absorbs (statements eval scope last nodes) := by
  induction nodes generalizing last with
  | nil => exact .pure _
  | cons node nodes ih =>
    refine (heval node scope).bind (fun v hv => ?_) fun _ => rfl
    cases v with
    | returned v => exact .pure _
    | error e => cases hv
    | _ => exact ih _

theorem call_absorbs (function : Value) (arguments : List Value) : Absorbs (call eval function arguments) := by
  refine .during _ ?_
  cases function with
  | function identity parameters body outer =>
    by_cases hlength : arguments.length = parameters.length
    · simp only [if_neg (not_not_intro hlength)]
      exact .lift_bind _ fun scope => (heval body scope).unwrap
    · simp only [if_pos hlength]
      exact .pure _
  | builtin b => exact .during _ (.lift_bind _ fun _ => .pure _)
  | _ => exact .pure _

theorem step_absorbs (table : BuiltinTable) (node : Node) (scope : ScopeId) :
    Absorbs (step eval table node scope) := by
  cases node with
  | absent => exact .throw _
  | program nodes => exact (statements_absorbs heval _).unwrap
  | block nodes => exact statements_absorbs heval _
  | expressionStatement e => exact heval e scope
  | returnStatement e => exact withValue_absorbs heval fun _ => .pure _
  | letStatement name e => exact withValue_absorbs heval fun v => .lift_bind _ fun _ => .pure _
  | integer n => exact .pure _
  | string s => exact .pure _
  | boolean b => exact .pure _
  | array nodes => exact withValues_absorbs heval (fun _ => .pure _) _
  | hash pairs => exact entries_absorbs heval _
  | function parameters body => exact .lift_bind _ fun _ => .pure _
  | identifier name =>
    have hlookUp := Absorbs.lift_bind (Evaluator.lookUp table scope name) Absorbs.pure
    rw [bind_pure] at hlookUp
    exact hlookUp
  | unary operator e => exact withValue_absorbs heval fun _ => .pure _
  | binary left operator right =>
    exact withValue_absorbs heval fun _ => withValue_absorbs heval fun _ => .pure _
  | ifElse condition consequence alternative =>
    refine withValue_absorbs heval fun v => ?_
    by_cases hv : v.isTruthy = true
    · simp only [if_pos hv]
      exact heval consequence scope
    · simp only [if_neg hv]
      cases alternative with
      | absent => exact .pure _
      | _ => exact heval _ scope
  | call callee arguments =>
    refine withValue_absorbs heval fun f => ?_
    exact withValues_absorbs heval (fun vs => call_absorbs heval f vs) _
  | index left position =>
    exact withValue_absorbs heval fun _ => withValue_absorbs heval fun _ => .pure _

end

end TracedEvaluator

theorem absorbs_traced (table : BuiltinTable) (depth : Nat) (node : Node) (scope : ScopeId) :
    Absorbs (traced table depth node scope) := by
  induction depth generalizing node scope with
  | zero => exact .throw _
  | succ depth ih => exact .during _ (TracedEvaluator.step_absorbs ih table node scope)

/-! ## Runs -/

variable {table : BuiltinTable} {depth : Nat} {node : Node} {scope : ScopeId} {w' : World}

theorem trace_absorbed (table : BuiltinTable) (depth : Nat) (node : Node) (scope : ScopeId) (w : World) :
    match eval table depth node scope w with
    | .ok v w' => Absorbed (trace table depth node scope w) v w'
    | .error _ _ => Sober (trace table depth node scope w) := by
  have habsorbs := absorbs_traced table depth node scope ⟨w, []⟩
  rw [← erases_traced table depth node scope ⟨w, []⟩, trace]
  cases hresult : traced table depth node scope ⟨w, []⟩ with
  | ok v s =>
    rw [hresult] at habsorbs
    obtain ⟨log, hlog, habsorbed⟩ := habsorbs
    obtain rfl : s.log = log := hlog
    exact habsorbed
  | error reason s =>
    rw [hresult] at habsorbs
    obtain ⟨log, hlog, hsober⟩ := habsorbs
    obtain rfl : s.log = log := hlog
    exact hsober

theorem trace_of_failure {entry : Entry} (htrace : trace table depth node scope w = before ++ entry :: after)
    (hentry : entry.failure? = some e) :
    eval table depth node scope w = .ok (.error e) entry.world ∧
      entry :: after = (pending before).map (Activity.fails e entry.world) := by
  have habsorbed := trace_absorbed table depth node scope w
  cases hresult : eval table depth node scope w with
  | ok v w' =>
    rw [hresult] at habsorbed
    obtain ⟨rfl, rfl, hafter⟩ := habsorbed.entry_eq htrace hentry
    exact ⟨rfl, hafter⟩
  | error reason w' =>
    rw [hresult] at habsorbed
    have hnone := habsorbed.failure?_eq_none entry (by rw [htrace]; simp)
    rw [hentry] at hnone
    cases hnone

theorem ends_mem_trace (h : eval table depth node scope w = .ok v w') :
    ⟨.ends (.evaluation node scope) v, w'⟩ ∈ trace table depth node scope w := by
  have herases := erases_traced table depth node scope ⟨w, []⟩
  rw [h] at herases
  cases depth with
  | zero => cases herases
  | succ depth =>
    rw [trace]
    rw [traced, TraceM.during_apply] at herases ⊢
    revert herases
    cases TracedEvaluator.step (traced table depth) table node scope
        ⟨w, [] ++ [⟨.begins (.evaluation node scope), w⟩]⟩ with
    | ok v' s =>
      intro herases
      cases herases
      exact List.mem_append_right _ (List.mem_singleton_self _)
    | error reason s =>
      intro herases
      cases herases

/-- Once any activity of a run ends with a failure, that failure is the value of the run.  All that follows is that
the activities under way end with it, from inside to outside, while the world stays as it is.  A run that fails has a
first failure, and no other. -/
theorem failures_are_absorbing (table : BuiltinTable) (depth : Nat) (node : Node) (scope : ScopeId) (w : World) :
    (∀ before entry after e, trace table depth node scope w = before ++ entry :: after →
      entry.failure? = some e →
        eval table depth node scope w = .ok (.error e) entry.world ∧
        entry :: after = (pending before).map (Activity.fails e entry.world)) ∧
    (∀ e w', eval table depth node scope w = .ok (.error e) w' →
      ∃ before entry after, trace table depth node scope w = before ++ entry :: after ∧
        entry.failure? = some e ∧ ∀ earlier ∈ before, earlier.failure? = none) ∧
    ∀ one ∈ trace table depth node scope w, ∀ another ∈ trace table depth node scope w, ∀ e e',
      one.failure? = some e → another.failure? = some e' → e = e' := by
  refine ⟨fun before entry after e => trace_of_failure, fun e w' h => ?_,
    fun one hone another hanother e e' he he' => ?_⟩
  · have habsorbed := trace_absorbed table depth node scope w
    rw [h] at habsorbed
    exact habsorbed.exists_first ⟨_, ends_mem_trace h, Option.some_ne_none e⟩
  · obtain ⟨before, after, htrace⟩ := List.append_of_mem hone
    obtain ⟨before', after', htrace'⟩ := List.append_of_mem hanother
    have hvalue := (trace_of_failure htrace he).1
    rw [(trace_of_failure htrace' he').1] at hvalue
    injection hvalue with hvalue
    injection hvalue with hvalue
    exact hvalue.symm

example : (trace .default 4 (.array [.boolean true, .unary "-" (.boolean true), .integer 1]) 0 .empty).map
    Entry.failure? = [none, none, none, none, none, none, some (.unknownUnary "-" .boolean),
      some (.unknownUnary "-" .boolean)] := rfl

end MonkeyLanguage
