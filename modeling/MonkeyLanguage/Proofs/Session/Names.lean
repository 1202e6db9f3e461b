import MonkeyLanguage.Proofs.Session.Bindings
import MonkeyLanguage.Proofs.Session.Stored

/-!
# Names of a session

The names of a session are those that its programs have bound outside of functions, in the order in which they were
bound first (`names_after`).  A name has a value if it is one of these or that of a builtin (`resolves_iff`).

The scope of a session is in no other and stays so, hence the names are the keys of its bindings, and these are read
off the logs.
-/

namespace MonkeyLanguage

/-! ## Names in logs -/

/-- The name that is bound in a scope as an entry says. -/
def Entry.boundName? (own : ScopeId) (entry : Entry) : Option String :=
  match entry.event with
  | .ends (.evaluation (.letStatement name _) scope) .null => if scope = own then some name else none
  | _ => none

/-- An entry binds the name that it says, to the value with which an activity ended last. -/
theorem Account.bindings_read (own : ScopeId) (account : Account) (entry : Entry) :
    (account.read own entry).bindings =
      match entry.boundName? own with
      | some name => account.bindings.insert name account.last
      | none => account.bindings := by
  obtain ⟨event, w⟩ := entry
  cases event with
  | begins activity => rfl
  | ends activity v =>
    by_cases hlet : ∃ name e scope, activity = .evaluation (.letStatement name e) scope ∧ v = .null
    · obtain ⟨name, e, scope, rfl, rfl⟩ := hlet
      by_cases hscope : scope = own <;> simp [read, Entry.boundName?, hscope]
    · have hname : Entry.boundName? own ⟨.ends activity v, w⟩ = none := by
        unfold Entry.boundName?
        split
        · next name e scope hevent =>
          cases hevent
          exact absurd ⟨name, e, scope, rfl, rfl⟩ hlet
        · rfl
      rw [hname, read]
      split
      · rfl
      · next name e scope hevent =>
        cases hevent
        exact absurd ⟨name, e, scope, rfl, rfl⟩ hlet
      · rfl

theorem exists_pairs_of_log (own : ScopeId) (account : Account) (log : List Entry) :
    ∃ pairs : List (String × Value), OrderedMap.keys pairs = log.filterMap (Entry.boundName? own) ∧
      (log.foldl (Account.read own) account).bindings =
        pairs.foldl (fun m pair => OrderedMap.insert m pair.1 pair.2) account.bindings := by
  induction log generalizing account with
  | nil => exact ⟨[], rfl, rfl⟩
  | cons entry log ih =>
    obtain ⟨pairs, hkeys, hpairs⟩ := ih (account.read own entry)
    rw [Account.bindings_read] at hpairs
    cases hname : entry.boundName? own with
    | none =>
      rw [hname] at hpairs
      exact ⟨pairs, by rw [hkeys, List.filterMap_cons_none hname], hpairs⟩
    | some name =>
      rw [hname] at hpairs
      refine ⟨(name, account.last) :: pairs, ?_, hpairs⟩
      rw [List.filterMap_cons_some hname, ← hkeys]
      rfl

theorem exists_boundBy_eq (own : ScopeId) (log : List Entry) :
    ∃ pairs : List (String × Value), OrderedMap.keys pairs = log.filterMap (Entry.boundName? own) ∧
      boundBy own [] log = .ofList pairs :=
  exists_pairs_of_log own ⟨.null, []⟩ log

namespace Session

variable {table : BuiltinTable} {s : Session} {limit : Nat} {name : String}

/-! ## The scope of a session -/

/-- The scope of the session is in no other. -/
def IsOutermost (s : Session) : Prop :=
  ∃ bindings, s.world.scopes[s.scope]? = some ⟨none, bindings⟩

theorem IsOutermost.evaluate (h : s.IsOutermost) (node : Node) : (s.evaluate table node).session.IsOutermost := by
  obtain ⟨bindings, hscope⟩ := h
  obtain ⟨scope, hafter, hgrows⟩ :=
    (framed_eval table (s.limit + 1) node s.scope { s.world with output := "" }).own _ hscope
  obtain ⟨outer, bindings'⟩ := scope
  obtain rfl : outer = none := hgrows.outer_eq
  rw [World.after] at hafter
  rw [Session.evaluate]
  generalize eval table (s.limit + 1) node s.scope _ = result at hafter
  cases result <;> exact ⟨bindings', hafter⟩

theorem IsOutermost.run (h : s.IsOutermost) (frontEnd : FrontEnd) (source : String) :
    (s.run frontEnd table source).session.IsOutermost := by
  unfold Session.run
  split
  · exact h.evaluate _
  · exact h

theorem IsOutermost.after (h : s.IsOutermost) (texts : List (FrontEnd × String)) :
    (s.after table texts).IsOutermost := by
  induction texts generalizing s with
  | nil => exact h
  | cons text texts ih => exact ih (h.run text.1 text.2)

theorem isOutermost_empty : (Session.empty limit).IsOutermost :=
  ⟨[], rfl⟩

theorem IsOutermost.names_eq (h : s.IsOutermost) : s.names = (OrderedMap.keys s.bindings).eraseDups := by
  obtain ⟨bindings, hscope⟩ := h
  rw [names, World.names, World.chain, hscope, Session.bindings, World.bindings, hscope]
  exact congrArg List.eraseDups (List.append_nil _)

theorem IsOutermost.get?_eq (h : s.IsOutermost) (name : String) :
    s.world.get? s.scope name = OrderedMap.get? s.bindings name := by
  obtain ⟨bindings, hscope⟩ := h
  rw [World.get?_eq, Session.bindings, World.bindings, hscope]
  exact Option.or_none

theorem IsOutermost.scope_lt (h : s.IsOutermost) : s.scope < s.world.scopes.size :=
  let ⟨_, hscope⟩ := h
  (Array.getElem?_eq_some_iff.1 hscope).1

theorem IsOutermost.mem_names_iff (h : s.IsOutermost) : name ∈ s.names ↔ s.world.get? s.scope name ≠ none := by
  rw [h.names_eq, h.get?_eq, List.mem_eraseDups, Ne, OrderedMap.get?_eq_none_iff, not_not]

/-! ## Names and what they stand for -/

theorem names_after (table : BuiltinTable) (texts : List (FrontEnd × String)) :
    ((Session.empty limit).after table texts).names =
        (((Session.empty limit).logs table texts).filterMap (Entry.boundName? (Session.empty limit).scope)).eraseDups ∧
      ((Session.empty limit).after table texts).names.Nodup := by
  obtain ⟨pairs, hkeys, hpairs⟩ :=
    exists_boundBy_eq (Session.empty limit).scope ((Session.empty limit).logs table texts)
  have hbindings : ((Session.empty limit).after table texts).bindings = .ofList pairs :=
    (bindings_after isOutermost_empty.scope_lt texts).trans hpairs
  have hdistinct : (OrderedMap.keys (.ofList pairs)).Nodup := OrderedMap.nodup_keys_ofList pairs
  have hnames : ((Session.empty limit).after table texts).names = OrderedMap.keys (.ofList pairs) := by
    rw [(isOutermost_empty.after texts).names_eq, hbindings, ← OrderedMap.keys_ofList,
      OrderedMap.ofList_eq_self hdistinct]
  rw [hnames, ← hkeys]
  exact ⟨OrderedMap.keys_ofList pairs, hdistinct⟩

/-- The name stands for a value in the session: evaluating it does not fail for want of one. -/
def Resolves (s : Session) (table : BuiltinTable) (name : String) : Prop :=
  (s.evaluate table (.identifier name)).outcome ≠ .finished (.error (.unboundName name))

theorem outcome_identifier (hscope : s.scope < s.world.scopes.size) (name : String) :
    (s.evaluate table (.identifier name)).outcome = .finished
      (((s.world.get? s.scope name).or ((table.get? name).map .builtin)).getD (.error (.unboundName name))) := by
  have hkeeps : s.world.Keeps { s.world with output := "" } := ⟨Nat.le_refl _, fun _ _ => rfl⟩
  have heval : eval table (s.limit + 1) (.identifier name) s.scope { s.world with output := "" } = _ :=
    Evaluator.lookUp_apply table s.scope name { s.world with output := "" }
  rw [hkeeps.get?_eq hscope] at heval
  rw [Session.evaluate, heval]
  cases s.world.get? s.scope name with
  | some v => rfl
  | none => cases table.get? name <;> rfl

theorem resolves_iff (houtermost : s.IsOutermost) (hstorable : Invariant.storable.Holds s.world) :
    s.Resolves table name ↔ name ∈ s.names ∨ name ∈ OrderedMap.keys table := by
  rw [Resolves, outcome_identifier houtermost.scope_lt, houtermost.mem_names_iff]
  have htable : name ∈ OrderedMap.keys table ↔ table.get? name ≠ none :=
    (not_iff_comm.1 (OrderedMap.get?_eq_none_iff table name).symm).symm
  rw [htable]
  cases hbound : s.world.get? s.scope name with
  | some v =>
    -- what is bound is no failure
    have hv := (Value.holdsNoFailure_of_held (hstorable.get? hbound)).ne_error (.unboundName name)
    simpa using hv
  | none => cases table.get? name <;> simp

end Session

end MonkeyLanguage
