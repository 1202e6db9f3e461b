import MonkeyLanguage.Eval.Evaluator

/-!
# What evaluation changes

Evaluation in a scope binds names in this scope only, and only names of `let` statements that stand outside
of the functions in the tree (`Node.letNames`).  Calls run in scopes of their own, which are made for them.
So all other scopes stay as they are (`evaluation_binds_own_scope`), also when the evaluation fails or is
aborted.

`Frame` compares a world with a later one.  It holds of the empty computation and composes, so each form of
the evaluator is in the frame if the evaluations of its parts are.
-/

namespace MonkeyLanguage

/-! ## Names that a tree binds -/

namespace Node

mutual

/-- The names of the `let` statements in a tree that stand outside of the functions in it. -/
def letNames : Node → List String
  | letStatement name value => name :: letNames value
  | unary _ e | returnStatement e | expressionStatement e => letNames e
  | binary a _ b | index a b => letNames a ++ letNames b
  | ifElse condition consequence alternative =>
    letNames condition ++ letNames consequence ++ letNames alternative
  | call callee arguments => letNames callee ++ letNamesOf arguments
  | array nodes | block nodes | program nodes => letNamesOf nodes
  | hash pairs => letNamesOfPairs pairs
  | absent | identifier _ | integer _ | boolean _ | string _ | function .. => []

def letNamesOf : List Node → List String
  | [] => []
  | node :: nodes => letNames node ++ letNamesOf nodes

def letNamesOfPairs : List (Node × Node) → List String
  | [] => []
  | (key, value) :: pairs => letNames key ++ letNames value ++ letNamesOfPairs pairs

end

end Node

/-! ## The frame -/

/-- The world that a computation leaves, whether it gives a value or is aborted. -/
def World.after {α : Type} (w : World) (m : EvalM α) : World :=
  match m w with
  | .ok _ w' => w'
  | .error _ w' => w'

/-- A later state of a scope: no binding is gone, and only the names given may have other values. -/
structure Scope.Grows (names : List String) (s s' : Scope) : Prop where
  outer_eq : s'.outer = s.outer
  keys_prefix : OrderedMap.keys s.bindings <+: OrderedMap.keys s'.bindings
  get?_eq : ∀ name ∉ names, OrderedMap.get? s'.bindings name = OrderedMap.get? s.bindings name

/-- A later world: of the scopes there were, only `own` may have changed, by bindings of the names given. -/
structure Frame (own : ScopeId) (names : List String) (w w' : World) : Prop where
  size_le : w.scopes.size ≤ w'.scopes.size
  other : ∀ id < w.scopes.size, id ≠ own → w'.scopes[id]? = w.scopes[id]?
  own : ∀ s, w.scopes[own]? = some s → ∃ s', w'.scopes[own]? = some s' ∧ s.Grows names s'

structure World.Keeps (w w' : World) : Prop where
  size_le : w.scopes.size ≤ w'.scopes.size
  same : ∀ id < w.scopes.size, w'.scopes[id]? = w.scopes[id]?

variable {own scope : ScopeId} {names names' : List String} {w w' w₁ w₂ : World} {s s₁ s₂ : Scope}
  {α β : Type}

theorem Scope.Grows.refl : s.Grows names s :=
  ⟨rfl, List.prefix_refl _, fun _ _ => rfl⟩

theorem Scope.Grows.trans (h₁ : s.Grows names s₁) (h₂ : s₁.Grows names s₂) : s.Grows names s₂ :=
  ⟨h₂.outer_eq.trans h₁.outer_eq, h₁.keys_prefix.trans h₂.keys_prefix,
    fun name hname => (h₂.get?_eq name hname).trans (h₁.get?_eq name hname)⟩

theorem Scope.Grows.insert {name : String} (hname : name ∈ names) (v : Value) :
    s.Grows names { s with bindings := OrderedMap.insert s.bindings name v } := by
  refine ⟨rfl, ?_, fun other hother => ?_⟩
  · rw [OrderedMap.keys_insert]
    split
    · exact List.prefix_refl _
    · exact List.prefix_append ..
  · refine OrderedMap.get?_insert_of_ne _ _ ?_
    rintro rfl
    exact hother hname

theorem World.Keeps.frame (h : w.Keeps w') : Frame own names w w' := by
  refine ⟨h.size_le, fun id hid _ => h.same id hid, fun s hs => ⟨s, ?_, .refl⟩⟩
  obtain ⟨hown, -⟩ := Array.getElem?_eq_some_iff.1 hs
  rw [h.same own hown, hs]

theorem World.Keeps.refl : w.Keeps w :=
  ⟨Nat.le_refl _, fun _ _ => rfl⟩

theorem World.get?_eq (w : World) (id : ScopeId) (name : String) :
    w.get? id name = w.scopes[id]?.bind fun s =>
      (OrderedMap.get? s.bindings name).or
        (s.outer.bind fun outer => if outer < id then w.get? outer name else none) := by
  have hinner (s : Scope) (chain : List Scope) :
      (s :: chain).findSome? (fun scope => OrderedMap.get? scope.bindings name) =
        (OrderedMap.get? s.bindings name).or (chain.findSome? fun scope => OrderedMap.get? scope.bindings name) := by
    rw [List.findSome?_cons]
    cases OrderedMap.get? s.bindings name <;> rfl
  rw [get?, chain]
  cases w.scopes[id]? with
  | none => rfl
  | some s =>
    obtain ⟨outer, bindings⟩ := s
    cases outer with
    | none => exact hinner _ []
    | some outer =>
      simp only [Option.bind_some]
      split
      · exact hinner ..
      · exact hinner _ []

namespace Frame

theorem trans (h₁ : Frame own names w w₁) (h₂ : Frame own names w₁ w₂) : Frame own names w w₂ := by
  refine ⟨Nat.le_trans h₁.size_le h₂.size_le, fun id hid hne => ?_, fun s hs => ?_⟩
  · rw [h₂.other id (Nat.lt_of_lt_of_le hid h₁.size_le) hne, h₁.other id hid hne]
  · obtain ⟨s₁, hs₁, hgrows₁⟩ := h₁.own s hs
    obtain ⟨s₂, hs₂, hgrows₂⟩ := h₂.own s₁ hs₁
    exact ⟨s₂, hs₂, hgrows₁.trans hgrows₂⟩

theorem mono (h : Frame own names w w') (hnames : names ⊆ names') : Frame own names' w w' := by
  refine ⟨h.size_le, h.other, fun s hs => ?_⟩
  obtain ⟨s', hs', hgrows⟩ := h.own s hs
  exact ⟨s', hs', hgrows.outer_eq, hgrows.keys_prefix,
    fun name hname => hgrows.get?_eq name fun hmem => hname (hnames hmem)⟩

theorem set {name : String} (hname : name ∈ names) (v : Value) : Frame own names w (w.set own name v) := by
  refine ⟨Nat.le_of_eq (Array.size_modify ..).symm, fun id _ hne => ?_, fun s hs => ?_⟩
  · simp only [World.set, Array.getElem?_modify, if_neg (Ne.symm hne)]
  · refine ⟨_, ?_, .insert hname v⟩
    simp only [World.set, Array.getElem?_modify, hs]
    rfl

theorem keeps {outer : Option ScopeId} {bindings : OrderedMap String Value}
    (h : Frame w.scopes.size names (w.addScope outer bindings).2 w') : w.Keeps w' := by
  have hsize : (w.addScope outer bindings).2.scopes.size = w.scopes.size + 1 := Array.size_push ..
  have hgrows := h.size_le
  refine ⟨by omega, fun id hid => ?_⟩
  rw [h.other id (by omega) (Nat.ne_of_lt hid)]
  simp only [World.addScope, Array.getElem?_push, if_neg (Nat.ne_of_lt hid)]

theorem get?_eq {id : ScopeId} {name : String} (h : Frame own names w w') (hid : id < w.scopes.size)
    (hname : name ∉ names) :
    w'.get? id name = w.get? id name := by
  induction id using Nat.strongRecOn with
  | ind id ih =>
    obtain ⟨s, hs⟩ : ∃ s, w.scopes[id]? = some s := ⟨_, Array.getElem?_eq_getElem hid⟩
    obtain ⟨s', hs', hgrows⟩ : ∃ s', w'.scopes[id]? = some s' ∧ s.Grows names s' := by
      by_cases hown : id = own
      · subst hown
        exact h.own s hs
      · exact ⟨s, (h.other id hid hown).trans hs, .refl⟩
    rw [World.get?_eq, World.get?_eq, hs, hs', Option.bind_some, Option.bind_some, hgrows.get?_eq name hname,
      hgrows.outer_eq]
    congr 1
    cases s.outer with
    | none => rfl
    | some outer =>
      rw [Option.bind_some, Option.bind_some]
      split
      · next hlt => exact ih outer hlt (Nat.lt_trans hlt hid)
      · rfl

end Frame

theorem World.Keeps.trans (h : w.Keeps w₁) (h' : w₁.Keeps w') : w.Keeps w' :=
  ⟨Nat.le_trans h.size_le h'.size_le,
    fun id hid => (h'.same id (Nat.lt_of_lt_of_le hid h.size_le)).trans (h.same id hid)⟩

theorem World.Keeps.addScope (w : World) (outer : Option ScopeId) (bindings : OrderedMap String Value) :
    w.Keeps (w.addScope outer bindings).2 :=
  @Frame.keeps [] w _ outer bindings World.Keeps.refl.frame

theorem World.Keeps.get?_eq (h : w.Keeps w') {id : ScopeId} (hid : id < w.scopes.size) (name : String) :
    w'.get? id name = w.get? id name :=
  (h.frame : Frame id [] w w').get?_eq hid List.not_mem_nil

/-- Names stand for something in a scope of the world only. -/
theorem World.lt_size_of_get? {id : ScopeId} {name : String} {v : Value} (h : w.get? id name = some v) :
    id < w.scopes.size := by
  refine Nat.lt_of_not_le fun hle => ?_
  rw [World.get?_eq, Array.getElem?_eq_none hle] at h
  cases h

theorem World.get?_addScope {outer : Nat} (houter : outer < w.scopes.size) (bindings : OrderedMap String Value)
    (name : String) :
    (w.addScope (some outer) bindings).2.get? w.scopes.size name =
      (OrderedMap.get? bindings name).or (w.get? outer name) := by
  have hnew : (w.addScope (some outer) bindings).2.scopes[w.scopes.size]? = some ⟨some outer, bindings⟩ :=
    Array.getElem?_push_size
  rw [World.get?_eq, hnew, Option.bind_some, Option.bind_some, if_pos houter,
    (World.Keeps.addScope w (some outer) bindings).get?_eq houter]

theorem World.get?_set_self {id : ScopeId} (hid : id < w.scopes.size) (name : String) (v : Value) :
    (w.set id name v).get? id name = some v := by
  have hscope : (w.set id name v).scopes[id]? =
      some { w.scopes[id] with bindings := OrderedMap.insert w.scopes[id].bindings name v } := by
    simp only [World.set, Array.getElem?_modify, Array.getElem?_eq_getElem hid]
    rfl
  rw [World.get?_eq, hscope, Option.bind_some, OrderedMap.get?_insert_self]
  rfl

/-! ## Computations in the frame -/

/-- The computation changes nothing but bindings of the names given in the scope given. -/
def Stays (own : ScopeId) (names : List String) (m : EvalM α) : Prop :=
  ∀ w, Frame own names w (w.after m)

variable {m : EvalM α} {f : α → EvalM β}

theorem World.after_bind (w : World) (m : EvalM α) (f : α → EvalM β) :
    w.after (m >>= f) = match m w with
      | .ok a w' => w'.after (f a)
      | .error _ w' => w' := by
  change (match EStateM.bind m f w with | .ok _ w' => w' | .error _ w' => w') = _
  rw [EStateM.bind]
  cases m w <;> rfl

namespace Stays

theorem pure (a : α) : Stays own names (Pure.pure a : EvalM α) :=
  fun _ => World.Keeps.refl.frame

theorem bind (hm : Stays own names m) (hf : ∀ a, Stays own names (f a)) :
    Stays own names (m >>= f) := by
  intro w
  have hw := hm w
  rw [World.after] at hw
  rw [World.after_bind]
  cases hresult : m w with
  | ok a w' =>
    rw [hresult] at hw
    exact hw.trans (hf a w')
  | error e w' =>
    rw [hresult] at hw
    exact hw

theorem mono (h : Stays own names m) (hnames : names ⊆ names') : Stays own names' m :=
  fun w => (h w).mono hnames

theorem of_keeps (h : ∀ w : World, w.Keeps (w.after m)) : Stays own names m :=
  fun w => (h w).frame

end Stays

/-! ## The forms of the evaluator -/

namespace Evaluator

/-- Each evaluation binds names of its tree in its scope, and does not change any other scope. -/
def Framed (eval : Evaluator) : Prop :=
  ∀ node scope, Stays scope node.letNames (eval node scope)

variable {eval : Evaluator} {node : Node} {nodes : List Node}

theorem withValue_stays {next : Value → EvalM Value} (hnode : Stays own names (eval node scope))
    (hnext : ∀ v, Stays own names (next v)) : Stays own names (withValue eval scope node next) := by
  refine hnode.bind fun v => ?_
  cases v with
  | error e => exact .pure _
  | _ => exact hnext _

theorem withValues_stays (heval : Framed eval) {next : List Value → EvalM Value}
    (hnext : ∀ vs, Stays scope names (next vs)) (hnames : Node.letNamesOf nodes ⊆ names)
    (before : List Value) : Stays scope names (withValues eval scope next before nodes) := by
  induction nodes generalizing before with
  | nil => exact hnext _
  | cons node nodes ih =>
    rw [Node.letNamesOf, List.append_subset] at hnames
    exact withValue_stays ((heval node scope).mono hnames.1) fun v => ih hnames.2 (v :: before)

theorem entries_stays (heval : Framed eval) {pairs : List (Node × Node)}
    (hnames : Node.letNamesOfPairs pairs ⊆ names) (before : List (HashKey × Value)) :
    Stays scope names (entries eval scope before pairs) := by
  induction pairs generalizing before with
  | nil => exact .pure _
  | cons pair pairs ih =>
    obtain ⟨keyNode, valueNode⟩ := pair
    rw [Node.letNamesOfPairs, List.append_subset, List.append_subset] at hnames
    refine withValue_stays ((heval keyNode scope).mono hnames.1.1) fun k => ?_
    cases k.hashKey? with
    | none => exact .pure _
    | some key =>
      exact withValue_stays ((heval valueNode scope).mono hnames.1.2) fun v => ih hnames.2 _

theorem statements_stays (heval : Framed eval) (hnames : Node.letNamesOf nodes ⊆ names) (last : Value) :
    Stays scope names (statements eval scope last nodes) := by
  induction nodes generalizing last with
  | nil => exact .pure _
  | cons node nodes ih =>
    rw [Node.letNamesOf, List.append_subset] at hnames
    refine ((heval node scope).mono hnames.1).bind fun v => ?_
    cases v with
    | returned v => exact .pure _
    | error e => exact .pure _
    | _ => exact ih hnames.2 _

theorem call_keeps (heval : Framed eval) (function : Value) (arguments : List Value) (w : World) :
    w.Keeps (w.after (call eval function arguments)) := by
  cases function with
  | function identity parameters body outer =>
    by_cases hlength : arguments.length = parameters.length
    · let bindings := OrderedMap.ofList (parameters.zip arguments)
      have hbody := heval body w.scopes.size (w.addScope (some outer) bindings).2
      have hworld : w.after (call eval (.function identity parameters body outer) arguments) =
          (w.addScope (some outer) bindings).2.after (eval body w.scopes.size) := by
        simp only [call, if_neg (not_not_intro hlength)]
        show World.after (w.addScope (some outer) bindings).2
          (eval body w.scopes.size >>= fun v => Pure.pure v.unwrapReturned) = _
        rw [World.after_bind, World.after]
        cases eval body w.scopes.size (w.addScope (some outer) bindings).2 <;> rfl
      rw [hworld]
      exact hbody.keeps
    · simp only [call, if_pos hlength]
      exact .refl
  | builtin b => exact ⟨Nat.le_refl _, fun _ _ => rfl⟩
  | _ => exact .refl

theorem lookUp_stays (table : BuiltinTable) (name : String) : Stays own names (lookUp table scope name) := by
  refine .of_keeps fun w => ?_
  rw [World.after, lookUp_apply]
  exact .refl

theorem framed_step (heval : Framed eval) (table : BuiltinTable) : Framed (step eval table) := by
  intro node scope
  have hpart {names : List String} (e : Node) (h : e.letNames ⊆ names) : Stays scope names (eval e scope) :=
    (heval e scope).mono h
  cases node with
  | absent => exact .of_keeps fun _ => .refl
  | program nodes => exact (statements_stays heval (by simp [Node.letNames]) _).bind fun _ => .pure _
  | block nodes => exact statements_stays heval (by simp [Node.letNames]) _
  | expressionStatement e => exact hpart e (by simp [Node.letNames])
  | returnStatement e => exact withValue_stays (hpart e (by simp [Node.letNames])) fun _ => .pure _
  | letStatement name e =>
    refine withValue_stays (hpart e (by simp [Node.letNames])) fun v => ?_
    exact .bind (fun w => .set (by simp [Node.letNames]) v) fun _ => .pure _
  | integer n => exact .pure _
  | string s => exact .pure _
  | boolean b => exact .pure _
  | array nodes => exact withValues_stays heval (fun _ => .pure _) (by simp [Node.letNames]) _
  | hash pairs => exact entries_stays heval (by simp [Node.letNames]) _
  | function parameters body =>
    exact .bind (.of_keeps fun _ => ⟨Nat.le_refl _, fun _ _ => rfl⟩) fun _ => .pure _
  | identifier name => exact lookUp_stays table name
  | unary operator e => exact withValue_stays (hpart e (by simp [Node.letNames])) fun _ => .pure _
  | binary left operator right =>
    refine withValue_stays (hpart left (by simp [Node.letNames])) fun _ => ?_
    exact withValue_stays (hpart right (by simp [Node.letNames])) fun _ => .pure _
  | ifElse condition consequence alternative =>
    refine withValue_stays (hpart condition (by simp [Node.letNames])) fun v => ?_
    by_cases hv : v.isTruthy = true
    · simp only [if_pos hv]
      exact hpart consequence (by simp [Node.letNames])
    · simp only [if_neg hv]
      split
      · exact .pure _
      · exact hpart alternative (by simp [Node.letNames])
  | call callee arguments =>
    refine withValue_stays (hpart callee (by simp [Node.letNames])) fun f => ?_
    exact withValues_stays heval (fun vs => .of_keeps (call_keeps heval f vs)) (by simp [Node.letNames]) _
  | index left position =>
    refine withValue_stays (hpart left (by simp [Node.letNames])) fun _ => ?_
    exact withValue_stays (hpart position (by simp [Node.letNames])) fun _ => .pure _

end Evaluator

theorem framed_eval (table : BuiltinTable) (depth : Nat) : Evaluator.Framed (eval table depth) := by
  induction depth with
  | zero => exact fun _ _ => .of_keeps fun _ => .refl
  | succ depth ih => exact Evaluator.framed_step ih table

/-- Evaluation in a scope changes this scope alone, where it binds names of its own `let` statements and removes
none.  A call changes no scope that there was. -/
theorem evaluation_binds_own_scope (table : BuiltinTable) (depth : Nat) (w : World) :
    (∀ node scope, Frame scope node.letNames w (w.after (eval table depth node scope))) ∧
    ∀ function arguments, w.Keeps (w.after (Evaluator.call (eval table depth) function arguments)) :=
  ⟨fun node scope => framed_eval table depth node scope w,
    fun function arguments => Evaluator.call_keeps (framed_eval table depth) function arguments w⟩

end MonkeyLanguage
