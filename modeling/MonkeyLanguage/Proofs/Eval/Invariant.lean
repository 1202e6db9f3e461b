import MonkeyLanguage.Proofs.Eval.Trace
import MonkeyLanguage.Proofs.Parts

/-!
# Invariants of evaluation

An `Invariant` says what holds of the trees that are evaluated, and of every value that is bound to a name or
stored in another value, at any depth (`Value.Every`).  It may assume something of the arguments that builtins
are applied to.  Its fields ask for what the leaves of an evaluation need; then every evaluation keeps it
(`Invariant.of_eval`), at every moment of it (`Invariant.of_trace`).

The value of a `return` is on its way out and need not be one that is held, so what an evaluation gives
depends on whether the tree can end with a `return` (`Node.mayReturn`, `Invariant.Gives`).
-/

namespace MonkeyLanguage

/-! ## Operands -/

namespace Node

/-- The parts whose values are used where the tree is evaluated: bound, stored, or computed with. -/
def operands : Node → List Node
  | unary _ e | letStatement _ e | returnStatement e => [e]
  | binary a _ b | index a b => [a, b]
  | ifElse condition _ _ => [condition]
  | call callee arguments => callee :: arguments
  | array nodes => nodes
  | hash pairs => pairs.flatMap fun pair => [pair.1, pair.2]
  | _ => []

mutual

/-- Whether the evaluation of the tree can end with a `return`. -/
def mayReturn : Node → Bool
  | returnStatement _ => true
  | expressionStatement e => mayReturn e
  | ifElse _ consequence alternative => mayReturn consequence || mayReturn alternative
  | block nodes => anyMayReturn nodes
  | _ => false

def anyMayReturn : List Node → Bool
  | [] => false
  | node :: nodes => mayReturn node || anyMayReturn nodes

end

theorem parts_of_mem_operands {node part : Node} (h : part ∈ node.operands) : part ∈ node.parts := by
  cases node with
  | ifElse condition consequence alternative =>
    rw [List.mem_singleton.1 h]
    exact List.mem_cons_self ..
  | _ => first | exact h | cases h

end Node

/-! ## Invariants -/

/-- What is kept by evaluation. -/
structure Invariant where
  /-- What holds of the trees that are evaluated. -/
  tree : Node → Prop
  /-- What holds of each value that is held, apart from what holds of the values in it. -/
  value : Value → Prop
  /-- What is assumed of the arguments that a builtin is applied to. -/
  use : Builtin → List Value → Prop
  part : ∀ {node part}, tree node → part ∈ node.parts → tree part
  returned : ∀ {node part}, tree node → part ∈ node.operands → part.mayReturn = true →
    ∀ v, value (.returned v)
  null : value .null
  boolean : ∀ b, value (.boolean b)
  builtin : ∀ b, value (.builtin b)
  array : ∀ vs, value (.array vs)
  hash : ∀ {pairs}, (OrderedMap.keys pairs).Nodup → value (.hash pairs)
  closure : ∀ {parameters body}, tree (.function parameters body) → ∀ identity scope,
    value (.function identity parameters body scope)
  body : ∀ {identity parameters body scope}, value (.function identity parameters body scope) → tree body
  integer : ∀ {n}, tree (.integer n) → value (.integer n)
  string : ∀ {s}, tree (.string s) → value (.string s)
  wrap : ∀ n, value (.integer (wrap n))
  length : ∀ {v n}, use .len [v] → v.length = .integer n → value (.integer n)
  append : ∀ {a b}, value (.string a) → value (.string b) → value (.string (a ++ b))

namespace Invariant

variable (inv : Invariant)

/-- The value may be bound to a name or stored in another value. -/
abbrev Held (v : Value) : Prop :=
  v.Every inv.value

/-- The values that an evaluation may give: one that may be held, a failure or, if the tree can end with a
`return`, the value of a `return`. -/
inductive Gives (mayReturn : Bool) : Value → Prop where
  | held {v : Value} (h : inv.Held v) : Gives mayReturn v
  | failure (e : RuntimeError) : Gives mayReturn (.error e)
  | returned {v : Value} (hreturn : mayReturn = true) (h : inv.Held v) : Gives mayReturn (.returned v)

def Holds (w : World) : Prop :=
  ∀ (id : ScopeId) (scope : Scope), w.scopes[id]? = some scope → ∀ binding ∈ scope.bindings, inv.Held binding.2

/-- What is assumed of an event. -/
def Admits : Event → Prop
  | .begins (.builtin b arguments) => inv.use b arguments
  | _ => True

variable {inv} {v a b : Value} {vs : List Value} {mayReturn mayReturn' : Bool} {w : World}

/-! ### Operators and builtins -/

theorem Gives.mono (h : inv.Gives mayReturn v) (himp : mayReturn = true → mayReturn' = true) :
    inv.Gives mayReturn' v := by
  cases h with
  | held h => exact .held h
  | failure e => exact .failure e
  | returned hreturn h => exact .returned (himp hreturn) h

theorem Gives.unwrap (h : inv.Gives mayReturn v) : inv.Gives false v.unwrapReturned := by
  cases h with
  | held h =>
    cases v with
    | returned u => exact .held (h.of_mem_parts (List.mem_singleton_self u))
    | _ => exact .held h
  | failure e => exact .failure e
  | returned hreturn h => exact .held h

theorem held_null : inv.Held .null :=
  .of_atom inv.null rfl

theorem held_boolean (x : Bool) : inv.Held (.boolean x) :=
  .of_atom (inv.boolean x) rfl

theorem held_wrap (n : Int) : inv.Held (.integer (MonkeyLanguage.wrap n)) :=
  .of_atom (inv.wrap n) rfl

theorem held_array (h : ∀ v ∈ vs, inv.Held v) : inv.Held (.array vs) :=
  ⟨inv.array vs, h⟩

theorem held_hash {pairs : List (HashKey × Value)}
    (h : ∀ pair ∈ pairs, inv.Held pair.1.toValue ∧ inv.Held pair.2) :
    inv.Held (.hash (OrderedMap.ofList pairs)) := by
  refine ⟨inv.hash (OrderedMap.nodup_keys_ofList pairs), fun part hpart => ?_⟩
  obtain ⟨pair, hpair, hpart⟩ := List.mem_flatMap.1 hpart
  have hheld := h pair (OrderedMap.mem_ofList hpair)
  rcases List.mem_cons.1 hpart with rfl | hpart
  · exact hheld.1
  · rw [List.mem_singleton.1 hpart]
    exact hheld.2

theorem gives_applyUnary (operator : String) (v : Value) : inv.Gives false (v.applyUnary operator) := by
  unfold Value.applyUnary
  split
  · exact .held (held_boolean _)
  · exact .held (held_wrap _)
  · exact .failure _

theorem gives_applyIntegers (operator : String) (m n : Int) :
    inv.Gives false (Value.applyIntegers operator m n) := by
  unfold Value.applyIntegers
  split
  case h_4 =>
    split
    · exact .failure _
    · exact .held (held_wrap _)
  case h_9 => exact .failure _
  all_goals first | exact .held (held_wrap _) | exact .held (held_boolean _)

theorem gives_applyStrings (operator : String) {s t : String} (hs : inv.Held (.string s))
    (ht : inv.Held (.string t)) : inv.Gives false (Value.applyStrings operator s t) := by
  unfold Value.applyStrings
  split
  · exact .held (.of_atom (inv.append hs.self ht.self) rfl)
  · exact .held (held_boolean _)
  · exact .held (held_boolean _)
  · exact .failure _

theorem gives_applyBinary (operator : String) (ha : inv.Held a) (hb : inv.Held b) :
    inv.Gives false (Value.applyBinary operator a b) := by
  unfold Value.applyBinary
  split
  · exact gives_applyIntegers ..
  · exact gives_applyStrings operator ha hb
  split
  · exact .held (held_boolean _)
  split
  · exact .held (held_boolean _)
  split
  · exact .failure _
  · exact .failure _

theorem held_getD {v? : Option Value} (h : ∀ v ∈ v?, inv.Held v) : inv.Held (v?.getD .null) := by
  cases v? with
  | none => exact held_null
  | some v => exact h v rfl

theorem gives_applyIndex (ha : inv.Held a) (b : Value) : inv.Gives false (a.applyIndex b) := by
  unfold Value.applyIndex
  split
  · split
    · exact .held held_null
    · exact .held (held_getD fun v hv => ha.of_mem_parts (List.mem_of_getElem? hv))
  · split
    · refine .held (held_getD fun v hv => ha.of_mem_parts ?_)
      exact List.mem_flatMap.2 ⟨_, OrderedMap.mem_of_get? hv, by simp⟩
    · exact .failure _
  · exact .failure _

theorem gives_length (huse : inv.use .len [v]) : inv.Gives false v.length := by
  cases hv : v.length with
  | integer n => exact .held (.of_atom (inv.length huse hv) rfl)
  | error e => exact .failure e
  | _ => cases v <;> cases hv

theorem gives_onArray (builtin : Builtin) {f : List Value → Value} (hv : inv.Held v)
    (hf : ∀ vs, (∀ v ∈ vs, inv.Held v) → inv.Held (f vs)) : inv.Gives false (builtin.onArray f v) := by
  unfold Builtin.onArray
  split
  · exact .held (hf _ fun u hu => hv.of_mem_parts hu)
  · exact .failure _

theorem gives_apply (builtin : Builtin) (huse : inv.use builtin vs) (hvs : ∀ v ∈ vs, inv.Held v) :
    inv.Gives false (builtin.apply vs).1 := by
  unfold Builtin.apply
  split
  case h_1 => exact gives_length huse
  case h_2 v =>
    refine gives_onArray _ (hvs v (by simp)) fun us hus => held_getD fun u hu => ?_
    exact hus u (List.mem_of_mem_head? hu)
  case h_3 v =>
    refine gives_onArray _ (hvs v (by simp)) fun us hus => held_getD fun u hu => ?_
    exact hus u (List.mem_of_mem_getLast? hu)
  case h_4 v =>
    refine gives_onArray _ (hvs v (by simp)) fun us hus => ?_
    split
    · exact held_null
    · exact held_array fun u hu => hus u (List.mem_of_mem_tail hu)
  case h_5 a v =>
    refine gives_onArray _ (hvs a (by simp)) fun us hus => held_array fun u hu => ?_
    rcases List.mem_append.1 hu with hu | hu
    · exact hus u hu
    · rw [List.mem_singleton.1 hu]
      exact hvs v (by simp)
  case h_6 => exact .held held_null
  case h_7 => exact .held held_null
  case h_8 => exact .failure _

/-! ### Worlds -/

theorem Holds.set (hw : inv.Holds w) (hv : inv.Held v) (id : ScopeId) (name : String) :
    inv.Holds (w.set id name v) := by
  intro id' scope hscope binding hbinding
  simp only [World.set, Array.getElem?_modify] at hscope
  split at hscope
  · obtain ⟨scope', hscope', rfl⟩ := Option.map_eq_some_iff.1 hscope
    rcases OrderedMap.mem_insert hbinding with rfl | hbinding
    · exact hv
    · exact hw _ _ hscope' binding hbinding
  · exact hw _ _ hscope binding hbinding

theorem Holds.addScope (hw : inv.Holds w) {bindings : OrderedMap String Value}
    (hbindings : ∀ binding ∈ bindings, inv.Held binding.2) (outer : Option ScopeId) :
    inv.Holds (w.addScope outer bindings).2 := by
  intro id scope hscope binding hbinding
  simp only [World.addScope, Array.getElem?_push] at hscope
  split at hscope
  · obtain rfl := Option.some.inj hscope
    exact hbindings binding hbinding
  · exact hw _ _ hscope binding hbinding

theorem exists_of_mem_chain {id : ScopeId} {scope : Scope} (h : scope ∈ w.chain id) :
    ∃ id' : ScopeId, w.scopes[id']? = some scope := by
  fun_induction World.chain w id with
  | case1 => cases h
  | case2 id scope' hscope _ => exact ⟨id, List.mem_singleton.1 h ▸ hscope⟩
  | case3 id scope' hscope _ _ _ ih =>
    rcases List.mem_cons.1 h with rfl | h
    · exact ⟨id, hscope⟩
    · exact ih h
  | case4 id scope' hscope _ _ _ => exact ⟨id, List.mem_singleton.1 h ▸ hscope⟩

theorem Holds.get? (hw : inv.Holds w) {id : ScopeId} {name : String} (h : w.get? id name = some v) :
    inv.Held v := by
  obtain ⟨scope, hscope, hv⟩ := List.exists_of_findSome?_eq_some h
  obtain ⟨id', hid'⟩ := exists_of_mem_chain hscope
  exact hw id' scope hid' _ (OrderedMap.mem_of_get? hv)

/-! ## Computations that keep an invariant -/

/-- What an activity begins with: a tree that may be evaluated, or values that may be held. -/
def Begins (inv : Invariant) : Activity → Prop
  | .evaluation node _ => inv.tree node
  | .application function arguments => inv.Held function ∧ ∀ v ∈ arguments, inv.Held v
  | .builtin _ arguments => ∀ v ∈ arguments, inv.Held v

/-- The invariant at an entry of a log: in its world, and of what the activity begins or ends with. -/
def Sees (inv : Invariant) (entry : Entry) : Prop :=
  inv.Holds entry.world ∧
    match entry.event with
    | .begins activity => inv.Begins activity
    | .ends _ v => inv.Gives true v

/-- The invariant holds, and has held at all entries of the log. -/
def Stands (inv : Invariant) (s : Traced) : Prop :=
  inv.Holds s.world ∧ ∀ entry ∈ s.log, inv.Sees entry

/-- If `P` holds the computation keeps the invariant, and its value has the property `Q`, as far as the events are
as assumed. -/
def Keeps {α : Type} (inv : Invariant) (P : Prop) (m : TraceM α) (Q : α → Prop) : Prop :=
  ∀ s, match m s with
    | .ok a s' => s.log <+: s'.log ∧ (P → inv.Stands s →
      (∀ entry ∈ s'.log, inv.Admits entry.event) → inv.Stands s' ∧ Q a)
    | .error _ s' => s.log <+: s'.log ∧ (P → inv.Stands s →
      (∀ entry ∈ s'.log, inv.Admits entry.event) → inv.Stands s')

theorem Stands.record {s : Traced} (hs : inv.Stands s) {event : Event} (h : inv.Sees ⟨event, s.world⟩) :
    inv.Stands ⟨s.world, s.log ++ [⟨event, s.world⟩]⟩ :=
  ⟨hs.1, List.forall_mem_append.2 ⟨hs.2, List.forall_mem_singleton.2 h⟩⟩

namespace Keeps

variable {α β : Type} {P P' : Prop} {m : TraceM α} {f : α → TraceM β} {Q Q' : α → Prop} {R : β → Prop}

theorem pure {a : α} (h : P → Q a) : inv.Keeps P (Pure.pure a) Q :=
  fun _ => ⟨List.prefix_refl _, fun hP hs _ => ⟨hs, h hP⟩⟩

theorem throw (reason : Abort) : inv.Keeps P (MonadExcept.throw reason) Q :=
  fun _ => ⟨List.prefix_refl _, fun _ hs _ => hs⟩

theorem mono (hm : inv.Keeps P' m Q') (hP : P → P') (hQ : ∀ a, Q' a → Q a) : inv.Keeps P m Q := by
  intro s
  have hs := hm s
  cases hresult : m s with
  | ok a s' =>
    rw [hresult] at hs
    exact ⟨hs.1, fun h hworld hlog => (hs.2 (hP h) hworld hlog).imp_right (hQ a)⟩
  | error reason s' =>
    rw [hresult] at hs
    exact ⟨hs.1, fun h => hs.2 (hP h)⟩

theorem weaken (hm : inv.Keeps P' m Q) (hP : P → P') : inv.Keeps P m Q :=
  hm.mono hP fun _ h => h

theorem bind (hm : inv.Keeps P m Q) (hf : ∀ a, inv.Keeps (P ∧ Q a) (f a) R) :
    inv.Keeps P (m >>= f) R := by
  intro s
  have hs := hm s
  change match EStateM.bind m f s with
    | .ok b s' => _
    | .error _ s' => _
  rw [EStateM.bind]
  cases hresult : m s with
  | error reason s₁ =>
    rw [hresult] at hs
    exact hs
  | ok a s₁ =>
    rw [hresult] at hs
    have hnext := hf a s₁
    simp only
    cases hfs : f a s₁ with
    | ok b s₂ =>
      rw [hfs] at hnext
      refine ⟨hs.1.trans hnext.1, fun h hworld hlog => ?_⟩
      obtain ⟨hworld₁, hQ⟩ := hs.2 h hworld fun entry hentry => hlog entry (hnext.1.subset hentry)
      exact hnext.2 ⟨h, hQ⟩ hworld₁ hlog
    | error reason s₂ =>
      rw [hfs] at hnext
      refine ⟨hs.1.trans hnext.1, fun h hworld hlog => ?_⟩
      obtain ⟨hworld₁, hQ⟩ := hs.2 h hworld fun entry hentry => hlog entry (hnext.1.subset hentry)
      exact hnext.2 ⟨h, hQ⟩ hworld₁ hlog

theorem lift {m : EvalM α} (h : ∀ w, P → inv.Holds w → match m w with
    | .ok a w' => inv.Holds w' ∧ Q a
    | .error _ w' => inv.Holds w') : inv.Keeps P (TraceM.lift m) Q := by
  intro s
  have hs := h s.world
  rw [TraceM.lift]
  cases hresult : m s.world with
  | ok a w' =>
    rw [hresult] at hs
    exact ⟨List.prefix_refl _, fun hP hstands _ => (hs hP hstands.1).imp_left fun hworld => ⟨hworld, hstands.2⟩⟩
  | error reason w' =>
    rw [hresult] at hs
    exact ⟨List.prefix_refl _, fun hP hstands _ => ⟨hs hP hstands.1, hstands.2⟩⟩

/-- The value of an activity may rest on what is assumed of its beginning. -/
theorem during {m : TraceM Value} {Q : Value → Prop} {activity : Activity} (hbegins : P → inv.Begins activity)
    (hm : inv.Keeps P m fun v => inv.Admits (.begins activity) → Q v) (hends : ∀ v, Q v → inv.Gives true v) :
    inv.Keeps P (TraceM.during activity m) Q := by
  intro s
  have hs := hm ⟨s.world, s.log ++ [⟨.begins activity, s.world⟩]⟩
  have hstart (h : P) (hstands : inv.Stands s) : inv.Stands ⟨s.world, s.log ++ [⟨.begins activity, s.world⟩]⟩ :=
    hstands.record ⟨hstands.1, hbegins h⟩
  rw [TraceM.during_apply]
  cases hresult : m ⟨s.world, s.log ++ [⟨.begins activity, s.world⟩]⟩ with
  | ok v s' =>
    rw [hresult] at hs
    obtain ⟨hgrows, hs⟩ := hs
    refine ⟨((List.prefix_append _ _).trans hgrows).trans (List.prefix_append _ _), fun h hstands hlog => ?_⟩
    obtain ⟨hstands', hQ⟩ := hs h (hstart h hstands) fun entry hentry => hlog entry (List.mem_append_left _ hentry)
    have hbegun : ⟨.begins activity, s.world⟩ ∈ s'.log := hgrows.subset (by simp)
    have hv := hQ (hlog _ (List.mem_append_left _ hbegun))
    exact ⟨hstands'.record ⟨hstands'.1, hends v hv⟩, hv⟩
  | error reason s' =>
    rw [hresult] at hs
    obtain ⟨hgrows, hs⟩ := hs
    exact ⟨(List.prefix_append _ _).trans hgrows, fun h hstands hlog => hs h (hstart h hstands) hlog⟩

end Keeps

/-! ## The forms of the evaluator -/

/-- The tree may be evaluated, and its value may be held unless it is a failure. -/
def Operand (inv : Invariant) (node : Node) : Prop :=
  inv.tree node ∧ (node.mayReturn = true → ∀ v, inv.value (.returned v))

theorem operand_of_mem {node part : Node} (h : inv.tree node) (hpart : part ∈ node.operands) :
    inv.Operand part :=
  ⟨inv.part h (Node.parts_of_mem_operands hpart), inv.returned h hpart⟩

theorem Gives.of_operand {node : Node} (h : inv.Gives node.mayReturn v) (hoperand : inv.Operand node) :
    inv.Gives false v := by
  cases h with
  | held h => exact .held h
  | failure e => exact .failure e
  | returned hreturn h =>
    refine .held ⟨hoperand.2 hreturn _, fun part hpart => ?_⟩
    rw [List.mem_singleton.1 hpart]
    exact h

end Invariant

namespace TracedEvaluator

open Invariant

variable {inv : Invariant} {eval : TracedEvaluator} {scope : ScopeId} {node : Node} {nodes : List Node}
  {P : Prop} {Q : Value → Prop}

theorem lookUp_keeps (table : BuiltinTable) (name : String) :
    inv.Keeps P (TraceM.lift (Evaluator.lookUp table scope name)) (inv.Gives false) := by
  refine .lift fun w _ hw => ?_
  rw [Evaluator.lookUp_apply]
  refine ⟨hw, ?_⟩
  split
  · next hv => exact .held (hw.get? hv)
  · exact .held (.of_atom (inv.builtin _) rfl)
  · exact .failure _

section

variable (heval : ∀ node scope, inv.Keeps (inv.tree node) (eval node scope) (inv.Gives node.mayReturn))
include heval

/-- What comes after an operand may rely on its value, which may be held. -/
theorem withValue_keeps {next : Value → TraceM Value} (hoperand : P → inv.Operand node)
    (hnext : ∀ v, inv.Keeps (P ∧ inv.Held v) (next v) Q) (hfailure : ∀ e, Q (.error e)) :
    inv.Keeps P (withValue eval scope node next) Q := by
  refine ((heval node scope).weaken fun h => (hoperand h).1).bind fun v => ?_
  have hheld {v : Value} (hv : v.failure? = none) (h : P ∧ inv.Gives node.mayReturn v) : P ∧ inv.Held v := by
    refine ⟨h.1, ?_⟩
    cases h.2.of_operand (hoperand h.1) with
    | held h => exact h
    | failure e => cases hv
    | returned hreturn _ => cases hreturn
  cases v with
  | error e => exact .pure fun _ => hfailure e
  | _ => exact (hnext _).weaken (hheld rfl)

theorem withValues_keeps {next : List Value → TraceM Value} (hoperands : P → ∀ node ∈ nodes, inv.Operand node)
    (hnext : ∀ vs, inv.Keeps (P ∧ ∀ v ∈ vs, inv.Held v) (next vs) Q) (hfailure : ∀ e, Q (.error e))
    (before : List Value) :
    inv.Keeps (P ∧ ∀ v ∈ before, inv.Held v) (withValues eval scope next before nodes) Q := by
  induction nodes generalizing before with
  | nil =>
    refine (hnext before.reverse).weaken fun h => ⟨h.1, fun v hv => h.2 v (List.mem_reverse.1 hv)⟩
  | cons node nodes ih =>
    refine withValue_keeps heval (fun h => hoperands h.1 node (List.mem_cons_self ..)) (fun v => ?_) hfailure
    refine (ih (fun h node hnode => hoperands h node (List.mem_cons_of_mem _ hnode)) (v :: before)).weaken ?_
    rintro ⟨⟨hP, hbefore⟩, hv⟩
    exact ⟨hP, List.forall_mem_cons.2 ⟨hv, hbefore⟩⟩

theorem entries_keeps {pairs : List (Node × Node)}
    (hoperands : P → ∀ pair ∈ pairs, inv.Operand pair.1 ∧ inv.Operand pair.2) (before : List (HashKey × Value)) :
    inv.Keeps (P ∧ ∀ entry ∈ before, inv.Held entry.1.toValue ∧ inv.Held entry.2)
      (entries eval scope before pairs) (inv.Gives false) := by
  induction pairs generalizing before with
  | nil =>
    exact .pure fun h => .held (held_hash fun entry hentry => h.2 entry (List.mem_reverse.1 hentry))
  | cons pair pairs ih =>
    have hpair (h : P) := hoperands h pair (List.mem_cons_self ..)
    refine withValue_keeps heval (fun h => (hpair h.1).1) (fun k => ?_) .failure
    cases hkey : k.hashKey? with
    | none => exact .pure fun _ => .failure _
    | some key =>
      refine withValue_keeps heval (fun h => (hpair h.1.1).2) (fun v => ?_) .failure
      have ih := ih (fun h pair hpair => hoperands h pair (List.mem_cons_of_mem _ hpair)) ((key, v) :: before)
      refine ih.weaken ?_
      rintro ⟨⟨⟨hP, hbefore⟩, hk⟩, hv⟩
      rw [← Value.toValue_of_hashKey? hkey] at hk
      exact ⟨hP, List.forall_mem_cons.2 ⟨⟨hk, hv⟩, hbefore⟩⟩

theorem statements_keeps (hnodes : P → ∀ node ∈ nodes, inv.tree node) (last : Value) :
    inv.Keeps (P ∧ inv.Gives (Node.anyMayReturn nodes) last) (statements eval scope last nodes)
      (inv.Gives (Node.anyMayReturn nodes)) := by
  have hgeneral {mayReturn : Bool} (hreturn : Node.anyMayReturn nodes = true → mayReturn = true) :
      inv.Keeps (P ∧ inv.Gives mayReturn last) (statements eval scope last nodes) (inv.Gives mayReturn) := by
    induction nodes generalizing last with
    | nil => exact .pure And.right
    | cons node nodes ih =>
      rw [Node.anyMayReturn, Bool.or_eq_true, or_imp] at hreturn
      have hnode := (heval node scope).mono (P := P ∧ inv.Gives mayReturn last)
        (fun h => hnodes h.1 node (List.mem_cons_self ..)) fun v hv => hv.mono hreturn.1
      refine hnode.bind fun v => ?_
      cases v with
      | returned v => exact .pure And.right
      | error e => exact .pure And.right
      | _ =>
        refine (ih (fun h node hnode => hnodes h node (List.mem_cons_of_mem _ hnode)) _ hreturn.2).weaken ?_
        exact fun h => ⟨h.1.1, h.2⟩
  exact hgeneral id

theorem call_keeps (function : Value) (arguments : List Value) :
    inv.Keeps (inv.Held function ∧ ∀ v ∈ arguments, inv.Held v) (call eval function arguments)
      (inv.Gives false) := by
  have hends (v : Value) (hv : inv.Gives false v) : inv.Gives true v := hv.mono nofun
  refine .during id (Keeps.mono ?_ id fun v hv _ => hv) hends
  cases function with
  | function identity parameters body outer =>
    by_cases hlength : arguments.length = parameters.length
    · simp only [if_neg (not_not_intro hlength)]
      refine Keeps.bind (Q := fun _ => True) (.lift fun w h hw => ⟨hw.addScope (fun binding hbinding => ?_) _, trivial⟩)
        fun scope => ?_
      · exact h.2 _ (List.of_mem_zip (OrderedMap.mem_ofList hbinding)).2
      · refine ((heval body scope).weaken fun h => inv.body h.1.1.self).bind fun v => ?_
        exact .pure fun h => h.2.unwrap
    · simp only [if_pos hlength]
      exact .pure fun _ => .failure _
  | builtin b =>
    refine .during And.right (Keeps.bind (Q := fun _ => True) (.lift fun w _ hw => ⟨hw, trivial⟩) fun _ => ?_) hends
    exact .pure fun h huse => gives_apply b huse h.1.2
  | _ => exact .pure fun _ => .failure _

theorem step_keeps (table : BuiltinTable) (node : Node) (scope : ScopeId) :
    inv.Keeps (inv.tree node) (step eval table node scope) (inv.Gives node.mayReturn) := by
  have hoperands (h : inv.tree node) : ∀ part ∈ node.operands, inv.Operand part := fun _ => operand_of_mem h
  have hparts (h : inv.tree node) : ∀ part ∈ node.parts, inv.tree part := fun _ => inv.part h
  cases node with
  | absent => exact .throw _
  | program nodes =>
    refine Keeps.bind ((statements_keeps heval hparts .null).weaken fun h => ⟨h, .held held_null⟩) fun v => ?_
    exact .pure fun h => h.2.unwrap
  | block nodes =>
    exact (statements_keeps heval hparts .null).weaken fun h => ⟨h, .held held_null⟩
  | expressionStatement e => exact (heval e scope).weaken fun h => hparts h e (by simp [Node.parts])
  | returnStatement e =>
    refine withValue_keeps heval (fun h => hoperands h e (by simp [Node.operands])) (fun v => ?_) .failure
    exact .pure fun h => .returned rfl h.2
  | letStatement name e =>
    refine withValue_keeps heval (fun h => hoperands h e (by simp [Node.operands])) (fun v => ?_) .failure
    refine Keeps.bind (Q := fun _ => True) (.lift fun w h hw => ⟨hw.set h.2 scope name, trivial⟩) fun _ => ?_
    exact .pure fun _ => .held held_null
  | integer n => exact .pure fun h => .held (.of_atom (inv.integer h) rfl)
  | string s => exact .pure fun h => .held (.of_atom (inv.string h) rfl)
  | boolean b => exact .pure fun _ => .held (held_boolean b)
  | array nodes =>
    refine (withValues_keeps heval hoperands (fun vs => ?_) .failure []).weaken fun h => ⟨h, nofun⟩
    exact .pure fun h => .held (held_array h.2)
  | hash pairs =>
    refine (entries_keeps heval (fun h pair hpair => ?_) []).weaken fun h => ⟨h, nofun⟩
    exact ⟨hoperands h _ (List.mem_flatMap.2 ⟨pair, hpair, by simp⟩),
      hoperands h _ (List.mem_flatMap.2 ⟨pair, hpair, by simp⟩)⟩
  | function parameters body =>
    refine Keeps.bind (Q := fun _ => True) (.lift fun w _ hw => ⟨hw, trivial⟩) fun identity => ?_
    exact .pure fun h => .held (.of_atom (inv.closure h.1 identity scope) rfl)
  | identifier name => exact lookUp_keeps table name
  | unary operator e =>
    refine withValue_keeps heval (fun h => hoperands h e (by simp [Node.operands])) (fun v => ?_) .failure
    exact .pure fun _ => gives_applyUnary operator v
  | binary left operator right =>
    refine withValue_keeps heval (fun h => hoperands h left (by simp [Node.operands])) (fun a => ?_) .failure
    refine withValue_keeps heval (fun h => hoperands h.1 right (by simp [Node.operands])) (fun b => ?_) .failure
    exact .pure fun h => gives_applyBinary operator h.1.2 h.2
  | ifElse condition consequence alternative =>
    refine withValue_keeps heval (fun h => hoperands h condition (by simp [Node.operands])) (fun v => ?_) .failure
    by_cases hv : v.isTruthy = true
    · simp only [if_pos hv]
      refine (heval consequence scope).mono (fun h => hparts h.1 consequence (by simp [Node.parts])) fun v h => ?_
      exact h.mono fun hreturn => by simp [Node.mayReturn, hreturn]
    · simp only [if_neg hv]
      split
      · exact .pure fun _ => .held held_null
      · refine (heval alternative scope).mono (fun h => hparts h.1 alternative (by simp [Node.parts])) fun v h => ?_
        exact h.mono fun hreturn => by simp [Node.mayReturn, hreturn]
  | call callee arguments =>
    refine withValue_keeps heval (fun h => hoperands h callee (by simp [Node.operands])) (fun f => ?_) .failure
    refine (withValues_keeps heval (fun h part hpart => ?_) (fun vs => ?_) .failure []).weaken fun h => ⟨h, nofun⟩
    · exact hoperands h.1 part (List.mem_cons_of_mem _ hpart)
    · exact (call_keeps heval f vs).weaken fun h => ⟨h.1.2, h.2⟩
  | index left position =>
    refine withValue_keeps heval (fun h => hoperands h left (by simp [Node.operands])) (fun a => ?_) .failure
    refine withValue_keeps heval (fun h => hoperands h.1 position (by simp [Node.operands])) (fun i => ?_) .failure
    exact .pure fun h => gives_applyIndex h.1.2 i

end

end TracedEvaluator

namespace Invariant

theorem keeps_traced (inv : Invariant) (table : BuiltinTable) (depth : Nat) (node : Node) (scope : ScopeId) :
    inv.Keeps (inv.tree node) (traced table depth node scope) (inv.Gives node.mayReturn) := by
  induction depth generalizing node scope with
  | zero => exact .throw _
  | succ depth ih =>
    exact .during id ((TracedEvaluator.step_keeps ih table node scope).mono id fun _ h _ => h)
      fun _ h => h.mono fun _ => rfl

/-- Evaluation keeps every invariant, if all that is assumed of it is so. -/
theorem of_eval (inv : Invariant) {table : BuiltinTable} {depth : Nat} {node : Node} {scope : ScopeId}
    {w : World} (hnode : inv.tree node) (hw : inv.Holds w)
    (hlog : ∀ entry ∈ trace table depth node scope w, inv.Admits entry.event) :
    match eval table depth node scope w with
    | .ok v w' => inv.Holds w' ∧ inv.Gives node.mayReturn v
    | .error _ w' => inv.Holds w' := by
  have hkeeps := inv.keeps_traced table depth node scope ⟨w, []⟩
  rw [trace] at hlog
  rw [← erases_traced table depth node scope ⟨w, []⟩]
  cases hresult : traced table depth node scope ⟨w, []⟩ with
  | ok v s =>
    rw [hresult] at hkeeps hlog
    exact (hkeeps.2 hnode ⟨hw, nofun⟩ hlog).imp_left And.left
  | error reason s =>
    rw [hresult] at hkeeps hlog
    exact (hkeeps.2 hnode ⟨hw, nofun⟩ hlog).1

theorem of_trace (inv : Invariant) {table : BuiltinTable} {depth : Nat} {node : Node} {scope : ScopeId}
    {w : World} (hnode : inv.tree node) (hw : inv.Holds w)
    (hlog : ∀ entry ∈ trace table depth node scope w, inv.Admits entry.event) :
    ∀ entry ∈ trace table depth node scope w, inv.Sees entry := by
  have hkeeps := inv.keeps_traced table depth node scope ⟨w, []⟩
  rw [trace] at hlog ⊢
  cases hresult : traced table depth node scope ⟨w, []⟩ with
  | ok v s =>
    rw [hresult] at hkeeps hlog
    exact (hkeeps.2 hnode ⟨hw, nofun⟩ hlog).1.2
  | error reason s =>
    rw [hresult] at hkeeps hlog
    exact (hkeeps.2 hnode ⟨hw, nofun⟩ hlog).2

end Invariant

end MonkeyLanguage
