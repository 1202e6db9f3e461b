import MonkeyLanguage.Proofs.Eval.Unlimited
import MonkeyLanguage.Proofs.Session.Calls

/-!
# Functions that loop over arrays

A language without loops goes through an array by a function that calls itself on the rest of it.  Such a function is
bound to `iter` in the scope of a call and carries a result along (`Loop`).  It gives its result where the array is
empty (`Loop.calls_nil`), and else what it gives for the rest of the array and the next result (`Loop.calls_cons`).

The result is bound to a name, and the next result is computed by an expression; both are parameters here.
-/

namespace MonkeyLanguage

/-! ## Trees -/

namespace Node

/-- `len(arr) == 0` -/
def arrayIsEmpty : Node :=
  .binary (.call (.identifier "len") [.identifier "arr"]) "==" (.integer 0)

/-- `first(arr)` -/
def firstOfArray : Node :=
  .call (.identifier "first") [.identifier "arr"]

/-- `rest(arr)` -/
def restOfArray : Node :=
  .call (.identifier "rest") [.identifier "arr"]

/-- The body of a loop that carries a result along, which the node computes anew for each element. -/
def loopBody (result : String) (next : Node) : Node :=
  .block [.expressionStatement (.ifElse arrayIsEmpty (.block [.expressionStatement (.identifier result)])
    (.block [.expressionStatement (.call (.identifier "iter") [restOfArray, next])]))]

/-- Defines a loop and calls it on an array. -/
def loopOver (result : String) (next start : Node) : Node :=
  .block [.letStatement "iter" (.function ["arr", result] (loopBody result next)),
    .expressionStatement (.call (.identifier "iter") [.identifier "arr", start])]

end Node

open Node

variable {scope k : Nat} {result name : String} {next start : Node} {iter x acc acc' v a : Value} {xs : List Value}
  {w w₁ w' : World}

/-! ## Expressions on an array -/

theorem evaluates_arrayIsEmpty (harr : w.get? scope "arr" = some (.array xs)) (hlen : w.get? scope "len" = none) :
    Evaluates .default arrayIsEmpty scope w (.boolean ((xs.length : Int) == 0)) w := by
  have hlength : Evaluates .default (.call (.identifier "len") [.identifier "arr"]) scope w (.integer xs.length) w :=
    .callBuiltin hlen rfl (.identifier harr) ValueType.noConfusion rfl
  exact hlength.binary ValueType.noConfusion (.integer 0) ValueType.noConfusion

theorem evaluates_firstOfArray (harr : w.get? scope "arr" = some (.array (x :: xs)))
    (hfirst : w.get? scope "first" = none) : Evaluates .default firstOfArray scope w x w :=
  .callBuiltin hfirst rfl (.identifier harr) ValueType.noConfusion rfl

theorem evaluates_restOfArray (harr : w.get? scope "arr" = some (.array (x :: xs)))
    (hrest : w.get? scope "rest" = none) : Evaluates .default restOfArray scope w (.array xs) w :=
  .callBuiltin hrest rfl (.identifier harr) ValueType.noConfusion rfl

/-! ## Loops -/

/-- The names of the builtins that loops use. -/
abbrev loopBuiltins : List String :=
  ["len", "first", "rest", "push"]

/-- In the scope, `iter` is bound to a loop, and the names of builtins are not bound. -/
structure Loop (result : String) (next : Node) (k : ScopeId) (iter : Value) (w : World) : Prop where
  exists_scope : k < w.scopes.size
  isFunction : ∃ identity, iter = .function identity ["arr", result] (loopBody result next) k
  /-- The name of the result hides no other name that the loop looks up. -/
  fresh : result ∉ "arr" :: "iter" :: (loopBuiltins ++ ["f"])
  iter_bound : w.get? k "iter" = some iter
  unbound : ∀ name ∈ loopBuiltins, w.get? k name = none

/-- The world with a scope for a call of a loop. -/
def World.loopCall (w : World) (k : ScopeId) (result : String) (array acc : Value) : World :=
  (w.addScope (some k) (.ofList [("arr", array), (result, acc)])).2

theorem World.idles_loopCall (w : World) (k : ScopeId) (result : String) (array acc : Value) :
    w.Idles (w.loopCall k result array acc) :=
  ⟨.addScope .., Nat.le_refl _, rfl⟩

theorem World.size_loopCall (w : World) (k : ScopeId) (result : String) (array acc : Value) :
    (w.loopCall k result array acc).scopes.size = w.scopes.size + 1 :=
  Array.size_push ..

namespace Loop

theorem later (h : Loop result next k iter w) (hkeeps : w.Keeps w') : Loop result next k iter w' where
  exists_scope := Nat.lt_of_lt_of_le h.exists_scope hkeeps.size_le
  isFunction := h.isFunction
  fresh := h.fresh
  iter_bound := (hkeeps.get?_eq h.exists_scope "iter").trans h.iter_bound
  unbound name hname := (hkeeps.get?_eq h.exists_scope name).trans (h.unbound name hname)

theorem get?_loopCall (h : Loop result next k iter w) (name : String) :
    (w.loopCall k result a acc).get? w.scopes.size name =
      if name = "arr" then some a else if name = result then some acc else w.get? k name := by
  have hne : "arr" ≠ result := fun heq => h.fresh (heq ▸ List.mem_cons_self ..)
  have hbindings : OrderedMap.ofList [("arr", a), (result, acc)] = [("arr", a), (result, acc)] := by
    show OrderedMap.insert [("arr", a)] result acc = _
    rw [OrderedMap.insert, if_neg hne]
    rfl
  rw [World.loopCall, World.get?_addScope h.exists_scope, hbindings, OrderedMap.get?, OrderedMap.get?, OrderedMap.get?]
  by_cases harr : name = "arr"
  · rw [if_pos harr, if_pos harr.symm]
    rfl
  · rw [if_neg harr, if_neg (Ne.symm harr)]
    by_cases hresult : name = result
    · rw [if_pos hresult, if_pos hresult.symm]
      rfl
    · rw [if_neg hresult, if_neg (Ne.symm hresult)]
      rfl

theorem get?_outer (h : Loop result next k iter w) (hname : name ∈ "iter" :: (loopBuiltins ++ ["f"])) :
    (w.loopCall k result a acc).get? w.scopes.size name = w.get? k name := by
  have harr : name ≠ "arr" := by
    rintro rfl
    revert hname
    decide
  have hresult : name ≠ result := by
    rintro rfl
    exact h.fresh (List.mem_cons_of_mem _ hname)
  rw [h.get?_loopCall, if_neg harr, if_neg hresult]

theorem calls (h : Loop result next k iter w)
    (hbody : Evaluates .default (.ifElse arrayIsEmpty (.block [.expressionStatement (.identifier result)])
      (.block [.expressionStatement (.call (.identifier "iter") [restOfArray, next])])) w.scopes.size
      (w.loopCall k result a acc) v w') :
    Calls .default iter [a, acc] w v.unwrapReturned w' := by
  obtain ⟨identity, rfl⟩ := h.isFunction
  exact .function rfl (.block (.lastStatement hbody.expressionStatement))

theorem reaches_loopCall (h : Loop result next k iter w) (hw : w.Closed) (ha : w.Knows a) (hacc : w.Knows acc) :
    w.Reaches (w.loopCall k result a acc) := by
  refine hw.addScope _ _ (fun id hid => Option.some.inj hid ▸ h.exists_scope) fun binding hbinding => ?_
  rcases List.mem_cons.1 (OrderedMap.mem_ofList hbinding) with rfl | hbinding
  · exact ha
  · rw [List.mem_singleton.1 hbinding]
    exact hacc

theorem get?_arr (h : Loop result next k iter w) (a acc : Value) :
    (w.loopCall k result a acc).get? w.scopes.size "arr" = some a :=
  h.get?_loopCall "arr"

theorem get?_result (h : Loop result next k iter w) :
    (w.loopCall k result a acc).get? w.scopes.size result = some acc := by
  have hne : result ≠ "arr" := fun heq => h.fresh (heq ▸ List.mem_cons_self ..)
  rw [h.get?_loopCall, if_neg hne, if_pos rfl]

theorem get?_builtin (h : Loop result next k iter w) (hname : name ∈ loopBuiltins) :
    (w.loopCall k result a acc).get? w.scopes.size name = none := by
  rw [h.get?_outer (List.mem_cons_of_mem _ (List.mem_append_left ["f"] hname)), h.unbound name hname]

theorem calls_nil (h : Loop result next k iter w) (acc : Value) :
    Calls .default iter [.array [], acc] w acc.unwrapReturned (w.loopCall k result (.array []) acc) :=
  h.calls (.consequence (evaluates_arrayIsEmpty (h.get?_arr ..) (h.get?_builtin (by decide)))
    (.block (.lastStatement (.expressionStatement (.identifier h.get?_result)))))

theorem calls_cons (h : Loop result next k iter w)
    (hnext : Evaluates .default next w.scopes.size (w.loopCall k result (.array (x :: xs)) acc) acc' w₁)
    (hacc : acc'.type ≠ .error) (hrest : Calls .default iter [.array xs, acc'] w₁ v w') :
    Calls .default iter [.array (x :: xs), acc] w v.unwrapReturned w' := by
  have hiter : (w.loopCall k result (.array (x :: xs)) acc).get? w.scopes.size "iter" = some iter := by
    rw [h.get?_outer (by decide), h.iter_bound]
  have hfunction : iter.type ≠ .error := by
    obtain ⟨identity, rfl⟩ := h.isFunction
    exact ValueType.noConfusion
  have hempty := evaluates_arrayIsEmpty (h.get?_arr (.array (x :: xs)) acc) (h.get?_builtin (by decide))
  refine h.calls (.alternative hempty Node.noConfusion (.block (.lastStatement (.expressionStatement ?_))))
  exact .call (.identifier hiter) hfunction
    (.moreValues (evaluates_restOfArray (h.get?_arr ..) (h.get?_builtin (by decide))) ValueType.noConfusion
      (.moreValues hnext hacc (.noMoreValues hrest)))

end Loop

/-! ## Definitions of functions -/

section

variable {parameters : List String} {body : Node} {other : String}

/-- The world in which a function has been made and bound to a name. -/
def World.define (w : World) (scope : ScopeId) (name : String) (parameters : List String) (body : Node) : World :=
  w.addFunction.2.set scope name (.function w.functions parameters body scope)

theorem evaluates_define : Evaluates .default (.letStatement name (.function parameters body)) scope w .null
    (w.define scope name parameters body) :=
  .letStatement .function ValueType.noConfusion

namespace World

theorem keeps_addFunction (w : World) : w.Keeps w.addFunction.2 :=
  ⟨Nat.le_refl _, fun _ _ => rfl⟩

theorem frame_define (w : World) (scope : ScopeId) (name : String) (parameters : List String) (body : Node) :
    Frame scope [name] w (w.define scope name parameters body) :=
  w.keeps_addFunction.frame.trans (.set (List.mem_singleton_self name) _)

theorem reaches_define (hw : w.Closed) (hscope : scope < w.scopes.size) :
    w.Reaches (w.define scope name parameters body) := by
  have hcount : w.Reaches w.addFunction.2 := hw.of_scopes rfl (Nat.le_succ _)
  have hfunction : w.addFunction.2.Knows (.function w.functions parameters body scope) :=
    knows_atom ⟨Nat.lt_succ_self _, hscope⟩ rfl
  exact hcount.trans (hcount.closed.set hfunction scope name)

theorem get?_define_self (hscope : scope < w.scopes.size) :
    (w.define scope name parameters body).get? scope name = some (.function w.functions parameters body scope) :=
  get?_set_self (w := w.addFunction.2) hscope ..

theorem get?_define_of_ne (hscope : scope < w.scopes.size) (hne : other ≠ name) :
    (w.define scope name parameters body).get? scope other = w.get? scope other :=
  (w.frame_define scope name parameters body).get?_eq hscope fun hmem => hne (List.mem_singleton.1 hmem)

end World

end

/-! ## Calls that make a loop -/

section

variable {bindings : OrderedMap String Value}

/-- The world in which a call with the bindings has bound its loop, in the scope of the call. -/
def World.loopStart (w : World) (scope : ScopeId) (bindings : OrderedMap String Value) (result : String) (next : Node) :
    World :=
  (w.addScope (some scope) bindings).2.define w.scopes.size "iter" ["arr", result] (loopBody result next)

theorem World.lt_size_addScope (w : World) (outer : Option ScopeId) (bindings : OrderedMap String Value) :
    w.scopes.size < (w.addScope outer bindings).2.scopes.size :=
  Nat.lt_of_lt_of_eq (Nat.lt_succ_self _) (Array.size_push ..).symm

theorem World.size_loopStart (w : World) (scope : ScopeId) (bindings : OrderedMap String Value) (result : String)
    (next : Node) : (w.loopStart scope bindings result next).scopes.size = w.scopes.size + 1 :=
  (Array.size_modify ..).trans (Array.size_push ..)

theorem World.idles_loopStart (w : World) (scope : ScopeId) (bindings : OrderedMap String Value) (result : String)
    (next : Node) : w.Idles (w.loopStart scope bindings result next) :=
  ⟨(World.frame_define ..).keeps, Nat.le_succ _, rfl⟩

theorem World.reaches_loopStart (hw : w.Closed) (hscope : scope < w.scopes.size)
    (hbindings : ∀ binding ∈ bindings, w.Knows binding.2) :
    w.Reaches (w.loopStart scope bindings result next) := by
  have hadd : w.Reaches (w.addScope (some scope) bindings).2 :=
    hw.addScope _ _ (fun _ hid => Option.some.inj hid ▸ hscope) hbindings
  exact hadd.trans (World.reaches_define hadd.closed (w.lt_size_addScope ..))

theorem World.get?_loopStart (hscope : scope < w.scopes.size) (hname : name ≠ "iter") :
    (w.loopStart scope bindings result next).get? w.scopes.size name =
      (OrderedMap.get? bindings name).or (w.get? scope name) := by
  rw [World.loopStart, World.get?_define_of_ne (w.lt_size_addScope ..) hname, World.get?_addScope hscope]

theorem World.loop_loopStart (hscope : scope < w.scopes.size)
    (hunbound : ∀ name ∈ loopBuiltins, w.get? scope name = none)
    (hkeys : ∀ name ∈ loopBuiltins, name ∉ OrderedMap.keys bindings)
    (hfresh : result ∉ "arr" :: "iter" :: (loopBuiltins ++ ["f"])) :
    Loop result next w.scopes.size (.function w.functions ["arr", result] (loopBody result next) w.scopes.size)
      (w.loopStart scope bindings result next) where
  exists_scope := Nat.lt_of_lt_of_eq (Nat.lt_succ_self _) (w.size_loopStart ..).symm
  isFunction := ⟨_, rfl⟩
  fresh := hfresh
  iter_bound := World.get?_define_self (w.lt_size_addScope ..)
  unbound name hname := by
    have hiter : name ≠ "iter" := by
      rintro rfl
      revert hname
      decide
    rw [World.get?_loopStart hscope hiter, (OrderedMap.get?_eq_none_iff ..).2 (hkeys name hname), hunbound name hname]
    rfl

theorem calls_loopOver {identity : Nat} {parameters : List String} {arguments : List Value}
    (hscope : scope < w.scopes.size) (hlength : arguments.length = parameters.length)
    (hbindings : OrderedMap.ofList (parameters.zip arguments) = bindings)
    (hloop : Loop result next w.scopes.size (.function w.functions ["arr", result] (loopBody result next) w.scopes.size)
      (w.loopStart scope bindings result next))
    (harr : OrderedMap.get? bindings "arr" = some (.array xs))
    (hstart : Evaluates .default start w.scopes.size (w.loopStart scope bindings result next) acc
      (w.loopStart scope bindings result next)) (hacc : acc.type ≠ .error)
    (hcall : Calls .default (.function w.functions ["arr", result] (loopBody result next) w.scopes.size)
      [.array xs, acc] (w.loopStart scope bindings result next) v w') :
    Calls .default (.function identity parameters (loopOver result next start) scope) arguments w v.unwrapReturned
      w' := by
  have harr' : (w.loopStart scope bindings result next).get? w.scopes.size "arr" = some (.array xs) := by
    rw [World.get?_loopStart hscope (by decide), harr]
    rfl
  subst hbindings
  refine .function hlength (.block (.moreStatements evaluates_define ValueType.noConfusion ValueType.noConfusion
    (.lastStatement (.expressionStatement ?_))))
  exact .call (.identifier hloop.iter_bound) ValueType.noConfusion
    (.moreValues (.identifier harr') ValueType.noConfusion (.moreValues hstart hacc (.noMoreValues hcall)))

end

end MonkeyLanguage
