import Mathlib.Algebra.Ring.Int.Defs
import MonkeyLanguage.Proofs.Eval.Arithmetic
import MonkeyLanguage.Proofs.Session.ArrayLoops

/-!
# `map`, `reduce` and `sum`

The loop of `map` calls a function on the elements.  It is compared with calls of that function one right after another
(`CallsInTurn`).  The loop makes scopes of its own between the calls, so its world is a copy of the other under other
numbers.  `MapRound` is one round of the loop, `LoopCopies` what all of its rounds leave.

`sum` is a `reduce` that adds up, and its loop carries the wrapped sum of the elements so far.
-/

namespace MonkeyLanguage

/-! ## Trees -/

namespace Node

/-- `push(accumulated, f(first(arr)))` -/
def pushCall : Node :=
  .call (.identifier "push") [.identifier "accumulated", .call (.identifier "f") [firstOfArray]]

/-- `f(result, first(arr))` -/
def foldCall : Node :=
  .call (.identifier "f") [.identifier "result", firstOfArray]

/-- The body of `map`, which has the parameters `arr` and `f`. -/
def mapBody : Node :=
  loopOver "accumulated" pushCall (.array [])

/-- The body of `reduce`, which has the parameters `arr`, `initial` and `f`. -/
def reduceBody : Node :=
  loopOver "result" foldCall (.identifier "initial")

/-- `{ initial + el }` -/
def adderBody : Node :=
  .block [.expressionStatement (.binary (.identifier "initial") "+" (.identifier "el"))]

/-- The body of `sum`, which has the parameter `arr`. -/
def sumBody : Node :=
  .block [.expressionStatement (.call (.identifier "reduce")
    [.identifier "arr", .integer 0, .function ["initial", "el"] adderBody])]

end Node

open Node

variable {scope k : Nat} {iter f x acc v : Value} {xs vs ws : List Value} {w w₁ w' u u₀ u₁ u' : World}
  {before before' : String} {ρ ρ₁ σ : Renaming}

/-! ## Calls one after another -/

/-- A call of a function on one value, as a call expression makes it: a failure in the place of the argument is the
value of the call. -/
def Evaluator.callOn (eval : Evaluator) (f x : Value) : EvalM Value :=
  match x with
  | .error e => return .error e
  | x => eval.call f [x]

/-- From the first world to the second, the function is called on each value in turn, and no call fails.  Between the
calls the world changes as the relation says. -/
inductive CallsInTurn (between : World → World → Prop) (f : Value) :
    World → List Value → List Value → World → Prop where
  | nil {w w' : World} (hbetween : between w w') : CallsInTurn between f w [] [] w'
  | cons {w w₁ w₂ w' : World} {x v : Value} {xs vs : List Value} (hbetween : between w w₁)
    (hcall : Gives (fun depth => (eval .default depth).callOn f x) w₁ v w₂) (hv : v.type ≠ .error)
    (hrest : CallsInTurn between f w₂ xs vs w') : CallsInTurn between f w (x :: xs) (v :: vs) w'

theorem CallsInTurn.of_idles (h : w.Idles w₁) (hcalls : CallsInTurn World.Idles f w₁ xs vs w') :
    CallsInTurn World.Idles f w xs vs w' := by
  cases hcalls with
  | nil hbetween => exact .nil (h.trans hbetween)
  | cons hbetween hcall hv hrest => exact .cons (h.trans hbetween) hcall hv hrest

theorem gives_callOn_iff (hx : x.type ≠ .error) :
    Gives (fun depth => (eval .default depth).callOn f x) w v w' ↔ Calls .default f [x] w v w' := by
  have hcall (eval : Evaluator) : eval.callOn f x = eval.call f [x] := by
    cases x with
    | error e => exact absurd rfl hx
    | _ => rfl
  simp only [hcall]

theorem type_ne_of_callOn (h : Gives (fun depth => (eval .default depth).callOn f x) w v w') (hv : v.type ≠ .error) :
    x.type ≠ .error := by
  obtain ⟨depth, hcall⟩ : ∃ depth, (eval .default depth).callOn f x w = .ok v w' := h.exists_ok
  intro hx
  cases x with
  | error e =>
    injection hcall with hvalue
    exact hv (hvalue ▸ rfl)
  | _ => cases hx

/-! ## The loop of `map` -/

theorem evaluates_pushCall (h : Loop "accumulated" pushCall k iter w) (hf : w.get? k "f" = some f)
    (hx : x.type ≠ .error) (hv : v.type ≠ .error)
    (hcall : Calls .default f [x] (w.loopCall k "accumulated" (.array (x :: xs)) (.array ws)) v w') :
    Evaluates .default pushCall w.scopes.size (w.loopCall k "accumulated" (.array (x :: xs)) (.array ws))
      (.array (ws ++ [v])) w' := by
  have hfirst := evaluates_firstOfArray (h.get?_arr (.array (x :: xs)) (.array ws)) (h.get?_builtin (by decide))
  have helement : Evaluates .default (.call (.identifier "f") [firstOfArray]) w.scopes.size
      (w.loopCall k "accumulated" (.array (x :: xs)) (.array ws)) v w' :=
    .call (.identifier ((h.get?_outer (by decide)).trans hf)) (hcall.type_ne hv)
      (.moreValues hfirst hx (.noMoreValues hcall))
  exact .call (.builtin (h.get?_builtin (by decide)) rfl) ValueType.noConfusion
    (.moreValues (.identifier h.get?_result) ValueType.noConfusion
      (.moreValues helement hv (.noMoreValues (Calls.builtin rfl))))

/-- The loop of `map` is about to go through `xs` with the results `ws`, in a copy of the world `w`. -/
structure MapState (f : Value) (k : ScopeId) (iter : Value) (before before' : String) (ρ : Renaming) (w u : World)
    (xs ws : List Value) : Prop where
  loop : Loop "accumulated" pushCall k iter u
  f_bound : u.get? k "f" = some f
  f_fixed : f.rename ρ = f
  copied : World.Copied ρ before before' w u
  closed : u.Closed
  elements : ∀ x ∈ xs, u.Knows x ∧ x.rename ρ = x
  results : ∀ v ∈ ws, u.Knows v

/-- One round of the loop goes from `u` to `u₁`: it makes the scope of a call of the loop, and calls the function there
in a copy of the world `w`. -/
structure MapRound (f x v : Value) (before before' : String) (ρ ρ₁ : Renaming) (w w₁ u u₀ u₁ : World) : Prop where
  idles : u.Idles u₀
  size_eq : u₀.scopes.size = u.scopes.size + 1
  functions_eq : u₀.functions = u.functions
  agree : ∀ y : Value, u.Knows (y.rename ρ) → y.rename ρ₁ = y.rename ρ
  copied₀ : World.Copied ρ₁ before before' w u₀
  copied₁ : World.Copied ρ₁ before before' w₁ u₁
  reaches₀ : u.Reaches u₀
  reaches₁ : u₀.Reaches u₁
  call : Calls .default f [x] u₀ (v.rename ρ₁) u₁
  known : u₁.Knows (v.rename ρ₁)

/-- The loop from `u` to `u'` makes the calls that lead from `w` to `w'`, in a copy of that world.  It makes one scope
for each call of its own besides, and else nothing that the calls do not make. -/
structure LoopCopies (f : Value) (xs vs : List Value) (before before' : String) (ρ σ : Renaming) (w w' u u' : World) :
    Prop where
  agree : ∀ y : Value, u.Knows (y.rename ρ) → y.rename σ = y.rename ρ
  copied : World.Copied σ before before' w' u'
  scopes_eq : u'.scopes.size + w.scopes.size = w'.scopes.size + u.scopes.size + (xs.length + 1)
  functions_eq : u'.functions + w.functions = w'.functions + u.functions
  inTurn : CallsInTurn World.Idles f u xs (vs.map (Value.rename σ)) u'

theorem MapRound.fixed (h : MapRound f x v before before' ρ ρ₁ w w₁ u u₀ u₁) {y : Value}
    (hy : u.Knows y ∧ y.rename ρ = y) : u₁.Knows y ∧ y.rename ρ₁ = y :=
  ⟨(hy.1.later h.reaches₀).later h.reaches₁, (h.agree y (hy.2.symm ▸ hy.1)).trans hy.2⟩

theorem MapState.exists_round (h : MapState f k iter before before' ρ w u (x :: xs) ws)
    (hcall : Calls .default f [x] w v w₁) :
    ∃ ρ₁ u₁, MapRound f x v before before' ρ ρ₁ w w₁ u
      (u.loopCall k "accumulated" (.array (x :: xs)) (.array ws)) u₁ := by
  have hidles := u.idles_loopCall k "accumulated" (.array (x :: xs)) (.array ws)
  have hsize := u.size_loopCall k "accumulated" (.array (x :: xs)) (.array ws)
  have hreaches : u.Reaches (u.loopCall k "accumulated" (.array (x :: xs)) (.array ws)) :=
    h.loop.reaches_loopCall h.closed (World.knows_array fun y hy => (h.elements y hy).1) (World.knows_array h.results)
  have hcount : (u.loopCall k "accumulated" (.array (x :: xs)) (.array ws)).functions = u.functions := rfl
  -- The call of the function only needs to know that this scope is there, and that nothing else has happened.
  generalize u.loopCall k "accumulated" (.array (x :: xs)) (.array ws) = u₀ at hidles hsize hreaches hcount ⊢
  have hcopied := h.copied.idle h.closed hidles
  have hagree (y : Value) (hy : u.Knows (y.rename ρ)) := hy.rename_trans_since u₀
  have hfixed {y : Value} (hy : u.Knows y ∧ y.rename ρ = y) : u₀.Knows y ∧ y.rename (ρ.trans (u.since u₀)) = y :=
    ⟨hy.1.later hreaches, (hagree y (hy.2.symm ▸ hy.1)).trans hy.2⟩
  obtain ⟨u₁, hcall₁, hcopied₁, hreaches₁, hknown⟩ := hcall.copied_of_known hcopied hreaches.closed
    (hfixed ⟨h.closed.get? h.f_bound, h.f_fixed⟩) (hfixed (h.elements x (List.mem_cons_self ..)))
  exact ⟨_, u₁, hidles, hsize, hcount, hagree, hcopied, hcopied₁, hreaches, hreaches₁, hcall₁, hknown⟩

theorem MapState.next (h : MapState f k iter before before' ρ w u (x :: xs) ws)
    (hround : MapRound f x v before before' ρ ρ₁ w w₁ u u₀ u₁) :
    MapState f k iter before before' ρ₁ w₁ u₁ xs (ws ++ [v.rename ρ₁]) := by
  have hkeeps : u.Keeps u₁ := hround.idles.keeps.trans hround.call.keeps
  refine ⟨h.loop.later hkeeps, (hkeeps.get?_eq h.loop.exists_scope "f").trans h.f_bound,
    (hround.fixed ⟨h.closed.get? h.f_bound, h.f_fixed⟩).2, hround.copied₁, hround.reaches₁.closed,
    fun y hy => hround.fixed (h.elements y (List.mem_cons_of_mem x hy)), ?_⟩
  rw [List.forall_mem_append]
  exact ⟨fun y hy => ((h.results y hy).later hround.reaches₀).later hround.reaches₁,
    List.forall_mem_singleton.2 hround.known⟩

theorem LoopCopies.cons (hround : MapRound f x v before before' ρ ρ₁ w w₁ u u₀ u₁) (hx : x.type ≠ .error)
    (hv : v.type ≠ .error) (h : LoopCopies f xs vs before before' ρ₁ σ w₁ w' u₁ u') :
    LoopCopies f (x :: xs) (v :: vs) before before' ρ σ w w' u u' := by
  have hnumbers := hround.copied₀.numbers_eq hround.copied₁ hround.reaches₁.scopes_le hround.reaches₁.functions_le
  have hsize := hround.size_eq
  have hcount := hround.functions_eq
  refine ⟨fun y hy => ?_, h.copied, ?_, ?_, ?_⟩
  · have hknown : u₁.Knows (y.rename ρ₁) := (hround.agree y hy).symm ▸ (hy.later hround.reaches₀).later hround.reaches₁
    rw [h.agree y hknown, hround.agree y hy]
  · have hrest := h.scopes_eq
    rw [List.length_cons]
    omega
  · have hrest := h.functions_eq
    omega
  · rw [List.map_cons, h.agree v hround.known]
    have hresult : (v.rename ρ₁).type ≠ .error := by rwa [Value.type_rename]
    exact .cons hround.idles ((gives_callOn_iff hx).2 hround.call) hresult h.inTurn

/-- The loop of `map` does what calls of the function in turn do. -/
theorem MapState.calls_of_inTurn (h : MapState f k iter before before' ρ w u xs ws)
    (hcalls : CallsInTurn Eq f w xs vs w') :
    ∃ σ u', Calls .default iter [.array xs, .array ws] u (.array (ws ++ vs.map (Value.rename σ))) u' ∧
      LoopCopies f xs vs before before' ρ σ w w' u u' := by
  -- Each round gives new numbers to what its call makes, so the renaming changes from round to round.
  induction hcalls generalizing ρ u ws with
  | @nil w w' hbetween =>
    subst hbetween
    have hidles := u.idles_loopCall k "accumulated" (.array []) (.array ws)
    refine ⟨_, _, ?_, fun y hy => hy.rename_trans_since _, h.copied.idle h.closed hidles, ?_, Nat.add_comm ..,
      .nil hidles⟩
    · rw [List.map_nil, List.append_nil]
      exact h.loop.calls_nil (.array ws)
    · rw [World.size_loopCall, List.length_nil]
      omega
  | @cons w _ w₁ w' x v xs vs hbetween hcall hv hrest ih =>
    subst hbetween
    have hx := type_ne_of_callOn hcall hv
    obtain ⟨ρ₁, u₁, hround⟩ := h.exists_round ((gives_callOn_iff hx).1 hcall)
    obtain ⟨σ, u', hloop, hcopies⟩ := ih (h.next hround)
    have hresult : (v.rename ρ₁).type ≠ .error := by rwa [Value.type_rename]
    refine ⟨σ, u', ?_, hcopies.cons hround hx hv⟩
    rw [List.map_cons, hcopies.agree v hround.known, List.append_cons]
    exact h.loop.calls_cons (evaluates_pushCall h.loop h.f_bound hx hresult hround.call) ValueType.noConfusion hloop

def mapFunction (identity : Nat) (scope : ScopeId) : Value :=
  .function identity ["arr", "f"] mapBody scope

/-- `map` calls the function on each element once, in their order, and gives the array of the results. -/
theorem calls_mapFunction (identity : Nat) (hw : w.Closed) (hscope : scope < w.scopes.size)
    (hunbound : ∀ name ∈ loopBuiltins, w.get? scope name = none) (hf : w.Knows f)
    (hxs : ∀ x ∈ xs, w.Knows x) (hcalls : CallsInTurn Eq f w xs vs w') :
    ∃ ρ u, Calls .default (mapFunction identity scope) [.array xs, f] w (.array (vs.map (Value.rename ρ))) u ∧
      (∀ v, w.Knows v → v.rename ρ = v) ∧ World.Copied ρ w.output w.output w' u ∧
      u.scopes.size = w'.scopes.size + xs.length + 2 ∧ u.functions = w'.functions + 1 ∧
      CallsInTurn World.Idles f w xs (vs.map (Value.rename ρ)) u := by
  have hkeys : ∀ name ∈ loopBuiltins, name ∉ ["arr", "f"] := by decide
  have hloop : Loop "accumulated" pushCall w.scopes.size _
      (w.loopStart scope [("arr", .array xs), ("f", f)] "accumulated" pushCall) :=
    World.loop_loopStart hscope hunbound hkeys (by decide)
  have hidles := w.idles_loopStart scope [("arr", .array xs), ("f", f)] "accumulated" pushCall
  have hreaches : w.Reaches (w.loopStart scope [("arr", .array xs), ("f", f)] "accumulated" pushCall) := by
    refine World.reaches_loopStart hw hscope ?_
    rw [List.forall_mem_cons, List.forall_mem_singleton]
    exact ⟨World.knows_array hxs, hf⟩
  obtain ⟨ρ, u, hcall, hcopies⟩ := MapState.calls_of_inTurn
    ⟨hloop, World.get?_loopStart hscope (by decide), hf.rename_since, hw.copied hidles.keeps hidles.functions_le,
      hreaches.closed, fun x hx => ⟨(hxs x hx).later hreaches, (hxs x hx).rename_since⟩, List.forall_mem_nil _⟩ hcalls
  have hmap : Calls .default (mapFunction identity scope) [.array xs, f] w (.array (vs.map (Value.rename ρ))) u :=
    calls_loopOver (v := .array _) hscope rfl rfl hloop rfl .emptyArray ValueType.noConfusion hcall
  refine ⟨ρ, u, hmap, fun v hv => ?_, hcopies.copied, ?_, ?_, hcopies.inTurn.of_idles hidles⟩
  · have hknown := hv.later hreaches
    rw [← hv.rename_since] at hknown
    exact (hcopies.agree v hknown).trans hv.rename_since
  · have hsize := hcopies.scopes_eq
    rw [World.size_loopStart] at hsize
    omega
  · have hcount : u.functions + w.functions = w'.functions + (w.functions + 1) := hcopies.functions_eq
    omega

/-! ## The loop of `reduce` -/

theorem calls_adder (identity : Nat) (hscope : scope < w.scopes.size) (m n : Int) :
    ∃ w', Calls .default (.function identity ["initial", "el"] adderBody scope) [.integer m, .integer n] w
      (.integer (wrap (m + n))) w' ∧ w'.output = w.output := by
  have hget := World.get?_addScope hscope [("initial", .integer m), ("el", .integer n)]
  have hsum : Evaluates .default (.binary (.identifier "initial") "+" (.identifier "el")) w.scopes.size
      (w.addScope (some scope) [("initial", .integer m), ("el", .integer n)]).2 (.integer (wrap (m + n))) _ :=
    .binary (.identifier (hget "initial")) ValueType.noConfusion (.identifier (hget "el")) ValueType.noConfusion
  exact ⟨_, Calls.function (v := .integer _) rfl (.block (.lastStatement hsum.expressionStatement)), rfl⟩

theorem evaluates_foldCall (h : Loop "result" foldCall k iter w) (hf : w.get? k "f" = some f) (hx : x.type ≠ .error)
    (hacc : acc.type ≠ .error) (hv : v.type ≠ .error)
    (hcall : Calls .default f [acc, x] (w.loopCall k "result" (.array (x :: xs)) acc) v w') :
    Evaluates .default foldCall w.scopes.size (w.loopCall k "result" (.array (x :: xs)) acc) v w' := by
  have hfirst := evaluates_firstOfArray (h.get?_arr (.array (x :: xs)) acc) (h.get?_builtin (by decide))
  exact .call (.identifier ((h.get?_outer (by decide)).trans hf)) (hcall.type_ne hv)
    (.moreValues (.identifier h.get?_result) hacc (.moreValues hfirst hx (.noMoreValues hcall)))

theorem Loop.calls_of_integers {identity : Nat} (hloop : Loop "result" foldCall k iter u)
    (hf : u.get? k "f" = some (.function identity ["initial", "el"] adderBody scope)) (hscope : scope < u.scopes.size)
    (m : Int) (ns : List Int) :
    ∃ u', Calls .default iter [.array (ns.map .integer), .integer (wrap m)] u (.integer (wrap (m + ns.sum))) u' ∧
      u'.output = u.output := by
  induction ns generalizing m u with
  | nil =>
    rw [List.sum_nil, Int.add_zero]
    exact ⟨_, hloop.calls_nil _, rfl⟩
  | cons n ns ih =>
    have hidles := u.idles_loopCall k "result" (.array (.integer n :: ns.map .integer)) (.integer (wrap m))
    obtain ⟨u₁, hadd, houtput⟩ := calls_adder identity (Nat.lt_of_lt_of_le hscope hidles.keeps.size_le) (wrap m) n
    have hkeeps : u.Keeps u₁ := hidles.keeps.trans hadd.keeps
    have hwrap : wrap (wrap m + n) = wrap (m + n) := Int.bmod_add_bmod
    rw [hwrap] at hadd
    obtain ⟨u', hrest, houtput'⟩ := ih (hloop.later hkeeps) ((hkeeps.get?_eq hloop.exists_scope "f").trans hf)
      (Nat.lt_of_lt_of_le hscope hkeeps.size_le) (m + n)
    refine ⟨u', ?_, houtput'.trans (houtput.trans hidles.output_eq)⟩
    rw [List.map_cons, List.sum_cons, ← Int.add_assoc]
    exact hloop.calls_cons (evaluates_foldCall hloop hf ValueType.noConfusion ValueType.noConfusion
      ValueType.noConfusion hadd) ValueType.noConfusion hrest

def reduceFunction (identity : Nat) (scope : ScopeId) : Value :=
  .function identity ["arr", "initial", "f"] reduceBody scope

theorem calls_reduceFunction {identity adder : Nat} {k : Nat} (hscope : scope < w.scopes.size)
    (hunbound : ∀ name ∈ loopBuiltins, w.get? scope name = none) (hk : k < w.scopes.size) (m : Int) (ns : List Int) :
    ∃ u, Calls .default (reduceFunction identity scope)
      [.array (ns.map .integer), .integer (wrap m), .function adder ["initial", "el"] adderBody k] w
      (.integer (wrap (m + ns.sum))) u ∧ u.output = w.output := by
  obtain ⟨bindings, hbindings⟩ : ∃ bindings : OrderedMap String Value, bindings = [("arr", .array (ns.map .integer)),
    ("initial", .integer (wrap m)), ("f", .function adder ["initial", "el"] adderBody k)] := ⟨_, rfl⟩
  have hkeys : ∀ name ∈ loopBuiltins, name ∉ OrderedMap.keys bindings := by
    have hnames : OrderedMap.keys bindings = ["arr", "initial", "f"] := hbindings ▸ rfl
    rw [hnames]
    decide
  have hloop : Loop "result" foldCall w.scopes.size _ (w.loopStart scope bindings "result" foldCall) :=
    World.loop_loopStart hscope hunbound hkeys (by decide)
  have hget : ∀ name ≠ "iter", (w.loopStart scope bindings "result" foldCall).get? w.scopes.size name =
      (OrderedMap.get? bindings name).or (w.get? scope name) := fun name hname => World.get?_loopStart hscope hname
  have hidles := w.idles_loopStart scope bindings "result" foldCall
  obtain ⟨u, hcall, houtput⟩ := hloop.calls_of_integers ((hget "f" (by decide)).trans (by rw [hbindings]; rfl))
    (Nat.lt_of_lt_of_le hk hidles.keeps.size_le) m ns
  have hinitial : Evaluates .default (.identifier "initial") w.scopes.size
      (w.loopStart scope bindings "result" foldCall) (.integer (wrap m)) _ :=
    .identifier ((hget "initial" (by decide)).trans (by rw [hbindings]; rfl))
  have harr : OrderedMap.get? bindings "arr" = some (.array (ns.map .integer)) := hbindings ▸ rfl
  exact ⟨u, calls_loopOver (v := .integer _) hscope rfl hbindings.symm hloop harr hinitial ValueType.noConfusion hcall,
    houtput.trans hidles.output_eq⟩

def sumFunction (identity : Nat) (scope : ScopeId) : Value :=
  .function identity ["arr"] sumBody scope

theorem calls_sumFunction (identity : Nat) {reduce : Nat} (hscope : scope < w.scopes.size)
    (hunbound : ∀ name ∈ loopBuiltins, w.get? scope name = none)
    (hreduce : w.get? scope "reduce" = some (reduceFunction reduce scope)) (ns : List Int) :
    ∃ u, Calls .default (sumFunction identity scope) [.array (ns.map .integer)] w (.integer (wrap ns.sum)) u ∧
      u.output = w.output := by
  have hget := World.get?_addScope hscope [("arr", .array (ns.map .integer))]
  have hadd := World.Keeps.addScope w (some scope) [("arr", .array (ns.map .integer))]
  have hsize := w.lt_size_addScope (some scope) [("arr", .array (ns.map .integer))]
  have hkeeps := hadd.trans (World.keeps_addFunction _)
  obtain ⟨u, hcall, houtput⟩ := calls_reduceFunction (Nat.lt_of_lt_of_le hscope hkeeps.size_le)
    (fun name hname => (hkeeps.get?_eq hscope name).trans (hunbound name hname)) hsize 0 ns
  rw [Int.zero_add] at hcall
  have hbody := Evaluates.call (.identifier ((hget "reduce").trans hreduce)) ValueType.noConfusion
    (.moreValues (.identifier (hget "arr")) ValueType.noConfusion
      (.moreValues (.integer 0) ValueType.noConfusion
        (.moreValues .function ValueType.noConfusion (.noMoreValues hcall))))
  exact ⟨u, Calls.function (v := .integer _) rfl (.block (.lastStatement hbody.expressionStatement)), houtput⟩

end MonkeyLanguage
