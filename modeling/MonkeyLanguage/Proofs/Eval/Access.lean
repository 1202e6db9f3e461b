import MonkeyLanguage.Eval.Evaluator

/-!
# Accesses of the evaluator

To take an element out of a list and to use a value as a key are accesses that need not be possible (`Fault`).  The
evaluator tests an index, a number of arguments, a list or a type before it does so.

`checkedEval` is the evaluator with its tests and accesses apart, where an access that is not possible is a fault.  It
does what `eval` does, whatever is done at a fault (`checkedEval_eq`), so the tests leave none.
-/

namespace MonkeyLanguage

/-! ## Accesses -/

/-- Why an access is not possible. -/
inductive Fault where
  /-- There is no such element. -/
  | noElement
  /-- The value cannot be a key. -/
  | noKey
deriving DecidableEq, Repr

/-- The element at an index.  Negative indices count from the end. -/
def elementAt (vs : List Value) (i : Int) : Except Fault Value :=
  match if i < 0 then i + vs.length else i with
  | .ofNat n => vs[n]?.elim (.error .noElement) .ok
  | .negSucc _ => .error .noElement

def bothOf : List Value → Except Fault (Value × Value)
  | [a, b] => .ok (a, b)
  | _ => .error .noElement

def keyOf (v : Value) : Except Fault HashKey :=
  v.hashKey?.elim (.error .noKey) .ok

variable {v : Value} {vs : List Value} {i : Int}

theorem elementAt_of_lt (h₀ : 0 ≤ i) (h : i < vs.length) : elementAt vs i = .ok (vs[i.toNat]?.getD .null) := by
  obtain ⟨n, rfl⟩ := Int.eq_ofNat_of_zero_le h₀
  have hn : n < vs.length := Int.ofNat_lt.1 h
  rw [elementAt, if_neg (Int.not_lt.2 h₀), Int.toNat_natCast, List.getElem?_eq_getElem hn]
  show vs[n]?.elim _ _ = _
  rw [List.getElem?_eq_getElem hn]
  rfl

theorem elementAt_last (h : vs ≠ []) : elementAt vs (-1) = .ok (vs.getLast?.getD .null) := by
  have hpos := List.length_pos_iff.2 h
  have hposition : (-1 + vs.length : Int) = (vs.length - 1 : Nat) := by omega
  rw [elementAt, if_pos (by decide), hposition, List.getLast?_eq_getElem?]
  show vs[vs.length - 1]?.elim _ _ = _
  rw [List.getElem?_eq_getElem (Nat.sub_lt hpos Nat.zero_lt_one)]
  rfl

/-! ## Tests -/

/-- Whether the value can be a key, by its type. -/
def Value.isKey (v : Value) : Bool :=
  v.type = .integer || v.type = .boolean || v.type = .string

theorem hashKey?_eq_none_of_not_isKey (h : v.isKey = false) : v.hashKey? = none := by
  cases v <;> first | rfl | cases h

theorem keyOf_of_isKey (h : v.isKey = true) : ∃ key, v.hashKey? = some key ∧ keyOf v = .ok key := by
  cases v <;> first | exact ⟨_, rfl, rfl⟩ | cases h

/-- Indexing, with the index tested before it is used. -/
def Value.checkedIndex (left index : Value) : Except Fault Value :=
  match left, index with
  | array vs, integer i => if i < 0 ∨ vs.length ≤ i then .ok null else elementAt vs i
  | hash ps, k =>
    if k.isKey then do
      let key ← keyOf k
      return (OrderedMap.get? ps key).getD null
    else .ok (error (.unusableKey k.type))
  | a, b => .ok (error (.notIndexable a.type b.type))

theorem checkedIndex_eq (left index : Value) : left.checkedIndex index = .ok (left.applyIndex index) := by
  cases left with
  | array vs =>
    cases index with
    | integer i =>
      rw [Value.checkedIndex, Value.applyIndex]
      split
      · next hout =>
        rcases hout with hneg | hlarge
        · rw [if_pos hneg]
        · rw [if_neg (by omega), List.getElem?_eq_none (by omega)]
          rfl
      · next hin =>
        rw [not_or, Int.not_lt, Int.not_le] at hin
        rw [elementAt_of_lt hin.1 hin.2, if_neg (Int.not_lt.2 hin.1)]
    | _ => rfl
  | hash ps =>
    rw [Value.checkedIndex, Value.applyIndex]
    cases hkey : index.isKey with
    | false =>
      rw [hashKey?_eq_none_of_not_isKey hkey]
      rfl
    | true =>
      obtain ⟨key, hkey?, haccess⟩ := keyOf_of_isKey hkey
      rw [hkey?, haccess]
      rfl
  | _ => rfl

namespace Builtin

def withArray (b : Builtin) (f : List Value → Except Fault Value) : Value → Except Fault Value
  | .array vs => f vs
  | v => .ok (.error (.notAnArray b v.type))

/-- What a builtin does with arguments of the right number. -/
def body (b : Builtin) (arguments : List Value) : Except Fault (Value × String) :=
  match b with
  | len => do
    let v ← elementAt arguments 0
    return (v.length, "")
  | first => do
    let v ← elementAt arguments 0
    return (← withArray first (fun vs => if vs.isEmpty then .ok .null else elementAt vs 0) v, "")
  | last => do
    let v ← elementAt arguments 0
    return (← withArray last (fun vs => if vs.isEmpty then .ok .null else elementAt vs (-1)) v, "")
  | rest => do
    let v ← elementAt arguments 0
    return (← withArray rest (fun vs => .ok (if vs.isEmpty then .null else .array vs.tail)) v, "")
  | push => do
    let (a, v) ← bothOf arguments
    return (← withArray push (fun vs => .ok (.array (vs ++ [v]))) a, "")
  | puts => .ok (.null, String.join (arguments.map fun v => v.display ++ "\n"))
  | print => .ok (.null, " ".intercalate (arguments.map Value.display) ++ "\n")

/-- A builtin, with the number of arguments tested before they are used. -/
def checkedApply (b : Builtin) (arguments : List Value) : Except Fault (Value × String) :=
  if b.arity.any (· ≠ arguments.length) then
    .ok (.error (.wrongBuiltinArgumentCount b (b.arity.getD 0) arguments.length), "")
  else b.body arguments

theorem withArray_eq {b : Builtin} {f : List Value → Except Fault Value} {g : List Value → Value}
    (h : ∀ vs, f vs = .ok (g vs)) (v : Value) : b.withArray f v = .ok (b.onArray g v) := by
  cases v with
  | array vs => exact h vs
  | _ => rfl

theorem checkedApply_eq (b : Builtin) (arguments : List Value) :
    b.checkedApply arguments = .ok (b.apply arguments) := by
  have hfirst (vs : List Value) : (if vs.isEmpty then .ok .null else elementAt vs 0) = .ok (vs.head?.getD .null) := by
    cases vs with
    | nil => rfl
    | cons v vs =>
      have hpos := List.length_pos_iff.2 (List.cons_ne_nil v vs)
      exact elementAt_of_lt (Int.le_refl 0) (Int.natCast_pos.2 hpos)
  have hlast (vs : List Value) :
      (if vs.isEmpty then .ok .null else elementAt vs (-1)) = .ok (vs.getLast?.getD .null) := by
    cases vs with
    | nil => rfl
    | cons v vs => exact elementAt_last (List.cons_ne_nil v vs)
  match b, arguments with
  | len, [v] => rfl
  | first, [v] =>
    show (do return (← withArray first _ v, "") : Except Fault (Value × String)) = _
    rw [withArray_eq hfirst]
    rfl
  | last, [v] =>
    show (do return (← withArray last _ v, "") : Except Fault (Value × String)) = _
    rw [withArray_eq hlast]
    rfl
  | rest, [v] =>
    show (do return (← withArray rest _ v, "") : Except Fault (Value × String)) = _
    rw [withArray_eq fun _ => rfl]
    rfl
  | push, [a, v] =>
    show (do return (← withArray push _ a, "") : Except Fault (Value × String)) = _
    rw [withArray_eq fun _ => rfl]
    rfl
  | puts, _ | print, _ => rfl
  | len, [] | first, [] | last, [] | rest, [] | push, [] | push, [_] => rfl
  | len, _ :: _ :: _ | first, _ :: _ :: _ | last, _ :: _ :: _ | rest, _ :: _ :: _ | push, _ :: _ :: _ :: _ =>
    rw [checkedApply, if_pos (by simp [arity])]
    rfl

end Builtin

/-! ## The evaluator with checked accesses -/

namespace Evaluator

variable (onFault : Fault → EvalM Value) (eval : Evaluator)

def access {α : Type} (result : Except Fault α) (next : α → EvalM Value) : EvalM Value :=
  match result with
  | .ok a => next a
  | .error fault => onFault fault

/-- Evaluates the entries of a hash.  A key is tested before the value is evaluated, and used behind it. -/
def checkedEntries (scope : ScopeId) : List (HashKey × Value) → List (Node × Node) → EvalM Value
  | before, [] => return .hash (OrderedMap.ofList before.reverse)
  | before, (keyNode, valueNode) :: pairs =>
    withValue eval scope keyNode fun k =>
      if k.isKey then
        withValue eval scope valueNode fun v =>
          access onFault (keyOf k) fun key => checkedEntries scope ((key, v) :: before) pairs
      else return .error (.unusableKey k.type)

def checkedCall (function : Value) (arguments : List Value) : EvalM Value :=
  match function with
  | .builtin b =>
    access onFault (b.checkedApply arguments) fun result => do
      modify (World.print · result.2)
      return result.1
  | f => call eval f arguments

def checkedStep (table : BuiltinTable) (node : Node) (scope : ScopeId) : EvalM Value :=
  match node with
  | .hash pairs => eval.checkedEntries onFault scope [] pairs
  | .call function arguments =>
    eval.withValue scope function fun f => eval.withValues scope (eval.checkedCall onFault f) [] arguments
  | .index left index =>
    eval.withValue scope left fun a =>
      eval.withValue scope index fun i => access onFault (a.checkedIndex i) fun v => return v
  | node => eval.step table node scope

variable {onFault eval}

theorem checkedEntries_eq (scope : ScopeId) (before : List (HashKey × Value)) (pairs : List (Node × Node)) :
    eval.checkedEntries onFault scope before pairs = eval.entries scope before pairs := by
  induction pairs generalizing before with
  | nil => rfl
  | cons pair pairs ih =>
    obtain ⟨keyNode, valueNode⟩ := pair
    rw [checkedEntries, entries]
    congr 1
    funext k
    cases hkey : k.isKey with
    | false =>
      rw [hashKey?_eq_none_of_not_isKey hkey]
      rfl
    | true =>
      obtain ⟨key, hkey?, haccess⟩ := keyOf_of_isKey hkey
      simp only [if_true, hkey?, haccess, access, ih]

theorem checkedCall_eq (function : Value) (arguments : List Value) :
    eval.checkedCall onFault function arguments = eval.call function arguments := by
  cases function with
  | builtin b =>
    rw [checkedCall, Builtin.checkedApply_eq]
    rfl
  | _ => rfl

theorem checkedStep_eq (table : BuiltinTable) : eval.checkedStep onFault table = eval.step table := by
  funext node scope
  cases node with
  | hash pairs => exact checkedEntries_eq scope [] pairs
  | call function arguments =>
    have hcall (f : Value) : eval.checkedCall onFault f = eval.call f := funext (checkedCall_eq f)
    simp only [checkedStep, step, hcall]
  | index left index => simp only [checkedStep, step, checkedIndex_eq, access]
  | _ => rfl

end Evaluator

/-- Evaluates a node in a scope with checked accesses. -/
def checkedEval (onFault : Fault → EvalM Value) (table : BuiltinTable) : Nat → Evaluator
  | 0, _, _ => throw .tooDeep
  | depth + 1, node, scope => Evaluator.checkedStep onFault (checkedEval onFault table depth) table node scope

/-- Whatever is done at a fault, evaluation is the same, so it meets none. -/
theorem checkedEval_eq (onFault : Fault → EvalM Value) (table : BuiltinTable) (depth : Nat) :
    checkedEval onFault table depth = eval table depth := by
  induction depth with
  | zero => rfl
  | succ depth ih =>
    funext node scope
    rw [checkedEval, eval, ih, Evaluator.checkedStep_eq]

end MonkeyLanguage
