import MonkeyLanguage.Eval.Evaluator
import MonkeyLanguage.Parser.Literal

/-!
# Integer arithmetic

An integer that leaves the signed 64-bit range wraps around at each operator.  For negations, sums, differences and
products it makes no difference when that happens: the value of an expression is its exact value, wrapped around
once (`wraps_once`).  What is wrapped away is a multiple of `integerCount`, and these operators take multiples to
multiples.
-/

namespace MonkeyLanguage

/-! ## Wrapping around -/

def IsInteger64 (n : Int) : Prop :=
  -9223372036854775808 ≤ n ∧ n ≤ maxInteger

theorem isInteger64_wrap (n : Int) : IsInteger64 (wrap n) :=
  ⟨le_wrap n, Int.le_of_lt_add_one (wrap_lt n)⟩

theorem dvd_wrap_sub (n : Int) : (integerCount : Int) ∣ wrap n - n := by
  rw [Int.dvd_iff_bmod_eq_zero, wrap, Int.bmod_sub_bmod, Int.sub_self, Int.zero_bmod]

/-- No other integer of 64 bits differs by a multiple of their number. -/
theorem eq_wrap_of_dvd {m n : Int} (hm : IsInteger64 m) (h : (integerCount : Int) ∣ m - n) : m = wrap n := by
  rw [Int.dvd_iff_bmod_eq_zero, ← Int.bmod_eq_bmod_iff_bmod_sub_eq_zero] at h
  rw [wrap, ← h]
  exact (wrap_of_mem_range hm.1 (Int.lt_add_one_of_le hm.2)).symm

theorem wrap_neg_wrap (n : Int) : wrap (-wrap n) = wrap (-n) :=
  Int.bmod_neg_bmod

theorem wrap_add_wrap (m n : Int) : wrap (wrap m + wrap n) = wrap (m + n) :=
  Int.add_bmod_bmod.trans Int.bmod_add_bmod

theorem wrap_sub_wrap (m n : Int) : wrap (wrap m - wrap n) = wrap (m - n) :=
  Int.sub_bmod_bmod.trans Int.bmod_sub_bmod

theorem wrap_mul_wrap (m n : Int) : wrap (wrap m * wrap n) = wrap (m * n) :=
  Int.mul_bmod_bmod.trans Int.bmod_mul_bmod

/-! ## Expressions -/

namespace Node

/-- The expression computes the exact integer from literals and names that are bound to integers. -/
inductive Computes (bound : String → Option Value) : Node → Int → Prop where
  | integer {n : Int} (hnonneg : 0 ≤ n) (hmax : n ≤ maxInteger) : Computes bound (.integer n) n
  | identifier {name : String} {n : Int} (hname : bound name = some (.integer n)) (hn : IsInteger64 n) :
    Computes bound (.identifier name) n
  | negation {e : Node} {n : Int} (he : Computes bound e n) : Computes bound (.unary "-" e) (-n)
  | sum {left right : Node} {m n : Int} (hleft : Computes bound left m) (hright : Computes bound right n) :
    Computes bound (.binary left "+" right) (m + n)
  | difference {left right : Node} {m n : Int} (hleft : Computes bound left m) (hright : Computes bound right n) :
    Computes bound (.binary left "-" right) (m - n)
  | product {left right : Node} {m n : Int} (hleft : Computes bound left m) (hright : Computes bound right n) :
    Computes bound (.binary left "*" right) (m * n)

/-- The number of evaluations that stand inside each other when operators are evaluated. -/
def nesting : Node → Nat
  | unary _ right => right.nesting + 1
  | binary left _ right => max left.nesting right.nesting + 1
  | _ => 1

end Node

variable {table : BuiltinTable} {scope : ScopeId} {w : World} {node left right : Node} {m n k : Int} {depth : Nat}

/-- Evaluation of the node gives the integer and changes nothing, if the depth is enough. -/
def GivesInteger (table : BuiltinTable) (scope : ScopeId) (w : World) (node : Node) (n : Int) : Prop :=
  ∀ depth, eval table depth node scope w =
    if node.nesting ≤ depth then .ok (.integer n) w else .error .tooDeep w

namespace Evaluator

variable {eval : Evaluator} {next : Value → EvalM Value}

theorem withValue_of_ok {v : Value} (h : eval node scope w = .ok v w) (hv : v.type ≠ .error) :
    withValue eval scope node next w = next v w := by
  change EStateM.bind (eval node scope) _ w = _
  rw [EStateM.bind, h]
  cases v with
  | error e => exact absurd rfl hv
  | _ => rfl

theorem withValue_of_error {e : Abort} (h : eval node scope w = .error e w) :
    withValue eval scope node next w = .error e w := by
  change EStateM.bind (eval node scope) _ w = _
  rw [EStateM.bind, h]

end Evaluator

namespace GivesInteger

theorem of_value (hnesting : node.nesting = 1)
    (h : ∀ depth, eval table (depth + 1) node scope w = .ok (.integer n) w) : GivesInteger table scope w node n := by
  intro depth
  rw [hnesting]
  cases depth with
  | zero => rfl
  | succ depth => rw [h, if_pos (Nat.le_add_left 1 depth)]

theorem negation (h : GivesInteger table scope w node (wrap n)) :
    GivesInteger table scope w (.unary "-" node) (wrap (-n)) := by
  intro depth
  cases depth with
  | zero => rfl
  | succ depth =>
    change Evaluator.withValue (eval table depth) scope node (fun v => return v.applyUnary "-") w = _
    simp only [Node.nesting, Nat.add_le_add_iff_right]
    by_cases hdepth : node.nesting ≤ depth
    · rw [Evaluator.withValue_of_ok ((h depth).trans (if_pos hdepth)) ValueType.noConfusion, if_pos hdepth,
        ← wrap_neg_wrap]
      rfl
    · rw [Evaluator.withValue_of_error ((h depth).trans (if_neg hdepth)), if_neg hdepth]

theorem binary {operator : String} (hleft : GivesInteger table scope w left m)
    (hright : GivesInteger table scope w right n)
    (happly : Value.applyBinary operator (.integer m) (.integer n) = .integer k) :
    GivesInteger table scope w (.binary left operator right) k := by
  intro depth
  cases depth with
  | zero => rfl
  | succ depth =>
    change Evaluator.withValue (eval table depth) scope left (fun a =>
      Evaluator.withValue (eval table depth) scope right fun b => return Value.applyBinary operator a b) w = _
    simp only [Node.nesting, Nat.add_le_add_iff_right, Nat.max_le]
    by_cases hl : left.nesting ≤ depth
    · rw [Evaluator.withValue_of_ok ((hleft depth).trans (if_pos hl)) ValueType.noConfusion]
      by_cases hr : right.nesting ≤ depth
      · rw [Evaluator.withValue_of_ok ((hright depth).trans (if_pos hr)) ValueType.noConfusion, happly,
          if_pos ⟨hl, hr⟩]
        rfl
      · rw [Evaluator.withValue_of_error ((hright depth).trans (if_neg hr)), if_neg fun h => hr h.2]
    · rw [Evaluator.withValue_of_error ((hleft depth).trans (if_neg hl)), if_neg fun h => hl h.1]

end GivesInteger

/-- The value of an expression is what it computes, wrapped around. -/
theorem givesInteger_of_computes (h : node.Computes (w.get? scope) n) : GivesInteger table scope w node (wrap n) := by
  induction h with
  | integer hnonneg hmax =>
    rw [wrap_of_mem_range (Int.le_trans (by decide) hnonneg) (Int.lt_add_one_of_le hmax)]
    exact .of_value rfl fun _ => rfl
  | identifier hname hn =>
    rw [wrap_of_mem_range hn.1 (Int.lt_add_one_of_le hn.2)]
    refine .of_value rfl fun depth => (Evaluator.lookUp_apply ..).trans ?_
    rw [hname]
  | negation _ ih => exact ih.negation
  | sum _ _ hleft hright => exact hleft.binary hright (congrArg Value.integer (wrap_add_wrap ..))
  | difference _ _ hleft hright => exact hleft.binary hright (congrArg Value.integer (wrap_sub_wrap ..))
  | product _ _ hleft hright => exact hleft.binary hright (congrArg Value.integer (wrap_mul_wrap ..))

/-- Wrapping around at each operator of an expression is wrapping its exact value around once.  That is the only integer
of 64 bits that differs from the exact value by a multiple of their number. -/
theorem wraps_once (h : node.Computes (w.get? scope) n) (table : BuiltinTable) (depth : Nat) :
    (eval table depth node scope w =
      if node.nesting ≤ depth then .ok (.integer (wrap n)) w else .error .tooDeep w) ∧
    ∀ k : Int, (IsInteger64 (wrap k) ∧ (integerCount : Int) ∣ wrap k - k) ∧
      ∀ m, IsInteger64 m → (integerCount : Int) ∣ m - k → m = wrap k :=
  ⟨givesInteger_of_computes h depth, fun k => ⟨⟨isInteger64_wrap k, dvd_wrap_sub k⟩, fun _ => eq_wrap_of_dvd⟩⟩

/-- Both operators leave the range, and the exact value is in it. -/
theorem wraps_once_of_least :
    let w : World := ⟨#[⟨none, [("x", .integer (-9223372036854775808))]⟩], 0, ""⟩
    eval .default 3 (.binary (.unary "-" (.identifier "x")) "-" (.integer 1)) 0 w =
      .ok (.integer 9223372036854775807) w := by
  intro w
  have hx : Node.Computes (w.get? 0) (.identifier "x") (-9223372036854775808) :=
    .identifier (by with_unfolding_all rfl) ⟨by decide, by decide⟩
  exact (wraps_once (hx.negation.difference (.integer (by decide) (by decide))) .default 3).1

end MonkeyLanguage
