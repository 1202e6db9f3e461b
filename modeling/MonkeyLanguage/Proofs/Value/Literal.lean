import MonkeyLanguage.Proofs.Eval.Arithmetic
import MonkeyLanguage.Proofs.Parser.Language
import MonkeyLanguage.Proofs.Parser.RoundTrip
import MonkeyLanguage.Proofs.Parts
import MonkeyLanguage.Proofs.Token.Words

/-!
# Literals of values

Data has a literal: an expression that evaluates to the value (`eval_literal`), and of which the text of the
value is a printing (`readable_of_every`).  A negative number is a sign before a number, so its literal is an
operation, and the least integer, whose number is too large, has none.
-/

namespace MonkeyLanguage

/-! ## The literal of a value -/

def integerLiteral (n : Int) : Node :=
  if n < 0 then .unary "-" (.integer (-n)) else .integer n

def HashKey.literal : HashKey → Node
  | integer n => integerLiteral n
  | boolean b => .boolean b
  | string s => .string s

/-- How many evaluations stand inside each other where an integer is evaluated. -/
def integerDepth (n : Int) : Nat :=
  if n < 0 then 2 else 1

def HashKey.depth : HashKey → Nat
  | integer n => integerDepth n
  | _ => 1

namespace Value

/-- The value has a literal if the values in it have. -/
def IsLiteral : Value → Prop
  | integer n => -maxInteger ≤ n ∧ n ≤ maxInteger
  | boolean _ | array _ => True
  | string s => '"' ∉ s.toList
  | hash pairs => (OrderedMap.keys pairs).Nodup
  | _ => False

mutual

def literal : Value → Node
  | integer n => integerLiteral n
  | boolean b => .boolean b
  | string s => .string s
  | array vs => .array (literals vs)
  | hash pairs => .hash (entryLiterals pairs)
  | _ => .absent

def literals : List Value → List Node
  | [] => []
  | v :: vs => literal v :: literals vs

def entryLiterals : List (HashKey × Value) → List (Node × Node)
  | [] => []
  | (k, v) :: pairs => (k.literal, literal v) :: entryLiterals pairs

end

mutual

/-- How many evaluations stand inside each other where the literal of the value is evaluated. -/
def depth : Value → Nat
  | integer n => integerDepth n
  | array vs => elementsDepth vs + 1
  | hash pairs => entriesDepth pairs + 1
  | _ => 1

def elementsDepth : List Value → Nat
  | [] => 0
  | v :: vs => max (depth v) (elementsDepth vs)

def entriesDepth : List (HashKey × Value) → Nat
  | [] => 0
  | (k, v) :: pairs => max (max k.depth (depth v)) (entriesDepth pairs)

end

theorem literal_toValue (k : HashKey) : k.toValue.literal = k.literal := by
  cases k <;> rfl

theorem depth_toValue (k : HashKey) : k.toValue.depth = k.depth := by
  cases k <;> rfl

theorem render_toValue (k : HashKey) : k.toValue.render = k.render := by
  cases k <;> rfl

end Value

/-! ## Evaluation of literals -/

section

variable {table : BuiltinTable} {depth : Nat} {scope : ScopeId} {w : World} {v : Value}

/-- What evaluation of a literal gives. -/
def evaluated (depth : Nat) (v : Value) (w : World) : EStateM.Result Abort World Value :=
  if v.depth ≤ depth then .ok v w else .error .tooDeep w

namespace Evaluator

variable {eval : Evaluator} {node : Node}

/-- The node stands for a value with a literal, and is evaluated as such. -/
def Denotes (eval : Evaluator) (depth : Nat) (scope : ScopeId) (w : World) (node : Node) (v : Value) : Prop :=
  v.IsLiteral ∧ eval node scope w = evaluated depth v w

theorem Denotes.withValue_eq (h : Denotes eval depth scope w node v) (next : Value → EvalM Value) :
    withValue eval scope node next w = if v.depth ≤ depth then next v w else .error .tooDeep w := by
  obtain ⟨hv, heval⟩ := h
  have htype : v.type ≠ .error := by
    cases v with
    | error e => exact hv.elim
    | _ => exact ValueType.noConfusion
  by_cases hdepth : v.depth ≤ depth
  · rw [withValue_of_ok (heval.trans (if_pos hdepth)) htype, if_pos hdepth]
  · rw [withValue_of_error (heval.trans (if_neg hdepth)), if_neg hdepth]

theorem withValues_literals {vs : List Value} {next : List Value → EvalM Value}
    (h : ∀ v ∈ vs, Denotes eval depth scope w v.literal v) (before : List Value) :
    withValues eval scope next before (Value.literals vs) w =
      if Value.elementsDepth vs ≤ depth then next (before.reverse ++ vs) w else .error .tooDeep w := by
  induction vs generalizing before with
  | nil => simp [Value.literals, Value.elementsDepth, withValues]
  | cons v vs ih =>
    rw [List.forall_mem_cons] at h
    rw [Value.literals, Value.elementsDepth, withValues, h.1.withValue_eq]
    by_cases hdepth : v.depth ≤ depth
    · rw [if_pos hdepth, ih h.2]
      simp only [Nat.max_le, hdepth, true_and, List.reverse_cons, List.append_assoc, List.singleton_append]
    · rw [if_neg hdepth, if_neg (by omega)]

theorem entries_literals {pairs : List (HashKey × Value)}
    (h : ∀ pair ∈ pairs, Denotes eval depth scope w pair.1.literal pair.1.toValue ∧
      Denotes eval depth scope w pair.2.literal pair.2) (before : List (HashKey × Value)) :
    entries eval scope before (Value.entryLiterals pairs) w =
      if Value.entriesDepth pairs ≤ depth then .ok (.hash (OrderedMap.ofList (before.reverse ++ pairs))) w
      else .error .tooDeep w := by
  induction pairs generalizing before with
  | nil =>
    rw [Value.entryLiterals, Value.entriesDepth, if_pos (Nat.zero_le _), List.append_nil]
    rfl
  | cons pair pairs ih =>
    rw [List.forall_mem_cons] at h
    obtain ⟨⟨hkey, hvalue⟩, hpairs⟩ := h
    rw [Value.entryLiterals, Value.entriesDepth, entries, hkey.withValue_eq, Value.depth_toValue]
    simp only [Value.hashKey?_toValue]
    by_cases hdepth : pair.1.depth ≤ depth
    · rw [if_pos hdepth, hvalue.withValue_eq]
      by_cases hdepth' : pair.2.depth ≤ depth
      · rw [if_pos hdepth', ih hpairs]
        simp only [Nat.max_le, hdepth, hdepth', true_and, List.reverse_cons, List.append_assoc, List.singleton_append]
      · rw [if_neg hdepth', if_neg (by omega)]
    · rw [if_neg hdepth, if_neg (by omega)]

end Evaluator

theorem computes_integerLiteral {n : Int} (h : Value.IsLiteral (.integer n)) (bound : String → Option Value) :
    (integerLiteral n).Computes bound n := by
  obtain ⟨hmin, hmax⟩ := h
  by_cases hn : n < 0
  · have hnumber : Node.Computes bound (.integer (-n)) (-n) := .integer (by omega) (by omega)
    have hnegative := hnumber.negation
    rw [Int.neg_neg] at hnegative
    rwa [integerLiteral, if_pos hn]
  · rw [integerLiteral, if_neg hn]
    exact .integer (Int.not_lt.1 hn) hmax

theorem nesting_integerLiteral (n : Int) : (integerLiteral n).nesting = integerDepth n := by
  rw [integerLiteral, integerDepth]
  split <;> rfl

theorem eval_integerLiteral {n : Int} (h : Value.IsLiteral (.integer n)) (depth : Nat) (w : World) :
    eval table depth (integerLiteral n) scope w = evaluated depth (.integer n) w := by
  have heval : GivesInteger table scope w (integerLiteral n) (wrap n) :=
    givesInteger_of_computes (computes_integerLiteral h (w.get? scope))
  have hwrap : wrap n = n := wrap_of_mem_range (Int.le_trans (by decide) h.1) (Int.lt_add_one_of_le h.2)
  rw [evaluated, Value.depth, heval depth, nesting_integerLiteral, hwrap]

theorem eval_literal (h : v.Every Value.IsLiteral) (depth : Nat) (w : World) :
    eval table depth v.literal scope w = evaluated depth v w := by
  induction h generalizing depth with
  | @intro v hv hparts ih =>
    cases v with
    | integer n => exact eval_integerLiteral hv depth w
    | boolean b =>
      cases depth with
      | zero => rfl
      | succ depth => rw [evaluated, if_pos (by simp [Value.depth])]; rfl
    | string s =>
      cases depth with
      | zero => rfl
      | succ depth => rw [evaluated, if_pos (by simp [Value.depth])]; rfl
    | array vs =>
      cases depth with
      | zero => rfl
      | succ depth =>
        simp only [evaluated, Value.depth, Nat.add_le_add_iff_right]
        exact Evaluator.withValues_literals (fun v hv => ⟨(hparts v hv).self, ih v hv depth⟩) []
    | hash pairs =>
      cases depth with
      | zero => rfl
      | succ depth =>
        have hpart {v : Value} (hv : v ∈ (Value.hash pairs).parts) :
            Evaluator.Denotes (eval table depth) depth scope w v.literal v :=
          ⟨(hparts v hv).self, ih v hv depth⟩
        refine (Evaluator.entries_literals (fun pair hpair => ⟨?_, hpart (Value.value_mem_parts hpair)⟩) []).trans ?_
        · rw [← Value.literal_toValue]
          exact hpart (Value.key_mem_parts hpair)
        · simp only [evaluated, Value.depth, Nat.add_le_add_iff_right, List.reverse_nil, List.nil_append,
            OrderedMap.ofList_eq_self hv]
    | _ => exact hv.elim

/-- A program of a literal has the value, if two evaluations more may stand inside each other. -/
theorem eval_program_literal (h : v.Every Value.IsLiteral) (depth : Nat) (w : World) :
    eval table depth (.program [.expressionStatement v.literal]) scope w =
      if v.depth + 2 ≤ depth then .ok v w else .error .tooDeep w := by
  match depth with
  | 0 | 1 => rfl
  | depth + 2 =>
    change EStateM.bind (EStateM.bind (eval table depth v.literal scope) _) _ w = _
    rw [EStateM.bind, EStateM.bind, eval_literal h depth w, evaluated]
    by_cases hdepth : v.depth ≤ depth
    · have hv := h.self
      rw [if_pos hdepth, if_pos (Nat.add_le_add_right hdepth 2)]
      cases v with
      | returned u => exact hv.elim
      | error e => exact hv.elim
      | _ => rfl
    · rw [if_neg hdepth, if_neg (by omega)]

end

/-! ## Texts of literals -/

open Lexeme Phrase

variable {v : Value} {vs : List Value} {pairs : List (HashKey × Value)}

/-- The text of the value is a printing of its literal. -/
def Value.Readable (v : Value) : Prop :=
  ∃ ws, Prints (expression false v.literal) ws ∧ Cuts v.render.toList ws

theorem cuts_of_prints_word {w : String} {e : Node} (h : Prints (expression false e) [w]) : Cuts w.toList [w] :=
  .of_isWord (by simpa using all_isWord_of_prints h)

theorem readable_integer {n : Int} (h : Value.IsLiteral (.integer n)) : Value.Readable (.integer n) := by
  obtain ⟨hmin, hmax⟩ := h
  cases n with
  | ofNat n =>
    have hprints := prints_natural hmax
    exact ⟨[n.repr], hprints, cuts_of_prints_word hprints⟩
  | negSucc n =>
    have hprints := @prints_natural (n + 1) (by omega)
    have hrender : (Value.integer (.negSucc n)).render.toList = '-' :: (n + 1).repr.toList :=
      String.toList_append
    rw [Value.Readable, Value.literal, integerLiteral, if_pos (Int.negSucc_lt_zero n), hrender]
    exact ⟨["-", (n + 1).repr], .unary (.inr rfl) hprints nofun, .punctuation rfl rfl (cuts_of_prints_word hprints)⟩

theorem readable_boolean (b : Bool) : Value.Readable (.boolean b) :=
  ⟨_, .boolean b, cuts_of_prints_word (.boolean b)⟩

theorem readable_string {s : String} (h : '"' ∉ s.toList) : Value.Readable (.string s) :=
  ⟨_, .string h, cuts_of_prints_word (.string h)⟩

theorem exists_prints_elements {v : Value} (h : ∀ u ∈ v :: vs, u.Readable) :
    ∃ ws, Prints (items (Value.literals (v :: vs))) ws ∧
      Cuts (", ".intercalate (Value.renderElements (v :: vs))).toList ws := by
  induction vs generalizing v with
  | nil =>
    obtain ⟨ws, hprints, hcuts⟩ := h v (List.mem_singleton_self v)
    exact ⟨ws, .item hprints, by simpa [Value.renderElements] using hcuts⟩
  | cons u vs ih =>
    rw [List.forall_mem_cons] at h
    obtain ⟨⟨ws, hprints, hcuts⟩, hvs⟩ := h
    obtain ⟨ws₁, hprints₁, hcuts₁⟩ := ih hvs
    exact ⟨ws ++ "," :: ws₁, .moreItems hprints hprints₁, hcuts.cons_comma hcuts₁⟩

theorem readable_array (h : ∀ v ∈ vs, v.Readable) : Value.Readable (.array vs) := by
  have htext : (Value.array vs).render.toList =
      '[' :: ((", ".intercalate (Value.renderElements vs)).toList ++ [']']) := by
    simp [Value.render, String.toList_append]
  rw [Value.Readable, htext]
  cases vs with
  | nil => exact ⟨["[", "]"], .array .noItems, .punctuation rfl rfl (.punctuation rfl rfl .nil)⟩
  | cons v vs =>
    obtain ⟨ws, hprints, hcuts⟩ := exists_prints_elements h
    exact ⟨["["] ++ ws ++ ["]"], .array (.someItems hprints),
      .punctuation rfl rfl (hcuts.append_punctuation rfl rfl .nil)⟩

theorem cuts_entry {k : HashKey} {v : Value} {ws ws₁ : List String} (hk : Cuts k.toValue.render.toList ws)
    (hv : Cuts v.render.toList ws₁) : Cuts (k.render ++ ": " ++ v.render).toList (ws ++ ":" :: ws₁) := by
  have htext : (k.render ++ ": " ++ v.render).toList = k.toValue.render.toList ++ ':' :: ' ' :: v.render.toList := by
    simp [Value.render_toValue, String.toList_append]
  rw [htext]
  exact hk.append_punctuation rfl rfl (hv.blank rfl)

theorem exists_prints_entryLiterals {pair : HashKey × Value}
    (h : ∀ entry ∈ pair :: pairs, entry.1.toValue.Readable ∧ entry.2.Readable) :
    ∃ ws, Prints (entries (Value.entryLiterals (pair :: pairs))) ws ∧
      Cuts (", ".intercalate (Value.renderEntries (pair :: pairs))).toList ws := by
  induction pairs generalizing pair with
  | nil =>
    obtain ⟨⟨ws, hprints, hcuts⟩, ws₁, hprints₁, hcuts₁⟩ := h pair (List.mem_singleton_self pair)
    rw [Value.literal_toValue] at hprints
    exact ⟨_, .entry hprints hprints₁, by simpa [Value.renderEntries] using cuts_entry hcuts hcuts₁⟩
  | cons next pairs ih =>
    rw [List.forall_mem_cons] at h
    obtain ⟨⟨⟨ws, hprints, hcuts⟩, ws₁, hprints₁, hcuts₁⟩, hpairs⟩ := h
    obtain ⟨ws₂, hprints₂, hcuts₂⟩ := ih hpairs
    rw [Value.literal_toValue] at hprints
    exact ⟨ws ++ ":" :: ws₁ ++ "," :: ws₂, .moreEntries hprints hprints₁ hprints₂,
      (cuts_entry hcuts hcuts₁).cons_comma hcuts₂⟩

theorem readable_hash (h : ∀ pair ∈ pairs, pair.1.toValue.Readable ∧ pair.2.Readable) :
    Value.Readable (.hash pairs) := by
  have htext : (Value.hash pairs).render.toList =
      '\x7b' :: ((", ".intercalate (Value.renderEntries pairs)).toList ++ ['\x7d']) := by
    simp [Value.render, String.toList_append]
  rw [Value.Readable, htext]
  cases pairs with
  | nil => exact ⟨["\x7b", "\x7d"], .hash .noEntries, .punctuation rfl rfl (.punctuation rfl rfl .nil)⟩
  | cons pair pairs =>
    obtain ⟨ws, hprints, hcuts⟩ := exists_prints_entryLiterals h
    exact ⟨["\x7b"] ++ ws ++ ["\x7d"], .hash hprints,
      .punctuation rfl rfl (hcuts.append_punctuation rfl rfl .nil)⟩

theorem readable_of_every (h : v.Every Value.IsLiteral) : v.Readable := by
  induction h with
  | @intro v hv hparts ih =>
    cases v with
    | integer n => exact readable_integer hv
    | boolean b => exact readable_boolean b
    | string s => exact readable_string hv
    | array vs => exact readable_array ih
    | hash pairs =>
      exact readable_hash fun pair hpair => ⟨ih _ (Value.key_mem_parts hpair), ih _ (Value.value_mem_parts hpair)⟩
    | _ => exact hv.elim

theorem parse_render {frontEnd : FrontEnd} (h : v.Every Value.IsLiteral) :
    frontEnd.parse v.render = ([.expressionStatement v.literal], []) := by
  obtain ⟨ws, hprints, hcuts⟩ := readable_of_every h
  have hderives := (derives_of_prints hprints []).expr
  rw [List.append_nil] at hderives
  exact parse_of_words (map_word_tokensOf_of_cuts hcuts)
    (.moreStatements (.openExpression hderives) .noStatements nofun)

end MonkeyLanguage
