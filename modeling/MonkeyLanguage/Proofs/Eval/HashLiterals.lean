import MonkeyLanguage.Proofs.Eval.Trace
import MonkeyLanguage.Proofs.Parts

/-!
# Hash literals

The entries of a hash literal are evaluated from left to right, each key before its value, up to the first that fails.
The hash has the last value of each key, in the order in which the keys first occur (`hashLiteral_keeps_last`).

What happens is said of traced evaluations, whose logs show that nothing is evaluated behind a failure.
-/

namespace MonkeyLanguage

open OrderedMap

namespace TracedEvaluator

variable {eval : TracedEvaluator} {scope : ScopeId} {node : Node} {s s' : Traced} {pairs : List (Node × Node)}
  {results : List (HashKey × Value)} {u : Value}

/-! ## Entries -/

/-- From the first state to the second, the entries are evaluated to these keys and values. -/
inductive Gathers (eval : TracedEvaluator) (scope : ScopeId) :
    Traced → List (Node × Node) → List (HashKey × Value) → Traced → Prop where
  | nil (s : Traced) : Gathers eval scope s [] [] s
  | cons {s s₁ s₂ s' : Traced} {keyNode valueNode : Node} {pairs : List (Node × Node)} {key : HashKey} {v : Value}
    {results : List (HashKey × Value)} (hkey : eval keyNode scope s = .ok key.toValue s₁)
    (hvalue : eval valueNode scope s₁ = .ok v s₂) (hv : v.failure? = none)
    (hrest : Gathers eval scope s₂ pairs results s') :
    Gathers eval scope s ((keyNode, valueNode) :: pairs) ((key, v) :: results) s'

/-- From the first state to the second, the entry is evaluated up to the error with which it fails. -/
inductive Fails (eval : TracedEvaluator) (scope : ScopeId) : Traced → Node × Node → RuntimeError → Traced → Prop where
  | key {s s' : Traced} {keyNode valueNode : Node} {e : RuntimeError}
    (h : eval keyNode scope s = .ok (.error e) s') : Fails eval scope s (keyNode, valueNode) e s'
  | unusable {s s' : Traced} {keyNode valueNode : Node} {k : Value} (h : eval keyNode scope s = .ok k s')
    (hk : k.failure? = none) (hkey : k.hashKey? = none) :
    Fails eval scope s (keyNode, valueNode) (.unusableKey k.type) s'
  | value {s s₁ s' : Traced} {keyNode valueNode : Node} {key : HashKey} {e : RuntimeError}
    (hkey : eval keyNode scope s = .ok key.toValue s₁) (h : eval valueNode scope s₁ = .ok (.error e) s') :
    Fails eval scope s (keyNode, valueNode) e s'

/-- The first entry that fails does so with this error. -/
def FailsFirst (eval : TracedEvaluator) (scope : ScopeId) (s : Traced) (pairs : List (Node × Node)) (e : RuntimeError)
    (s' : Traced) : Prop :=
  ∃ done pair rest results s₁, pairs = done ++ pair :: rest ∧ Gathers eval scope s done results s₁ ∧
    Fails eval scope s₁ pair e s'

section

variable {next : Value → TraceM Value} {v : Value} {e : RuntimeError} {reason : Abort}

theorem withValue_of_ok (h : eval node scope s = .ok v s') (hv : v.failure? = none) :
    withValue eval scope node next s = next v s' := by
  change EStateM.bind (eval node scope) _ s = _
  rw [EStateM.bind, h]
  cases v with
  | error e => cases hv
  | _ => rfl

theorem withValue_of_failure (h : eval node scope s = .ok (.error e) s') :
    withValue eval scope node next s = .ok (.error e) s' := by
  change EStateM.bind (eval node scope) _ s = _
  rw [EStateM.bind, h]
  rfl

theorem withValue_of_abort (h : eval node scope s = .error reason s') :
    withValue eval scope node next s = .error reason s' := by
  change EStateM.bind (eval node scope) _ s = _
  rw [EStateM.bind, h]

theorem withValue_inv (h : withValue eval scope node next s = .ok u s') :
    (∃ e, eval node scope s = .ok (.error e) s' ∧ u = .error e) ∨
      ∃ v s₁, eval node scope s = .ok v s₁ ∧ v.failure? = none ∧ next v s₁ = .ok u s' := by
  cases hresult : eval node scope s with
  | error reason s₁ =>
    rw [withValue_of_abort hresult] at h
    cases h
  | ok v s₁ =>
    cases hv : v.failure? with
    | none =>
      rw [withValue_of_ok hresult hv] at h
      exact .inr ⟨v, s₁, rfl, hv, h⟩
    | some e =>
      obtain rfl : v = .error e := by
        cases v with
        | error e' => exact congrArg Value.error (Option.some.inj hv)
        | _ => cases hv
      rw [withValue_of_failure hresult] at h
      cases h
      exact .inl ⟨e, rfl, rfl⟩

end

theorem failure?_toValue (key : HashKey) : key.toValue.failure? = none := by
  cases key <;> rfl

/-- Entries with keys and values have been put behind those before them when the rest begins. -/
theorem entries_append_of_gathers {done rest : List (Node × Node)} (h : Gathers eval scope s done results s')
    (before : List (HashKey × Value)) :
    entries eval scope before (done ++ rest) s = entries eval scope (results.reverse ++ before) rest s' := by
  induction h generalizing before with
  | nil s => rfl
  | @cons s s₁ s₂ s' keyNode valueNode pairs key v results hkey hvalue hv _ ih =>
    rw [List.cons_append, entries, withValue_of_ok hkey (failure?_toValue key)]
    simp only [Value.hashKey?_toValue]
    rw [withValue_of_ok hvalue hv, ih, List.reverse_cons, List.append_assoc, List.singleton_append]

theorem entries_of_fails {pair : Node × Node} {e : RuntimeError} (h : Fails eval scope s pair e s')
    (before : List (HashKey × Value)) (rest : List (Node × Node)) :
    entries eval scope before (pair :: rest) s = .ok (.error e) s' := by
  cases h with
  | key h => exact withValue_of_failure h
  | unusable h hk hkey =>
    rw [entries, withValue_of_ok h hk]
    simp only [hkey]
    rfl
  | value hkey h =>
    rw [entries, withValue_of_ok hkey (failure?_toValue _)]
    simp only [Value.hashKey?_toValue]
    exact withValue_of_failure h

theorem entries_of_failsFirst {e : RuntimeError} (h : FailsFirst eval scope s pairs e s') :
    entries eval scope [] pairs s = .ok (.error e) s' := by
  obtain ⟨done, pair, rest, results, s₁, rfl, hdone, hfails⟩ := h
  rw [entries_append_of_gathers hdone, entries_of_fails hfails]

/-- A value of entries is the map of their keys and values, or the error of the first that fails. -/
theorem entries_inv {before : List (HashKey × Value)} (h : entries eval scope before pairs s = .ok u s') :
    (∃ results, Gathers eval scope s pairs results s' ∧ u = .hash (ofList (before.reverse ++ results))) ∨
      ∃ e, FailsFirst eval scope s pairs e s' ∧ u = .error e := by
  induction pairs generalizing before s with
  | nil =>
    cases h
    exact .inl ⟨[], .nil _, by rw [List.append_nil]⟩
  | cons pair pairs ih =>
    obtain ⟨keyNode, valueNode⟩ := pair
    have hfails {e : RuntimeError} (h : Fails eval scope s (keyNode, valueNode) e s') :
        FailsFirst eval scope s ((keyNode, valueNode) :: pairs) e s' := ⟨[], _, pairs, [], s, rfl, .nil s, h⟩
    rcases withValue_inv h with ⟨e, hkey, rfl⟩ | ⟨k, s₁, hk, hsober, h⟩
    · exact .inr ⟨e, hfails (.key hkey), rfl⟩
    cases hkey : k.hashKey? with
    | none =>
      simp only [hkey] at h
      cases h
      exact .inr ⟨_, hfails (.unusable hk hsober hkey), rfl⟩
    | some key =>
      simp only [hkey] at h
      obtain rfl := Value.toValue_of_hashKey? hkey
      rcases withValue_inv h with ⟨e, hvalue, rfl⟩ | ⟨v, s₂, hvalue, hv, h⟩
      · exact .inr ⟨e, hfails (.value hk hvalue), rfl⟩
      rcases ih h with ⟨results, hrest, rfl⟩ | ⟨e, ⟨done, pair, rest, results, s₃, rfl, hdone, hfail⟩, rfl⟩
      · exact .inl ⟨(key, v) :: results, .cons hk hvalue hv hrest, by simp⟩
      · exact .inr ⟨e, ⟨_ :: done, pair, rest, (key, v) :: results, s₃, rfl, .cons hk hvalue hv hdone, hfail⟩, rfl⟩

end TracedEvaluator

open TracedEvaluator

/-! ## The hash -/

/-- The entries of a hash have the last value of each key, in the order in which the keys first occur. -/
structure KeepsLast (results entries : List (HashKey × Value)) : Prop where
  distinct : (keys entries).Nodup
  order : keys entries = (keys results).eraseDups
  usable : ∀ k ∈ keys entries,
    k.toValue.type = .integer ∨ k.toValue.type = .boolean ∨ k.toValue.type = .string
  last : ∀ before k v after, results = before ++ (k, v) :: after → k ∉ keys after →
    ∀ i : Value, i.hashKey? = some k → (Value.hash entries).applyIndex i = v
  absent : ∀ i k, i.hashKey? = some k → k ∉ keys results → (Value.hash entries).applyIndex i = .null
  unusable : ∀ i, i.hashKey? = none → (Value.hash entries).applyIndex i = .error (.unusableKey i.type)

theorem applyIndex_hash_of_hashKey? (entries : List (HashKey × Value)) {i : Value} {k : HashKey}
    (h : i.hashKey? = some k) : (Value.hash entries).applyIndex i = (get? entries k).getD .null := by
  simp only [Value.applyIndex, h]

theorem keepsLast_ofList (results : List (HashKey × Value)) : KeepsLast results (ofList results) where
  distinct := nodup_keys_ofList results
  order := keys_ofList results
  usable k _ := by cases k <;> simp [HashKey.toValue, Value.type]
  last before k v after hresults hlast i hi := by
    rw [applyIndex_hash_of_hashKey? _ hi, hresults, get?_ofList_of_last hlast, Option.getD_some]
  absent i k hi hk := by
    rw [applyIndex_hash_of_hashKey? _ hi, get?_ofList_of_not_mem hk, Option.getD_none]
  unusable i hi := by simp only [Value.applyIndex, hi]

/-! ## Literals -/

variable {table : BuiltinTable} {depth : Nat} {node : Node} {scope : ScopeId} {w w' : World} {v : Value} {s : Traced}
  {pairs : List (Node × Node)}

/-- The state in which the parts of a tree are evaluated: its own evaluation has begun. -/
def begun (node : Node) (scope : ScopeId) (w : World) : Traced :=
  ⟨w, [⟨.begins (.evaluation node scope), w⟩]⟩

theorem eval_of_traced (h : traced table depth node scope ⟨w, []⟩ = .ok v s) :
    eval table depth node scope w = .ok v s.world ∧ trace table depth node scope w = s.log := by
  have herases := erases_traced table depth node scope ⟨w, []⟩
  rw [h] at herases
  exact ⟨herases.symm, by rw [trace, h]⟩

theorem exists_traced_of_eval (h : eval table depth node scope w = .ok v w') :
    ∃ s, traced table depth node scope ⟨w, []⟩ = .ok v s ∧ s.world = w' := by
  have herases := erases_traced table depth node scope ⟨w, []⟩
  rw [h] at herases
  cases hresult : traced table depth node scope ⟨w, []⟩ with
  | ok u s =>
    rw [hresult] at herases
    cases herases
    exact ⟨s, rfl, rfl⟩
  | error reason s =>
    rw [hresult] at herases
    cases herases

theorem traced_hash (table : BuiltinTable) (depth : Nat) (pairs : List (Node × Node)) (scope : ScopeId) (w : World) :
    traced table (depth + 1) (.hash pairs) scope ⟨w, []⟩ =
      match entries (traced table depth) scope [] pairs (begun (.hash pairs) scope w) with
      | .ok v s => .ok v ⟨s.world, s.log ++ [⟨.ends (.evaluation (.hash pairs) scope) v, s.world⟩]⟩
      | .error reason s => .error reason s :=
  TraceM.during_apply ..

theorem eval_hash_of_entries
    (h : entries (traced table depth) scope [] pairs (begun (.hash pairs) scope w) = .ok v s) :
    eval table (depth + 1) (.hash pairs) scope w = .ok v s.world ∧
      trace table (depth + 1) (.hash pairs) scope w =
        s.log ++ [⟨.ends (.evaluation (.hash pairs) scope) v, s.world⟩] := by
  have htraced := traced_hash table depth pairs scope w
  rw [h] at htraced
  exact eval_of_traced htraced

theorem exists_entries_of_eval_hash (h : eval table (depth + 1) (.hash pairs) scope w = .ok v w') :
    ∃ s, entries (traced table depth) scope [] pairs (begun (.hash pairs) scope w) = .ok v s ∧ s.world = w' := by
  obtain ⟨s', htraced, rfl⟩ := exists_traced_of_eval h
  rw [traced_hash] at htraced
  cases hresult : entries (traced table depth) scope [] pairs (begun (.hash pairs) scope w) with
  | ok u s =>
    rw [hresult] at htraced
    cases htraced
    exact ⟨s, rfl, rfl⟩
  | error reason s =>
    rw [hresult] at htraced
    cases htraced

/-- If a hash literal gives a hash, its entries have been evaluated from left to right, each key before its value, and
the hash keeps the last value of each key.  If an entry fails before, then the literal fails with the error of the first
that does, and nothing is evaluated behind it.  There is no other result. -/
theorem hashLiteral_keeps_last (table : BuiltinTable) (depth : Nat) (pairs : List (Node × Node)) (scope : ScopeId)
    (w : World) :
    (∀ entries w', eval table (depth + 1) (.hash pairs) scope w = .ok (.hash entries) w' →
      ∃ results s, Gathers (traced table depth) scope (begun (.hash pairs) scope w) pairs results s ∧ s.world = w' ∧
        KeepsLast results entries) ∧
    (∀ e s, FailsFirst (traced table depth) scope (begun (.hash pairs) scope w) pairs e s →
      eval table (depth + 1) (.hash pairs) scope w = .ok (.error e) s.world ∧
        trace table (depth + 1) (.hash pairs) scope w =
          s.log ++ [⟨.ends (.evaluation (.hash pairs) scope) (.error e), s.world⟩]) ∧
    ∀ v w', eval table (depth + 1) (.hash pairs) scope w = .ok v w' →
      (∃ entries, v = .hash entries) ∨
        ∃ e s, FailsFirst (traced table depth) scope (begun (.hash pairs) scope w) pairs e s ∧ v = .error e := by
  refine ⟨fun entries w' h => ?_, fun e s h => eval_hash_of_entries (entries_of_failsFirst h), fun v w' h => ?_⟩
  · obtain ⟨s, hentries, rfl⟩ := exists_entries_of_eval_hash h
    rcases entries_inv hentries with ⟨results, hgathers, hmap⟩ | ⟨e, -, herror⟩
    · injection hmap with hmap
      subst hmap
      exact ⟨results, s, hgathers, rfl, keepsLast_ofList results⟩
    · cases herror
  · obtain ⟨s, hentries, -⟩ := exists_entries_of_eval_hash h
    rcases entries_inv hentries with ⟨results, -, rfl⟩ | ⟨e, hfails, rfl⟩
    · exact .inl ⟨_, rfl⟩
    · exact .inr ⟨e, s, hfails, rfl⟩

/-- A key that occurs twice between other keys, and a key that cannot be one before an entry that would print. -/
theorem hashLiteral_of_repeated_key :
    let repeated : List (Node × Node) := [(.string "a", .integer 1), (.integer 1, .integer 2),
      (.string "a", .integer 3), (.boolean true, .integer 4)]
    let failing : List (Node × Node) := [(.string "a", .integer 1), (.array [], .integer 2),
      (.integer 3, .call (.identifier "puts") [.integer 4])]
    (∃ results s, Gathers (traced .default 1) 0 (begun (.hash repeated) 0 .empty) repeated results s ∧
      KeepsLast results [(.string "a", .integer 3), (.integer 1, .integer 2), (.boolean true, .integer 4)]) ∧
    eval .default 2 (.hash failing) 0 .empty = .ok (.error (.unusableKey .array)) .empty := by
  intro repeated failing
  constructor
  · obtain ⟨results, s, hgathers, -, hkeeps⟩ := (hashLiteral_keeps_last .default 1 repeated 0 .empty).1 _ .empty rfl
    exact ⟨results, s, hgathers, hkeeps⟩
  · have hdone {s : Traced} : ∃ s', Gathers (traced .default 1) 0 s [(.string "a", .integer 1)]
        [(.string "a", .integer 1)] s' ∧ s'.world = s.world :=
      ⟨_, .cons rfl rfl rfl (.nil _), rfl⟩
    have hkey {s : Traced} : ∃ s', Fails (traced .default 1) 0 s (.array [], .integer 2) (.unusableKey .array) s' ∧
        s'.world = s.world :=
      ⟨_, @Fails.unusable _ _ _ _ _ _ (.array []) rfl rfl rfl, rfl⟩
    obtain ⟨s₁, hgathers, hworld₁⟩ := @hdone (begun (.hash failing) 0 .empty)
    obtain ⟨s₂, hfails, hworld₂⟩ := @hkey s₁
    have hfirst : FailsFirst (traced .default 1) 0 (begun (.hash failing) 0 .empty) failing (.unusableKey .array) s₂ :=
      ⟨_, _, _, _, s₁, rfl, hgathers, hfails⟩
    have hvalue := ((hashLiteral_keeps_last .default 1 failing 0 .empty).2.1 _ s₂ hfirst).1
    rw [hworld₂, hworld₁] at hvalue
    exact hvalue

end MonkeyLanguage
