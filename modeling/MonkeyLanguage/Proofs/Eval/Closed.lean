import MonkeyLanguage.Proofs.Eval.Renaming
import MonkeyLanguage.Proofs.Session.Sequence

/-!
# Closed worlds

A world knows a value if the functions in it were made in the world, in scopes of the world.  In a closed world all
bindings are known and every scope stands in a scope of the world.  Evaluation keeps worlds closed and gives values
that they know (`closes_eval`), so all sessions run in closed worlds (`closed_after`).

What a world knows keeps its numbers under a renaming that only moves the numbers which the world has not given yet.
-/

namespace MonkeyLanguage

/-! ## Values whose numbers stay -/

/-- Moves numbers from the first on. -/
def moved (first offset n : Nat) : Nat :=
  if n < first then n else n + offset

variable {first offset a b : Nat}

theorem moved_of_lt (h : a < first) : moved first offset a = a :=
  if_pos h

theorem moved_add (first offset k : Nat) : moved first offset (first + k) = first + offset + k := by
  rw [moved, if_neg (by omega)]
  omega

theorem moved_lt_moved : moved first offset a < moved first offset b ↔ a < b := by
  unfold moved
  split <;> split <;> omega

theorem moved_inj : moved first offset a = moved first offset b ↔ a = b := by
  unfold moved
  split <;> split <;> omega

theorem moved_one_eq_self : moved first 1 a = a ↔ a < first := by
  unfold moved
  split <;> omega

/-- Moves the numbers that a world has not given yet. -/
def World.shift (w : World) (scopes functions : Nat) : Renaming :=
  ⟨moved w.scopes.size scopes, moved w.functions functions, moved_lt_moved, moved_inj⟩

namespace Value

variable {ρ : Renaming}

/-- The renaming keeps the numbers of the value, apart from those in its parts. -/
def IsFixed (ρ : Renaming) : Value → Prop
  | function identity _ _ scope => ρ.identity identity = identity ∧ ρ.scope scope = scope
  | _ => True

mutual

theorem rename_eq_self_iff : (v : Value) → (v.rename ρ = v ↔ v.Every (IsFixed ρ))
  | null | integer _ | boolean _ | string _ | builtin _ | error _ => iff_of_true rfl (.of_atom trivial rfl)
  | function identity parameters body scope => by
    rw [rename, function.injEq]
    exact ⟨fun h => .of_atom ⟨h.1, h.2.2.2⟩ rfl, fun h => ⟨h.self.1, rfl, rfl, h.self.2⟩⟩
  | array vs => by
    rw [rename, array.injEq, renameElements_eq_self_iff vs]
    exact ⟨fun h => ⟨trivial, h⟩, fun h _ => h.of_mem_parts⟩
  | hash pairs => by
    rw [rename, hash.injEq, renameEntries_eq_self_iff pairs]
    exact ⟨fun h => ⟨trivial, h⟩, fun h _ => h.of_mem_parts⟩
  | returned v => by
    rw [rename, returned.injEq, rename_eq_self_iff v]
    refine ⟨fun h => ⟨trivial, fun part hpart => ?_⟩, fun h => h.of_mem_parts (List.mem_singleton_self v)⟩
    rwa [List.mem_singleton.1 hpart]

theorem renameElements_eq_self_iff : (vs : List Value) →
    (renameElements ρ vs = vs ↔ ∀ v ∈ vs, v.Every (IsFixed ρ))
  | [] => iff_of_true rfl nofun
  | v :: vs => by
    rw [renameElements, List.cons.injEq, rename_eq_self_iff v, renameElements_eq_self_iff vs, List.forall_mem_cons]

theorem renameEntries_eq_self_iff : (pairs : List (HashKey × Value)) →
    (renameEntries ρ pairs = pairs ↔ ∀ part ∈ (hash pairs).parts, part.Every (IsFixed ρ))
  | [] => iff_of_true rfl nofun
  | (k, v) :: pairs => by
    have hkey : k.toValue.Every (IsFixed ρ) := by cases k <;> exact .of_atom trivial rfl
    have hparts : (hash ((k, v) :: pairs)).parts = k.toValue :: v :: (hash pairs).parts := rfl
    rw [renameEntries, List.cons.injEq, Prod.mk.injEq, rename_eq_self_iff v, renameEntries_eq_self_iff pairs, hparts,
      List.forall_mem_cons, List.forall_mem_cons]
    exact ⟨fun h => ⟨hkey, h.1.2, h.2⟩, fun h => ⟨⟨rfl, h.2.1⟩, h.2.2⟩⟩

end

/-- The function was made in the world, in a scope of it, if the value is one. -/
def IsOf (w : World) : Value → Prop
  | function identity _ _ scope => identity < w.functions ∧ scope < w.scopes.size
  | _ => True

end Value

namespace World

/-- All functions in the value were made in the world. -/
abbrev Knows (w : World) (v : Value) : Prop :=
  v.Every (Value.IsOf w)

structure Closed (w : World) : Prop where
  outer : ∀ (id : ScopeId) (s : Scope), w.scopes[id]? = some s → ∀ outer ∈ s.outer, outer < w.scopes.size
  binding : ∀ (id : ScopeId) (s : Scope), w.scopes[id]? = some s → ∀ binding ∈ s.bindings, w.Knows binding.2

variable {w w' w₁ : World} {v a b : Value} {scope : ScopeId}

/-- A value is known if it keeps its numbers where all numbers that the world has not given move. -/
theorem knows_iff (w : World) (v : Value) :
    w.Knows v ↔ v.rename (w.shift 1 1) = v := by
  have hfixed (v : Value) : v.IsOf w ↔ v.IsFixed (w.shift 1 1) := by
    cases v with
    | function identity parameters body scope => exact and_congr moved_one_eq_self.symm moved_one_eq_self.symm
    | _ => exact Iff.rfl
  rw [Value.rename_eq_self_iff]
  exact ⟨fun h => h.mono fun v => (hfixed v).1, fun h => h.mono fun v => (hfixed v).2⟩

/-! ## What operators and builtins give -/

theorem Knows.applyUnary (h : w.Knows v) (operator : String) : w.Knows (v.applyUnary operator) := by
  rw [knows_iff] at h ⊢
  rw [← Value.applyUnary_rename, h]

theorem Knows.applyBinary (ha : w.Knows a) (hb : w.Knows b) (operator : String) :
    w.Knows (Value.applyBinary operator a b) := by
  rw [knows_iff] at ha hb ⊢
  rw [← Value.applyBinary_rename, ha, hb]

theorem Knows.applyIndex (ha : w.Knows a) (hb : w.Knows b) : w.Knows (a.applyIndex b) := by
  rw [knows_iff] at ha hb ⊢
  rw [← Value.applyIndex_rename, ha, hb]

theorem Knows.unwrapReturned (h : w.Knows v) : w.Knows v.unwrapReturned := by
  rw [knows_iff] at h ⊢
  rw [← Value.unwrapReturned_rename, h]

theorem knows_apply (builtin : Builtin) {vs : List Value} (h : ∀ v ∈ vs, w.Knows v) :
    w.Knows (builtin.apply vs).1 := by
  have hvs : vs.map (Value.rename (w.shift 1 1)) = vs :=
    Value.map_rename_eq_self fun v hv => (w.knows_iff v).1 (h v hv)
  have happly := Builtin.apply_rename (ρ := w.shift 1 1) builtin vs
  rw [hvs] at happly
  exact (w.knows_iff _).2 (congrArg Prod.fst happly).symm

theorem knows_null (w : World) : w.Knows .null :=
  .of_atom trivial rfl

theorem knows_array {vs : List Value} (h : ∀ v ∈ vs, w.Knows v) : w.Knows (.array vs) :=
  ⟨trivial, h⟩

theorem knows_atom (h : v.IsOf w) (hparts : v.parts = []) : w.Knows v :=
  .of_atom h hparts

/-! ## Later worlds -/

/-- A later world, which is closed. -/
structure Reaches (w w' : World) : Prop where
  scopes_le : w.scopes.size ≤ w'.scopes.size
  functions_le : w.functions ≤ w'.functions
  closed : w'.Closed

theorem Closed.refl (h : w.Closed) : w.Reaches w :=
  ⟨Nat.le_refl _, Nat.le_refl _, h⟩

theorem Reaches.trans (h : w.Reaches w₁) (h' : w₁.Reaches w') : w.Reaches w' :=
  ⟨Nat.le_trans h.scopes_le h'.scopes_le, Nat.le_trans h.functions_le h'.functions_le, h'.closed⟩

theorem Knows.mono (hv : w.Knows v) (hscopes : w.scopes.size ≤ w'.scopes.size)
    (hfunctions : w.functions ≤ w'.functions) : w'.Knows v := by
  refine Value.Every.mono hv fun v hv => ?_
  cases v with
  | function identity parameters body scope =>
    exact ⟨Nat.lt_of_lt_of_le hv.1 hfunctions, Nat.lt_of_lt_of_le hv.2 hscopes⟩
  | _ => trivial

theorem Knows.later (hv : w.Knows v) (h : w.Reaches w') : w'.Knows v :=
  hv.mono h.scopes_le h.functions_le

theorem Closed.of_scopes (h : w.Closed) (hscopes : w'.scopes = w.scopes) (hfunctions : w.functions ≤ w'.functions) :
    w.Reaches w' := by
  have hsize : w.scopes.size ≤ w'.scopes.size := Nat.le_of_eq (congrArg Array.size hscopes.symm)
  refine ⟨hsize, hfunctions, fun id s hs outer houter => ?_, fun id s hs binding hbinding => ?_⟩
  · rw [hscopes] at hs ⊢
    exact h.outer id s hs outer houter
  · rw [hscopes] at hs
    exact (h.binding id s hs binding hbinding).mono hsize hfunctions

theorem Closed.set (h : w.Closed) (hv : w.Knows v) (id : ScopeId) (name : String) :
    w.Reaches (w.set id name v) := by
  have hsize : w.scopes.size = (w.set id name v).scopes.size := (Array.size_modify ..).symm
  have hscope {i : ScopeId} {s : Scope} (hs : (w.set id name v).scopes[i]? = some s) :
      ∃ s', w.scopes[i]? = some s' ∧ s.outer = s'.outer ∧ ∀ binding ∈ s.bindings, w.Knows binding.2 := by
    simp only [World.set, Array.getElem?_modify] at hs
    split at hs
    · obtain ⟨s', hs', rfl⟩ := Option.map_eq_some_iff.1 hs
      refine ⟨s', hs', rfl, fun binding hbinding => ?_⟩
      rcases OrderedMap.mem_insert hbinding with rfl | hmem
      · exact hv
      · exact h.binding i s' hs' binding hmem
    · exact ⟨s, hs, rfl, h.binding i s hs⟩
  refine ⟨Nat.le_of_eq hsize, Nat.le_refl _, fun i s hs outer houter => ?_, fun i s hs binding hbinding => ?_⟩
  · obtain ⟨s', hs', heq, -⟩ := hscope hs
    rw [← hsize]
    exact h.outer i s' hs' outer (heq ▸ houter)
  · obtain ⟨s', -, -, hbindings⟩ := hscope hs
    exact (hbindings binding hbinding).mono (Nat.le_of_eq hsize) (Nat.le_refl _)

theorem Closed.addScope (h : w.Closed) (outer : Option ScopeId) (bindings : OrderedMap String Value)
    (houter : ∀ id ∈ outer, id < w.scopes.size) (hbindings : ∀ binding ∈ bindings, w.Knows binding.2) :
    w.Reaches (w.addScope outer bindings).2 := by
  have hsize : w.scopes.size ≤ (w.addScope outer bindings).2.scopes.size := by
    rw [World.addScope, Array.size_push]
    exact Nat.le_succ _
  have hscope {i : ScopeId} {s : Scope} (hs : (w.addScope outer bindings).2.scopes[i]? = some s) :
      (∀ id ∈ s.outer, id < w.scopes.size) ∧ ∀ binding ∈ s.bindings, w.Knows binding.2 := by
    simp only [World.addScope, Array.getElem?_push] at hs
    split at hs
    · obtain rfl := Option.some.inj hs
      exact ⟨houter, hbindings⟩
    · exact ⟨h.outer i s hs, h.binding i s hs⟩
  exact ⟨hsize, Nat.le_refl _, fun i s hs id hid => Nat.lt_of_lt_of_le ((hscope hs).1 id hid) hsize,
    fun i s hs binding hbinding => ((hscope hs).2 binding hbinding).mono hsize (Nat.le_refl _)⟩

theorem Closed.get? (h : w.Closed) {name : String} (hv : w.get? scope name = some v) : w.Knows v := by
  obtain ⟨s, hs, hv⟩ := List.exists_of_findSome?_eq_some hv
  obtain ⟨id, hid⟩ := Invariant.exists_of_mem_chain hs
  exact h.binding id s hid _ (OrderedMap.mem_of_get? hv)

end World

/-! ## Computations that keep a world closed -/

variable {α β : Type} {w w' : World} {scope : ScopeId}

/-- The computation ends in a closed world. -/
inductive ClosedEnd (w : World) (result : World → α → Prop) : EStateM.Result Abort World α → Prop where
  | ok {a : α} {w' : World} (h : w.Reaches w') (ha : result w' a) : ClosedEnd w result (.ok a w')
  | error {e : Abort} {w' : World} (h : w.Reaches w') : ClosedEnd w result (.error e w')

theorem ClosedEnd.later {w₁ : World} {result : World → α → Prop} {r : EStateM.Result Abort World α}
    (h : w.Reaches w₁) (hend : ClosedEnd w₁ result r) : ClosedEnd w result r := by
  cases hend with
  | ok h' ha => exact .ok (h.trans h') ha
  | error h' => exact .error (h.trans h')

theorem ClosedEnd.bind {m : EvalM α} {next : α → EvalM β} {P : World → α → Prop} {Q : World → β → Prop}
    (hm : ClosedEnd w P (m w)) (hnext : ∀ a w', w.Reaches w' → P w' a → ClosedEnd w' Q (next a w')) :
    ClosedEnd w Q ((m >>= next) w) := by
  change ClosedEnd w Q (EStateM.bind m next w)
  rw [EStateM.bind]
  generalize m w = result at hm
  cases hm with
  | ok h ha => exact (hnext _ _ h ha).later h
  | error h => exact .error h

namespace Evaluator

/-- Each evaluation in a scope of a closed world ends in a closed world that knows the value. -/
def Closes (eval : Evaluator) : Prop :=
  ∀ node scope w, w.Closed → scope < w.scopes.size → ClosedEnd w World.Knows (eval node scope w)

variable {eval : Evaluator}

theorem withValue_closes (heval : Closes eval) (hw : w.Closed) (hscope : scope < w.scopes.size) {node : Node}
    {next : Value → EvalM Value}
    (hnext : ∀ v w', w.Reaches w' → w'.Knows v → ClosedEnd w' World.Knows (next v w')) :
    ClosedEnd w World.Knows (withValue eval scope node next w) := by
  refine (heval node scope w hw hscope).bind fun v w' h hv => ?_
  cases v with
  | error e => exact .ok h.closed.refl hv
  | _ => exact hnext _ w' h hv

theorem withValues_closes (heval : Closes eval) (hw : w.Closed) (hscope : scope < w.scopes.size)
    {next : List Value → EvalM Value}
    (hnext : ∀ vs w', w.Reaches w' → (∀ v ∈ vs, w'.Knows v) → ClosedEnd w' World.Knows (next vs w'))
    {done : List Value} (hdone : ∀ v ∈ done, w.Knows v) (nodes : List Node) :
    ClosedEnd w World.Knows (withValues eval scope next done nodes w) := by
  induction nodes generalizing w done with
  | nil => exact hnext _ w hw.refl fun v hv => hdone v (List.mem_reverse.1 hv)
  | cons node nodes ih =>
    refine withValue_closes heval hw hscope fun v w₁ h hv => ?_
    refine ih h.closed (Nat.lt_of_lt_of_le hscope h.scopes_le) (fun vs w' h' => hnext vs w' (h.trans h')) ?_
    rw [List.forall_mem_cons]
    exact ⟨hv, fun u hu => (hdone u hu).later h⟩

theorem entries_closes (heval : Closes eval) (hw : w.Closed) (hscope : scope < w.scopes.size)
    {done : List (HashKey × Value)} (hdone : ∀ pair ∈ done, w.Knows pair.2) (pairs : List (Node × Node)) :
    ClosedEnd w World.Knows (entries eval scope done pairs w) := by
  induction pairs generalizing w done with
  | nil =>
    refine .ok hw.refl ⟨trivial, fun part hpart => ?_⟩
    obtain ⟨pair, hpair, hpart⟩ := List.mem_flatMap.1 hpart
    rcases List.mem_cons.1 hpart with rfl | hpart
    · exact World.knows_atom (by cases pair.1 <;> trivial) (by cases pair.1 <;> rfl)
    · rw [List.mem_singleton.1 hpart]
      exact hdone pair (List.mem_reverse.1 (OrderedMap.mem_ofList hpair))
  | cons pair pairs ih =>
    refine withValue_closes heval hw hscope fun k w₁ h hk => ?_
    have hscope₁ := Nat.lt_of_lt_of_le hscope h.scopes_le
    cases k.hashKey? with
    | none => exact .ok h.closed.refl (World.knows_atom trivial rfl)
    | some key =>
      refine withValue_closes heval h.closed hscope₁ fun v w₂ h' hv => ?_
      refine ih h'.closed (Nat.lt_of_lt_of_le hscope₁ h'.scopes_le) ?_
      rw [List.forall_mem_cons]
      exact ⟨hv, fun pair hpair => (hdone pair hpair).later (h.trans h')⟩

theorem statements_closes (heval : Closes eval) (hw : w.Closed) (hscope : scope < w.scopes.size) {last : Value}
    (hlast : w.Knows last) (nodes : List Node) :
    ClosedEnd w World.Knows (statements eval scope last nodes w) := by
  induction nodes generalizing w last with
  | nil => exact .ok hw.refl hlast
  | cons node nodes ih =>
    refine (heval node scope w hw hscope).bind fun v w' h hv => ?_
    cases v with
    | returned v => exact .ok h.closed.refl hv
    | error e => exact .ok h.closed.refl hv
    | _ => exact ih h.closed (Nat.lt_of_lt_of_le hscope h.scopes_le) hv

theorem call_closes (heval : Closes eval) (hw : w.Closed) {function : Value} {arguments : List Value}
    (hfunction : w.Knows function) (harguments : ∀ v ∈ arguments, w.Knows v) :
    ClosedEnd w World.Knows (call eval function arguments w) := by
  cases function with
  | function identity parameters body outer =>
    simp only [call]
    split
    · exact .ok hw.refl (World.knows_atom trivial rfl)
    · have hscope : ClosedEnd w (fun w' scope => scope < w'.scopes.size)
          (modifyGet (m := EvalM) (World.addScope · (some outer) (.ofList (parameters.zip arguments))) w) := by
        refine .ok (hw.addScope _ _ (fun id hid => ?_) fun binding hbinding => ?_) ?_
        · exact Option.some.inj hid ▸ hfunction.self.2
        · exact harguments _ (List.of_mem_zip (OrderedMap.mem_ofList hbinding)).2
        · exact (Array.size_push ..).symm ▸ Nat.lt_succ_self _
      refine hscope.bind fun scope w₁ h hlt => ?_
      exact (heval body scope w₁ h.closed hlt).bind fun v w' h' hv => .ok h'.closed.refl hv.unwrapReturned
  | builtin b => exact .ok (hw.of_scopes rfl (Nat.le_refl _)) (World.knows_apply b harguments)
  | _ => exact .ok hw.refl (World.knows_atom trivial rfl)

theorem lookUp_closes (table : BuiltinTable) (hw : w.Closed) (name : String) :
    ClosedEnd w World.Knows (lookUp table scope name w) := by
  rw [lookUp_apply]
  refine .ok hw.refl ?_
  cases hv : w.get? scope name with
  | some v => exact hw.get? hv
  | none => cases table.get? name <;> exact World.knows_atom trivial rfl

theorem closes_step (heval : Closes eval) (table : BuiltinTable) : Closes (step eval table) := by
  intro node scope w hw hscope
  have hlater {w' : World} (h : w.Reaches w') : scope < w'.scopes.size := Nat.lt_of_lt_of_le hscope h.scopes_le
  cases node with
  | absent => exact .error hw.refl
  | program nodes =>
    refine (statements_closes heval hw hscope w.knows_null nodes).bind fun v w' h hv => ?_
    exact .ok h.closed.refl hv.unwrapReturned
  | block nodes => exact statements_closes heval hw hscope w.knows_null nodes
  | expressionStatement e => exact heval e scope w hw hscope
  | returnStatement e =>
    refine withValue_closes heval hw hscope fun v w' h hv => .ok h.closed.refl ⟨trivial, fun part hpart => ?_⟩
    rwa [List.mem_singleton.1 hpart]
  | letStatement name e =>
    refine withValue_closes heval hw hscope fun v w' h hv => ?_
    exact .ok (h.closed.set hv scope name) (World.knows_null _)
  | integer n => exact .ok hw.refl (World.knows_atom trivial rfl)
  | string s => exact .ok hw.refl (World.knows_atom trivial rfl)
  | boolean b => exact .ok hw.refl (World.knows_atom trivial rfl)
  | array nodes =>
    refine withValues_closes heval hw hscope (fun vs w' h hvs => ?_) (List.forall_mem_nil _) nodes
    exact .ok h.closed.refl (World.knows_array hvs)
  | hash pairs => exact entries_closes heval hw hscope (List.forall_mem_nil _) pairs
  | function parameters body =>
    have h : w.Reaches { w with functions := w.functions + 1 } := hw.of_scopes rfl (Nat.le_succ _)
    exact .ok h (World.knows_atom ⟨Nat.lt_succ_self _, hscope⟩ rfl)
  | identifier name => exact lookUp_closes table hw name
  | unary operator e =>
    exact withValue_closes heval hw hscope fun v w' h hv => .ok h.closed.refl (hv.applyUnary operator)
  | binary left operator right =>
    refine withValue_closes heval hw hscope fun a w₁ h ha => ?_
    refine withValue_closes heval h.closed (hlater h) fun b w₂ h' hb => ?_
    exact .ok h'.closed.refl ((ha.later h').applyBinary hb operator)
  | ifElse condition consequence alternative =>
    refine withValue_closes heval hw hscope fun v w' h _ => ?_
    split
    · exact heval consequence scope w' h.closed (hlater h)
    · split
      · exact .ok h.closed.refl w'.knows_null
      · exact heval alternative scope w' h.closed (hlater h)
  | call callee arguments =>
    refine withValue_closes heval hw hscope fun f w₁ h hf => ?_
    refine withValues_closes heval h.closed (hlater h) (fun vs w₂ h' hvs => ?_) (List.forall_mem_nil _) arguments
    exact call_closes heval h'.closed (hf.later h') hvs
  | index left position =>
    refine withValue_closes heval hw hscope fun a w₁ h ha => ?_
    refine withValue_closes heval h.closed (hlater h) fun i w₂ h' hi => ?_
    exact .ok h'.closed.refl ((ha.later h').applyIndex hi)

end Evaluator

/-- Evaluation keeps a world closed, and the world knows the value. -/
theorem closes_eval (table : BuiltinTable) (depth : Nat) : Evaluator.Closes (eval table depth) := by
  induction depth with
  | zero => exact fun _ _ _ hw _ => .error hw.refl
  | succ depth ih => exact Evaluator.closes_step ih table

end MonkeyLanguage
