import MonkeyLanguage.Proofs.Session.Sequence
import MonkeyLanguage.Proofs.Value.Equality

/-!
# What is stored

A failure is the value of an evaluation, and whatever needs a value passes a failure on instead of storing it.  So no
failure is bound to a name or stored in another value, at any moment of a session, and what is read of a variable or
taken out of a value is never a failure of earlier (`failures_are_not_stored`).

The same invariant says that hashes are maps (`keysDistinct_of_session`).
-/

namespace MonkeyLanguage

/-! ## The invariant -/

/-- The value may be bound or stored: it is no failure, and a hash is a map. -/
def Value.IsStorable (v : Value) : Prop :=
  v.type ≠ .error ∧ v.KeysDistinct

/-- Values that are stored, whatever is evaluated. -/
def Invariant.storable : Invariant where
  tree _ := True
  value := Value.IsStorable
  use _ _ := True
  part _ _ := trivial
  returned _ _ _ _ := ⟨ValueType.noConfusion, trivial⟩
  null := ⟨ValueType.noConfusion, trivial⟩
  boolean _ := ⟨ValueType.noConfusion, trivial⟩
  builtin _ := ⟨ValueType.noConfusion, trivial⟩
  array _ := ⟨ValueType.noConfusion, trivial⟩
  hash h := ⟨ValueType.noConfusion, h⟩
  closure _ _ _ := ⟨ValueType.noConfusion, trivial⟩
  body _ := trivial
  integer _ := ⟨ValueType.noConfusion, trivial⟩
  string _ := ⟨ValueType.noConfusion, trivial⟩
  wrap _ := ⟨ValueType.noConfusion, trivial⟩
  length _ _ := ⟨ValueType.noConfusion, trivial⟩
  append _ _ := ⟨ValueType.noConfusion, trivial⟩

theorem Invariant.storable_admits (event : Event) : Invariant.storable.Admits event := by
  unfold Invariant.Admits
  split <;> trivial

/-! ## Failures -/

namespace Value

/-- No failure is in the value, at any depth. -/
abbrev HoldsNoFailure (v : Value) : Prop :=
  v.Every fun v => v.type ≠ .error

variable {v i : Value} {vs : List Value} {e : RuntimeError}

theorem holdsNoFailure_of_held (h : Invariant.storable.Held v) : v.HoldsNoFailure :=
  h.mono fun _ => And.left

theorem HoldsNoFailure.ne_error (h : v.HoldsNoFailure) (e : RuntimeError) : v ≠ .error e := by
  rintro rfl
  exact h.self rfl

theorem getD_ne_error {v? : Option Value} (h : ∀ v ∈ v?, v.HoldsNoFailure) (e : RuntimeError) :
    v?.getD .null ≠ .error e := by
  cases v? with
  | none => exact Value.noConfusion
  | some v => exact (h v rfl).ne_error e

theorem HoldsNoFailure.applyIndex_eq_error (h : v.HoldsNoFailure) (hindex : v.applyIndex i = .error e) :
    e = .unusableKey i.type ∨ e = .notIndexable v.type i.type := by
  unfold applyIndex at hindex
  split at hindex
  · split at hindex
    · cases hindex
    · exact absurd hindex (getD_ne_error (fun u hu => h.of_mem_parts (List.mem_of_getElem? hu)) e)
  · split at hindex
    · refine absurd hindex (getD_ne_error (fun u hu => h.of_mem_parts ?_) e)
      exact value_mem_parts (OrderedMap.mem_of_get? hu)
    · injection hindex with hindex
      exact .inl hindex.symm
  · injection hindex with hindex
    exact .inr hindex.symm

end Value

/-- The failures of a builtin itself. -/
def Builtin.FailsWith (b : Builtin) (e : RuntimeError) : Prop :=
  (∃ found, e = .noLength found) ∨ (∃ found, e = .notAnArray b found) ∨
    ∃ want got, e = .wrongBuiltinArgumentCount b want got

theorem Builtin.onArray_eq_error {b : Builtin} {f : List Value → Value} {v : Value} {e : RuntimeError}
    (hf : ∀ vs, v = .array vs → f vs ≠ .error e) (h : b.onArray f v = .error e) : b.FailsWith e := by
  unfold Builtin.onArray at h
  split at h
  · next vs => exact absurd h (hf vs rfl)
  · injection h with h
    exact .inr (.inl ⟨_, h.symm⟩)

theorem Builtin.apply_eq_error {b : Builtin} {arguments : List Value} {e : RuntimeError}
    (harguments : ∀ v ∈ arguments, v.HoldsNoFailure) (h : (b.apply arguments).1 = .error e) : b.FailsWith e := by
  unfold Builtin.apply at h
  split at h
  case h_1 v =>
    cases v with
    | string s => cases h
    | array vs => cases h
    | _ =>
      injection h with h
      exact .inl ⟨_, h.symm⟩
  case h_2 v =>
    refine onArray_eq_error (fun vs hvs => Value.getD_ne_error (fun u hu => ?_) e) h
    subst hvs
    exact (harguments _ (List.mem_singleton_self _)).of_mem_parts (List.mem_of_mem_head? hu)
  case h_3 v =>
    refine onArray_eq_error (fun vs hvs => Value.getD_ne_error (fun u hu => ?_) e) h
    subst hvs
    exact (harguments _ (List.mem_singleton_self _)).of_mem_parts (List.mem_of_mem_getLast? hu)
  case h_4 v =>
    refine onArray_eq_error (fun vs _ => ?_) h
    split <;> exact Value.noConfusion
  case h_5 => exact onArray_eq_error (fun vs _ => Value.noConfusion) h
  case h_6 => cases h
  case h_7 => cases h
  case h_8 =>
    injection h with h
    exact .inr (.inr ⟨_, _, h.symm⟩)

/-! ## Sessions -/

/-- No failure is bound to a name, in any scope. -/
def World.BindsNoFailure (w : World) : Prop :=
  ∀ scope ∈ w.scopes, ∀ binding ∈ scope.bindings, binding.2.HoldsNoFailure

theorem bindsNoFailure_of_holds {w : World} (h : Invariant.storable.Holds w) : w.BindsNoFailure := by
  intro scope hscope binding hbinding
  obtain ⟨id, hid⟩ := Array.mem_iff_getElem?.1 hscope
  exact Value.holdsNoFailure_of_held (h id scope hid binding hbinding)

theorem holdsNoFailure_of_gives {mayReturn : Bool} {v : Value} (h : Invariant.storable.Gives mayReturn v) :
    (∃ e, v = .error e) ∨ v.HoldsNoFailure := by
  cases h with
  | held h => exact .inr (Value.holdsNoFailure_of_held h)
  | failure e => exact .inl ⟨e, rfl⟩
  | returned _ h =>
    exact .inr ⟨ValueType.noConfusion, List.forall_mem_singleton.2 (Value.holdsNoFailure_of_held h)⟩

/-- A name fails because it is not bound, and not with what is bound to it. -/
theorem eval_identifier_eq_error {table : BuiltinTable} {depth : Nat} {name : String} {scope : ScopeId} {w w' : World}
    {e : RuntimeError} (hw : Invariant.storable.Holds w)
    (h : eval table depth (.identifier name) scope w = .ok (.error e) w') : e = .unboundName name := by
  cases depth with
  | zero => cases h
  | succ depth =>
    have hlookUp := (Evaluator.lookUp_apply table scope name w).symm.trans h
    split at hlookUp
    · next v _ hv =>
      injection hlookUp with hv'
      exact absurd hv' ((Value.holdsNoFailure_of_held (hw.get? hv)).ne_error e)
    · cases hlookUp
    · cases hlookUp
      rfl

variable (table : BuiltinTable) (limit : Nat) (texts : List (FrontEnd × String))

theorem sees_storable : ∀ entry ∈ (Session.empty limit).logs table texts, Invariant.storable.Sees entry :=
  Invariant.storable.of_logs (fun _ _ _ _ => trivial) Invariant.storable.holds_empty
    fun entry _ => Invariant.storable_admits entry.event

theorem storable_of_session :
    Invariant.storable.Holds ((Session.empty limit).after table texts).world ∧
      ∀ v, .finished v ∈ (Session.empty limit).outcomes table texts → Invariant.storable.Gives false v :=
  Invariant.storable.of_texts (fun _ _ _ _ => trivial) Invariant.storable.holds_empty
    fun entry _ => Invariant.storable_admits entry.event

theorem keysDistinct_of_session :
    (∀ scope ∈ ((Session.empty limit).after table texts).world.scopes, ∀ binding ∈ scope.bindings,
      binding.2.Every Value.KeysDistinct) ∧
    ∀ v, .finished v ∈ (Session.empty limit).outcomes table texts → v.type ≠ .error → v.Every Value.KeysDistinct := by
  obtain ⟨hworld, hvalues⟩ := storable_of_session table limit texts
  refine ⟨fun scope hscope binding hbinding => ?_, fun v hv herror => ?_⟩
  · obtain ⟨id, hid⟩ := Array.mem_iff_getElem?.1 hscope
    exact (hworld id scope hid binding hbinding).mono fun _ => And.right
  · cases hvalues v hv with
    | held h => exact h.mono fun _ => And.right
    | failure e => exact absurd rfl herror
    | returned hreturn _ => cases hreturn

/-- In a session, whatever is rejected, fails or is aborted in it, no failure is ever bound or in another value: not
in the scopes between runs and at any moment of a run, in what is called and its arguments, and in what evaluations
give.  A failure is only what an evaluation gives itself.  So a failure of a name, of an index or of a builtin is that
of this name, index or builtin, and none that was stored. -/
theorem failures_are_not_stored :
    ((Session.empty limit).after table texts).world.BindsNoFailure ∧
    (∀ v, .finished v ∈ (Session.empty limit).outcomes table texts → (∃ e, v = .error e) ∨ v.HoldsNoFailure) ∧
    ∀ entry ∈ (Session.empty limit).logs table texts,
      entry.world.BindsNoFailure ∧
      (∀ function arguments, entry.event = .begins (.application function arguments) →
        function.HoldsNoFailure ∧ ∀ v ∈ arguments, v.HoldsNoFailure) ∧
      (∀ activity v, entry.event = .ends activity v → (∃ e, v = .error e) ∨ v.HoldsNoFailure) ∧
      (∀ depth name scope e w', eval table depth (.identifier name) scope entry.world = .ok (.error e) w' →
        e = .unboundName name) ∧
      (∀ activity v, entry.event = .ends activity v → v.type ≠ .error → ∀ i e, v.applyIndex i = .error e →
        e = .unusableKey i.type ∨ e = .notIndexable v.type i.type) ∧
      (∀ b arguments, entry.event = .begins (.builtin b arguments) → ∀ e, (b.apply arguments).1 = .error e →
        b.FailsWith e) := by
  obtain ⟨hworld, hvalues⟩ := storable_of_session table limit texts
  refine ⟨bindsNoFailure_of_holds hworld, fun v hv => holdsNoFailure_of_gives (hvalues v hv), fun entry hentry => ?_⟩
  obtain ⟨event, w⟩ := entry
  obtain ⟨hw, hevent⟩ := sees_storable table limit texts _ hentry
  have hgiven (activity : Activity) (v : Value) (h : event = .ends activity v) :
      (∃ e, v = .error e) ∨ v.HoldsNoFailure := by
    subst h
    exact holdsNoFailure_of_gives hevent
  refine ⟨bindsNoFailure_of_holds hw, ?_, hgiven, ?_, ?_, ?_⟩
  · rintro function arguments rfl
    exact ⟨Value.holdsNoFailure_of_held hevent.1, fun v hv => Value.holdsNoFailure_of_held (hevent.2 v hv)⟩
  · exact fun depth name scope e w' h => eval_identifier_eq_error hw h
  · intro activity v h herror i e hindex
    rcases hgiven activity v h with ⟨e', rfl⟩ | hv
    · exact absurd rfl herror
    · exact hv.applyIndex_eq_error hindex
  · rintro b arguments rfl e happly
    exact Builtin.apply_eq_error (fun v hv => Value.holdsNoFailure_of_held (hevent v hv)) happly

/-- A binding fails within an array, a text is rejected, and the name that was to be bound is not. -/
theorem failures_are_not_stored_of_failed_let :
    let texts : List (FrontEnd × String) :=
      [(.descent, "let a = [1, 1 / 0];"), (.automaton, "let b ="), (.descent, "let c = \x7b2: 3\x7d; a")]
    ((Session.empty 1000).after .default texts).world.BindsNoFailure ∧
      .finished (.error (.divisionByZero 1)) ∈ (Session.empty 1000).outcomes .default texts ∧
      .finished (.error (.unboundName "a")) ∈ (Session.empty 1000).outcomes .default texts := by
  intro texts
  refine ⟨(failures_are_not_stored .default 1000 texts).1, ?_⟩
  have hlet : FrontEnd.descent.parse "let a = [1, 1 / 0];" =
      ([.letStatement "a" (.array [.integer 1, .binary (.integer 1) "/" (.integer 0)])], []) := by
    decide +kernel
  have hread : FrontEnd.descent.parse "let c = \x7b2: 3\x7d; a" =
      ([.letStatement "c" (.hash [(.integer 2, .integer 3)]), .expressionStatement (.identifier "a")], []) := by
    decide +kernel
  have hrejected : (FrontEnd.automaton.parse "let b =").2 ≠ [] := by
    decide +kernel
  simp only [texts, Session.outcomes, Session.run_of_parse hlet, Session.run_of_messages hrejected,
    Session.run_of_parse hread]
  with_unfolding_all exact ⟨.head _, .tail _ (.tail _ (.head _))⟩

end MonkeyLanguage
