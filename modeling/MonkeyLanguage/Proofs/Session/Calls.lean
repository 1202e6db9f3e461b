import MonkeyLanguage.Proofs.Eval.Closed
import MonkeyLanguage.Proofs.Eval.Frame

/-!
# Calls made again

A call that is made again right after it has ended does the same (`calls_repeat`).  The first call leaves the scopes
that there were as they are, so the second finds all that it needs under its old number.  It makes new scopes and
functions, which only get later numbers.

This is said of closed worlds, and sessions have no others (`closed_after`).
-/

namespace MonkeyLanguage

variable {table : BuiltinTable} {depth : Nat} {w w' : World}

/-! ## Worlds of sessions -/

theorem World.closed_empty : World.empty.Closed :=
  ⟨nofun, nofun⟩

/-- The session runs in a closed world, in a scope of it. -/
structure Session.Closed (s : Session) : Prop where
  world : s.world.Closed
  scope_lt : s.scope < s.world.scopes.size

theorem Session.closed_empty {limit : Nat} : (Session.empty limit).Closed :=
  ⟨(World.closed_empty.addScope none [] nofun nofun).closed, Nat.zero_lt_one⟩

theorem Session.Closed.run {s : Session} (h : s.Closed) (frontEnd : FrontEnd) (table : BuiltinTable) (source : String) :
    (s.run frontEnd table source).session.Closed ∧ ∀ v, (s.run frontEnd table source).outcome = .finished v →
      (s.run frontEnd table source).session.world.Knows v := by
  cases hparse : frontEnd.parse source with
  | mk statements messages =>
    cases messages with
    | cons message messages =>
      rw [run_of_messages (by rw [hparse]; exact List.cons_ne_nil _ _)]
      exact ⟨h, fun _ hv => Outcome.noConfusion hv⟩
    | nil =>
      have hstart : s.world.Reaches { s.world with output := "" } := h.world.of_scopes rfl (Nat.le_refl _)
      have hend := closes_eval table (s.limit + 1) (.program statements) s.scope _ hstart.closed h.scope_lt
      rw [run_of_parse hparse, evaluate]
      generalize eval table (s.limit + 1) (.program statements) s.scope { s.world with output := "" } = result at hend
      cases hend with
      | ok hreaches hv =>
        refine ⟨⟨hreaches.closed, Nat.lt_of_lt_of_le h.scope_lt hreaches.scopes_le⟩, fun u hu => ?_⟩
        obtain rfl := Outcome.finished.inj hu
        exact hv
      | error hreaches =>
        exact ⟨⟨hreaches.closed, Nat.lt_of_lt_of_le h.scope_lt hreaches.scopes_le⟩, fun _ hv => Outcome.noConfusion hv⟩

theorem Session.closed_after (table : BuiltinTable) (texts : List (FrontEnd × String)) {s : Session} (h : s.Closed) :
    (s.after table texts).Closed := by
  induction texts generalizing s with
  | nil => exact h
  | cons text texts ih => exact ih (h.run text.1 table text.2).1

/-! ## Calls in a closed world -/

/-- The function is one of those that the world has counted, if the value is one. -/
def Value.IsEarlier (w : World) : Value → Prop
  | .function identity .. => identity < w.functions
  | _ => True

/-- The renaming that moves later numbers by what has been made between the worlds. -/
def World.since (w w' : World) : Renaming :=
  w.shift (w'.scopes.size - w.scopes.size) (w'.functions - w.functions)

theorem World.Knows.rename_since {v : Value} (h : w.Knows v) : v.rename (w.since w') = v := by
  refine (Value.rename_eq_self_iff v).2 (Value.Every.mono h fun u hu => ?_)
  cases u with
  | function identity parameters body scope => exact ⟨moved_of_lt hu.1, moved_of_lt hu.2⟩
  | _ => trivial

theorem Value.IsEarlier.sameIdentity (w' : World) {v : Value} (h : v.IsEarlier w) :
    v.SameIdentity (w.since w') .refl := by
  cases v with
  | function identity parameters body scope => exact moved_of_lt h
  | _ => trivial

/-- A later world with the same scopes holds a copy of the first. -/
theorem World.Closed.copied (h : w.Closed) (hkeeps : w.Keeps w') (hfunctions : w.functions ≤ w'.functions) :
    World.Copied (w.since w') w.output w'.output w w' where
  scopes id := by
    by_cases hid : id < w.scopes.size
    · have hs : w.scopes[id]? = some w.scopes[id] := Array.getElem?_eq_getElem hid
      have hfixed : w.scopes[id].rename (w.since w') = w.scopes[id] :=
        Scope.rename_eq_self (fun outer houter => moved_of_lt (h.outer id _ hs outer houter))
          fun binding hbinding => (h.binding id _ hs binding hbinding).rename_since
      rw [show (w.since w').scope id = id from moved_of_lt hid, hkeeps.same id hid, hs, Option.map_some, hfixed]
    · have hlater : w'.scopes.size ≤ (w.since w').scope id := by
        rw [show (w.since w').scope id = id + (w'.scopes.size - w.scopes.size) from if_neg hid]
        have := hkeeps.size_le
        have : w.scopes.size ≤ id := Nat.le_of_not_lt hid
        omega
      rw [Array.getElem?_eq_none hlater, Array.getElem?_eq_none (Nat.le_of_not_lt hid), Option.map_none]
  newScope k := by
    refine (moved_add ..).trans ?_
    rw [Nat.add_sub_cancel' hkeeps.size_le]
  newFunction k := by
    refine (moved_add ..).trans ?_
    rw [Nat.add_sub_cancel' hfunctions]
  output := ⟨"", String.append_empty.symm, String.append_empty.symm⟩

/-- The world has gone on without a change to its scopes and without printing. -/
structure World.Idles (w w' : World) : Prop where
  keeps : w.Keeps w'
  functions_le : w.functions ≤ w'.functions
  output_eq : w'.output = w.output

theorem World.Idles.trans {w₁ : World} (h : w.Idles w₁) (h' : w₁.Idles w') : w.Idles w' :=
  ⟨h.keeps.trans h'.keeps, Nat.le_trans h.functions_le h'.functions_le, h'.output_eq.trans h.output_eq⟩

theorem World.Copied.idle {ρ : Renaming} {before before' : String} {u u' : World}
    (h : World.Copied ρ before before' w u) (hu : u.Closed) (hidles : u.Idles u') :
    World.Copied (ρ.trans (u.since u')) before before' w u' := by
  have hcopy := hu.copied hidles.keeps hidles.functions_le
  refine ⟨fun id => ?_, fun n => ?_, fun n => ?_, hidles.output_eq ▸ h.output⟩
  · rw [show (ρ.trans (u.since u')).scope id = (u.since u').scope (ρ.scope id) from rfl, hcopy.scopes, h.scopes,
      Option.map_map]
    exact congrArg (Option.map · _) (funext fun s => s.rename_rename ρ (u.since u'))
  · exact (congrArg (u.since u').scope (h.newScope n)).trans (hcopy.newScope n)
  · exact (congrArg (u.since u').identity (h.newFunction n)).trans (hcopy.newFunction n)

theorem World.Knows.rename_trans_since {ρ : Renaming} {v : Value} (h : w.Knows (v.rename ρ)) (w' : World) :
    v.rename (ρ.trans (w.since w')) = v.rename ρ := by
  rw [← Value.rename_rename, h.rename_since]

/-- A call that has ended with a value ends again if it is made again.  It prints the same text and gives a value of
the same type with the same text, and the two values are equal if they hold no function that the call has made. -/
theorem calls_repeat (hw : w.Closed) {function v : Value} {arguments : List Value} (hfunction : w.Knows function)
    (harguments : ∀ a ∈ arguments, w.Knows a)
    (hcall : Evaluator.call (eval table depth) function arguments w = .ok v w') :
    ∃ v' w'' text, Evaluator.call (eval table depth) function arguments w' = .ok v' w'' ∧
      w'.output = w.output ++ text ∧ w''.output = w'.output ++ text ∧ v'.type = v.type ∧ v'.render = v.render ∧
      (v.Every (Value.IsEarlier w) → (v == v') = true ∧ (v' == v) = true) := by
  have hkeeps : w.Keeps w' := by
    have h := Evaluator.call_keeps (framed_eval table depth) function arguments w
    rwa [World.after, hcall] at h
  have hfunctions : w.functions ≤ w'.functions := by
    have h := Evaluator.call_closes (closes_eval table depth) hw hfunction harguments
    rw [hcall] at h
    cases h with
    | ok h _ => exact h.functions_le
  have hargs : arguments.map (Value.rename (w.since w')) = arguments :=
    Value.map_rename_eq_self fun a ha => (harguments a ha).rename_since
  have hend := (hw.copied hkeeps hfunctions).call table depth function arguments
  rw [hcall, hfunction.rename_since, hargs] at hend
  generalize hagain : Evaluator.call (eval table depth) function arguments w' = result at hend
  cases hend with
  | tooDeep h => exact h.elim
  | @ok _ _ _ w'' hv hcopied =>
    obtain rfl := Value.renamed_iff.1 hv
    obtain ⟨text, hfirst, hsecond⟩ := hcopied.output
    refine ⟨_, w'', text, rfl, hfirst, hsecond, Value.type_rename v, Value.render_rename v, fun hearlier => ?_⟩
    rw [Value.beq_eq_same, Value.beq_eq_same]
    constructor
    · have h := Value.same_rename_rename v (hearlier.mono fun u hu => (Value.IsEarlier.sameIdentity w' hu).symm)
      rwa [Value.rename_refl] at h
    · have h := Value.same_rename_rename v (hearlier.mono fun u hu => Value.IsEarlier.sameIdentity w' hu)
      rwa [Value.rename_refl] at h

/-- A closure that prints what it reads from its scope and gives its arguments. -/
theorem closure_call_repeats :
    let body : Node := .block [.expressionStatement (.call (.identifier "puts") [.identifier "n"]),
      .expressionStatement (.array [.identifier "f", .identifier "x"])]
    let f : Value := .function 0 ["x", "f"] body 0
    let w : World := ⟨#[⟨none, [("n", .integer 2)]⟩], 1, "> "⟩
    let w' : World := ⟨#[⟨none, [("n", .integer 2)]⟩, ⟨some 0, [("x", .integer 7), ("f", f)]⟩], 1, "> 2\n"⟩
    Evaluator.call (eval .default 10) f [.integer 7, f] w = .ok (.array [f, .integer 7]) w' ∧
      ∃ v' w'' text, Evaluator.call (eval .default 10) f [.integer 7, f] w' = .ok v' w'' ∧
        w'.output = w.output ++ text ∧ w''.output = w'.output ++ text ∧ v'.type = .array ∧
        v'.render = (Value.array [f, .integer 7]).render ∧ (Value.array [f, .integer 7] == v') = true := by
  intro body f w w'
  have hbinding : ∀ binding ∈ [("n", Value.integer 2)], World.empty.Knows binding.2 :=
    List.forall_mem_singleton.2 (World.knows_atom trivial rfl)
  have hreaches : World.empty.Reaches w :=
    .trans (World.closed_empty.addScope none _ nofun hbinding)
      ((World.closed_empty.addScope none _ nofun hbinding).closed.of_scopes rfl (Nat.zero_le _))
  have hf : w.Knows f := World.knows_atom ⟨Nat.zero_lt_one, Nat.zero_lt_one⟩ rfl
  have hcall : Evaluator.call (eval .default 10) f [.integer 7, f] w = .ok (.array [f, .integer 7]) w' := by
    with_unfolding_all rfl
  have hargs : ∀ a ∈ [.integer 7, f], w.Knows a :=
    List.forall_mem_cons.2 ⟨World.knows_atom trivial rfl, List.forall_mem_singleton.2 hf⟩
  have hearlier : (Value.array [f, .integer 7]).Every (Value.IsEarlier w) :=
    ⟨trivial, List.forall_mem_cons.2 ⟨.of_atom Nat.zero_lt_one rfl, List.forall_mem_singleton.2 (.of_atom trivial rfl)⟩⟩
  obtain ⟨v', w'', text, hagain, hfirst, hsecond, htype, hrender, hequal⟩ :=
    calls_repeat hreaches.closed hf hargs hcall
  exact ⟨hcall, v', w'', text, hagain, hfirst, hsecond, htype, hrender, (hequal hearlier).1⟩

end MonkeyLanguage
