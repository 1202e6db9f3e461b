import MonkeyLanguage.Proofs.Session.ArrayFunctions
import MonkeyLanguage.Proofs.Session.Concatenation

/-!
# Recursive programs on arrays

The text `arrayDefinitions` defines `map`, `reduce` and `sum` by functions that call themselves on the rest of an
array.  Wherever its bindings and those of the builtins that it uses stand, `map` gives the array of what a function
gives for the elements, and calls the function once for each of them in their order, and `sum` gives the sum of
integers, wrapped around once (`arrayPrograms_correct`).  There is no bound on the length of the array, nor on the depth
of the recursion.
-/

namespace MonkeyLanguage

open Node

/-- The lines that define `map`, `reduce` and `sum`. -/
def arrayLines : List String := [
  "let map = fn(arr, f) \x7b\n",
  "  let iter = fn(arr, accumulated) \x7b\n",
  "    if (len(arr) == 0) \x7b\n",
  "      accumulated\n",
  "    \x7d else \x7b\n",
  "      iter(rest(arr), push(accumulated, f(first(arr))));\n",
  "    \x7d\n",
  "  \x7d;\n",
  "  iter(arr, []);\n",
  "\x7d;\n",
  "let reduce = fn(arr, initial, f) \x7b\n",
  "  let iter = fn(arr, result) \x7b\n",
  "    if (len(arr) == 0) \x7b\n",
  "      result\n",
  "    \x7d else \x7b\n",
  "      iter(rest(arr), f(result, first(arr)));\n",
  "    \x7d\n",
  "  \x7d;\n",
  "  iter(arr, initial);\n",
  "\x7d;\n",
  "let sum = fn(arr) \x7b reduce(arr, 0, fn(initial, el) \x7b initial + el \x7d) \x7d;\n"]

def arrayDefinitions : String :=
  String.join arrayLines

def arrayStatements : List Node :=
  [.letStatement "map" (.function ["arr", "f"] mapBody),
    .letStatement "reduce" (.function ["arr", "initial", "f"] reduceBody),
    .letStatement "sum" (.function ["arr"] sumBody)]

theorem parse_of_toList {frontEnd : FrontEnd} {source : String} {cs : List Char} {nodes : List Node}
    (hchars : source.toList = cs)
    (h : (Automaton.State.initial.takes (Token.ofLexemes .start (Lexeme.split cs))).bind Automaton.State.statements? =
      some nodes) : frontEnd.parse source = (nodes, []) := by
  subst hchars
  obtain ⟨σ, htakes, hend⟩ := Option.bind_eq_some_iff.1 h
  exact parse_eq_iff_derives.2 (accepts_iff_derives.1 ⟨σ, htakes, hend⟩)

theorem parse_arrayDefinitions (frontEnd : FrontEnd) : frontEnd.parse arrayDefinitions = (arrayStatements, []) :=
  parse_of_toList String.toList_join (by decide +kernel)

/-! ## The definitions in force -/

namespace Session

/-- The definitions need two evaluations inside each other, one for a binding and one for its function. -/
theorem run_arrayDefinitions (frontEnd : FrontEnd) {s : Session} {limit : Nat} (h : s.limit = limit + 2) :
    s.run frontEnd .default arrayDefinitions =
      ⟨.finished .null, "", { s with world := ((s.fresh.define s.scope "map" ["arr", "f"] mapBody).define s.scope
        "reduce" ["arr", "initial", "f"] reduceBody).define s.scope "sum" ["arr"] sumBody }⟩ := by
  obtain ⟨w, scope, _⟩ := s
  obtain rfl := h
  rw [run_of_parse (parse_arrayDefinitions frontEnd), evaluate_program]
  rfl

theorem get?_fresh_ofWorld (w : World) (limit : Nat) (name : String) :
    (ofWorld w limit).fresh.get? (ofWorld w limit).scope name = none := by
  have hnew : (ofWorld w limit).fresh.scopes[(ofWorld w limit).scope]? = some ⟨none, []⟩ := Array.getElem?_push_size
  rw [World.get?_eq, hnew]
  rfl

theorem get?_arrayDefinitions (frontEnd : FrontEnd) (w : World) (limit : Nat) :
    let s := ((ofWorld w (limit + 2)).run frontEnd .default arrayDefinitions).session
    (∃ identity, s.world.get? s.scope "map" = some (mapFunction identity s.scope)) ∧
      (∃ identity, s.world.get? s.scope "reduce" = some (reduceFunction identity s.scope)) ∧
      (∃ identity, s.world.get? s.scope "sum" = some (sumFunction identity s.scope)) ∧
      ∀ name ∈ loopBuiltins, s.world.get? s.scope name = none := by
  intro s
  have hunbound := get?_fresh_ofWorld w (limit + 2)
  have hk₀ : (ofWorld w (limit + 2)).scope < (ofWorld w (limit + 2)).fresh.scopes.size := w.lt_size_addScope none []
  have hs : s = _ := congrArg Run.session (@run_arrayDefinitions frontEnd (ofWorld w (limit + 2)) limit rfl)
  rw [hs]
  generalize (ofWorld w (limit + 2)).fresh = w₀, (ofWorld w (limit + 2)).scope = k at hunbound hk₀
  obtain ⟨w₁, hw₁⟩ : ∃ w₁, w₁ = w₀.define k "map" ["arr", "f"] mapBody := ⟨_, rfl⟩
  obtain ⟨w₂, hw₂⟩ : ∃ w₂, w₂ = w₁.define k "reduce" ["arr", "initial", "f"] reduceBody := ⟨_, rfl⟩
  have hk₁ : k < w₁.scopes.size := hw₁ ▸ Nat.lt_of_lt_of_le hk₀ (World.frame_define ..).size_le
  have hk₂ : k < w₂.scopes.size := hw₂ ▸ Nat.lt_of_lt_of_le hk₁ (World.frame_define ..).size_le
  simp only [← hw₁, ← hw₂]
  refine ⟨⟨w₀.functions, ?_⟩, ⟨w₁.functions, ?_⟩, ⟨w₂.functions, World.get?_define_self hk₂⟩, fun name hname => ?_⟩
  · rw [World.get?_define_of_ne hk₂ (by decide), hw₂, World.get?_define_of_ne hk₁ (by decide), hw₁]
    exact World.get?_define_self hk₀
  · rw [World.get?_define_of_ne hk₂ (by decide), hw₂]
    exact World.get?_define_self hk₁
  · have hne : ∀ name ∈ loopBuiltins, name ≠ "map" ∧ name ≠ "reduce" ∧ name ≠ "sum" := by decide
    obtain ⟨hmap, hreduce, hsum⟩ := hne name hname
    rw [World.get?_define_of_ne hk₂ hsum, hw₂, World.get?_define_of_ne hk₁ hreduce, hw₁,
      World.get?_define_of_ne hk₀ hmap, hunbound name]

/-- Where the names that the definitions use stand for what they stand for in a fresh session after the definitions,
`map` and `sum` are correct on all arrays.

If a function can be called on each element in turn without failing, `map` ends with the array of the results.  Those
are the same but for the numbers of functions that the calls make.  What the calls print is printed in their order and
nothing else, and the calls are the only ones: the world is the one that they leave but for other numbers, for the
scopes of `map` and of each call of its loop, and for the loop itself.

The sum of integers is the exact sum, wrapped around once. -/
theorem arrayPrograms_correct (frontEnd : FrontEnd) (w₀ : World) (limit : Nat) :
    let s := ((ofWorld w₀ (limit + 2)).run frontEnd .default arrayDefinitions).session
    ∃ map sum, s.world.get? s.scope "map" = some map ∧ s.world.get? s.scope "sum" = some sum ∧
      ∀ w : World, w.Closed →
        (∀ name ∈ "reduce" :: loopBuiltins, w.get? s.scope name = s.world.get? s.scope name) →
        (∀ f xs vs w', w.Knows f → (∀ x ∈ xs, w.Knows x) → CallsInTurn Eq f w xs vs w' →
          ∃ ρ u, Calls .default map [.array xs, f] w (.array (vs.map (Value.rename ρ))) u ∧
            (∀ v, w.Knows v → v.rename ρ = v) ∧ u.output = w'.output ∧ World.Copied ρ w.output w.output w' u ∧
            u.scopes.size = w'.scopes.size + xs.length + 2 ∧ u.functions = w'.functions + 1 ∧
            CallsInTurn World.Idles f w xs (vs.map (Value.rename ρ)) u) ∧
        ∀ ns : List Int, ∃ u,
          Calls .default sum [.array (ns.map .integer)] w (.integer (wrap ns.sum)) u ∧ u.output = w.output := by
  intro s
  obtain ⟨⟨map, hmap⟩, ⟨reduce, hreduce⟩, ⟨sum, hsum⟩, hbuiltins⟩ := get?_arrayDefinitions frontEnd w₀ limit
  refine ⟨_, _, hmap, hsum, fun w hw hnames => ?_⟩
  rw [List.forall_mem_cons] at hnames
  have hreduce' := hnames.1.trans hreduce
  have hunbound : ∀ name ∈ loopBuiltins, w.get? s.scope name = none := fun name hname =>
    (hnames.2 name hname).trans (hbuiltins name hname)
  have hscope : s.scope < w.scopes.size := World.lt_size_of_get? hreduce'
  refine ⟨fun f xs vs w' hf hxs hcalls => ?_, fun ns => calls_sumFunction sum hscope hunbound hreduce' ns⟩
  obtain ⟨ρ, u, hcall, hknown, hcopied, hnumbers⟩ := calls_mapFunction map hw hscope hunbound hf hxs hcalls
  obtain ⟨text, hw', hu⟩ := hcopied.output
  exact ⟨ρ, u, hcall, hknown, hu.trans hw'.symm, hcopied, hnumbers⟩

/-- `map` prints the elements of an array, and `sum` leaves the range of integers. -/
theorem arrayPrograms_correct_of_puts :
    let s := ((ofWorld .empty 2).run .descent .default arrayDefinitions).session
    ∃ map sum, s.world.get? s.scope "map" = some map ∧ s.world.get? s.scope "sum" = some sum ∧
      (∃ u, Calls .default map [.array [.integer 1, .string "a"], .builtin .puts] s.world (.array [.null, .null]) u ∧
        u.output = "1\na\n") ∧
      ∃ u, Calls .default sum [.array [.integer 9223372036854775807, .integer 1]] s.world
        (.integer (-9223372036854775808)) u := by
  have hstart : (ofWorld .empty 2).Closed := closed_empty
  have hclosed := (hstart.run .descent .default arrayDefinitions).1.world
  have houtput : ((ofWorld .empty 2).run .descent .default arrayDefinitions).session.world.output = "" :=
    congrArg (fun run => run.session.world.output) (@run_arrayDefinitions .descent (ofWorld .empty 2) 0 rfl)
  have hcorrect := arrayPrograms_correct .descent .empty 0
  dsimp only at hcorrect ⊢
  generalize ((ofWorld .empty 2).run .descent .default arrayDefinitions).session = s at hclosed houtput hcorrect ⊢
  obtain ⟨map, sum, hmap, hsum, hcorrect⟩ := hcorrect
  obtain ⟨hcalls, hsums⟩ := hcorrect s.world hclosed fun _ _ => rfl
  have hputs : CallsInTurn Eq (.builtin .puts) s.world [.integer 1, .string "a"] [.null, .null]
      ((s.world.print "1\n").print "a\n") :=
    .cons rfl (.of_forall fun _ => rfl) ValueType.noConfusion
      (.cons rfl (.of_forall fun _ => rfl) ValueType.noConfusion (.nil rfl))
  have hf : s.world.Knows (.builtin .puts) := World.knows_atom trivial rfl
  have hxs : ∀ x ∈ [Value.integer 1, .string "a"], s.world.Knows x :=
    List.forall_mem_cons.2 ⟨World.knows_atom trivial rfl, List.forall_mem_singleton.2 (World.knows_atom trivial rfl)⟩
  obtain ⟨ρ, u, hcall, -, hprinted, -⟩ := hcalls _ _ _ _ hf hxs hputs
  obtain ⟨u', hcall', -⟩ := hsums [9223372036854775807, 1]
  refine ⟨map, sum, hmap, hsum, ⟨u, hcall, ?_⟩, u', hcall'⟩
  rw [hprinted, World.print, World.print, houtput]
  rfl

end Session

end MonkeyLanguage
