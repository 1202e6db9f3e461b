import Mathlib.Data.List.Induction
import MonkeyLanguage.Proofs.Eval.Frame

/-!
# Scopes as nested maps

However scopes are made inside each other and names are set in them, a name stands for the value that it was last
given in the nearest scope in which it ever was set (`scopes_are_nested_maps`).  So a setting is seen in its scope and
in the scopes inside that do not set the name themselves, whether they were made before it or after it, and in no
other.  The names of a scope are those that stand for something, each once.

A `ScopeHistory` says in which order scopes were made and names were set.  What the world is after it is one lemma about
single scopes (`ScopeHistory.exists_scope`) and one about the scopes around each other (`ScopeHistory.bindings_chain`).
-/

namespace MonkeyLanguage

/-! ## Lists -/

theorem pairwise_eraseDups {α : Type} [BEq α] [LawfulBEq α] (l : List α) :
    l.eraseDups.Pairwise fun a b => a ≠ b ∧ ∃ before after, l = before ++ a :: after ∧ a ∉ before ∧ b ∉ before := by
  induction l using List.reverseRecOn with
  | nil => exact .nil
  | append_singleton l c ih =>
    have hold : l.eraseDups.Pairwise fun a b =>
        a ≠ b ∧ ∃ before after, l ++ [c] = before ++ a :: after ∧ a ∉ before ∧ b ∉ before := by
      refine ih.imp fun {a b} hab => ?_
      obtain ⟨hne, before, after, rfl, hfirst⟩ := hab
      exact ⟨hne, before, after ++ [c], by simp, hfirst⟩
    rw [List.eraseDups_append]
    by_cases hc : c ∈ l
    · simpa [List.removeAll, hc] using hold
    · have hnew : ([c].removeAll l).eraseDups = [c] := by simp [List.removeAll, hc, List.eraseDups_cons]
      rw [hnew, List.pairwise_append]
      refine ⟨hold, List.pairwise_singleton .., fun a ha b hb => ?_⟩
      obtain rfl := List.mem_singleton.1 hb
      obtain ⟨before, after, rfl, hfirst⟩ := List.eq_append_cons_of_mem (List.mem_eraseDups.1 ha)
      refine ⟨?_, before, after ++ [b], by simp, hfirst, fun hmem => hc (List.mem_append_left _ hmem)⟩
      rintro rfl
      exact hc (List.mem_append_right _ (List.mem_cons_self ..))

theorem exists_of_eraseDups_eq {α : Type} [BEq α] [LawfulBEq α] {l front back : List α} {a b : α}
    (h : l.eraseDups = front ++ a :: back) (hb : b ∉ front) (hne : a ≠ b) :
    ∃ before after, l = before ++ a :: after ∧ b ∉ before := by
  by_cases hback : b ∈ back
  · have hpairs := pairwise_eraseDups l
    rw [h, List.pairwise_append, List.pairwise_cons] at hpairs
    obtain ⟨-, before, after, hl, -, hbefore⟩ := hpairs.2.1.1 b hback
    exact ⟨before, after, hl, hbefore⟩
  · have hmem : a ∈ l.eraseDups := h ▸ List.mem_append_right _ (List.mem_cons_self ..)
    have hnot : b ∉ l.eraseDups := by simp [h, hb, hback, hne.symm]
    obtain ⟨before, after, rfl⟩ := List.append_of_mem (List.mem_eraseDups.1 hmem)
    exact ⟨before, after, rfl, fun hbefore => hnot (List.mem_eraseDups.2 (List.mem_append_left _ hbefore))⟩

theorem exists_of_flatMap_eq {α β : Type} {f : α → List β} {l : List α} {before after : List β} {b : β}
    (h : l.flatMap f = before ++ b :: after) :
    ∃ inner a outer front back, l = inner ++ a :: outer ∧ f a = front ++ b :: back ∧
      before = inner.flatMap f ++ front := by
  induction l generalizing before with
  | nil => simp at h
  | cons a l ih =>
    have hlater {rest : List β} (hrest : l.flatMap f = rest ++ b :: after) :
        ∃ inner a' outer front back, a :: l = inner ++ a' :: outer ∧ f a' = front ++ b :: back ∧
          f a ++ rest = inner.flatMap f ++ front := by
      obtain ⟨inner, a', outer, front, back, rfl, ha', rfl⟩ := ih hrest
      exact ⟨a :: inner, a', outer, front, back, rfl, ha', by simp⟩
    rw [List.flatMap_cons, List.append_eq_append_iff] at h
    rcases h with ⟨rest, rfl, hrest⟩ | ⟨rest, hfirst, hrest⟩
    · exact hlater hrest
    · rcases List.append_eq_cons_iff.1 hrest.symm with ⟨rfl, hrest⟩ | ⟨back, rfl, -⟩
      · rw [List.append_nil] at hfirst
        simpa [hfirst] using @hlater [] hrest.symm
      · exact ⟨[], a, l, before, back, rfl, hfirst, rfl⟩

theorem findSome?_eq_of_behind {α β : Type} {f g : α → Option β} {l : List α} {a : α} (hsame : ∀ x ≠ a, g x = f x)
    (hbehind : ∀ inner outer, l = inner ++ a :: outer → ∃ x ∈ inner, f x ≠ none) : l.findSome? g = l.findSome? f := by
  induction l with
  | nil => rfl
  | cons x l ih =>
    have hx : x ≠ a := by
      rintro rfl
      obtain ⟨y, hy, -⟩ := hbehind [] l rfl
      cases hy
    rw [List.findSome?_cons, List.findSome?_cons, hsame x hx]
    cases hfound : f x with
    | some b => rfl
    | none =>
      refine ih fun inner outer hl => ?_
      obtain ⟨y, hy, hne⟩ := hbehind (x :: inner) outer (congrArg (x :: ·) hl)
      rcases List.mem_cons.1 hy with rfl | hy
      · exact absurd hfound hne
      · exact ⟨y, hy, hne⟩

/-! ## Maps of settings -/

namespace OrderedMap

variable {κ ν : Type} [DecidableEq κ]

theorem ofList_concat (pairs : List (κ × ν)) (k : κ) (v : ν) :
    ofList (pairs ++ [(k, v)]) = insert (ofList pairs) k v :=
  List.foldl_append

theorem get?_ofList (pairs : List (κ × ν)) (k : κ) :
    get? (ofList pairs) k = (pairs.filter fun pair => pair.1 = k).getLast?.map Prod.snd := by
  induction pairs using List.reverseRecOn with
  | nil => rfl
  | append_singleton pairs pair ih =>
    rw [ofList_concat, List.filter_append]
    by_cases hk : pair.1 = k
    · subst hk
      simp [get?_insert_self]
    · rw [get?_insert_of_ne _ _ hk, ih]
      simp [hk]

end OrderedMap

/-- A binding that is made in a new scope could have been there from the start. -/
theorem World.set_addScope (w : World) (outer : Option ScopeId) (bindings : OrderedMap String Value) (name : String)
    (v : Value) :
    (w.addScope outer bindings).2.set w.scopes.size name v = (w.addScope outer (bindings.insert name v)).2 := by
  have hscopes : (w.addScope outer bindings).2.scopes.modify w.scopes.size
        (fun s => { s with bindings := s.bindings.insert name v }) =
      w.scopes.push ⟨outer, bindings.insert name v⟩ := by
    refine Array.ext_getElem? fun id => ?_
    simp only [World.addScope, Array.getElem?_modify, Array.getElem?_push]
    by_cases hid : w.scopes.size = id
    · simp [hid]
    · simp [hid, Ne.symm hid]
  rw [World.set, hscopes]
  rfl

/-! ## Histories -/

/-- How `n` scopes came about: each step makes a scope, in another or in none, or sets a name in a scope. -/
inductive ScopeHistory : Nat → Type where
  | start : ScopeHistory 0
  | enclose {n : Nat} (h : ScopeHistory n) (outer : Option (Fin n)) : ScopeHistory (n + 1)
  | set {n : Nat} (h : ScopeHistory n) (scope : Fin n) (name : String) (v : Value) : ScopeHistory n

namespace ScopeHistory

variable {n : Nat} {id : ScopeId} {name : String}

def world {n : Nat} : ScopeHistory n → World
  | start => .empty
  | enclose h outer => (h.world.addScope (outer.map Fin.val) []).2
  | set h scope name v => h.world.set scope name v

/-- A scope and the scopes around it, from inside to outside. -/
def chain {n : Nat} : ScopeHistory n → ScopeId → List ScopeId
  | start, _ => []
  | @enclose n h outer, id => if id = n then n :: outer.elim [] fun o => h.chain o else h.chain id
  | set h _ _ _, id => h.chain id

/-- The names and values that were set in a scope, in turn. -/
def settings {n : Nat} : ScopeHistory n → ScopeId → List (String × Value)
  | start, _ => []
  | enclose h _, id => h.settings id
  | set h scope name v, id => if scope = id then h.settings id ++ [(name, v)] else h.settings id

def namesSet (h : ScopeHistory n) (id : ScopeId) : List String :=
  OrderedMap.keys (h.settings id)

/-- The value that a name was last given in a scope. -/
def last? (h : ScopeHistory n) (id : ScopeId) (name : String) : Option Value :=
  ((h.settings id).filter fun setting => setting.1 = name).getLast?.map Prod.snd

/-- The scope is the one in question or one around it, and the name was set in none that is nearer. -/
def Sees (h : ScopeHistory n) (id scope : ScopeId) (name : String) : Prop :=
  ∃ inner outer, h.chain id = inner ++ scope :: outer ∧ ∀ nearer ∈ inner, name ∉ h.namesSet nearer

/--
The name `a` comes before `b` in a scope: in the nearest scope in which one of the two was set, `a` was set, and `b`
was not set before that.
-/
def Precedes (h : ScopeHistory n) (id : ScopeId) (a b : String) : Prop :=
  ∃ inner scope outer, h.chain id = inner ++ scope :: outer ∧
    (∀ nearer ∈ inner, a ∉ h.namesSet nearer ∧ b ∉ h.namesSet nearer) ∧
    ∃ before after, h.namesSet scope = before ++ a :: after ∧ b ∉ before

def setAll (h : ScopeHistory n) (scope : Fin n) (pairs : List (String × Value)) : ScopeHistory n :=
  pairs.foldl (fun h pair => h.set scope pair.1 pair.2) h

/-! ### Single scopes -/

theorem size_scopes (h : ScopeHistory n) : h.world.scopes.size = n := by
  induction h with
  | start => rfl
  | enclose h outer ih => rw [world, World.addScope, Array.size_push, ih]
  | set h scope name v ih => rw [world, World.set, Array.size_modify, ih]

theorem settings_of_le (h : ScopeHistory n) (hid : n ≤ id) : h.settings id = [] := by
  induction h with
  | start => rfl
  | enclose h outer ih => exact ih (Nat.le_of_succ_le hid)
  | set h scope name v ih => rw [settings, if_neg (Nat.ne_of_lt (Nat.lt_of_lt_of_le scope.isLt hid)), ih hid]

theorem chain_of_le (h : ScopeHistory n) (hid : n ≤ id) : h.chain id = [] := by
  induction h with
  | start => rfl
  | enclose h outer ih => rw [chain, if_neg (Nat.ne_of_gt hid), ih (Nat.le_of_succ_le hid)]
  | set h scope name v ih => exact ih hid

theorem chain_enclose_of_lt (h : ScopeHistory n) (outer : Option (Fin n)) (hid : id < n) :
    (h.enclose outer).chain id = h.chain id := by
  rw [chain, if_neg (Nat.ne_of_lt hid)]

theorem elim_chain_enclose (h : ScopeHistory n) (outer : Option (Fin n)) {around : Option ScopeId}
    (haround : ∀ o ∈ around, o < n) :
    around.elim [] (h.enclose outer).chain = around.elim [] h.chain := by
  cases around with
  | none => rfl
  | some o => exact chain_enclose_of_lt h outer (haround o rfl)

theorem getElem?_enclose_self (h : ScopeHistory n) (outer : Option (Fin n)) :
    (h.enclose outer).world.scopes[n]? = some ⟨outer.map Fin.val, []⟩ := by
  have hnew : (h.enclose outer).world.scopes[h.world.scopes.size]? = some ⟨outer.map Fin.val, []⟩ :=
    Array.getElem?_push_size
  rwa [h.size_scopes] at hnew

theorem exists_scope (h : ScopeHistory n) (hid : id < n) :
    ∃ around : Option ScopeId, h.world.scopes[id]? = some ⟨around, .ofList (h.settings id)⟩ ∧
      (∀ o ∈ around, o < id) ∧ h.chain id = id :: around.elim [] h.chain := by
  induction h with
  | start => cases hid
  | @enclose n h outer ih =>
    rcases Nat.lt_succ_iff_lt_or_eq.1 hid with hid | rfl
    · obtain ⟨around, hscope, hyounger, hchain⟩ := ih hid
      refine ⟨around, ?_, hyounger, ?_⟩
      · exact ((World.Keeps.addScope ..).same id (h.size_scopes.symm ▸ hid)).trans hscope
      · rw [chain_enclose_of_lt h outer hid, hchain,
          elim_chain_enclose h outer fun o ho => Nat.lt_trans (hyounger o ho) hid]
    · have hyounger : ∀ o ∈ outer.map Fin.val, o < id := by
        rintro o ho
        obtain ⟨o, -, rfl⟩ := Option.map_eq_some_iff.1 ho
        exact o.isLt
      refine ⟨outer.map Fin.val, ?_, hyounger, ?_⟩
      · rw [getElem?_enclose_self, settings, h.settings_of_le (Nat.le_refl _)]
        rfl
      · rw [elim_chain_enclose h outer hyounger, chain, if_pos rfl]
        cases outer <;> rfl
  | set h scope name v ih =>
    obtain ⟨around, hscope, hyounger, hchain⟩ := ih hid
    refine ⟨around, ?_, hyounger, hchain⟩
    rw [settings, world, World.set, Array.getElem?_modify, hscope]
    split
    · rw [OrderedMap.ofList_concat]
      rfl
    · rfl

/-! ### Scopes around each other -/

theorem bindings_chain (h : ScopeHistory n) (id : ScopeId) :
    (h.world.chain id).map Scope.bindings = (h.chain id).map fun scope => .ofList (h.settings scope) := by
  -- the scope around a scope is older
  induction id using Nat.strongRecOn with
  | ind id ih =>
    by_cases hid : id < n
    · obtain ⟨outer, hscope, hyounger, hchain⟩ := h.exists_scope hid
      rw [World.chain, hscope, hchain]
      cases outer with
      | none => rfl
      | some o =>
        have ho : o < id := hyounger o rfl
        simp only [if_pos ho, List.map_cons, ih o ho, Option.elim_some]
    · have hnone : h.world.scopes[id]? = none := Array.getElem?_eq_none (h.size_scopes.symm ▸ Nat.le_of_not_lt hid)
      rw [World.chain, hnone, h.chain_of_le (Nat.le_of_not_lt hid)]
      rfl

/-- A name has the value that it was last given in the nearest scope in which it was set. -/
theorem get?_eq (h : ScopeHistory n) (id : ScopeId) (name : String) :
    h.world.get? id name = (h.chain id).findSome? fun scope => h.last? scope name :=
  calc h.world.get? id name
    _ = ((h.world.chain id).map Scope.bindings).findSome? fun m => OrderedMap.get? m name := by
      rw [List.findSome?_map]
      rfl
    _ = (h.chain id).findSome? fun scope => OrderedMap.get? (.ofList (h.settings scope)) name := by
      rw [bindings_chain, List.findSome?_map]
      rfl
    _ = (h.chain id).findSome? fun scope => h.last? scope name := by
      simp only [OrderedMap.get?_ofList, last?]

theorem names_eq (h : ScopeHistory n) (id : ScopeId) :
    h.world.names id = ((h.chain id).flatMap fun scope => (h.namesSet scope).eraseDups).eraseDups :=
  calc h.world.names id
    _ = (((h.world.chain id).map Scope.bindings).flatMap OrderedMap.keys).eraseDups := by
      rw [List.flatMap_map]
      rfl
    _ = ((h.chain id).flatMap fun scope => OrderedMap.keys (.ofList (h.settings scope))).eraseDups := by
      rw [bindings_chain, List.flatMap_map]
    _ = ((h.chain id).flatMap fun scope => (h.namesSet scope).eraseDups).eraseDups := by
      simp only [OrderedMap.keys_ofList, namesSet]

/-! ### Settings -/

theorem last?_eq_none_iff (h : ScopeHistory n) (id : ScopeId) (name : String) :
    h.last? id name = none ↔ name ∉ h.namesSet id := by
  rw [last?, Option.map_eq_none_iff, List.getLast?_eq_none_iff, List.filter_eq_nil_iff, namesSet, OrderedMap.keys,
    List.mem_map, not_exists]
  simp

theorem last?_set (h : ScopeHistory n) (scope : Fin n) (name : String) (v : Value) (id : ScopeId) (other : String) :
    (h.set scope name v).last? id other = if scope = id ∧ name = other then some v else h.last? id other := by
  rw [last?, settings]
  by_cases hscope : scope = id
  · by_cases hname : name = other <;> simp [hscope, hname, last?]
  · simp [hscope, last?]

theorem get?_set_of_sees (h : ScopeHistory n) {scope : Fin n} (hsees : h.Sees id scope name) (v : Value) :
    (h.set scope name v).world.get? id name = some v := by
  obtain ⟨inner, outer, hchain, hunset⟩ := hsees
  have hset : (h.set scope name v).last? scope name = some v := by
    rw [last?_set, if_pos ⟨rfl, rfl⟩]
  rw [get?_eq, chain, hchain, List.findSome?_append, List.findSome?_cons, hset]
  -- nothing is found before the scope, unless it is met twice
  cases hfound : inner.findSome? fun s => (h.set scope name v).last? s name with
  | none => rfl
  | some u =>
    obtain ⟨nearer, hnearer, hu⟩ := List.exists_of_findSome?_eq_some hfound
    rw [last?_set, (h.last?_eq_none_iff nearer name).2 (hunset nearer hnearer)] at hu
    split at hu
    · exact hu.symm
    · cases hu

theorem get?_set_of_not_sees (h : ScopeHistory n) {scope : Fin n} {other : String}
    (hsees : other = name → ¬ h.Sees id scope name) (v : Value) :
    (h.set scope name v).world.get? id other = h.world.get? id other := by
  rw [get?_eq, get?_eq, chain]
  by_cases hname : other = name
  · subst hname
    refine findSome?_eq_of_behind (a := scope) (fun s hs => ?_) fun inner outer hchain => ?_
    · rw [last?_set, if_neg fun h => hs h.1.symm]
    · by_contra hnone
      refine hsees rfl ⟨inner, outer, hchain, fun nearer hnearer => (h.last?_eq_none_iff nearer other).1 ?_⟩
      by_contra hset
      exact hnone ⟨nearer, hnearer, hset⟩
  · simp only [last?_set, if_neg fun h : _ ∧ name = other => hname h.2.symm]

/-! ### Names -/

theorem mem_names_iff (h : ScopeHistory n) (id : ScopeId) (name : String) :
    name ∈ h.world.names id ↔ h.world.get? id name ≠ none := by
  rw [names_eq, get?_eq, List.mem_eraseDups, List.mem_flatMap, Ne, List.findSome?_eq_none_iff]
  simp [last?_eq_none_iff]

theorem pairwise_names (h : ScopeHistory n) (id : ScopeId) :
    (h.world.names id).Pairwise fun a b => a ≠ b ∧ h.Precedes id a b := by
  rw [names_eq]
  refine (pairwise_eraseDups _).imp fun {a b} hab => ?_
  obtain ⟨hne, before, after, hnames, ha, hb⟩ := hab
  obtain ⟨inner, scope, outer, front, back, hchain, hscope, rfl⟩ := exists_of_flatMap_eq hnames
  rw [List.mem_append, not_or, List.mem_flatMap, not_exists] at ha hb
  refine ⟨hne, inner, scope, outer, hchain, fun nearer hnearer => ⟨fun hset => ?_, fun hset => ?_⟩,
    exists_of_eraseDups_eq hscope hb.2 hne⟩
  · exact ha.1 nearer ⟨hnearer, List.mem_eraseDups.2 hset⟩
  · exact hb.1 nearer ⟨hnearer, List.mem_eraseDups.2 hset⟩

/-! ### Scopes of calls -/

theorem world_setAll (h : ScopeHistory n) (scope : Fin n) (pairs : List (String × Value)) :
    (h.setAll scope pairs).world = pairs.foldl (fun w pair => w.set scope pair.1 pair.2) h.world := by
  induction pairs generalizing h with
  | nil => rfl
  | cons pair pairs ih => exact ih _

/-- The scope of a call, which has its bindings from the start, is one in which they are set in turn. -/
theorem world_enclose_setAll (h : ScopeHistory n) (outer : Option (Fin n)) (pairs : List (String × Value)) :
    ((h.enclose outer).setAll (Fin.last n) pairs).world =
      (h.world.addScope (outer.map Fin.val) (.ofList pairs)).2 := by
  induction pairs using List.reverseRecOn with
  | nil => rfl
  | append_singleton pairs pair ih =>
    rw [world_setAll] at ih ⊢
    rw [List.foldl_append, ih, OrderedMap.ofList_concat, ← World.set_addScope, h.size_scopes]
    rfl

end ScopeHistory

/--
However scopes are made in each other and names are set in them, the scopes behave as nested maps.  A name has the
value that it was last given in the nearest scope in which it was set, and none if there is no such scope.  A further
setting is seen in its scope and in those inside it in which no nearer scope has the name, and changes nothing else.
The names of a scope are those with a value, each once, nearer scopes first and in a scope in the order in which they
were set first; and the scope contains exactly these.  The scopes of calls come about in the same way.
-/
theorem scopes_are_nested_maps {n : Nat} (h : ScopeHistory n) :
    (∀ id name, h.world.get? id name = (h.chain id).findSome? fun scope => h.last? scope name) ∧
    (∀ (scope : Fin n) name v id,
      (h.Sees id scope name → (h.world.set scope name v).get? id name = some v) ∧
      ∀ other, (other = name → ¬ h.Sees id scope name) →
        (h.world.set scope name v).get? id other = h.world.get? id other) ∧
    (∀ id, (h.world.names id).Nodup ∧
      (∀ name, name ∈ h.world.names id ↔ h.world.get? id name ≠ none) ∧
      (h.world.names id).Pairwise (h.Precedes id)) ∧
    (∀ id name, h.world.contains id name = true ↔ name ∈ h.world.names id) ∧
    ∀ outer pairs, (h.world.addScope (outer.map Fin.val) (.ofList pairs)).2 =
      ((h.enclose outer).setAll (Fin.last n) pairs).world := by
  refine ⟨h.get?_eq, fun scope name v id => ⟨fun hsees => ?_, fun other hsees => ?_⟩, fun id => ⟨?_, ?_, ?_⟩,
    fun id name => ?_, fun outer pairs => (h.world_enclose_setAll outer pairs).symm⟩
  · exact h.get?_set_of_sees hsees v
  · exact h.get?_set_of_not_sees hsees v
  · exact (h.pairwise_names id).imp And.left
  · exact h.mem_names_iff id
  · exact (h.pairwise_names id).imp And.right
  · rw [World.contains, h.mem_names_iff, Option.isSome_iff_ne_none]

/-- A new value in the scope around them is seen in the scope that lacks the name, and not in the one that has it. -/
theorem scopes_are_nested_maps_of_hidden :
    let h : ScopeHistory 3 := ((((ScopeHistory.start.enclose none).set 0 "x" (.integer 1)).enclose (some 0)).enclose
      (some 0)).set 2 "x" (.integer 2)
    h.Sees 1 0 "x" ∧ (h.world.set 0 "x" (.integer 3)).get? 1 "x" = some (.integer 3) ∧
      ¬ h.Sees 2 0 "x" ∧ (h.world.set 0 "x" (.integer 3)).get? 2 "x" = h.world.get? 2 "x" := by
  intro h
  have hseen : h.Sees 1 0 "x" := by
    refine ⟨[1], [], rfl, fun nearer hnearer => ?_⟩
    rw [List.mem_singleton.1 hnearer]
    decide
  have hhidden : ¬ h.Sees 2 0 "x" := by
    rintro ⟨inner, outer, hchain, hunset⟩
    cases inner with
    | nil => cases hchain
    | cons nearer inner =>
      injection hchain with hnearer
      exact hunset nearer (List.mem_cons_self ..) (hnearer ▸ by decide)
  obtain ⟨-, hset, -⟩ := scopes_are_nested_maps h
  exact ⟨hseen, (hset 0 "x" (.integer 3) 1).1 hseen, hhidden, (hset 0 "x" (.integer 3) 2).2 "x" fun _ => hhidden⟩

end MonkeyLanguage
