import Mathlib.Data.List.Perm.Subperm
import Mathlib.Data.Option.Basic
import MonkeyLanguage.Proofs.Parts
import MonkeyLanguage.Value.Operators

/-!
# Equality is a congruence

The operator `==` is an equivalence on values, and equal values are alike in all that indexing can see of them
(`equality_is_congruence`).

Equality looks at one layer of two values and then at their parts (`Alike`).  An array and a hash are maps there, from
positions and from keys, so that the order of the entries of a hash does not count.  For this the keys of a hash have
to be distinct, as those of every hash are that a program makes (`KeysDistinct`).
-/

namespace MonkeyLanguage.Value

variable {a b c i j : Value} {as bs : List Value} {ps qs : List (HashKey × Value)} {p q r : Value → Value → Prop}

/-- The operator `==` holds of the values. -/
def Equals (a b : Value) : Prop :=
  applyBinary "==" a b = .boolean true

/-- A hash is a map: no key occurs twice. -/
def KeysDistinct : Value → Prop
  | hash pairs => (OrderedMap.keys pairs).Nodup
  | _ => True

/-! ## One layer -/

theorem eq_none_iff_of_rel {x y : Option Value} (h : Option.Rel p x y) : x = none ↔ y = none := by
  cases h with
  | some _ => exact ⟨nofun, nofun⟩
  | none => exact Iff.rfl

theorem exists_of_rel_some {x : Option Value} (h : Option.Rel p x (some b)) : ∃ a, x = some a ∧ p a b := by
  cases h with
  | some h => exact ⟨_, rfl, h⟩

/-- The values are equal if `p` says so of their parts. -/
inductive Alike (p : Value → Value → Prop) : Value → Value → Prop where
  | null : Alike p null null
  | integer (n : Int) : Alike p (integer n) (integer n)
  | boolean (x : Bool) : Alike p (boolean x) (boolean x)
  | string (s : String) : Alike p (string s) (string s)
  | array {as bs : List Value} (h : ∀ n : Nat, Option.Rel p as[n]? bs[n]?) : Alike p (array as) (array bs)
  | hash {ps qs : List (HashKey × Value)}
    (h : ∀ k, Option.Rel p (OrderedMap.get? ps k) (OrderedMap.get? qs k)) : Alike p (hash ps) (hash qs)
  | function (identity : Nat) {parameters parameters' : List String} {body body' : Node} {scope scope' : ScopeId} :
    Alike p (function identity parameters body scope) (function identity parameters' body' scope')
  | builtin (b : Builtin) : Alike p (builtin b) (builtin b)
  | returned {a b : Value} (h : p a b) : Alike p (returned a) (returned b)
  | error {e e' : RuntimeError} (h : e.message = e'.message) : Alike p (error e) (error e')

theorem sameElements_iff :
    sameElements as bs = true ↔ ∀ n : Nat, Option.Rel (fun a b => same a b = true) as[n]? bs[n]? := by
  induction as generalizing bs with
  | nil =>
    cases bs with
    | nil => exact ⟨fun _ _ => .none, fun _ => rfl⟩
    | cons b bs => exact ⟨nofun, fun h => nomatch h 0⟩
  | cons a as ih =>
    cases bs with
    | nil => exact ⟨nofun, fun h => nomatch h 0⟩
    | cons b bs =>
      rw [sameElements, Bool.and_eq_true, ih]
      constructor
      · rintro ⟨hhead, htail⟩ (_ | n)
        · exact .some hhead
        · exact htail n
      · intro h
        refine ⟨?_, fun n => h (n + 1)⟩
        cases h 0 with
        | some hhead => exact hhead

theorem sameEntries_iff :
    sameEntries ps qs = true ↔ ∀ k b, (k, b) ∈ qs → ∃ a, (k, a) ∈ ps ∧ same a b = true := by
  induction qs with
  | nil => simp [sameEntries]
  | cons entry qs ih =>
    obtain ⟨k, b⟩ := entry
    rw [sameEntries, Bool.and_eq_true, ih, List.any_eq_true]
    constructor
    · rintro ⟨⟨⟨k', a⟩, hmem, hsame⟩, htail⟩ k₀ b₀ h
      rcases List.mem_cons.1 h with heq | h
      · obtain ⟨rfl, rfl⟩ := Prod.mk.inj heq
        rw [Bool.and_eq_true, beq_iff_eq] at hsame
        obtain ⟨rfl, hsame⟩ := hsame
        exact ⟨a, hmem, hsame⟩
      · exact htail k₀ b₀ h
    · intro h
      refine ⟨?_, fun k₀ b₀ h₀ => h k₀ b₀ (List.mem_cons_of_mem _ h₀)⟩
      obtain ⟨a, hmem, hsame⟩ := h k b (List.mem_cons_self ..)
      exact ⟨(k, a), hmem, by rw [hsame, beq_self_eq_true, Bool.and_self]⟩

/-- Maps of one size agree if the one has each key of the other: then neither has a key more. -/
theorem same_hash_iff (hps : (OrderedMap.keys ps).Nodup) (hqs : (OrderedMap.keys qs).Nodup) :
    same (hash ps) (hash qs) = true ↔
      ∀ k, Option.Rel (fun a b => same a b = true) (OrderedMap.get? ps k) (OrderedMap.get? qs k) := by
  have hlength (m : List (HashKey × Value)) : (OrderedMap.keys m).length = m.length := List.length_map _
  rw [same, Bool.and_eq_true, beq_iff_eq, sameEntries_iff, ← hlength, ← hlength]
  constructor
  · rintro ⟨hsize, hentries⟩ k
    have hsubset : OrderedMap.keys qs ⊆ OrderedMap.keys ps := by
      intro k hk
      obtain ⟨⟨_, b⟩, hmem, rfl⟩ := List.mem_map.1 hk
      obtain ⟨a, ha, -⟩ := hentries _ b hmem
      exact List.mem_map.2 ⟨_, ha, rfl⟩
    have hperm := (hqs.subperm hsubset).perm_of_length_le (Nat.le_of_eq hsize)
    cases hb : OrderedMap.get? qs k with
    | none =>
      rw [OrderedMap.get?_eq_none_iff, hperm.mem_iff, ← OrderedMap.get?_eq_none_iff] at hb
      rw [hb]
      exact .none
    | some b =>
      obtain ⟨a, ha, hsame⟩ := hentries k b (OrderedMap.mem_of_get? hb)
      rw [(OrderedMap.get?_eq_some_iff hps).2 ha]
      exact .some hsame
  · intro h
    have hmem (k : HashKey) : k ∈ OrderedMap.keys ps ↔ k ∈ OrderedMap.keys qs := by
      rw [← not_iff_not, ← OrderedMap.get?_eq_none_iff, ← OrderedMap.get?_eq_none_iff]
      exact eq_none_iff_of_rel (h k)
    refine ⟨((List.perm_ext_iff_of_nodup hps hqs).2 hmem).length_eq, fun k b hb => ?_⟩
    have hk := h k
    rw [(OrderedMap.get?_eq_some_iff hqs).2 hb] at hk
    obtain ⟨a, ha, hsame⟩ := exists_of_rel_some hk
    exact ⟨a, OrderedMap.mem_of_get? ha, hsame⟩

theorem same_iff_alike (ha : a.KeysDistinct) (hb : b.KeysDistinct) :
    same a b = true ↔ Alike (fun a b => same a b = true) a b := by
  constructor
  · intro h
    cases a <;> cases b
    case null.null => exact .null
    case integer.integer => exact beq_iff_eq.1 h ▸ .integer _
    case boolean.boolean => exact beq_iff_eq.1 h ▸ .boolean _
    case string.string => exact beq_iff_eq.1 h ▸ .string _
    case array.array => exact .array (sameElements_iff.1 h)
    case hash.hash => exact .hash ((same_hash_iff ha hb).1 h)
    case function.function => exact beq_iff_eq.1 h ▸ .function _
    case builtin.builtin => exact beq_iff_eq.1 h ▸ .builtin _
    case returned.returned => exact .returned h
    case error.error => exact .error (beq_iff_eq.1 h)
    all_goals cases h
  · intro h
    cases h with
    | array h => exact sameElements_iff.2 h
    | hash h => exact (same_hash_iff ha hb).2 h
    | returned h => exact h
    | error h => exact beq_iff_eq.2 h
    | function identity => exact beq_self_eq_true identity
    | _ => exact same_refl _

theorem mem_parts_of_getElem? {v : Value} {n : Nat} (h : as[n]? = some v) : v ∈ (array as).parts :=
  List.mem_of_getElem? h

theorem mem_parts_of_get? {v : Value} {k : HashKey} (h : OrderedMap.get? ps k = some v) : v ∈ (hash ps).parts :=
  value_mem_parts (OrderedMap.mem_of_get? h)

theorem rel_flip {x y : Option Value} (h : Option.Rel p x y)
    (himp : ∀ v w, x = some v → y = some w → p v w → q w v) : Option.Rel q y x := by
  cases h with
  | some h => exact .some (himp _ _ rfl rfl h)
  | none => exact .none

theorem rel_comp {x y z : Option Value} (h : Option.Rel p x y) (h' : Option.Rel q y z)
    (himp : ∀ u v w, x = some u → y = some v → z = some w → p u v → q v w → r u w) : Option.Rel r x z := by
  cases h with
  | some h =>
    cases h' with
    | some h' => exact .some (himp _ _ _ rfl rfl rfl h h')
  | none =>
    cases h'
    exact .none

theorem Alike.flip (h : Alike p a b) (himp : ∀ v ∈ a.parts, ∀ w ∈ b.parts, p v w → q w v) : Alike q b a := by
  cases h with
  | array h =>
    exact .array fun n => rel_flip (h n) fun v w hv hw =>
      himp v (mem_parts_of_getElem? hv) w (mem_parts_of_getElem? hw)
  | hash h =>
    exact .hash fun k => rel_flip (h k) fun v w hv hw => himp v (mem_parts_of_get? hv) w (mem_parts_of_get? hw)
  | returned h => exact .returned (himp _ (List.mem_singleton_self _) _ (List.mem_singleton_self _) h)
  | error h => exact .error h.symm
  | _ => constructor

theorem Alike.comp (h : Alike p a b) (h' : Alike q b c)
    (himp : ∀ u ∈ a.parts, ∀ v ∈ b.parts, ∀ w ∈ c.parts, p u v → q v w → r u w) : Alike r a c := by
  cases h with
  | array h =>
    cases h' with
    | array h' =>
      exact .array fun n => rel_comp (h n) (h' n) fun u v w hu hv hw =>
        himp u (mem_parts_of_getElem? hu) v (mem_parts_of_getElem? hv) w (mem_parts_of_getElem? hw)
  | hash h =>
    cases h' with
    | hash h' =>
      exact .hash fun k => rel_comp (h k) (h' k) fun u v w hu hv hw =>
        himp u (mem_parts_of_get? hu) v (mem_parts_of_get? hv) w (mem_parts_of_get? hw)
  | returned h =>
    cases h' with
    | returned h' =>
      have hself (v : Value) : v ∈ (Value.returned v).parts := List.mem_singleton_self v
      exact .returned (himp _ (hself _) _ (hself _) _ (hself _) h h')
  | error h =>
    cases h' with
    | error h' => exact .error (h.trans h')
  | _ =>
    cases h'
    constructor

/-! ## An equivalence -/

theorem same_symm (ha : a.Every KeysDistinct) (hb : b.Every KeysDistinct) (h : same a b = true) :
    same b a = true := by
  induction ha generalizing b with
  | intro self parts ih =>
    refine (same_iff_alike hb.self self).2 (((same_iff_alike self hb.self).1 h).flip fun v hv w hw => ?_)
    exact ih v hv (hb.of_mem_parts hw)

theorem same_trans (ha : a.Every KeysDistinct) (hb : b.Every KeysDistinct) (hc : c.Every KeysDistinct)
    (h : same a b = true) (h' : same b c = true) : same a c = true := by
  induction ha generalizing b c with
  | intro self parts ih =>
    have hab := (same_iff_alike self hb.self).1 h
    have hbc := (same_iff_alike hb.self hc.self).1 h'
    refine (same_iff_alike self hc.self).2 (hab.comp hbc fun u hu v hv w hw => ?_)
    exact ih u hu (hb.of_mem_parts hv) (hc.of_mem_parts hw)

/-! ## Indexing -/

theorem Alike.type_eq (h : Alike p a b) : a.type = b.type := by
  cases h <;> rfl

theorem Alike.hashKey?_eq (h : Alike p a b) : a.hashKey? = b.hashKey? := by
  cases h <;> rfl

theorem applyIndex_array_of_type_ne (as : List Value) (h : i.type ≠ .integer) :
    (array as).applyIndex i = .error (.notIndexable .array i.type) := by
  cases i with
  | integer n => exact absurd rfl h
  | _ => rfl

theorem applyIndex_of_type_ne (harray : a.type ≠ .array) (hhash : a.type ≠ .hash) (i : Value) :
    a.applyIndex i = .error (.notIndexable a.type i.type) := by
  cases a with
  | array as => exact absurd rfl harray
  | hash ps => exact absurd rfl hhash
  | _ => rfl

theorem same_getD {x y : Option Value} (h : Option.Rel (fun a b => same a b = true) x y) :
    same (x.getD null) (y.getD null) = true := by
  cases h with
  | some h => exact h
  | none => exact same_refl null

theorem same_applyIndex (hab : Alike (fun a b => same a b = true) a b) (hij : Alike (fun a b => same a b = true) i j) :
    same (a.applyIndex i) (b.applyIndex j) = true := by
  cases hab with
  | @array as bs h =>
    by_cases hinteger : i.type = .integer
    · cases hij with
      | integer n =>
        simp only [applyIndex]
        split
        · exact same_refl null
        · exact same_getD (h n.toNat)
      | _ => cases hinteger
    · rw [applyIndex_array_of_type_ne as hinteger, applyIndex_array_of_type_ne bs (hij.type_eq ▸ hinteger),
        hij.type_eq]
      exact same_refl _
  | hash h =>
    simp only [applyIndex, hij.hashKey?_eq, hij.type_eq]
    split
    · exact same_getD (h _)
    · exact same_refl _
  | _ =>
    rw [applyIndex_of_type_ne ValueType.noConfusion ValueType.noConfusion,
      applyIndex_of_type_ne ValueType.noConfusion ValueType.noConfusion, hij.type_eq]
    exact same_refl _

/-! ## The operator -/

theorem applyBinary_equality (a b : Value) :
    applyBinary "==" a b = .boolean (a == b) ∧ applyBinary "!=" a b = .boolean !(a == b) := by
  rw [beq_eq_same]
  unfold applyBinary
  split
  · exact ⟨rfl, rfl⟩
  · exact ⟨rfl, rfl⟩
  · rw [if_pos rfl, if_neg (by decide), if_pos rfl, beq_eq_same]
    exact ⟨rfl, rfl⟩

theorem equals_iff : Equals a b ↔ same a b = true := by
  rw [Equals, (applyBinary_equality a b).1, boolean.injEq, beq_eq_same]

theorem equals_hash_iff (hps : (OrderedMap.keys ps).Nodup) (hqs : (OrderedMap.keys qs).Nodup) :
    Equals (hash ps) (hash qs) ↔ (∀ k, k ∈ OrderedMap.keys ps ↔ k ∈ OrderedMap.keys qs) ∧
      ∀ k v w, OrderedMap.get? ps k = some v → OrderedMap.get? qs k = some w → Equals v w := by
  simp only [equals_iff, same_hash_iff hps hqs]
  constructor
  · intro h
    refine ⟨fun k => ?_, fun k v w hv hw => ?_⟩
    · rw [← not_iff_not, ← OrderedMap.get?_eq_none_iff, ← OrderedMap.get?_eq_none_iff]
      exact eq_none_iff_of_rel (h k)
    · have hk := h k
      rw [hv, hw] at hk
      cases hk with
      | some h => exact h
  · rintro ⟨hkeys, hvalues⟩ k
    have hnone : OrderedMap.get? ps k = none ↔ OrderedMap.get? qs k = none := by
      rw [OrderedMap.get?_eq_none_iff, OrderedMap.get?_eq_none_iff, hkeys]
    cases hv : OrderedMap.get? ps k with
    | none =>
      rw [hnone.1 hv]
      exact .none
    | some v =>
      cases hw : OrderedMap.get? qs k with
      | none => exact absurd (hnone.2 hw) (by rw [hv]; exact Option.some_ne_none v)
      | some w => exact .some (hvalues k v w hv hw)

/-- The operator `==` gives a boolean for all values, and `!=` the other one; the answer is that of the comparison of
values.  It is an equivalence that keeps types apart.  Hashes are equal if they have the same keys with equal values, in
whatever order, and what is equal gives equal results at equal indices. -/
theorem equality_is_congruence (ha : a.Every KeysDistinct) (hb : b.Every KeysDistinct) (hc : c.Every KeysDistinct) :
    (applyBinary "==" a b = .boolean (a == b) ∧ applyBinary "!=" a b = .boolean !(a == b)) ∧
    (Equals a a ∧ (Equals a b → Equals b a) ∧ (Equals a b → Equals b c → Equals a c)) ∧
    (Equals a b → a.type = b.type) ∧
    (∀ ps qs, a = .hash ps → b = .hash qs →
      (Equals a b ↔ (∀ k, k ∈ OrderedMap.keys ps ↔ k ∈ OrderedMap.keys qs) ∧
        ∀ k v w, OrderedMap.get? ps k = some v → OrderedMap.get? qs k = some w → Equals v w)) ∧
    (Equals a b → ∀ i j : Value, i.Every KeysDistinct → j.Every KeysDistinct → Equals i j →
      Equals (a.applyIndex i) (b.applyIndex j)) := by
  refine ⟨applyBinary_equality a b, ⟨equals_iff.2 (same_refl a), fun h => ?_, fun h h' => ?_⟩, fun h => ?_, ?_, ?_⟩
  · exact equals_iff.2 (same_symm ha hb (equals_iff.1 h))
  · exact equals_iff.2 (same_trans ha hb hc (equals_iff.1 h) (equals_iff.1 h'))
  · exact ((same_iff_alike ha.self hb.self).1 (equals_iff.1 h)).type_eq
  · rintro ps qs rfl rfl
    exact equals_hash_iff ha.self hb.self
  · intro h i j hi hj hij
    exact equals_iff.2 (same_applyIndex ((same_iff_alike ha.self hb.self).1 (equals_iff.1 h))
      ((same_iff_alike hi.self hj.self).1 (equals_iff.1 hij)))

/-- The same entries in another order, and what both hold under a key. -/
theorem equality_of_reordered_entries :
    let a := hash [(.integer 1, array [boolean true]), (.string "k", integer 2)]
    let b := hash [(.string "k", integer 2), (.integer 1, array [boolean true])]
    Equals a b ∧ Equals b a ∧ Equals (a.applyIndex (integer 1)) (b.applyIndex (integer 1)) := by
  intro a b
  have hinteger (n : Int) : (integer n).Every KeysDistinct := .of_atom trivial rfl
  have hstring (s : String) : (string s).Every KeysDistinct := .of_atom trivial rfl
  have harray : (array [boolean true]).Every KeysDistinct :=
    ⟨trivial, List.forall_mem_singleton.2 (.of_atom trivial rfl)⟩
  have ha : a.Every KeysDistinct := by
    refine ⟨show List.Nodup _ by decide, List.forall_mem_cons.2 ⟨hinteger 1, List.forall_mem_cons.2 ⟨harray, ?_⟩⟩⟩
    exact List.forall_mem_cons.2 ⟨hstring "k", List.forall_mem_singleton.2 (hinteger 2)⟩
  have hb : b.Every KeysDistinct := by
    refine ⟨show List.Nodup _ by decide, List.forall_mem_cons.2 ⟨hstring "k", List.forall_mem_cons.2 ⟨hinteger 2, ?_⟩⟩⟩
    exact List.forall_mem_cons.2 ⟨hinteger 1, List.forall_mem_singleton.2 harray⟩
  have hab : Equals a b := equals_iff.2 (by decide)
  obtain ⟨-, ⟨-, hsymm, -⟩, -, -, hindex⟩ := equality_is_congruence ha hb ha
  exact ⟨hab, hsymm hab, hindex hab _ _ (hinteger 1) (hinteger 1) (equals_iff.2 (by decide))⟩

end MonkeyLanguage.Value
