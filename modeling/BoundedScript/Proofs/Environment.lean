import BoundedScript.Environment
import BoundedScript.Proofs.Binary64.Exact
import Mathlib.Data.Finset.Card

/-!
# An environment is its last writes

An environment comes about by writes, one after the other, and each of them either overwrites a
binding or adds one. What is left of the history is the last write to each name. Two histories that
agree in this give environments that compare equal, although the comparison only counts bindings and
looks up the names of one side on the other.
-/

namespace BoundedScript

/-! ### Equality of contents -/

theorem Binary64.signedUnits_eq_iff {s t : Bool} {m n : ℕ} :
    signedUnits s m = signedUnits t n ↔ (s = t ∧ m = n) ∨ (m = 0 ∧ n = 0) := by
  cases s <;> cases t <;> simp only [signedUnits_true, signedUnits_false, true_and, false_and,
    reduceCtorEq, false_or] <;> omega

theorem Binary64.Quantity.compare?_eq_some_eq (q r : Quantity) :
    q.compare? r = some .eq ↔ q = r ∧ q ≠ .nan := by
  cases q with
  | nan => simp [compare?]
  | infinite s => cases r <;> cases s <;> simp [compare?]
  | units m =>
    cases r with
    | nan => simp [compare?]
    | infinite t => cases t <;> simp [compare?]
    | units n => simp [compare?]

theorem Binary64.quantity_eq_iff (x y : Binary64) :
    x.quantity = y.quantity ↔ x = y ∨ ∃ s t, x = zero s ∧ y = zero t := by
  cases x with
  | nan => cases y <;> simp [quantity, zero]
  | infinite s => cases y <;> simp [quantity, zero]
  | finite s m hm => cases y <;> simp [quantity, zero, signedUnits_eq_iff]

/-- Numbers are equal by value if they are the same number, or zeros of any sign. -/
theorem Binary64.sameValue_iff (x y : Binary64) :
    x.sameValue y = true ↔ (x = y ∧ x ≠ .nan) ∨ ∃ s t, x = zero s ∧ y = zero t := by
  have hnan : x.quantity ≠ .nan ↔ x ≠ .nan := by cases x <;> simp [quantity]
  rw [sameValue, beq_iff_eq, compare?, Quantity.compare?_eq_some_eq, quantity_eq_iff, hnan]
  constructor
  · rintro ⟨rfl | hzeros, hx⟩
    · exact .inl ⟨rfl, hx⟩
    · exact .inr hzeros
  · rintro (⟨rfl, hx⟩ | ⟨s, t, rfl, rfl⟩)
    · exact ⟨.inl rfl, hx⟩
    · exact ⟨.inr ⟨s, t, rfl, rfl⟩, by simp [zero]⟩

theorem Value.same_iff (v w : Value) :
    v.same w = true ↔
      (v = w ∧ v ≠ .real .nan) ∨ ∃ s t, v = .real (.zero s) ∧ w = .real (.zero t) := by
  cases v with
  | integer a => cases w <;> simp [same]
  | boolean a => cases w <;> simp [same]
  | real x =>
    cases w with
    | integer b => simp [same]
    | boolean b => simp [same]
    | real y => simp [same, Binary64.sameValue_iff]

namespace Environment

/-! ### Names and bindings -/

/-- The bound names. -/
def names (env : Environment) : Finset String := env.bindings.keys.toFinset

variable (env other : Environment) (name : String)

theorem mem_names : name ∈ env.names ↔ env.contains name = true := by
  rw [names, List.mem_toFinset, Std.ExtTreeMap.mem_keys, Std.ExtTreeMap.mem_iff_contains, contains]

theorem mem_names_iff_get? : name ∈ env.names ↔ ∃ v, env.get? name = some v := by
  rw [mem_names, contains_eq_isSome, Option.isSome_iff_exists]

theorem card_names : env.names.card = env.size := by
  rw [names, List.toFinset_card_of_nodup Std.ExtTreeMap.nodup_keys, Std.ExtTreeMap.length_keys, size]

theorem isEmpty_iff_names : env.isEmpty = true ↔ env.names = ∅ := by
  rw [← Finset.card_eq_zero, card_names, isEmpty, Std.ExtTreeMap.isEmpty_eq_size_beq_zero,
    beq_iff_eq, size]

theorem all_bindings (p : String → Value → Bool) :
    env.bindings.all p = true ↔ ∀ name v, env.get? name = some v → p name v = true := by
  have hlist : env.bindings.all p = env.bindings.toList.all fun binding => p binding.1 binding.2 := by
    obtain ⟨⟨bindings⟩⟩ := env
    induction bindings using Std.ExtDTreeMap.inductionOn with
    | _ tree =>
      change Std.DTreeMap.Internal.Impl.all tree.inner p =
        (Std.DTreeMap.Internal.Impl.Const.toList tree.inner).all _
      rw [Std.DTreeMap.Internal.Impl.all_eq_all_toListModel,
        Std.DTreeMap.Internal.Impl.Const.toList_eq_toListModel_map, List.all_map]
      rfl
  rw [hlist, List.all_eq_true]
  simp only [Prod.forall, Std.ExtTreeMap.mem_toList_iff_getElem?_eq_some, get?]

/-- As many names on both sides, and all names of one side on the other, leave no name that only the
other side has. -/
theorem names_eq_of_subset (hsize : env.size = other.size) (hsub : env.names ⊆ other.names) :
    env.names = other.names := by
  apply Finset.eq_of_subset_of_card_le hsub
  rw [card_names, card_names, hsize]

theorem same_iff :
    env.same other = true ↔
      env.names = other.names ∧
        ∀ name v w, env.get? name = some v → other.get? name = some w → v.same w = true := by
  have hany (name : String) (v : Value) :
      (other.get? name).any v.same = true ↔ ∃ w, other.get? name = some w ∧ v.same w = true :=
    Option.any_eq_true ..
  rw [same, Bool.and_eq_true, beq_iff_eq, all_bindings]
  simp only [hany]
  constructor
  · rintro ⟨hsize, hall⟩
    have hsub : env.names ⊆ other.names := by
      intro name hname
      obtain ⟨v, hv⟩ := (env.mem_names_iff_get? name).mp hname
      obtain ⟨w, hw, -⟩ := hall name v hv
      exact (other.mem_names_iff_get? name).mpr ⟨w, hw⟩
    refine ⟨names_eq_of_subset env other hsize hsub, ?_⟩
    intro name v w hv hw
    obtain ⟨w', hw', hsame⟩ := hall name v hv
    cases hw.symm.trans hw'
    exact hsame
  · rintro ⟨hnames, hall⟩
    refine ⟨by rw [← card_names, ← card_names, hnames], ?_⟩
    intro name v hv
    have hname : name ∈ other.names := hnames ▸ (env.mem_names_iff_get? name).mpr ⟨v, hv⟩
    obtain ⟨w, hw⟩ := (other.mem_names_iff_get? name).mp hname
    exact ⟨w, hw, hall name v w hv hw⟩

/-! ### Histories -/

/-- The environment after the given writes, the first of them to an empty one. -/
def ofWrites (writes : List (String × Value)) : Environment :=
  writes.foldl (fun env write => env.assign write.1 write.2) empty

/-- The value of the last write to a name. -/
def lastWrite? (writes : List (String × Value)) (name : String) : Option Value :=
  (writes.filter fun write => write.1 = name).getLast?.map Prod.snd

variable (writes : List (String × Value)) (write : String × Value)

theorem ofWrites_concat :
    ofWrites (writes ++ [write]) = (ofWrites writes).assign write.1 write.2 := by
  rw [ofWrites, List.foldl_concat, ofWrites]

theorem lastWrite?_concat :
    lastWrite? (writes ++ [write]) name =
      if write.1 = name then some write.2 else lastWrite? writes name := by
  unfold lastWrite?
  rw [List.filter_append]
  split
  · next h => simp [h]
  · next h => simp [h]

theorem get?_ofWrites : (ofWrites writes).get? name = lastWrite? writes name := by
  induction writes using List.reverseRecOn with
  | nil => exact get?_empty name
  | append_singleton writes write ih =>
    rw [ofWrites_concat, get?_assign, lastWrite?_concat, ih]

theorem lastWrite?_isSome :
    (lastWrite? writes name).isSome = true ↔ name ∈ writes.map Prod.fst := by
  simp [lastWrite?]

theorem names_ofWrites : (ofWrites writes).names = (writes.map Prod.fst).toFinset := by
  ext name
  rw [mem_names, contains_eq_isSome, get?_ofWrites, lastWrite?_isSome, List.mem_toFinset]

/-- The environment after any writes is given by the last write to each name: a lookup finds its
value, the bound names are the written ones, and environments compare equal if and only if the same
names were written and the last values of each have the same contents. -/
theorem environment_is_its_last_writes (writes : List (String × Value)) :
    (∀ name, (ofWrites writes).get? name = lastWrite? writes name) ∧
    (∀ name, (ofWrites writes).contains name = true ↔ name ∈ writes.map Prod.fst) ∧
    (ofWrites writes).size = (writes.map Prod.fst).toFinset.card ∧
    ((ofWrites writes).isEmpty = true ↔ writes = []) ∧
    (∀ others, (ofWrites writes).same (ofWrites others) = true ↔
      (∀ name, name ∈ writes.map Prod.fst ↔ name ∈ others.map Prod.fst) ∧
        ∀ name v w, lastWrite? writes name = some v → lastWrite? others name = some w →
          v.same w = true) ∧
    ∀ v w : Value, v.same w = true ↔
      (v = w ∧ v ≠ .real .nan) ∨ ∃ s t, v = .real (.zero s) ∧ w = .real (.zero t) := by
  refine ⟨fun name => get?_ofWrites name writes, ?_, ?_, ?_, ?_, Value.same_iff⟩
  · intro name
    rw [← mem_names, names_ofWrites, List.mem_toFinset]
  · rw [← card_names, names_ofWrites]
  · rw [isEmpty_iff_names, names_ofWrites, List.toFinset_eq_empty_iff, List.map_eq_nil_iff]
  · intro others
    rw [same_iff, names_ofWrites, names_ofWrites, Finset.ext_iff]
    simp only [List.mem_toFinset, get?_ofWrites]

/-- `x` is overwritten once and twice, before and after `y`, at last with zeros of both signs. -/
theorem reordered_overwrites_compare_equal :
    let one : Value := .integer ⟨1, by decide, by decide⟩
    let writes := [("x", .boolean true), ("y", one), ("x", .real (.zero false))]
    let others := [("x", .real .nan), ("x", one), ("x", .real (.zero true)), ("y", one)]
    (ofWrites writes).same (ofWrites others) = true ∧
      lastWrite? writes "x" = some (.real (.zero false)) ∧
      lastWrite? others "x" = some (.real (.zero true)) ∧
      (ofWrites others).get? "x" = some (.real (.zero true)) ∧ (ofWrites others).size = 2 ∧
      Value.same (.real (.zero false)) (.real (.zero true)) = true := by
  intro one writes others
  have hsame : (ofWrites writes).same (ofWrites others) = true := by decide +kernel
  obtain ⟨-, -, -, -, hwrites, -⟩ := environment_is_its_last_writes writes
  obtain ⟨hget, -, hsize, -⟩ := environment_is_its_last_writes others
  exact ⟨hsame, rfl, rfl, hget "x", hsize.trans (by decide),
    ((hwrites others).mp hsame).2 "x" _ _ rfl rfl⟩

end Environment

end BoundedScript
