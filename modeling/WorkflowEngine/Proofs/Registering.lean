import WorkflowEngine.Compilation
import WorkflowEngine.Proofs.Text.ByteOrder
import WorkflowEngine.Proofs.Validation.Orders

/-!
# Histories of a registry

Specifications are registered one after the other, and a call whose name is taken fails and changes
nothing. So whatever has been called, each name is bound to the first specification that was
registered under it, and a list of specifications makes a registry just if no name stands in it
twice; then its order does not matter.
-/

namespace WorkflowEngine.Registry

open Text

variable {r : Registry} {s : ModuleSpec}

/-! ## One call -/

theorem register_of_find?_eq_none (h : r.find? s.id = none) : r.register s = .ok (r.insert s) := by
  rw [register, Ascending.contains_eq_isSome_find?, h]
  rfl

theorem register_of_find?_eq_some {s' : ModuleSpec} (h : r.find? s.id = some s') :
    r.register s = .error (.validation (.repeatedModule s.id)) := by
  rw [register, Ascending.contains_eq_isSome_find?, h]
  rfl

/-- The registry after a call; one that fails leaves it as it was. -/
def afterCall (r : Registry) (s : ModuleSpec) : Registry :=
  match r.register s with
  | .ok r' => r'
  | .error _ => r

/-- After a call a name is bound to what it was bound to before, and a free name to what has been
registered under it. -/
theorem find?_afterCall (r : Registry) (s : ModuleSpec) (id : ModuleId) :
    (r.afterCall s).find? id = (r.find? id).or (if s.id = id then some s else none) := by
  cases h : r.find? s.id with
  | none =>
    rw [afterCall, register_of_find?_eq_none h]
    by_cases hid : s.id = id
    · subst hid
      simp [h]
    · simp [Ascending.find?_insert_of_ne hid, hid]
  | some s' =>
    rw [afterCall, register_of_find?_eq_some h]
    by_cases hid : s.id = id
    · subst hid
      simp [h]
    · simp [hid]

/-! ## Any number of calls -/

/-- The registry after calls one after the other, whether or not they fail. -/
def afterCalls (r : Registry) (calls : List ModuleSpec) : Registry := calls.foldl afterCall r

/-- After calls a name is bound to what it was bound to before, and otherwise to the first
specification that was registered under it. -/
theorem find?_afterCalls (r : Registry) (calls : List ModuleSpec) (id : ModuleId) :
    (r.afterCalls calls).find? id = (r.find? id).or (calls.find? fun s => s.id == id) := by
  induction calls generalizing r with
  | nil => simp [afterCalls]
  | cons s rest ih =>
    have hrest := ih (r.afterCall s)
    rw [find?_afterCall, Option.or_assoc] at hrest
    refine hrest.trans (congrArg _ ?_)
    by_cases hid : s.id = id <;> simp [hid]

/-- Further calls go on with the registry that calls before have left. -/
theorem afterCalls_append (r : Registry) (calls : List ModuleSpec) (s : ModuleSpec) :
    r.afterCalls (calls ++ [s]) = (r.afterCalls calls).afterCall s := by
  simp [afterCalls]

/-- The registry after calls on the one without specifications. -/
def ofCalls (calls : List ModuleSpec) : Registry := afterCalls .empty calls

/-- A name is bound by the first call for it. -/
theorem find?_ofCalls (calls : List ModuleSpec) (id : ModuleId) :
    (ofCalls calls).find? id = calls.find? fun s => s.id == id := by
  simp [ofCalls, find?_afterCalls]

/-- A call whose name has been registered before fails and changes nothing. -/
theorem register_ofCalls_of_mem {calls : List ModuleSpec} (h : s.id ∈ calls.map ModuleSpec.id) :
    (ofCalls calls).register s = .error (.validation (.repeatedModule s.id)) ∧
      ofCalls (calls ++ [s]) = ofCalls calls := by
  have hsome : ((ofCalls calls).find? s.id).isSome = true := by
    rw [find?_ofCalls, List.find?_isSome]
    simpa using h
  obtain ⟨s', hs'⟩ := Option.isSome_iff_exists.1 hsome
  have hfails := register_of_find?_eq_some hs'
  exact ⟨hfails, by rw [ofCalls, afterCalls_append, ← ofCalls, afterCall, hfails]⟩

/-- A call whose name is free succeeds. -/
theorem register_ofCalls_of_notMem {calls : List ModuleSpec} (h : s.id ∉ calls.map ModuleSpec.id) :
    (ofCalls calls).register s = .ok (ofCalls (calls ++ [s])) := by
  have hnone : (ofCalls calls).find? s.id = none := by
    rw [find?_ofCalls, List.find?_eq_none]
    simpa using h
  have hsucceeds := register_of_find?_eq_none hnone
  have hafter : ofCalls (calls ++ [s]) = (ofCalls calls).insert s := by
    rw [ofCalls, afterCalls_append, ← ofCalls, afterCall, hsucceeds]
  rw [hsucceeds, hafter]

/-! ## Lists of specifications -/

/-- Specifications may be registered in two goes. -/
theorem ofSpecs_append (specs specs' : List ModuleSpec) :
    ofSpecs (specs ++ specs') = ofSpecs specs >>= fun r => r.registerAll specs' :=
  List.foldlM_append

/-- Specifications of distinct names make the registry that calls with them lead to. -/
theorem ofSpecs_of_nodup {specs : List ModuleSpec} (h : (specs.map ModuleSpec.id).Nodup) :
    ofSpecs specs = .ok (ofCalls specs) := by
  induction specs using List.reverseRecOn with
  | nil => rfl
  | append_singleton specs s ih =>
    rw [List.map_append, List.map_singleton, List.nodup_append_comm, List.singleton_append,
      List.nodup_cons] at h
    rw [ofSpecs_append, ih h.2]
    show (ofCalls specs).register s >>= pure = _
    rw [register_ofCalls_of_notMem h.1]
    rfl

/-- A list of specifications fails with the name of the first one that repeats an earlier name. -/
theorem ofSpecs_of_mem {before : List ModuleSpec} (h : (before.map ModuleSpec.id).Nodup)
    (hs : s.id ∈ before.map ModuleSpec.id) (after : List ModuleSpec) :
    ofSpecs (before ++ s :: after) = .error (.validation (.repeatedModule s.id)) := by
  rw [ofSpecs_append, ofSpecs_of_nodup h]
  show (ofCalls before).register s >>= (fun r => r.registerAll after) = _
  rw [(register_ofCalls_of_mem hs).1]
  rfl

/-- If a key stands in a list twice, some item is the first that repeats an earlier key. -/
theorem exists_repeated_of_not_nodup {α β : Type} [DecidableEq β] {key : α → β} {items : List α}
    (h : ¬ (items.map key).Nodup) : ∃ before a after, items = before ++ a :: after ∧
      (before.map key).Nodup ∧ key a ∈ before.map key := by
  induction items using List.reverseRecOn with
  | nil => exact absurd List.nodup_nil h
  | append_singleton items a ih =>
    by_cases hnodup : (items.map key).Nodup
    · refine ⟨items, a, [], rfl, hnodup, ?_⟩
      by_contra ha
      apply h
      rw [List.map_append, List.map_singleton, List.nodup_append_comm]
      exact List.nodup_cons.2 ⟨ha, hnodup⟩
    · obtain ⟨before, b, after, rfl, hbefore, hb⟩ := ih hnodup
      exact ⟨before, b, after ++ [a], by simp, hbefore, hb⟩

/-- Specifications make up a registry exactly if their names are different. -/
theorem exists_ofSpecs_eq_ok_iff {specs : List ModuleSpec} :
    (∃ r, ofSpecs specs = .ok r) ↔ (specs.map ModuleSpec.id).Nodup := by
  constructor
  · rintro ⟨r, hr⟩
    have hperm := (ofSpecs_eq_ok_iff.1 hr).map ModuleSpec.id
    exact hperm.nodup_iff.1 r.nodup_keys
  · intro h
    exact ⟨_, ofSpecs_of_nodup h⟩

/-- Otherwise the first name that comes again is reported, and nothing else. -/
theorem ofSpecs_eq_error_iff {specs : List ModuleSpec} {e : Error} :
    ofSpecs specs = .error e ↔ ∃ before s after, specs = before ++ s :: after ∧
      (before.map ModuleSpec.id).Nodup ∧ s.id ∈ before.map ModuleSpec.id ∧
        e = .validation (.repeatedModule s.id) := by
  constructor
  · intro h
    have hrepeats : ¬ (specs.map ModuleSpec.id).Nodup := by
      intro hnodup
      rw [ofSpecs_of_nodup hnodup] at h
      cases h
    obtain ⟨before, s, after, rfl, hbefore, hs⟩ := exists_repeated_of_not_nodup hrepeats
    rw [ofSpecs_of_mem hbefore hs] at h
    exact ⟨before, s, after, rfl, hbefore, hs, (Except.error.inj h).symm⟩
  · rintro ⟨before, s, after, rfl, hbefore, hs, rfl⟩
    exact ofSpecs_of_mem hbefore hs after

/-- In whatever order specifications of distinct names stand, they make the same registry. -/
theorem ofCalls_perm {specs specs' : List ModuleSpec} (h : (specs.map ModuleSpec.id).Nodup)
    (hperm : specs.Perm specs') : ofCalls specs' = ofCalls specs := by
  have hok := ofSpecs_of_nodup h
  have hok' := ofSpecs_of_nodup ((hperm.map ModuleSpec.id).nodup_iff.1 h)
  rw [ofSpecs_eq_ok_iff] at hok hok'
  exact Ascending.eq_of_perm (hok'.trans (hperm.symm.trans hok.symm))

/-! ## Listings -/

/-- Specifications are listed by the bytes of their names. -/
theorem pairwise_bytes_toList (r : Registry) :
    r.toList.Pairwise fun s s' => bytes s.id < bytes s'.id :=
  r.ascending.imp bytes_lt_bytes_iff.2

theorem pairwise_bytes_keys (r : Registry) : r.keys.Pairwise fun id id' => bytes id < bytes id' :=
  List.pairwise_map.2 r.pairwise_bytes_toList

/-- What happens to a registry. After any calls on the one without specifications, of which some
may fail:

1. each name is bound to the first specification that was registered under it;
2. a call fails just if its name stands in an earlier call, and then changes nothing;
3. the names and the specifications are listed by strictly ascending bytes of the names, and each
   name that is bound stands among the names once.

A list of specifications:

4. makes a registry just if no name stands in it twice;
5. fails otherwise, with the first name that repeats an earlier one;
6. makes the same registry as the same specifications in another order: names and specifications are
   listed alike, and they compile alike, all together as well as with any one of them as the main
   one. -/
theorem register_history :
    (∀ calls : List ModuleSpec,
      (∀ id, (ofCalls calls).find? id = calls.find? fun s => s.id == id) ∧
      (∀ s, s.id ∈ calls.map ModuleSpec.id →
        (ofCalls calls).register s = .error (.validation (.repeatedModule s.id)) ∧
          ofCalls (calls ++ [s]) = ofCalls calls) ∧
      (∀ s, s.id ∉ calls.map ModuleSpec.id →
        (ofCalls calls).register s = .ok (ofCalls (calls ++ [s]))) ∧
      ((ofCalls calls).keys.Pairwise fun id id' => bytes id < bytes id') ∧
      ((ofCalls calls).toList.Pairwise fun s s' => bytes s.id < bytes s'.id) ∧
      (∀ id, id ∈ (ofCalls calls).keys ↔ ∃ s, (ofCalls calls).find? id = some s) ∧
      ∀ s, s ∈ (ofCalls calls).toList ↔ (ofCalls calls).find? s.id = some s) ∧
    (∀ specs : List ModuleSpec,
      ((∃ r, ofSpecs specs = .ok r) ↔ (specs.map ModuleSpec.id).Nodup) ∧
      ∀ e, ofSpecs specs = .error e ↔ ∃ before s after, specs = before ++ s :: after ∧
        (before.map ModuleSpec.id).Nodup ∧ s.id ∈ before.map ModuleSpec.id ∧
          e = .validation (.repeatedModule s.id)) ∧
    ∀ specs specs' : List ModuleSpec, (specs.map ModuleSpec.id).Nodup → specs.Perm specs' →
      ∃ r r', ofSpecs specs = .ok r ∧ ofSpecs specs' = .ok r' ∧ r'.keys = r.keys ∧
        r'.toList = r.toList ∧ r'.compileAll = r.compileAll ∧
        ∀ main, r'.resolver.compileMain main = r.resolver.compileMain main := by
  refine ⟨?_, fun specs => ⟨exists_ofSpecs_eq_ok_iff, fun e => ofSpecs_eq_error_iff⟩, ?_⟩
  · intro calls
    refine ⟨find?_ofCalls calls, fun s hs => register_ofCalls_of_mem hs,
      fun s hs => register_ofCalls_of_notMem hs, pairwise_bytes_keys _, pairwise_bytes_toList _,
      fun id => Ascending.mem_keys_iff, fun s => ?_⟩
    rw [Ascending.find?_eq_some_iff, and_iff_left rfl]
  · intro specs specs' h hperm
    have hok' := ofSpecs_of_nodup ((hperm.map ModuleSpec.id).nodup_iff.1 h)
    rw [ofCalls_perm h hperm] at hok'
    exact ⟨_, _, ofSpecs_of_nodup h, hok', rfl, rfl, rfl, fun _ => rfl⟩

/-- A second specification of the name b, which comes third, is refused: the first stays, whether it
was registered before the other name or after it. -/
theorem register_history_twice :
    let fetch : ModuleSpec := .mk "b" .empty .http
    let other : ModuleSpec := .mk "é" .empty (.tool "ping")
    let again : ModuleSpec := .mk "b" .empty (.llm "again")
    (ofCalls [fetch, other]).register again = .error (.validation (.repeatedModule "b")) ∧
      ofCalls [fetch, other, again] = ofCalls [fetch, other] ∧
      (ofCalls [fetch]).register other = .ok (ofCalls [fetch, other]) ∧
      (∃ r r', ofSpecs [other, fetch] = .ok r ∧ ofSpecs [fetch, other] = .ok r' ∧
        r'.compileAll = r.compileAll) ∧
      bytes "b" < bytes "é" ∧ (ofCalls [other, fetch, again]).keys = ["b", "é"] := by
  intro fetch other again
  obtain ⟨hcalls, -, horders⟩ := register_history
  obtain ⟨hfails, hsame⟩ := (hcalls [fetch, other]).2.1 again (by decide)
  have hsucceeds := (hcalls [fetch]).2.2.1 other (by decide)
  obtain ⟨r, r', hr, hr', -, -, hreport, -⟩ :=
    horders [other, fetch] [fetch, other] (by decide) (.swap fetch other [])
  exact ⟨hfails, hsame, hsucceeds, ⟨r, r', hr, hr', hreport⟩, by decide +kernel,
    by decide +kernel⟩

end WorkflowEngine.Registry
