import WorkflowEngine.Proofs.Compilation.Checks
import WorkflowEngine.Proofs.Paths

/-!
# Compilation without a cache

Compiling a name anew at each reference to it gives what compiling is meant to give: the outcome
depends on the specifications and on the names being compiled, and on nothing else. It succeeds
exactly when everything that the name reaches is resolved, free of circles and declared as its kind
demands; then neither the depth nor the names being compiled matter any more. Every other outcome is
a fault of a specification, a name without specification, or a circle.
-/

namespace WorkflowEngine

open Relation

namespace Resolver

/-- What a name compiles to while the names in `pending` are being compiled, following references at
most `depth` deep and keeping nothing. -/
def uncachedAt (r : Resolver) :
    (depth : Nat) → (pending : List ModuleId) → ModuleId → Except CompileFailure Module
  | depth, pending, id =>
    if id ∈ pending then
      .error (.error (.cyclicWorkflow (pending.dropWhile (· != id) ++ [id])))
    else match r.get? id with
      | none => .error (.error (.unresolvedReference id))
      | some s =>
        match depth with
        | 0 => .error (.endless id)
        | depth + 1 => s.compileWith (uncachedAt r depth (pending ++ [s.id]))

variable {r : Resolver} {depth : Nat} {pending : List ModuleId} {id : ModuleId}

theorem uncachedAt_of_mem (h : id ∈ pending) :
    r.uncachedAt depth pending id =
      .error (.error (.cyclicWorkflow (pending.dropWhile (· != id) ++ [id]))) := by
  rw [uncachedAt, if_pos h]

theorem uncachedAt_of_none (h : id ∉ pending) (hs : r.get? id = none) :
    r.uncachedAt depth pending id = .error (.error (.unresolvedReference id)) := by
  rw [uncachedAt, if_neg h, hs]

theorem uncachedAt_zero (h : id ∉ pending) {s : ModuleSpec} (hs : r.get? id = some s) :
    r.uncachedAt 0 pending id = .error (.endless id) := by
  rw [uncachedAt, if_neg h, hs]

theorem uncachedAt_succ (h : id ∉ pending) {s : ModuleSpec} (hs : r.get? id = some s) :
    r.uncachedAt (depth + 1) pending id =
      s.compileWith (r.uncachedAt depth (pending ++ [s.id])) := by
  rw [uncachedAt, if_neg h, hs]

/-- A name that compiles is not being compiled, has a specification, and that compiles. -/
theorem exists_of_uncachedAt_eq_ok {m : Module} (h : r.uncachedAt depth pending id = .ok m) :
    id ∉ pending ∧ ∃ s below, r.get? id = some s ∧ depth = below + 1 ∧
      s.compileWith (r.uncachedAt below (pending ++ [s.id])) = .ok m := by
  by_cases hid : id ∈ pending
  · rw [uncachedAt_of_mem hid] at h
    cases h
  · cases hs : r.get? id with
    | none =>
      rw [uncachedAt_of_none hid hs] at h
      cases h
    | some s =>
      cases depth with
      | zero =>
        rw [uncachedAt_zero hid hs] at h
        cases h
      | succ below => exact ⟨hid, s, below, rfl, rfl, uncachedAt_succ hid hs ▸ h⟩

/-! ## Success -/

/-- What a name has to fulfil, together with all that it reaches, in order to compile. -/
structure Compilable (r : Resolver) (id : ModuleId) : Prop where
  /-- Every name that is reached resolves. -/
  resolved : ∀ x, r.Reaches id x → ∃ s, r.get? x = some s
  /-- No name that is reached is on a circle. -/
  acyclic : ∀ x, r.Reaches id x → ¬ r.OnCircle x
  /-- Everything inside the specifications that are reached is declared as its kind demands. -/
  declared : ∀ x s, r.Reaches id x → r.get? x = some s → ∀ n, s.Contains n → n.Compilable

/-- What a compilable name refers to is compilable. -/
theorem Compilable.of_refers (h : r.Compilable id) {t : ModuleId} (ht : r.Refers id t) :
    r.Compilable t where
  resolved := fun x hx => h.resolved x (hx.head ht)
  acyclic := fun x hx => h.acyclic x (hx.head ht)
  declared := fun x s hx => h.declared x s (hx.head ht)

/-- A name that compiles is compilable, and reaches no name that is being compiled. -/
theorem compilable_of_uncachedAt_eq_ok (hown : r.OwnNames) {m : Module}
    (h : r.uncachedAt depth pending id = .ok m) :
    r.Compilable id ∧ ∀ p ∈ pending, ¬ r.Reaches id p := by
  induction depth generalizing pending id m with
  | zero =>
    obtain ⟨_, _, _, _, hdepth, _⟩ := exists_of_uncachedAt_eq_ok h
    cases hdepth
  | succ depth ih =>
    obtain ⟨hid, s, below, hs, hdepth, hcompile⟩ := exists_of_uncachedAt_eq_ok h
    cases hdepth
    obtain ⟨hnodes, htargets⟩ := ModuleSpec.succeeds_compileWith_iff.1 ⟨m, hcompile⟩
    -- No target comes back to the name: the name is being compiled while the target is.
    have hbelow : ∀ t, r.Refers id t → r.Compilable t ∧ ∀ p ∈ pending ++ [id], ¬ r.Reaches t p := by
      intro t ht
      obtain ⟨m', hm'⟩ := htargets t (mem_targets_of_refers hs ht)
      rw [hown id s hs] at hm'
      exact ih hm'
    refine ⟨⟨?_, ?_, ?_⟩, ?_⟩
    · intro x hx
      rcases ReflTransGen.cases_head hx with rfl | ⟨t, ht, hx⟩
      · exact ⟨s, hs⟩
      · exact (hbelow t ht).1.resolved x hx
    · intro x hx hcircle
      rcases ReflTransGen.cases_head hx with rfl | ⟨t, ht, hx⟩
      · obtain ⟨t, ht, hback⟩ := TransGen.head'_iff.1 hcircle
        exact (hbelow t ht).2 id (List.mem_append_right _ (List.mem_singleton_self id)) hback
      · exact (hbelow t ht).1.acyclic x hx hcircle
    · intro x s' hx hs'
      rcases ReflTransGen.cases_head hx with rfl | ⟨t, ht, hx⟩
      · cases hs.symm.trans hs'
        exact hnodes
      · exact (hbelow t ht).1.declared x s' hx hs'
    · intro p hp hreach
      rcases ReflTransGen.cases_head hreach with rfl | ⟨t, ht, hreach⟩
      · exact hid hp
      · exact (hbelow t ht).2 p (List.mem_append_left _ hp) hreach

/-- A compilable name compiles when it is reached along a path, if references are followed deep
enough. -/
theorem succeeds_uncachedAt (hown : r.OwnNames) {main : ModuleId} (hpath : r.IsPath main pending id)
    (hdepth : r.size ≤ depth + pending.length) (h : r.Compilable id) :
    Succeeds (r.uncachedAt depth pending id) := by
  have hid : id ∉ pending := fun hmem => h.acyclic id .refl (hpath.leads hmem)
  obtain ⟨s, hs⟩ := h.resolved id .refl
  have hlength := hpath.length_lt hid hs
  induction depth generalizing pending id s with
  | zero => omega
  | succ depth ih =>
    rw [uncachedAt_succ hid hs, ModuleSpec.succeeds_compileWith_iff]
    refine ⟨h.declared id s .refl hs, ?_⟩
    intro t ht
    have hrefers := refers_of_mem_targets hs ht
    have hpath' := hpath.step hid hrefers
    have h' := h.of_refers hrefers
    have hnew : t ∉ pending ++ [id] := fun hmem => h'.acyclic t .refl (hpath'.leads hmem)
    obtain ⟨s', hs'⟩ := h'.resolved t .refl
    rw [hown id s hs]
    refine ih hpath' ?_ h' hnew s' hs' (hpath'.length_lt hnew hs')
    rw [List.length_append, List.length_singleton]
    omega

/-- A result stays the same when references are followed deeper and when other names are being
compiled, as long as they are not reached. -/
theorem uncachedAt_eq_ok_of_le (hown : r.OwnNames) {m : Module}
    (h : r.uncachedAt depth pending id = .ok m) {depth' : Nat} (hle : depth ≤ depth')
    {pending' : List ModuleId} (hnew : ∀ p ∈ pending', ¬ r.Reaches id p) :
    r.uncachedAt depth' pending' id = .ok m := by
  induction depth generalizing pending id m depth' pending' with
  | zero =>
    obtain ⟨_, _, _, _, hdepth, _⟩ := exists_of_uncachedAt_eq_ok h
    cases hdepth
  | succ depth ih =>
    obtain ⟨_, s, below, hs, hdepth, hcompile⟩ := exists_of_uncachedAt_eq_ok h
    cases hdepth
    obtain ⟨deeper, rfl⟩ : ∃ deeper, depth' = deeper + 1 := ⟨depth' - 1, by omega⟩
    rw [uncachedAt_succ (fun hmem => hnew id hmem .refl) hs]
    refine ModuleSpec.compileWith_eq_ok_of_imp ?_ hcompile
    intro t ht m' hm'
    rw [hown id s hs] at hm' ⊢
    have hrefers := refers_of_mem_targets hs ht
    apply ih hm' (by omega)
    intro p hp hreach
    rcases List.mem_append.1 hp with hp | hp
    · exact hnew p hp (hreach.head hrefers)
    · rw [List.mem_singleton.1 hp] at hreach
      exact (compilable_of_uncachedAt_eq_ok hown hm').2 id
        (List.mem_append_right _ (List.mem_singleton_self id)) hreach

/-- What a name compiles to, however deep references are followed and whatever else is being
compiled. -/
def CompilesTo (r : Resolver) (id : ModuleId) (m : Module) : Prop :=
  ∃ depth pending, r.uncachedAt depth pending id = .ok m

/-- A name compiles to one module only. -/
theorem CompilesTo.unique (hown : r.OwnNames) {m m' : Module} (h : r.CompilesTo id m)
    (h' : r.CompilesTo id m') : m = m' := by
  obtain ⟨depth, pending, h⟩ := h
  obtain ⟨depth', pending', h'⟩ := h'
  have hnone : ∀ p ∈ ([] : List ModuleId), ¬ r.Reaches id p := by
    intro p hp
    exact absurd hp List.not_mem_nil
  have hm := uncachedAt_eq_ok_of_le hown h (Nat.le_max_left depth depth') hnone
  have hm' := uncachedAt_eq_ok_of_le hown h' (Nat.le_max_right depth depth') hnone
  exact Except.ok.inj (hm.symm.trans hm')

/-- A name that compiles is compilable. -/
theorem CompilesTo.compilable (hown : r.OwnNames) {m : Module} (h : r.CompilesTo id m) :
    r.Compilable id := by
  obtain ⟨depth, pending, h⟩ := h
  exact (compilable_of_uncachedAt_eq_ok hown h).1

/-- Along a path, deep enough, a name compiles to a module exactly when it does so anyhow. -/
theorem uncachedAt_eq_ok_iff (hown : r.OwnNames) {main : ModuleId}
    (hpath : r.IsPath main pending id) (hdepth : r.size ≤ depth + pending.length) {m : Module} :
    r.uncachedAt depth pending id = .ok m ↔ r.CompilesTo id m := by
  constructor
  · intro h
    exact ⟨depth, pending, h⟩
  · intro h
    obtain ⟨m', hm'⟩ := succeeds_uncachedAt hown hpath hdepth (h.compilable hown)
    rw [hm', h.unique hown ⟨depth, pending, hm'⟩]

/-! ## Failure -/

/-- The failures that compiling explains: a fault of a specification, a name that is reached without
having a specification, and a circle that is reached. -/
inductive Explains (r : Resolver) (main : ModuleId) : CompileFailure → Prop where
  /-- A specification is at fault. -/
  | fault (fault : SpecFault) : Explains r main (.error (.validation fault))
  /-- A name is reached that has no specification. -/
  | unresolved {id : ModuleId} (hid : r.Reaches main id) (hs : r.get? id = none) :
    Explains r main (.error (.unresolvedReference id))
  /-- A circle is reached; its first name stands at both ends of the chain. -/
  | circle {first : ModuleId} {rest : List ModuleId} (h : r.IsCircle main first rest) :
    Explains r main (.error (.cyclicWorkflow (first :: rest ++ [first])))

/-- A name fails to compile if it is being compiled, if it has no specification, if references are
not followed any deeper, or if its specification fails to compile. -/
theorem cases_of_uncachedAt_eq_error {e : CompileFailure}
    (h : r.uncachedAt depth pending id = .error e) :
    (id ∈ pending ∧ e = .error (.cyclicWorkflow (pending.dropWhile (· != id) ++ [id]))) ∨
    (id ∉ pending ∧ r.get? id = none ∧ e = .error (.unresolvedReference id)) ∨
    (id ∉ pending ∧ ∃ s, r.get? id = some s ∧
      (depth = 0 ∨ ∃ below, depth = below + 1 ∧
        s.compileWith (r.uncachedAt below (pending ++ [s.id])) = .error e)) := by
  by_cases hid : id ∈ pending
  · rw [uncachedAt_of_mem hid] at h
    exact .inl ⟨hid, (Except.error.inj h).symm⟩
  · cases hs : r.get? id with
    | none =>
      rw [uncachedAt_of_none hid hs] at h
      exact .inr (.inl ⟨hid, rfl, (Except.error.inj h).symm⟩)
    | some s =>
      refine .inr (.inr ⟨hid, s, rfl, ?_⟩)
      cases depth with
      | zero => exact .inl rfl
      | succ below => exact .inr ⟨below, rfl, uncachedAt_succ hid hs ▸ h⟩

/-- Along a path, deep enough, every failure is explained; in particular references are not followed
without end. -/
theorem explains_of_uncachedAt_eq_error (hown : r.OwnNames) {main : ModuleId}
    (hpath : r.IsPath main pending id) (hdepth : r.size ≤ depth + pending.length)
    {e : CompileFailure} (h : r.uncachedAt depth pending id = .error e) : r.Explains main e := by
  induction depth using Nat.strongRecOn generalizing pending id with
  | ind depth ih =>
    rcases cases_of_uncachedAt_eq_error h with ⟨hid, rfl⟩ | ⟨hid, hs, rfl⟩ | ⟨hid, s, hs, hdeep⟩
    · obtain ⟨rest, hdrop, hcircle⟩ := hpath.exists_circle hid
      rw [hdrop]
      exact .circle hcircle
    · exact .unresolved (hpath.reached id (List.mem_append_right _ (List.mem_singleton_self id))) hs
    · have hlength := hpath.length_lt hid hs
      rcases hdeep with rfl | ⟨below, rfl, hcompile⟩
      · omega
      · rcases ModuleSpec.fault_or_exists_of_compileWith_eq_error hcompile with
          ⟨fault, rfl⟩ | ⟨t, ht, htarget⟩
        · exact .fault fault
        · rw [hown id s hs] at htarget
          refine ih below (Nat.lt_succ_self below) (hpath.step hid (refers_of_mem_targets hs ht)) ?_
            htarget
          rw [List.length_append, List.length_singleton]
          omega

end Resolver

end WorkflowEngine
