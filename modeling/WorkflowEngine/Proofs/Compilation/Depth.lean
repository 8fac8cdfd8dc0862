import WorkflowEngine.Proofs.Compilation.Cache

/-!
# The depth to which references are followed, and the specifications they find

Following references deeper, or looking them up among more specifications, changes nothing about a
compilation that has neither given up nor missed a specification. So a bound on the depth is felt
only where it is hit, and a specification only where it is asked for.
-/

namespace WorkflowEngine

namespace Resolver

variable {r r' : Resolver} {depth depth' : Nat} {id : ModuleId} {cache : CompileCache}

/-- Every name of the one is bound to the same specification by the other. -/
def ExtendedBy (r r' : Resolver) : Prop := ∀ id s, r.get? id = some s → r'.get? id = some s

theorem ExtendedBy.refl (r : Resolver) : r.ExtendedBy r := fun _ _ h => h

/-- The failures for which more depth or more specifications may be a remedy. -/
inductive Remedied (r r' : Resolver) : CompileFailure → Prop where
  /-- References were not followed any deeper. -/
  | endless (id : ModuleId) : Remedied r r' (.endless id)
  /-- A name was not bound, and now it is. -/
  | unresolved {id : ModuleId} {s : ModuleSpec} (hs : r.get? id = none)
    (hs' : r'.get? id = some s) : Remedied r r' (.error (.unresolvedReference id))

/-- Compilations that agree unless the first one ends in one of certain failures are respected. -/
theorem respected_unless (Q : CompileFailure → Prop) :
    ModuleSpec.Respected fun α _ (x y : Compiling α) =>
      ∀ cache, (∃ e, Q e ∧ (x cache).1 = .error e) ∨ y cache = x cache where
  pure := fun _ _ => .inr rfl
  fail := fun _ _ => .inr rfl
  bind := fun {α β _ _ x y f g} hxy hfg cache => by
    cases hrun : x cache with
    | mk outcome middle =>
      have h := hxy cache
      rw [hrun] at h
      cases outcome with
      | error e =>
        rw [Compiling.bind_of_error hrun]
        rcases h with ⟨e', hQ, he⟩ | h
        · cases he
          exact .inl ⟨e, hQ, rfl⟩
        · exact .inr (Compiling.bind_of_error h)
      | ok a =>
        rw [Compiling.bind_of_ok hrun]
        rcases h with ⟨e', _, he⟩ | h
        · cases he
        · rw [Compiling.bind_of_ok h]
          exact hfg a middle

/-- Following references deeper, among more specifications, changes nothing unless the compilation
fails for want of either. -/
theorem compileAt_eq_of_extendedBy (hext : r.ExtendedBy r') (hle : depth ≤ depth') :
    (∃ e, r.Remedied r' e ∧ (r.compileAt depth id cache).1 = .error e) ∨
      r'.compileAt depth' id cache = r.compileAt depth id cache := by
  induction depth using Nat.strongRecOn generalizing depth' id cache with
  | ind depth ih =>
    cases hkept : cache.done.get? id with
    | some m =>
      right
      rw [compileAt_of_kept hkept, compileAt_of_kept hkept]
    | none =>
      by_cases hid : id ∈ cache.pending
      · right
        rw [compileAt_of_mem hkept hid, compileAt_of_mem hkept hid]
      · cases hs : r.get? id with
        | none =>
          rw [compileAt_of_none hkept hid hs]
          cases hs' : r'.get? id with
          | none =>
            right
            rw [compileAt_of_none hkept hid hs']
          | some s => exact .inl ⟨_, .unresolved hs hs', rfl⟩
        | some s =>
          have hs' : r'.get? id = some s := hext id s hs
          cases depth with
          | zero =>
            left
            rw [compileAt_zero hkept hid hs]
            exact ⟨_, .endless id, rfl⟩
          | succ depth =>
            obtain ⟨deeper, rfl⟩ : ∃ deeper, depth' = deeper + 1 := ⟨depth' - 1, by omega⟩
            -- All references of the specification are followed one less deep on both sides.
            have hrun : (∃ e, r.Remedied r' e ∧
                  (s.compileWith (r.compileAt depth) (cache.push s.id)).1 = .error e) ∨
                s.compileWith (r'.compileAt deeper) (cache.push s.id) =
                  s.compileWith (r.compileAt depth) (cache.push s.id) := by
              refine (respected_unless (r.Remedied r')).compileWith ?_ (cache.push s.id)
              intro t _ cache'
              exact ih depth (Nat.lt_succ_self depth) (Nat.le_of_succ_le_succ hle)
            rw [compileAt_succ hkept hid hs, compileAt_succ hkept hid hs', Compiling.within,
              Compiling.within]
            generalize s.compileWith (r.compileAt depth) (cache.push s.id) = run at hrun ⊢
            obtain ⟨outcome, middle⟩ := run
            rcases hrun with ⟨e, hQ, rfl⟩ | h
            · exact .inl ⟨e, hQ, rfl⟩
            · right
              rw [h]

/-- Following references deeper changes nothing unless the compilation gives up. -/
theorem compileAt_eq_of_le (hle : depth ≤ depth') :
    (∃ t, (r.compileAt depth id cache).1 = .error (.endless t)) ∨
      r.compileAt depth' id cache = r.compileAt depth id cache := by
  rcases compileAt_eq_of_extendedBy (.refl r) hle with ⟨e, hremedied, he⟩ | hsame
  · cases hremedied with
    | endless t => exact .inl ⟨t, he⟩
    | unresolved hs hs' => cases hs.symm.trans hs'
  · exact .inr hsame

end Resolver

end WorkflowEngine
