import WorkflowEngine.Proofs.Compilation.Endless
import WorkflowEngine.Proofs.Compilation.Stability

/-!
# Compiling after other compilations

What calls on one context leave behind, whether they succeed or fail, is a sound cache, and nothing
is being compiled. A specification that is compiled next fares as it would alone, with one
exception: it need not be registered, and if another specification is registered under its name and
has been compiled by then, a reference to that name is answered from the cache, while it would
otherwise be taken for a circle. So what is compared is compiling with a sound cache and compiling
without a cache in a resolver that binds the name to the specification itself.
-/

namespace WorkflowEngine

open Relation

namespace ModuleSpec

variable {reference reference' : ModuleId → Except CompileFailure Module} {s : ModuleSpec}

end ModuleSpec

namespace Resolver

variable {r r' : Resolver} {s : ModuleSpec} {id : ModuleId} {m : Module} {depth : Nat}
  {pending path : List ModuleId} {cache : CompileCache}

/-! ## Names and their modules -/

/-- A name that has a module is compilable. -/
theorem Yields.compilable (h : r.Yields id m) : r.Compilable id where
  resolved := fun x hx => by
    obtain ⟨n, hn⟩ := h.of_reaches hx
    obtain ⟨s, hs, -⟩ := yields_iff.1 hn
    exact ⟨s, hs⟩
  acyclic := fun x hx => by
    obtain ⟨n, hn⟩ := h.of_reaches hx
    exact hn.not_onCircle
  declared := fun x s hx hs => by
    obtain ⟨n, hn⟩ := h.of_reaches hx
    obtain ⟨s', hs', hyields⟩ := yields_iff.1 hn
    cases hs.symm.trans hs'
    exact (ModuleSpec.succeeds_compileWith_iff.1 ⟨n, hyields⟩).1

/-- One resolver binds the name of a specification to it, and all other names as another does. -/
structure Rebinds (r r' : Resolver) (s : ModuleSpec) : Prop where
  /-- The specification is bound to its name. -/
  bound : r'.get? s.id = some s
  /-- Any other name is bound as before. -/
  same : ∀ x, x ≠ s.id → r'.get? x = r.get? x

namespace Rebinds

/-- One name more at most is bound. -/
theorem size_le (h : r.Rebinds r' s) : r'.size ≤ r.size + 1 := by
  have hkeys : r'.keys ⊆ s.id :: r.keys := by
    intro x hx
    by_cases hs : x = s.id
    · exact List.mem_cons.2 (.inl hs)
    · obtain ⟨p, hp⟩ := Ascending.mem_keys_iff.1 hx
      have hbound : r.get? x = some p.2 := by
        rw [← h.same x hs, Dictionary.get?, hp, Option.map_some]
      exact List.mem_cons_of_mem _ (mem_keys_of_get? hbound)
  have hlength := (r'.nodup_keys.subperm hkeys).length_le
  rwa [List.length_cons, Ascending.length_keys, Ascending.length_keys] at hlength

/-- The depth of the resolver before leaves room for one more name. -/
theorem size_le_depth (h : r.Rebinds r' s) : r'.size ≤ r.depth + [s.id].length := by
  have hsize := h.size_le
  rw [List.length_singleton, depth]
  omega

end Rebinds

/-! ## Compiling with what was compiled before -/

/-- A name that is kept stays kept, and nothing ends in a circle at that name. -/
structure Answers {α : Type} (name : ModuleId)
    (run : Except CompileFailure α × CompileCache) : Prop where
  /-- The name is kept. -/
  holds : run.2.Holds name
  /-- No circle at the name is reported. -/
  outcome : ∀ rest, run.1 ≠ .error (.error (.cyclicWorkflow (name :: rest)))

end Resolver

/-- A call on a context. -/
inductive CompileCall where
  /-- Compiles what a name refers to. -/
  | reference (id : ModuleId)
  /-- Compiles a specification that need not be registered. -/
  | spec (s : ModuleSpec)

/-- What a call, whether it succeeds or fails, makes of what it finds. -/
def CompileCall.leave (r : Resolver) (cache : CompileCache) : CompileCall → CompileCache
  | reference id => (r.compileReference id cache).2
  | spec s => (r.compileSpec s cache).2

namespace Resolver

variable {r : Resolver} {s : ModuleSpec}

end Resolver

namespace Registry

end Registry

end WorkflowEngine
