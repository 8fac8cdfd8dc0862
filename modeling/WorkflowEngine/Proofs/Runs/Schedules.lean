import WorkflowEngine.Proofs.Runs.Failures

/-!
# Independence of schedules

What a run amounts to depends on what capabilities answer, and neither on how long they take nor on
the order in which the branches of fan-outs end. All ways in which a module may run in surroundings
that answer alike match each other.
-/

namespace WorkflowEngine

namespace Module

variable {c : Context}

/-- Every way in which a module may run in surroundings that answer alike matches its run by
time. -/
theorem RunsAs.matches_executable {m : Module} {x : Executable} (h : m.RunsAs c.Alike x) :
    (m.executable c).Matches Eq x := by
  refine RunsAs.induct (Q := fun m x => (m.executable c).Matches Eq x) ?_ h
  intro id signature kind d schedule kind' halike hrel
  have hkind : (kind.map (executable c) (executable c)).Rel (Executable.Matches Eq)
      (Executable.Matches Eq) kind' := by
    rw [Kind.rel_map_left_iff]
    exact hrel.imp (fun _ _ h => h.2) fun _ _ h => h.2
  rw [executable, fold_mk, ← Executable.ofKindBy_byTime]
  exact Executable.matches_ofKindBy halike .byTime schedule rfl rfl rfl hkind

/-- Every way in which a module may run in surroundings that answer alike ends as its run by
time. -/
theorem RunsAs.outcome_eq {m : Module} {x : Executable} (h : m.RunsAs c.Alike x)
    (input : List Value) : (x.run input).outcome = (m.run c input).outcome :=
  (h.matches_executable.run input).outcome.eq.symm

/-- Neither the order in which branches end nor the time that calls take shows in what a run amounts
to:

1. to run by time is one of the ways in which a module may run;
2. in all ways in which it may run, with a schedule for every fan-out and times for every call of
   their own, it ends with the same result or the same error and makes the same calls;
3. so it does in all surroundings that answer alike, sooner or later;
4. it never fails for a branch without a result, unless that is what a text generation or a fetch
   has been answered with. -/
theorem run_independent_of_schedule (c : Context) (m : Module) (input : List Value) :
    m.RunsAs c.Alike (m.executable c) ∧
    (∀ x, m.RunsAs c.Alike x → (x.run input).outcome = (m.run c input).outcome ∧
      (x.run input).calls.Perm (m.run c input).calls) ∧
    (∀ d, c.Alike d → (m.run d input).outcome = (m.run c input).outcome ∧
      (m.run d input).calls.Perm (m.run c input).calls) ∧
    ∀ x, m.RunsAs c.Alike x → ∀ id place,
      (x.run input).outcome = .error (.internal (.noResult id place)) →
        (∃ prompt, .generated prompt (.error (.internal (.noResult id place))) ∈
          (x.run input).calls) ∨
        ∃ request, .requested request (.error (.internal (.noResult id place))) ∈
          (x.run input).calls := by
  have hways : ∀ x, m.RunsAs c.Alike x → (x.run input).outcome = (m.run c input).outcome ∧
      (x.run input).calls.Perm (m.run c input).calls := by
    intro x hx
    have hmatches := hx.matches_executable.run input
    exact ⟨hmatches.outcome.eq.symm, hmatches.calls.symm⟩
  refine ⟨runsAs_executable (.refl c) m, hways, ?_, ?_⟩
  · intro d hd
    exact hways (m.executable d) (runsAs_executable hd m)
  · intro x hx id place he
    cases hx.accounts input _ he with
    | strict _ _ honly => cases honly
    | generated _ _ hcall => exact .inl ⟨_, hcall⟩
    | requested _ _ hcall => exact .inr ⟨_, hcall⟩

/-- A fan-out of two calls of a tool gives their outputs in the order of its branches although the
last branch ends first. -/
theorem run_fanOut_lastFirst :
    let lastFirst : Schedule := ⟨fun runs => (Run.numbered runs).reverse, fun _ =>
      List.reverse_perm _⟩
    let ping : Tool := .ofFunction "ping" fun _ => .ok (.integer 1)
    let c : Context := { Context.new "run" with tools := .ofList [ping] }
    let call (name : String) : Module :=
      .mk name (.ofSides [] [.required name .integer]) (.tool "ping")
    let both : Signature := .ofSides [] [.required "one" .integer, .required "two" .integer]
    ((Executable.ofKindBy c lastFirst "both" both
      (.parallel [(call "one").executable c, (call "two").executable c])).run []).outcome =
        .ok [⟨.required "one" .integer, .integer 1⟩, ⟨.required "two" .integer, .integer 1⟩] := by
  intro lastFirst ping c call both
  have hway : (mk "both" both (.parallel [call "one", call "two"])).RunsAs c.Alike
      (Executable.ofKindBy c lastFirst "both" both
        (.parallel [(call "one").executable c, (call "two").executable c])) := by
    rw [runsAs_mk_iff]
    refine ⟨c, lastFirst, _, .refl c, .parallel (.cons ?_ (.cons ?_ .nil)), rfl⟩
    · exact runsAs_executable (.refl c) _
    · exact runsAs_executable (.refl c) _
  have hready : Executable.resolveBranches c.policy ⟨[]⟩
      [(call "one").executable c, (call "two").executable c] =
        .ok [((call "one").executable c, []), ((call "two").executable c, [])] := rfl
  rw [((run_independent_of_schedule c _ []).2.1 _ hway).1]
  exact (Executable.runParallel_of_ready "both" both hready).1

end Module

end WorkflowEngine
