import WorkflowEngine.Proofs.Except
import WorkflowEngine.Proofs.Runs.Agreement
import WorkflowEngine.Proofs.Shapes

/-!
# Branches that run at the same time

Branches end in whatever order their times give, and could end in any other. Their results are put
at the places of the branches, and nothing that comes of a fan-out but its time and the order of its
log shows the order in which they ended.
-/

namespace WorkflowEngine

namespace Run

variable {α : Type}

/-- The outcomes of several runs, each with the place of its run. -/
def numbered (runs : List (Run α)) : List (Nat × Except Error α) :=
  runs.zipIdx.map fun a => (a.2, a.1.outcome)

theorem perm_arrivals (runs : List (Run α)) : (arrivals runs).Perm (numbered runs) :=
  (List.mergeSort_perm _ _).map _

end Run

/-- An order in which branches that run at the same time may end: every branch ends once, before or
after any other. -/
structure Schedule where
  /-- The outcomes in the order in which they arrive, each with the place of its branch. -/
  arrivals : List (Run (List Value)) → List (Nat × Except Error (List Value))
  /-- Every outcome arrives, and arrives once. -/
  perm : ∀ runs, (arrivals runs).Perm (Run.numbered runs)

namespace Schedule

/-- Branches end when their times are over. -/
def byTime : Schedule := ⟨Run.arrivals, Run.perm_arrivals⟩

/-- Runs at the same time, each to its end, that end in the order of a schedule. -/
def together (schedule : Schedule) (runs : List (Run (List Value))) :
    Run (List (Nat × Except Error (List Value))) :=
  { Run.together runs with outcome := .ok (schedule.arrivals runs) }

end Schedule

namespace Executable

/-- The behaviour of a fan-out whose branches end in the order of a schedule. -/
def runParallelBy (schedule : Schedule) (id : ModuleId) (signature : Signature)
    (policy : InputPolicy) (branches : List Executable) (input : List Value) :
    Run (List Value) :=
  let available : ValueSet := ⟨input⟩
  (Run.ofExcept (resolveBranches policy available branches)).andThen fun ready =>
    (schedule.together (ready.map fun b => b.1.invoke .empty available b.2)).andThen fun arrivals =>
      .ofExcept <| (joinFrom id 0 (slots branches.length arrivals)).map fun outputs =>
        outputs.filter fun v => signature.declaresOutput v.name

/-- A fan-out runs by time. -/
theorem runParallelBy_byTime : runParallelBy .byTime = runParallel := rfl

variable {α : Type}

/-- A place for which nothing arrives stays as it is. -/
theorem getElem?_foldl_set_of_notMem {arrivals : List (Nat × α)} {slots : List (Option α)} {i : Nat}
    (h : i ∉ arrivals.map Prod.fst) :
    (arrivals.foldl (fun slots a => slots.set a.1 (some a.2)) slots)[i]? = slots[i]? := by
  induction arrivals generalizing slots with
  | nil => rfl
  | cons a rest ih =>
    simp only [List.map_cons, List.mem_cons, not_or] at h
    rw [List.foldl_cons, ih h.2, List.getElem?_set_ne (Ne.symm h.1)]

/-- The one result for a place stands there in the end. -/
theorem getElem?_foldl_set_of_mem {arrivals : List (Nat × α)} {slots : List (Option α)} {i : Nat}
    {a : α} (hnodup : (arrivals.map Prod.fst).Nodup) (h : (i, a) ∈ arrivals)
    (hi : i < slots.length) :
    (arrivals.foldl (fun slots a => slots.set a.1 (some a.2)) slots)[i]? = some (some a) := by
  induction arrivals generalizing slots with
  | nil => exact absurd h List.not_mem_nil
  | cons b rest ih =>
    rw [List.map_cons, List.nodup_cons] at hnodup
    rw [List.foldl_cons]
    rcases List.mem_cons.1 h with rfl | h
    · rw [getElem?_foldl_set_of_notMem hnodup.1, List.getElem?_set_self hi]
    · exact ih hnodup.2 h (by rwa [List.length_set])

theorem length_foldl_set (arrivals : List (Nat × α)) (slots : List (Option α)) :
    (arrivals.foldl (fun slots a => slots.set a.1 (some a.2)) slots).length = slots.length := by
  induction arrivals generalizing slots with
  | nil => rfl
  | cons a rest ih => rw [List.foldl_cons, ih, List.length_set]

/-- In whatever order the outcomes of the branches arrive, each comes to stand at the place of its
branch; no place stays empty. -/
theorem slots_of_perm {runs : List (Run α)} {arrivals : List (Nat × Except Error α)}
    (hperm : arrivals.Perm (Run.numbered runs)) :
    slots runs.length arrivals = runs.map fun r => some r.outcome := by
  have hplaces : (Run.numbered runs).map Prod.fst = List.range' 0 runs.length := by
    rw [Run.numbered, List.map_map]
    exact List.zipIdx_map_snd 0 runs
  have hnodup : (arrivals.map Prod.fst).Nodup := by
    rw [(hperm.map Prod.fst).nodup_iff, hplaces]
    exact List.nodup_range'
  -- Each place below the number of branches is written once, and there is none beyond.
  apply List.ext_getElem?
  intro i
  by_cases hi : i < runs.length
  · have hmem : (i, runs[i].outcome) ∈ arrivals := by
      rw [hperm.mem_iff, Run.numbered, List.mem_map]
      refine ⟨(runs[i], i), ?_, rfl⟩
      exact List.mk_mem_zipIdx_iff_getElem?.2 (List.getElem?_eq_getElem hi)
    have hplace : i < (List.replicate runs.length (none : Option (Except Error α))).length := by
      rwa [List.length_replicate]
    rw [slots, getElem?_foldl_set_of_mem hnodup hmem hplace, List.getElem?_map,
      List.getElem?_eq_getElem hi, Option.map_some]
  · have hslots : (slots runs.length arrivals).length = runs.length := by
      rw [slots, length_foldl_set, List.length_replicate]
    have hmap : (runs.map fun r => some r.outcome).length = runs.length := List.length_map _
    rw [List.getElem?_eq_none (by omega), List.getElem?_eq_none (by omega)]

end Executable

namespace Run

variable {α : Type}

/-- What happens in branches that run at the same time is what happens in each of them. -/
theorem events_together (runs : List (Run α)) :
    (together runs).events.Perm (runs.flatMap events) := by
  have hlog : (together runs).log.Perm (runs.flatMap log) := List.mergeSort_perm _ _
  have hevents := hlog.map Prod.snd
  rw [List.map_flatMap] at hevents
  exact hevents

end Run

namespace Executable

/-- Branches that are ready come in their order, each with its inputs. -/
theorem forall₂_of_resolveBranches_eq_ok {policy : InputPolicy} {available : ValueSet}
    {branches : List Executable} {ready : List (Executable × List Value)}
    (h : resolveBranches policy available branches = .ok ready) :
    List.Forall₂ (fun b r => r.1 = b ∧
      resolveInputs b.id .empty policy available b.signature.input = .ok r.2) branches ready := by
  induction branches generalizing ready with
  | nil =>
    cases h
    exact .nil
  | cons b rest ih =>
    unfold resolveBranches at h
    obtain ⟨input, hinput, h⟩ := bind_eq_ok_iff.1 h
    obtain ⟨ready', hrest, h⟩ := bind_eq_ok_iff.1 h
    rw [pure_eq_ok_iff.1 h]
    exact .cons ⟨rfl, hinput⟩ (ih hrest)

/-- The runs of branches that are ready. -/
def branchRuns (available : ValueSet) (ready : List (Executable × List Value)) :
    List (Run (List Value)) :=
  ready.map fun b => b.1.invoke .empty available b.2

/-- A fan-out with a branch whose inputs are not resolved fails, and nothing happens. -/
theorem runParallelBy_of_error (schedule : Schedule) (id : ModuleId) (signature : Signature)
    {policy : InputPolicy} {branches : List Executable} {input : List Value} {e : Error}
    (h : resolveBranches policy ⟨input⟩ branches = .error e) :
    (runParallelBy schedule id signature policy branches input).outcome = .error e ∧
      (runParallelBy schedule id signature policy branches input).events = [] :=
  Run.andThen_of_error _ (show (Run.ofExcept (resolveBranches policy ⟨input⟩ branches)).outcome =
    .error e from h)

/-- A fan-out whose branches are ready joins their outcomes in the order of the branches, and what
happens in it is what happens in the branches, whatever the schedule. -/
theorem runParallelBy_of_ready (schedule : Schedule) (id : ModuleId) (signature : Signature)
    {policy : InputPolicy} {branches : List Executable} {input : List Value}
    {ready : List (Executable × List Value)}
    (hready : resolveBranches policy ⟨input⟩ branches = .ok ready) :
    (runParallelBy schedule id signature policy branches input).outcome =
        (joinFrom id 0 ((branchRuns ⟨input⟩ ready).map fun r => some r.outcome)).map
          (List.filter fun v => signature.declaresOutput v.name) ∧
      (runParallelBy schedule id signature policy branches input).events.Perm
        ((branchRuns ⟨input⟩ ready).flatMap Run.events) := by
  have hlength : (branchRuns ⟨input⟩ ready).length = branches.length :=
    (List.length_map _).trans (forall₂_of_resolveBranches_eq_ok hready).length_eq.symm
  have hslots := slots_of_perm (schedule.perm (branchRuns ⟨input⟩ ready))
  rw [hlength] at hslots
  obtain ⟨houtcome, hevents⟩ := Run.andThen_of_ok (fun ready =>
    (schedule.together (branchRuns ⟨input⟩ ready)).andThen fun arrivals => .ofExcept
      ((joinFrom id 0 (slots branches.length arrivals)).map
        (List.filter fun v => signature.declaresOutput v.name)))
    (show (Run.ofExcept (resolveBranches policy ⟨input⟩ branches)).outcome = .ok ready from hready)
  obtain ⟨hjoined, hmerged⟩ := Run.andThen_of_ok (fun arrivals => .ofExcept
      ((joinFrom id 0 (slots branches.length arrivals)).map
        (List.filter fun v => signature.declaresOutput v.name)))
    (show (schedule.together (branchRuns ⟨input⟩ ready)).outcome =
      .ok (schedule.arrivals (branchRuns ⟨input⟩ ready)) from rfl)
  rw [hslots] at hjoined
  rw [hmerged, Run.events_ofExcept, Run.events_ofExcept, List.nil_append,
    List.append_nil] at hevents
  refine ⟨houtcome.trans hjoined, ?_⟩
  rw [show (runParallelBy schedule id signature policy branches input).events = _ from hevents]
  exact Run.events_together _

/-- Results that are joined are those of all branches, in the order of the branches. -/
theorem exists_of_joinFrom_eq_ok {id : ModuleId} {place : Nat} {runs : List (Run (List Value))}
    {outputs : List Value}
    (h : joinFrom id place (runs.map fun r => some r.outcome) = .ok outputs) :
    ∃ results, List.Forall₂ (fun r given => r.outcome = .ok given) runs results ∧
      outputs = results.flatten := by
  induction runs generalizing place outputs with
  | nil =>
    cases h
    exact ⟨[], .nil, rfl⟩
  | cons r rest ih =>
    rw [List.map_cons] at h
    cases hr : r.outcome with
    | error e =>
      rw [hr] at h
      cases h
    | ok given =>
      rw [hr, joinFrom] at h
      obtain ⟨more, hrest, rfl⟩ := map_eq_ok_iff.1 h
      obtain ⟨results, hall, rfl⟩ := ih hrest
      exact ⟨given :: results, .cons hr hall, rfl⟩

/-- What a fan-out gives are the declared ones among the results of its branches, in the order of
the branches; each branch has run on inputs resolved for it. -/
theorem exists_of_runParallelBy_eq_ok {schedule : Schedule} {id : ModuleId} {signature : Signature}
    {policy : InputPolicy} {branches : List Executable} {input outputs : List Value}
    (h : (runParallelBy schedule id signature policy branches input).outcome = .ok outputs) :
    ∃ results, List.Forall₂ (fun b given => ∃ taken,
        resolveInputs b.id .empty policy ⟨input⟩ b.signature.input = .ok taken ∧
          (b.run taken).outcome = .ok given) branches results ∧
      outputs = results.flatten.filter fun v => signature.declaresOutput v.name := by
  cases hready : resolveBranches policy ⟨input⟩ branches with
  | error e => cases (runParallelBy_of_error schedule id signature hready).1.symm.trans h
  | ok ready =>
    rw [(runParallelBy_of_ready schedule id signature hready).1] at h
    obtain ⟨joined, hjoin, rfl⟩ := map_eq_ok_iff.1 h
    obtain ⟨results, hresults, rfl⟩ := exists_of_joinFrom_eq_ok hjoin
    refine ⟨results, ?_, rfl⟩
    rw [branchRuns, List.forall₂_map_left_iff] at hresults
    apply (forall₂_comp (forall₂_of_resolveBranches_eq_ok hready) hresults).imp
    rintro b given ⟨⟨b', taken⟩, ⟨rfl, htaken⟩, hgiven⟩
    exact ⟨taken, htaken, hgiven⟩

/-- By time, a fan-out whose branches are ready joins their outcomes in the order of the branches.
-/
theorem runParallel_of_ready (id : ModuleId) (signature : Signature) {policy : InputPolicy}
    {branches : List Executable} {input : List Value} {ready : List (Executable × List Value)}
    (hready : resolveBranches policy ⟨input⟩ branches = .ok ready) :
    (runParallel id signature policy branches input).outcome =
        (joinFrom id 0 ((branchRuns ⟨input⟩ ready).map fun r => some r.outcome)).map
          (List.filter fun v => signature.declaresOutput v.name) ∧
      (runParallel id signature policy branches input).events.Perm
        ((branchRuns ⟨input⟩ ready).flatMap Run.events) :=
  runParallelBy_of_ready .byTime id signature hready

end Executable

end WorkflowEngine
