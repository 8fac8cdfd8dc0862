import WorkflowEngine.Engine
import WorkflowEngine.Proofs.Ascending
import Mathlib.Algebra.Order.Ring.Int
import Mathlib.Data.List.Permutation

/-!
# What runs leave measured

A run is counted when it begins, and when it has ended it is no longer under way, whatever its
outcome is. Of its children only those count that ended within the limit of time, and each of them
with its status and with its duration. So after any number of runs the measurements balance, also
where a limit has cut a run off in the middle of its work.
-/

namespace WorkflowEngine

namespace Status

/-- Every status. -/
def all : List Status := [.success, .timeout, .failed]

theorem mem_all (s : Status) : s ∈ all := by cases s <;> decide

end Status

namespace Measurement

/-! ## Totals -/

theorem foldl_amount (ms : List Measurement) (start : Int) :
    ms.foldl (fun t m => t + m.amount) start = start + ms.foldl (fun t m => t + m.amount) 0 := by
  induction ms generalizing start with
  | nil => exact (Int.add_zero start).symm
  | cons m rest ih =>
    rw [List.foldl_cons, List.foldl_cons, ih (start + m.amount), ih (0 + m.amount)]
    omega

theorem total_nil (s : Series) : total s [] = 0 := rfl

theorem total_cons (s : Series) (m : Measurement) (ms : List Measurement) :
    total s (m :: ms) = (if m.series = s then m.amount else 0) + total s ms := by
  unfold total
  rw [List.filter_cons]
  by_cases h : m.series = s
  · rw [if_pos (decide_eq_true h), if_pos h, List.foldl_cons, foldl_amount, Int.zero_add]
  · have hdecide : ¬ decide (m.series = s) = true := by rwa [decide_eq_true_eq]
    rw [if_neg hdecide, if_neg h, Int.zero_add]

/-- Measurements of one series add up. -/
theorem total_append (s : Series) (ms ms' : List Measurement) :
    total s (ms ++ ms') = total s ms + total s ms' := by
  induction ms with
  | nil => rw [List.nil_append, total_nil, Int.zero_add]
  | cons m rest ih =>
    rw [List.cons_append, total_cons, total_cons, ih]
    omega

/-- A series that nothing was measured of has no total. -/
theorem total_eq_zero {s : Series} {ms : List Measurement} (h : ∀ m ∈ ms, m.series ≠ s) :
    total s ms = 0 := by
  induction ms with
  | nil => rfl
  | cons m rest ih =>
    obtain ⟨hm, hrest⟩ := List.forall_mem_cons.1 h
    rw [total_cons, if_neg hm, ih hrest, Int.zero_add]

/-- What is measured in a log. -/
def ofLog (log : EventLog) : List Measurement := log.flatMap fun e => ofEvent e.2

/-- A run is counted once in the end, under the status of its outcome and with its duration; that it
was under way leaves nothing behind. -/
theorem total_ofRun {α : Type} (s : Series) (r : Run α) :
    total s (ofRun r) = total s (ofLog r.log) + (if .executionDuration = s then 1 else 0) +
      (if .executions (.ofOutcome r.outcome) = s then 1 else 0) := by
  have hparts : ofRun r = [⟨.activeExecutions, 1⟩] ++ ofLog r.log ++ [⟨.activeExecutions, -1⟩,
      ⟨.executionDuration, 1⟩, ⟨.executions (.ofOutcome r.outcome), 1⟩] := rfl
  rw [hparts, total_append, total_append]
  simp only [total_cons, total_nil]
  by_cases hactive : Series.activeExecutions = s
  · rw [if_pos hactive, if_pos hactive]
    omega
  · rw [if_neg hactive, if_neg hactive]
    omega

/-- An event has measurements of an invocation only. -/
theorem total_ofEvent_eq_zero (s : Series)
    (hinvocations : ∀ type status, .invocations type status ≠ s)
    (hdurations : ∀ type, .moduleDuration type ≠ s) (e : Event) : total s (ofEvent e) = 0 := by
  apply total_eq_zero
  intro m hm
  cases e with
  | invoked i =>
    simp only [ofEvent, List.mem_cons, List.not_mem_nil, or_false] at hm
    rcases hm with rfl | rfl
    · exact hinvocations i.type i.status
    · exact hdurations i.type
  | generated _ _ | called _ _ _ | requested _ _ => cases hm

/-- A log counts for nothing but invocations and the durations of modules. -/
theorem total_ofLog_eq_zero (s : Series)
    (hinvocations : ∀ type status, .invocations type status ≠ s)
    (hdurations : ∀ type, .moduleDuration type ≠ s) (log : EventLog) : total s (ofLog log) = 0 := by
  induction log with
  | nil => rfl
  | cons e rest ih =>
    have hcons : ofLog (e :: rest) = ofEvent e.2 ++ ofLog rest := rfl
    rw [hcons, total_append, total_ofEvent_eq_zero s hinvocations hdurations, ih, Int.add_zero]

/-- An invocation that has ended is counted once with its status and once with its duration. -/
theorem total_moduleDuration_ofEvent (type : ModuleType) (e : Event) :
    total (.moduleDuration type) (ofEvent e) =
      (Status.all.map fun status => total (.invocations type status) (ofEvent e)).sum := by
  cases e with
  | invoked i =>
    simp only [ofEvent, total_cons, total_nil, Status.all, List.map_cons, List.map_nil,
      List.sum_cons, List.sum_nil, Series.invocations.injEq, Series.moduleDuration.injEq,
      reduceCtorEq, if_false]
    by_cases htype : i.type = type
    · cases i.status <;> simp [htype]
    · simp [htype]
  | generated _ _ | called _ _ _ | requested _ _ => rfl

/-- What is counted by status may be counted in two parts. -/
theorem sum_map_add (f g : Status → Int) (l : List Status) :
    (l.map fun status => f status + g status).sum = (l.map f).sum + (l.map g).sum := by
  induction l with
  | nil => rfl
  | cons a rest ih =>
    simp only [List.map_cons, List.sum_cons, ih]
    omega

/-! ## Balance -/

/-- Measurements that balance after a number of runs. -/
structure Balanced (runs : Nat) (ms : List Measurement) : Prop where
  /-- No run is under way. -/
  active : total .activeExecutions ms = 0
  /-- Every run has ended in one of the ways. -/
  executions : (Status.all.map fun status => total (.executions status) ms).sum = runs
  /-- Every run has a duration. -/
  durations : total .executionDuration ms = runs
  /-- Every invocation of a child that has ended in one of the ways has a duration. -/
  invocations : ∀ type, total (.moduleDuration type) ms =
    (Status.all.map fun status => total (.invocations type status) ms).sum

namespace Balanced

/-- Without any run all counts are zero. -/
theorem nil : Balanced 0 [] := ⟨rfl, rfl, rfl, fun _ => rfl⟩

/-- Balances of one part of the measurements and of the other add up. -/
theorem append {runs runs' : Nat} {ms ms' : List Measurement} (h : Balanced runs ms)
    (h' : Balanced runs' ms') : Balanced (runs + runs') (ms ++ ms') where
  active := by rw [total_append, h.active, h'.active]; rfl
  executions := by
    simp only [total_append, sum_map_add, h.executions, h'.executions, Int.natCast_add]
  durations := by rw [total_append, h.durations, h'.durations, Int.natCast_add]
  invocations := by
    intro type
    simp only [total_append, sum_map_add, h.invocations, h'.invocations]

/-- What is measured of an event balances, whether or not an invocation ends with it. -/
theorem ofEvent (e : Event) : Balanced 0 (Measurement.ofEvent e) where
  active := total_ofEvent_eq_zero .activeExecutions nofun nofun e
  executions := by
    have hzero : ∀ status, total (.executions status) (Measurement.ofEvent e) = 0 :=
      fun status => total_ofEvent_eq_zero (.executions status) nofun nofun e
    simp only [hzero, Status.all, List.map_cons, List.map_nil]
    rfl
  durations := total_ofEvent_eq_zero .executionDuration nofun nofun e
  invocations := fun type => total_moduleDuration_ofEvent type e

/-- What happens in a run leaves the balance as it is, wherever a limit has cut the run off. -/
theorem ofLog (log : EventLog) : Balanced 0 (Measurement.ofLog log) := by
  induction log with
  | nil => exact nil
  | cons e rest ih => exact (ofEvent e.2).append ih

/-- A run is one run, whatever its outcome is. -/
theorem ofRun {α : Type} (r : Run α) : Balanced 1 (Measurement.ofRun r) := by
  have hlog := Balanced.ofLog r.log
  constructor
  · simp only [total_ofRun, hlog.active, reduceCtorEq, if_false, Int.add_zero]
  · have hended : (Status.all.map fun status =>
        if Series.executions (.ofOutcome r.outcome) = .executions status then (1 : Int) else 0).sum
          = 1 := by
      cases Status.ofOutcome r.outcome <;> rfl
    have hothers : (Status.all.map fun status =>
        if Series.executionDuration = .executions status then (1 : Int) else 0).sum = 0 := rfl
    simp only [total_ofRun, sum_map_add, hlog.executions, hothers, hended]
    rfl
  · simp only [total_ofRun, hlog.durations, reduceCtorEq, if_true, if_false]
    rfl
  · intro type
    have hothers : (Status.all.map fun _ => (0 : Int)).sum = 0 := rfl
    simp only [total_ofRun, hlog.invocations, sum_map_add, reduceCtorEq, if_false, hothers]

end Balanced

end Measurement

/-! ## Names of series -/

namespace Series

/-- Every series. -/
def all : List Series :=
  [.activeExecutions, .executionDuration] ++ Status.all.map .executions ++
    ModuleType.all.flatMap fun type => .moduleDuration type :: Status.all.map (.invocations type)

theorem mem_all (s : Series) : s ∈ all := by
  have hclass (type : ModuleType) : type ∈ ModuleType.all := by cases type <;> decide
  cases s with
  | activeExecutions | executionDuration => decide
  | executions status =>
    exact List.mem_append_left _ (List.mem_append_right _
      (List.mem_map_of_mem (Status.mem_all status)))
  | invocations type status =>
    refine List.mem_append_right _ (List.mem_flatMap.2 ⟨type, hclass type, ?_⟩)
    exact List.mem_cons_of_mem _ (List.mem_map_of_mem (Status.mem_all status))
  | moduleDuration type =>
    exact List.mem_append_right _ (List.mem_flatMap.2 ⟨type, hclass type, List.mem_cons_self⟩)

/-- No two series go by one name. -/
theorem name_injective {s t : Series} (h : s.name = t.name) : s = t := by
  have hnodup : (all.map name).Nodup := by decide +kernel
  exact List.inj_on_of_nodup_map hnodup (mem_all s) (mem_all t) h

end Series

/-- What stands under the name of a series is its total; nothing stands there if nothing was
measured of the series. -/
theorem Measurement.get?_totals (ms : List Measurement) (s : Series) :
    (totals ms).get? s.name = if s ∈ ms.map series then some (total s ms) else none := by
  have hkeys : s.name ∈ (totals ms).keys ↔ s ∈ ms.map series := by
    rw [totals, Ascending.mem_keys_ofList, List.map_map]
    simp only [List.mem_map, Function.comp_apply]
    constructor
    · rintro ⟨m, hm, hname⟩
      exact ⟨m, hm, Series.name_injective hname⟩
    · rintro ⟨m, hm, rfl⟩
      exact ⟨m, hm, rfl⟩
  rw [Ascending.mem_keys_iff] at hkeys
  split
  · next hmem =>
    obtain ⟨⟨name, value⟩, hfind⟩ := hkeys.2 hmem
    obtain ⟨hin, hname⟩ := Ascending.find?_eq_some_iff.1 hfind
    obtain ⟨m, _, hm⟩ := List.mem_map.1 (Ascending.mem_of_mem_ofList hin)
    obtain ⟨rfl, rfl⟩ := Prod.mk.inj hm
    have hseries : m.series = s := Series.name_injective hname
    rw [Dictionary.get?, hfind, Option.map_some, hseries]
  · next hmem =>
    have hnone : (totals ms).find? s.name = none := by
      by_contra hsome
      exact hmem (hkeys.1 (Option.ne_none_iff_exists'.1 hsome))
    rw [Dictionary.get?, hnone, Option.map_none]

/-- Under the name of a series stands its total, or nothing where the total is zero because nothing
was measured. -/
theorem Measurement.getD_get?_totals (ms : List Measurement) (s : Series) :
    ((totals ms).get? s.name).getD 0 = total s ms := by
  rw [get?_totals]
  split
  · rfl
  · next hnone =>
    refine (total_eq_zero fun m hm hseries => hnone ?_).symm
    exact hseries ▸ List.mem_map_of_mem hm

/-! ## Runs of engines -/

/-- Something that an engine runs. -/
structure Execution where
  /-- The engine. -/
  engine : Engine
  /-- Identifies the run. -/
  executionId : String
  /-- The module that is run. -/
  module : Module
  /-- Its input. -/
  input : List Value

namespace Execution

open Measurement

/-- The run. -/
def run (x : Execution) : Run (List Value) := x.engine.execute x.executionId x.module x.input

/-- The status of its outcome. -/
def status (x : Execution) : Status := .ofOutcome x.run.outcome

/-- What has been measured when several runs have ended, one after the other. -/
def measured (xs : List Execution) : List Measurement := xs.flatMap fun x => ofRun x.run

/-- The measurements of any runs balance. -/
theorem balanced_measured (xs : List Execution) : Balanced xs.length (measured xs) := by
  induction xs with
  | nil => exact .nil
  | cons x rest ih =>
    rw [List.length_cons, Nat.add_comm]
    exact (Balanced.ofRun x.run).append ih

/-- Of the ways to end, a run adds one to that of its outcome, and nothing to the others. -/
theorem total_executions_ofRun (x : Execution) (status : Status) :
    total (.executions status) (ofRun x.run) = if x.status = status then 1 else 0 := by
  rw [total_ofRun, total_ofLog_eq_zero (.executions status) nofun nofun]
  simp only [reduceCtorEq, if_false, Series.executions.injEq, Int.zero_add]
  rfl

/-- Under a status are counted the runs that have ended so. -/
theorem total_executions_measured (xs : List Execution) (status : Status) :
    total (.executions status) (measured xs) = xs.countP fun x => x.status = status := by
  induction xs with
  | nil => rfl
  | cons x rest ih =>
    have hcons : measured (x :: rest) = ofRun x.run ++ measured rest := rfl
    rw [hcons, total_append, total_executions_ofRun, ih, List.countP_cons]
    simp only [decide_eq_true_eq]
    split <;> omega

/-- After any number of runs, of whatever modules by whatever engines, with whatever outcomes and
wherever limits have cut them off:

1. no run is under way;
2. the runs that have ended in any of the ways are all the runs, and so are those with a duration;
3. every run has been counted under one status and no other: success for a result, timeout for a
   timeout, and failed for any other error;
4. of the invocations of children of a class there are as many durations as there are ends;
5. each of these totals stands under the name of its series. -/
theorem measured_balance (xs : List Execution) :
    total .activeExecutions (measured xs) = 0 ∧
      ((Status.all.map fun status => total (.executions status) (measured xs)).sum = xs.length ∧
        total .executionDuration (measured xs) = xs.length) ∧
      ((∀ status, total (.executions status) (measured xs) =
          xs.countP fun x => x.status = status) ∧
        ∀ x : Execution,
          (x.status = .success ↔ ∃ outputs, x.run.outcome = .ok outputs) ∧
          (x.status = .timeout ↔ ∃ limit, x.run.outcome = .error (.timeout limit)) ∧
          (x.status = .failed ↔
            ∃ e, x.run.outcome = .error e ∧ ∀ limit, e ≠ .timeout limit)) ∧
      (∀ type, total (.moduleDuration type) (measured xs) =
        (Status.all.map fun status => total (.invocations type status) (measured xs)).sum) ∧
      ∀ s : Series, ((totals (measured xs)).get? s.name).getD 0 = total s (measured xs) := by
  have hbalanced := balanced_measured xs
  refine ⟨hbalanced.active, ⟨hbalanced.executions, hbalanced.durations⟩,
    ⟨total_executions_measured xs, fun x => ?_⟩, hbalanced.invocations, getD_get?_totals _⟩
  exact ⟨Status.ofOutcome_eq_success_iff _, Status.ofOutcome_eq_timeout_iff _,
    Status.ofOutcome_eq_failed_iff _⟩

/-- A tool that gives nothing, after three nanoseconds. -/
def pause : Tool := ⟨"pause", "", fun _ => (Run.ofExcept (.ok .null)).after 3⟩

/-- An engine with a tool that is done at once and one that is not. -/
def waiting (limit : Option Duration) : Engine :=
  { Engine.new .empty .unreachable with tools := .ofList [.echo, pause], timeout := limit }

/-- A parallel that echoes in one branch, and pauses in a parallel that is the other. -/
def nestedPause : Module :=
  .mk "outer" .empty (.parallel [.mk "echo" .empty (.tool "echo"),
    .mk "inner" .empty (.parallel [.mk "pause" .empty (.tool "pause")])])

/-- A run that has all the time it takes. -/
def whole : Execution := ⟨waiting none, "first", nestedPause, []⟩

/-- A run of the same module that has too little time. -/
def cutOff : Execution := ⟨waiting (some ⟨2⟩), "second", nestedPause, []⟩

/-- A run of a tool that there is not. -/
def lost : Execution := ⟨waiting none, "third", .mk "lost" .empty (.tool "lost"), []⟩

/-- Of three runs one ends with a result, one is cut off inside the inner parallel, and one fails:
each is counted once, under the word for its status. The first run counts three children and the
second one only the echo, the one child that had ended within the limit. -/
theorem measured_threeRuns :
    let ms := measured [whole, cutOff, lost]
    (whole.run.outcome = .ok [] ∧ cutOff.run.outcome = .error (.timeout ⟨2⟩) ∧
        lost.run.outcome = .error (.toolNotFound "lost")) ∧
      (whole.status = .success ∧ cutOff.status = .timeout ∧ lost.status = .failed) ∧
      (whole.status.name = "success" ∧ cutOff.status.name = "timeout" ∧
        lost.status.name = "failed") ∧
      (∀ status, total (.executions status) ms = 1) ∧
      (∀ word ∈ ["success", "timeout", "failed"],
        ((totals ms).get? ("modflow_executions_total\x7bstatus=" ++ word ++ "\x7d")).getD 0 = 1) ∧
      total .activeExecutions ms = 0 ∧ total .executionDuration ms = 3 ∧
      total (.moduleDuration .tool) ms = 3 ∧ total (.moduleDuration .parallel) ms = 1 := by
  obtain ⟨hactive, ⟨-, hdurations⟩, ⟨hcounts, hstatus⟩, hchildren, hnames⟩ :=
    measured_balance [whole, cutOff, lost]
  have hwhole : whole.run.outcome = .ok [] := by cbv
  have hcut : cutOff.run.outcome = .error (.timeout ⟨2⟩) := by cbv
  have hlost : lost.run.outcome = .error (.toolNotFound "lost") := by cbv
  have hsuccess := (hstatus whole).1.2 ⟨_, hwhole⟩
  have htimeout := (hstatus cutOff).2.1.2 ⟨_, hcut⟩
  have hfailed := (hstatus lost).2.2.2 ⟨_, hlost, by rintro _ ⟨⟩⟩
  have honce (status : Status) :
      total (.executions status) (measured [whole, cutOff, lost]) = 1 := by
    rw [hcounts]
    simp only [List.countP_cons, List.countP_nil, hsuccess, htimeout, hfailed]
    cases status <;> rfl
  refine ⟨⟨hwhole, hcut, hlost⟩, ⟨hsuccess, htimeout, hfailed⟩, ?_, honce, ?_, hactive,
    hdurations, ?_, ?_⟩
  · rw [hsuccess, htimeout, hfailed]
    exact ⟨rfl, rfl, rfl⟩
  · have hword (status : Status) := (hnames (.executions status)).trans (honce status)
    simp only [List.forall_mem_cons]
    exact ⟨hword .success, hword .timeout, hword .failed, List.forall_mem_nil _⟩
  · rw [hchildren]
    cbv
  · rw [hchildren]
    cbv

end Execution

end WorkflowEngine
