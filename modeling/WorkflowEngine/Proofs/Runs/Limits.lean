import WorkflowEngine.Engine
import WorkflowEngine.Proofs.Runs.Simulation

/-!
# Runs under a limit of time

The log of a run is in the order of time and holds nothing later than the end of the run, provided
that this is true of what the capabilities put into it by themselves: runs one after the other add
their times up, and the logs of runs at the same time are merged by time. So a limit cuts a log in
two. What happened within the limit is a beginning of what happens within a longer one, and a run
that the limit leaves its time is the same under every longer limit.
-/

namespace WorkflowEngine

namespace Run

variable {α β : Type}

/-! ## Logs in the order of time -/

/-- A run whose log is in the order of time and holds nothing later than the end of the run. -/
structure Timely (r : Run α) : Prop where
  /-- The log is in the order of time. -/
  ordered : r.log.Pairwise fun a b => a.1 ≤ b.1
  /-- Nothing happens after the end. -/
  bounded : ∀ e ∈ r.log, e.1 ≤ r.elapsed

theorem mem_delay_iff {nanos : Nat} {log : EventLog} {e : Nat × Event} :
    e ∈ delay nanos log ↔ nanos ≤ e.1 ∧ (e.1 - nanos, e.2) ∈ log := by
  obtain ⟨time, event⟩ := e
  simp only [delay, List.mem_map, Prod.mk.injEq, Prod.exists]
  constructor
  · rintro ⟨t, _, h, rfl, rfl⟩
    rw [Nat.add_sub_cancel_left]
    exact ⟨Nat.le_add_right _ _, h⟩
  · rintro ⟨hle, h⟩
    exact ⟨time - nanos, event, h, by omega, rfl⟩

/-- A delay keeps the order of time. -/
theorem pairwise_delay {nanos : Nat} {log : EventLog} (h : log.Pairwise fun a b => a.1 ≤ b.1) :
    (delay nanos log).Pairwise fun a b => a.1 ≤ b.1 := by
  rw [delay, List.pairwise_map]
  apply h.imp
  intro a b hab
  simp only
  omega

theorem le_foldl_max (runs : List (Run α)) (nanos : Nat) :
    nanos ≤ runs.foldl (fun t r => max t r.elapsed) nanos ∧
      ∀ r ∈ runs, r.elapsed ≤ runs.foldl (fun t r => max t r.elapsed) nanos := by
  induction runs generalizing nanos with
  | nil => simp
  | cons r rest ih =>
    obtain ⟨hstart, hrest⟩ := ih (max nanos r.elapsed)
    simp only [List.foldl_cons, List.forall_mem_cons]
    exact ⟨by omega, by omega, hrest⟩

/-- No run takes more time than the longest. -/
theorem elapsed_le_longest {runs : List (Run α)} {r : Run α} (h : r ∈ runs) :
    r.elapsed ≤ longest runs :=
  (le_foldl_max runs 0).2 r h

/-- The logs of runs at the same time are merged in the order of time. -/
theorem pairwise_mergedLog (runs : List (Run α)) :
    (mergedLog runs).Pairwise fun a b => a.1 ≤ b.1 := by
  apply List.Pairwise.imp fun {_ _} h => of_decide_eq_true h
  apply List.pairwise_mergeSort
  · intro a b c hab hbc
    simp only [decide_eq_true_eq] at hab hbc ⊢
    omega
  · intro a b
    simp only [Bool.or_eq_true, decide_eq_true_eq]
    omega

namespace Timely

theorem ofExcept (outcome : Except Error α) : (Run.ofExcept outcome).Timely := ⟨.nil, nofun⟩

/-- The end of a run is its last event. -/
theorem closing {r : Run α} (h : r.Timely) (event : Except Error α → Event) :
    (r.closing event).Timely where
  ordered := by
    simp only [Run.closing, List.pairwise_append, List.pairwise_singleton, List.mem_singleton,
      forall_eq, true_and]
    exact ⟨h.ordered, h.bounded⟩
  bounded := by
    simp only [Run.closing, List.mem_append, List.mem_singleton]
    rintro e (he | rfl)
    · exact h.bounded e he
    · exact Nat.le_refl _

/-- What an error is made into does not matter to times. -/
theorem mapError {r : Run α} (h : r.Timely) (f : Error → Error) : (r.mapError f).Timely :=
  ⟨h.ordered, h.bounded⟩

/-- What depends on the result of a run happens after it. -/
theorem andThen {first : Run α} {next : α → Run β} (h : first.Timely)
    (hnext : ∀ a, first.outcome = .ok a → (next a).Timely) : (first.andThen next).Timely := by
  unfold Run.andThen
  cases hfirst : first.outcome with
  | error e => exact ⟨h.ordered, h.bounded⟩
  | ok a =>
    have hsecond := hnext a hfirst
    have hlater : ∀ e ∈ delay first.elapsed (next a).log,
        first.elapsed ≤ e.1 ∧ e.1 ≤ first.elapsed + (next a).elapsed := by
      intro e he
      obtain ⟨hle, hmem⟩ := mem_delay_iff.1 he
      have hend := hsecond.bounded _ hmem
      simp only at hend
      omega
    constructor
    · simp only [List.pairwise_append]
      refine ⟨h.ordered, pairwise_delay hsecond.ordered, ?_⟩
      intro x hx y hy
      exact Nat.le_trans (h.bounded x hx) (hlater y hy).1
    · simp only [List.mem_append]
      rintro e (he | he)
      · exact Nat.le_trans (h.bounded e he) (Nat.le_add_right _ _)
      · exact (hlater e he).2

/-- The logs of runs at the same time are merged by time, and the longest run ends after
everything. -/
theorem together {runs : List (Run α)} (h : ∀ r ∈ runs, r.Timely) : (Run.together runs).Timely where
  ordered := pairwise_mergedLog runs
  bounded := by
    intro e he
    have hmem : e ∈ runs.flatMap Run.log := (List.mergeSort_perm _ _).mem_iff.1 he
    obtain ⟨r, hr, he⟩ := List.mem_flatMap.1 hmem
    exact Nat.le_trans ((h r hr).bounded e he) (elapsed_le_longest hr)

/-- A pause before a run only moves its log. -/
theorem after {r : Run α} (h : r.Timely) (nanos : Nat) : (r.after nanos).Timely where
  ordered := pairwise_delay h.ordered
  bounded := by
    intro e he
    obtain ⟨hle, hmem⟩ := mem_delay_iff.1 he
    have hend := h.bounded _ hmem
    simp only [Run.after] at hend ⊢
    omega

end Timely

/-! ## What a limit cuts off -/

/-- What happened in a log up to a time. -/
def upTo (nanos : Nat) (log : EventLog) : EventLog := log.filter fun e => e.1 ≤ nanos

theorem mem_upTo_iff {nanos : Nat} {log : EventLog} {e : Nat × Event} :
    e ∈ upTo nanos log ↔ e ∈ log ∧ e.1 ≤ nanos := by
  simp only [upTo, List.mem_filter, decide_eq_true_eq]

/-- Nothing is cut off after the last event. -/
theorem upTo_eq_self {nanos : Nat} {log : EventLog} (h : ∀ e ∈ log, e.1 ≤ nanos) :
    upTo nanos log = log := by
  simpa only [upTo, List.filter_eq_self, decide_eq_true_eq] using h

/-- Nothing is left before the first event. -/
theorem upTo_eq_nil {nanos : Nat} {log : EventLog} (h : ∀ e ∈ log, nanos < e.1) :
    upTo nanos log = [] := by
  simpa only [upTo, List.filter_eq_nil_iff, decide_eq_true_eq, Nat.not_le] using h

theorem upTo_cons_of_le {nanos : Nat} {e : Nat × Event} (h : e.1 ≤ nanos) {log : EventLog} :
    upTo nanos (e :: log) = e :: upTo nanos log :=
  List.filter_cons_of_pos (decide_eq_true h)

/-- Of a log in the order of time, what happened up to a time is a beginning. -/
theorem upTo_isPrefix {log : EventLog} (h : log.Pairwise fun a b => a.1 ≤ b.1) (nanos : Nat) :
    upTo nanos log <+: log := by
  induction log with
  | nil => exact List.prefix_rfl
  | cons e rest ih =>
    obtain ⟨hfirst, hrest⟩ := List.pairwise_cons.1 h
    by_cases he : e.1 ≤ nanos
    · rw [upTo_cons_of_le he, List.prefix_cons_inj]
      exact ih hrest
    · have hnil : upTo nanos (e :: rest) = [] := by
        apply upTo_eq_nil
        intro a ha
        rcases List.mem_cons.1 ha with rfl | ha
        · omega
        · have hle := hfirst a ha
          omega
      rw [hnil]
      exact List.nil_prefix

/-- Cutting twice is cutting at the earlier time. -/
theorem upTo_upTo {nanos nanos' : Nat} (h : nanos ≤ nanos') (log : EventLog) :
    upTo nanos (upTo nanos' log) = upTo nanos log := by
  unfold upTo
  rw [List.filter_filter]
  apply List.filter_congr
  intro e _
  simp only [Bool.and_eq_left_iff_imp, decide_eq_true_eq]
  omega

/-- A limit leaves of a log what happened up to it, whether or not the run ends in time. -/
theorem log_within {r : Run α} (h : r.Timely) (limit : Duration) :
    (r.within limit).log = upTo limit.nanos r.log := by
  unfold within
  split
  · next hend =>
    refine (upTo_eq_self ?_).symm
    intro e he
    exact Nat.le_trans (h.bounded e he) hend
  · rfl

/-! ## Longer limits -/

/-- What happened within a limit is a beginning of what happens within a longer one, and of what
happens without a limit. -/
theorem log_withinLimit_isPrefix {r : Run α} (h : r.Timely) {limit : Duration}
    {limit' : Option Duration} (hle : ∀ l ∈ limit', limit.nanos ≤ l.nanos) :
    (r.withinLimit (some limit)).log <+: (r.withinLimit limit').log := by
  show (r.within limit).log <+: _
  rw [log_within h]
  cases limit' with
  | none => exact upTo_isPrefix h.ordered limit.nanos
  | some limit' =>
    show _ <+: (r.within limit').log
    rw [log_within h, ← upTo_upTo (hle limit' rfl)]
    exact upTo_isPrefix (h.ordered.filter _) limit.nanos

/-- Within a limit happens what happens up to it. -/
theorem mem_log_withinLimit_iff {r : Run α} (h : r.Timely) {limit : Option Duration}
    {e : Nat × Event} :
    e ∈ (r.withinLimit limit).log ↔ e ∈ r.log ∧ ∀ l ∈ limit, e.1 ≤ l.nanos := by
  cases limit with
  | none => simp only [withinLimit, Option.not_mem_none, false_implies, implies_true, and_true]
  | some limit =>
    simp only [withinLimit, log_within h, mem_upTo_iff, Option.mem_def, Option.some.injEq,
      forall_eq']

/-- A run that a limit leaves its time is the same under a longer one, and without a limit. -/
theorem withinLimit_of_longer {r : Run α} {limit : Duration}
    (h : (r.withinLimit (some limit)).outcome ≠ .error (.timeout limit)) {limit' : Option Duration}
    (hle : ∀ l ∈ limit', limit.nanos ≤ l.nanos) :
    r.withinLimit limit' = r.withinLimit (some limit) := by
  by_cases hend : r.elapsed ≤ limit.nanos
  · have hshort : r.withinLimit (some limit) = r := if_pos hend
    rw [hshort]
    cases limit' with
    | none => rfl
    | some limit' => exact if_pos (Nat.le_trans hend (hle limit' rfl))
  · have hcut : (r.withinLimit (some limit)).outcome = .error (.timeout limit) := by
      rw [withinLimit, within, if_neg hend]
    exact absurd hcut h

end Run

end WorkflowEngine
