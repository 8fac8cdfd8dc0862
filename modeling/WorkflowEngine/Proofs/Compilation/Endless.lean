import WorkflowEngine.Proofs.Compilation.Scripts

/-!
# References without end

A resolver may bind a name to a specification of another name. While specifications are compiled,
their own names are recorded, but references are looked up by the names to which they are bound; so
a circle of references is noticed only if a name on it is the name of a specification that is being
compiled. A circle whose specifications all have other names is a trap: compiling follows it as deep
as it may. Only traps make compiling endless, and a circle shows whether it is a trap once compiling
has gone around it. The way to a circle and once around it are no longer than the number of names
each, so twice that number is deep enough to know.
-/

namespace WorkflowEngine

open Relation

namespace Resolver

variable {r : Resolver} {depth : Nat} {id : ModuleId} {cache : CompileCache}

/-! ## Names that are never kept -/

/-- A name that has a module is on no circle. -/
theorem Yields.not_onCircle {m : Module} (h : r.Yields id m) : ¬ r.OnCircle id := by
  induction h with
  | intro hs _ h ih =>
    intro hcircle
    obtain ⟨t, ht, hback⟩ := TransGen.head'_iff.1 hcircle
    obtain ⟨_, htargets⟩ := ModuleSpec.succeeds_compileWith_iff.1 ⟨_, h⟩
    obtain ⟨n, hn⟩ := htargets t (mem_targets_of_refers hs ht)
    exact ih t n hn (TransGen.tail' hback ht)

/-- Nothing is kept for a name on a circle. -/
theorem get?_eq_none_of_onCircle (hsound : cache.Sound r) (hid : r.OnCircle id) :
    cache.done.get? id = none := by
  cases hkept : cache.done.get? id with
  | none => rfl
  | some m => exact absurd hid (hsound id m hkept).not_onCircle

/-- No name on a circle compiles. -/
theorem exists_error_of_onCircle (hsound : cache.Sound r) (hid : r.OnCircle id) (depth : Nat) :
    ∃ e, (r.compileAt depth id cache).1 = .error e := by
  cases hrun : (r.compileAt depth id cache).1 with
  | error e => exact ⟨e, rfl⟩
  | ok m =>
    have hm : r.Yields id m := result_eq_ok_iff.1 ((produces_compileAt hsound).result m hrun)
    exact absurd hid hm.not_onCircle

/-! ## Single steps -/

/-- Compiling a name that is neither kept nor being compiled fails as playing its script does. -/
theorem compileAt_succ_eq_error_iff (hkept : cache.done.get? id = none) (hid : id ∉ cache.pending)
    {s : ModuleSpec} (hs : r.get? id = some s) {e : CompileFailure} :
    (r.compileAt (depth + 1) id cache).1 = .error e ↔
      (s.script.run (r.compileAt depth) (cache.push s.id)).1 = .error e := by
  rw [compileAt_succ hkept hid hs, Compiling.within, ModuleSpec.compileWith_eq_run fun _ _ => rfl]
  generalize s.script.run (r.compileAt depth) (cache.push s.id) = run
  obtain ⟨outcome, middle⟩ := run
  cases outcome with
  | error e' => exact Iff.rfl
  | ok m =>
    constructor
    · intro h
      cases h
    · intro h
      cases h

/-- Where compiling gives up, it has a specification to compile. -/
theorem exists_of_compileAt_eq_endless {t : ModuleId}
    (h : (r.compileAt depth id cache).1 = .error (.endless t)) :
    cache.done.get? id = none ∧ id ∉ cache.pending ∧ ∃ s, r.get? id = some s := by
  have hattempt := r.attempt_compileAt depth id cache
  generalize r.compileAt depth id cache = run at hattempt h
  cases hattempt with
  | kept | cyclic | unresolved | compiled => cases h
  | endless hkept hid hs | failed hkept hid hs => exact ⟨hkept, hid, _, hs⟩

/-- What is asked for next when the specification of a name is compiled, if all that is kept has
been asked for. -/
def Stops (r : Resolver) (done : Dictionary Module) (a b : ModuleId) : Prop :=
  ∃ s, r.get? a = some s ∧ s.script.stop? done = some b

/-! ## Traps -/

/-- Names among which compiling never comes to an end: each of them leads to another, and neither
what is being compiled nor any of their specifications has one of these names. -/
structure Trap (r : Resolver) (cache : CompileCache) (names : List ModuleId) : Prop where
  /-- Nothing is kept for the names. -/
  unkept : ∀ x ∈ names, cache.done.get? x = none
  /-- None of the names is being compiled. -/
  free : ∀ x ∈ names, x ∉ cache.pending
  /-- Their specifications have other names. -/
  foreign : ∀ x ∈ names, ∀ s, r.get? x = some s → s.id ∉ names
  /-- Each of the names asks for one of them. -/
  next : ∀ x ∈ names, ∃ t ∈ names, r.Stops cache.done x t

/-- A trap remains one when the specification of one of its names is begun. -/
theorem Trap.push {names : List ModuleId} (h : r.Trap cache names) (hid : id ∈ names)
    {s : ModuleSpec} (hs : r.get? id = some s) : r.Trap (cache.push s.id) names where
  unkept := h.unkept
  free := fun x hx hmem => by
    rcases List.mem_append.1 hmem with hmem | hmem
    · exact h.free x hx hmem
    · exact h.foreign id hid s hs (List.mem_singleton.1 hmem ▸ hx)
  foreign := h.foreign
  next := h.next

/-- In a trap, compiling gives up at every depth. -/
theorem Trap.endless {names : List ModuleId} (h : r.Trap cache names) (hid : id ∈ names)
    (depth : Nat) : ∃ t, (r.compileAt depth id cache).1 = .error (.endless t) := by
  induction depth generalizing id cache with
  | zero =>
    obtain ⟨_, _, s, hs, _⟩ := h.next id hid
    exact ⟨id, by rw [compileAt_zero (h.unkept id hid) (h.free id hid) hs]⟩
  | succ depth ih =>
    obtain ⟨t, ht, s, hs, hstop⟩ := h.next id hid
    have hpushed : s.script.stop? (cache.push s.id).done = some t := hstop
    obtain ⟨last, hlast⟩ := ih (h.push hid hs) ht
    refine ⟨last, ?_⟩
    rw [compileAt_succ_eq_error_iff (h.unkept id hid) (h.free id hid) hs]
    exact Script.run_of_stop? hpushed hlast

/-- If compiling gives up at the end of a way that it has to go, no name on the way is being
compiled. -/
theorem notMem_pending_of_endless {rest : List ModuleId} (hsound : cache.Sound r)
    (hway : (id :: rest).IsChain (r.Stops cache.done)) (hcircle : ∀ x ∈ rest, r.OnCircle x)
    (hdepth : rest.length ≤ depth) {t : ModuleId}
    (h : (r.compileAt depth id cache).1 = .error (.endless t)) :
    ∀ x ∈ id :: rest, x ∉ cache.pending := by
  obtain ⟨hkept, hid, -⟩ := exists_of_compileAt_eq_endless h
  induction rest generalizing id depth cache with
  | nil => simpa using hid
  | cons b rest ih =>
    obtain ⟨below, rfl⟩ : ∃ below, depth = below + 1 := by
      rw [List.length_cons] at hdepth
      exact ⟨depth - 1, by omega⟩
    obtain ⟨⟨s, hs, hstop⟩, hway'⟩ := List.isChain_cons_cons.1 hway
    rw [compileAt_succ_eq_error_iff hkept hid hs] at h
    have hpushed : (cache.push s.id).Sound r := hsound
    have hstop' : s.script.stop? (cache.push s.id).done = some b := hstop
    obtain ⟨e, he⟩ := exists_error_of_onCircle hpushed (hcircle b List.mem_cons_self) below
    have hb : (r.compileAt below b (cache.push s.id)).1 = .error (.endless t) := by
      rw [he, ← Script.run_of_stop? hstop' he, h]
    obtain ⟨hkept', hb', -⟩ := exists_of_compileAt_eq_endless hb
    have hrest := ih hpushed hway' (fun x hx => hcircle x (List.mem_cons_of_mem b hx))
      (Nat.le_of_succ_le_succ hdepth) hb hkept' hb'
    intro x hx
    rcases List.mem_cons.1 hx with rfl | hx
    · exact hid
    · exact fun hmem => hrest x hx (List.mem_append_left _ hmem)

/-! ## The way into a trap -/

/-- A step that compiling has taken: the specification of a name is being compiled, and has come to
ask for another name when no more was kept than now. -/
def Passed (r : Resolver) (cache : CompileCache) (a b : ModuleId) : Prop :=
  ∃ s done, r.get? a = some s ∧ s.id ∈ cache.pending ∧
    (∀ x m, done.get? x = some m → cache.done.get? x = some m) ∧ s.script.stop? done = some b

/-- A step that has been taken stays so while more is kept and more names are being compiled. -/
theorem Passed.mono {cache' : CompileCache} {a b : ModuleId} (h : r.Passed cache a b)
    (hpending : cache.pending ⊆ cache'.pending)
    (hkept : ∀ x m, cache.done.get? x = some m → cache'.done.get? x = some m) :
    r.Passed cache' a b := by
  obtain ⟨s, done, hs, hmem, hdone, hstop⟩ := h
  exact ⟨s, done, hs, hpending hmem, fun x m hx => hkept x m (hdone x m hx), hstop⟩

/-- A step to a name that nothing is kept for would be taken again. -/
theorem Passed.stops {a b : ModuleId} (h : r.Passed cache a b) (hb : cache.done.get? b = none) :
    r.Stops cache.done a b := by
  obtain ⟨s, done, hs, _, hdone, hstop⟩ := h
  exact ⟨s, hs, Script.stop?_mono hdone hstop hb⟩

/-- If compiling comes back to a name on its way, and still gives up after it could have gone around
once more, it has run into a trap. -/
theorem trap_of_endless {main : ModuleId} {path : List ModuleId} (hsound : cache.Sound r)
    (hpath : r.IsPath main path id) (hpassed : (path ++ [id]).IsChain (r.Passed cache))
    (hid : id ∈ path) (hdepth : path.length ≤ depth) {t : ModuleId}
    (h : (r.compileAt depth id cache).1 = .error (.endless t)) :
    ∃ rest, r.IsCircle main id rest ∧ r.Trap cache (id :: rest) := by
  obtain ⟨rest, hdrop, hcircle⟩ := hpath.exists_circle hid
  have hsplit : path = path.takeWhile (· != id) ++ id :: rest := by
    rw [← hdrop, List.takeWhile_append_dropWhile]
  have hpassed' : (id :: rest ++ [id]).IsChain (r.Passed cache) := by
    rw [hsplit, List.append_assoc] at hpassed
    exact hpassed.right_of_append
  have honCircle : ∀ x ∈ id :: rest, r.OnCircle x := fun x => hcircle.onCircle_of_mem
  have hunkept : ∀ x ∈ id :: rest, cache.done.get? x = none := fun x hx =>
    get?_eq_none_of_onCircle hsound (honCircle x hx)
  have hstops : (id :: rest ++ [id]).IsChain (r.Stops cache.done) := by
    refine hpassed'.imp_of_mem_imp fun a b _ hb hab => hab.stops (hunkept b ?_)
    rcases List.mem_append.1 hb with hb | hb
    · exact hb
    · exact List.mem_singleton.1 hb ▸ List.mem_cons_self
  have hlength : rest.length ≤ depth := by
    have := congrArg List.length hsplit
    rw [List.length_append, List.length_cons] at this
    omega
  have hfree := notMem_pending_of_endless hsound hstops.left_of_append
    (fun x hx => honCircle x (List.mem_cons_of_mem id hx)) hlength h
  -- Each name of the circle has a successor on it, to which the step has been taken.
  have hnext : ∀ a ∈ id :: rest, ∃ b ∈ id :: rest, r.Passed cache a b := by
    intro a ha
    have hsteps := List.isChain_cons_append_singleton_iff_forall₂.1 hpassed'
    obtain ⟨b, hb, hab⟩ := exists_mem_of_forall₂ hsteps.flip ha
    have hmem : b ∈ id :: rest := by
      simpa [or_comm] using hb
    exact ⟨b, hmem, hab⟩
  refine ⟨rest, hcircle, hunkept, hfree, ?_, ?_⟩
  · intro x hx s hs hmem
    obtain ⟨b, _, s', _, hs', hpending, _⟩ := hnext x hx
    cases hs.symm.trans hs'
    exact hfree s.id hmem hpending
  · intro x hx
    obtain ⟨b, hb, hpassed⟩ := hnext x hx
    exact ⟨b, hb, hpassed.stops (hunkept b hb)⟩

/-- If compiling gives up along a way on which it could have gone around any circle, the way leads
into a trap, and compiling gives up however much deeper references are followed. -/
theorem exists_trap_of_endless {main : ModuleId} {path : List ModuleId} (hsound : cache.Sound r)
    (hpath : r.IsPath main path id) (hpassed : (path ++ [id]).IsChain (r.Passed cache))
    (hdepth : 2 * r.size < depth + path.length) {t : ModuleId}
    (h : (r.compileAt depth id cache).1 = .error (.endless t)) :
    (∃ first rest cache', r.IsCircle main first rest ∧ r.Trap cache' (first :: rest)) ∧
      ∀ deeper, depth ≤ deeper → ∃ t, (r.compileAt deeper id cache).1 = .error (.endless t) := by
  have hlength := hpath.length_le
  induction depth generalizing id cache path with
  | zero => omega
  | succ depth ih =>
    by_cases hid : id ∈ path
    · obtain ⟨rest, hcircle, htrap⟩ := trap_of_endless hsound hpath hpassed hid (by omega) h
      exact ⟨⟨id, rest, cache, hcircle, htrap⟩, fun deeper _ =>
        htrap.endless List.mem_cons_self deeper⟩
    · obtain ⟨hkept, hpending, s, hs⟩ := exists_of_compileAt_eq_endless h
      rw [compileAt_succ_eq_error_iff hkept hpending hs] at h
      obtain ⟨next, hnext, middle, hgrows, hstop, hends, hfollows⟩ :=
        Script.exists_stop_of_run_eq_endless s.asks_script h
      have hpath' := hpath.step hid (refers_of_mem_targets hs hnext)
      have hpending' : middle.pending = cache.pending ++ [s.id] := hgrows.pending
      have hmem : s.id ∈ middle.pending := by
        rw [hpending']
        exact List.mem_append_right _ (List.mem_singleton_self s.id)
      have hstep : r.Passed middle id next := ⟨s, middle.done, hs, hmem, fun _ _ h => h, hstop⟩
      -- What has been kept since makes none of the steps before undone.
      have hpassed' : (path ++ [id] ++ [next]).IsChain (r.Passed middle) := by
        have hbefore : (path ++ [id]).IsChain (r.Passed middle) := hpassed.imp fun a b hab =>
          hab.mono (hpending' ▸ List.subset_append_left _ _) hgrows.kept
        rw [List.append_assoc]
        exact List.isChain_append_cons_cons.2 ⟨hbefore, hstep, List.isChain_singleton next⟩
      have hlength' : (path ++ [id]).length = path.length + 1 := List.length_append
      obtain ⟨htrap, hdeeper⟩ := ih (hgrows.sound hsound) hpath' hpassed' (by omega) hends
        hpath'.length_le
      refine ⟨htrap, ?_⟩
      intro deeper hle
      obtain ⟨below, rfl⟩ : ∃ below, deeper = below + 1 := ⟨deeper - 1, by omega⟩
      obtain ⟨last, hlast⟩ := hdeeper below (Nat.le_of_succ_le_succ hle)
      refine ⟨last, ?_⟩
      rw [compileAt_succ_eq_error_iff hkept hpending hs]
      exact hfollows below _ (Nat.le_of_succ_le_succ hle) hlast

/-! ## Circles that are not noticed -/

/-- Everything that a name reaches resolves and is declared as its kind demands, but no
specification has a name that is reached. -/
def AllForeign (r : Resolver) (main : ModuleId) : Prop :=
  ∀ x, r.Reaches main x → ∃ s, r.get? x = some s ∧ (∀ n, s.Contains n → n.Compilable) ∧
    ¬ r.Reaches main s.id

/-- While nothing is being compiled that is reached, compiling what is reached fails only by giving
up. -/
theorem AllForeign.endless_of_eq_error {main : ModuleId} (h : r.AllForeign main)
    (hsound : cache.Sound r) (hid : r.Reaches main id)
    (hpending : ∀ p ∈ cache.pending, ¬ r.Reaches main p) {e : CompileFailure}
    (he : (r.compileAt depth id cache).1 = .error e) : ∃ t, e = .endless t := by
  induction depth using Nat.strongRecOn generalizing id cache with
  | ind depth ih =>
    obtain ⟨s, hs, hdeclared, hforeign⟩ := h id hid
    have hattempt := r.attempt_compileAt depth id cache
    generalize r.compileAt depth id cache = run at hattempt he
    cases hattempt with
    | kept | compiled => cases he
    | cyclic _ hmem => exact absurd hid (hpending id hmem)
    | unresolved _ _ hnone => cases hs.symm.trans hnone
    | endless => exact ⟨id, (Except.error.inj he).symm⟩
    | @failed below s' _ _ _ _ hs' hrun =>
      cases he
      cases hs.symm.trans hs'
      rw [ModuleSpec.compileWith_eq_run fun _ _ => rfl] at hrun
      -- With a module for every request, the specification would compile.
      let answer : ModuleId → Except CompileFailure Module := fun t =>
        .ok ((r.result t).toOption.getD default)
      have hanswer : ∀ t m, r.Yields t m → answer t = .ok m := by
        intro t m hm
        simp only [answer, result_eq_ok_iff.2 hm, Except.toOption, Option.getD_some]
      obtain ⟨m, hm⟩ := (@ModuleSpec.succeeds_compileWith_iff answer s).2
        ⟨hdeclared, fun t _ => ⟨_, rfl⟩⟩
      rw [ModuleSpec.compileWith_eq_run fun _ _ => rfl] at hm
      have hpushed : (cache.push s.id).Sound r := hsound
      rcases Script.request_or_fault_of_run_eq_error s.asks_script hanswer hpushed
          (congrArg Prod.fst hrun) with ⟨t, ht, middle, hgrows, hfails⟩ | hfault
      · have ht' : r.Reaches main t := hid.tail (refers_of_mem_targets hs ht)
        refine ih below (Nat.lt_succ_self below) (hgrows.sound hpushed) ht' ?_ hfails
        intro p hp
        rw [hgrows.pending] at hp
        rcases List.mem_append.1 hp with hp | hp
        · exact hpending p hp
        · rwa [List.mem_singleton.1 hp]
      · cases hm.symm.trans hfault

/-- What a name with a module reaches has a module. -/
theorem Yields.of_reaches {m : Module} (h : r.Yields id m) {x : ModuleId} (hx : r.Reaches id x) :
    ∃ n, r.Yields x n := by
  refine mem_of_reaches (P := fun y => ∃ n, r.Yields y n) ?_ ⟨m, h⟩ hx
  rintro a b ⟨n, hn⟩ hab
  obtain ⟨s, hs, hyields⟩ := yields_iff.1 hn
  obtain ⟨_, htargets⟩ := ModuleSpec.succeeds_compileWith_iff.1 ⟨n, hyields⟩
  obtain ⟨n', hn'⟩ := htargets b (mem_targets_of_refers hs hab)
  exact ⟨n', result_eq_ok_iff.1 hn'⟩

/-! ## Whether compiling comes to an end -/

/-- Compiling a name comes to an end: it does not give up when references are followed deep
enough. -/
def Ends (r : Resolver) (main : ModuleId) : Prop :=
  ∃ depth, ∀ t, (r.compileAt depth main .empty).1 ≠ .error (.endless t)

theorem compileMain_eq_error_iff_compileReference {main : ModuleId} {e : CompileFailure} :
    r.compileMain main = .error e ↔ (r.compileReference main .empty).1 = .error e := by
  unfold compileMain
  split
  · next h => rw [h]; exact iff_of_false nofun nofun
  · next h => rw [h]; exact Iff.of_eq (by rw [Except.error.injEq, Except.error.injEq])

/-- If compiling a name on its own gives up, it has run into a trap and gives up at every depth. -/
theorem trap_of_compileReference {main t : ModuleId}
    (h : (r.compileReference main .empty).1 = .error (.endless t)) :
    (∃ first rest cache, r.IsCircle main first rest ∧ r.Trap cache (first :: rest)) ∧
      ∀ depth, ∃ t, (r.compileAt depth main .empty).1 = .error (.endless t) := by
  have hdepth : 2 * r.size < r.depth + ([] : List ModuleId).length := Nat.lt_succ_self _
  obtain ⟨htrap, hdeeper⟩ := exists_trap_of_endless (CompileCache.sound_empty r) (.nil r main)
    (List.isChain_singleton main) hdepth h
  refine ⟨htrap, fun depth => ?_⟩
  rcases Nat.le_total r.depth depth with hle | hle
  · exact hdeeper depth hle
  · rcases compileAt_eq_of_le hle with hends | hsame
    · exact hends
    · exact ⟨t, hsame ▸ h⟩

/-- A circle that is reached among names of which no specification has one is never noticed. -/
theorem AllForeign.not_ends {main x : ModuleId} (h : r.AllForeign main) (hx : r.Reaches main x)
    (hcircle : r.OnCircle x) : ¬ r.Ends main := by
  rintro ⟨depth, hdepth⟩
  have hsound := CompileCache.sound_empty r
  cases hrun : (r.compileAt depth main .empty).1 with
  | error e =>
    have hnothing : ∀ p ∈ CompileCache.empty.pending, ¬ r.Reaches main p :=
      fun _ hp => absurd hp List.not_mem_nil
    obtain ⟨t, rfl⟩ := h.endless_of_eq_error hsound .refl hnothing hrun
    exact hdepth t hrun
  | ok m =>
    have hm : r.Yields main m := result_eq_ok_iff.1 ((produces_compileAt hsound).result m hrun)
    obtain ⟨n, hn⟩ := hm.of_reaches hx
    exact hn.not_onCircle hcircle

/-- Whether compiling a name comes to an end when names may be bound to specifications of other
names:

1. it does so exactly if it does not give up at twice the number of names;
2. if it does, no greater depth changes anything;
3. it does so if on every circle that is reached there is the name of a specification of the circle,
   in particular if all specifications are bound to their own names;
4. where no specification has a name that is reached, and there are no other faults, it does so
   exactly if no circle is reached. -/
theorem compileMain_ends (r : Resolver) (main : ModuleId) :
    (r.Ends main ↔ ∀ t, r.compileMain main ≠ .error (.endless t)) ∧
    (r.Ends main → ∀ depth, r.depth ≤ depth →
      r.compileAt depth main .empty = r.compileReference main .empty) ∧
    ((∀ first rest, r.IsCircle main first rest →
      ∃ x ∈ first :: rest, ∃ s, r.get? x = some s ∧ s.id ∈ first :: rest) → r.Ends main) ∧
    (r.AllForeign main → (r.Ends main ↔ ∀ x, r.Reaches main x → ¬ r.OnCircle x)) := by
  have hends : r.Ends main ↔ ∀ t, (r.compileReference main .empty).1 ≠ .error (.endless t) := by
    constructor
    · rintro ⟨depth, hdepth⟩ t ht
      obtain ⟨t', ht'⟩ := (trap_of_compileReference ht).2 depth
      exact hdepth t' ht'
    · intro h
      exact ⟨r.depth, h⟩
  have hnoticed : (∀ first rest, r.IsCircle main first rest →
      ∃ x ∈ first :: rest, ∃ s, r.get? x = some s ∧ s.id ∈ first :: rest) → r.Ends main := by
    intro hnames
    rw [hends]
    intro t ht
    obtain ⟨⟨first, rest, cache, hcircle, htrap⟩, -⟩ := trap_of_compileReference ht
    obtain ⟨x, hx, s, hs, hmem⟩ := hnames first rest hcircle
    exact htrap.foreign x hx s hs hmem
  refine ⟨?_, ?_, hnoticed, ?_⟩
  · rw [hends]
    exact forall_congr' fun t => not_congr compileMain_eq_error_iff_compileReference.symm
  · intro h depth hdepth
    rcases compileAt_eq_of_le hdepth with ⟨t, ht⟩ | hsame
    · exact absurd ht (hends.1 h t)
    · exact hsame
  · intro hforeign
    constructor
    · intro h x hx hcircle
      exact hforeign.not_ends hx hcircle h
    · intro hacyclic
      apply hnoticed
      intro first rest hcircle
      exact absurd hcircle.onCircle (hacyclic first (hcircle.reached first List.mem_cons_self))

/-- A name that is bound to a call of itself under another name. -/
def callingItself : Resolver :=
  ⟨[("a", .mk "b" .empty (.subWorkflow "a"))], List.pairwise_singleton _ _⟩

/-- Compiling the name does not come to an end, and no circle is reported. -/
theorem callingItself_endless :
    ¬ callingItself.Ends "a" ∧
      ∃ t, callingItself.compileMain "a" = .error (.endless t) := by
  have htrap : callingItself.Trap .empty ["a"] := by
    refine ⟨by decide, by decide, ?_, ?_⟩
    · intro x hx s hs
      rw [List.mem_singleton.1 hx] at hs
      cases hs
      decide
    · intro x hx
      rw [List.mem_singleton.1 hx]
      exact ⟨"a", List.mem_singleton_self _, _, rfl, rfl⟩
  have hgivesUp := htrap.endless (List.mem_singleton_self "a")
  constructor
  · rintro ⟨depth, hdepth⟩
    obtain ⟨t, ht⟩ := hgivesUp depth
    exact hdepth t ht
  · obtain ⟨t, ht⟩ := hgivesUp callingItself.depth
    exact ⟨t, compileMain_eq_error_iff_compileReference.2 ht⟩

end Resolver

end WorkflowEngine
