import WorkflowEngine.Kind
import Mathlib.Data.List.Forall2

/-!
# Kinds of one shape

Two kinds have one shape when they differ in their references and children only. A relation between
references and one between children relate two kinds of one shape place by place: the step, branch,
case or fallback of the one with that of the other. Specifications and the modules compiled from
them, and modules and what they run as, are related in this way at every level.
-/

namespace WorkflowEngine

variable {ρ σ τ α β γ : Type}

/-- Steps with related children and the same mapping. -/
structure Step.Rel (R : α → β → Prop) (s : Step α) (t : Step β) : Prop where
  /-- The children are related. -/
  child : R s.child t.child
  /-- The mappings are the same. -/
  mapping : s.mapping = t.mapping

/-- Cases with related children and the same key. -/
structure Case.Rel (R : α → β → Prop) (c : Case α) (d : Case β) : Prop where
  /-- The keys are the same. -/
  key : c.key = d.key
  /-- The children are related. -/
  child : R c.child d.child

/-- Kinds of one shape with related references and children. -/
inductive Kind.Rel (T : ρ → σ → Prop) (R : α → β → Prop) : Kind ρ α → Kind σ β → Prop where
  /-- Sequences of as many steps. -/
  | sequential {steps : List (Step α)} {steps' : List (Step β)}
    (h : List.Forall₂ (Step.Rel R) steps steps') : Rel T R (.sequential steps) (.sequential steps')
  /-- Fan-outs of as many branches. -/
  | parallel {branches : List α} {branches' : List β} (h : List.Forall₂ R branches branches') :
    Rel T R (.parallel branches) (.parallel branches')
  /-- Switches over one condition with the same keys. -/
  | switch (condition : String) {cases : List (Case α)} {cases' : List (Case β)}
    {fallback : Option α} {fallback' : Option β} (hcases : List.Forall₂ (Case.Rel R) cases cases')
    (hfallback : Option.Rel R fallback fallback') :
    Rel T R (.switch condition cases fallback) (.switch condition cases' fallback')
  /-- References. -/
  | subWorkflow {target : ρ} {target' : σ} (h : T target target') :
    Rel T R (.subWorkflow target) (.subWorkflow target')
  /-- Text generations from one template. -/
  | llm (template : String) : Rel T R (.llm template) (.llm template)
  /-- Calls of one tool. -/
  | tool (name : String) : Rel T R (.tool name) (.tool name)
  /-- Fetches. -/
  | http : Rel T R .http .http
  /-- Extractions at one path. -/
  | jsonExtract (path : String) : Rel T R (.jsonExtract path) (.jsonExtract path)

/-- What relates the members of two lists place by place may be replaced by what follows from it for
members of the lists. -/
theorem forall₂_imp_of_mem {R S : α → β → Prop} {l : List α} {l' : List β}
    (h : List.Forall₂ R l l') (himp : ∀ a ∈ l, ∀ b ∈ l', R a b → S a b) : List.Forall₂ S l l' := by
  induction h with
  | nil => exact .nil
  | @cons a b rest rest' hab _ ih =>
    refine .cons (himp a List.mem_cons_self b List.mem_cons_self hab) (ih ?_)
    intro a' ha b' hb
    exact himp a' (List.mem_cons_of_mem a ha) b' (List.mem_cons_of_mem b hb)

/-- A member of the second of two lists is related to a member of the first. -/
theorem exists_mem_of_forall₂ {R : α → β → Prop} {l : List α} {l' : List β}
    (h : List.Forall₂ R l l') {b : β} (hb : b ∈ l') : ∃ a ∈ l, R a b := by
  induction h with
  | nil => cases hb
  | @cons a b' rest rest' hab _ ih =>
    rcases List.mem_cons.1 hb with rfl | hb
    · exact ⟨a, List.mem_cons_self, hab⟩
    · obtain ⟨a', ha', hab'⟩ := ih hb
      exact ⟨a', List.mem_cons_of_mem a ha', hab'⟩

/-- Relations place by place compose. -/
theorem forall₂_comp {R : α → β → Prop} {S : β → γ → Prop} {l : List α} {l' : List β}
    {l'' : List γ} (h : List.Forall₂ R l l') (h' : List.Forall₂ S l' l'') :
    List.Forall₂ (fun a c => ∃ b, R a b ∧ S b c) l l'' := by
  induction h generalizing l'' with
  | nil =>
    cases h'
    exact .nil
  | cons hab _ ih =>
    cases h' with
    | cons hbc hrest => exact .cons ⟨_, hab, hbc⟩ (ih hrest)

/-- Whatever can be found for each member of a list, with what it is related to, can be found for
the whole list. -/
theorem exists_forall₂ {R : α → β → Prop} {S : α → γ → Prop} {U : β → γ → Prop} {l : List α}
    {l' : List β} (h : List.Forall₂ R l l')
    (hex : ∀ a ∈ l, ∀ b, R a b → ∃ c, S a c ∧ U b c) :
    ∃ l'', List.Forall₂ S l l'' ∧ List.Forall₂ U l' l'' := by
  induction h with
  | nil => exact ⟨[], .nil, .nil⟩
  | @cons a b rest rest' hab _ ih =>
    obtain ⟨c, hac, hbc⟩ := hex a List.mem_cons_self b hab
    obtain ⟨rest'', hs, hu⟩ := ih fun a ha => hex a (List.mem_cons_of_mem _ ha)
    exact ⟨c :: rest'', .cons hac hs, .cons hbc hu⟩

namespace Kind

variable {T : ρ → σ → Prop} {R : α → β → Prop} {k : Kind ρ α} {k' : Kind σ β}

namespace Rel

/-- The children are related place by place. -/
theorem children (h : k.Rel T R k') : List.Forall₂ R k.children k'.children := by
  cases h with
  | sequential h =>
    rw [Kind.children, Kind.children, List.forall₂_map_left_iff, List.forall₂_map_right_iff]
    exact h.imp fun s t hst => hst.child
  | parallel h => exact h
  | switch condition hcases hfallback =>
    have hchildren := hcases.imp fun c d hcd => hcd.child
    rw [← List.forall₂_map_right_iff, ← List.forall₂_map_left_iff] at hchildren
    cases hfallback with
    | none => simpa [Kind.children] using hchildren
    | some h => exact List.rel_append hchildren (.cons h .nil)
  | subWorkflow _ | llm _ | tool _ | http | jsonExtract _ => exact .nil

/-- What follows for whatever is related to a reference or a child holds of the references and the
children of the second kind. -/
theorem forall_right {p : σ → Prop} {q : β → Prop} (h : k.Rel T R k') (hT : ∀ t u, T t u → p u)
    (hR : ∀ c d, R c d → q d) : (∀ u ∈ k'.target?, p u) ∧ ∀ d ∈ k'.children, q d := by
  constructor
  · intro u hu
    cases h with
    | subWorkflow h =>
      cases hu
      exact hT _ _ h
    | sequential _ | parallel _ | switch _ _ _ | llm _ | tool _ | http | jsonExtract _ => cases hu
  · intro d hd
    obtain ⟨c, _, hcd⟩ := exists_mem_of_forall₂ h.children hd
    exact hR c d hcd

/-- Relations may be replaced by ones that follow from them for what the kinds have. -/
theorem imp_of_mem {T' : ρ → σ → Prop} {R' : α → β → Prop} (h : k.Rel T R k')
    (hT : ∀ t ∈ k.target?, ∀ u ∈ k'.target?, T t u → T' t u)
    (hR : ∀ c ∈ k.children, ∀ d ∈ k'.children, R c d → R' c d) : k.Rel T' R' k' := by
  cases h with
  | sequential h =>
    refine .sequential (forall₂_imp_of_mem h fun s hs t ht hst => ⟨?_, hst.mapping⟩)
    exact hR s.child (List.mem_map_of_mem hs) t.child (List.mem_map_of_mem ht) hst.child
  | parallel h => exact .parallel (forall₂_imp_of_mem h hR)
  | switch condition hcases hfallback =>
    refine .switch condition (forall₂_imp_of_mem hcases fun c hc d hd hcd => ⟨hcd.key, ?_⟩) ?_
    · exact hR c.child (List.mem_append_left _ (List.mem_map_of_mem hc)) d.child
        (List.mem_append_left _ (List.mem_map_of_mem hd)) hcd.child
    · cases hfallback with
      | none => exact .none
      | some h =>
        exact .some (hR _ (List.mem_append_right _ (List.mem_singleton_self _)) _
          (List.mem_append_right _ (List.mem_singleton_self _)) h)
  | subWorkflow h => exact .subWorkflow (hT _ rfl _ rfl h)
  | llm template => exact .llm template
  | tool name => exact .tool name
  | http => exact .http
  | jsonExtract path => exact .jsonExtract path

/-- Relations may be replaced by ones that follow from them. -/
theorem imp {T' : ρ → σ → Prop} {R' : α → β → Prop} (h : k.Rel T R k')
    (hT : ∀ t u, T t u → T' t u) (hR : ∀ c d, R c d → R' c d) : k.Rel T' R' k' :=
  h.imp_of_mem (fun t _ u _ => hT t u) fun c _ d _ => hR c d

/-- Whatever can be found for each reference and each child, with what it is related to, can be
found for the whole kind. -/
theorem exists_rel {υ δ : Type} {T' : ρ → υ → Prop} {R' : α → δ → Prop} {U : σ → υ → Prop}
    {S : β → δ → Prop} (h : k.Rel T R k')
    (hT : ∀ t ∈ k.target?, ∀ u, T t u → ∃ v, T' t v ∧ U u v)
    (hR : ∀ c ∈ k.children, ∀ d, R c d → ∃ e, R' c e ∧ S d e) :
    ∃ k'' : Kind υ δ, k.Rel T' R' k'' ∧ k'.Rel U S k'' := by
  cases h with
  | sequential h =>
    obtain ⟨steps, hl, hr⟩ := exists_forall₂ (S := Step.Rel R') (U := Step.Rel S) h <| by
      intro s hs t hst
      obtain ⟨e, hce, hde⟩ := hR s.child (List.mem_map_of_mem hs) t.child hst.child
      exact ⟨⟨e, s.mapping⟩, ⟨hce, rfl⟩, ⟨hde, hst.mapping.symm⟩⟩
    exact ⟨_, .sequential hl, .sequential hr⟩
  | parallel h =>
    obtain ⟨branches, hl, hr⟩ := exists_forall₂ h hR
    exact ⟨_, .parallel hl, .parallel hr⟩
  | switch condition hcases hfallback =>
    obtain ⟨cases, hl, hr⟩ := exists_forall₂ (S := Case.Rel R') (U := Case.Rel S) hcases <| by
      intro c hc d hcd
      obtain ⟨e, hce, hde⟩ :=
        hR c.child (List.mem_append_left _ (List.mem_map_of_mem hc)) d.child hcd.child
      exact ⟨⟨c.key, e⟩, ⟨rfl, hce⟩, ⟨hcd.key.symm, hde⟩⟩
    cases hfallback with
    | none => exact ⟨_, .switch condition hl .none, .switch condition hr .none⟩
    | some h =>
      obtain ⟨e, hce, hde⟩ := hR _ (List.mem_append_right _ (List.mem_singleton_self _)) _ h
      exact ⟨_, .switch condition hl (.some hce), .switch condition hr (.some hde)⟩
  | subWorkflow h =>
    obtain ⟨v, htv, huv⟩ := hT _ rfl _ h
    exact ⟨_, .subWorkflow htv, .subWorkflow huv⟩
  | llm template => exact ⟨_, .llm template, .llm template⟩
  | tool name => exact ⟨_, .tool name, .tool name⟩
  | http => exact ⟨_, .http, .http⟩
  | jsonExtract path => exact ⟨_, .jsonExtract path, .jsonExtract path⟩

/-- Mapping keeps kinds of one shape. -/
theorem map {ρ' σ' α' β' : Type} {T' : ρ' → σ' → Prop} {R' : α' → β' → Prop} {f : ρ → ρ'}
    {f' : σ → σ'} {g : α → α'} {g' : β → β'} (h : k.Rel T R k')
    (hT : ∀ t u, T t u → T' (f t) (f' u)) (hR : ∀ c d, R c d → R' (g c) (g' d)) :
    (k.map f g).Rel T' R' (k'.map f' g') := by
  cases h with
  | sequential h =>
    refine .sequential (List.forall₂_map_left_iff.2 (List.forall₂_map_right_iff.2 ?_))
    exact h.imp fun s t hst => ⟨hR s.child t.child hst.child, hst.mapping⟩
  | parallel h =>
    exact .parallel (List.forall₂_map_left_iff.2 (List.forall₂_map_right_iff.2 (h.imp hR)))
  | switch condition hcases hfallback =>
    refine .switch condition (List.forall₂_map_left_iff.2 (List.forall₂_map_right_iff.2 ?_)) ?_
    · exact hcases.imp fun c d hcd => ⟨hcd.key, hR c.child d.child hcd.child⟩
    · cases hfallback with
      | none => exact .none
      | some h => exact .some (hR _ _ h)
  | subWorkflow h => exact .subWorkflow (hT _ _ h)
  | llm template => exact .llm template
  | tool name => exact .tool name
  | http => exact .http
  | jsonExtract path => exact .jsonExtract path

end Rel

/-- A kind has the shape of what it is mapped to. -/
theorem rel_map_right (f : ρ → σ) (g : α → β) {T : ρ → σ → Prop} {R : α → β → Prop}
    (hT : ∀ t ∈ k.target?, T t (f t)) (hR : ∀ c ∈ k.children, R c (g c)) :
    k.Rel T R (k.map f g) := by
  cases k with
  | sequential steps =>
    refine .sequential (List.forall₂_map_right_iff.2 (List.forall₂_same.2 fun s hs => ?_))
    exact ⟨hR s.child (List.mem_map_of_mem hs), rfl⟩
  | parallel branches =>
    exact .parallel (List.forall₂_map_right_iff.2 (List.forall₂_same.2 hR))
  | switch condition cases fallback =>
    refine .switch condition (List.forall₂_map_right_iff.2 (List.forall₂_same.2 fun c hc => ?_)) ?_
    · exact ⟨rfl, hR c.child (List.mem_append_left _ (List.mem_map_of_mem hc))⟩
    · cases fallback with
      | none => exact .none
      | some d => exact .some (hR d (List.mem_append_right _ (List.mem_singleton_self d)))
  | subWorkflow target => exact .subWorkflow (hT target rfl)
  | llm template => exact .llm template
  | tool name => exact .tool name
  | http => exact .http
  | jsonExtract path => exact .jsonExtract path

/-- Relating what a kind is mapped to is relating the kind through the maps. -/
theorem rel_map_left_iff {f : τ → ρ} {g : γ → α} {k : Kind τ γ} :
    (k.map f g).Rel T R k' ↔ k.Rel (fun t => T (f t)) (fun c => R (g c)) k' := by
  constructor
  · intro h
    cases k with
    | sequential steps =>
      cases h with
      | sequential h =>
        refine .sequential ((List.forall₂_map_left_iff.1 h).imp fun s t hst => ?_)
        exact ⟨hst.child, hst.mapping⟩
    | parallel branches =>
      cases h with
      | parallel h => exact .parallel (List.forall₂_map_left_iff.1 h)
    | switch condition cases fallback =>
      cases h with
      | switch _ hcases hfallback =>
        refine .switch condition ((List.forall₂_map_left_iff.1 hcases).imp fun c d hcd => ?_) ?_
        · exact ⟨hcd.key, hcd.child⟩
        · cases fallback with
          | none =>
            cases hfallback
            exact .none
          | some c =>
            cases hfallback with
            | some h => exact .some h
    | subWorkflow target =>
      cases h with
      | subWorkflow h => exact .subWorkflow h
    | llm template | tool name | http | jsonExtract path =>
      cases h
      constructor
  · intro h
    rw [← k'.map_id]
    exact h.map (fun _ _ ht => ht) fun _ _ hc => hc

end Kind

end WorkflowEngine
